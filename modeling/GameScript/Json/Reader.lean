import GameScript.Json.Problem
/-!
# Reading JSON into typed values

A JSON text is read straight into the value it describes, character by
character, so that the first problem met is the one reported, at the place
where it was met. The reader stops at the first problem; a text with a type
problem early and a syntax problem later reports the type problem.

Where a problem is reported:

* a problem found by looking at the next character, without taking it, is
  placed one byte further on (after that character);
* a problem found after taking characters is placed where the reader stands;
* a problem about a value as a whole (a missing field, a duplicate field, a
  value out of range) is placed where the reader stands once it has finished
  with the enclosing brackets, as far as it got.

Lines count line feeds from 1; columns count bytes since the last line feed.
Blanks are space, tab, line feed and carriage return. Arrays and objects nest
at most 127 deep.

Every loop here runs on fuel: `fuelFor` gives more than any text of its
length can use, since each round consumes at least one character.
-/

namespace GameScript

namespace Json

/-- The unread rest of a JSON text and where the reader stands. -/
structure Input where
  rest : List Char
  line : Nat := 1
  column : Nat := 0
  /-- How many more arrays and objects may open. -/
  depth : Nat := 128
  deriving Inhabited

namespace Input

/-- Line and column of the reader. -/
def position (i : Input) : Nat × Nat := (i.line, i.column)

/-- Line and column one byte past the reader (at the end, the end). -/
def peekPosition (i : Input) : Nat × Nat :=
  match i.rest with
  | '\n' :: _ => (i.line + 1, 0)
  | _ :: _ => (i.line, i.column + 1)
  | [] => (i.line, i.column)

/-- Takes one character. -/
def advance (i : Input) : Input :=
  match i.rest with
  | c :: more =>
    if c == '\n' then { i with rest := more, line := i.line + 1, column := 0 }
    else { i with rest := more, column := i.column + c.utf8Size }
  | [] => i

/-- Takes the characters at the front that satisfy `p`. -/
def takeWhile (p : Char → Bool) (i : Input) : List Char × Input :=
  let cs := i.rest.takeWhile p
  (cs, cs.foldl (fun acc _ => acc.advance) i)

end Input

/-- Fuel for reading a text of `n` characters. -/
def fuelFor (n : Nat) : Nat := 4 * (n + 4)

/-- A reader: fails with a placed or unplaced problem, and keeps its position
when it fails. -/
abbrev Reader := ExceptT Error (StateM Input)

/-- A reader of values of one type, given fuel. -/
abbrev Decoder (α : Type) := Nat → Reader α

/-- The next character, not taken. -/
def peek : Reader (Option Char) := return (← get).rest.head?

/-- Takes one character. -/
def skip : Reader Unit := modify Input.advance

/-- Takes and returns the next character, if any. -/
def next : Reader (Option Char) := do
  let c ← peek
  skip
  return c

/-- Skips blanks and looks at the next character. -/
def blanks : Reader (Option Char) := do
  modify fun i => (i.takeWhile fun c => c == ' ' || c == '\n' || c == '\t' || c == '\r').2
  peek

/-- Fails with `p` placed where the reader stands. -/
def fail (p : Problem) : Reader α := do throw ⟨p, some (← get).position⟩

/-- Fails with `p` placed one byte past the reader. -/
def failAhead (p : Problem) : Reader α := do throw ⟨p, some (← get).peekPosition⟩

/-- Fails with `p`, to be placed by an enclosing reader. -/
def failUnplaced (p : Problem) : Reader α := throw ⟨p, none⟩

/-- Places an unplaced failure of `x` where the reader then stands. -/
def placed (x : Reader α) : Reader α :=
  tryCatch x fun e => do
    match e.position with
    | some _ => throw e
    | none => throw { e with position := some (← get).position }

/-- Runs `x` and returns its outcome instead of failing. -/
def attempt (x : Reader α) : Reader (Except Error α) :=
  tryCatch (Except.ok <$> x) fun e => pure (.error e)

/-- The rest of a literal word, its first character taken. A wrong
character is placed after its first byte, as if that byte alone were taken. -/
def expectWord : List Char → Reader Unit
  | [] => pure ()
  | c :: cs => do
    match ← peek with
    | none => fail .eofWhileParsingValue
    | some d => if d == c then do skip; expectWord cs else failAhead .expectedSomeIdent

/-! ## Numbers -/

/-- A number as read: a whole number that fits 64 bits without sign, a
negative one that fits 64 bits with sign, or anything else as a float. -/
inductive Number where
  | unsigned (n : Nat)
  | signed (i : Int)
  | float (f : Float)
  deriving Inhabited

/-- How a number is described when it is not wanted. -/
def Number.found : Number → Found
  | .unsigned n => .unsigned n
  | .signed i => .signed i
  | .float f => .float f

/-- The largest unsigned 64-bit number. -/
def maxUnsigned : Nat := Nat.pow 2 64 - 1

/-- The largest signed 32-bit number, the bound of exponents. -/
def maxExponent : Nat := Nat.pow 2 31 - 1

def digitValue (c : Char) : Nat := c.toNat - '0'.toNat

/-- Powers of ten up to `10^308`, rounded to the nearest binary64 value. -/
def pow10 (k : Nat) : Float := Float.ofScientific 1 false k

/-- `significand · 10^exponent` as binary64 arithmetic computes it: one
multiplication or division by a power of ten, after dividing by `10^308`
while the exponent is too small. Too large is a problem, not infinity. -/
def floatOfParts (positive : Bool) (significand : Nat) (exponent : Int) : Reader Float := do
  let f := go 8 (Float.ofNat significand) exponent
  match f with
  | none => fail .numberOutOfRange
  | some f => return if positive then f else -f
where
  go : Nat → Float → Int → Option Float
    | 0, f, _ => some f
    | n + 1, f, e =>
      if e.natAbs ≤ 308 then
        if e ≥ 0 then
          let g := f * pow10 e.natAbs
          if g.isInf then none else some g
        else some (f / pow10 e.natAbs)
      else if f == 0 then some f
      else if e ≥ 0 then none
      else go n (f / pow10 308) (e + 308)

/-- The value of a digit string. -/
def digitsValue (ds : List Char) : Nat := ds.foldl (fun acc c => acc * 10 + digitValue c) 0

/-- The longest front of `ds` whose value fits 64 bits, its value, and the
rest. -/
def fittingDigits (ds : List Char) : Nat × List Char :=
  go 0 ds
where
  go (acc : Nat) : List Char → Nat × List Char
    | [] => (acc, [])
    | c :: cs =>
      let v := acc * 10 + digitValue c
      if v > maxUnsigned then (acc, c :: cs) else go v cs

/-- The digits at the front. -/
def takeDigits : Reader (List Char) := do
  let (ds, i) := (← get).takeWhile Char.isDigit
  set i
  return ds

/-- An exponent after `e`, the `e` not yet taken. -/
def readExponent (positive : Bool) (significand : Nat) (start : Int) : Reader Float := do
  skip
  let positiveExp ← do
    match ← peek with
    | some '+' => skip; pure true
    | some '-' => skip; pure false
    | _ => pure true
  match ← peek with
  | none => fail .eofWhileParsingValue
  | some c =>
    if !c.isDigit then failAhead .invalidNumber else
    skip
    let ds := (← get).rest.takeWhile Char.isDigit
    match fittingExp (digitValue c) ds with
    | (v, none) =>
      let _ ← takeDigits
      let e : Int := if positiveExp then start + v else start - v
      let e : Int := if e > (maxExponent : Int) then (maxExponent : Int)
        else if e < -((maxExponent : Int) + 1) then -((maxExponent : Int) + 1) else e
      floatOfParts positive significand e
    | (_, some used) =>
      -- the digit that overflows is taken before the verdict
      modify fun i => (List.replicate (used + 1) ()).foldl (fun acc _ => acc.advance) i
      if significand != 0 && positiveExp then fail .numberOutOfRange
      else
        let _ ← takeDigits
        return if positive then 0.0 else -0.0
where
  /-- The exponent's value, or how many digits after the first fit before
  one makes it exceed 31 bits. -/
  fittingExp (first : Nat) (ds : List Char) : Nat × Option Nat :=
    go first 0 ds
  go (acc : Nat) (used : Nat) : List Char → Nat × Option Nat
    | [] => (acc, none)
    | c :: cs =>
      let v := acc * 10 + digitValue c
      if v > maxExponent then (acc, some used)
      else go v (used + 1) cs

/-- The fraction after `.`, the point not yet taken. -/
def readFraction (positive : Bool) (significand : Nat) (before : Int) : Reader Float := do
  skip
  let ds ← takeDigits
  let (v, extra) := fittingAfter significand ds
  let used := ds.length - extra.length
  if ds.isEmpty then
    match ← peek with
    | some _ => failAhead .invalidNumber
    | none => failAhead .eofWhileParsingValue
  else
    let e := before - used
    match ← peek with
    | some 'e' | some 'E' => readExponent positive v e
    | _ => floatOfParts positive v e
where
  fittingAfter (acc : Nat) : List Char → Nat × List Char
    | [] => (acc, [])
    | c :: cs =>
      let v := acc * 10 + digitValue c
      if v > maxUnsigned then (acc, c :: cs) else fittingAfter v cs

/-- A number whose sign, if any, is taken. -/
def readNumber (positive : Bool) : Reader Number := do
  match ← peek with
  | none => fail .eofWhileParsingValue
  | some '0' =>
    skip
    match ← peek with
    | some c => if c.isDigit then failAhead .invalidNumber else afterWhole positive 0 0
    | none => afterWhole positive 0 0
  | some c =>
    if !c.isDigit then failAhead .invalidNumber else
    skip
    let ds ← takeDigits
    let (v, extra) := fittingDigits (c :: ds)
    if extra.isEmpty then afterWhole positive v 0
    else afterLong positive v extra.length
where
  afterWhole (positive : Bool) (v : Nat) (_ : Nat) : Reader Number := do
    match ← peek with
    | some '.' => return .float (← readFraction positive v 0)
    | some 'e' | some 'E' => return .float (← readExponent positive v 0)
    | _ =>
      if positive then return .unsigned v
      else if v == 0 then return .float (-0.0)
      else if v > Nat.pow 2 63 then return .float (-(Float.ofNat v))
      else return .signed (-(v : Int))
  afterLong (positive : Bool) (v : Nat) (dropped : Nat) : Reader Number := do
    match ← peek with
    | some '.' => return .float (← readFraction positive v dropped)
    | some 'e' | some 'E' => return .float (← readExponent positive v dropped)
    | _ => return .float (← floatOfParts positive v dropped)

/-! ## Strings -/

/-- Line and column after taking `k` bytes of `cs` from `pos`; a character
longer than what is left to take is entered part way. -/
def positionAfterBytes : Nat → List Char → Nat × Nat → Nat × Nat
  | 0, _, pos => pos
  | _, [], pos => pos
  | k + 1, c :: cs, (line, column) =>
    if c == '\n' then positionAfterBytes k cs (line + 1, 0)
    else if c.utf8Size ≤ k + 1 then positionAfterBytes (k + 1 - c.utf8Size) cs (line, column + c.utf8Size)
    else (line, column + k + 1)

/-- The value of a hexadecimal digit. -/
def hexValue? (x : Char) : Option Nat :=
  if x.isDigit then some (digitValue x)
  else if 'a' ≤ x && x ≤ 'f' then some (x.toNat - 'a'.toNat + 10)
  else if 'A' ≤ x && x ≤ 'F' then some (x.toNat - 'A'.toNat + 10)
  else none

/-- The value of the four hexadecimal digits in the next four bytes, taking
them. Fewer than four bytes left is the end of a string; four bytes that are
not all hexadecimal digits are a bad escape, placed after them. -/
def readHex4 : Reader Nat := do
  let i ← get
  if (i.rest.take 4).foldl (fun n c => n + c.utf8Size) 0 < 4 then
    set (i.rest.foldl (fun acc _ => acc.advance) i)
    fail .eofWhileParsingString
  else
    let bad : Error := ⟨.invalidEscape, some (positionAfterBytes 4 i.rest i.position)⟩
    match i.rest with
    | a :: b :: c :: d :: _ =>
      match hexValue? a, hexValue? b, hexValue? c, hexValue? d with
      | some w, some x, some y, some z =>
        set (i.advance.advance.advance.advance)
        return ((w * 16 + x) * 16 + y) * 16 + z
      | _, _, _, _ => throw bad
    | _ => throw bad

/-- A `\u` escape after the `u`: a character, or a surrogate pair written as
two escapes. -/
def readUnicodeEscape : Reader Char := do
  let n ← readHex4
  if 0xDC00 ≤ n && n ≤ 0xDFFF then fail .loneLeadingSurrogate
  else if n < 0xD800 || n > 0xDBFF then return Char.ofNat n
  else
    match ← peek with
    | none => fail .eofWhileParsingString
    | some '\\' =>
      skip
      match ← peek with
      | none => fail .eofWhileParsingString
      | some 'u' =>
        skip
        let n2 ← readHex4
        if n2 < 0xDC00 || n2 > 0xDFFF then fail .loneLeadingSurrogate
        else return Char.ofNat (((n - 0xD800) * 1024 + (n2 - 0xDC00)) + 0x10000)
      | some _ => failAhead .unexpectedEndOfHexEscape
    | some _ => failAhead .unexpectedEndOfHexEscape

/-- The character a one-letter escape stands for. -/
def simpleEscape? : Char → Option Char
  | '"' => some '"'
  | '\\' => some '\\'
  | '/' => some '/'
  | 'b' => some '\x08'
  | 'f' => some '\x0c'
  | 'n' => some '\n'
  | 'r' => some '\r'
  | 't' => some '\t'
  | _ => none

/-- The character an escape stands for, the backslash taken. A wrong letter
is placed after its first byte. -/
def readEscape : Reader Char := do
  match ← peek with
  | none => fail .eofWhileParsingString
  | some 'u' => skip; readUnicodeEscape
  | some c =>
    match simpleEscape? c with
    | some d => skip; return d
    | none => failAhead .invalidEscape

/-- The rest of a string, its opening quote taken. -/
def readStringBody : Decoder String := fun fuel => go fuel []
where
  go : Nat → List Char → Reader String
    | 0, acc => return String.ofList acc.reverse
    | n + 1, acc => do
      match ← peek with
      | none => fail .eofWhileParsingString
      | some '"' => skip; return String.ofList acc.reverse
      | some '\\' => skip; let c ← readEscape; go n (c :: acc)
      | some c =>
        if c.toNat < 0x20 then skip; fail .controlCharacter
        else skip; go n (c :: acc)

/-- Skips the rest of a string, its opening quote taken. -/
def skipStringBody : Decoder Unit
  | 0 => pure ()
  | n + 1 => do
    match ← peek with
    | none => fail .eofWhileParsingString
    | some '"' => skip
    | some '\\' =>
      skip
      match ← peek with
      | none => fail .eofWhileParsingString
      | some c =>
        if c == 'u' then skip; let _ ← readHex4; skipStringBody n
        else if (simpleEscape? c).isSome then skip; skipStringBody n
        else failAhead .invalidEscape
    | some c =>
      if c.toNat < 0x20 then fail .controlCharacter
      else skip; skipStringBody n

/-! ## Values of the wrong type -/

/-- Fails because the next value is not of the expected type, describing
what it is (reading it if it is a scalar). -/
def mismatch (expected : String) (fuel : Nat) : Reader α := do
  let found ← do
    match ← peek with
    | some 'n' => skip; expectWord "ull".toList; pure Found.null
    | some 't' => skip; expectWord "rue".toList; pure (Found.bool true)
    | some 'f' => skip; expectWord "alse".toList; pure (Found.bool false)
    | some '-' => skip; pure (← readNumber false).found
    | some '"' => skip; pure (Found.string (← readStringBody fuel))
    | some '[' => pure Found.sequence
    | some '{' => pure Found.map
    | some c => if c.isDigit then pure (← readNumber true).found else failAhead .expectedSomeValue
    | none => failAhead .expectedSomeValue
  fail (.invalidType found expected)

/-! ## Skipping a value -/

/-- Skips a whole number, fraction and exponent included. -/
def skipNumber : Reader Unit := do
  match ← peek with
  | some '0' =>
    skip
    match ← peek with
    | some d => if d.isDigit then failAhead .invalidNumber else pure ()
    | none => pure ()
  | some d => if d.isDigit then skip; let _ ← takeDigits else failAhead .invalidNumber
  | none => fail .invalidNumber
  match ← peek with
  | some '.' =>
    skip
    let ds ← takeDigits
    if ds.isEmpty then failAhead .invalidNumber
    match ← peek with
    | some 'e' | some 'E' => skipExponent
    | _ => pure ()
  | some 'e' | some 'E' => skipExponent
  | _ => pure ()
where
  skipExponent : Reader Unit := do
    skip
    match ← peek with
    | some '+' | some '-' => skip
    | _ => pure ()
    match ← peek with
    | some d => if d.isDigit then skip; let _ ← takeDigits else failAhead .invalidNumber
    | none => fail .invalidNumber

/-- Skips one value of any shape, keeping the open brackets on a stack. -/
def skipValue : Decoder Unit := fun fuel => value fuel []
where
  value : Nat → List Char → Reader Unit
    | 0, _ => pure ()
    | n + 1, stack => do
      let opened ← do
        match ← blanks with
        | none => failAhead .eofWhileParsingValue
        | some 'n' => skip; expectWord "ull".toList; pure none
        | some 't' => skip; expectWord "rue".toList; pure none
        | some 'f' => skip; expectWord "alse".toList; pure none
        | some '-' => skip; skipNumber; pure none
        | some '"' => skip; skipStringBody n; pure none
        | some '[' => skip; pure (some '[')
        | some '{' => skip; pure (some '{')
        | some c => if c.isDigit then skipNumber; pure none else failAhead .expectedSomeValue
      match opened with
      | some frame => after n stack false frame
      | none =>
        match stack with
        | frame :: more => after n more true frame
        | [] => pure ()
  /-- After a value inside `frame`: a comma, or the closing bracket. -/
  after : Nat → List Char → Bool → Char → Reader Unit
    | 0, _, _, _ => pure ()
    | n + 1, stack, comma, frame => do
      match ← blanks with
      | some ',' =>
        if comma then skip; entry n stack frame
        else entry n stack frame
      | some c =>
        if (c == ']' && frame == '[') || (c == '}' && frame == '{') then
          skip
          match stack with
          | f :: more => after n more true f
          | [] => pure ()
        else if comma then
          failAhead (if frame == '[' then .expectedListCommaOrEnd else .expectedObjectCommaOrEnd)
        else entry n stack frame
      | none => failAhead (if frame == '[' then .eofWhileParsingList else .eofWhileParsingObject)
  /-- The next entry of `frame`: in an object a key and a colon first. -/
  entry : Nat → List Char → Char → Reader Unit
    | 0, _, _ => pure ()
    | n + 1, stack, frame => do
      if frame == '{' then
        match ← blanks with
        | some '"' => skip
        | some _ => failAhead .keyMustBeAString
        | none => failAhead .eofWhileParsingObject
        skipStringBody n
        match ← blanks with
        | some ':' => skip
        | some _ => failAhead .expectedColon
        | none => failAhead .eofWhileParsingObject
      value n (frame :: stack)

/-! ## Scalars -/

/-- A string. -/
def readString : Decoder String := fun fuel => placed do
  match ← blanks with
  | none => failAhead .eofWhileParsingValue
  | some '"' => skip; readStringBody fuel
  | some _ => mismatch "a string" fuel

/-- `true` or `false`. -/
def readBool : Decoder Bool := fun fuel => placed do
  match ← blanks with
  | none => failAhead .eofWhileParsingValue
  | some 't' => skip; expectWord "rue".toList; return true
  | some 'f' => skip; expectWord "alse".toList; return false
  | some _ => mismatch "a boolean" fuel

/-- A whole number below `2^32`. -/
def readU32 : Decoder Nat := fun fuel => placed do
  let n ← do
    match ← blanks with
    | none => failAhead .eofWhileParsingValue
    | some '-' => skip; readNumber false
    | some c => if c.isDigit then readNumber true else mismatch "u32" fuel
  match n with
  | .unsigned v => if v < Nat.pow 2 32 then return v else failUnplaced (.invalidValue (.unsigned v) "u32")
  | .signed i => failUnplaced (.invalidValue (.signed i) "u32")
  | .float f => failUnplaced (.invalidType (.float f) "u32")

/-- One of the named variants, as its index: written as its name in a
string, or as an object with the name as its only key and `null`. -/
def readVariant (variants : List String) : Decoder Nat := fun fuel => do
  let lookup (name : String) : Reader Nat :=
    match variants.idxOf? name with
    | some k => pure k
    | none => failUnplaced (.unknownVariant name variants)
  match ← blanks with
  | none => failAhead .eofWhileParsingValue
  | some '"' => placed do skip; lookup (← readStringBody fuel)
  | some '{' =>
    let i ← get
    if i.depth ≤ 1 then failAhead .recursionLimitExceeded
    set { i with depth := i.depth - 1 }
    skip
    let k ← placed do
      match ← blanks with
      | some '"' => skip; lookup (← readStringBody fuel)
      | none => failAhead .eofWhileParsingValue
      | some _ => mismatch "variant identifier" fuel
    match ← blanks with
    | some ':' => skip
    | some _ => failAhead .expectedColon
    | none => failAhead .eofWhileParsingObject
    placed do
      match ← blanks with
      | none => failAhead .eofWhileParsingValue
      | some 'n' => skip; expectWord "ull".toList
      | some _ => mismatch "unit" fuel
    modify fun i => { i with depth := i.depth + 1 }
    match ← blanks with
    | some '}' => skip; return k
    | some _ => fail .expectedSomeValue
    | none => fail .eofWhileParsingObject
  | some _ => failAhead .expectedSomeValue

/-! ## Arrays, objects and records -/

/-- Opens an array or object: one level deeper, the bracket taken. -/
def enter : Reader Unit := do
  let i ← get
  if i.depth ≤ 1 then failAhead .recursionLimitExceeded
  set { i with depth := i.depth - 1 }
  skip

/-- Leaves an array or object's contents. -/
def leave : Reader Unit := modify fun i => { i with depth := i.depth + 1 }

/-- The end of an array. -/
def closeArray : Reader Unit := do
  match ← blanks with
  | some ']' => skip
  | some ',' =>
    skip
    match ← blanks with
    | some ']' => failAhead .trailingComma
    | _ => failAhead .trailingCharacters
  | some _ => failAhead .trailingCharacters
  | none => failAhead .eofWhileParsingList

/-- The end of an object. -/
def closeObject : Reader Unit := do
  match ← blanks with
  | some '}' => skip
  | some ',' => failAhead .trailingComma
  | some _ => failAhead .trailingCharacters
  | none => failAhead .eofWhileParsingObject

/-- Runs the contents reader of a bracketed value and then its closer; the
first failure wins, and the closer runs even after a failure. -/
def bracketed (contents : Reader α) (closer : Reader Unit) : Reader α := do
  enter
  let r ← attempt contents
  leave
  let c ← attempt closer
  match r, c with
  | .ok v, .ok () => return v
  | .error e, _ => throw e
  | .ok _, .error e => throw e

/-- Whether another array element follows, taking the comma before it. -/
def nextElement (first : Bool) : Reader Bool := do
  match ← blanks with
  | some ']' => return false
  | some ',' =>
    if first then return true
    skip
    match ← blanks with
    | some ']' => failAhead .trailingComma
    | some _ => return true
    | none => failAhead .eofWhileParsingValue
  | some _ => if first then return true else failAhead .expectedListCommaOrEnd
  | none => failAhead .eofWhileParsingList

/-- The key of the next object entry, taking the comma before it. -/
def nextKey (first : Bool) (fuel : Nat) : Reader (Option String) := do
  let key : Reader (Option String) := do
    match ← blanks with
    | some '"' => skip; return some (← readStringBody fuel)
    | some '}' => failAhead .trailingComma
    | some _ => failAhead .keyMustBeAString
    | none => failAhead .eofWhileParsingValue
  match ← blanks with
  | some '}' => return none
  | some ',' =>
    if first then failAhead .keyMustBeAString
    skip
    key
  | some _ => if first then key else failAhead .expectedObjectCommaOrEnd
  | none => failAhead .eofWhileParsingObject

/-- The colon between a key and its value. -/
def colon : Reader Unit := do
  match ← blanks with
  | some ':' => skip
  | some _ => failAhead .expectedColon
  | none => failAhead .eofWhileParsingObject

/-- An array of values. -/
def readArray (elem : Decoder α) : Decoder (List α) := fun fuel => placed do
  match ← blanks with
  | none => failAhead .eofWhileParsingValue
  | some '[' => bracketed (elements fuel true []) closeArray
  | some _ => mismatch "a sequence" fuel
where
  elements : Nat → Bool → List α → Reader (List α)
    | 0, _, acc => return acc.reverse
    | n + 1, first, acc => do
      if ← nextElement first then elements n false ((← elem n) :: acc)
      else return acc.reverse

/-- An object of string keys, in the order written; a key written twice keeps
its first place and its last value. -/
def readObject (value : Decoder α) : Decoder (List (String × α)) := fun fuel => placed do
  match ← blanks with
  | none => failAhead .eofWhileParsingValue
  | some '{' => bracketed (entries fuel true []) closeObject
  | some _ => mismatch "a map" fuel
where
  entries : Nat → Bool → List (String × α) → Reader (List (String × α))
    | 0, _, acc => return acc
    | n + 1, first, acc => do
      match ← nextKey first n with
      | none => return acc
      | some k =>
        colon
        let v ← value n
        let acc := if acc.any (·.1 == k) then acc.map fun (k2, v2) => if k2 == k then (k2, v) else (k2, v2)
          else acc ++ [(k, v)]
        entries n false acc

/-- A record type read from JSON: its name, its fields in order, which of
them must be present, and how each field's value is read into a partial
record that starts from the defaults. -/
structure Record (α : Type) where
  name : String
  fields : List String
  required : String → Bool
  defaults : α
  readField : Nat → α → Decoder α

/-- A record, written as an object (unknown keys ignored, a key twice is a
problem) or as an array of its fields in order. -/
def readRecord (r : Record α) : Decoder α := fun fuel => placed do
  match ← blanks with
  | none => failAhead .eofWhileParsingValue
  | some '{' => bracketed (byKey fuel true r.defaults []) closeObject
  | some '[' => bracketed (byPosition fuel 0 r.fields r.defaults) closeArray
  | some _ => mismatch ("struct " ++ r.name) fuel
where
  byKey : Nat → Bool → α → List Nat → Reader α
    | 0, _, acc, _ => return acc
    | n + 1, first, acc, seen => do
      match ← nextKey first n with
      | none =>
        match r.fields.find? (fun f => r.required f && !seen.contains (r.fields.idxOf f)) with
        | some f => failUnplaced (.missingField f)
        | none => return acc
      | some k =>
        match r.fields.idxOf? k with
        | some i =>
          if seen.contains i then failUnplaced (.duplicateField k)
          colon
          let acc ← r.readField i acc n
          byKey n false acc (i :: seen)
        | none =>
          colon
          skipValue n
          byKey n false acc seen
  byPosition : Nat → Nat → List String → α → Reader α
    | 0, _, _, acc => return acc
    | _, _, [], acc => return acc
    | n + 1, i, f :: more, acc => do
      if ← nextElement (i == 0) then
        let acc ← r.readField i acc n
        byPosition n (i + 1) more acc
      else if r.required f then
        let count := r.fields.length
        failUnplaced (.invalidLength i
          ("struct " ++ r.name ++ " with " ++ toString count ++ (if count == 1 then " element" else " elements")))
      else return acc

/-- Reads a whole text as one value: blanks may follow it, nothing else. -/
def Decoder.run (d : Decoder α) (text : String) : Except Error α :=
  let chars := text.toList
  let x : Reader α := do
    let v ← d (fuelFor chars.length)
    match ← blanks with
    | some _ => failAhead .trailingCharacters
    | none => return v
  (x.run.run { rest := chars }).1

end Json

end GameScript
