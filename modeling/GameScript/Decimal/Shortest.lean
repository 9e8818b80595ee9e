/-!
# Shortest decimals of binary64 values

A finite binary64 value `x = m · 2^q` is the reading of every real in an
interval around it: halfway to each neighbour, the ends included exactly when
`m` is even (reading rounds to nearest, ties to even). `shortest` finds the
decimal with the fewest significant digits in that interval, and of two such
decimals the one nearer to `x`, an exact tie going to the even one.

The search tries 1, 2, … 17 significant digits. At each precision the
interval can only hold one of the two decimals of that precision next to `x`
if it holds any, so only those two are tested, in exact `Nat` arithmetic.
-/

namespace GameScript

namespace Decimal

/-- A finite non-negative binary64 value, `m · 2^q`. -/
structure Binary where
  m : Nat
  q : Int
  /-- The gap to the value below is half the gap to the value above. -/
  narrowBelow : Bool
  deriving Repr, DecidableEq

/-- The magnitude of a finite value given by its bits (the sign is ignored). -/
def Binary.ofBits (b : UInt64) : Binary :=
  let e := ((b >>> 52) &&& 0x7FF).toNat
  let f := (b &&& 0xFFFFFFFFFFFFF).toNat
  if e == 0 then ⟨f, -1074, false⟩ else ⟨Nat.pow 2 52 + f, (e : Int) - 1075, f == 0 && e > 1⟩

/-- `digits · 10^exp`. -/
structure Dec where
  digits : Nat
  exp : Int
  deriving Repr, DecidableEq

/-- Compares `a · 10^i` with `n · 2^j`, exactly. -/
def cmpScaled (a : Nat) (i : Int) (n : Nat) (j : Int) : Ordering :=
  compare (a * Nat.pow 10 i.toNat * Nat.pow 2 (-j).toNat) (n * Nat.pow 2 j.toNat * Nat.pow 10 (-i).toNat)

/-- `d` lies among the reals that read as `x`. -/
def Binary.readsBack (x : Binary) (d : Dec) : Bool :=
  let lo := if x.narrowBelow then 4 * x.m - 1 else 4 * x.m - 2
  let hi := 4 * x.m + 2
  let incl := x.m % 2 == 0
  let cl := cmpScaled d.digits d.exp lo (x.q - 2)
  let ch := cmpScaled d.digits d.exp hi (x.q - 2)
  (cl == .gt || (incl && cl == .eq)) && (ch == .lt || (incl && ch == .eq))

/-- The decimals `⌊x / 10^e⌋ · 10^e` and the next one up, with whether `x`
lies exactly on the first, and the distances from `x` to both, scaled alike. -/
def Binary.around (x : Binary) (e : Int) : Nat × Nat × Nat :=
  let num := x.m * Nat.pow 2 x.q.toNat * Nat.pow 10 (-e).toNat
  let den := Nat.pow 2 (-x.q).toNat * Nat.pow 10 e.toNat
  (num / den, num % den, den - num % den)

/-- The number of decimal digits of a positive number. -/
def digitCount (n : Nat) : Nat := (Nat.toDigits 10 n).length

/-- The exponent `E` with `10^E ≤ x < 10^(E+1)`, for positive `x`, found
from an estimate by correcting it at most a few times. -/
def Binary.log10 (x : Binary) : Int :=
  let bits : Int := (Nat.log2 x.m : Int) + x.q
  let est : Int := (bits * 78913) / 262144
  let fix (e : Int) : Int :=
    if cmpScaled 1 e x.m x.q == .gt then e - 1
    else if cmpScaled 1 (e + 1) x.m x.q != .gt then e + 1
    else e
  fix (fix (fix est))

/-- Removes trailing zeros of the digits into the exponent. -/
def Dec.normalize (d : Dec) : Dec :=
  go 20 d
where
  go : Nat → Dec → Dec
    | 0, d => d
    | n + 1, d => if d.digits != 0 && d.digits % 10 == 0 then go n ⟨d.digits / 10, d.exp + 1⟩ else d

/-- The two candidates at the grid `10^e`: the nearer one that reads back,
ties going to the even one. -/
def Binary.pick (x : Binary) (e : Int) : Option Dec :=
  let (lo, below, above) := x.around e
  let a : Dec := ⟨lo, e⟩
  let b : Dec := ⟨lo + 1, e⟩
  match x.readsBack a, (below != 0 && x.readsBack b) with
  | true, true =>
    if below < above then some a
    else if above < below then some b
    else if lo % 2 == 0 then some a else some b
  | true, false => some a
  | false, true => some b
  | false, false => none

/-- The shortest decimal that reads back as the positive value `x`. -/
def Binary.shortest (x : Binary) : Dec :=
  let top := x.log10
  let found := (List.range 17).findSome? fun (p : Nat) => x.pick (top - (p : Int))
  (found.getD ⟨x.m, x.q⟩).normalize

end Decimal

end GameScript
