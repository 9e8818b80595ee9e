import Mathlib
import GameScript.Proofs.TreeShape
import GameScript.Proofs.Fuel
/-!
# Infix expressions follow the binding-power table

A standalone expression made of literals and infix operators is read by
precedence climbing over `TokenKind.infixPower`: after an operand, an operator
whose left power is at least the current minimum is taken, its right operand
is read with the operator's right power as the new minimum, and the node built
becomes the left operand of what follows.

* `InfixTree` is such an expression; `InfixTree.WellBound` is the table's rule
  at every node: the top operator of the left operand binds tighter on its
  right than the node's operator does on its left, and the top operator of the
  right operand binds at least as tightly on its left as the node's operator
  does on its right.
* `Climb` is precedence climbing as rules, the reference reader. What it
  builds is well bound, holds the tokens read in order, and stops only before
  an operator weaker than the minimum (`Climb.wellBound`, `Climb.tokens`,
  `Climb.stops`).
* The grammar's `exprBp` and `infixChain` follow the rules on such input
  (`Grammar.Climbs`): no problem is reported, the nesting counter never
  reaches its limit for up to a hundred operators, and the tree built is the
  one the rules give.

Main statement (`parseExpr_infix`): for a text whose significant tokens are
literals and infix operators alternating, at most a hundred operators,
`parseExpr` reports nothing, and under its root lies the tree of `Climb` over
those tokens, well bound and holding them in order.
-/

set_option autoImplicit false

namespace GameScript

/-- The left binding power of an operator token. -/
def Token.leftPower (t : Token) : Nat := (t.kind.infixPower.getD (0, 0)).1

/-- The right binding power of an operator token. -/
def Token.rightPower (t : Token) : Nat := (t.kind.infixPower.getD (0, 0)).2

/-- An expression of literals and infix operators. -/
inductive InfixTree where
  | leaf (lit : Token)
  | bin (lhs : InfixTree) (op : Token) (rhs : InfixTree)

namespace InfixTree

/-- The operands and operators, in order. -/
def tokens : InfixTree → List Token
  | leaf a => [a]
  | bin l o r => l.tokens ++ o :: r.tokens

/-- The top operator of a binary expression. -/
def op? : InfixTree → Option Token
  | leaf _ => none
  | bin _ o _ => some o

/-- The table's rule at every node. -/
def WellBound : InfixTree → Prop
  | leaf _ => True
  | bin l o r => l.WellBound ∧ r.WellBound ∧ (∀ p ∈ l.op?, o.leftPower < p.rightPower) ∧
      ∀ q ∈ r.op?, o.rightPower ≤ q.leftPower

/-- The bare tree the grammar builds for it. -/
def bare : InfixTree → BareTree
  | leaf a => .node .literal [.token a.kind]
  | bin l o r => .node .binExpr [l.bare, .token o.kind, r.bare]

/-- Its shape in a syntax tree: literal nodes and binary-expression nodes
over its tokens. -/
def toTokenTree : InfixTree → TokenTree
  | leaf a => .node .literal [.token a]
  | bin l o r => .node .binExpr [l.toTokenTree, .token o, r.toTokenTree]

/-- Filling its bare tree from its own tokens gives its shape. -/
theorem fill_bare (t : InfixTree) (rest : List Token) (h : ∀ x ∈ t.tokens, x.kind ≠ .eof) :
    t.bare.fill (t.tokens ++ rest) = ([t.toTokenTree], rest) := by
  induction t generalizing rest with
  | leaf a =>
    have ha : a.kind ≠ .eof := h a (by simp [tokens])
    simp [bare, tokens, toTokenTree, BareTree.fill, ha]
  | bin l o r ihl ihr =>
    have hl := ihl (o :: (r.tokens ++ rest)) fun x hx => h x (by simp [tokens, hx])
    have hr := ihr rest fun x hx => h x (by simp [tokens, hx])
    have ho : o.kind ≠ .eof := h o (by simp [tokens])
    simp only [tokens, List.append_assoc, List.cons_append] at hl ⊢
    simp [bare, toTokenTree, hl, hr, BareTree.fill, ho]

end InfixTree

/-! ## Precedence climbing as rules -/

/-- Operator and operand pairs, in order. -/
def pairTokens (ps : List (Token × Token)) : List Token := ps.flatMap fun p => [p.1, p.2]

@[simp] theorem pairTokens_nil : pairTokens [] = [] := rfl

@[simp] theorem pairTokens_cons (p : Token × Token) (ps : List (Token × Token)) :
    pairTokens (p :: ps) = p.1 :: p.2 :: pairTokens ps := rfl

theorem length_pairTokens (ps : List (Token × Token)) : (pairTokens ps).length = 2 * ps.length := by
  induction ps with
  | nil => rfl
  | cons p ps ih => simp [ih]; omega

theorem pairTokens_append (ps qs : List (Token × Token)) :
    pairTokens (ps ++ qs) = pairTokens ps ++ pairTokens qs := by
  simp [pairTokens]

/-- Reading stops before `ps` at minimum `min`: no operator follows, or one
whose left power is below the minimum. -/
def Stops (min : Nat) (ps : List (Token × Token)) : Prop := ∀ p ∈ ps.head?, p.1.leftPower < min

/-- Precedence climbing: after the left operand `lhs`, reading the operator
and operand pairs `ps` at minimum `min` builds `t` and leaves `rest`. -/
inductive Climb : Nat → InfixTree → List (Token × Token) → InfixTree → List (Token × Token) → Prop
  /-- Before a weaker operator, or at the end, the left operand is the result. -/
  | stop {min : Nat} {lhs : InfixTree} {ps : List (Token × Token)} :
      Stops min ps → Climb min lhs ps lhs ps
  /-- An operator strong enough is taken; its right operand is read at its
  right power, and the node becomes the left operand of what follows. -/
  | step {min : Nat} {lhs rhs t : InfixTree} {o a : Token} {ps mid rest : List (Token × Token)} :
      min ≤ o.leftPower → Climb o.rightPower (.leaf a) ps rhs mid →
      Climb min (.bin lhs o rhs) mid t rest → Climb min lhs ((o, a) :: ps) t rest

namespace Climb

variable {min : Nat} {lhs t : InfixTree} {ps rest : List (Token × Token)}

/-- Reading stops only where the rules allow. -/
theorem stops (h : Climb min lhs ps t rest) : Stops min rest := by
  induction h with
  | stop hs => exact hs
  | step _ _ _ _ ih => exact ih

/-- What is read is a prefix of the pairs, and the tree holds the left operand's
tokens followed by the tokens read. -/
theorem tokens (h : Climb min lhs ps t rest) :
    ∃ done, ps = done ++ rest ∧ t.tokens = lhs.tokens ++ pairTokens done := by
  induction h with
  | stop => exact ⟨[], by simp, by simp⟩
  | @step min lhs rhs t o a ps mid rest _ _ _ ihr iht =>
    obtain ⟨d1, rfl, h1⟩ := ihr
    obtain ⟨d2, rfl, h2⟩ := iht
    refine ⟨(o, a) :: (d1 ++ d2), by simp, ?_⟩
    rw [h2]
    simp [InfixTree.tokens, h1, pairTokens_append]

theorem length_le (h : Climb min lhs ps t rest) : rest.length ≤ ps.length := by
  obtain ⟨done, rfl, -⟩ := h.tokens
  simp

/-- Every operator at the top of what is built binds at least at the
minimum. -/
theorem top (h : Climb min lhs ps t rest) (hl : ∀ q ∈ lhs.op?, min ≤ q.leftPower) :
    ∀ q ∈ t.op?, min ≤ q.leftPower := by
  induction h with
  | stop => exact hl
  | step hmin _ _ _ iht =>
    refine iht ?_
    intro q hq
    obtain rfl : _ = q := by simpa [InfixTree.op?] using hq
    exact hmin

/-- What the rules build is well bound, provided the left operand is and its
top operator binds tighter than the operator that follows it. -/
theorem wellBound (h : Climb min lhs ps t rest) (hl : lhs.WellBound)
    (hnext : ∀ p ∈ lhs.op?, ∀ q ∈ ps.head?, q.1.leftPower < p.rightPower) : t.WellBound := by
  induction h with
  | stop => exact hl
  | @step min lhs rhs t o a ps mid rest _ hr _ ihr iht =>
    refine iht ⟨hl, ihr trivial (by simp [InfixTree.op?]), ?_, ?_⟩ ?_
    · exact fun p hp => hnext p hp (o, a) rfl
    · -- the right operand's top operator was taken at the right power
      exact hr.top (by simp [InfixTree.op?])
    · -- its operand stopped before the next operator, weaker than its right power
      intro p hp q hq
      obtain rfl : o = p := by simpa [InfixTree.op?] using hp
      exact hr.stops q hq

/-- The rules leave no choice: precedence climbing is a function of the
minimum, the left operand and the pairs. -/
theorem unique {t' : InfixTree} {rest' : List (Token × Token)} (h : Climb min lhs ps t rest)
    (h' : Climb min lhs ps t' rest') : t = t' ∧ rest = rest' := by
  induction h generalizing t' rest' with
  | stop hs =>
    cases h' with
    | stop => exact ⟨rfl, rfl⟩
    | step hmin _ _ => exact absurd (hs _ rfl) (Nat.not_lt.mpr hmin)
  | step hmin _ _ ihr iht =>
    cases h' with
    | stop hs => exact absurd (hs _ rfl) (Nat.not_lt.mpr hmin)
    | step _ hr' ht' =>
      obtain ⟨rfl, rfl⟩ := ihr hr'
      exact iht ht'

end Climb

/-! ## The grammar climbs -/

/-- The lexeme the grammar reads for a token of a standalone expression,
where no name is known as a function. -/
def Token.lexeme (t : Token) : Lexeme := ⟨t.kind, t.start, t.stop, false⟩

/-- Each pair is an infix operator and a literal operand. -/
def InfixPairs (ps : List (Token × Token)) : Prop :=
  ∀ p ∈ ps, p.1.kind.infixPower.isSome = true ∧ p.2.kind.isLiteral = true

instance (ps : List (Token × Token)) : Decidable (InfixPairs ps) :=
  inferInstanceAs (Decidable (∀ p ∈ ps, p.1.kind.infixPower.isSome = true ∧ p.2.kind.isLiteral = true))

theorem infixPower_eq {o : Token} (h : o.kind.infixPower.isSome = true) :
    o.kind.infixPower = some (o.leftPower, o.rightPower) := by
  obtain ⟨⟨l, r⟩, hlr⟩ := Option.isSome_iff_exists.mp h
  simp [Token.leftPower, Token.rightPower, hlr]

namespace Grammar

open Cursor

/-- `s'` goes on from `s` before the lexemes `rest`: no problem reported and
no parenthesis opened on the way. -/
structure Quiet (s s' : Cursor) (rest : List Lexeme) : Prop where
  rest : s'.rest = rest
  errors : s'.errors = s.errors
  parenDepth : s'.parenDepth = s.parenDepth

theorem Quiet.trans {s s1 s2 : Cursor} {r1 r2 : List Lexeme} (h1 : Quiet s s1 r1)
    (h2 : Quiet s1 s2 r2) : Quiet s s2 r2 :=
  ⟨h2.rest, h2.errors.trans h1.errors, h2.parenDepth.trans h1.parenDepth⟩

/-- Outside parentheses, taking a token moves past it alone. -/
theorem bumpAny_flat {s : Cursor} {l : Lexeme} {more : List Lexeme} (h : s.rest = l :: more)
    (hp : s.parenDepth = 0) (hl : l.kind ≠ .newline) :
    s.bumpAny.val = ([.token l.kind], { s with rest := more, lastEnd := l.stop }) := by
  obtain ⟨rest, paren, depth, nesting, lastEnd, errors⟩ := s
  dsimp only at h hp
  subst h hp
  simp [bumpAny, bumpAt, hl]

theorem literal_kind {k : TokenKind} (h : k.isLiteral = true) :
    k.prefixPower = none ∧ k ≠ .ident ∧ k ≠ .lParen ∧ k ≠ .newline := by
  revert h
  cases k <;> decide

theorem infix_kind {k : TokenKind} (h : k.infixPower.isSome = true) :
    (k ≠ .dot ∧ k ≠ .arrow ∧ k ≠ .lBracket) ∧ k ≠ .newline := by
  revert h
  cases k <;> decide

/-- Away from an access, the access chain leaves its operand as it is. -/
theorem accessChain_none (fuel : Nat) (s : Cursor) (lhs : List BareTree) (calls : Bool)
    (h : s.current ≠ .dot ∧ s.current ≠ .arrow ∧ s.current ≠ .lBracket) :
    ∃ n, accessChain fuel s lhs calls = (lhs, { s with nesting := n }) := by
  cases fuel with
  | zero => exact ⟨s.nesting, by simp [accessChain]⟩
  | succ fuel =>
    obtain ⟨hdot, harrow, hbr⟩ := h
    exact ⟨s.nesting + 1, by simp [accessChain, hdot, harrow, hbr]⟩

/-- A literal operand followed by an operator, or by nothing, is one literal
node. -/
theorem unary_literal {fuel : Nat} {s : Cursor} {a : Token} {more : List Lexeme}
    (hs : s.rest = a.lexeme :: more) (ha : a.kind.isLiteral = true) (hf : 3 ≤ fuel)
    (hdeep : s.nesting < nestingLimit) (hparen : s.parenDepth = 0)
    (hmore : ∀ l ∈ more.head?, l.kind.infixPower.isSome = true) :
    unary fuel s true = (some [(InfixTree.leaf a).bare], { s with rest := more, lastEnd := a.stop }) := by
  obtain ⟨f, rfl⟩ : ∃ f, fuel = f + 3 := ⟨fuel - 3, by omega⟩
  obtain ⟨hpre, hid, hlp, hnl⟩ := literal_kind ha
  have hcur : ∀ n : Nat, ({ s with nesting := n } : Cursor).current = a.kind := by
    simp [current, hs, Token.lexeme]
  have hbump := @bumpAny_flat { s with nesting := s.nesting + 1 } a.lexeme more hs hparen hnl
  -- after the literal comes an operator or nothing, never an access
  obtain ⟨n, hacc⟩ := accessChain_none (f + 1)
    { s with nesting := s.nesting + 1, rest := more, lastEnd := a.stop }
    [(InfixTree.leaf a).bare] true (by
      cases more with
      | nil => simp [current]
      | cons l _ => simpa [current] using (infix_kind (hmore l rfl)).1)
  rw [unary.eq_2, if_neg (by simp [tooDeep]; omega), unaryInner.eq_2]
  simp only [hcur, hpre]
  rw [primary.eq_2]
  simp only [Token.lexeme] at hbump
  simp [hcur, hid, hlp, ha, hbump, InfixTree.bare] at hacc ⊢
  simp [hacc]

/-- The expression functions follow the rules of `Climb` at a fuel, on
literals and infix operators outside parentheses, below the nesting limit:
nothing is reported and the tree built is the one the rules give. -/
structure Climbs (fuel : Nat) : Prop where
  exprBp : ∀ (s : Cursor) (min : Nat) (a : Token) (ps : List (Token × Token)),
    s.rest = (a :: pairTokens ps).map Token.lexeme → a.kind.isLiteral = true → InfixPairs ps →
    need 4 s ≤ fuel → s.nesting + ps.length < nestingLimit → s.parenDepth = 0 →
    ∃ t rest, Climb min (.leaf a) ps t rest ∧ (exprBp fuel s min).1 = [t.bare] ∧
      Quiet s (exprBp fuel s min).2 ((pairTokens rest).map Token.lexeme) ∧
      (exprBp fuel s min).2.nesting = s.nesting
  infixChain : ∀ (s : Cursor) (min : Nat) (lhs : InfixTree) (ps : List (Token × Token)),
    s.rest = (pairTokens ps).map Token.lexeme → InfixPairs ps →
    need 0 s ≤ fuel → s.nesting + ps.length < nestingLimit → s.parenDepth = 0 →
    ∃ t rest, Climb min lhs ps t rest ∧ (infixChain fuel s min [lhs.bare]).1 = [t.bare] ∧
      Quiet s (infixChain fuel s min [lhs.bare]).2 ((pairTokens rest).map Token.lexeme)

/-- At the end of the operators the chain stops with its left operand. -/
theorem infixChain_end {fuel : Nat} {s : Cursor} (min : Nat) (lhs : InfixTree) (hs : s.rest = []) :
    ∃ t rest, Climb min lhs [] t rest ∧ (infixChain fuel s min [lhs.bare]).1 = [t.bare] ∧
      Quiet s (infixChain fuel s min [lhs.bare]).2 ((pairTokens rest).map Token.lexeme) := by
  have hend : (infixChain fuel s min [lhs.bare]) = ([lhs.bare], s) := by
    cases fuel with
    | zero => rw [infixChain.eq_1]
    | succ fuel => simp [infixChain, current, hs, TokenKind.infixPower]
  exact ⟨lhs, [], Climb.stop (by simp [Stops]), by rw [hend], by rw [hend]; exact ⟨hs, rfl, rfl⟩⟩

theorem climbs_zero : Climbs 0 where
  exprBp s _ _ _ _ _ _ hneed _ _ := absurd hneed (by simp [need])
  infixChain s min lhs ps hs _ hneed _ _ := by
    -- no fuel is needed only where nothing is left
    have hnil : ps = [] := by
      have h0 : s.rest.length = 0 := by unfold need at hneed; omega
      rw [hs, List.length_map, length_pairTokens] at h0
      exact List.length_eq_zero_iff.mp (by omega)
    subst hnil
    exact infixChain_end min lhs (by simpa using hs)

section Succ

variable {fuel : Nat} (ih : Climbs fuel)
include ih

theorem exprBp_climbs (s : Cursor) (min : Nat) (a : Token) (ps : List (Token × Token))
    (hs : s.rest = (a :: pairTokens ps).map Token.lexeme) (ha : a.kind.isLiteral = true)
    (hps : InfixPairs ps) (hneed : need 4 s ≤ fuel + 1) (hnest : s.nesting + ps.length < nestingLimit)
    (hparen : s.parenDepth = 0) :
    ∃ t rest, Climb min (.leaf a) ps t rest ∧ (exprBp (fuel + 1) s min).1 = [t.bare] ∧
      Quiet s (exprBp (fuel + 1) s min).2 ((pairTokens rest).map Token.lexeme) ∧
      (exprBp (fuel + 1) s min).2.nesting = s.nesting := by
  have hf := le_of_need (by simp [hs]) hneed
  have hop : ∀ l ∈ ((pairTokens ps).map Token.lexeme).head?, l.kind.infixPower.isSome = true := by
    cases ps with
    | nil => simp
    | cons p ps => simpa [Token.lexeme] using (hps p (by simp)).1
  rw [exprBp.eq_2, unary_literal (by simpa using hs) ha (by omega) (by omega) hparen hop]
  -- the literal is the first left operand of the chain
  have hs1 : ({ s with rest := (pairTokens ps).map Token.lexeme, lastEnd := a.stop } : Cursor).rest =
      (pairTokens ps).map Token.lexeme := rfl
  obtain ⟨t, rest, hc, h1, hq⟩ := ih.infixChain _ min (.leaf a) ps hs1 hps
    (need_le_step (by simp [hs]) (by norm_num) hneed) (by simpa using hnest) hparen
  rcases hx : infixChain fuel { s with rest := (pairTokens ps).map Token.lexeme, lastEnd := a.stop }
    min [(InfixTree.leaf a).bare] with ⟨e, s2⟩
  rw [hx] at h1 hq
  dsimp only
  rw [hx]
  exact ⟨t, rest, hc, h1, ⟨hq.rest, hq.errors, hq.parenDepth⟩, rfl⟩

theorem infixChain_climbs (s : Cursor) (min : Nat) (lhs : InfixTree) (ps : List (Token × Token))
    (hs : s.rest = (pairTokens ps).map Token.lexeme) (hps : InfixPairs ps)
    (hneed : need 0 s ≤ fuel + 1) (hnest : s.nesting + ps.length < nestingLimit)
    (hparen : s.parenDepth = 0) :
    ∃ t rest, Climb min lhs ps t rest ∧ (infixChain (fuel + 1) s min [lhs.bare]).1 = [t.bare] ∧
      Quiet s (infixChain (fuel + 1) s min [lhs.bare]).2 ((pairTokens rest).map Token.lexeme) := by
  cases ps with
  | nil => exact infixChain_end min lhs (by simpa using hs)
  | cons p ps =>
    obtain ⟨o, a⟩ := p
    obtain ⟨ho, ha⟩ := hps (o, a) (by simp)
    have hcur : s.current = o.kind := by simp [current, hs, Token.lexeme]
    rw [infixChain.eq_2, hcur, infixPower_eq ho,
      @bumpAny_flat { s with nesting := s.nesting + 1 } o.lexeme _ (by simpa using hs) hparen
        (infix_kind ho).2]
    dsimp only
    by_cases hl : o.leftPower < min
    · -- an operator weaker than the minimum ends the chain
      rw [if_pos hl]
      exact ⟨lhs, _, Climb.stop (by simpa [Stops] using hl), rfl, ⟨hs, rfl, rfl⟩⟩
    rw [if_neg hl, if_neg (by simp [tooDeep] at hnest ⊢; omega)]
    -- the right operand is read at the operator's right power
    obtain ⟨tr, mid, hcr, hr1, hrq, hrn⟩ := ih.exprBp
      { s with
        nesting := s.nesting + 1
        rest := a.lexeme :: (pairTokens ps).map Token.lexeme
        lastEnd := o.lexeme.stop } o.rightPower a ps rfl ha
      (fun p hp => hps p (by simp [hp])) (need_le_step (by simp [hs]) (by norm_num) hneed)
      (by simp at hnest ⊢; omega) hparen
    rcases hx : exprBp fuel
      { s with
        nesting := s.nesting + 1
        rest := a.lexeme :: (pairTokens ps).map Token.lexeme
        lastEnd := o.lexeme.stop } o.rightPower with ⟨rhs, s2⟩
    rw [hx] at hr1 hrq hrn
    dsimp only at hr1 hrq hrn ⊢
    subst hr1
    -- the node built is the left operand of the rest of the chain
    obtain ⟨done, hsplit, -⟩ := hcr.tokens
    have hlen := hcr.length_le
    have hmid : InfixPairs mid := fun p hp =>
      hps p (List.mem_cons_of_mem _ (hsplit ▸ List.mem_append_right done hp))
    obtain ⟨t, rest, hct, ht1, htq⟩ := ih.infixChain s2 min (.bin lhs o tr) mid hrq.rest hmid
      (need_le_step (by simp [hrq.rest, hs, length_pairTokens]; omega) (by norm_num) hneed)
      (by rw [hrn]; simp only [List.length_cons] at hnest; omega) (by rw [hrq.parenDepth, hparen])
    exact ⟨t, rest, Climb.step (by omega) hcr hct, ht1,
      (Quiet.trans ⟨hrq.rest, hrq.errors, hrq.parenDepth⟩ htq)⟩

end Succ

theorem climbs : ∀ fuel, Climbs fuel
  | 0 => climbs_zero
  | fuel + 1 => ⟨exprBp_climbs (climbs fuel), infixChain_climbs (climbs fuel)⟩

/-- Without a line break in front, there is none to skip. -/
theorem eatLineBreaks_flat {s : Cursor} (h : ∀ l ∈ s.rest.head?, l.kind ≠ .newline) :
    s.eatLineBreaks = s.stay [] := by
  rw [eatLineBreaks]
  split
  · rename_i t more hr
    simp [hr] at h
    simp [h]
  · rfl

/-- A standalone expression of literals and infix operators is the tree the
rules give, alone under the root, with nothing reported. -/
theorem exprRoot_climbs (fuel : Nat) (a : Token) (ps : List (Token × Token))
    (ha : a.kind.isLiteral = true) (hps : InfixPairs ps) (hlen : ps.length < nestingLimit)
    (hf : need 5 { rest := (a :: pairTokens ps).map Token.lexeme } ≤ fuel) :
    ∃ t, Climb 0 (.leaf a) ps t [] ∧
      (exprRoot fuel { rest := (a :: pairTokens ps).map Token.lexeme }).1 = .node .exprRoot [t.bare] ∧
      (exprRoot fuel { rest := (a :: pairTokens ps).map Token.lexeme }).2.errors = #[] := by
  obtain ⟨f, rfl⟩ : ∃ f, fuel = f + 1 := ⟨fuel - 1, by unfold need at hf; omega⟩
  have hnl : a.kind ≠ .newline := (literal_kind ha).2.2.2
  obtain ⟨t, rest, hc, h1, hq, -⟩ := (climbs f).exprBp { rest := (a :: pairTokens ps).map Token.lexeme }
    0 a ps rfl ha hps (by unfold need at hf ⊢; omega) (by simpa using hlen) rfl
  -- nothing binds below the lowest power, so the whole input is read
  have hrest : rest = [] := by
    cases rest with
    | nil => rfl
    | cons p _ => exact absurd (hc.stops p rfl) (Nat.not_lt_zero _)
  subst hrest
  rcases hx : exprBp f { rest := (a :: pairTokens ps).map Token.lexeme } 0 with ⟨e, s2⟩
  rw [hx] at h1 hq
  dsimp only at h1 hq
  have hend : s2.eatLineBreaks = s2.stay [] := eatLineBreaks_flat (by simp [hq.rest])
  refine ⟨t, hc, ?_, ?_⟩ <;>
  · rw [exprRoot, eatLineBreaks_flat (by simpa [Token.lexeme] using hnl)]
    dsimp only [stay]
    rw [expression.eq_2, hx]
    dsimp only
    rw [hend]
    simp [stay, atEnd, current, hq.rest, hq.errors, h1]

end Grammar

/-- The lexemes of a standalone expression: its significant tokens. -/
theorem ofTokens_standalone (tokens : List Token) :
    Lexeme.ofTokens tokens (fun _ => false) =
      (tokens.filter fun t => !t.kind.isTrivia && t.kind != .eof).map Token.lexeme := by
  induction tokens with
  | nil => rfl
  | cons t ts ih =>
    by_cases h : t.kind.isTrivia || t.kind == .eof
    · simp only [Bool.or_eq_true, beq_iff_eq] at h
      rcases h with h | h <;> simp_all [Lexeme.ofTokens]
    · simp only [Bool.or_eq_true, beq_iff_eq, not_or, Bool.not_eq_true] at h
      simp_all [Lexeme.ofTokens, Token.lexeme]

/-- For a text whose significant tokens are literals and infix operators
alternating, fewer operators than the nesting limit, `parseExpr` reports
nothing and yields under its root the tree precedence climbing builds: well
bound, and holding the tokens in order. -/
theorem parseExpr_infix (text : String) (a : Token) (ps : List (Token × Token))
    (hsig : (lex text).filter (fun t => !t.kind.isTrivia && t.kind != .eof) = a :: pairTokens ps)
    (ha : a.kind.isLiteral = true) (hps : InfixPairs ps) (hlen : ps.length < nestingLimit) :
    (parseExpr text).errors = [] ∧
      ∃ t, Climb 0 (.leaf a) ps t [] ∧ t.WellBound ∧ t.tokens = a :: pairTokens ps ∧
        (parseExpr text).root.shape = [.node .exprRoot [t.toTokenTree]] := by
  have hn : (Lexeme.ofTokens (lex text) fun _ => false).length = 2 * ps.length + 1 := by
    rw [ofTokens_standalone, hsig]
    simp [length_pairTokens]
  obtain ⟨t, hc, h1, h2⟩ := Grammar.exprRoot_climbs (Grammar.fuelFor (2 * ps.length + 1)) a ps ha hps
    hlen (by simp [Grammar.need, Grammar.fuelFor, length_pairTokens]; omega)
  obtain ⟨done, hdone, htok⟩ := hc.tokens
  rw [List.append_nil] at hdone
  have htok' : t.tokens = a :: pairTokens ps := by simpa [InfixTree.tokens, hdone] using htok
  -- every token of the tree is significant, so none is the end of input
  have hsig' : ∀ x ∈ t.tokens, x.kind ≠ .eof := by
    intro x hx
    rw [htok', ← hsig] at hx
    have hx' := (List.mem_filter.mp hx).2
    simp only [Bool.and_eq_true, Bool.not_eq_true', bne_iff_ne] at hx'
    exact hx'.2
  have hparse : parseExpr text = ⟨(BareTree.node .exprRoot [t.bare]).attach (lex text), []⟩ := by
    rw [parseExpr]
    dsimp only
    rw [hn, ofTokens_standalone, hsig]
    rcases hx : Grammar.exprRoot (Grammar.fuelFor (2 * ps.length + 1))
      { rest := (a :: pairTokens ps).map Token.lexeme } with ⟨bare, s⟩
    rw [hx] at h1 h2
    dsimp only at h1 h2 ⊢
    rw [h1, h2]
  refine ⟨by rw [hparse], t, hc, hc.wellBound trivial (by simp [InfixTree.op?]), htok', ?_⟩
  rw [hparse]
  dsimp only
  rw [attach_shape, significant_lex, hsig, ← htok', BareTree.fillList_cons, t.fill_bare _ hsig']
  simp

theorem parseExpr_infix_sample :
    (lex "1 - 2 * 3").filter (fun t => !t.kind.isTrivia && t.kind != .eof) =
        ⟨.number, 0, "1"⟩ :: pairTokens [(⟨.minus, 2, "-"⟩, ⟨.number, 4, "2"⟩),
          (⟨.star, 6, "*"⟩, ⟨.number, 8, "3"⟩)] ∧
      (parseExpr "1 - 2 * 3").errors = [] ∧
      ∃ t, Climb 0 (.leaf ⟨.number, 0, "1"⟩) [(⟨.minus, 2, "-"⟩, ⟨.number, 4, "2"⟩),
          (⟨.star, 6, "*"⟩, ⟨.number, 8, "3"⟩)] t [] ∧ t.WellBound ∧
        t.tokens = [⟨.number, 0, "1"⟩, ⟨.minus, 2, "-"⟩, ⟨.number, 4, "2"⟩, ⟨.star, 6, "*"⟩,
          ⟨.number, 8, "3"⟩] ∧
        (parseExpr "1 - 2 * 3").root.shape = [.node .exprRoot [t.toTokenTree]] :=
  have hsig : (lex "1 - 2 * 3").filter (fun t => !t.kind.isTrivia && t.kind != .eof) =
      ⟨.number, 0, "1"⟩ :: pairTokens [(⟨.minus, 2, "-"⟩, ⟨.number, 4, "2"⟩),
        (⟨.star, 6, "*"⟩, ⟨.number, 8, "3"⟩)] := by decide +kernel
  ⟨hsig, parseExpr_infix "1 - 2 * 3" _ _ hsig (by decide) (by decide) (by decide)⟩

end GameScript
