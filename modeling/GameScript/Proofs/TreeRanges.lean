import Mathlib
import GameScript.Proofs.Hints
import GameScript.Proofs.Splice
import GameScript.Editor.Definition
/-!
# Where the elements of a parse tree lie

`BareTree.attach` lays the tokens of the source down one after another from
offset `0`, and gives every node the range from its first element to its
last. So in the tree of a parse the children of every node tile its range
with no gap (`SyntaxTree.Placed`), and an element lies inside every element
above it (`SyntaxTree.Within`, `Placed.within`).

Two lookups of the editor rest on this. A located token comes with its
ancestors, and they are the path from the root down to it (`Path`,
`mem_locatedTokens`), in the order of the leaves (`locatedTokens_map_fst`).
And `SyntaxTree.find?` descends from the root towards a range, taking at each
node the first child that overlaps it: in a placed tree that is the child
holding the range, so every node of non-zero width is found from its kind and
range (`find?_of_within`).
-/

set_option autoImplicit false

namespace GameScript

namespace SyntaxTree

/-! ## Elements within elements -/

/-- `e` is `t` or an element somewhere under it. -/
inductive Within : SyntaxTree → SyntaxTree → Prop
  | refl (t : SyntaxTree) : Within t t
  | child {e c : SyntaxTree} {k : NodeKind} {a b : Nat} {cs : List SyntaxTree} :
      c ∈ cs → Within e c → Within e (node k a b cs)

theorem Within.trans {e t u : SyntaxTree} (h₁ : Within e t) (h₂ : Within t u) : Within e u := by
  induction h₂ with
  | refl => exact h₁
  | child hc _ ih => exact .child hc ih

theorem Within.of_mem_children {c t : SyntaxTree} (hc : c ∈ t.children) : Within c t := by
  cases t with
  | token => simp [children] at hc
  | node k a b cs => exact .child hc (.refl c)

/-- Only a token is within a token. -/
theorem Within.eq_of_token {e : SyntaxTree} {t : Token} (h : Within e (token t)) : e = token t := by
  cases h
  rfl

theorem size_le_sizeOfList {c : SyntaxTree} {cs : List SyntaxTree} (hc : c ∈ cs) :
    c.size ≤ size.sizeOfList cs := by
  induction cs with
  | nil => cases hc
  | cons d ds ih =>
    rcases List.mem_cons.1 hc with rfl | hc
    · simp only [size.sizeOfList]
      omega
    · have := ih hc
      simp only [size.sizeOfList]
      omega

theorem size_lt_of_mem {c : SyntaxTree} {k : NodeKind} {a b : Nat} {cs : List SyntaxTree}
    (hc : c ∈ cs) : c.size < (node k a b cs).size := by
  have := size_le_sizeOfList hc
  simp only [size]
  omega

/-! ## Placed trees -/

/-- Elements that follow one another with no gap, from offset `p` to `q`. -/
inductive Tiles : Nat → List SyntaxTree → Nat → Prop
  | nil (p : Nat) : Tiles p [] p
  | cons {p q : Nat} {e : SyntaxTree} {es : List SyntaxTree} :
      e.start = p → Tiles e.stop es q → Tiles p (e :: es) q

/-- A tree in which the children of every node tile its range. -/
inductive Placed : SyntaxTree → Prop
  | token (t : Token) : Placed (token t)
  | node {k : NodeKind} {a b : Nat} {cs : List SyntaxTree} :
      Tiles a cs b → (∀ c ∈ cs, Placed c) → Placed (node k a b cs)

namespace Tiles

variable {p q r : Nat} {es fs : List SyntaxTree}

theorem append (h₁ : Tiles p es q) (h₂ : Tiles q fs r) : Tiles p (es ++ fs) r := by
  induction h₁ with
  | nil => exact h₂
  | cons hs _ ih => exact cons hs (ih h₂)

/-- Elements that run forwards lie between the two ends. -/
theorem bounds (h : Tiles p es q) (hle : ∀ e ∈ es, e.start ≤ e.stop) :
    p ≤ q ∧ ∀ e ∈ es, p ≤ e.start ∧ e.stop ≤ q := by
  induction h with
  | nil => simp
  | @cons p q e es hs _ ih =>
    obtain ⟨hq, hin⟩ := ih fun f hf => hle f (List.mem_cons_of_mem _ hf)
    have he := hle e List.mem_cons_self
    refine ⟨by omega, fun f hf => ?_⟩
    rcases List.mem_cons.1 hf with rfl | hf
    · omega
    · have := hin f hf
      omega

/-- Each element ends before any later one starts. -/
theorem pairwise (h : Tiles p es q) (hle : ∀ e ∈ es, e.start ≤ e.stop) :
    es.Pairwise fun e f => e.stop ≤ f.start := by
  induction h with
  | nil => exact List.Pairwise.nil
  | @cons p q e es hs hrest ih =>
    have hin := (hrest.bounds fun f hf => hle f (List.mem_cons_of_mem _ hf)).2
    exact List.Pairwise.cons (fun f hf => (hin f hf).1)
      (ih fun f hf => hle f (List.mem_cons_of_mem _ hf))

end Tiles

namespace Placed

theorem start_le_stop {e : SyntaxTree} (h : Placed e) : e.start ≤ e.stop := by
  cases h with
  | token t => simp [start, stop, Token.stop]
  | node ht hcs =>
    -- the children run forwards, so the tiling does
    have hle : ∀ c ∈ _, start c ≤ stop c := fun c hc => (hcs c hc).start_le_stop
    exact (ht.bounds hle).1

/-- The children of a placed node lie inside it, in order. -/
theorem children {k : NodeKind} {a b : Nat} {cs : List SyntaxTree}
    (h : Placed (SyntaxTree.node k a b cs)) :
    (∀ c ∈ cs, c.Placed ∧ a ≤ c.start ∧ c.stop ≤ b) ∧ cs.Pairwise fun c d => c.stop ≤ d.start := by
  cases h with
  | node ht hcs =>
    have hle : ∀ c ∈ cs, c.start ≤ c.stop := fun c hc => (hcs c hc).start_le_stop
    exact ⟨fun c hc => ⟨hcs c hc, (ht.bounds hle).2 c hc⟩, ht.pairwise hle⟩

/-- An element within a placed tree is placed and lies inside it. -/
theorem within {e t : SyntaxTree} (hp : Placed t) (hw : Within e t) :
    e.Placed ∧ t.start ≤ e.start ∧ e.stop ≤ t.stop := by
  induction hw with
  | refl => exact ⟨hp, le_rfl, le_rfl⟩
  | child hc _ ih =>
    obtain ⟨hcp, ha, hb⟩ := hp.children.1 _ hc
    obtain ⟨he, hs, ht⟩ := ih hcp
    exact ⟨he, le_trans ha hs, le_trans ht hb⟩

end Placed

/-! ## Finding a node from its kind and range -/

/-- A node of a placed tree is found among its parent's children from any
range of non-zero width inside it. -/
theorem childAt?_of_mem {k : NodeKind} {a b : Nat} {cs : List SyntaxTree}
    (hp : Placed (node k a b cs)) {c : SyntaxTree} (hc : c ∈ cs) {s : Span}
    (hs : c.start ≤ s.start ∧ s.stop ≤ c.stop) (hne : s.start < s.stop) :
    (node k a b cs).childAt? s = some c := by
  obtain ⟨xs, ys, rfl⟩ := List.mem_iff_append.1 hc
  have hord := (hp.children.2)
  rw [List.pairwise_append] at hord
  -- the children before `c` end before it starts, so none of them overlaps the range
  have hbefore : ∀ d ∈ xs, d.stop ≤ s.start := fun d hd =>
    le_trans (hord.2.2 d hd c List.mem_cons_self) hs.1
  have hfind : (xs ++ c :: ys).find? (fun d : SyntaxTree => !(d.stop ≤ s.start) && !(s.stop ≤ d.start)) =
      some c := by
    rw [List.find?_append, List.find?_eq_none.2 (fun d hd => by simp [hbefore d hd])]
    rw [List.find?_cons_of_pos (by simp; omega)]
    rfl
  simp only [childAt?, children, hfind, Option.filter_some, hs.1, hs.2, decide_true, Bool.and_self,
    if_true]

/-- What `find?` returns has the kind and range asked for. -/
theorem find?_go_eq_some {ref : NodeRef} :
    ∀ {fuel : Nat} {t x : SyntaxTree}, find?.go ref fuel t = some x →
      x.nodeKind? = some ref.kind ∧ x.span = ref.span
  | 0, _, _, h => by simp [find?.go] at h
  | fuel + 1, t, x, h => by
    rw [find?.go] at h
    split at h
    · rename_i hm
      simp only [Bool.and_eq_true, beq_iff_eq] at hm
      cases h
      exact hm
    · split at h
      · split at h
        · exact find?_go_eq_some h
        · cases h
      · cases h

/-- Descending with fuel above the size finds a node of non-zero width below. -/
theorem find?_go_of_within (ref : NodeRef) {n : SyntaxTree} (hk : n.nodeKind? = some ref.kind)
    (hs : n.span = ref.span) (hne : n.start < n.stop) {t : SyntaxTree} (hw : Within n t)
    (hp : Placed t) : ∀ fuel, t.size < fuel → ∃ x, find?.go ref fuel t = some x := by
  induction hw with
  | refl =>
    intro fuel hfuel
    obtain ⟨fuel, rfl⟩ : ∃ m, fuel = m + 1 := ⟨fuel - 1, by omega⟩
    exact ⟨_, by rw [find?.go, if_pos (by simp [hk, hs])]⟩
  | @child c k a b cs hc hwc ih =>
    intro fuel hfuel
    obtain ⟨fuel, rfl⟩ : ∃ m, fuel = m + 1 := ⟨fuel - 1, by omega⟩
    rw [find?.go]
    split
    · exact ⟨_, rfl⟩
    -- the child holding the node is the one the descent takes, and it is a node
    obtain ⟨hcp, -, -⟩ := hp.children.1 c hc
    have hin := (hcp.within hwc).2
    rw [childAt?_of_mem hp hc (by rw [← hs]; exact hin) (by rw [← hs]; exact hne)]
    have hnode : c.nodeKind?.isSome = true := by
      cases c with
      | token t =>
        rw [hwc.eq_of_token] at hk
        simp [nodeKind?] at hk
      | node => rfl
    dsimp only
    rw [if_pos hnode]
    exact ih hcp fuel (by have := size_lt_of_mem (k := k) (a := a) (b := b) hc; omega)

/-- In a placed tree every node of non-zero width is found from its kind and
range, and what is found has that range. -/
theorem find?_of_within {root n : SyntaxTree} (hp : Placed root) (hw : Within n root)
    {k : NodeKind} (hk : n.nodeKind? = some k) (hne : n.start < n.stop) :
    ∃ x, root.find? ⟨k, n.span⟩ = some x ∧ x.span = n.span := by
  obtain ⟨x, hx⟩ := find?_go_of_within ⟨k, n.span⟩ hk rfl hne hw hp _ (Nat.lt_succ_self _)
  exact ⟨x, hx, (find?_go_eq_some hx).2⟩

/-! ## Located elements -/

/-- An element reached from `root` through `up`, its ancestors nearest first. -/
inductive Path (root : SyntaxTree) : SyntaxTree → List SyntaxTree → Prop
  | root : Path root root []
  | child {p c : SyntaxTree} {up : List SyntaxTree} :
      Path root p up → c ∈ p.children → Path root c (p :: up)

namespace Path

variable {root e : SyntaxTree} {up : List SyntaxTree}

theorem within_root (h : Path root e up) : Within e root := by
  induction h with
  | root => exact .refl _
  | child _ hc ih => exact (Within.of_mem_children hc).trans ih

/-- Every ancestor on the path holds the element and is within the root. -/
theorem within_ancestor (h : Path root e up) : ∀ a ∈ up, Within e a ∧ Within a root := by
  induction h with
  | root => simp
  | @child p c up hp hc ih =>
    intro a ha
    rcases List.mem_cons.1 ha with rfl | ha
    · exact ⟨Within.of_mem_children hc, hp.within_root⟩
    · exact ⟨(Within.of_mem_children hc).trans (ih a ha).1, (ih a ha).2⟩

/-- The rest of the path leads to the nearest ancestor. -/
theorem tail {p : SyntaxTree} (h : Path root e (p :: up)) : Path root p up ∧ e ∈ p.children := by
  cases h with
  | child hp hc => exact ⟨hp, hc⟩

end Path

mutual

/-- Every element `preorder.go` adds is reached through its ancestors. -/
theorem path_of_mem_preorder_go {root : SyntaxTree} :
    (t : SyntaxTree) → (up : List SyntaxTree) → (acc : List Located) → Path root t up →
      ∀ l ∈ preorder.go t up acc, l ∈ acc ∨ Path root l.elem l.ancestors
  | .token tk, up, acc, h => by
    intro l hl
    rcases List.mem_cons.1 hl with rfl | hl
    · exact .inr h
    · exact .inl hl
  | .node k a b cs, up, acc, h => by
    intro l hl
    have hcs : ∀ c ∈ cs, Path root c (node k a b cs :: up) := fun c hc => .child h hc
    rcases path_of_mem_preorder_goList cs _ _ hcs l hl with hl | hl
    · rcases List.mem_cons.1 hl with rfl | hl
      · exact .inr h
      · exact .inl hl
    · exact .inr hl

theorem path_of_mem_preorder_goList {root : SyntaxTree} :
    (cs : List SyntaxTree) → (up : List SyntaxTree) → (acc : List Located) →
      (∀ c ∈ cs, Path root c up) → ∀ l ∈ preorder.goList cs up acc, l ∈ acc ∨ Path root l.elem l.ancestors
  | [], _, _, _ => fun l hl => .inl hl
  | c :: more, up, acc, h => by
    intro l hl
    rcases path_of_mem_preorder_goList more up _ (fun d hd => h d (List.mem_cons_of_mem _ hd)) l hl
      with hl | hl
    · exact path_of_mem_preorder_go c up acc (h c List.mem_cons_self) l hl
    · exact .inr hl

end

/-- A located token is reached from the root through its ancestors. -/
theorem path_of_mem_locatedTokens {root : SyntaxTree} {t : Token} {up : List SyntaxTree}
    (h : (t, up) ∈ root.locatedTokens) : Path root (token t) up := by
  obtain ⟨l, hl, hlt⟩ := List.mem_filterMap.1 h
  rw [preorder, List.mem_reverse] at hl
  rcases path_of_mem_preorder_go root [] [] .root l hl with hl | hl
  · cases hl
  · obtain ⟨u, hu, hut⟩ := Option.map_eq_some_iff.1 hlt
    cases hut
    cases he : l.elem with
    | token tk =>
      rw [he] at hu hl
      cases hu
      exact hl
    | node => simp [he, token?] at hu

mutual

/-- `preorder.go` adds the leaves of `t`, last first. -/
theorem filterMap_preorder_go :
    (t : SyntaxTree) → (up : List SyntaxTree) → (acc : List Located) →
      (preorder.go t up acc).filterMap (·.elem.token?) =
        t.leaves.reverse ++ acc.filterMap (·.elem.token?)
  | .token tk, up, acc => by simp [preorder.go, token?]
  | .node k a b cs, up, acc => by
    rw [preorder.go, filterMap_preorder_goList]
    simp [token?]

theorem filterMap_preorder_goList :
    (cs : List SyntaxTree) → (up : List SyntaxTree) → (acc : List Located) →
      (preorder.goList cs up acc).filterMap (·.elem.token?) =
        (leavesOf cs).reverse ++ acc.filterMap (·.elem.token?)
  | [], _, _ => by simp [preorder.goList]
  | c :: more, up, acc => by
    rw [preorder.goList, filterMap_preorder_goList, filterMap_preorder_go]
    simp

end

/-- The located tokens are the leaves, in order. -/
theorem locatedTokens_map_fst (t : SyntaxTree) : t.locatedTokens.map (·.1) = t.leaves := by
  rw [locatedTokens, List.map_filterMap, preorder, List.filterMap_reverse]
  have h := filterMap_preorder_go t [] []
  simp only [List.filterMap_nil, List.append_nil] at h
  have hcomp : (fun l : Located => Option.map (fun x => x.1) (l.elem.token?.map (·, l.ancestors))) =
      (·.elem.token?) := by
    funext l
    cases l.elem.token? <;> rfl
  rw [hcomp, h, List.reverse_reverse]

end SyntaxTree

/-! ## Attaching places the tree -/

namespace Token.Tiles

/-- Every token of a tiling starts at or after its left end. -/
theorem le_start {p q : Nat} {ts : List Token} (h : Token.Tiles p ts q) : ∀ u ∈ ts, p ≤ u.start := by
  induction h with
  | nil => simp
  | @cons p q t ts hs _ ih =>
    intro u hu
    rcases List.mem_cons.1 hu with rfl | hu
    · omega
    · have := ih u hu
      simp only [Token.stop] at this
      omega

/-- Tokens that tile a range do not overlap: each ends before any later one starts. -/
theorem pairwise {p q : Nat} {ts : List Token} (h : Token.Tiles p ts q) :
    ts.Pairwise fun t u => t.stop ≤ u.start := by
  induction h with
  | nil => exact List.Pairwise.nil
  | cons _ hrest ih => exact List.Pairwise.cons hrest.le_start ih

end Token.Tiles

namespace Attach

/-- What the attaching functions lay down from offset `off`: elements that
tile the range up to `off'`, each placed, with the tokens left following on
from `off'`. -/
def Lays (off : Nat) (out : List SyntaxTree) (off' : Nat) (rest' : List Token) : Prop :=
  SyntaxTree.Tiles off out off' ∧ (∀ e ∈ out, e.Placed) ∧ ∃ q, Token.Tiles off' rest' q

namespace Lays

variable {off off₁ off₂ off₃ : Nat} {r₁ r₂ r₃ : List Token}

theorem nil {rest : List Token} (h : ∃ q, Token.Tiles off rest q) : Lays off [] off rest :=
  ⟨.nil off, by simp, h⟩

theorem append {a b : List SyntaxTree} (ha : Lays off a off₁ r₁) (hb : Lays off₁ b off₂ r₂) :
    Lays off (a ++ b) off₂ r₂ := by
  refine ⟨ha.1.append hb.1, fun e he => ?_, hb.2.2⟩
  rcases List.mem_append.1 he with he | he
  · exact ha.2.1 e he
  · exact hb.2.1 e he

/-- A token laid down where the tokens left start. -/
theorem token {t : Token} {more : List Token} (h : ∃ q, Token.Tiles off (t :: more) q) :
    Lays off [.token t] t.stop more := by
  obtain ⟨q, hq⟩ := h
  cases hq with
  | cons hs hrest => exact ⟨.cons hs (.nil _), by simp [SyntaxTree.Placed.token], q, hrest⟩

/-- A node over its children and its tail, after what it leaves to its parent. -/
theorem wrap {pre kids tail : List SyntaxTree} (k : NodeKind) (h₁ : Lays off pre off₁ r₁)
    (h₂ : Lays off₁ kids off₂ r₂) (h₃ : Lays off₂ tail off₃ r₃) :
    Lays off (pre ++ [.node k off₁ off₃ (kids ++ tail)]) off₃ r₃ := by
  have hkids := h₂.append h₃
  refine h₁.append ⟨.cons rfl (.nil _), fun e he => ?_, h₃.2.2⟩
  rw [List.mem_singleton] at he
  subst he
  exact .node hkids.1 hkids.2.1

end Lays

theorem takeTrivia_lays (rest : List Token) (off : Nat) :
    (∃ q, Token.Tiles off rest q) →
      Lays off (takeTrivia rest off).1 (takeTrivia rest off).2.2 (takeTrivia rest off).2.1 := by
  fun_induction takeTrivia rest off with
  | case1 t more off h ts r o ih hmore =>
    rw [ih] at hmore
    intro hrest
    have ht := Lays.token hrest
    exact ht.append (hmore ht.2.2)
  | case2 t more off h => exact Lays.nil
  | case3 => exact Lays.nil

theorem takeAll_lays (rest : List Token) (off : Nat) :
    (∃ q, Token.Tiles off rest q) →
      Lays off (takeAll rest off).1 (takeAll rest off).2.2 (takeAll rest off).2.1 := by
  fun_induction takeAll rest off with
  | case1 => exact Lays.nil
  | case2 t more off h ts r o ih hmore =>
    rw [ih] at hmore
    intro hrest
    have ht := Lays.token hrest
    exact ht.append (hmore ht.2.2)
  | case3 => exact Lays.nil

/-- The token a bare token stands for, unless it is the end of input. -/
theorem takeOne_lays (rest1 : List Token) (off1 : Nat) :
    (∃ q, Token.Tiles off1 rest1 q) → Lays off1
      (match rest1 with
        | t :: r => if t.kind == .eof then ([], rest1, off1) else ([.token t], r, t.stop)
        | [] => ([], [], off1) : List SyntaxTree × List Token × Nat).1
      (match rest1 with
        | t :: r => if t.kind == .eof then ([], rest1, off1) else ([.token t], r, t.stop)
        | [] => ([], [], off1) : List SyntaxTree × List Token × Nat).2.2
      (match rest1 with
        | t :: r => if t.kind == .eof then ([], rest1, off1) else ([.token t], r, t.stop)
        | [] => ([], [], off1) : List SyntaxTree × List Token × Nat).2.1 := by
  intro h
  match rest1 with
  | t :: r =>
    by_cases he : t.kind = .eof
    · simpa [he] using Lays.nil h
    · simpa [he] using Lays.token h
  | [] => exact Lays.nil h

mutual

/-- A node lays down the trivia it leaves to its parent, then itself. -/
theorem node_lays (kind : NodeKind) (children : List BareTree) (root : Bool)
    (rest : List Token) (off : Nat) (h : ∃ q, Token.Tiles off rest q) :
    Lays off ((node kind children root rest off).1 ++ [(node kind children root rest off).2.1])
      (node kind children root rest off).2.2.2 (node kind children root rest off).2.2.1 := by
  rw [node]
  dsimp only
  cases root with
  | true =>
    simp only [Bool.not_true, Bool.false_and, Bool.false_eq_true, ↓reduceIte]
    have h₂ := elements_lays children rest off h
    exact Lays.wrap _ (Lays.nil h) h₂ (takeAll_lays _ _ h₂.2.2)
  | false =>
    simp only [Bool.not_false, Bool.true_and, Bool.false_eq_true, ↓reduceIte]
    split
    · have h₁ := takeTrivia_lays rest off h
      have h₂ := elements_lays children _ _ h₁.2.2
      exact Lays.wrap _ h₁ h₂ (Lays.nil h₂.2.2)
    · have h₂ := elements_lays children rest off h
      exact Lays.wrap _ (Lays.nil h) h₂ (Lays.nil h₂.2.2)
termination_by sizeOf children + 1

theorem elements_lays (children : List BareTree) (rest : List Token) (off : Nat)
    (h : ∃ q, Token.Tiles off rest q) :
    Lays off (elements children rest off).1 (elements children rest off).2.2
      (elements children rest off).2.1 := by
  match children with
  | [] => simpa [elements] using Lays.nil h
  | .token _ :: more =>
    rw [elements]
    have h₁ := takeTrivia_lays rest off h
    have h₂ := takeOne_lays _ _ h₁.2.2
    exact (h₁.append h₂).append (elements_lays more _ _ h₂.2.2)
  | .node k cs :: more =>
    rw [elements]
    have h₁ := node_lays k cs false rest off h
    exact h₁.append (elements_lays more _ _ h₁.2.2)
termination_by sizeOf children

end

end Attach

/-- The tree of a script parse is placed. -/
theorem parseScript_placed (source : String) (isFunction : String → Bool) :
    (parseScript source isFunction).root.Placed := by
  obtain ⟨cs, hcs⟩ := Grammar.script_root _ { rest := Lexeme.ofTokens (lex source) isFunction }
  -- the tokens of the source, the end of input included, tile it from offset `0`
  have htiles : ∃ q, Token.Tiles 0 (lex source) q := by
    obtain ⟨body, hlex, -⟩ := lex_eq_append_eof source
    have hbody := tiles_lex source
    rw [hlex, List.dropLast_concat] at hbody
    exact ⟨source.utf8ByteSize, by
      rw [hlex]
      exact hbody.append (.cons rfl (by simpa [Token.stop] using Token.Tiles.nil _))⟩
  have h := (Attach.node_lays .script cs true (lex source) 0 htiles).2.1
  rw [parseScript_eq, hcs, BareTree.attach]
  exact h _ (List.mem_append_right _ (List.mem_singleton_self _))

end GameScript
