import Mathlib
import GameScript.Syntax.Sink
/-!
# The sink builds the tree the markers denote

The grammar drives the event log only through markers, and always in one
shape: a grammar step consumes tokens, reports problems, and builds nodes,
each by starting a marker, doing further steps, and completing the marker
(or abandoning it, for a name that turned out to be missing). A node that
wraps one just completed (an infix expression, a member access, a call) is
started by `precede` on that node's marker right after it is completed.
`Piece` and `Marked` are that shape; `Piece.run` and `Marked.run` make the
marker calls of `GameScript.Syntax.Event` in that order, and `Marked.tree`
is the tree they denote: a preceded node holds the node it wraps as its
first child.

Main statement (`Marked.sink_builds_tree`): for every node built this way,
from the empty log, every marker call succeeds; reading the log back, with
each forward-parent chain opened outermost first and the tombstones
dropped, gives exactly the start/finish/token calls of the denoted tree in
preorder, so they are properly nested; and any tree builder that behaves as
documented (`TreeBuilder.Lawful`) makes that tree from them.

The proof follows the log's layout. The events of a node (`Marked.events`)
start with the innermost node of its left spine; the starts of the nodes
that wrap it come later, each reached from the one before by its forward
parent (`Marked.follow_events`). The sink takes the whole spine up at the
first start, so what is left of the node (`Marked.interior`) holds only its
children's events, tombstones and finishes (`Marked.calls_interior`).
-/

set_option autoImplicit false

namespace GameScript

mutual
/-- What one grammar step adds to the log, in the shape the grammar uses
markers. -/
inductive Piece where
  /-- A consumed token. -/
  | token (kind : TokenKind)
  /-- A reported problem. -/
  | problem (p : SyntaxProblem)
  /-- A marker started, the pieces after it, then the marker abandoned. -/
  | abandoned (body : List Piece)
  /-- A node built through a completed marker. -/
  | node (n : Marked)

/-- A node built through a marker that is completed. -/
inductive Marked where
  /-- `start`, the pieces, then `complete kind`. -/
  | started (kind : NodeKind) (body : List Piece)
  /-- The node `first`, `precede` on its marker, the pieces, then
  `complete kind`. -/
  | preceded (kind : NodeKind) (first : Marked) (body : List Piece)
end

/-! ## The marker calls and the tree they denote -/

mutual
/-- Makes the marker calls of a piece on the log. -/
def Piece.run : Piece → EventLog → Option EventLog
  | .token kind, log => some (log.bump kind)
  | .problem p, log => some (log.report p)
  | .abandoned body, log =>
    let (log, m) := log.start
    (Piece.runAll body log).bind (·.abandon m)
  | .node n, log => (n.run log).map (·.1)

/-- Makes the marker calls of pieces, in order. -/
def Piece.runAll : List Piece → EventLog → Option EventLog
  | [], log => some log
  | p :: ps, log => (p.run log).bind (Piece.runAll ps)

/-- Makes the marker calls of a node; gives the log and the node's marker. -/
def Marked.run : Marked → EventLog → Option (EventLog × Nat)
  | .started kind body, log =>
    let (log, m) := log.start
    (Piece.runAll body log).bind fun log => (log.complete m kind).map (·, m)
  | .preceded kind first body, log =>
    (first.run log).bind fun (log, c) =>
      (log.precede c).bind fun (log, m) =>
        (Piece.runAll body log).bind fun log => (log.complete m kind).map (·, m)
end

mutual
/-- The trees a piece adds to the node it is in. -/
def Piece.trees : Piece → List BareTree
  | .token kind => [.token kind]
  | .problem _ => []
  | .abandoned body => Piece.forest body
  | .node n => [n.tree]

/-- The trees of pieces, in order. -/
def Piece.forest : List Piece → List BareTree
  | [] => []
  | p :: ps => p.trees ++ Piece.forest ps

/-- The tree a node denotes; a preceded node holds the node it wraps first. -/
def Marked.tree : Marked → BareTree
  | .started kind body => .node kind (Piece.forest body)
  | .preceded kind first body => .node kind (first.tree :: Piece.forest body)
end

mutual
/-- The calls that build a tree: preorder starts, tokens and finishes. -/
def BareTree.calls : BareTree → List BuildCall
  | .token kind => [.token kind]
  | .node kind cs => .startNode kind :: BareTree.callsOf cs ++ [.finishNode]

/-- The calls that build trees, one after another. -/
def BareTree.callsOf : List BareTree → List BuildCall
  | [] => []
  | t :: ts => t.calls ++ BareTree.callsOf ts
end

/-! ## The layout of the log -/

mutual
/-- The events a piece leaves in the log. An abandoned marker whose pieces
left nothing is dropped; otherwise it stays as a tombstone. -/
def Piece.events : Piece → EventLog
  | .token kind => [.token kind 1]
  | .problem p => [.error p]
  | .abandoned body =>
    match Piece.eventsAll body with
    | [] => []
    | es => .tombstone :: es
  | .node n => n.events none

/-- The events pieces leave, one after another. -/
def Piece.eventsAll : List Piece → EventLog
  | [] => []
  | p :: ps => p.events ++ Piece.eventsAll ps

/-- The events a node leaves when its own start has forward parent `fp`:
a preceded node's start comes after the node it wraps, whose own start
points to it. -/
def Marked.events : Marked → Option Nat → EventLog
  | .started kind body, fp => .start kind fp :: (Piece.eventsAll body ++ [.finish])
  | .preceded kind first body, fp =>
    first.events (some first.reach) ++ .start kind fp :: (Piece.eventsAll body ++ [.finish])

/-- How many of a node's events there are from its own start on. -/
def Marked.reach : Marked → Nat
  | .started _ body => (Piece.eventsAll body).length + 2
  | .preceded _ _ body => (Piece.eventsAll body).length + 2
end

/-- Past a prefix, the log reads as the rest. -/
theorem getElem?_append_length_add (A B : EventLog) (j : Nat) : (A ++ B)[A.length + j]? = B[j]? := by
  rw [List.getElem?_append_right (by omega), Nat.add_sub_cancel_left]

theorem set_append_length_add (A B : EventLog) (j : Nat) (e : Event) :
    (A ++ B).set (A.length + j) e = A ++ B.set j e := by
  rw [List.set_append_right _ _ (by omega), Nat.add_sub_cancel_left]

/-- The event at the end of a prefix. -/
theorem getElem?_append_length_cons (A B : EventLog) (e : Event) : (A ++ e :: B)[A.length]? = some e :=
  getElem?_append_length_add A (e :: B) 0

/-- Replacing the event at the end of a prefix. -/
theorem set_append_length_cons (A B : EventLog) (e e' : Event) :
    (A ++ e :: B).set A.length e' = A ++ e' :: B :=
  set_append_length_add A (e :: B) 0 e'

namespace Marked

/-- The kind a node is completed with. -/
def kind : Marked → NodeKind
  | .started kind _ => kind
  | .preceded kind _ _ => kind

/-- Where a node's own start sits among its events: its marker, relative
to the log before it. -/
def markerPos : Marked → Nat
  | .started .. => 0
  | .preceded _ first _ => (first.events none).length

/-- The kinds of the nodes on the left spine, the innermost first. -/
def spine : Marked → List NodeKind
  | .started kind _ => [kind]
  | .preceded kind first _ => first.spine ++ [kind]

/-- A node's events once the sink has taken up its spine, less the first
(a tombstone by then). -/
def interior : Marked → EventLog
  | .started _ body => Piece.eventsAll body ++ [.finish]
  | .preceded _ first body => first.interior ++ .tombstone :: (Piece.eventsAll body ++ [.finish])

/-- The calls that build a node after the starts of its spine. -/
def innerCalls : Marked → List BuildCall
  | .started _ body => BareTree.callsOf (Piece.forest body) ++ [.finishNode]
  | .preceded _ first body =>
    first.innerCalls ++ (BareTree.callsOf (Piece.forest body) ++ [.finishNode])

@[simp] theorem markerPos_started (kind : NodeKind) (body : List Piece) :
    (started kind body).markerPos = 0 := rfl

@[simp] theorem markerPos_preceded (kind : NodeKind) (first : Marked) (body : List Piece) :
    (preceded kind first body).markerPos = (first.events none).length := rfl

@[simp] theorem kind_started (kind : NodeKind) (body : List Piece) :
    (started kind body).kind = kind := rfl

@[simp] theorem kind_preceded (kind : NodeKind) (first : Marked) (body : List Piece) :
    (preceded kind first body).kind = kind := rfl

theorem length_events : (n : Marked) → (fp : Option Nat) →
    (n.events fp).length = n.markerPos + n.reach
  | .started kind body, fp => by simp [events, reach]
  | .preceded kind first body, fp => by
    have ih := length_events first
    simp only [events, markerPos_preceded, reach, List.length_append, List.length_cons,
      List.length_nil, ih]

/-- The forward parent of its start does not change how long a node's
events are. -/
theorem length_events_some (n : Marked) (d : Nat) :
    (n.events (some d)).length = (n.events none).length := by
  rw [length_events, length_events]

theorem reach_pos (n : Marked) : 0 < n.reach := by
  cases n <;> simp [reach]

/-- A node's marker points at its own start. -/
theorem getElem?_events_markerPos (n : Marked) (fp : Option Nat) :
    (n.events fp)[n.markerPos]? = some (.start n.kind fp) := by
  cases n with
  | started kind body => simp [events]
  | preceded kind first body =>
    simp only [events, markerPos_preceded, kind_preceded]
    rw [← length_events_some first first.reach, getElem?_append_length_cons]

/-- Setting the forward parent at the marker gives the events with it. -/
theorem set_events_markerPos (n : Marked) (fp fp' : Option Nat) :
    (n.events fp).set n.markerPos (.start n.kind fp') = n.events fp' := by
  cases n with
  | started kind body => simp [events]
  | preceded kind first body =>
    simp only [events, markerPos_preceded, kind_preceded]
    rw [← length_events_some first first.reach, set_append_length_cons]

theorem length_interior : (n : Marked) → n.interior.length + 1 = (n.events none).length
  | .started kind body => by simp [interior, events]
  | .preceded kind first body => by
    have ih := length_interior first
    simp only [interior, events, List.length_append, List.length_cons, length_events_some, ← ih]
    omega

end Marked

/-! ## The marker calls lay the log out -/

namespace EventLog

theorem complete_of_tombstone {log : EventLog} {pos : Nat} (kind : NodeKind)
    (h : log[pos]? = some .tombstone) :
    log.complete pos kind = some (log.set pos (.start kind none) ++ [.finish]) := by
  simp [complete, h]

theorem setForwardParent_of_start {log : EventLog} {cur : Nat} {kind : NodeKind} (target : Nat)
    (h : log[cur]? = some (.start kind none)) :
    log.setForwardParent cur target = some (log.set cur (.start kind (some (target - cur)))) := by
  rw [setForwardParent]
  split <;> simp_all

end EventLog

mutual

theorem Piece.run_eq : (p : Piece) → (log : EventLog) → p.run log = some (log ++ p.events)
  | .token kind, log => rfl
  | .problem p, log => rfl
  | .abandoned body, log => by
    rw [Piece.run]
    dsimp only [EventLog.start]
    rw [Piece.runAll_eq body, Option.bind_some, Piece.events]
    -- the placeholder goes exactly when the pieces left nothing after it
    split
    · rename_i hnil
      simp [hnil, EventLog.abandon]
    · rename_i es hes
      have hne : (Piece.eventsAll body).length ≠ 0 := by simpa using hes
      simp only [EventLog.abandon, List.length_append, List.length_cons, List.length_nil]
      rw [if_neg (by omega)]
      simp
  | .node n, log => by simp [Piece.run, Marked.run_eq n log, Piece.events]

theorem Piece.runAll_eq : (ps : List Piece) → (log : EventLog) →
    Piece.runAll ps log = some (log ++ Piece.eventsAll ps)
  | [], log => by simp [Piece.runAll, Piece.eventsAll]
  | p :: ps, log => by
    rw [Piece.runAll, Piece.run_eq p, Option.bind_some, Piece.runAll_eq ps]
    simp [Piece.eventsAll]

/-- The marker calls of a node append its events and give back its marker. -/
theorem Marked.run_eq : (n : Marked) → (log : EventLog) →
    n.run log = some (log ++ n.events none, log.length + n.markerPos)
  | .started kind body, log => by
    rw [Marked.run]
    dsimp only [EventLog.start]
    rw [Piece.runAll_eq body, Option.bind_some, List.append_assoc, List.singleton_append,
      EventLog.complete_of_tombstone kind (getElem?_append_length_cons _ _ _),
      set_append_length_cons]
    simp [Marked.events]
  | .preceded kind first body, log => by
    rw [Marked.run, Marked.run_eq first log, Option.bind_some]
    dsimp only
    -- `precede` links the start of `first` to a new placeholder after it
    have hstart : (log ++ first.events none ++ [Event.tombstone])[log.length + first.markerPos]? =
        some (.start first.kind none) := by
      have hlt : first.markerPos < (first.events none).length := by
        rw [Marked.length_events]; have := first.reach_pos; omega
      rw [List.append_assoc, List.getElem?_append_right (by omega), Nat.add_sub_cancel_left,
        List.getElem?_append_left hlt, Marked.getElem?_events_markerPos]
    have hlink : (log ++ first.events none).length - (log.length + first.markerPos) = first.reach := by
      simp only [List.length_append, Marked.length_events]
      omega
    rw [EventLog.precede, EventLog.setForwardParent_of_start _ hstart, Option.map_some,
      Option.bind_some, hlink]
    dsimp only
    have hset : (log ++ first.events none ++ [Event.tombstone]).set (log.length + first.markerPos)
        (.start first.kind (some first.reach)) =
          log ++ first.events (some first.reach) ++ [Event.tombstone] := by
      have hlt : first.markerPos < (first.events none).length := by
        rw [Marked.length_events]; have := first.reach_pos; omega
      rw [List.append_assoc, List.set_append_right _ _ (by omega), Nat.add_sub_cancel_left,
        List.set_append_left _ _ hlt, Marked.set_events_markerPos, List.append_assoc]
    rw [hset, Piece.runAll_eq body, Option.bind_some]
    have hlen : (log ++ first.events none).length = (log ++ first.events (some first.reach)).length := by
      simp [Marked.length_events_some]
    rw [hlen, List.append_assoc (log ++ _), List.singleton_append,
      EventLog.complete_of_tombstone kind (getElem?_append_length_cons _ _ _),
      set_append_length_cons]
    simp [Marked.events, Marked.length_events_some]

end

/-! ## Taking up forward-parent chains -/

namespace Sink

/-- Where a chain goes on from a start at `pos` with forward parent `fp`:
nowhere, or to the event `fp` further on. -/
def chainOn (log : EventLog) (pos : Nat) : Option Nat → Option (List NodeKind × EventLog)
  | none => some ([], log)
  | some d => follow log (pos + d)

theorem follow_of_none {log : EventLog} {pos : Nat} (h : log[pos]? = none) : follow log pos = none := by
  rw [follow]
  split <;> simp_all

/-- At a start, `follow` takes it up and goes on along its forward parent. -/
theorem follow_of_start {log : EventLog} {pos : Nat} {kind : NodeKind} {fp : Option Nat}
    (h : log[pos]? = some (.start kind fp)) :
    follow log pos = (chainOn (log.set pos .tombstone) pos fp).map fun p => (kind :: p.1, p.2) := by
  rw [follow]
  split
  · simp_all
  · rename_i kind' fp' h'
    obtain ⟨rfl, rfl⟩ : kind = kind' ∧ fp = fp' := by simpa [h] using h'
    cases fp <;> rfl
  · rename_i e hne h'
    exact absurd (by simpa [h] using h'.symm) (hne kind fp)

theorem follow_of_ne_start {log : EventLog} {pos : Nat} {e : Event} (h : log[pos]? = some e)
    (he : ∀ kind fp, e ≠ .start kind fp) : follow log pos = some ([], log.set pos .tombstone) := by
  rw [follow]
  split
  · simp_all
  · rename_i kind fp h'
    exact absurd (by simpa [h] using h') (he kind fp)
  · rfl

/-- A chain that starts past a prefix stays past it. -/
theorem follow_append (A B : EventLog) (j : Nat) :
    follow (A ++ B) (A.length + j) = (follow B j).map fun p => (p.1, A ++ p.2) := by
  fun_induction follow B j with
  | case1 B j h => rw [follow_of_none (by rw [getElem?_append_length_add, h])]; rfl
  | case2 B j kind h =>
    rw [follow_of_start (by rw [getElem?_append_length_add, h]), set_append_length_add]
    simp [chainOn]
  | case3 B j kind d h _ ih =>
    rw [follow_of_start (by rw [getElem?_append_length_add, h]), set_append_length_add]
    simp only [chainOn, Option.map_map]
    rw [Nat.add_assoc, ih, Option.map_map]
    rfl
  | case4 B j e hne h =>
    rw [follow_of_ne_start (by rw [getElem?_append_length_add, h]) hne, set_append_length_add]
    rfl

/-- `chainOn` past a prefix stays past it. -/
theorem chainOn_append (A B : EventLog) (j : Nat) (fp : Option Nat) :
    chainOn (A ++ B) (A.length + j) fp = (chainOn B j fp).map fun p => (p.1, A ++ p.2) := by
  cases fp with
  | none => rfl
  | some d =>
    simp only [chainOn]
    rw [Nat.add_assoc, follow_append]

end Sink

namespace Marked

/-- The sink takes a node's whole left spine up at its first event: the
start of the innermost node leads, by forward parents, to the start of each
node around it, and from the outermost one the chain goes on as `fp` says. -/
theorem follow_events : (n : Marked) → (fp : Option Nat) → (R : EventLog) →
    Sink.follow (n.events fp ++ R) 0 =
      (Sink.chainOn (.tombstone :: (n.interior ++ R)) n.markerPos fp).map
        fun p => (n.spine ++ p.1, p.2)
  | .started kind body, fp, R => by
    have h0 : (events (started kind body) fp ++ R)[0]? = some (.start kind fp) := by simp [events]
    rw [Sink.follow_of_start h0]
    simp [events, interior, spine]
  | .preceded kind first body, fp, R => by
    have ih := follow_events first (some first.reach)
      (.start kind fp :: (Piece.eventsAll body ++ .finish :: R))
    -- the start of `first` points just past `first`'s events, at the start of this node
    have hreach : first.markerPos + first.reach = (Event.tombstone :: first.interior).length + 0 := by
      rw [← length_events first none, List.length_cons, length_interior]
    have h0 : (Event.start kind fp :: (Piece.eventsAll body ++ .finish :: R))[0]? =
        some (.start kind fp) := rfl
    have hfirst : Sink.chainOn (.tombstone :: (first.interior ++
          .start kind fp :: (Piece.eventsAll body ++ .finish :: R))) first.markerPos (some first.reach) =
        ((Sink.chainOn (.tombstone :: (Piece.eventsAll body ++ .finish :: R)) 0 fp).map
          fun p => (kind :: p.1, p.2)).map fun p => (p.1, .tombstone :: first.interior ++ p.2) := by
      rw [Sink.chainOn, hreach, ← List.cons_append, Sink.follow_append, Sink.follow_of_start h0]
      rfl
    -- this node's own start is the first event past the interior of `first`
    have hself : Sink.chainOn (.tombstone :: ((preceded kind first body).interior ++ R))
          (preceded kind first body).markerPos fp =
        (Sink.chainOn (.tombstone :: (Piece.eventsAll body ++ .finish :: R)) 0 fp).map
          fun p => (p.1, .tombstone :: first.interior ++ p.2) := by
      rw [markerPos_preceded, ← length_interior, ← Sink.chainOn_append]
      simp [interior]
    simp only [events, List.append_assoc, List.cons_append, List.nil_append]
    rw [ih, hfirst, hself]
    simp [spine, Option.map_map, Function.comp_def]

end Marked

/-! ## Reading the log back -/

namespace Sink

@[simp] theorem calls_nil : calls [] = some [] := by rw [calls]

theorem calls_token (kind : TokenKind) (n : Nat) (R : EventLog) :
    calls (.token kind n :: R) = (calls R).map (List.replicate n (.token kind) ++ ·) := by
  rw [calls]

theorem calls_finish (R : EventLog) : calls (.finish :: R) = (calls R).map (.finishNode :: ·) := by
  rw [calls]

theorem calls_error (p : SyntaxProblem) (R : EventLog) : calls (.error p :: R) = calls R := by
  rw [calls]

theorem calls_tombstone (R : EventLog) : calls (.tombstone :: R) = calls R := by
  rw [calls]

/-- At a start, the sink opens the kinds of its chain, outermost first, and
reads on past the start in the log the chain left. -/
theorem calls_start {kind : NodeKind} {fp : Option Nat} {R L : EventLog} {ks : List NodeKind}
    (h : follow (.start kind fp :: R) 0 = some (ks, L)) :
    calls (.start kind fp :: R) = (calls L.tail).map (ks.reverse.map .startNode ++ ·) := by
  rw [calls]
  split
  · rename_i h'
    simp [h] at h'
  · rename_i kinds log h'
    obtain ⟨rfl, rfl⟩ : ks = kinds ∧ L = log := by simpa [h] using h'
    rfl

end Sink

theorem BareTree.callsOf_append (ts us : List BareTree) :
    BareTree.callsOf (ts ++ us) = BareTree.callsOf ts ++ BareTree.callsOf us := by
  induction ts with
  | nil => simp [BareTree.callsOf]
  | cons t ts ih => simp [BareTree.callsOf, ih]

namespace Marked

/-- A node's events open with the start of the innermost node of its spine. -/
theorem events_head : (n : Marked) → (fp : Option Nat) → ∃ k d es, n.events fp = .start k d :: es
  | .started kind body, fp => ⟨kind, fp, _, rfl⟩
  | .preceded _ first _, _ => by
    obtain ⟨k, d, es, h⟩ := events_head first (some first.reach)
    exact ⟨k, d, _, by rw [events, h, List.cons_append]⟩

/-- The calls of a tree: the starts of the spine, outermost first, then
the rest of the node. -/
theorem tree_calls : (n : Marked) → n.tree.calls = n.spine.reverse.map .startNode ++ n.innerCalls
  | .started kind body => by simp [tree, BareTree.calls, spine, innerCalls]
  | .preceded kind first body => by
    rw [tree, BareTree.calls, BareTree.callsOf, tree_calls first]
    simp [spine, innerCalls]

/-- Reading a node's events opens its spine and goes on with its interior. -/
theorem calls_events (n : Marked) (R : EventLog) :
    Sink.calls (n.events none ++ R) =
      (Sink.calls (n.interior ++ R)).map (n.spine.reverse.map .startNode ++ ·) := by
  obtain ⟨k, d, es, hes⟩ := n.events_head none
  have hfollow := follow_events n none R
  simp only [Sink.chainOn, Option.map_some, List.append_nil] at hfollow
  rw [hes, List.cons_append] at hfollow ⊢
  rw [Sink.calls_start hfollow, List.tail_cons]

end Marked

mutual

/-- The events a piece leaves read back as the calls of its trees. -/
theorem Piece.calls_events : (p : Piece) → (R : EventLog) →
    Sink.calls (p.events ++ R) = (Sink.calls R).map (BareTree.callsOf p.trees ++ ·)
  | .token kind, R => by
    simp [Piece.events, Piece.trees, BareTree.callsOf, BareTree.calls, Sink.calls_token]
  | .problem p, R => by simp [Piece.events, Piece.trees, BareTree.callsOf, Sink.calls_error]
  | .abandoned body, R => by
    -- the tombstone an abandoned marker may leave adds no call
    have h : Sink.calls ((Piece.abandoned body).events ++ R) = Sink.calls (Piece.eventsAll body ++ R) := by
      rw [Piece.events]
      split
      · rename_i hnil
        rw [hnil]
      · rw [List.cons_append, Sink.calls_tombstone]
    rw [h, Piece.calls_eventsAll body R, Piece.trees]
  | .node n, R => by
    rw [Piece.events, Marked.calls_events, Marked.calls_interior n R, Option.map_map, Piece.trees]
    simp [BareTree.callsOf, Marked.tree_calls, Function.comp_def]

/-- The events of pieces read back as the calls of their trees. -/
theorem Piece.calls_eventsAll : (ps : List Piece) → (R : EventLog) →
    Sink.calls (Piece.eventsAll ps ++ R) = (Sink.calls R).map (BareTree.callsOf (Piece.forest ps) ++ ·)
  | [], R => by simp [Piece.eventsAll, Piece.forest, BareTree.callsOf]
  | p :: ps, R => by
    rw [Piece.eventsAll, List.append_assoc, Piece.calls_events p, Piece.calls_eventsAll ps,
      Option.map_map, Piece.forest, BareTree.callsOf_append]
    simp [Function.comp_def]

/-- Once its spine is taken up, a node's interior reads back as the rest of
its calls. -/
theorem Marked.calls_interior : (n : Marked) → (R : EventLog) →
    Sink.calls (n.interior ++ R) = (Sink.calls R).map (n.innerCalls ++ ·)
  | .started kind body, R => by
    rw [Marked.interior, List.append_assoc, Piece.calls_eventsAll body, List.singleton_append,
      Sink.calls_finish, Option.map_map, Marked.innerCalls]
    simp [Function.comp_def]
  | .preceded kind first body, R => by
    rw [Marked.interior, List.append_assoc, Marked.calls_interior first, List.cons_append,
      Sink.calls_tombstone, List.append_assoc, Piece.calls_eventsAll body, List.singleton_append,
      Sink.calls_finish, Option.map_map, Option.map_map, Marked.innerCalls]
    simp [Function.comp_def]

end

/-! ## Tree builders -/

/-- What a tree builder holds between calls, as rowan documents its
green-node builder: the open nodes, innermost first, each with its kind and
the children made before it was opened, and the children made since the
innermost one was opened (at the top, when none is open). -/
structure Building where
  parents : List (NodeKind × List BareTree)
  children : List BareTree

namespace Building

def startNode (kind : NodeKind) (b : Building) : Building := ⟨(kind, b.children) :: b.parents, []⟩

def token (kind : TokenKind) (b : Building) : Building := ⟨b.parents, b.children ++ [.token kind]⟩

/-- Closes the innermost open node into a child of the one around it. -/
def finishNode (b : Building) : Building :=
  match b.parents with
  | [] => b
  | (kind, before) :: parents => ⟨parents, before ++ [.node kind b.children]⟩

/-- The root, when nothing is open and one node was made. -/
def finish : Building → Option BareTree
  | ⟨[], [.node kind cs]⟩ => some (.node kind cs)
  | _ => none

/-- The builder that holds a `Building` itself. -/
def builder : TreeBuilder Building where
  empty := ⟨[], []⟩
  startNode := startNode
  token := token
  finishNode := finishNode
  finish := finish

end Building

/-- A builder behaves as documented when each call, seen through `view`,
does what it does on a `Building`. Finishing a node is only asked for when
one is open, and the root only when nothing is open and one node was made. -/
structure TreeBuilder.Lawful {B : Type} (tb : TreeBuilder B) (view : B → Building) : Prop where
  empty : view tb.empty = ⟨[], []⟩
  startNode : ∀ kind b, view (tb.startNode kind b) = (view b).startNode kind
  token : ∀ kind b, view (tb.token kind b) = (view b).token kind
  finishNode : ∀ b, (view b).parents ≠ [] → view (tb.finishNode b) = (view b).finishNode
  finish : ∀ b kind cs, view b = ⟨[], [.node kind cs]⟩ → tb.finish b = some (.node kind cs)

theorem Building.builder_lawful : Building.builder.Lawful id where
  empty := rfl
  startNode _ _ := rfl
  token _ _ := rfl
  finishNode _ _ := rfl
  finish := by
    rintro b kind cs rfl
    rfl

section Drive

variable {B : Type} {tb : TreeBuilder B} {view : B → Building}

mutual

/-- Driving a lawful builder through a tree's calls adds that tree to the
children of the node it is in, at any depth. -/
theorem BareTree.drive_calls (hl : tb.Lawful view) : (t : BareTree) → (cs : List BuildCall) →
    (depth : Nat) → (b : B) → ∃ b', view b' = ⟨(view b).parents, (view b).children ++ [t]⟩ ∧
      Sink.drive tb (t.calls ++ cs) depth b = Sink.drive tb cs depth b'
  | .token kind, cs, depth, b => ⟨tb.token kind b, hl.token kind b, rfl⟩
  | .node kind ts, cs, depth, b => by
    obtain ⟨b', hv, hd⟩ :=
      BareTree.drive_callsOf hl ts (.finishNode :: cs) (depth + 1) (tb.startNode kind b)
    -- the node opened by `startNode` is the one its `finishNode` closes
    rw [hl.startNode] at hv
    refine ⟨tb.finishNode b', ?_, ?_⟩
    · rw [hl.finishNode b' (by simp [hv, Building.startNode]), hv]
      simp [Building.startNode, Building.finishNode]
    · simp only [BareTree.calls, List.cons_append, List.append_assoc, List.nil_append, Sink.drive,
        hd]

/-- Driving a lawful builder through the calls of trees adds them in order. -/
theorem BareTree.drive_callsOf (hl : tb.Lawful view) : (ts : List BareTree) → (cs : List BuildCall) →
    (depth : Nat) → (b : B) → ∃ b', view b' = ⟨(view b).parents, (view b).children ++ ts⟩ ∧
      Sink.drive tb (BareTree.callsOf ts ++ cs) depth b = Sink.drive tb cs depth b'
  | [], cs, depth, b => ⟨b, by simp, rfl⟩
  | t :: ts, cs, depth, b => by
    obtain ⟨b₁, hv₁, hd₁⟩ := BareTree.drive_calls hl t (BareTree.callsOf ts ++ cs) depth b
    obtain ⟨b₂, hv₂, hd₂⟩ := BareTree.drive_callsOf hl ts cs depth b₁
    refine ⟨b₂, by simp [hv₂, hv₁], ?_⟩
    rw [BareTree.callsOf, List.append_assoc, hd₁, hd₂]

end

end Drive

/-! ## The main statement -/

namespace Marked

theorem tree_eq_node : (n : Marked) → ∃ cs, n.tree = .node n.kind cs
  | .started _ _ => ⟨_, rfl⟩
  | .preceded _ _ _ => ⟨_, rfl⟩

/-- Read back from the empty log, a node's events give the calls of its tree. -/
theorem calls_events_none (n : Marked) : Sink.calls (n.events none) = some n.tree.calls := by
  rw [← List.append_nil (n.events none), n.calls_events, n.calls_interior, Sink.calls_nil]
  simp [tree_calls]

/-- The sink builds the tree the markers denote. Making the marker calls of
a node on the empty log succeeds and leaves its marker at the node's start;
the sink reads the log back as the start, token and finish calls of the
denoted tree in preorder, each forward-parent chain opened outermost first,
so that a preceded node is the parent of the node it wraps and has it as
its first child; and any builder that behaves as documented makes exactly
that tree. -/
theorem sink_builds_tree {B : Type} (tb : TreeBuilder B) (view : B → Building)
    (hl : tb.Lawful view) (n : Marked) :
    ∃ log, n.run [] = some (log, n.markerPos) ∧ Sink.calls log = some n.tree.calls ∧
      Sink.finish tb log = some n.tree := by
  refine ⟨n.events none, by simpa using n.run_eq [], n.calls_events_none, ?_⟩
  obtain ⟨b, hv, hd⟩ := BareTree.drive_calls hl n.tree [] 0 tb.empty
  obtain ⟨cs, hcs⟩ := n.tree_eq_node
  rw [hl.empty, hcs] at hv
  rw [List.append_nil, hcs] at hd
  simp only [Sink.finish, n.calls_events_none, Option.bind_eq_bind, Option.bind_some, hd,
    Sink.drive, hcs]
  exact hl.finish b n.kind cs (by simpa using hv)

/-- The member and index access `a.b[c]`: the index access is opened by
`precede` on the member access, which is opened by `precede` on the name
`a`, and the tree comes out with each wrapping node over the one before. -/
theorem sink_builds_member_index :
    let n := started .exprRoot [.node (.preceded .memberExpr
      (.preceded .memberExpr (.started .nameRef [.token .ident])
        [.token .dot, .node (.started .nameRef [.token .ident])])
      [.token .lBracket, .node (.started .nameRef [.token .ident]), .token .rBracket])]
    ∃ log, n.run [] = some (log, n.markerPos) ∧ Sink.calls log = some n.tree.calls ∧
      Sink.finish Building.builder log = some (.node .exprRoot [.node .memberExpr
        [.node .memberExpr [.node .nameRef [.token .ident], .token .dot, .node .nameRef [.token .ident]],
          .token .lBracket, .node .nameRef [.token .ident], .token .rBracket]]) := by
  intro n
  exact sink_builds_tree Building.builder id Building.builder_lawful n

end Marked

end GameScript
