import GameScript.Syntax.Event
import GameScript.Syntax.Cursor
/-!
# The sink: from an event log to a tree

The sink reads the log once, front to back. A start takes itself and the
chain of forward parents from it out of the log (each becomes a tombstone)
and opens the collected kinds outermost first; a token event adds its
tokens to the open node; a finish closes the open node; problems and
tombstones add nothing to the tree. It counts the open nodes itself and
stops on a finish with none open, or when nodes are left open at the end.

The tree is made by a tree builder, which the sink only drives: it starts a
node, adds a token to the node it is in, finishes that node, and at the end
hands over the one root it holds (`TreeBuilder`). Trivia, which the parser
never sees, is attached to the tree afterwards (`BareTree.attach`); the
ranges of problems are the cursor's (`Cursor.report`).

Here the building is split from the reading: `Sink.calls` gives the builder
calls a log makes, and `Sink.finish` makes them. Making a call never
touches the log, so this is the same pass.
-/

namespace GameScript

/-- A call the sink makes on the tree builder. -/
inductive BuildCall where
  | startNode (kind : NodeKind)
  | token (kind : TokenKind)
  | finishNode
  deriving DecidableEq, Repr

/-- A tree builder as the sink drives it. `finish` gives the root, or
`none` when the calls did not leave exactly one node. -/
structure TreeBuilder (B : Type) where
  empty : B
  startNode : NodeKind → B → B
  token : TokenKind → B → B
  finishNode : B → B
  finish : B → Option BareTree

namespace Sink

/-- Whether an event is a start. -/
def isStart : Event → Bool
  | .start .. => true
  | _ => false

/-- Takes up the start at `pos` and the chain of forward parents from it:
each event on the way becomes a tombstone, and the kinds of the starts are
collected, the first start's first. An event that is not a start ends the
chain. `none` where an offset leads out of the log. -/
def follow (log : EventLog) (pos : Nat) : Option (List NodeKind × EventLog) :=
  match h : log[pos]? with
  | none => none
  | some (.start kind fp) =>
    match fp with
    | none => some ([kind], log.set pos .tombstone)
    | some d => (follow (log.set pos .tombstone) (pos + d)).map fun (ks, log) => (kind :: ks, log)
  | some _ => some ([], log.set pos .tombstone)
termination_by log.countP isStart
decreasing_by
  have hpos := (List.getElem?_eq_some_iff.1 h)
  rw [List.countP_set hpos.1, hpos.2]
  have : 0 < log.countP isStart :=
    List.countP_pos_iff.2 ⟨_, List.mem_of_getElem? h, rfl⟩
  simp only [isStart, if_true, Bool.false_eq_true, if_false]
  omega

/-- Taking up a chain only replaces events by tombstones. -/
theorem length_follow {log log' : EventLog} {pos : Nat} {ks : List NodeKind}
    (h : follow log pos = some (ks, log')) : log'.length = log.length := by
  fun_induction follow log pos generalizing ks log' with
  | case1 => simp at h
  | case2 =>
    simp only [Option.some.injEq, Prod.mk.injEq] at h
    rw [← h.2, List.length_set]
  | case3 _ _ _ _ _ _ ih =>
    obtain ⟨⟨ks', log''⟩, hrec, heq⟩ := Option.map_eq_some_iff.1 h
    cases heq
    simpa using ih hrec
  | case4 =>
    simp only [Option.some.injEq, Prod.mk.injEq] at h
    rw [← h.2, List.length_set]

/-- The builder calls of a log, in order. -/
def calls : EventLog → Option (List BuildCall)
  | [] => some []
  | e :: rest =>
    match e with
    | .start .. =>
      match h : follow (e :: rest) 0 with
      | none => none
      | some (kinds, log) => (calls log.tail).map (kinds.reverse.map .startNode ++ ·)
    | .token kind n => (calls rest).map (List.replicate n (.token kind) ++ ·)
    | .finish => (calls rest).map (.finishNode :: ·)
    | .error _ => calls rest
    | .tombstone => calls rest
termination_by log => log.length
decreasing_by
  all_goals first
    | simp only [List.length_tail, length_follow h, List.length_cons]; omega
    | simp

/-- Makes the calls on a builder, counting the open nodes from `depth`:
a finish with no node open, or nodes left open at the end, stop it. -/
def drive {B : Type} (tb : TreeBuilder B) : List BuildCall → Nat → B → Option B
  | [], 0, b => some b
  | [], _ + 1, _ => none
  | .startNode kind :: cs, depth, b => drive tb cs (depth + 1) (tb.startNode kind b)
  | .token kind :: cs, depth, b => drive tb cs depth (tb.token kind b)
  | .finishNode :: _, 0, _ => none
  | .finishNode :: cs, depth + 1, b => drive tb cs depth (tb.finishNode b)

/-- The tree a builder makes from a log. -/
def finish {B : Type} (tb : TreeBuilder B) (log : EventLog) : Option BareTree := do
  let cs ← calls log
  let b ← drive tb cs 0 tb.empty
  tb.finish b

end Sink

end GameScript
