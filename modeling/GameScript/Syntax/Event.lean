import GameScript.Syntax.Problem
import GameScript.Syntax.NodeKind
/-!
# Parser events

The parser proper does not build trees: it writes a flat log of events,
which the sink (`GameScript.Syntax.Sink`) turns into a tree afterwards. A
node is opened through a marker, the position of a placeholder (a
tombstone) appended to the log. Completing the marker turns the placeholder
into the start of a node of the chosen kind and appends a finish.
Abandoning it drops the placeholder when nothing came after it, and leaves
it as a tombstone otherwise.

A node that turns out to wrap one already completed is opened late, by
`precede`. The left operand of an infix operator, the object of a member
access and the name of a call are built this way. `precede` appends a new
placeholder and links the completed node's start to it by a forward parent:
the offset from that start to the later one. A start that already has a
forward parent is followed along its chain first, so the new node wraps the
outermost node built so far. The sink reads the chain back and opens the
nodes outermost first.

Where the parser would stop on an internal error (a marker that points at
no placeholder, an index out of the log), the operations here give `none`.
-/

namespace GameScript

/-- One entry of the parser's event log. -/
inductive Event where
  /-- Opens a node. `forwardParent` is the offset to the start of the node
  that wraps this one, when that node was opened later. -/
  | start (kind : NodeKind) (forwardParent : Option Nat)
  /-- Adds `rawTokens` consumed tokens of kind `kind` to the open node. -/
  | token (kind : TokenKind) (rawTokens : Nat)
  /-- Closes the open node. -/
  | finish
  /-- Reports a problem at the next token. -/
  | error (problem : SyntaxProblem)
  /-- A start that is not, or no longer, in use: an abandoned marker, or a
  start the sink has already taken up. -/
  | tombstone
  deriving DecidableEq, Repr, Inhabited

/-- The log the parser writes. -/
abbrev EventLog := List Event

namespace EventLog

/-- Opens a marker: a placeholder at the end of the log, and its position. -/
def start (log : EventLog) : EventLog × Nat := (log ++ [.tombstone], log.length)

/-- Records one consumed token. -/
def bump (log : EventLog) (kind : TokenKind) : EventLog := log ++ [.token kind 1]

/-- Records a problem. -/
def report (log : EventLog) (p : SyntaxProblem) : EventLog := log ++ [.error p]

/-- Completes the marker at `pos` as a node of kind `kind`: the placeholder
becomes a start (a start already there only changes its kind), and a finish
is appended. -/
def complete (log : EventLog) (pos : Nat) (kind : NodeKind) : Option EventLog :=
  match log[pos]? with
  | some .tombstone => some (log.set pos (.start kind none) ++ [.finish])
  | some (.start _ fp) => some (log.set pos (.start kind fp) ++ [.finish])
  | _ => none

/-- Abandons the marker at `pos`: its placeholder goes when it ends the log
and stays as a tombstone otherwise. -/
def abandon (log : EventLog) (pos : Nat) : Option EventLog :=
  if pos = log.length - 1 then
    match log.getLast? with
    | some .tombstone => some log.dropLast
    | _ => none
  else some log

/-- Links the start at `cur` to the start at `target`: a forward parent
already there is followed first, and the offset is written at the end of
the chain. An event that is not a start ends the chain unchanged; an offset
of zero would never end it. -/
def setForwardParent (log : EventLog) (cur target : Nat) : Option EventLog :=
  match h : log[cur]? with
  | none => none
  | some (.start kind none) => some (log.set cur (.start kind (some (target - cur))))
  | some (.start _ (some fp)) =>
    if fp = 0 then none else setForwardParent log (cur + fp) target
  | some _ => some log
termination_by log.length - cur
decreasing_by
  have := (List.getElem?_eq_some_iff.1 h).1
  omega

/-- Opens a marker for a node that wraps the completed one at `pos`: a
placeholder at the end of the log, linked from `pos` by a forward parent. -/
def precede (log : EventLog) (pos : Nat) : Option (EventLog × Nat) :=
  ((log ++ [Event.tombstone]).setForwardParent pos log.length).map (·, log.length)

end EventLog

end GameScript
