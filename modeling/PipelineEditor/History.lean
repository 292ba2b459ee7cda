import PipelineEditor.Change

/-!
# Undo and redo

`History` keeps the commands that can be undone and those that can be redone, the latest first.
Recording a command forgets what could be redone.  Successive moves of one operator that are
recorded within a time window become one entry, so that a drag is undone in one step; an entry that
a replay has touched takes part in no further merging.

The clock is a parameter: `clock n` is its `n`-th reading, and `readings` counts how many have been
taken.

## Main definitions

* `History`, `History.record` — the stacks, and how a command enters them.
* `History.undo`, `History.redo` — replay on a draft.
-/

namespace PipelineEditor

/-- A command that can be undone. -/
structure Entry where
  command : Command
  recordedAt : Nat
  /-- Whether a later move may still be merged into it. -/
  mergeable : Bool

/-- What can be undone and redone, the latest first. -/
structure History where
  undoable : List Entry
  redoable : List Command
  /-- How many entries are kept. -/
  limit : Nat
  /-- The longest time between two moves that are merged. -/
  window : Nat
  clock : Nat → Nat
  readings : Nat

namespace History

/-- An empty history, which keeps at least one entry. -/
def start (limit window : Nat) (clock : Nat → Nat) : History :=
  { undoable := [], redoable := [], limit := max limit 1, window, clock, readings := 0 }

/-- What the clock shows next. -/
def now (h : History) : Nat := h.clock h.readings

/-- Puts an entry on top, and lets the oldest go where there are too many. -/
def push (h : History) (command : Command) (mergeable : Bool) : History :=
  { h with
    undoable := (⟨command, h.now, mergeable⟩ :: h.undoable).take h.limit
    readings := h.readings + 1 }

/-- The history with a move merged into its latest entry, if that is still possible. -/
def merge? (h : History) (command : Command) : Option History :=
  match h.undoable with
  | last :: rest =>
    if last.mergeable && h.now - last.recordedAt ≤ h.window then
      (last.command.merge? command).map fun merged =>
        { h with
          undoable := ⟨merged, h.now, true⟩ :: rest
          readings := h.readings + 1 }
    else none
  | [] => none

/-- Records a command; one without changes leaves no trace. -/
def record (h : History) (command : Command) : History :=
  if command.isEmpty then h
  else
    let h := { h with redoable := [] }
    (h.merge? command).getD (h.push command true)

/-- The entries with the latest closed to merging. -/
def sealTop : List Entry → List Entry
  | [] => []
  | last :: rest => { last with mergeable := false } :: rest

/-- Undoes the latest command.  Answers whether there was one; a command that cannot be reversed is
dropped. -/
def undo (h : History) (draft : Draft) : Except EditError Bool × History × Draft :=
  match h.undoable with
  | [] => (.ok false, h, draft)
  | last :: rest =>
    match last.command.undo.exec draft with
    | (.ok (), draft) =>
      (.ok true,
        { h with undoable := sealTop rest, redoable := last.command :: h.redoable }, draft)
    | (.error cause, draft) => (.error cause, { h with undoable := rest }, draft)

/-- Carries the latest undone command out again.  Answers whether there was one; a command that
cannot be carried out is dropped. -/
def redo (h : History) (draft : Draft) : Except EditError Bool × History × Draft :=
  match h.redoable with
  | [] => (.ok false, h, draft)
  | command :: rest =>
    match command.redo.exec draft with
    | (.ok (), draft) => (.ok true, { h with redoable := rest }.push command false, draft)
    | (.error cause, draft) => (.error cause, { h with redoable := rest }, draft)

/-- Forgets everything that could be undone or redone. -/
def clear (h : History) : History := { h with undoable := [], redoable := [] }

def canUndo (h : History) : Bool := !h.undoable.isEmpty

def canRedo (h : History) : Bool := !h.redoable.isEmpty

/-- The command that would be undone next. -/
def lastCommand? (h : History) : Option Command := h.undoable.head?.map (·.command)

/-- Whether a replay is going on.  A replay ends within the call that starts it, so there is never
one to be seen between two calls. -/
def isReplaying (_ : History) : Bool := false

end History

end PipelineEditor
