import PipelineEditor.Graph

/-!
# Changes and commands

A change is one invertible step on a graph: it records enough of what it replaces to be undone.  A
command is a list of changes that are done and undone together; a bundle of user actions is simply a
longer command.

## Main definitions

* `Change`, `Change.apply`, `Change.inverse` — the steps.
* `Command.redo`, `Command.undo` — a command carried out forward, or backward by the inverses.
* `Command.merge?` — two successive moves of one operator as one.
-/

namespace PipelineEditor

/-- An invertible step on a graph. -/
inductive Change where
  /-- Puts an operator on the canvas, then the given links. -/
  | addOperator (operator : Operator) (position : Point) (links : List SavedLink)
  /-- Takes an operator away together with its links. -/
  | deleteOperator (operator : Operator) (position : Point) (links : List SavedLink)
  | addLink (saved : SavedLink)
  | deleteLink (saved : SavedLink)
  | setProperties (id : OperatorId) (old new : Json)
  | setDisabled (id : OperatorId) (old new : Bool)
  | setBreakpoint (id : LinkId) (old new : Option Breakpoint)
  | move (id : OperatorId) (start finish : Point)
  deriving DecidableEq

namespace Change

/-- Puts a link back with its breakpoint. -/
def restoreLink (saved : SavedLink) : Attempt Draft Unit := do
  Draft.mutate (·.addLink saved.link)
  match saved.breakpoint with
  | some breakpoint => Draft.mutate (·.setBreakpoint saved.link.id (some breakpoint))
  | none => pure ()

/-- Carries the step out. -/
def apply : Change → Attempt Draft Unit
  | addOperator op position links => do
    Draft.mutate (·.addOperator op position)
    links.forM restoreLink
  | deleteOperator op _ _ => Draft.mutate (·.deleteOperator op.id)
  | addLink saved => restoreLink saved
  | deleteLink saved => Draft.mutate (·.deleteLink saved.link.id)
  | setProperties id _ new => Draft.mutate (·.setProperties id new)
  | setDisabled id _ new => Draft.mutate (·.setDisabled id new)
  | setBreakpoint id _ new => Draft.mutate (·.setBreakpoint id new)
  | move id _ finish => Draft.mutate (·.setPosition id finish)

/-- The step that undoes this one. -/
def inverse : Change → Change
  | addOperator op position links => deleteOperator op position links
  | deleteOperator op position links => addOperator op position links
  | addLink saved => deleteLink saved
  | deleteLink saved => addLink saved
  | setProperties id old new => setProperties id new old
  | setDisabled id old new => setDisabled id new old
  | setBreakpoint id old new => setBreakpoint id new old
  | move id start finish => move id finish start

@[simp] theorem inverse_inverse (change : Change) : change.inverse.inverse = change := by
  cases change <;> rfl

end Change

/-- Changes that are done and undone together. -/
abbrev Command : Type := List Change

namespace Command

/-- The command that undoes this one: the inverses, last change first. -/
def inverse (command : Command) : Command := command.reverse.map Change.inverse

/-- Carries the changes out in order, up to the first that is refused. -/
def redo (command : Command) : Attempt Draft Unit := command.forM Change.apply

/-- Reverses the changes, last first, up to the first that is refused. -/
def undo (command : Command) : Attempt Draft Unit := command.inverse.redo

/-- One move in place of two successive ones of the same operator: from where the first started to
where the second ended. -/
def merge? (earlier later : Command) : Option Command :=
  match earlier, later with
  | [.move id start _], [.move other _ finish] =>
    if id = other then some [.move id start finish] else none
  | _, _ => none

end Command

end PipelineEditor
