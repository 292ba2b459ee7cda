import PipelineEditor.Catalogue
import PipelineEditor.History

/-!
# The editor

`Editor` is the only way to change a graph.  Each call checks its preconditions before it touches
anything, carries its changes out, and records them as a command that can be undone.  Calls can be
bundled, so that they are undone as one; a bundle that fails is rolled back.  While the pipeline is
locked, every call that would change it is refused, undo and redo too.

## Main definitions

* `Editor` — graph, history, lock and the bundle in progress.
* `Editor.commit`, `Editor.bundle` — how a change, or several as one, are carried out and recorded.
* `Editor.addOperator`, `Editor.deleteOperator`, `Editor.addLink`, … — the calls.
-/

namespace PipelineEditor

/-- A graph under edit with its history. -/
structure Editor where
  catalogue : Catalogue
  draft : Draft
  history : History
  /-- Whether the pipeline may be changed. -/
  enabled : Bool
  /-- The changes of the bundle in progress, if there is one. -/
  bundled : Option Command

namespace Editor

/-- An editor with an empty graph. -/
def start (catalogue : Catalogue) (undoLimit mergeWindow : Nat) (clock : Nat → Nat) : Editor :=
  { catalogue
    draft := .start .empty
    history := .start undoLimit mergeWindow clock
    enabled := true
    bundled := none }

def graph (editor : Editor) : Graph := editor.draft.graph

/-- The events announced since they were last taken, and the editor without them. -/
def takeEvents (editor : Editor) : List Event × Editor :=
  (editor.draft.announced, { editor with draft := .start editor.graph })

/-! ## Recording -/

/-- Refuses while the pipeline is locked. -/
def requireEnabled : Attempt Editor Unit := do
  unless (← get).enabled do throw .locked

/-- The result of a look-up in the graph. -/
def lookUp {α : Type} (query : Graph → Except EditError α) : Attempt Editor α := do
  Attempt.check (query (← get).graph)

/-- A step on the draft. -/
def onDraft {α : Type} (step : Attempt Draft α) : Attempt Editor α :=
  Attempt.of fun editor =>
    let (result, draft) := step.exec editor.draft
    (result, { editor with draft })

/-- Notes a change that has been carried out: in the bundle in progress, or as a command. -/
def note (change : Change) (editor : Editor) : Editor :=
  match editor.bundled with
  | some changes => { editor with bundled := some (changes ++ [change]) }
  | none => { editor with history := editor.history.record [change] }

/-- Carries a change out and notes it. -/
def commit (change : Change) : Attempt Editor Unit := do
  onDraft change.apply
  modify (note change)

/-- Runs several calls as one.  Their changes make one command; if the calls fail, the changes are
undone and nothing is recorded.  A bundle inside a bundle becomes part of it. -/
def bundle {α : Type} (calls : Attempt Editor α) : Attempt Editor α :=
  Attempt.of fun editor =>
    match editor.bundled with
    | some _ => calls.exec editor
    | none =>
      let (result, editor) := calls.exec { editor with bundled := some [] }
      -- What the calls have noted is the command, or what has to be taken back.
      let command : Command := editor.bundled.getD []
      let editor := { editor with bundled := none }
      match result with
      | .ok value => (.ok value, { editor with history := editor.history.record command })
      | .error cause => (.error cause, { editor with draft := (command.undo.exec editor.draft).2 })

/-! ## Operators -/

/-- Puts an operator on the canvas. -/
def addOperator (op : Operator) (position : Point) : Attempt Editor Unit := do
  requireEnabled
  Attempt.check ((← get).catalogue.checkPorts op)
  lookUp (·.checkOperator op)
  commit (.addOperator op position [])

/-- Takes an operator away with every link at it. -/
def deleteOperator (id : OperatorId) : Attempt Editor Unit := do
  requireEnabled
  let op ← lookUp (·.findOperator id)
  let g := (← get).graph
  commit (.deleteOperator op (g.positionOf id) ((g.linksAt id).map g.saved))

/-- Replaces the property document of an operator; an equal one changes nothing. -/
def setProperties (id : OperatorId) (properties : Json) : Attempt Editor Unit := do
  requireEnabled
  let op ← lookUp (·.findOperator id)
  unless op.properties.same properties do
    commit (.setProperties id op.properties properties)

/-- Moves an operator on the canvas; a move to where it stands changes nothing. -/
def moveOperator (id : OperatorId) (position : Point) : Attempt Editor Unit := do
  requireEnabled
  let start ← lookUp (·.findPosition id)
  unless start.same position do
    commit (.move id start position)

/-- Sets the disabled flags of several operators as one call; all of them must be there. -/
def setDisabled (ids : List OperatorId) (disabled : Bool) : Attempt Editor Unit := do
  requireEnabled
  ids.forM fun id => do
    let _ ← lookUp (·.findOperator id)
  bundle do
    ids.forM fun id => do
      let op ← lookUp (·.findOperator id)
      unless op.disabled = disabled do
        commit (.setDisabled id op.disabled disabled)

/-! ## Links -/

/-- Joins two ports. -/
def addLink (link : Link) : Attempt Editor Unit := do
  requireEnabled
  lookUp (·.checkLink link)
  commit (.addLink ⟨link, none⟩)

/-- Takes a link away with its breakpoint. -/
def deleteLink (id : LinkId) : Attempt Editor Unit := do
  requireEnabled
  let link ← lookUp (·.findLink id)
  let g := (← get).graph
  commit (.deleteLink ⟨link, g.breakpoints.get? id⟩)

/-- Takes away the link that joins two ports. -/
def deleteLinkBetween (source target : PortRef) : Attempt Editor Unit := do
  requireEnabled
  let link ← lookUp (·.findLinkBetween source target)
  deleteLink link.id

/-- Sets the breakpoint of a link, or takes it away; an equal one changes nothing. -/
def setBreakpoint (id : LinkId) (breakpoint : Option Breakpoint) : Attempt Editor Unit := do
  requireEnabled
  let _ ← lookUp (·.findLink id)
  let old := (← get).graph.breakpoints.get? id
  unless old = breakpoint do
    commit (.setBreakpoint id old breakpoint)

/-! ## Several at once -/

/-- Adds several operators, then the links between them, as one call. -/
def addAll (operators : List (Operator × Point)) (links : List Link) : Attempt Editor Unit := do
  requireEnabled
  bundle do
    operators.forM fun (op, position) => addOperator op position
    links.forM addLink

/-- Takes away several links and operators as one call.  Links that are not there are passed over,
operators are not. -/
def deleteAll (operators : List OperatorId) (links : List LinkId) : Attempt Editor Unit := do
  requireEnabled
  bundle do
    -- Links first: an operator would take its own away and leave none to find.
    links.forM fun id => do
      if (← get).graph.hasLink id then deleteLink id
    operators.forM deleteOperator

/-! ## History and lock -/

/-- A replay of the history on the draft. -/
def replay (step : History → Draft → Except EditError Bool × History × Draft) :
    Attempt Editor Bool := do
  requireEnabled
  Attempt.of fun editor =>
    let (result, history, draft) := step editor.history editor.draft
    (result, { editor with history, draft })

/-- Undoes the latest command.  Answers whether there was one. -/
def undo : Attempt Editor Bool := replay History.undo

/-- Carries the latest undone command out again.  Answers whether there was one. -/
def redo : Attempt Editor Bool := replay History.redo

/-- Forgets everything that could be undone or redone. -/
def clearHistory (editor : Editor) : Editor := { editor with history := editor.history.clear }

/-- Locks or unlocks the pipeline, and announces it if that makes a difference. -/
def setEnabled (enabled : Bool) (editor : Editor) : Editor :=
  if editor.enabled = enabled then editor
  else
    { editor with
      enabled
      draft := ⟨editor.graph, editor.draft.announced ++ [.modificationEnabledChanged enabled]⟩ }

end Editor

end PipelineEditor
