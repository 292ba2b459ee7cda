import PipelineEditor.Catalogue
import PipelineEditor.Content

/-!
# Putting pipelines together

A sketch is a pipeline put together step by step.  Operators go by nicknames of the sketch, and
connections by the numbers of their ports; names of links follow from the order of the connections.
Whether the result makes sense is found out when it is loaded.

## Main definitions

* `Sketch` and its steps — `addOperator`, `setProperties`, `disable`, `connect`, `setBreakpoint`.
* `Sketch.content` — the pipeline that comes of it.
-/

namespace PipelineEditor

/-- A connection between two ports, by nickname and number. -/
structure Connection where
  source : String
  sourcePort : Nat
  target : String
  targetPort : Nat
  deriving DecidableEq

/-- A pipeline that is being put together. -/
structure Sketch where
  catalogue : Catalogue
  operators : List Operator
  positions : Dict Point
  breakpoints : Dict Breakpoint
  /-- The operators by nickname; of two under one nickname the first counts. -/
  nicknames : List (String × OperatorId)
  connections : List Connection

namespace Sketch

/-- A sketch without operators. -/
def start (catalogue : Catalogue) : Sketch := ⟨catalogue, [], ∅, ∅, [], []⟩

/-- The name of the link for the connection of the given number, counted from one. -/
def linkName (number : Nat) : LinkId := Catalogue.linkName (toString number)

/-- Adds an operator of a type under the name `id`, which the sketch knows by a nickname. -/
def addOperator (sketch : Sketch) (nickname type : String) (position : Point) (id : OperatorId) :
    Except EditError Sketch := do
  let op ← sketch.catalogue.newOperator type id
  return { sketch with
    operators := sketch.operators ++ [op]
    positions := sketch.positions.insert id position
    nicknames := sketch.nicknames ++ [(nickname, id)] }

/-- Changes the operator added last, if there is one. -/
def modifyLast (change : Operator → Operator) : List Operator → List Operator
  | [] => []
  | [op] => [change op]
  | op :: rest => op :: modifyLast change rest

/-- Replaces the property document of the operator added last. -/
def setProperties (sketch : Sketch) (properties : Json) : Sketch :=
  { sketch with operators := modifyLast (fun op => { op with properties }) sketch.operators }

/-- Disables the operator added last. -/
def disable (sketch : Sketch) : Sketch :=
  { sketch with operators := modifyLast (fun op => { op with disabled := true }) sketch.operators }

/-- Connects two ports. -/
def connect (sketch : Sketch) (connection : Connection) : Sketch :=
  { sketch with connections := sketch.connections ++ [connection] }

/-- Sets a breakpoint on the latest connection, if there is one. -/
def setBreakpoint (sketch : Sketch) (breakpoint : Breakpoint) : Sketch :=
  if sketch.connections.isEmpty then sketch
  else
    { sketch with
      breakpoints := sketch.breakpoints.insert (linkName sketch.connections.length) breakpoint }

/-- The operator that a nickname stands for. -/
def operatorId? (sketch : Sketch) (nickname : String) : Option OperatorId :=
  Entries.find? nickname sketch.nicknames

/-- The link for a connection, if both nicknames stand for an operator. -/
def link? (sketch : Sketch) (number : Nat) (connection : Connection) : Option Link := do
  let source ← sketch.operatorId? connection.source
  let target ← sketch.operatorId? connection.target
  return {
    id := linkName number
    source := ⟨source, Port.numbered Port.outputStem connection.sourcePort⟩
    target := ⟨target, Port.numbered Port.inputStem connection.targetPort⟩ }

/-- Adds the link for a connection to a pipeline, or takes the breakpoint away that was meant for
it. -/
def addConnection (sketch : Sketch) (content : Content) (connection : Connection × Nat) : Content :=
  match sketch.link? connection.2 connection.1 with
  | some link => { content with links := content.links ++ [link] }
  | none => { content with breakpoints := content.breakpoints.erase (linkName connection.2) }

/-- The pipeline.  Connections with an unknown nickname are left out, but keep their number. -/
def content (sketch : Sketch) : Content :=
  (sketch.connections.zipIdx 1).foldl sketch.addConnection
    ⟨sketch.operators, sketch.positions, [], sketch.breakpoints⟩

end Sketch

end PipelineEditor
