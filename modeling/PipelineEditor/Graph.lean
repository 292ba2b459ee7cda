import PipelineEditor.Error
import PipelineEditor.Event
import PipelineEditor.Dict

/-!
# The graph of a pipeline

`Graph` holds the operators, their positions, the links between their ports and the breakpoints on
links, each under its own name.  A mutation either is refused and changes nothing, or yields the new
graph together with the events that tell subscribers what changed.

## Main definitions

* `Graph` and its look-ups — `find*` fail with a cause, `get?` of a map does not.
* `Graph.checkOperator`, `Graph.checkLink` — what may be added.
* `Graph.addOperator`, `Graph.deleteOperator`, `Graph.addLink`, … — the mutations.
* `Draft` — a graph with the events its mutations have announced so far.
-/

namespace PipelineEditor

/-- The operators, positions, links and breakpoints of a pipeline. -/
structure Graph where
  operators : Dict Operator
  positions : Dict Point
  links : Dict Link
  breakpoints : Dict Breakpoint
  deriving DecidableEq, Inhabited

namespace Graph

/-- The graph without operators. -/
def empty : Graph := ⟨∅, ∅, ∅, ∅⟩

/-! ## Look-ups -/

def hasOperator (g : Graph) (id : OperatorId) : Bool := g.operators.contains id

def findOperator (g : Graph) (id : OperatorId) : Except EditError Operator :=
  match g.operators.get? id with
  | some op => .ok op
  | none => .error (.notFound .operator id)

def findPosition (g : Graph) (id : OperatorId) : Except EditError Point :=
  match g.positions.get? id with
  | some position => .ok position
  | none => .error (.notFound .operator id)

/-- Where an operator stands; the origin if it has no position. -/
def positionOf (g : Graph) (id : OperatorId) : Point := (g.positions.get? id).getD .origin

def hasLink (g : Graph) (id : LinkId) : Bool := g.links.contains id

def findLink (g : Graph) (id : LinkId) : Except EditError Link :=
  match g.links.get? id with
  | some link => .ok link
  | none => .error (.notFound .link id)

/-- The link joining two ports, the lowest by name if there are several. -/
def linkBetween? (g : Graph) (source target : PortRef) : Option Link :=
  g.links.values.find? (·.joins source target)

def findLinkBetween (g : Graph) (source target : PortRef) : Except EditError Link :=
  match g.linkBetween? source target with
  | some link => .ok link
  | none => .error (.notFound .link (PortRef.route source target))

/-- The links that end at an operator. -/
def linksInto (g : Graph) (id : OperatorId) : List Link :=
  g.links.values.filter (·.target.operator = id)

/-- The links that start at an operator. -/
def linksFrom (g : Graph) (id : OperatorId) : List Link :=
  g.links.values.filter (·.source.operator = id)

/-- The links with an end at an operator. -/
def linksAt (g : Graph) (id : OperatorId) : List Link := g.links.values.filter (·.touches id)

/-- A link with the breakpoint it holds. -/
def saved (g : Graph) (link : Link) : SavedLink := ⟨link, g.breakpoints.get? link.id⟩

/-- Whether an operator is there and takes part. -/
def isEnabled (g : Graph) (id : OperatorId) : Bool :=
  match g.operators.get? id with
  | some op => !op.disabled
  | none => false

/-- Whether a port is an output of an operator that is there. -/
def hasSource (g : Graph) (port : PortRef) : Bool :=
  match g.operators.get? port.operator with
  | some op => op.hasOutput port.port
  | none => false

/-- Whether a port is an input of an operator that is there. -/
def hasTarget (g : Graph) (port : PortRef) : Bool :=
  match g.operators.get? port.operator with
  | some op => op.hasInput port.port
  | none => false

/-! ## Checks -/

/-- An operator may be added if its name is free. -/
def checkOperator (g : Graph) (op : Operator) : Except EditError Unit :=
  if g.hasOperator op.id then .error (.duplicateOperator op.id) else .ok ()

/-- A link may be added if its name and its pair of ports are free, and its ends are an output and
an input port of operators that are there. -/
def checkLink (g : Graph) (link : Link) : Except EditError Unit :=
  if g.hasLink link.id || (g.linkBetween? link.source link.target).isSome then
    .error (.duplicateLink link.id link.source link.target)
  else if !g.hasSource link.source then .error (.danglingReference link.id link.source)
  else if !g.hasTarget link.target then .error (.danglingReference link.id link.target)
  else .ok ()

/-! ## Mutations -/

/-- The graph without a link and its breakpoint. -/
def dropLink (g : Graph) (id : LinkId) : Graph :=
  { g with links := g.links.erase id, breakpoints := g.breakpoints.erase id }

/-- Puts an operator on the canvas. -/
def addOperator (g : Graph) (op : Operator) (position : Point) :
    Except EditError (Graph × List Event) := do
  g.checkOperator op
  return ({ g with
    operators := g.operators.insert op.id op
    positions := g.positions.insert op.id position }, [.operatorAdded op position])

/-- Takes an operator away, after all links with an end at it. -/
def deleteOperator (g : Graph) (id : OperatorId) : Except EditError (Graph × List Event) := do
  let op ← g.findOperator id
  let links := g.linksAt id
  let cut := links.foldl (fun h link => h.dropLink link.id) g
  return ({ cut with
    operators := cut.operators.erase id
    positions := cut.positions.erase id },
    links.map .linkDeleted ++ [.operatorDeleted op])

/-- Joins two ports. -/
def addLink (g : Graph) (link : Link) : Except EditError (Graph × List Event) := do
  g.checkLink link
  return ({ g with links := g.links.insert link.id link }, [.linkAdded link])

/-- Takes a link away with its breakpoint. -/
def deleteLink (g : Graph) (id : LinkId) : Except EditError (Graph × List Event) := do
  let link ← g.findLink id
  return (g.dropLink id, [.linkDeleted link])

/-- Replaces the property document of an operator; this is announced even if the documents are
equal. -/
def setProperties (g : Graph) (id : OperatorId) (properties : Json) :
    Except EditError (Graph × List Event) := do
  let op ← g.findOperator id
  return ({ g with operators := g.operators.insert id { op with properties } },
    [.propertyChanged id op.properties properties])

/-- Sets the disabled flag of an operator. -/
def setDisabled (g : Graph) (id : OperatorId) (disabled : Bool) :
    Except EditError (Graph × List Event) := do
  let op ← g.findOperator id
  return ({ g with operators := g.operators.insert id { op with disabled } },
    if op.disabled = disabled then [] else [.operatorDisabledChanged id disabled])

/-- Sets the breakpoint of a link, or takes it away. -/
def setBreakpoint (g : Graph) (id : LinkId) (breakpoint : Option Breakpoint) :
    Except EditError (Graph × List Event) := do
  let _ ← g.findLink id
  let breakpoints :=
    match breakpoint with
    | some value => g.breakpoints.insert id value
    | none => g.breakpoints.erase id
  return ({ g with breakpoints },
    if g.breakpoints.get? id = breakpoint then [] else [.breakpointChanged id breakpoint])

/-- Moves an operator on the canvas. -/
def setPosition (g : Graph) (id : OperatorId) (position : Point) :
    Except EditError (Graph × List Event) := do
  let _ ← g.findOperator id
  return ({ g with positions := g.positions.insert id position },
    if (g.positionOf id).same position then [] else [.operatorMoved id position])

end Graph

/-- A graph under change, with the events its mutations have announced so far. -/
structure Draft where
  graph : Graph
  announced : List Event

namespace Draft

/-- The draft of a graph that nothing has happened to. -/
def start (g : Graph) : Draft := ⟨g, []⟩

/-- Carries a mutation out and announces its events, or refuses and leaves the draft alone. -/
def mutate (step : Graph → Except EditError (Graph × List Event)) : Attempt Draft Unit :=
  Attempt.of fun draft =>
    match step draft.graph with
    | .ok (graph, events) => (.ok (), ⟨graph, draft.announced ++ events⟩)
    | .error cause => (.error cause, draft)

end Draft

end PipelineEditor
