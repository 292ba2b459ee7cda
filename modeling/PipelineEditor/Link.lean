import PipelineEditor.Operator

/-!
# Links and breakpoints

A link carries data from an output port to an input port, and may hold a breakpoint.

## Main definitions

* `Link`, `Link.touches`, `Link.sameEnds` — links and what they join.
* `Breakpoint` — where a run pauses.
* `SavedLink` — a link with the breakpoint it held, enough to put it back.
-/

namespace PipelineEditor

/-- A connection from an output port to an input port. -/
structure Link where
  id : LinkId
  source : PortRef
  target : PortRef
  deriving DecidableEq, Inhabited

namespace Link

/-- Whether either end is at the operator. -/
def touches (link : Link) (op : OperatorId) : Bool :=
  link.source.operator = op || link.target.operator = op

/-- Whether the link joins exactly these two ports. -/
def joins (link : Link) (source target : PortRef) : Bool :=
  link.source = source && link.target = target

/-- Whether two links join the same ports. -/
def sameEnds (link other : Link) : Bool := link.joins other.source other.target

end Link

/-- How a condition compares an attribute with its value. -/
inductive Comparison where
  | equal
  | notEqual
  | greaterThan
  | greaterThanOrEqual
  | lessThan
  | lessThanOrEqual
  | contains
  | doesNotContain
  deriving DecidableEq, Inhabited

/-- Where a run pauses on a link. -/
inductive Breakpoint where
  /-- At a tuple whose attribute satisfies the condition. -/
  | condition (column : String) (comparison : Comparison) (value : String)
  /-- After so many tuples. -/
  | count (tuples : Nat)
  deriving DecidableEq, Inhabited

/-- A link with the breakpoint it held. -/
structure SavedLink where
  link : Link
  breakpoint : Option Breakpoint
  deriving DecidableEq, Inhabited

end PipelineEditor
