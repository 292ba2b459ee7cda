import PipelineEditor.Graph

/-!
# Saved pipelines

`Content` is a pipeline as it is kept outside the editor: operators, their positions, links and
breakpoints, in the order of the document.

## Main definitions

* `Content`, `Content.ofGraph` — saved pipelines, and the one that a graph is saved as.
-/

namespace PipelineEditor

/-- A saved pipeline. -/
structure Content where
  operators : List Operator
  positions : Dict Point
  links : List Link
  breakpoints : Dict Breakpoint
  deriving DecidableEq, Inhabited

namespace Content

/-- The saved pipeline without operators. -/
def empty : Content := ⟨[], ∅, [], ∅⟩

/-- What a graph is saved as: operators and links ordered by name. -/
def ofGraph (g : Graph) : Content :=
  { operators := g.operators.values
    positions := .ofList (g.operators.values.map fun op => (op.id, g.positionOf op.id))
    links := g.links.values
    breakpoints := g.breakpoints }

/-- Where an operator stands; the origin if its position is not saved. -/
def positionOf (content : Content) (id : OperatorId) : Point :=
  (content.positions.get? id).getD .origin

end Content

end PipelineEditor
