import PipelineEditor.Catalogue
import PipelineEditor.Text.Blank
import PipelineEditor.Validation.Cycle

/-!
# Checks on operators and pipelines

Findings are data: a pipeline with missing properties or open ports is an ordinary state of editing
that only keeps it from being run.

## Main definitions

* `Graph.check`, `Findings` — what is wrong with one operator, by field.
* `Graph.checkAll` — the findings on every operator and on the pipeline as a whole.
* `Validation`, `Validation.refresh` — the latest findings, and what has changed in them.
-/

namespace PipelineEditor

/-- What is wrong with an operator, by the field in question. -/
structure Findings where
  id : OperatorId
  errors : Dict String
  deriving DecidableEq, Inhabited

namespace Findings

def isValid (findings : Findings) : Bool := findings.errors.isEmpty

/-- All findings on one line. -/
def summary (findings : Findings) : String :=
  "; ".intercalate (findings.errors.toList.map fun entry => entry.1 ++ ": " ++ entry.2)

end Findings

/-- Whether a property counts as not set. -/
def isUnset : Option Json → Bool
  | none | some .null | some (.array []) => true
  | some (.string s) => Text.isBlank s
  | some _ => false

namespace Graph

/-- Whether an enabled operator feeds an input port. -/
def isFed (g : Graph) (id : OperatorId) (port : PortId) : Bool :=
  (g.linksInto id).any fun link => link.target.port = port && g.isEnabled link.source.operator

/-- What is wrong with the version of an operator. -/
def versionErrors (op : Operator) (t : OperatorType) : List (String × String) :=
  if op.version = t.version then []
  else [("operatorVersion", "Operator version '" ++ op.version ++
    "' is outdated, current version is '" ++ t.version ++ "'")]

/-- The required properties that are not set. -/
def propertyErrors (op : Operator) (t : OperatorType) : List (String × String) :=
  (t.required.filter fun property => isUnset (op.property? property)).map
    (·, "Required property is not set")

/-- The input ports that nothing feeds. -/
def portErrors (g : Graph) (op : Operator) : List (String × String) :=
  (op.inputs.filter fun port => !g.isFed op.id port.id).map
    (·.id, "Input port is not connected")

/-- Checks one operator against its type and its connections.  Nothing is wrong with a disabled
operator, and a link from one connects nothing. -/
def check (g : Graph) (catalogue : Catalogue) (op : Operator) : Findings :=
  { id := op.id
    errors :=
      if op.disabled then ∅
      else
        match catalogue.type? op.type with
        | none => .ofList [("operatorType", "Unknown operator type '" ++ op.type ++ "'")]
        | some t => .ofList (versionErrors op t ++ propertyErrors op t ++ g.portErrors op) }

/-- What is wrong with the pipeline as a whole, by operator or link. -/
def pipelineErrors (g : Graph) (results : Dict Findings) : Dict String :=
  let perOperator : Dict String := .ofList ((results.toList.filter (!·.2.isValid)).map
    fun entry => (entry.1, entry.2.summary))
  match g.cycleLink? with
  | some link => perOperator.insert link "Link is part of a cycle"
  | none => perOperator

/-- Checks every operator and the pipeline as a whole. -/
def checkAll (g : Graph) (catalogue : Catalogue) : Dict Findings × Dict String :=
  let results : Dict Findings :=
    .ofList (g.operators.values.map fun op => (op.id, g.check catalogue op))
  (results, g.pipelineErrors results)

end Graph

/-- The latest findings. -/
structure Validation where
  results : Dict Findings
  /-- What is wrong with the pipeline as a whole. -/
  pipeline : Dict String
  deriving DecidableEq, Inhabited

namespace Validation

/-- No findings yet. -/
def start : Validation := ⟨∅, ∅⟩

/-- Whether the pipeline may be run. -/
def isValid (v : Validation) : Bool := v.pipeline.isEmpty

/-- The findings that are new or differ from the earlier ones. -/
def changed (before after : Dict Findings) : List Event :=
  (after.toList.filter fun entry => before.get? entry.1 ≠ some entry.2).map fun entry =>
    .operatorValidityChanged entry.1 entry.2.isValid entry.2.errors

/-- The earlier findings on operators that are gone. -/
def cleared (before after : Dict Findings) : List Event :=
  (before.keys.filter (!after.contains ·)).map .operatorValidationCleared

/-- Checks a graph anew and tells what has changed since the last time. -/
def refresh (v : Validation) (g : Graph) (catalogue : Catalogue) : Validation × List Event :=
  let (results, pipeline) := g.checkAll catalogue
  (⟨results, pipeline⟩, changed v.results results ++ cleared v.results results)

end Validation

end PipelineEditor
