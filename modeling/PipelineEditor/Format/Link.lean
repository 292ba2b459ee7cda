import PipelineEditor.Link
import PipelineEditor.Format.Operator

/-!
# The written form of links and breakpoints
-/

namespace PipelineEditor

open Document

variable {σ : Type} [Document σ]

namespace Link

def toJson (link : Link) : Json :=
  .object [
    ("linkID", .string link.id),
    ("source", link.source.toJson),
    ("target", link.target.toJson)]

def read? (doc : σ) : Option Link := do
  let fields ← record? ["linkID", "source", "target"] doc
  return {
    id := ← fields.required "linkID" string?
    source := ← fields.required "source" PortRef.read?
    target := ← fields.required "target" PortRef.read? }

end Link

namespace Comparison

/-- The written name. -/
def name : Comparison → String
  | equal => "equal"
  | notEqual => "not_equal"
  | greaterThan => "greater_than"
  | greaterThanOrEqual => "greater_than_or_equal"
  | lessThan => "less_than"
  | lessThanOrEqual => "less_than_or_equal"
  | contains => "contains"
  | doesNotContain => "does_not_contain"

def ofName? : String → Option Comparison
  | "equal" => some equal
  | "not_equal" => some notEqual
  | "greater_than" => some greaterThan
  | "greater_than_or_equal" => some greaterThanOrEqual
  | "less_than" => some lessThan
  | "less_than_or_equal" => some lessThanOrEqual
  | "contains" => some contains
  | "does_not_contain" => some doesNotContain
  | _ => none

def read? (doc : σ) : Option Comparison := name? doc >>= ofName?

end Comparison

namespace Breakpoint

def toJson : Breakpoint → Json
  | condition column comparison value =>
    .object [
      ("type", .string "condition"),
      ("column", .string column),
      ("condition", .string comparison.name),
      ("value", .string value)]
  | count tuples => .object [("type", .string "count"), ("count", .ofNat tuples)]

/-- The breakpoint of a kind, from the level that holds its other fields. -/
def ofKind? (kind : String) (rest : Layer σ) : Option Breakpoint :=
  match kind with
  | "condition" => do
    let fields ← recordLayer? ["column", "condition", "value"] rest
    return .condition (← fields.required "column" string?)
      (← fields.required "condition" Comparison.read?) (← fields.required "value" string?)
  | "count" => do
    let fields ← recordLayer? ["count"] rest
    return .count (← fields.required "count" (nat? UInt64.size))
  | _ => none

def read? (doc : σ) : Option Breakpoint := do
  let (tag, rest) ← tagged? doc
  ofKind? (← string? tag) rest

/-- Inside another tagged record the kind may also be given by its number. -/
def readNested? (doc : σ) : Option Breakpoint := do
  let (tag, rest) ← tagged? doc
  match layer tag with
  | .int 0 => ofKind? "condition" rest
  | .int 1 => ofKind? "count" rest
  | _ => ofKind? (← string? tag) rest

end Breakpoint

namespace SavedLink

/-- The breakpoint is written only where there is one. -/
def toJson (saved : SavedLink) : Json :=
  .object (("link", saved.link.toJson) ::
    match saved.breakpoint with
    | some breakpoint => [("breakpoint", breakpoint.toJson)]
    | none => [])

def read? (doc : σ) : Option SavedLink := do
  let fields ← record? ["link", "breakpoint"] doc
  return {
    link := ← fields.required "link" Link.read?
    breakpoint := ← fields.withDefault "breakpoint" none (optional? Breakpoint.read?) }

end SavedLink

end PipelineEditor
