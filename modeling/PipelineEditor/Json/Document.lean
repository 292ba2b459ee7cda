import PipelineEditor.Json.Value

/-!
# Documents and their readers

A reader takes a document apart one level at a time and fails where the document has another
shape.  It works alike on a value in memory and on a text that has just been parsed; the second can
hold what the first cannot: a member twice, or a part with no value at all.

A *record* is written as an object, whose unknown members are ignored and whose known ones occur at
most once, or as an array of its fields in their order, from which trailing fields with a default
may be missing.  A *tagged* record has its kind as member `type`, or as the first item.

## Main definitions

* `Layer`, `Document` — one level of a document, and the types that can be read.
* `Document.string?`, `Document.nat?`, `Document.list?`, … — readers of simple shapes.
* `Document.record?`, `Document.tagged?` — readers of records, with `Fields.required` and
  `Fields.withDefault`.
-/

namespace PipelineEditor

/-- What a reader sees of a document at one level. -/
inductive Layer (σ : Type) where
  | null
  | bool (value : Bool)
  | int (value : Int)
  | float (value : Double)
  | string (value : String)
  | array (items : List σ)
  | object (members : List (String × σ))
  /-- A part that is well formed as text but stands for no value. -/
  | unreadable

/-- The types of document that can be read: what stands at the top, and the value of the whole,
if every part of it has one. -/
class Document (σ : Type) where
  layer : σ → Layer σ
  value? : σ → Option Json

instance : Document Json where
  layer
    | .null => .null
    | .bool b => .bool b
    | .int n => .int n
    | .float x => .float x
    | .string s => .string s
    | .array items => .array items
    | .object members => .object members
  value? := some

/-- The fields of a record that a document gives, by name. -/
abbrev Fields (σ : Type) : Type := List (String × σ)

namespace Fields

variable {σ α : Type}

/-- A field that must be given. -/
def required (fields : Fields σ) (name : String) (read : σ → Option α) : Option α :=
  match Entries.find? name fields with
  | some doc => read doc
  | none => none

/-- A field that may be left out. -/
def withDefault (fields : Fields σ) (name : String) (value : α) (read : σ → Option α) : Option α :=
  match Entries.find? name fields with
  | some doc => read doc
  | none => some value

end Fields

namespace Document

variable {σ α : Type} [Document σ]

/-! ## Simple shapes -/

def string? (doc : σ) : Option String :=
  match layer doc with
  | .string s => some s
  | _ => none

def bool? (doc : σ) : Option Bool :=
  match layer doc with
  | .bool b => some b
  | _ => none

/-- An integer literal from `low` to `high`. -/
def int? (low high : Int) (doc : σ) : Option Int :=
  match layer doc with
  | .int n => if low ≤ n ∧ n ≤ high then some n else none
  | _ => none

/-- A natural number literal below `bound`. -/
def nat? (bound : Nat) (doc : σ) : Option Nat :=
  match layer doc with
  | .int (.ofNat n) => if n < bound then some n else none
  | _ => none

/-- A number of either form, as a double. -/
def double? (doc : σ) : Option Double :=
  match layer doc with
  | .int n => some (.ofInt n)
  | .float x => some x
  | _ => none

/-- A list whose items all read. -/
def list? (read : σ → Option α) (doc : σ) : Option (List α) :=
  match layer doc with
  | .array items => items.mapM read
  | _ => none

/-- A map whose values all read; of two members under one key the later one counts. -/
def dict? (read : σ → Option α) (doc : σ) : Option (Dict α) :=
  match layer doc with
  | .object members =>
    (members.mapM fun member => (read member.2).map (member.1, ·)).map Dict.ofList
  | _ => none

/-- A value that may be `null`. -/
def optional? (read : σ → Option α) (doc : σ) : Option (Option α) :=
  match layer doc with
  | .null => some none
  | _ => (read doc).map some

/-! ## Records -/

/-- The fields `names` of a record at one level. -/
def recordLayer? (names : List String) : Layer σ → Option (Fields σ)
  | .object members =>
    let known := members.filter fun member => names.contains member.1
    if (known.map (·.1)).Nodup then some known else none
  | .array items => if items.length ≤ names.length then some (names.zip items) else none
  | _ => none

/-- The fields `names` of a record. -/
def record? (names : List String) (doc : σ) : Option (Fields σ) :=
  recordLayer? names (layer doc)

/-- The kind of a tagged record and the level that holds its other fields.  All of the document
must be readable, members of no meaning included. -/
def tagged? (doc : σ) : Option (σ × Layer σ) :=
  if (value? doc).isNone then none
  else
    match layer doc with
    | .object members =>
      match members.filter fun member => member.1 = "type" with
      | [(_, tag)] => some (tag, .object (members.filter fun member => member.1 ≠ "type"))
      | _ => none
    | .array (tag :: rest) => some (tag, .array rest)
    | _ => none

/-- One of a fixed set of names, also written as an object whose only member has that name and
holds nothing. -/
def name? (doc : σ) : Option String :=
  match layer doc with
  | .string s => some s
  | .object [(s, inner)] =>
    match layer inner with
    | .null | .object [] => some s
    | _ => none
  | _ => none

end Document

end PipelineEditor
