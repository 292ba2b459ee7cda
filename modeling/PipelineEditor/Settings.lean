import PipelineEditor.Format.Operator
import PipelineEditor.Json.Parser
import PipelineEditor.Json.Printer

/-!
# Settings of an editing session

## Main definitions

* `Settings`, `Settings.initial` — the settings, and those that hold where none are given.
* `Settings.toText`, `Settings.ofFile` — how settings are kept in a file.
-/

namespace PipelineEditor

/-- The settings of an editing session; times are in milliseconds. -/
structure Settings where
  /-- How many commands can be undone. -/
  undoLimit : Nat
  /-- How close in time two moves must be to be undone together. -/
  mergeWindow : Nat
  /-- How long the graph must be at rest before the inference service is asked. -/
  quietPeriod : Nat
  /-- Where the inference service is, if there is one. -/
  inferenceEndpoint : Option String
  /-- Where the metadata service is, if there is one. -/
  metadataEndpoint : Option String
  /-- How long an answer of a service may take. -/
  requestTimeout : Nat
  deriving DecidableEq

/-- Why settings cannot be loaded or saved. -/
inductive SettingsError where
  /-- The file is no text, or cannot be written. -/
  | fileUnusable
  /-- The text does not hold settings. -/
  | malformed
  deriving DecidableEq

namespace Settings

/-- The settings that hold where none are given. -/
def initial : Settings :=
  { undoLimit := 100
    mergeWindow := 500
    quietPeriod := 100
    inferenceEndpoint := none
    metadataEndpoint := none
    requestTimeout := 10000 }

instance : Inhabited Settings := ⟨initial⟩

def toJson (settings : Settings) : Json :=
  .object [
    ("undoHistoryLimit", .ofNat settings.undoLimit),
    ("dragCoalesceMs", .ofNat settings.mergeWindow),
    ("propagationDebounceMs", .ofNat settings.quietPeriod),
    ("propagationEndpoint", .ofOption .string settings.inferenceEndpoint),
    ("metadataEndpoint", .ofOption .string settings.metadataEndpoint),
    ("requestTimeoutMs", .ofNat settings.requestTimeout)]

section

open Document

variable {σ : Type} [Document σ]

/-- Every setting may be left out. -/
def read? (doc : σ) : Option Settings := do
  let fields ← record? ["undoHistoryLimit", "dragCoalesceMs", "propagationDebounceMs",
    "propagationEndpoint", "metadataEndpoint", "requestTimeoutMs"] doc
  return {
    undoLimit := ← fields.withDefault "undoHistoryLimit" initial.undoLimit (nat? UInt64.size)
    mergeWindow := ← fields.withDefault "dragCoalesceMs" initial.mergeWindow (nat? UInt64.size)
    quietPeriod := ← fields.withDefault "propagationDebounceMs" initial.quietPeriod
      (nat? UInt64.size)
    inferenceEndpoint := ← fields.withDefault "propagationEndpoint" none (optional? string?)
    metadataEndpoint := ← fields.withDefault "metadataEndpoint" none (optional? string?)
    requestTimeout := ← fields.withDefault "requestTimeoutMs" initial.requestTimeout
      (nat? UInt64.size) }

end

/-- The text that settings are saved as. -/
def toText (settings : Settings) : String := settings.toJson.indented

/-- The settings that a text holds. -/
def ofText (text : String) : Except SettingsError Settings :=
  match Json.Tree.parse? text >>= read? with
  | some settings => .ok settings
  | none => .error .malformed

/-- The settings in a file with the given bytes; without a file the initial ones hold. -/
def ofFile : Option ByteArray → Except SettingsError Settings
  | none => .ok initial
  | some bytes =>
    match String.fromUTF8? bytes with
    | some text => ofText text
    | none => .error .fileUnusable

end Settings

end PipelineEditor
