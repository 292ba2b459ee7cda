import PipelineEditor.Editor
import PipelineEditor.Inference.Correction
import PipelineEditor.Inference.Overlay

/-!
# Requests to the inference service and their answers

Each request carries a number, one higher than that of the request before it, and the revision of
the graph it was made from.  An answer counts only if it is to the latest request and the graph has
not changed since; every other answer is stale and left alone.  An answer that counts replaces the
schemas that forms follow, and properties that name lost attributes are corrected, one command for
each operator.  While the pipeline is locked, corrections wait.

## Main definitions

* `Request`, `Outcome` — what is sent, and what comes back.
* `Propagation`, `Propagation.prepare` — the bookkeeping, and the next request.
* `Propagation.apply`, `Propagation.applyDeferred` — an outcome taken over, and waiting corrections
  made up for.
-/

namespace PipelineEditor

/-- A plan with the state it was made from. -/
structure Request where
  sequence : Nat
  /-- The revision of the graph. -/
  revision : Nat
  plan : Plan
  deriving DecidableEq

/-- What came back for a request: an answer, or the text of a failure. -/
structure Outcome where
  sequence : Nat
  revision : Nat
  answer : Except String Response

/-- What came back for a request, from what the service said. -/
def Outcome.ofReply (request : Request) (reply : Except EditError Response) : Outcome :=
  { sequence := request.sequence
    revision := request.revision
    answer := reply.mapError EditError.message }

/-- The inferred schemas, or the failure of the service or of the way to it. -/
def Outcome.inferred (outcome : Outcome) : Except EditError InputSchemas :=
  match outcome.answer with
  | .ok response => response.inferred
  | .error text => .error (.inferenceFailed text)

/-- What became of an outcome. -/
structure Applied where
  /-- It answered nothing that still counts. -/
  stale : Bool
  /-- Changes of schemas, or notice of a failure. -/
  events : List Event
  /-- The operators whose properties were corrected. -/
  corrected : List OperatorId
  deriving DecidableEq

/-- The bookkeeping of requests and answers. -/
structure Propagation where
  overlay : Overlay
  nextSequence : Nat
  /-- The number of the latest request. -/
  latestIssued : Option Nat
  /-- Whether corrections wait for the pipeline to be unlocked. -/
  deferred : Bool

namespace Propagation

/-- No request has been made. -/
def start : Propagation := ⟨.empty, 1, none, false⟩

/-- The next request.  It supersedes all earlier ones. -/
def prepare (p : Propagation) (g : Graph) (revision : Nat) : Request × Propagation :=
  (⟨p.nextSequence, revision, .ofGraph g⟩,
    { p with nextSequence := p.nextSequence + 1, latestIssued := some p.nextSequence })

/-- Whether an answer to a request still counts. -/
def isCurrent (p : Propagation) (sequence revision currentRevision : Nat) : Bool :=
  p.latestIssued = some sequence && revision = currentRevision

/-- Replaces property documents, one command for each. -/
def replaceAll (documents : List (OperatorId × Json)) : Attempt Editor (List OperatorId) :=
  documents.mapM fun (id, document) => do
    Editor.bundle (Editor.setProperties id document)
    return id

/-- Corrects the properties that name attributes not among the given ones, or leaves that for later
if the pipeline is locked. -/
def correct (p : Propagation) (editor : Editor) (result : InputSchemas) :
    Except EditError (List OperatorId) × Propagation × Editor :=
  let documents := editor.graph.corrections editor.catalogue result
  if documents.isEmpty then (.ok [], { p with deferred := false }, editor)
  else if !editor.enabled then (.ok [], { p with deferred := true }, editor)
  else
    let (corrected, editor) := (replaceAll documents).exec editor
    (corrected, { p with deferred := false }, editor)

/-- Takes an outcome over.  Failures and stale outcomes touch neither schemas nor properties. -/
def apply (p : Propagation) (editor : Editor) (outcome : Outcome) (currentRevision : Nat) :
    Except EditError Applied × Propagation × Editor :=
  if !p.isCurrent outcome.sequence outcome.revision currentRevision then
    (.ok ⟨true, [], []⟩, p, editor)
  else
    match outcome.inferred with
    | .error cause =>
      (.ok ⟨false, [.propagationFailed outcome.sequence cause.message], []⟩, p, editor)
    | .ok result =>
      let (overlay, events) := p.overlay.apply editor.graph editor.catalogue result
      let (corrected, p, editor) := { p with overlay }.correct editor result
      (corrected.map (⟨false, events, ·⟩), p, editor)

/-- Makes up for corrections that waited for the pipeline to be unlocked, by the attributes last
reported. -/
def applyDeferred (p : Propagation) (editor : Editor) :
    Except EditError (List OperatorId) × Propagation × Editor :=
  if !p.deferred || !editor.enabled then (.ok [], p, editor)
  else { p with deferred := false }.correct editor p.overlay.inputs

/-- Forgets the schemas and the latest request; numbers are not used again. -/
def reset (p : Propagation) : Propagation :=
  { p with overlay := .empty, latestIssued := none, deferred := false }

end Propagation

end PipelineEditor
