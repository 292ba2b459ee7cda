import PipelineEditor.Proofs.Answer
import PipelineEditor.Proofs.Drawing
import PipelineEditor.Proofs.Granted
import PipelineEditor.Proofs.Refusal
import PipelineEditor.Proofs.Waiting

/-!
# Forms and types

The form of an operator follows the schema of the operator's type, with the choices filled in that
the last answer offers.  What was learned is kept under the operator's name alone, and forgotten
once no operator has the name.  So a call that takes an operator away and puts one of another type
in its place leaves the new operator the form of the old one.  This is the only way in which an
operator comes by the form of another type, and the next answer that counts mends it.

## Main definitions

* `OperatorType.Underlies t schema`: the schema is that of the type but for the choices it offers
* `Session.FormOf s id type`: the form of the operator is one of the type
* `Session.Call.Retypes id`: the call leaves an operator of another type under the name

## Main results

* `OperatorType.underlies_overlay`: attributes that become known change choices only
* `Session.forms_after`: after every run each form is one of a type, and of the operator's own
  unless some call has retyped it
* `Session.form_of_counted`: an answer that counts gives each operator a form of its own type
* `Session.not_own_form_reused`: an operator under the name of another has the form of the other
-/

namespace PipelineEditor

open Attempt (Keeps)

/-! ## Schemas without their choices -/

/-- The object without the members under the keys; other values have no members. -/
def Json.without (keys : List String) : Json → Json
  | object members => object (members.filter fun member => member.1 ∉ keys)
  | other => other

/-- The definition that a schema has of a property. -/
def Json.definition? (schema : Json) (property : String) : Option Json :=
  (schema.get? "properties").bind (·.get? property)

/-- What the definition of a property says of its choices. -/
def AutofillKind.choices : AutofillKind → List String
  | name => ["enum"]
  | list => ["items", "uniqueItems"]

/-- What the definition of a property says of choices that come from the attributes. -/
def OperatorType.choices (t : OperatorType) (property : String) : List String :=
  t.autofills.flatMap fun field => if field.property = property then field.kind.choices else []

/-- **The schema is that of the type but for the choices it offers**: all but the properties that
are filled in is as the type has it, and so are the definitions of these up to their choices. -/
structure OperatorType.Underlies (t : OperatorType) (schema : Json) : Prop where
  rest : schema.without ["properties"] = t.jsonSchema.without ["properties"]
  properties : (schema.get? "properties").map (·.without (t.autofills.map (·.property))) =
    (t.jsonSchema.get? "properties").map (·.without (t.autofills.map (·.property)))
  definitions : ∀ property, (schema.definition? property).map (·.without (t.choices property)) =
    (t.jsonSchema.definition? property).map (·.without (t.choices property))

namespace Entries

variable {β : Type}

theorem filter_insert {keys : List String} {key : String} (h : key ∈ keys) (value : β)
    (entries : List (String × β)) :
    (insert key value entries).filter (fun entry => entry.1 ∉ keys) =
      entries.filter fun entry => entry.1 ∉ keys := by
  induction entries with
  | nil => simp [insert, h]
  | cons head rest ih =>
    obtain ⟨k, v⟩ := head
    rw [insert]
    split
    · rename_i heq
      simp [heq, h]
    · split
      · simp [h]
      · simp only [List.filter_cons, ih]

end Entries

namespace Json

/-- A member that is left out may be replaced. -/
theorem without_set {keys : List String} {key : String} (h : key ∈ keys) (target value : Json) :
    (target.set key value).without keys = target.without keys := by
  cases target with
  | object members => exact congrArg object (Entries.filter_insert h value members)
  | _ => rfl

theorem get?_set_object (members : List (String × Json)) (key other : String) (value : Json) :
    ((object members).set key value).get? other =
      if key = other then some value else (object members).get? other :=
  Entries.find?_insert key other value members

/-- What has a member is an object. -/
theorem exists_object {v found : Json} {key : String} (h : v.get? key = some found) :
    ∃ members, v = object members := by
  cases v with
  | object members => exact ⟨members, rfl⟩
  | _ => cases h

end Json

/-- Offering attribute names changes the choices only. -/
theorem Autofill.without_offer {kind : AutofillKind} {keys : List String}
    (h : kind.choices ⊆ keys) (names : List String) (definition : Json) :
    (offer kind names definition).without keys = definition.without keys := by
  cases kind with
  | name => exact Json.without_set (h List.mem_cons_self) ..
  | list =>
    unfold offer
    dsimp only
    rw [Json.without_set (h (List.mem_cons_of_mem _ List.mem_cons_self)),
      Json.without_set (h List.mem_cons_self)]

namespace OperatorType

variable {t : OperatorType}

theorem underlies_jsonSchema (t : OperatorType) : t.Underlies t.jsonSchema :=
  ⟨rfl, rfl, fun _ => rfl⟩

/-- **Filling in one property changes its choices only.** -/
theorem Underlies.applyTo? {schema filled : Json} (h : t.Underlies schema) {field : Autofill}
    (hfield : field ∈ t.autofills) {names : List String}
    (hfilled : field.applyTo? names schema = some filled) : t.Underlies filled := by
  unfold Autofill.applyTo? at hfilled
  obtain ⟨properties, hproperties, hfilled⟩ := Option.bind_eq_some_iff.mp hfilled
  obtain ⟨members, rfl⟩ := Json.exists_object hproperties
  split at hfilled
  · rename_i definition hdefinition
    obtain ⟨listed, rfl⟩ := Json.exists_object hdefinition
    cases hfilled
    have hname : field.property ∈ t.autofills.map (·.property) := List.mem_map_of_mem hfield
    refine ⟨?_, ?_, fun property => ?_⟩
    · rw [Json.without_set List.mem_cons_self, h.rest]
    · rw [Json.get?_set_object, if_pos rfl, Option.map_some, Json.without_set hname, ← h.properties,
        hproperties, Option.map_some]
    · rw [← h.definitions property]
      unfold Json.definition?
      rw [Json.get?_set_object, if_pos rfl, hproperties, Option.bind_some, Option.bind_some,
        Json.get?_set_object]
      split
      · -- The property that is filled in has the choices of its kind.
        rename_i heq
        have hchoices : field.kind.choices ⊆ t.choices property := fun key hkey =>
          List.mem_flatMap.mpr ⟨field, hfield, by rwa [if_pos heq]⟩
        rw [← heq] at hchoices ⊢
        rw [hdefinition, Option.map_some, Option.map_some, Autofill.without_offer hchoices]
      · rfl
  · cases hfilled

/-- **Attributes that become known change choices only.** -/
theorem underlies_overlay {ports : PortSchemas} {schema : Json}
    (h : t.overlay? ports = some schema) : t.Underlies schema := by
  have hall : ∀ schema, t.overlay? ports = some schema → t.Underlies schema := by
    unfold overlay?
    refine List.foldlRecOn (motive := fun overlaid => ∀ schema, overlaid = some schema →
      t.Underlies schema) t.autofills _ (fun _ hnone => nomatch hnone) ?_
    intro overlaid ih field hfield schema hschema
    -- The fields before have left a schema of the type, or none, and then it starts from that.
    have hbefore : t.Underlies (overlaid.getD t.jsonSchema) := by
      cases overlaid with
      | none => exact t.underlies_jsonSchema
      | some before => exact ih before rfl
    split at hschema
    · exact ih schema hschema
    · split at hschema
      · rename_i attributes _ filled hfilled
        cases hschema
        exact hbefore.applyTo? hfield hfilled
      · exact ih schema hschema
  exact hall schema h

end OperatorType

/-! ## Types of operators -/

/-- **No operator has come, and those that are left are of the types they had.** -/
def Graph.KeepsTypes (g g' : Graph) : Prop :=
  ∀ id op', g'.operators.get? id = some op' →
    ∃ op, g.operators.get? id = some op ∧ op.type = op'.type

namespace Graph.KeepsTypes

variable {g g' g'' : Graph}

theorem of_operators (h : g'.operators = g.operators) : g.KeepsTypes g' := fun id op' hget =>
  ⟨op', by rw [← h, hget], rfl⟩

theorem trans (h : g.KeepsTypes g') (h' : g'.KeepsTypes g'') : g.KeepsTypes g'' := by
  intro id op'' hget
  obtain ⟨op', hget', htype'⟩ := h' id op'' hget
  obtain ⟨op, hget, htype⟩ := h id op' hget'
  exact ⟨op, hget, htype.trans htype'⟩

/-- Replacing property documents keeps the types. -/
theorem rewrite (g : Graph) (documents : List (OperatorId × Json)) :
    g.KeepsTypes (g.rewrite documents) := by
  refine List.foldlRecOn (motive := g.KeepsTypes) documents _ (of_operators rfl) ?_
  rintro g' hkeeps ⟨id, document⟩ -
  refine hkeeps.trans fun other op' hget => ?_
  rw [Graph.get?_modifyOperator] at hget
  split at hget
  · rename_i heq
    obtain ⟨op, hop, rfl⟩ := Option.map_eq_some_iff.mp hget
    exact ⟨op, heq ▸ hop, rfl⟩
  · exact ⟨op', hget, rfl⟩

/-- So does what a gesture asks for: no gesture adds an operator. -/
theorem effect {intent : Intent} (h : intent.effect g = .ok g') : g.KeepsTypes g' := by
  cases intent with
  | addLink link =>
    obtain ⟨-, rfl⟩ := Draft.takes_addLink_iff.mp (Mutation.result_eq_ok_iff.mp h)
    exact of_operators rfl
  | deleteLink id =>
    obtain ⟨-, rfl⟩ := Draft.takes_deleteLink_iff.mp (Mutation.result_eq_ok_iff.mp h)
    exact of_operators rfl
  | deleteOperator id =>
    have hdeletes : (Intent.deleteOperator id).IsDeletion := trivial
    have hfewer := (Intent.fewer_of_effect hdeletes h).1
    exact fun other op' hget => ⟨op', hfewer.operators hget, rfl⟩
  | moveOperator id position =>
    obtain ⟨start, -, hmove⟩ := bind_eq_ok_iff.mp h
    split at hmove
    · cases hmove
      exact of_operators rfl
    · obtain ⟨-, rfl⟩ := Draft.takes_setPosition_iff.mp (Mutation.result_eq_ok_iff.mp hmove)
      exact of_operators rfl

theorem effectAll {intents : List Intent} (h : Intent.effectAll intents g = .ok g') :
    g.KeepsTypes g' := by
  induction intents generalizing g with
  | nil =>
    cases h
    exact of_operators rfl
  | cons intent rest ih =>
    obtain ⟨middle, hfirst, hrest⟩ := bind_eq_ok_iff.mp h
    exact (effect hfirst).trans (ih hrest)

end Graph.KeepsTypes

/-- **Following a gesture keeps the types**, whether it is granted or refused. -/
theorem Bridge.forward_keepsTypes {e : Editor} (hidle : e.bundled = none)
    (hwf : e.graph.WellFormed e.catalogue) (bridge : Bridge) (gesture : Gesture) :
    e.graph.KeepsTypes (bridge.forward e gesture).2.2.graph := by
  rcases bridge.forward_cases e gesture with ⟨e', hexec, heq⟩ | ⟨cause, e', hexec, heq⟩
  · rw [heq]
    exact .effectAll (Intent.effectAll_of_granted hidle hwf hexec)
  · rw [heq]
    exact .of_operators (congrArg Graph.operators (Intent.performAll_refused hidle hwf hexec).1)

/-- So does making the corrections that an answer asks for. -/
theorem Propagation.correct_keepsTypes {e : Editor} (hidle : e.bundled = none) (p : Propagation)
    (result : InputSchemas) : e.graph.KeepsTypes (p.correct e result).2.2.graph := by
  cases henabled : e.enabled with
  | true =>
    obtain ⟨e', hexec, hgraph, -⟩ := exec_replaceAll_corrections henabled hidle result
    rw [correct_of_enabled henabled, hexec]
    dsimp only
    rw [hgraph]
    exact .rewrite _ _
  | false =>
    by_cases hnone : e.graph.corrections e.catalogue result = []
    · rw [correct_of_nil hnone]
      exact .of_operators rfl
    · rw [correct_of_locked henabled hnone]
      exact .of_operators rfl

/-- Making up for corrections that waited leaves what is known of schemas, and keeps the types. -/
theorem Propagation.applyDeferred_keepsTypes {e : Editor} (hidle : e.bundled = none)
    (p : Propagation) : (p.applyDeferred e).2.1.overlay = p.overlay ∧
      e.graph.KeepsTypes (p.applyDeferred e).2.2.graph := by
  unfold applyDeferred
  split
  · exact ⟨rfl, .of_operators rfl⟩
  · obtain ⟨deferred, hsame⟩ :=
      correct_propagation { p with deferred := false } e p.overlay.inputs
    exact ⟨by rw [hsame], correct_keepsTypes hidle _ _⟩

/-! ## What was learned of an operator -/

/-- **Whatever was learned of the operator was learned by a type**, which is that of the operator
unless there is an excuse. -/
def Overlay.Learned (g : Graph) (catalogue : Catalogue) (id : OperatorId) (excused : Prop)
    (overlay : Overlay) : Prop :=
  ∀ schema, overlay.schemas.get? id = some schema →
    ∃ op type t ports, g.operators.get? id = some op ∧ catalogue.type? type = some t ∧
      t.overlay? ports = some schema ∧ (type = op.type ∨ excused)

namespace Overlay.Learned

variable {g : Graph} {catalogue : Catalogue} {id : OperatorId} {excused : Prop} {overlay : Overlay}

theorem mono (h : overlay.Learned g catalogue id excused) {more : Prop} (hmore : excused → more) :
    overlay.Learned g catalogue id more := by
  intro schema hschema
  obtain ⟨op, type, t, ports, hop, htype, hports, hown⟩ := h schema hschema
  exact ⟨op, type, t, ports, hop, htype, hports, hown.imp_right hmore⟩

theorem forgetMissing (h : overlay.Learned g catalogue id excused) (g' : Graph) :
    (overlay.forgetMissing g').Learned g catalogue id excused := by
  intro schema hschema
  have hkept : (overlay.schemas.filterKeys g'.hasOperator).get? id = some schema := hschema
  rw [get?_filterKeys] at hkept
  split at hkept
  · exact h schema hkept
  · cases hkept

/-- What an answer says on an operator is learned by the operator's type. -/
theorem applyTo (h : overlay.Learned g catalogue id excused) {op : Operator}
    (hop : g.operators.get? op.id = some op) (result : InputSchemas) :
    (overlay.applyTo catalogue result op).1.Learned g catalogue id excused := by
  intro schema hschema
  unfold Overlay.applyTo at hschema
  split at hschema
  · exact h schema hschema
  · rename_i t htype
    dsimp only at hschema
    split at hschema
    · exact h schema hschema
    · split at hschema
      · rename_i new hnew
        dsimp only at hschema
        rw [Dict.get?_insert] at hschema
        split at hschema
        · rename_i heq
          cases hschema
          obtain ⟨ports, -, hports⟩ := Option.bind_eq_some_iff.mp hnew
          exact ⟨op, op.type, t, ports, heq ▸ hop, htype, hports, .inl rfl⟩
        · exact h schema hschema
      · dsimp only at hschema
        rw [Dict.get?_erase] at hschema
        split at hschema
        · cases hschema
        · exact h schema hschema

/-- So is all that an answer says; a schema that equals the new one is kept. -/
theorem apply (h : overlay.Learned g catalogue id excused) (hwf : g.WellFormed catalogue)
    (result : InputSchemas) :
    (overlay.apply g catalogue result).1.Learned g catalogue id excused := by
  refine List.foldlRecOn (motive := fun learned : Overlay × List Event =>
    learned.1.Learned g catalogue id excused) g.operators.values _ (h.forgetMissing g) ?_
  rintro ⟨learned, events⟩ ih op hmem
  obtain ⟨key, hop⟩ := Dict.mem_values.mp hmem
  obtain rfl := hwf.operator_id hop
  exact ih.applyTo hop result

end Overlay.Learned

namespace Session

variable {σ α : Type} {s s' : Session σ} {catalogue : Catalogue} {id : OperatorId}
  {excused : Prop}

/-- What the session has learned of the operator. -/
def Learned (id : OperatorId) (excused : Prop) (s : Session σ) : Prop :=
  s.propagation.overlay.Learned s.graph s.catalogue id excused

variable [Surface σ]

/-- **Handing events on forgets what was learned of operators that are gone**, and where an operator
is of the type that it had before the call, what was learned was learned by its type still. -/
theorem Learned.settle (hrest : s.AtRest catalogue) (h : s.Learned id excused)
    (hworked : s.editor.Worked s'.editor)
    (hoverlay : s'.propagation.overlay = s.propagation.overlay)
    (htypes : ∀ op op', s.graph.operators.get? id = some op →
      s'.graph.operators.get? id = some op' → op.type = op'.type ∨ excused) :
    s'.settle.Learned id excused := by
  intro schema hschema
  rw [settle_propagation] at hschema
  have hknown : s.propagation.overlay.schemas.get? id = some schema ∧
      ((s.graph.operators.get? id).isSome → (s'.graph.operators.get? id).isSome) := by
    split at hschema
    · rw [(s'.revise_propagation).1, hoverlay] at hschema
      have hkept : (s.propagation.overlay.schemas.filterKeys s'.graph.hasOperator).get? id =
        some schema := hschema
      rw [Overlay.get?_filterKeys] at hkept
      split at hkept
      · rename_i hthere
        exact ⟨hkept, fun _ => hthere⟩
      · cases hkept
    · -- Where nothing concerns schemas, the operators are those from before the call.
      rename_i hquiet
      have hundisturbed : s'.editor.draft.Undisturbed := fun event hmem =>
        Bool.eq_false_iff.mpr fun haffects => hquiet (List.any_eq_true.mpr ⟨event, hmem, haffects⟩)
      have hsame : s'.graph.operators = s.graph.operators :=
        ((hrest.steps hworked).sameShape hundisturbed).2.operators
      rw [hoverlay] at hschema
      exact ⟨hschema, fun hthere => hsame ▸ hthere⟩
  obtain ⟨hbefore, hthere⟩ := hknown
  obtain ⟨op, type, t, ports, hop, htype, hports, hown⟩ := h schema hbefore
  obtain ⟨op', hop'⟩ := Option.isSome_iff_exists.mp (hthere (by simp [hop]))
  have hcatalogue : s'.settle.catalogue = s.catalogue :=
    (settle_catalogue s').trans hworked.evolves.1
  refine ⟨op', type, t, ports, ?_, ?_, hports, ?_⟩
  · rwa [settle_graph]
  · rwa [hcatalogue]
  · rcases htypes op op' hop hop' with hsame | hexcused
    · exact hown.imp_left fun heq => heq.trans hsame
    · exact .inr hexcused

/-- Where types are kept, there is no need of an excuse. -/
theorem Learned.settle_of_keepsTypes (hrest : s.AtRest catalogue) (h : s.Learned id excused)
    (hworked : s.editor.Worked s'.editor)
    (hoverlay : s'.propagation.overlay = s.propagation.overlay)
    (hkeeps : s.graph.KeepsTypes s'.graph) : s'.settle.Learned id excused := by
  refine h.settle hrest hworked hoverlay fun op op' hop hop' => .inl ?_
  obtain ⟨other, hother, htype⟩ := hkeeps id op' hop'
  cases hop.symm.trans hother
  exact htype

/-- A session at rest stays at rest, and keeps to what it has learned. -/
def StaysLearned (catalogue : Catalogue) (id : OperatorId) (excused : Prop)
    (s s' : Session σ) : Prop :=
  s.AtRest catalogue ∧ s.Learned id excused → s'.AtRest catalogue ∧ s'.Learned id excused

omit [Surface σ] in
instance : Std.Refl (StaysLearned catalogue id excused : Session σ → Session σ → Prop) :=
  ⟨fun _ h => h⟩

omit [Surface σ] in
instance : IsTrans (Session σ) (StaysLearned catalogue id excused) :=
  ⟨fun _ _ _ h h' hs => h' (h hs)⟩

omit [Surface σ] in
/-- What is learned is learned of the pipeline, whatever else becomes of the session. -/
theorem staysLearned_of_eq (heditor : s'.editor = s.editor)
    (hoverlay : s'.propagation.overlay = s.propagation.overlay) :
    StaysLearned catalogue id excused s s' := by
  rintro ⟨hrest, h⟩
  have hsound := hrest.sound
  have hidle := hrest.idle
  have hsettled : s.editor.draft.announced = [] := hrest.settled
  have hcatalogue : s.editor.catalogue = catalogue := hrest.catalogue
  have hlearned : s.propagation.overlay.Learned s.editor.graph s.editor.catalogue id excused := h
  rw [← heditor] at hsound hidle hsettled hcatalogue hlearned
  rw [← hoverlay] at hlearned
  exact ⟨⟨hsound, hidle, hsettled, hcatalogue⟩, hlearned⟩

theorem handleGesture_staysLearned (gesture : Gesture) :
    Keeps (StaysLearned catalogue id excused)
      (handleGesture gesture : Attempt (Session σ) Nat) := by
  rintro s ⟨hrest, h⟩
  have hstage : Stage (fun _ => True) (fun _ => True) s ((handleGesture gesture).exec s).2 :=
    .gesture trivial
  refine ⟨hstage.atRest hrest, ?_⟩
  have hkeeps := s.view.bridge.forward_keepsTypes hrest.idle hrest.sound.graph gesture
  have hworked : s.editor.Worked (s.forward gesture).2.editor := Bridge.forward_worked ..
  exact h.settle_of_keepsTypes hrest hworked rfl hkeeps

/-- **An outcome that counts is learned from**, and then properties are corrected, which keeps the
types. -/
theorem exec_applyOutcome_learns (hidle : s.editor.bundled = none) {outcome : Outcome}
    (hcounts : s.counts outcome = true) : ∃ (result : InputSchemas) (s' : Session σ),
      outcome.inferred = .ok result ∧ ((applyOutcome outcome).exec s).2 = s'.settle ∧
      s'.propagation.overlay = (s.propagation.overlay.apply s.graph s.catalogue result).1 ∧
      s.editor.Worked s'.editor ∧ s.graph.KeepsTypes s'.graph := by
  obtain ⟨hcurrent, result, hinferred⟩ := counts_iff.mp hcounts
  have happly := Propagation.apply_inferred hcurrent hinferred s.editor
  dsimp only at happly
  let p : Propagation := { s.propagation with
    overlay := (s.propagation.overlay.apply s.editor.graph s.editor.catalogue result).1 }
  obtain ⟨corrected, hcorrected⟩ := Propagation.correct_ok hidle p result
  obtain ⟨deferred, hlearned⟩ := p.correct_propagation s.editor result
  rw [hcorrected] at happly
  refine ⟨result, _, hinferred, congrArg Prod.snd (exec_applyOutcome happly), ?_,
    p.correct_worked s.editor result, p.correct_keepsTypes hidle result⟩
  exact congrArg Propagation.overlay hlearned

theorem applyOutcome_staysLearned (outcome : Outcome) :
    Keeps (StaysLearned catalogue id excused)
      (applyOutcome outcome : Attempt (Session σ) Applied) := by
  rintro s ⟨hrest, h⟩
  have hstages : Stages (fun _ => True) (fun _ => True) s ((applyOutcome outcome).exec s).2 :=
    applyOutcome_stages outcome s
  refine ⟨hstages.atRest hrest, ?_⟩
  cases hcounts : s.counts outcome with
  | false =>
    obtain ⟨applied, hexec, -⟩ := exec_applyOutcome_of_not_counts hrest.settled hcounts
    rw [hexec]
    exact h
  | true =>
    obtain ⟨result, s', -, hexec, hoverlay, hworked, hkeeps⟩ :=
      exec_applyOutcome_learns hrest.idle hcounts
    -- What is learned is learned of the operators as they were before the corrections.
    let told : Session σ := { s with propagation := { s.propagation with
      overlay := (s.propagation.overlay.apply s.graph s.catalogue result).1 } }
    have htold : told.Learned id excused := Overlay.Learned.apply h hrest.sound.graph result
    have hresttold : told.AtRest catalogue :=
      ⟨hrest.sound, hrest.idle, hrest.settled, hrest.catalogue⟩
    rw [hexec]
    exact htold.settle_of_keepsTypes hresttold hworked hoverlay hkeeps

theorem setEnabled_staysLearned (enabled : Bool) (s : Session σ) :
    StaysLearned catalogue id excused s (s.setEnabled enabled) := by
  rintro ⟨hrest, h⟩
  have hstages : Stages (fun _ => True) (fun _ => True) s (s.setEnabled enabled) :=
    setEnabled_stages enabled s
  refine ⟨hstages.atRest hrest, ?_⟩
  have hlock : s.editor.Worked (s.editor.setEnabled enabled) :=
    .of_program (.setEnabled trivial enabled) s.editor
  have hgraph : (s.editor.setEnabled enabled).graph = s.graph := by
    unfold Editor.setEnabled
    split <;> rfl
  unfold setEnabled
  -- Locking only sets the flag; unlocking may make corrections, which keep types.
  cases enabled with
  | false =>
    rw [if_neg Bool.false_ne_true]
    exact h.settle_of_keepsTypes hrest hlock rfl (.of_operators (congrArg _ hgraph))
  | true =>
    rw [if_pos rfl]
    have hidle : (s.editor.setEnabled true).bundled = none := by
      unfold Editor.setEnabled
      split
      · exact hrest.idle
      · exact hrest.idle
    obtain ⟨hoverlay, hkeeps⟩ := s.propagation.applyDeferred_keepsTypes hidle
    rw [hgraph] at hkeeps
    exact h.settle_of_keepsTypes hrest (hlock.trans (s.propagation.applyDeferred_worked _)) hoverlay
      hkeeps

/-! ## Calls that retype an operator -/

omit [Surface σ] in
/-- **Another operator has come under the name**, and it is of another type. -/
def RetypedTo (s : Session σ) (id : OperatorId) (s' : Session σ) : Prop :=
  ∃ op op', s.graph.operators.get? id = some op ∧ s'.graph.operators.get? id = some op' ∧
    op.type ≠ op'.type

/-- **The call leaves an operator of another type under the name.** -/
def Call.Retypes (id : OperatorId) (s : Session σ) (call : Call σ) : Prop :=
  s.RetypedTo id (call.exec s)

/-- Work on the editor keeps to what was learned of an operator, unless it retypes the operator. -/
theorem Learned.run (hrest : s.AtRest catalogue) (h : s.Learned id excused)
    {call : Attempt Editor α} (hcall : Program (fun _ => True) call) :
    ((Session.run call).exec s).2.Learned id
      (excused ∨ s.RetypedTo id ((Session.run call).exec s).2) := by
  have hgraph : ((Session.run call).exec s).2.graph = (call.exec s.editor).2.graph :=
    settle_graph _
  have hmore : s.Learned id (excused ∨ s.RetypedTo id ((Session.run call).exec s).2) :=
    Overlay.Learned.mono h .inl
  let worked : Session σ := { s with editor := (call.exec s.editor).2 }
  have hworked : s.editor.Worked worked.editor := .of_program hcall s.editor
  refine hmore.settle hrest hworked rfl fun op op' hop hop' => ?_
  by_cases hsame : op.type = op'.type
  · exact .inl hsame
  · exact .inr (.inr ⟨op, op', hop, hgraph ▸ hop', hsame⟩)

theorem Learned.replay (hrest : s.AtRest catalogue) (h : s.Learned id excused)
    {call : Attempt Editor Bool} (hcall : Program (fun _ => True) call) :
    ((Session.replay call).exec s).2.Learned id
      (excused ∨ s.RetypedTo id ((Session.replay call).exec s).2) := by
  have hreplaying : (s.setReplaying true).AtRest catalogue :=
    ⟨hrest.sound, hrest.idle, hrest.settled, hrest.catalogue⟩
  rw [exec_replay]
  exact Learned.run (s := s.setReplaying true) hreplaying h hcall

/-- **What a call leaves of what was learned of an operator**: it was learned by the type that the
operator has, unless there is an excuse, or the call has retyped the operator. -/
theorem Call.learned (call : Call σ) (hrest : s.AtRest catalogue) (h : s.Learned id excused) :
    (call.exec s).Learned id (excused ∨ call.Retypes id s) := by
  have hkept (s' : Session σ) (hstays : StaysLearned catalogue id excused s s') :
      s'.Learned id (excused ∨ s.RetypedTo id s') :=
    Overlay.Learned.mono (hstays ⟨hrest, h⟩).2 .inl
  -- Calls that may change the graph may retype the operator; all others leave what was learned.
  cases call with
  | act action => exact h.run hrest (.act action)
  | bundle calls hcalls => exact h.run hrest (.bundle hcalls)
  | undo => exact h.replay hrest (.undo trivial)
  | redo => exact h.replay hrest (.redo trivial)
  | load content =>
    exact h.run hrest (.bind (program_replaceBy content _) fun _ => .clearHistory trivial)
  | setEnabled enabled => exact hkept _ (setEnabled_staysLearned enabled s)
  | handleGesture gesture => exact hkept _ (handleGesture_staysLearned gesture s)
  | processGestures =>
    have htaken : StaysLearned catalogue id excused s s.takeGestures.2 := staysLearned_of_eq rfl rfl
    exact hkept _ (trans_of _ htaken
      (handleAll_keeps (fun gesture _ => handleGesture_staysLearned gesture) _))
  | useSurface | redraw | buildRequest | attach => exact hkept _ (staysLearned_of_eq rfl rfl)
  | highlight ids =>
    refine hkept (s.highlight ids) ?_
    rcases highlight_cases ids s with heq | heq <;> rw [heq] <;> exact staysLearned_of_eq rfl rfl
  | unhighlight ids =>
    refine hkept (s.unhighlight ids) ?_
    rcases unhighlight_cases ids s with heq | heq <;> rw [heq] <;> exact staysLearned_of_eq rfl rfl
  | connect =>
    refine hkept s.connect.2 ?_
    rcases connect_cases s with heq | heq <;> rw [heq] <;> exact staysLearned_of_eq rfl rfl
  | advance service duration =>
    refine hkept (s.advance service duration).1 ?_
    rcases advance_cases service duration s with heq | ⟨d, -, heq⟩ <;> rw [heq] <;>
      exact staysLearned_of_eq rfl rfl
  | next service patience =>
    refine hkept (s.next service patience).2.1 ?_
    rcases next_cases service patience s with
      heq | ⟨d, _ | outcome, left, -, -, -, heq⟩ <;> rw [heq]
    · exact staysLearned_of_eq rfl rfl
    · exact staysLearned_of_eq rfl rfl
    · have htaken : StaysLearned catalogue id excused s { s with dispatcher := some left } :=
        staysLearned_of_eq rfl rfl
      exact trans_of _ htaken (applyOutcome_staysLearned outcome _)
  | pump =>
    refine hkept _ (pumpUpTo_keeps (fun htaken => ?_) applyOutcome_staysLearned _ s)
    obtain ⟨d, left, -, -, rfl⟩ := takeOutcome?_eq_some htaken
    exact staysLearned_of_eq rfl rfl
  | applyOutcome outcome => exact hkept _ (applyOutcome_staysLearned outcome s)

/-- What a run leaves of what was learned of an operator. -/
theorem learned_after {calls : List (Call σ)} (hrest : s.AtRest catalogue)
    (h : s.Learned id excused) :
    (s.after calls).Learned id (excused ∨ s.Ever (Call.Retypes id) calls) := by
  induction calls generalizing s excused with
  | nil => exact Overlay.Learned.mono h .inl
  | cons call rest ih =>
    have hstages : Stages (fun _ => True) (fun _ => True) s (call.exec s) :=
      call.stages s (fun _ _ => trivial) fun _ _ => trivial
    exact Overlay.Learned.mono (ih (hstages.atRest hrest) (call.learned hrest h)) or_assoc.mp

/-! ## The forms of operators -/

omit [Surface σ] in
/-- **The form of the operator is one of the type**: it follows the type's schema but for the
choices it offers. -/
def FormOf (s : Session σ) (id : OperatorId) (type : String) : Prop :=
  ∃ schema t, s.operatorSchema? id = some schema ∧ s.catalogue.type? type = some t ∧
    t.Underlies schema

omit [Surface σ] in
/-- What an operator's form follows is what was learned of the operator, or the schema of its
type. -/
theorem Learned.formOf (hrest : s.AtRest catalogue) (h : s.Learned id excused) {op : Operator}
    (hop : s.graph.operators.get? id = some op) :
    ∃ type, s.FormOf id type ∧ (type = op.type ∨ excused) := by
  have hform : s.operatorSchema? id = s.propagation.overlay.schemaOf? s.catalogue id op.type := by
    unfold operatorSchema?
    rw [hop]
    rfl
  unfold Overlay.schemaOf? at hform
  cases hknown : s.propagation.overlay.schemas.get? id with
  | some schema =>
    rw [hknown] at hform
    obtain ⟨other, type, t, ports, hother, htype, hports, hown⟩ := h schema hknown
    cases hop.symm.trans hother
    exact ⟨type, ⟨schema, t, hform, htype, OperatorType.underlies_overlay hports⟩, hown⟩
  | none =>
    rw [hknown] at hform
    obtain ⟨t, htype, -⟩ := hrest.wellFormed.fits hop
    rw [← hrest.catalogue] at htype
    rw [htype] at hform
    exact ⟨op.type, ⟨t.jsonSchema, t, hform, htype, t.underlies_jsonSchema⟩, .inl rfl⟩

/-- What is known of an operator that is there is not forgotten as events are handed on. -/
theorem get?_schemas_settle (hop : (s.graph.operators.get? id).isSome) :
    s.settle.propagation.overlay.schemas.get? id = s.propagation.overlay.schemas.get? id := by
  rw [settle_propagation]
  split
  · rw [s.revise_propagation.1]
    refine (Overlay.get?_filterKeys s.propagation.overlay.schemas s.graph.hasOperator id).trans ?_
    rw [if_pos]
    exact hop
  · rfl

/-- **An answer that counts gives each operator a form of its own type**, whatever form it had; a
schema that was kept may differ from the new one in the signs of zeros. -/
theorem form_of_counted (hrest : s.AtRest catalogue) {outcome : Outcome}
    (hcounts : s.counts outcome = true) {op : Operator}
    (hop : ((applyOutcome outcome).exec s).2.graph.operators.get? id = some op) :
    ∃ schema t, (((applyOutcome outcome).exec s).2.operatorSchema? id).map Json.unsigned =
      some schema.unsigned ∧ catalogue.type? op.type = some t ∧ t.Underlies schema := by
  obtain ⟨result, s', -, hexec, hoverlay, hworked, hkeeps⟩ :=
    exec_applyOutcome_learns hrest.idle hcounts
  rw [hexec] at hop ⊢
  rw [settle_graph] at hop
  obtain ⟨before, hbefore, htype⟩ := hkeeps id op hop
  have hcatalogue : s'.settle.catalogue = catalogue :=
    (settle_catalogue s').trans (hworked.evolves.1.trans hrest.catalogue)
  -- The form is looked up by the ID and the type that the operator has after the answer, which is
  -- the one before it.
  have hform : s'.settle.operatorSchema? id =
      s'.settle.propagation.overlay.schemaOf? catalogue id op.type := by
    unfold operatorSchema?
    rw [settle_graph, hop, hcatalogue]
    rfl
  have hknown := (s.propagation.overlay.get?_apply hrest.wellFormed result id).2
  rw [hrest.catalogue] at hoverlay
  rw [← hoverlay, ← get?_schemas_settle (Option.isSome_iff_exists.mpr ⟨op, hop⟩), hbefore,
    Option.bind_some] at hknown
  obtain ⟨t, ht, -⟩ := hrest.wellFormed.fits hbefore
  have hschema : catalogue.schemaFor? result before =
      (before.reported? result).bind t.overlay? := by
    unfold Catalogue.schemaFor?
    rw [ht]
    rfl
  rw [htype] at ht
  unfold Overlay.schemaOf? at hform
  -- Either the answer leaves a schema, which lies over that of the type, or the type is all there
  -- is.
  cases hlearned : s'.settle.propagation.overlay.schemas.get? id with
  | some schema =>
    rw [hlearned] at hknown hform
    obtain ⟨new, hnew, hsame⟩ := Option.map_eq_some_iff.mp hknown.symm
    rw [hschema] at hnew
    obtain ⟨ports, -, hports⟩ := Option.bind_eq_some_iff.mp hnew
    exact ⟨new, t, by rw [hform, Option.map_some, hsame], ht,
      OperatorType.underlies_overlay hports⟩
  | none =>
    rw [hlearned, ht] at hform
    exact ⟨t.jsonSchema, t, by rw [hform]; rfl, ht, t.underlies_jsonSchema⟩

/-- **After every run the form of each operator is one of a type**: the schema of that type, but for
the choices that the last answer offers.  It is the operator's own type, unless some call of the
run has left an operator of another type under the name. -/
theorem forms_after (catalogue : Catalogue) (settings : Settings) (clock : Nat → Nat) (surface : σ)
    (calls : List (Call σ)) :
    let start := start catalogue settings clock surface
    let s := start.after calls
    ∀ id op, s.graph.operators.get? id = some op →
      ∃ type, s.FormOf id type ∧ (type = op.type ∨ start.Ever (Call.Retypes id) calls) := by
  intro start s id op hop
  have hstart : start.Learned id False := fun schema hschema => nomatch hschema
  have hlearned : s.Learned id (False ∨ start.Ever (Call.Retypes id) calls) :=
    learned_after (atRest_start ..) hstart
  obtain ⟨type, hform, hown⟩ := hlearned.formOf (atRest_after ..) hop
  exact ⟨type, hform, hown.imp_right fun h => h.resolve_left fun hfalse => hfalse⟩

/-- A filter has a form of its own type, with what the last answer says filled in. -/
theorem forms_after_filled :
    let schema : Json := .object [("properties", .object [("attribute",
      .object [("autofill", .string "attributeName")])]), ("title", .string "Filter")]
    let filter : Operator := ⟨"f", "Filter", "1", .object [], [⟨"input-0", ""⟩], [], false⟩
    let start := start (.ofMetadata ⟨[⟨"Filter", schema, ⟨"Filter", none, "Search", 1, 0⟩, "1"⟩],
      []⟩) .initial (fun n => n) Blank.mk
    let calls : List (Call Blank) := [.act (.addOperator filter .origin), .buildRequest,
      .applyOutcome ⟨1, 1, .ok ⟨0, .ofList [("f", [some [⟨"name", "string"⟩]])], none⟩⟩]
    let s := start.after calls
    s.graph.operators.get? "f" = some filter ∧
      s.operatorSchema? "f" = some (.object [("properties", .object [("attribute",
        .object [("autofill", .string "attributeName"), ("enum", .array [.string "name"])])]),
        ("title", .string "Filter")]) ∧
      ¬ start.Ever (Call.Retypes "f") calls ∧ s.FormOf "f" "Filter" := by
  intro schema filter start calls s
  have hfilter : s.graph.operators.get? "f" = some filter := by decide +kernel
  have hkept {t t' : Session Blank} (h : t.graph.operators.get? "f" = some filter)
      (h' : t'.graph.operators.get? "f" = some filter) : ¬ t.RetypedTo "f" t' := by
    rintro ⟨op, op', hop, hop', hne⟩
    cases h.symm.trans hop
    cases h'.symm.trans hop'
    exact hne rfl
  have hnever : ¬ start.Ever (Call.Retypes "f") calls := by
    rintro (⟨op, op', hop, -⟩ | hretyped | hretyped | hrest)
    · cases hop
    · exact hkept (by decide +kernel) (by decide +kernel) hretyped
    · exact hkept (by decide +kernel) (by decide +kernel) hretyped
    · exact hrest
  obtain ⟨type, hform, hown⟩ := forms_after _ _ _ _ calls "f" filter hfilter
  obtain rfl := hown.resolve_right hnever
  exact ⟨hfilter, by decide +kernel, hnever, hform⟩

/-- **An operator under the name of another has the form of the other**: a filter's form is filled
in, and then a pipeline is loaded in which the name is a sink's. -/
theorem not_own_form_reused :
    let schema : Json := .object [("properties", .object [("attribute",
      .object [("autofill", .string "attributeName")])]), ("title", .string "Filter")]
    let filter : Operator := ⟨"f", "Filter", "1", .object [], [⟨"input-0", ""⟩], [], false⟩
    let sink : Operator := ⟨"f", "Sink", "1", .object [], [], [], false⟩
    let catalogue : Catalogue := .ofMetadata ⟨[
      ⟨"Filter", schema, ⟨"Filter", none, "Search", 1, 0⟩, "1"⟩,
      ⟨"Sink", .object [("title", .string "Sink")], ⟨"Sink", none, "Output", 0, 0⟩, "1"⟩], []⟩
    let s := (start catalogue .initial (fun n => n) Blank.mk).after [
      .act (.addOperator filter .origin), .buildRequest,
      .applyOutcome ⟨1, 1, .ok ⟨0, .ofList [("f", [some [⟨"name", "string"⟩]])], none⟩⟩,
      .load ⟨[sink], .ofList [("f", .origin)], [], ∅⟩]
    s.graph.operators.get? "f" = some sink ∧ ¬ s.FormOf "f" "Sink" ∧ s.FormOf "f" "Filter" := by
  intro schema filter sink catalogue s
  refine ⟨by decide +kernel, ?_, ?_⟩
  · rintro ⟨found, t, hfound, htype, hunderlies⟩
    -- All but the choices is to be as the type has it, and the title is not.
    have htitle : (s.operatorSchema? "f").map (·.without ["properties"]) =
        some (.object [("title", .string "Filter")]) := by decide +kernel
    have hsink : (s.catalogue.type? "Sink").map (·.jsonSchema.without ["properties"]) =
        some (.object [("title", .string "Sink")]) := by decide +kernel
    rw [hfound, Option.map_some, hunderlies.rest] at htitle
    rw [htype, Option.map_some, htitle] at hsink
    exact absurd hsink (by decide)
  · have hform : s.operatorSchema? "f" = (OperatorType.ofSchema ⟨"Filter", schema,
        ⟨"Filter", none, "Search", 1, 0⟩, "1"⟩).overlay? [some [⟨"name", "string"⟩]] := by
      decide +kernel
    obtain ⟨filled, hfilled⟩ : ∃ filled, s.operatorSchema? "f" = some filled :=
      Option.isSome_iff_exists.mp (by decide +kernel)
    exact ⟨filled, _, hfilled, by decide +kernel,
      OperatorType.underlies_overlay (hform.symm.trans hfilled)⟩

end Session

end PipelineEditor
