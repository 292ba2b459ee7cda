import Mathlib.Data.List.DropRight
import Mathlib.Data.List.TakeWhile
import PipelineEditor.Proofs.Peeling
import PipelineEditor.Validation.Check

/-!
# The verdict on a pipeline

A pipeline may be run when nothing is found wrong with it.  This is the case if and only if each
enabled operator is ready, which its type and the operators next to it decide, and no links form a
cycle, which is a property of the pipeline as a whole.

## Main definitions

* `Text.trim`, `Unset`: texts without the white space around them; what counts as not set
* `Graph.Ready catalogue op`: the operator has what it needs

## Main results

* `Graph.check_isValid_iff`: what a check of one operator finds
* `Graph.Coherent.checkAll_eq_empty_iff`: nothing is wrong with a pipeline if and only if its
  enabled operators are ready and there is no cycle
-/

namespace PipelineEditor

/-! ## Properties that are not set -/

namespace Text

/-- A text without the white space at its two ends. -/
def trim (text : List Char) : List Char := (text.dropWhile isSpace).rdropWhile isSpace

theorem trim_eq_nil_iff {text : List Char} : trim text = [] ↔ ∀ c ∈ text, isSpace c = true := by
  rw [trim, List.rdropWhile_eq_nil_iff]
  constructor
  · intro h
    refine List.dropWhile_eq_nil_iff.mp (by_contra fun hne => ?_)
    -- What the leading white space leaves starts with another character.
    have hhead := List.head_dropWhile_not isSpace hne
    rw [h _ (List.head_mem hne)] at hhead
    cases hhead
  · exact fun h c hc => h c ((List.dropWhile_sublist _).subset hc)

theorem isBlank_iff {s : String} : isBlank s = true ↔ trim s.toList = [] := by
  rw [isBlank, List.all_eq_true, trim_eq_nil_iff]

end Text

/-- **A property is not set** if it is missing or null, a text of white space only, or an empty
list. -/
inductive Unset : Option Json → Prop
  | missing : Unset none
  | null : Unset (some .null)
  | text {s : String} (h : Text.trim s.toList = []) : Unset (some (.string s))
  | list : Unset (some (.array []))

theorem isUnset_iff {value : Option Json} : isUnset value = true ↔ Unset value := by
  constructor
  · intro h
    unfold isUnset at h
    split at h
    · exact .missing
    · exact .null
    · exact .list
    · exact .text (Text.isBlank_iff.mp h)
    · cases h
  · rintro (_ | _ | htext | _)
    · rfl
    · rfl
    · exact Text.isBlank_iff.mpr htext
    · rfl

/-! ## One operator -/

namespace Graph

variable {g : Graph} {catalogue : Catalogue} {op : Operator}

/-- **An operator has what it needs**: a type that is known and has not changed since, all required
properties, and an enabled operator before each of its input ports. -/
structure Ready (g : Graph) (catalogue : Catalogue) (op : Operator) : Prop where
  type : ∃ t, catalogue.type? op.type = some t ∧ op.version = t.version ∧
    ∀ property ∈ t.required, ¬ Unset (op.property? property)
  fed : ∀ port ∈ op.inputs, ∃ id link source, g.links.get? id = some link ∧
    link.target = ⟨op.id, port.id⟩ ∧ g.operators.get? link.source.operator = some source ∧
    source.disabled = false

theorem isFed_iff {id : OperatorId} {port : PortId} :
    g.isFed id port = true ↔ ∃ key link source, g.links.get? key = some link ∧
      link.target = ⟨id, port⟩ ∧ g.operators.get? link.source.operator = some source ∧
      source.disabled = false := by
  simp only [isFed, linksInto, List.any_eq_true, List.mem_filter, Dict.mem_values,
    Bool.and_eq_true, decide_eq_true_eq, isEnabled_iff]
  constructor
  · rintro ⟨link, ⟨⟨key, hget⟩, rfl⟩, rfl, source, hsource, henabled⟩
    exact ⟨key, link, source, hget, rfl, hsource, henabled⟩
  · rintro ⟨key, link, source, hget, htarget, hsource, henabled⟩
    exact ⟨link, ⟨⟨key, hget⟩, by rw [htarget]⟩, by rw [htarget], source, hsource, henabled⟩

theorem versionErrors_eq_nil_iff {t : OperatorType} :
    versionErrors op t = [] ↔ op.version = t.version := by
  unfold versionErrors
  split <;> simp [*]

theorem propertyErrors_eq_nil_iff {t : OperatorType} :
    propertyErrors op t = [] ↔ ∀ property ∈ t.required, ¬ Unset (op.property? property) := by
  simp [propertyErrors, List.filter_eq_nil_iff, ← isUnset_iff]

theorem portErrors_eq_nil_iff :
    g.portErrors op = [] ↔ ∀ port ∈ op.inputs, g.isFed op.id port.id = true := by
  simp [portErrors, List.filter_eq_nil_iff]

/-- **Nothing is found wrong with an operator** that is disabled or has what it needs. -/
theorem check_isValid_iff :
    (g.check catalogue op).isValid = true ↔ (op.disabled = false → g.Ready catalogue op) := by
  rw [Findings.isValid, check]
  cases hdisabled : op.disabled with
  | true => exact iff_of_true rfl nofun
  | false =>
    rw [if_neg Bool.false_ne_true, imp_iff_right rfl]
    cases htype : catalogue.type? op.type with
    | none =>
      refine iff_of_false (by simp [Dict.isEmpty_iff, Dict.ofList_eq_empty_iff]) fun hready => ?_
      obtain ⟨t, ht, -⟩ := hready.type
      cases htype.symm.trans ht
    | some t =>
      rw [Dict.isEmpty_iff, Dict.ofList_eq_empty_iff, List.append_eq_nil_iff, List.append_eq_nil_iff,
        versionErrors_eq_nil_iff, propertyErrors_eq_nil_iff, portErrors_eq_nil_iff]
      simp only [isFed_iff]
      constructor
      · rintro ⟨⟨hversion, hproperties⟩, hports⟩
        exact ⟨⟨t, htype, hversion, hproperties⟩, hports⟩
      · rintro ⟨⟨t', htype', hversion, hproperties⟩, hports⟩
        cases htype.symm.trans htype'
        exact ⟨⟨hversion, hproperties⟩, hports⟩

/-! ## The whole pipeline -/

/-- The findings are kept under the names of the operators. -/
theorem Coherent.checkAll_fst (h : g.Coherent) (catalogue : Catalogue) :
    (g.checkAll catalogue).1 = g.operators.map (g.check catalogue) := by
  have hlisted : (g.operators.values.map fun op => (op.id, op)) = g.operators.toList :=
    Dict.map_values_toList h.operator_id
  have hentries : (g.operators.values.map fun op => (op.id, g.check catalogue op)) =
      (g.operators.map (g.check catalogue)).toList := by
    calc (g.operators.values.map fun op => (op.id, g.check catalogue op))
        = (g.operators.values.map fun op => (op.id, op)).map fun entry =>
            (entry.1, g.check catalogue entry.2) := by rw [List.map_map]; rfl
      _ = g.operators.toList.map fun entry => (entry.1, g.check catalogue entry.2) := by
          rw [hlisted]
  calc (g.checkAll catalogue).1
      = .ofList (g.operators.values.map fun op => (op.id, g.check catalogue op)) := rfl
    _ = g.operators.map (g.check catalogue) := by rw [hentries]; exact Dict.insertAll_toList _

/-- Nothing is wrong with a pipeline if nothing is wrong with any operator and no link is
reported. -/
theorem pipelineErrors_eq_empty_iff {results : Dict Findings} :
    g.pipelineErrors results = ∅ ↔
      (∀ id findings, results.get? id = some findings → findings.isValid = true) ∧
        g.cycleLink? = none := by
  unfold pipelineErrors
  cases g.cycleLink? with
  | none =>
    rw [Dict.ofList_eq_empty_iff, List.map_eq_nil_iff, List.filter_eq_nil_iff]
    simp [← Dict.mem_toList]
  | some link =>
    refine iff_of_false (fun hempty => ?_) (by simp)
    have hnone := Dict.eq_empty_iff.mp hempty link
    rw [Dict.get?_insert_self] at hnone
    cases hnone

/-- **Nothing is wrong with a pipeline if and only if its enabled operators have what they need and
its links form no cycle.**  In which order the search for cycles starts plays no part. -/
theorem Coherent.checkAll_eq_empty_iff (h : g.Coherent) (catalogue : Catalogue) :
    ((g.checkAll catalogue).2 = ∅ ↔
      (∀ id op, g.operators.get? id = some op → op.disabled = false → g.Ready catalogue op) ∧
        ¬ ∃ id, Relation.TransGen g.Leads id id) ∧
    ∀ roots, roots.Perm g.roots → g.cycleLinkFrom? roots = g.cycleLink? := by
  refine ⟨?_, fun roots hroots => h.cycleLinkFrom?_eq hroots⟩
  have hcycle : g.cycleLink? = none ↔ ¬ ∃ id, Relation.TransGen g.Leads id id := by
    rw [cycleLink?, h.cycleLinkFrom?_eq_none_iff (.refl _), h.forall_acc_iff, not_exists]
  have hvalid : (∀ id findings, (g.checkAll catalogue).1.get? id = some findings →
      findings.isValid = true) ↔
      ∀ id op, g.operators.get? id = some op → op.disabled = false → g.Ready catalogue op := by
    refine forall_congr' fun id => ?_
    rw [h.checkAll_fst, Dict.get?_map]
    cases g.operators.get? id <;> simp [check_isValid_iff]
  calc (g.checkAll catalogue).2 = ∅ ↔
        g.pipelineErrors (g.checkAll catalogue).1 = ∅ := Iff.rfl
    _ ↔ _ := by rw [pipelineErrors_eq_empty_iff, hvalid, hcycle]

/-- An operator that feeds itself: it has what it needs, and still the pipeline is refused. -/
theorem Coherent.checkAll_eq_empty_iff_loop :
    let op : Operator := ⟨"loop", "Loop", "1", .object [("name", .string " x ")],
      [⟨"input-0", ""⟩], [⟨"output-0", ""⟩], false⟩
    let link : Link := ⟨"l", ⟨"loop", "output-0"⟩, ⟨"loop", "input-0"⟩⟩
    let catalogue : Catalogue := .ofMetadata ⟨[⟨"Loop",
      .object [("required", .array [.string "name"])], ⟨"Loop", none, "Control", 1, 1⟩, "1"⟩], []⟩
    let g : Graph := ⟨.ofList [("loop", op)], .ofList [("loop", .origin)], .ofList [("l", link)], ∅⟩
    g.Coherent ∧ g.Ready catalogue op ∧ (g.checkAll catalogue).2 ≠ ∅ := by
  intro op link catalogue g
  have hfree : empty.operators.get? op.id = none := rfl
  have hok : Graph.checkLink ⟨.ofList [("loop", op)], .ofList [("loop", .origin)], ∅, ∅⟩ link =
      .ok () := by decide +kernel
  have hcoherent : g.Coherent :=
    ((wellFormed_empty catalogue).toCoherent.addOperator .origin hfree).addLink hok
  have hvalid : (g.check catalogue op).isValid = true := by decide +kernel
  refine ⟨hcoherent, check_isValid_iff.mp hvalid rfl, fun hempty => ?_⟩
  refine ((hcoherent.checkAll_eq_empty_iff catalogue).1.mp hempty).2 ⟨"loop", .single ?_⟩
  exact ⟨"l", link, by decide +kernel, rfl, rfl⟩

end Graph

end PipelineEditor
