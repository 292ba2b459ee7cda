import PipelineEditor.Proofs.Refusal

/-!
# Refusals inside a bundle

A call that comes to several changes is refused as a whole outside a bundle.  Inside a bundle it is
part of that bundle: what it had changed when it was refused stays, noted among the changes of the
bundle in progress, and goes when the bundle as a whole is refused or undone.  Only flags are set all
or none even there, since what could be refused is refused before the first of them is set.

## Main definitions

* `Editor.Unreplayed calls e`: in the run of the calls from an editor nothing is replayed
* `Editor.Reached e₀ e`: the editor is reached from another, outside a bundle or in the midst of one
* `Editor.NotesMore changes e e'`: changes are noted after the given ones, and have taken place

## Main results

* `Editor.exec_setDisabled_error`: a refusal to set flags leaves the editor as it was
* `Editor.Unreplayed.notesOrForgets`: calls note what they do unless they replay something
* `Editor.bundle_refused_of_unreplayed`: a bundle of its own that is refused leaves the graph
* `Editor.compound_refused`: what calls that come to several changes leave when they are refused,
  outside a bundle and inside
-/

namespace PipelineEditor

open Attempt (Keeps)
open Draft (Takes)

namespace Editor

variable {e e' : Editor}

/-! ## Flags -/

/-- **A flag can be set on an operator that is there**, and no operator goes by it. -/
theorem exec_setFlag {id : OperatorId} (disabled : Bool)
    (hid : (e.graph.operators.get? id).isSome = true) :
    ∃ e', (do
        let op ← lookUp (·.findOperator id)
        unless op.disabled = disabled do
          commit (.setDisabled id op.disabled disabled) : Attempt Editor Unit).exec e =
        (.ok (), e') ∧
      ∀ other, (e.graph.operators.get? other).isSome = true →
        (e'.graph.operators.get? other).isSome = true := by
  obtain ⟨op, hop⟩ := Option.isSome_iff_exists.mp hid
  rw [exec_lookUp_bind, Graph.findOperator_eq_ok_iff.mpr hop]
  dsimp only
  by_cases hflag : op.disabled = disabled
  · rw [if_pos hflag]
    exact ⟨e, rfl, fun _ hother => hother⟩
  · rw [if_neg hflag, exec_commit]
    have htakes : Takes (Change.setDisabled id op.disabled disabled).apply e.graph _ :=
      Draft.takes_setDisabled_iff.mpr ⟨op, hop, rfl⟩
    obtain ⟨d', happly, hd'⟩ := htakes.exec (d := e.draft) rfl
    rw [happly]
    refine ⟨_, rfl, fun other hother => ?_⟩
    have hgraph : (note (.setDisabled id op.disabled disabled) { e with draft := d' }).graph =
        d'.graph := congrArg Draft.graph (note_draft ..)
    rw [hgraph, hd', Dict.get?_insert]
    split
    · rfl
    · exact hother

/-- So flags can be set on several. -/
theorem exec_setFlags {ids : List OperatorId} (disabled : Bool)
    (hids : ∀ id ∈ ids, (e.graph.operators.get? id).isSome = true) :
    ((ids.forM fun id => do
      let op ← lookUp (·.findOperator id)
      unless op.disabled = disabled do
        commit (.setDisabled id op.disabled disabled) : Attempt Editor Unit).exec e).1 = .ok () := by
  induction ids generalizing e with
  | nil => rfl
  | cons id rest ih =>
    obtain ⟨e', hexec, hkept⟩ := exec_setFlag disabled (hids id List.mem_cons_self)
    refine (congrArg Prod.fst (Attempt.exec_bind_ok hexec)).trans ?_
    exact ih fun other hmem => hkept other (hids other (List.mem_cons_of_mem _ hmem))

/-- Looking for several operators finds all of them, or does nothing. -/
theorem exec_findAll (ids : List OperatorId) (e : Editor) :
    (∀ id ∈ ids, (e.graph.operators.get? id).isSome = true) ∧
      (ids.forM fun id => do
        let _ ← lookUp (·.findOperator id) : Attempt Editor Unit).exec e = (.ok (), e) ∨
    ∃ cause, (ids.forM fun id => do
      let _ ← lookUp (·.findOperator id) : Attempt Editor Unit).exec e = (.error cause, e) := by
  induction ids with
  | nil => exact .inl ⟨nofun, rfl⟩
  | cons id rest ih =>
    rcases hfind : e.graph.findOperator id with cause | op
    · have hfirst : (do let _ ← lookUp (·.findOperator id) : Attempt Editor Unit).exec e =
          (.error cause, e) := by
        rw [exec_lookUp_bind, hfind]
      exact .inr ⟨cause, Attempt.exec_bind_error hfirst⟩
    · have hfirst : (do let _ ← lookUp (·.findOperator id) : Attempt Editor Unit).exec e =
          (.ok (), e) := by
        rw [exec_lookUp_bind, hfind]
        rfl
      have hid : (e.graph.operators.get? id).isSome = true := by
        rw [Graph.findOperator_eq_ok_iff.mp hfind]
        rfl
      rcases ih with ⟨hall, hrest⟩ | ⟨cause, hrest⟩
      · exact .inl ⟨List.forall_mem_cons.mpr ⟨hid, hall⟩,
          (Attempt.exec_bind_ok hfirst).trans hrest⟩
      · exact .inr ⟨cause, (Attempt.exec_bind_ok hfirst).trans hrest⟩

/-- **A refusal to set flags leaves the editor as it was**, whether or not it is in a bundle. -/
theorem exec_setDisabled_error {ids : List OperatorId} {disabled : Bool} {cause : EditError}
    (hexec : (setDisabled ids disabled).exec e = (.error cause, e')) : e' = e := by
  unfold setDisabled at hexec
  rw [exec_requireEnabled_bind] at hexec
  split at hexec
  · rcases exec_findAll ids e with ⟨hall, hfound⟩ | ⟨cause', hmissing⟩
    · -- All of the operators are there, so that nothing is refused any more.
      rw [Attempt.exec_bind_ok hfound] at hexec
      cases hbundled : e.bundled with
      | some changes =>
        rw [exec_bundle_some hbundled] at hexec
        cases (exec_setFlags disabled hall).symm.trans (congrArg Prod.fst hexec)
      | none =>
        have hset := exec_setFlags (e := { e with bundled := some [] }) disabled hall
        rw [exec_bundle_none hbundled] at hexec
        split at hexec
        · cases hexec
        · rename_i hcalls
          cases hset.symm.trans (congrArg Prod.fst hcalls)
    · rw [Attempt.exec_bind_error hmissing] at hexec
      cases hexec
      rfl
  · cases hexec
    rfl

/-! ## Runs in which nothing is replayed -/

/-- The editor with a bundle open: the one in progress, or else a new one. -/
def opened (e : Editor) : Editor := { e with bundled := some (e.bundled.getD []) }

theorem opened_of_some {changes : Command} (h : e.bundled = some changes) : e.opened = e := by
  unfold opened
  rw [h, Option.getD_some, ← h]

theorem opened_of_none (h : e.bundled = none) : e.opened = { e with bundled := some [] } := by
  unfold opened
  rw [h, Option.getD_none]

/-- **In the run of the calls from an editor nothing is replayed**: an undo or a redo finds nothing,
or is refused by the lock. -/
inductive Unreplayed : {α : Type} → Attempt Editor α → Editor → Prop
  | pure {α : Type} (value : α) (e : Editor) : Unreplayed (pure value) e
  | throw {α : Type} (cause : EditError) (e : Editor) :
      Unreplayed (throw cause : Attempt Editor α) e
  | read {α : Type} {next : Editor → Attempt Editor α} {e : Editor} (h : Unreplayed (next e) e) :
      Unreplayed (get >>= next) e
  | bind {α β : Type} {first : Attempt Editor α} {next : α → Attempt Editor β} {e : Editor}
      (h : Unreplayed first e)
      (hnext : ∀ value e', first.exec e = (.ok value, e') → Unreplayed (next value) e') :
      Unreplayed (first >>= next) e
  | handle {α : Type} {calls : Attempt Editor α} {handler : EditError → Attempt Editor α}
      {e : Editor} (h : Unreplayed calls e)
      (hhandler : ∀ cause e', calls.exec e = (.error cause, e') → Unreplayed (handler cause) e') :
      Unreplayed (tryCatch calls handler) e
  | act (action : Action) (e : Editor) : Unreplayed action.perform e
  | bundle {α : Type} {calls : Attempt Editor α} {e : Editor} (h : Unreplayed calls e.opened) :
      Unreplayed (Editor.bundle calls) e
  | undo {e : Editor} (h : e.enabled = true → e.history.undoable = []) : Unreplayed Editor.undo e
  | redo {e : Editor} (h : e.enabled = true → e.history.redoable = []) : Unreplayed Editor.redo e
  | clearHistory (e : Editor) : Unreplayed (modify Editor.clearHistory) e
  | setEnabled (enabled : Bool) (e : Editor) : Unreplayed (modify (Editor.setEnabled enabled)) e

/-- A replay that finds nothing leaves the editor as it is. -/
theorem exec_replay_nothing {step : History → Draft → Except EditError Bool × History × Draft}
    (h : e.enabled = true → step e.history e.draft = (.ok false, e.history, e.draft)) :
    ((replay step).exec e).2 = e := by
  cases henabled : e.enabled with
  | false => rw [Timeline.exec_replay_locked henabled]
  | true => rw [Timeline.exec_replay henabled, h henabled]

/-- **In a bundle, calls note what they do unless they replay something.** -/
theorem Unreplayed.notesOrForgets {α : Type} {calls : Attempt Editor α} (h : Unreplayed calls e) :
    NotesOrForgets e (calls.exec e).2 := by
  have hprogram {α : Type} {calls : Attempt Editor α} (e : Editor)
      (hcalls : Program (fun control => ¬ MayReplay control) calls) :
      NotesOrForgets e (calls.exec e).2 := program_notesOrForgets hcalls e
  -- By induction on the run: calls that may not replay are programs, and a replay that finds
  -- nothing leaves the editor alone.
  induction h with
  | pure value e => exact hprogram e (.pure value)
  | throw cause e => exact hprogram e (.throw cause)
  | read _ ih => exact ih
  | @bind _ _ first next e _ _ ih ihnext =>
    rw [Attempt.exec_bind]
    rcases hexec : first.exec e with ⟨cause | value, e'⟩ <;> rw [hexec] at ih
    · exact ih
    · exact trans_of NotesOrForgets ih (ihnext value e' hexec)
  | @handle _ calls handler e _ _ ih ihhandler =>
    rw [Attempt.exec_tryCatch]
    rcases hexec : calls.exec e with ⟨cause | value, e'⟩ <;> rw [hexec] at ih
    · exact trans_of NotesOrForgets ih (ihhandler cause e' hexec)
    · exact ih
  | act action e => exact hprogram e (.act action)
  | bundle _ ih =>
    -- The bundle is nested, so its calls note into the list of the one around it.
    intro hbundled
    obtain ⟨changes, hchanges⟩ := Option.isSome_iff_exists.mp hbundled
    rw [exec_bundle_some hchanges]
    rw [opened_of_some hchanges] at ih
    exact ih hbundled
  | @undo e hnothing =>
    have hsame : (Editor.undo.exec e).2 = e := exec_replay_nothing fun henabled => by
      rw [History.undo, hnothing henabled]
    rw [hsame]
    exact refl_of NotesOrForgets e
  | @redo e hnothing =>
    have hsame : (Editor.redo.exec e).2 = e := exec_replay_nothing fun henabled => by
      rw [History.redo, hnothing henabled]
    rw [hsame]
    exact refl_of NotesOrForgets e
  | clearHistory e => exact hprogram e (.clearHistory (by rintro (h | h) <;> cases h))
  | setEnabled enabled e => exact hprogram e (.setEnabled (by rintro (h | h) <;> cases h) enabled)

/-! ## Refusals -/

/-- **Changes are noted after the given ones**, and lead from the graph before to the graph after;
reversed, they lead back. -/
def NotesMore (changes : Command) (e e' : Editor) : Prop :=
  ∃ more, e'.bundled = some (changes ++ more) ∧ Command.Swaps more e.graph e'.graph

variable {α : Type} {calls : Attempt Editor α} {changes : Command}

/-- What calls do in a bundle is noted there, whether they are refused or not. -/
theorem Unreplayed.notesMore (h : Unreplayed calls e) (hbundled : e.bundled = some changes)
    (hwf : e.graph.WellFormed e.catalogue) : NotesMore changes e (calls.exec e).2 := by
  obtain ⟨-, -, hnotes⟩ := h.notesOrForgets (by rw [hbundled]; rfl)
  obtain ⟨-, -, -, more, hmore, hswaps⟩ := hnotes changes hbundled hwf
  exact ⟨more, hmore, hswaps⟩

/-- **A bundle of its own that is refused leaves the graph**, as long as nothing is replayed. -/
theorem bundle_refused_of_unreplayed {cause : EditError} (h : Unreplayed calls e.opened)
    (hidle : e.bundled = none) (hwf : e.graph.WellFormed e.catalogue)
    (hexec : (bundle calls).exec e = (.error cause, e')) : e'.graph = e.graph := by
  rw [opened_of_none hidle] at h
  obtain ⟨-, -, hnotes⟩ := h.notesOrForgets rfl
  rcases hrun : calls.exec { e with bundled := some [] } with ⟨result, after⟩
  rw [hrun] at hnotes
  have hrecords := records_of_notes hidle hwf hrun hnotes
  rw [hexec, noted_eq_nil hidle hexec] at hrecords
  exact hrecords.nothing.1

/-! ## Editors in the midst of a bundle -/

/-- **The editor is reached from another**: outside a bundle by turns, or in a bundle by calls that
are bundled after turns. -/
inductive Reached (e₀ : Editor) : Editor → Prop
  | outside {e : Editor} (h : Turns (fun _ => True) e₀ e) : Reached e₀ e
  | inside {e : Editor} {α : Type} {calls : Attempt Editor α} (h : Turns (fun _ => True) e₀ e)
      (hcalls : Program (fun _ => True) calls) : Reached e₀ (calls.exec e.opened).2

theorem Reached.sound {e₀ : Editor} (h : Reached e₀ e) (hsound : e₀.Sound) : e.Sound := by
  cases h with
  | outside h => exact h.sound hsound
  | @inside e _ _ h hcalls =>
    have hbefore := h.sound hsound
    have hopened : e.opened.Sound := ⟨hbefore.graph, hbefore.history, hbefore.bundled⟩
    exact ((program_evolves hcalls e.opened).2 hopened).1

/-- **What calls that come to several changes leave when they are refused.**  A refusal to set flags
leaves the editor as it was.  Outside a bundle the other calls leave the graph as it was, and inside
they leave what they had changed by then, noted after the changes of the bundle in progress.  All
that is asked of the calls that are bundled is that nothing is replayed in their run. -/
theorem compound_refused (catalogue : Catalogue) (limit window : Nat) (clock : Nat → Nat)
    (hreached : Reached (start catalogue limit window clock) e) :
    (∀ ids disabled cause e', (setDisabled ids disabled).exec e = (.error cause, e') → e' = e) ∧
    (e.bundled = none →
      (∀ operators links cause e', (addAll operators links).exec e = (.error cause, e') →
        e'.graph = e.graph) ∧
      (∀ operators links cause e', (deleteAll operators links).exec e = (.error cause, e') →
        e'.graph = e.graph) ∧
      ∀ {α : Type} (calls : Attempt Editor α) cause e', Unreplayed calls e.opened →
        (bundle calls).exec e = (.error cause, e') → e'.graph = e.graph) ∧
    ∀ changes, e.bundled = some changes →
      (∀ operators links cause e', (addAll operators links).exec e = (.error cause, e') →
        NotesMore changes e e') ∧
      (∀ operators links cause e', (deleteAll operators links).exec e = (.error cause, e') →
        NotesMore changes e e') ∧
      ∀ {α : Type} (calls : Attempt Editor α) cause e', Unreplayed calls e →
        (bundle calls).exec e = (.error cause, e') → NotesMore changes e e' := by
  have hwf : e.graph.WellFormed e.catalogue := (hreached.sound (sound_start ..)).graph
  have houtside (hidle : e.bundled = none) (action : Action) {cause : EditError} {e' : Editor}
      (hexec : action.perform.exec e = (.error cause, e')) : e'.graph = e.graph :=
    (Action.exec_refused hidle hwf hexec).1
  have hinside {changes : Command} (hbundled : e.bundled = some changes) (action : Action)
      {cause : EditError} {e' : Editor} (hexec : action.perform.exec e = (.error cause, e')) :
      NotesMore changes e e' := by
    have hnotes := (Unreplayed.act action e).notesMore hbundled hwf
    rwa [hexec] at hnotes
  refine ⟨fun ids disabled cause e' => exec_setDisabled_error, fun hidle => ⟨?_, ?_, ?_⟩,
    fun changes hbundled => ⟨?_, ?_, ?_⟩⟩
  · exact fun operators links cause e' => houtside hidle (.addAll operators links)
  · exact fun operators links cause e' => houtside hidle (.deleteAll operators links)
  · exact fun calls cause e' hcalls => bundle_refused_of_unreplayed hcalls hidle hwf
  · exact fun operators links cause e' => hinside hbundled (.addAll operators links)
  · exact fun operators links cause e' => hinside hbundled (.deleteAll operators links)
  · intro α calls cause e' hcalls hexec
    have hnotes := hcalls.notesMore hbundled hwf
    rwa [← exec_bundle_some hbundled, hexec] at hnotes

/-- In a bundle that has added an operator, flags are refused and nothing happens; then two
operators of one name are added, and the first of them stays. -/
theorem compound_refused_inside :
    let scan (id : OperatorId) : Operator := ⟨id, "Scan", "1", .object [], [], [], false⟩
    let start := start (.ofMetadata ⟨[⟨"Scan", .object [], ⟨"Scan", none, "Input", 0, 0⟩, "1"⟩], []⟩)
      100 500 id
    let e := ((addOperator (scan "a") .origin).exec start.opened).2
    let change := Change.addOperator (scan "a") .origin []
    let flags := setDisabled ["a", "ghost"] true
    let twins := addAll [(scan "b", .origin), (scan "b", .origin)] []
    Reached start e ∧ e.bundled = some [change] ∧
      (flags.exec e).1 = .error (.notFound .operator "ghost") ∧ (flags.exec e).2 = e ∧
      (twins.exec e).1 = .error (.duplicateOperator "b") ∧
      NotesMore [change] e (twins.exec e).2 := by
  intro scan start e change flags twins
  have hreached : Reached start e := .inside .refl (.act (.addOperator (scan "a") .origin))
  have hbundled : e.bundled = some [change] := by decide +kernel
  have hflags : (flags.exec e).1 = .error (.notFound .operator "ghost") := by decide +kernel
  have htwins : (twins.exec e).1 = .error (.duplicateOperator "b") := by decide +kernel
  obtain ⟨hset, -, hinside⟩ := compound_refused _ 100 500 id hreached
  exact ⟨hreached, hbundled, hflags, hset _ _ _ _ (Prod.ext hflags rfl), htwins,
    (hinside [change] hbundled).1 _ _ _ _ (Prod.ext htwins rfl)⟩

/-- **A call that is refused in a bundle may leave changes**, though the bundle goes on and succeeds;
and a bundle that has replayed something may leave them as well. -/
theorem not_restored_in_bundle :
    let scan (id : OperatorId) : Operator := ⟨id, "Scan", "1", .object [], [], [], false⟩
    let start := start (.ofMetadata ⟨[⟨"Scan", .object [], ⟨"Scan", none, "Input", 0, 0⟩, "1"⟩], []⟩)
      100 500 id
    let added := ((addOperator (scan "a") .origin).exec start).2
    let adding := addAll [(scan "b", .origin), (scan "b", .origin)] []
    let deleting := deleteAll ["a", "ghost"] []
    let bundled := bundle (do addOperator (scan "b") .origin; throw .malformedDocument)
    let replaying : Attempt Editor Unit := do
      let _ ← undo
      throw .malformedDocument
    Reached start added.opened ∧
      (adding.exec added.opened).1 = .error (.duplicateOperator "b") ∧
      (adding.exec added.opened).2.graph ≠ added.opened.graph ∧
      (deleting.exec added.opened).1 = .error (.notFound .operator "ghost") ∧
      (deleting.exec added.opened).2.graph ≠ added.opened.graph ∧
      (bundled.exec added.opened).1 = (.error .malformedDocument : Except EditError Unit) ∧
      (bundled.exec added.opened).2.graph ≠ added.opened.graph ∧
      ((bundle (tryCatch adding fun _ => pure ())).exec added).1 = .ok () ∧
      ((bundle (tryCatch adding fun _ => pure ())).exec added).2.graph.hasOperator "b" = true ∧
      Reached start added ∧ ((bundle replaying).exec added).1 = .error .malformedDocument ∧
      ((bundle replaying).exec added).2.graph ≠ added.graph := by
  intro scan start added adding deleting bundled replaying
  have hadded : Turns (fun _ => True) start added := .single (.act (.addOperator (scan "a") .origin))
  have hopened : Reached start added.opened := .inside hadded (.pure ())
  refine ⟨hopened, ?_, ?_, ?_, ?_, ?_, ?_, ?_, ?_, .outside hadded, ?_, ?_⟩ <;> decide +kernel

end Editor

end PipelineEditor
