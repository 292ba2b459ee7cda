import PipelineEditor.Inference.Propagation
import PipelineEditor.Proofs.Program
import PipelineEditor.View.Bridge

/-!
# How editors evolve

A replay and a rollback carry changes out without checking them again, so a graph stays well-formed
only as long as what history and bundle hold was checked when it was recorded.  This is an invariant
of editors, and under it every call takes the draft along by steps.

## Main definitions

* `Editor.Sound`: the graph is well-formed, and so are the operators of all recorded changes
* `Editor.Evolves e e'`: if `e` is sound, so is `e'`, and its draft is some steps further

## Main results

* `Editor.respects_evolves`: single calls and bundles make editors evolve
* `Editor.program_evolves`: so do programs, with undo, redo and all other calls in them
* `Propagation.apply_evolves`, `Bridge.forward_evolves`: so do corrections and gestures
-/

namespace PipelineEditor

open Attempt (Keeps)

/-! ## What history holds -/

namespace History

variable {catalogue : Catalogue} {h : History} {command : Command}

/-- All commands that could be undone or redone fit the catalogue. -/
structure Fits (catalogue : Catalogue) (h : History) : Prop where
  undoable : ∀ entry ∈ h.undoable, entry.command.Fits catalogue
  redoable : ∀ command ∈ h.redoable, command.Fits catalogue

theorem Fits.push (hfits : h.Fits catalogue) (hcommand : command.Fits catalogue)
    (mergeable : Bool) : (h.push command mergeable).Fits catalogue := by
  refine ⟨fun entry hmem => ?_, hfits.redoable⟩
  rcases List.mem_cons.mp (List.mem_of_mem_take hmem) with rfl | hmem
  · exact hcommand
  · exact hfits.undoable entry hmem

/-- A merge lets the latest entry grow, and leaves the others alone. -/
theorem merge?_eq_some {h' : History} (h : History) (hmerge : h.merge? command = some h') :
    ∃ last rest merged, h.undoable = last :: rest ∧
      last.command.merge? command = some merged ∧
      h' = { h with undoable := ⟨merged, h.now, true⟩ :: rest, readings := h.readings + 1 } := by
  unfold merge? at hmerge
  split at hmerge
  · rename_i last rest hundoable
    split at hmerge
    · obtain ⟨merged, hmerged, rfl⟩ := Option.map_eq_some_iff.mp hmerge
      exact ⟨last, rest, merged, hundoable, hmerged, rfl⟩
    · cases hmerge
  · cases hmerge

theorem Fits.merge {h' : History} (hfits : h.Fits catalogue) (hmerge : h.merge? command = some h') :
    h'.Fits catalogue := by
  obtain ⟨last, rest, merged, hundoable, hmerged, rfl⟩ := merge?_eq_some h hmerge
  refine ⟨fun entry hmem => ?_, hfits.redoable⟩
  rcases List.mem_cons.mp hmem with rfl | hmem
  · exact Command.fits_of_merge? hmerged
  · exact hfits.undoable entry (hundoable ▸ List.mem_cons_of_mem _ hmem)

theorem Fits.record (hfits : h.Fits catalogue) (hcommand : command.Fits catalogue) :
    (h.record command).Fits catalogue := by
  unfold History.record
  have hcleared : Fits catalogue { h with redoable := [] } :=
    ⟨hfits.undoable, fun _ hmem => nomatch hmem⟩
  split
  · exact hfits
  · dsimp only
    rcases hmerge : merge? { h with redoable := [] } command with _ | merged
    · exact hcleared.push hcommand true
    · exact hcleared.merge hmerge

/-- Closing the latest entry to merging leaves the commands. -/
theorem map_command_sealTop (entries : List Entry) :
    (sealTop entries).map (·.command) = entries.map (·.command) := by
  cases entries <;> rfl

theorem Fits.undo (hfits : h.Fits catalogue) (d : Draft) :
    (h.undo d).2.1.Fits catalogue ∧ Draft.Steps catalogue d (h.undo d).2.2 := by
  unfold History.undo
  split
  · exact ⟨hfits, .refl⟩
  · rename_i last rest hundoable
    have hlast := hfits.undoable last (hundoable ▸ List.mem_cons_self)
    have hrest : ∀ entry ∈ rest, entry.command.Fits catalogue := fun entry hmem =>
      hfits.undoable entry (hundoable ▸ List.mem_cons_of_mem _ hmem)
    have hsteps := Command.undo_keeps hlast d
    rcases hexec : last.command.undo.exec d with ⟨cause | _, d'⟩ <;> rw [hexec] at hsteps
    · exact ⟨⟨hrest, hfits.redoable⟩, hsteps⟩
    · refine ⟨⟨fun entry hmem => ?_, fun command hmem => ?_⟩, hsteps⟩
      · have hmap := List.mem_map_of_mem (f := (·.command)) hmem
        rw [map_command_sealTop] at hmap
        obtain ⟨other, hother, heq⟩ := List.mem_map.mp hmap
        exact heq ▸ hrest other hother
      · rcases List.mem_cons.mp hmem with rfl | hmem
        · exact hlast
        · exact hfits.redoable command hmem

theorem Fits.redo (hfits : h.Fits catalogue) (d : Draft) :
    (h.redo d).2.1.Fits catalogue ∧ Draft.Steps catalogue d (h.redo d).2.2 := by
  unfold History.redo
  split
  · exact ⟨hfits, .refl⟩
  · rename_i command rest hredoable
    have hcommand := hfits.redoable command (hredoable ▸ List.mem_cons_self)
    have hrest : Fits catalogue { h with redoable := rest } :=
      ⟨hfits.undoable, fun other hmem =>
        hfits.redoable other (hredoable ▸ List.mem_cons_of_mem _ hmem)⟩
    have hsteps := Command.redo_keeps hcommand d
    rcases hexec : command.redo.exec d with ⟨cause | _, d'⟩ <;> rw [hexec] at hsteps
    · exact ⟨hrest, hsteps⟩
    · exact ⟨hrest.push hcommand false, hsteps⟩

theorem Fits.clear (_ : h.Fits catalogue) : h.clear.Fits catalogue :=
  ⟨fun _ hmem => (nomatch hmem), fun _ hmem => nomatch hmem⟩

end History

/-! ## Sound editors -/

namespace Editor

/-- **The graph is well-formed, and all that could be carried out without another check fits**: what
could be undone or redone, and what the bundle in progress would be rolled back by. -/
structure Sound (e : Editor) : Prop where
  graph : e.graph.WellFormed e.catalogue
  history : e.history.Fits e.catalogue
  bundled : Command.Fits e.catalogue (e.bundled.getD [])

/-- **The editor evolves**: it stays sound, and its draft goes on by steps. -/
def Evolves (e e' : Editor) : Prop :=
  e'.catalogue = e.catalogue ∧
    (e.Sound → e'.Sound ∧ Draft.Steps e.catalogue e.draft e'.draft)

theorem sound_start (catalogue : Catalogue) (limit window : Nat) (clock : Nat → Nat) :
    (start catalogue limit window clock).Sound where
  graph := Graph.wellFormed_empty catalogue
  history := ⟨fun _ hmem => (nomatch hmem), fun _ hmem => nomatch hmem⟩
  bundled := Command.fits_nil

instance : Std.Refl Evolves := ⟨fun _ => ⟨rfl, fun h => ⟨h, .refl⟩⟩⟩

instance : IsTrans Editor Evolves where
  trans := by
    rintro e e' e'' ⟨hcat, h⟩ ⟨hcat', h'⟩
    refine ⟨hcat'.trans hcat, fun hsound => ?_⟩
    obtain ⟨hsound', hsteps⟩ := h hsound
    obtain ⟨hsound'', hsteps'⟩ := h' hsound'
    exact ⟨hsound'', hsteps.trans (hcat ▸ hsteps')⟩

theorem Sound.note {e : Editor} (h : e.Sound) {change : Change} (hfits : change.Fits e.catalogue) :
    (note change e).Sound := by
  unfold Editor.note
  cases hbundled : e.bundled with
  | none => exact ⟨h.graph, h.history.record (Command.fits_singleton hfits), Command.fits_nil⟩
  | some changes =>
    have hchanges := h.bundled
    rw [hbundled] at hchanges
    exact ⟨h.graph, h.history, hchanges.append (Command.fits_singleton hfits)⟩

@[simp] theorem note_catalogue (change : Change) (e : Editor) :
    (note change e).catalogue = e.catalogue := by
  unfold note
  cases e.bundled <;> rfl

@[simp] theorem note_draft (change : Change) (e : Editor) : (note change e).draft = e.draft := by
  unfold note
  cases e.bundled <;> rfl

/-- A single call makes the editor evolve. -/
theorem Single.evolves {call : Attempt Editor Unit} (hcall : Single call) :
    Keeps Evolves call := by
  obtain ⟨choice, hsound, hexec⟩ := hcall
  intro e
  rw [hexec]
  rcases hchoice : choice e.catalogue e.enabled e.graph with cause | _ | change
  · exact refl_of Evolves e
  · exact refl_of Evolves e
  · rw [carryOut, exec_commit]
    constructor
    · rcases change.apply.exec e.draft with ⟨_ | _, draft⟩
      · rfl
      · exact note_catalogue ..
    · intro h
      have hfits := (hsound h.graph hchoice).1
      have hsteps := Change.apply_keeps hfits e.draft
      rcases happly : change.apply.exec e.draft with ⟨_ | _, draft⟩ <;> rw [happly] at hsteps
      · exact ⟨⟨hsteps.wellFormed h.graph, h.history, h.bundled⟩, hsteps⟩
      · have hdone : Sound { e with draft } :=
          ⟨hsteps.wellFormed h.graph, h.history, h.bundled⟩
        refine ⟨hdone.note hfits, ?_⟩
        rw [note_draft]
        exact hsteps

/-- So does a bundle, if what is bundled does: a rollback goes on from where the calls broke off. -/
theorem bundle_evolves {α : Type} {calls : Attempt Editor α} (hcalls : Keeps Evolves calls) :
    Keeps Evolves (bundle calls) := by
  intro e
  cases hidle : e.bundled with
  | some changes =>
    rw [exec_bundle_some hidle]
    exact hcalls e
  | none =>
    rw [exec_bundle_none hidle]
    obtain ⟨hcat, hrun⟩ := hcalls { e with bundled := some [] }
    rcases hexec : calls.exec { e with bundled := some [] } with ⟨cause | value, e'⟩ <;>
      rw [hexec] at hcat hrun
    · refine ⟨hcat, fun h => ?_⟩
      obtain ⟨h', hsteps⟩ := hrun ⟨h.graph, h.history, Command.fits_nil⟩
      -- The rollback goes on from the draft that the failed calls have left.
      have hback := Command.undo_keeps h'.bundled e'.draft
      refine ⟨⟨hback.wellFormed h'.graph, h'.history, Command.fits_nil⟩, hsteps.trans ?_⟩
      exact hcat ▸ hback
    · refine ⟨hcat, fun h => ?_⟩
      obtain ⟨h', hsteps⟩ := hrun ⟨h.graph, h.history, Command.fits_nil⟩
      exact ⟨⟨h'.graph, h'.history.record h'.bundled, Command.fits_nil⟩, hsteps⟩

/-- **Single calls and bundles make editors evolve.** -/
theorem respects_evolves : Respects Evolves := ⟨Single.evolves, bundle_evolves⟩

/-! ## History and lock -/

/-- A replay makes the editor evolve if it takes fitting commands from the history. -/
theorem replay_evolves {step : History → Draft → Except EditError Bool × History × Draft}
    (hstep : ∀ {catalogue h} (d : Draft), h.Fits catalogue →
      (step h d).2.1.Fits catalogue ∧ Draft.Steps catalogue d (step h d).2.2) :
    Keeps Evolves (replay step) := by
  refine .bind requireEnabled_keeps fun _ e => ⟨rfl, fun h => ?_⟩
  obtain ⟨hfits, hsteps⟩ := hstep e.draft h.history
  exact ⟨⟨hsteps.wellFormed h.graph, hfits, h.bundled⟩, hsteps⟩

theorem undo_evolves : Keeps Evolves undo := replay_evolves fun d hfits => hfits.undo d

theorem redo_evolves : Keeps Evolves redo := replay_evolves fun d hfits => hfits.redo d

theorem clearHistory_evolves (e : Editor) : Evolves e e.clearHistory :=
  ⟨rfl, fun h => ⟨⟨h.graph, h.history.clear, h.bundled⟩, .refl⟩⟩

theorem setEnabled_evolves (enabled : Bool) (e : Editor) : Evolves e (e.setEnabled enabled) := by
  unfold setEnabled
  split
  · exact refl_of Evolves e
  · exact ⟨rfl, fun h => ⟨⟨h.graph, h.history, h.bundled⟩, .single (.lock e.draft enabled)⟩⟩

/-- **Programs make editors evolve**, whatever calls they are allowed. -/
theorem program_evolves {allowed : Control → Prop} {α : Type} {calls : Attempt Editor α}
    (h : Program allowed calls) : Keeps Evolves calls :=
  h.keeps respects_evolves (fun _ => undo_evolves) (fun _ => redo_evolves)
    (fun _ => clearHistory_evolves) fun _ => setEnabled_evolves

end Editor

open Editor (Evolves)

/-! ## Corrections -/

namespace Propagation

theorem replaceAll_evolves (documents : List (OperatorId × Json)) :
    Keeps Evolves (replaceAll documents) := by
  refine .mapM ?_
  rintro ⟨id, document⟩ -
  refine .bind (Editor.bundle_evolves ?_) fun _ => .pure _
  exact (Editor.single_setProperties id document).evolves

theorem correct_evolves (p : Propagation) (e : Editor) (result : InputSchemas) :
    Evolves e (p.correct e result).2.2 := by
  unfold correct
  dsimp only
  split
  · exact refl_of Evolves e
  · split
    · exact refl_of Evolves e
    · exact replaceAll_evolves _ e

theorem apply_evolves (p : Propagation) (e : Editor) (outcome : Outcome) (revision : Nat) :
    Evolves e (p.apply e outcome revision).2.2 := by
  unfold apply
  split
  · exact refl_of Evolves e
  · split
    · exact refl_of Evolves e
    · exact correct_evolves ..

theorem applyDeferred_evolves (p : Propagation) (e : Editor) :
    Evolves e (p.applyDeferred e).2.2 := by
  unfold applyDeferred
  split
  · exact refl_of Evolves e
  · exact correct_evolves ..

end Propagation

/-! ## What corrections leave alone -/

namespace Propagation

variable {p : Propagation} {e : Editor}

/-- A correction changes only whether corrections wait. -/
theorem correct_propagation (p : Propagation) (e : Editor) (result : InputSchemas) :
    ∃ deferred, (p.correct e result).2.1 = { p with deferred } := by
  unfold correct
  dsimp only
  split
  · exact ⟨_, rfl⟩
  · split
    · exact ⟨_, rfl⟩
    · exact ⟨_, rfl⟩

/-- The numbering of requests is left alone by their answers. -/
theorem apply_propagation (p : Propagation) (e : Editor) (outcome : Outcome) (revision : Nat) :
    ∃ overlay deferred, (p.apply e outcome revision).2.1 = { p with overlay, deferred } := by
  unfold apply
  split
  · exact ⟨_, _, rfl⟩
  · split
    · exact ⟨_, _, rfl⟩
    · rename_i result _
      obtain ⟨deferred, h⟩ := correct_propagation
        { p with overlay := (p.overlay.apply e.graph e.catalogue result).1 } e result
      exact ⟨_, deferred, h⟩

theorem applyDeferred_propagation (p : Propagation) (e : Editor) :
    ∃ overlay deferred, (p.applyDeferred e).2.1 = { p with overlay, deferred } := by
  unfold applyDeferred
  split
  · exact ⟨_, _, rfl⟩
  · obtain ⟨deferred, h⟩ := correct_propagation { p with deferred := false } e p.overlay.inputs
    exact ⟨_, deferred, h⟩

end Propagation

/-! ## Gestures -/

theorem Intent.performAll_evolves (intents : List Intent) : Keeps Evolves (performAll intents) := by
  have hone (intent : Intent) : Keeps Evolves intent.perform := by
    cases intent with
    | addLink link => exact (Editor.single_addLink link).evolves
    | deleteLink id => exact (Editor.single_deleteLink id).evolves
    | deleteOperator id => exact (Editor.single_deleteOperator id).evolves
    | moveOperator id position => exact (Editor.single_moveOperator id position).evolves
  unfold performAll
  split
  · exact .pure _
  · exact hone _
  · exact Editor.bundle_evolves (.forM fun intent _ => hone intent)

theorem Bridge.forward_evolves (bridge : Bridge) (e : Editor) (gesture : Gesture) :
    Evolves e (bridge.forward e gesture).2.2 := by
  unfold forward
  dsimp only
  have h := Intent.performAll_evolves (bridge.lift e.graph gesture).1 e
  rcases hexec : (Intent.performAll (bridge.lift e.graph gesture).1).exec e with ⟨_ | _, e'⟩ <;>
    rw [hexec] at h
  · exact h
  · exact h

end PipelineEditor
