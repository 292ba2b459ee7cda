import PipelineEditor.Proofs.Timeline

/-!
# Undo and redo after every run

Whatever calls were made on an editor, what history holds can be replayed, and undoing an entry
gives back the graph from just before it was recorded.  To say so, that graph is remembered beside
the editor for each entry; moves merged into an entry leave it as it is.

## Main definitions

* `Editor.Call`: the calls on an editor outside a bundle
* `Chronicle`, `Chronicle.after`: an editor with the graphs from before its entries, and its runs
* `Chronicle.Replayable`: what undo and redo promise

## Main results

* `Chronicle.replayable_after`: after every run, an editor that is not locked keeps these promises
-/

namespace PipelineEditor

open Attempt (Keeps)

/-- A call on an editor outside a bundle.  What is bundled may be any program that edits, bundles
and locks or unlocks. -/
inductive Editor.Call : Type 1 where
  | act (action : Action)
  | bundle {α : Type} (calls : Attempt Editor α) (h : Program (· = .lock) calls)
  /-- Replaces property documents as an answer of the inference service asks for. -/
  | correct (documents : List (OperatorId × Json))
  | undo
  | redo
  | setEnabled (enabled : Bool)
  | clearHistory

/-- An editor with the graph from just before the recording of each entry that can be undone, the
latest first. -/
structure Chronicle where
  editor : Editor
  origins : List Graph

namespace Chronicle

/-- The chronicle of an editor without history. -/
def start (catalogue : Catalogue) (limit window : Nat) (clock : Nat → Nat) : Chronicle :=
  ⟨.start catalogue limit window clock, []⟩

/-- Calls that are recorded as one.  Where they open an entry, the graph from before is
remembered. -/
def edit {α : Type} (calls : Attempt Editor α) (c : Chronicle) : Chronicle :=
  { editor := (calls.exec c.editor).2
    origins :=
      if c.editor.history.opens (c.editor.noted calls) then
        (c.editor.graph :: c.origins).take c.editor.history.limit
      else c.origins }

/-- Replaces property documents, one entry for each, up to the first that is refused. -/
def correct : List (OperatorId × Json) → Chronicle → Chronicle
  | [], c => c
  | (id, document) :: rest, c =>
    let calls := Editor.bundle (Editor.setProperties id document)
    match (calls.exec c.editor).1 with
    | .ok () => correct rest (c.edit calls)
    | .error _ => c.edit calls

/-- Undoes an entry. -/
def undo (c : Chronicle) : Chronicle :=
  match Editor.undo.exec c.editor with
  | (.ok true, editor) => ⟨editor, c.origins.tail⟩
  | (_, editor) => ⟨editor, c.origins⟩

/-- Carries an undone entry out again. -/
def redo (c : Chronicle) : Chronicle :=
  match Editor.redo.exec c.editor with
  | (.ok true, editor) => ⟨editor, (c.editor.graph :: c.origins).take c.editor.history.limit⟩
  | (_, editor) => ⟨editor, c.origins⟩

/-- The chronicle after a call, whether it succeeded or not. -/
def exec (c : Chronicle) : Editor.Call → Chronicle
  | .act action => c.edit action.perform
  | .bundle calls _ => c.edit (Editor.bundle calls)
  | .correct documents => c.correct documents
  | .undo => c.undo
  | .redo => c.redo
  | .setEnabled enabled => ⟨c.editor.setEnabled enabled, c.origins⟩
  | .clearHistory => ⟨c.editor.clearHistory, []⟩

/-- The chronicle after calls. -/
def after (c : Chronicle) (calls : List Editor.Call) : Chronicle := calls.foldl exec c

/-- The editor after an undo, and after a redo. -/
abbrev undone (e : Editor) : Editor := (Editor.undo.exec e).2

abbrev redone (e : Editor) : Editor := (Editor.redo.exec e).2

/-- **What undo and redo promise**, where at most so many entries are kept. -/
structure Replayable (limit : Nat) (c : Chronicle) : Prop where
  /-- Undo never fails, and answers whether there was anything to undo. -/
  undo_answers : (Editor.undo.exec c.editor).1 = .ok (!c.editor.history.undoable.isEmpty)
  /-- Redo never fails, and answers whether there was anything to redo. -/
  redo_answers : (Editor.redo.exec c.editor).1 = .ok (!c.editor.history.redoable.isEmpty)
  /-- For each entry the graph from before is known. -/
  origins_length : c.origins.length = c.editor.history.undoable.length
  /-- Undo gives back the graph from just before the entry was recorded. -/
  undo_restores : ∀ origin ∈ c.origins.head?, (undone c.editor).graph = origin
  /-- So many undos and as many redos give back the graph. -/
  redo_undo : ∀ k ≤ c.editor.history.undoable.length,
    (redone^[k] (undone^[k] c.editor)).graph = c.editor.graph
  /-- So many redos and as many undos give back the graph. -/
  undo_redo : ∀ k ≤ c.editor.history.redoable.length,
    (undone^[k] (redone^[k] c.editor)).graph = c.editor.graph
  /-- No more entries are kept than the limit allows. -/
  bound : c.editor.history.undoable.length + c.editor.history.redoable.length ≤ limit
  /-- Redo puts an entry on top of the others, and lets none of them go. -/
  redo_evicts_none : c.editor.history.redoable ≠ [] →
    (redone c.editor).history.undoable.tail = c.editor.history.undoable

/-! ## Runs stay on a timeline -/

/-- **The chronicle is kept by a timeline**: its editor stands at the present, and the graphs
remembered are those at the far ends. -/
def KeptBy (limit : Nat) (c : Chronicle) (line : Timeline) : Prop :=
  line.Holds c.editor ∧ line.past.map (·.2) = c.origins ∧ c.editor.history.limit = limit

variable {limit : Nat} {c : Chronicle} {line : Timeline}

theorem kept_start (catalogue : Catalogue) (limit window : Nat) (clock : Nat → Nat) :
    (start catalogue limit window clock).KeptBy (max limit 1) ⟨[], .empty, []⟩ :=
  ⟨Timeline.holds_start .., rfl, rfl⟩

/-- Calls that do what they record keep the chronicle by a timeline. -/
theorem KeptBy.edit {α : Type} {calls : Attempt Editor α} (h : c.KeptBy limit line)
    (hrecords : c.editor.Records (c.editor.noted calls) (calls.exec c.editor).2) :
    ∃ line', (c.edit calls).KeptBy limit line' := by
  obtain ⟨hholds, horigins, hlimit⟩ := h
  obtain ⟨line', hholds', hpast⟩ := hholds.record hrecords
  refine ⟨line', hholds', ?_, ?_⟩
  · rw [hpast, horigins]
    rfl
  · show ((calls.exec c.editor).2).history.limit = limit
    rw [hrecords.history, ← hlimit, History.record_limit]

theorem KeptBy.editBundle {α : Type} {calls : Attempt Editor α} (h : c.KeptBy limit line)
    (hcalls : Keeps Editor.Notes calls) :
    ∃ line', (c.edit (Editor.bundle calls)).KeptBy limit line' := by
  have hwf : c.editor.graph.WellFormed c.editor.catalogue := by
    rw [h.1.graph]
    exact h.1.wellFormed
  exact h.edit (Editor.exec_bundle_records hcalls h.1.idle hwf)

theorem KeptBy.act (h : c.KeptBy limit line) (action : Action) :
    ∃ line', (c.edit action.perform).KeptBy limit line' := by
  have hedit : c.edit action.perform = c.edit (Editor.bundle action.perform) := by
    rw [Chronicle.edit, Chronicle.edit, action.exec_bundle h.1.idle]
    rfl
  -- Outside a bundle an action records what a bundle of its own would.
  rw [hedit]
  exact h.editBundle (action.keeps Editor.respects_notes)

theorem KeptBy.correct (h : c.KeptBy limit line) (documents : List (OperatorId × Json)) :
    ∃ line', (c.correct documents).KeptBy limit line' := by
  induction documents generalizing c line with
  | nil => exact ⟨line, h⟩
  | cons entry rest ih =>
    obtain ⟨id, document⟩ := entry
    obtain ⟨line', hkept⟩ := h.editBundle (Editor.single_setProperties id document).notes
    unfold Chronicle.correct
    dsimp only
    split
    · exact ih hkept
    · exact ⟨line', hkept⟩

theorem KeptBy.undo (h : c.KeptBy limit line) : ∃ line', c.undo.KeptBy limit line' := by
  obtain ⟨hholds, horigins, hlimit⟩ := h
  cases henabled : c.editor.enabled with
  | false =>
    rw [Chronicle.undo, Editor.undo, Timeline.exec_replay_locked henabled]
    exact ⟨line, hholds, horigins, hlimit⟩
  | true =>
    obtain ⟨hanswer, hback, hframe⟩ := hholds.undo henabled
    unfold Chronicle.undo
    rcases hexec : Editor.undo.exec c.editor with ⟨result, e'⟩
    rw [hexec] at hanswer hback hframe
    obtain rfl : result = _ := hanswer
    obtain ⟨_ | ⟨⟨command, origin⟩, past⟩, present, future⟩ := line
    · exact ⟨_, hback, horigins, hframe.2.2.trans hlimit⟩
    · refine ⟨_, hback, ?_, hframe.2.2.trans hlimit⟩
      rw [← horigins]
      rfl

theorem KeptBy.redo (h : c.KeptBy limit line) : ∃ line', c.redo.KeptBy limit line' := by
  obtain ⟨hholds, horigins, hlimit⟩ := h
  cases henabled : c.editor.enabled with
  | false =>
    rw [Chronicle.redo, Editor.redo, Timeline.exec_replay_locked henabled]
    exact ⟨line, hholds, horigins, hlimit⟩
  | true =>
    obtain ⟨hanswer, hforward, hframe, -⟩ := hholds.redo henabled
    have hgraph := hholds.graph
    unfold Chronicle.redo
    rcases hexec : Editor.redo.exec c.editor with ⟨result, e'⟩
    rw [hexec] at hanswer hforward hframe
    obtain rfl : result = _ := hanswer
    obtain ⟨past, present, _ | ⟨⟨command, next⟩, future⟩⟩ := line
    · exact ⟨_, hforward, horigins, hframe.2.2.trans hlimit⟩
    · refine ⟨_, hforward, ?_, hframe.2.2.trans hlimit⟩
      -- No entry is let go, so no graph is forgotten.
      have hbound : past.length + (future.length + 1) ≤ c.editor.history.limit := hholds.bound
      show present :: past.map (·.2) = (c.editor.graph :: c.origins).take c.editor.history.limit
      rw [← horigins, hgraph, List.take_of_length_le]
      rw [List.length_cons, List.length_map]
      show past.length + 1 ≤ c.editor.history.limit
      omega

/-- Every call keeps the chronicle by a timeline. -/
theorem KeptBy.exec (h : c.KeptBy limit line) (call : Editor.Call) :
    ∃ line', (c.exec call).KeptBy limit line' := by
  cases call with
  | act action => exact h.act action
  | bundle calls hprogram => exact h.editBundle (Editor.program_notes hprogram)
  | correct documents => exact h.correct documents
  | undo => exact h.undo
  | redo => exact h.redo
  | setEnabled enabled =>
    obtain ⟨hholds, horigins, hlimit⟩ := h
    refine ⟨line, hholds.setEnabled enabled, horigins, ?_⟩
    show (c.editor.setEnabled enabled).history.limit = limit
    unfold Editor.setEnabled
    split
    · exact hlimit
    · exact hlimit
  | clearHistory =>
    obtain ⟨hholds, -, hlimit⟩ := h
    exact ⟨_, hholds.clear, rfl, hlimit⟩

theorem KeptBy.after (h : c.KeptBy limit line) (calls : List Editor.Call) :
    ∃ line', (c.after calls).KeptBy limit line' := by
  induction calls generalizing c line with
  | nil => exact ⟨line, h⟩
  | cons call rest ih =>
    obtain ⟨line', hkept⟩ := h.exec call
    exact ih hkept

/-! ## What undo and redo promise -/

/-- Repeated undos move back along the timeline. -/
theorem holds_undone {e : Editor} (h : line.Holds e) (henabled : e.enabled = true) (k : Nat) :
    (Timeline.back^[k] line).Holds (undone^[k] e) ∧ (undone^[k] e).enabled = true := by
  induction k with
  | zero => exact ⟨h, henabled⟩
  | succ k ih =>
    obtain ⟨hholds, henabled'⟩ := ih
    obtain ⟨-, hback, -, hsame, -⟩ := hholds.undo henabled'
    rw [Function.iterate_succ_apply', Function.iterate_succ_apply']
    exact ⟨hback, hsame.trans henabled'⟩

/-- Repeated redos move forward along the timeline. -/
theorem holds_redone {e : Editor} (h : line.Holds e) (henabled : e.enabled = true) (k : Nat) :
    (Timeline.forward^[k] line).Holds (redone^[k] e) ∧ (redone^[k] e).enabled = true := by
  induction k with
  | zero => exact ⟨h, henabled⟩
  | succ k ih =>
    obtain ⟨hholds, henabled'⟩ := ih
    obtain ⟨-, hforward, ⟨-, hsame, -⟩, -⟩ := hholds.redo henabled'
    rw [Function.iterate_succ_apply', Function.iterate_succ_apply']
    exact ⟨hforward, hsame.trans henabled'⟩

theorem KeptBy.replayable (h : c.KeptBy limit line) (henabled : c.editor.enabled = true) :
    c.Replayable limit := by
  obtain ⟨hholds, horigins, hlimit⟩ := h
  have hpast := hholds.length_undoable
  have hfuture := hholds.length_redoable
  obtain ⟨hundo, hback, -⟩ := hholds.undo henabled
  obtain ⟨hredo, -, -, hevicts⟩ := hholds.redo henabled
  -- The clauses are read off the line: entries are on it, undo and redo are steps along it.
  have hempty : line.past.isEmpty = c.editor.history.undoable.isEmpty := by
    rw [← List.isEmpty_map (f := Prod.fst), ← hholds.undoable, List.isEmpty_map]
  have hempty' : line.future.isEmpty = c.editor.history.redoable.isEmpty := by
    rw [hholds.redoable, List.isEmpty_map]
  refine ⟨?_, ?_, ?_, ?_, ?_, ?_, ?_, ?_⟩
  · rw [hundo, hempty]
  · rw [hredo, hempty']
  · rw [← horigins, List.length_map, hpast]
  · intro origin horigin
    rw [← horigins] at horigin
    obtain ⟨_ | ⟨⟨command, first⟩, past⟩, present, future⟩ := line
    · cases horigin
    · cases horigin
      exact hback.graph
  · -- Back and forth along the line is to stand still, as long as the line is long enough.
    intro k hk
    obtain ⟨hthere, hsame⟩ := holds_undone hholds henabled k
    rw [(holds_redone hthere hsame k).1.graph, Timeline.forward_back_iterate (by omega),
      hholds.graph]
  · intro k hk
    obtain ⟨hthere, hsame⟩ := holds_redone hholds henabled k
    rw [(holds_undone hthere hsame k).1.graph, Timeline.back_forward_iterate (by omega),
      hholds.graph]
  · rw [hpast, hfuture, ← hlimit]
    exact hholds.bound
  · intro hne
    refine hevicts fun hnil => hne ?_
    rw [hholds.redoable, hnil]
    rfl

/-- **After every run, history can be replayed exactly**: for every limit, window and clock, and
whatever calls were made, in whatever order and with whatever success, as soon as the pipeline is
not locked. -/
theorem replayable_after (catalogue : Catalogue) (limit window : Nat) (clock : Nat → Nat)
    (calls : List Editor.Call)
    (henabled : ((start catalogue limit window clock).after calls).editor.enabled = true) :
    ((start catalogue limit window clock).after calls).Replayable (max limit 1) := by
  obtain ⟨line, hkept⟩ := (kept_start catalogue limit window clock).after calls
  exact hkept.replayable henabled

/-- An operator is added and dragged in two moves, and the drag is undone as one. -/
theorem replayable_after_drag :
    let c := (start (.ofMetadata ⟨[⟨"Scan", .object [], ⟨"Scan", none, "Input", 0, 0⟩, "1"⟩], []⟩)
      100 500 id).after [
        .act (.addOperator ⟨"scan", "Scan", "1", .object [], [], [], false⟩ .origin),
        .act (.moveOperator "scan" ⟨⟨1⟩, 0⟩), .act (.moveOperator "scan" ⟨⟨2⟩, 0⟩), .undo]
    c.editor.enabled = true ∧ c.origins.length = 1 ∧ c.editor.history.redoable.length = 1 ∧
      c.Replayable 100 :=
  ⟨rfl, rfl, rfl, replayable_after _ 100 500 id _ rfl⟩

end Chronicle

end PipelineEditor
