import Mathlib.Data.List.Forall2
import PipelineEditor.Proofs.Grouping
import PipelineEditor.Proofs.Unaware

/-!
# Merged moves are groups of single moves

Two editors are given the same calls.  The one merges moves as its clock and its window have it, the
other keeps every command apart.  What the first can undo is entry by entry a grouping of what the
second can undo, and an undo or a redo of the first comes to as many of the second as the group is
long.

## Main definitions

* `Twin`, `Twin.after`: the two editors with the groups, and their runs
* `Twin.Below`: both editors have room for another entry
* `Twin.Grouped`: the entries of the one are groups of the other's

## Main results

* `Twin.Kept.regroup`: a recording joins the latest group or opens one
* `Twin.Kept.apart_back`, `Twin.Kept.apart_forward`: the second editor moves by a group
* `Twin.Kept.edit`, `Twin.Kept.undo`, `Twin.Kept.redo`: each call keeps the grouping
* `Twin.Kept.back`: so many entries undone come to all of their groups undone
* `Twin.grouped_after`: after every run that stays below the limits the entries are groups
-/

namespace PipelineEditor

open Attempt (Keeps Ignores)
open Chronicle (undone redone holds_undone holds_redone)
open Draft (Takes)
open Editor (SameStage)

/-! ## Two editors -/

/-- **Two editors that are given the same calls**, of which the second keeps apart what the first
may merge.  For each entry of the first the recordings are remembered that it stands for, the latest
first. -/
structure Twin where
  merging : Editor
  apart : Editor
  undoable : List (List Recording)
  redoable : List (List Recording)
  /-- How often something was undone or redone. -/
  replays : Nat

namespace Twin

/-- Two editors without history, which keep up to `limit` and `room` entries and read the clocks
`clock` and `tick`.  The second merges only what is recorded at the same time. -/
def start (catalogue : Catalogue) (limit room window : Nat) (clock tick : Nat → Nat) : Twin :=
  ⟨.start catalogue limit window clock, .start catalogue room 0 tick, [], [], 0⟩

/-- The groups with a recording more, which opens a group where it opens an entry, and joins the
latest group where it is merged. -/
def regroup (t : Twin) (recording : Recording) : List (List Recording) :=
  if t.merging.history.opens recording.command then [recording] :: t.undoable
  else t.undoable.modifyHead (recording :: ·)

/-- Calls that are recorded as one. -/
def edit {α : Type} (calls : Attempt Editor α) (t : Twin) : Twin :=
  let recording : Recording := ⟨t.merging.noted calls, t.replays⟩
  let merging := (calls.exec t.merging).2
  let apart := (calls.exec t.apart).2
  if recording.command.isEmpty then { t with merging, apart }
  else { t with merging, apart, undoable := t.regroup recording, redoable := [] }

/-- Replaces property documents, one entry for each, up to the first that is refused. -/
def correct : List (OperatorId × Json) → Twin → Twin
  | [], t => t
  | (id, document) :: rest, t =>
    let calls := Editor.bundle (Editor.setProperties id document)
    match (calls.exec t.merging).1, (calls.exec t.apart).1 with
    | .ok (), .ok () => correct rest (t.edit calls)
    | _, _ => t.edit calls

/-- Undoes an entry of the first editor, and as many of the second as its group is long. -/
def undo (t : Twin) : Twin :=
  match (Editor.undo.exec t.merging).1, t.undoable with
  | .ok true, group :: rest =>
    { merging := undone t.merging
      apart := undone^[group.length] t.apart
      undoable := rest
      redoable := group :: t.redoable
      replays := t.replays + 1 }
  | _, _ => { t with merging := undone t.merging, apart := undone t.apart }

/-- Carries an entry of the first editor out again, and as many of the second as its group is
long. -/
def redo (t : Twin) : Twin :=
  match (Editor.redo.exec t.merging).1, t.redoable with
  | .ok true, group :: rest =>
    { merging := redone t.merging
      apart := redone^[group.length] t.apart
      undoable := group :: t.undoable
      redoable := rest
      replays := t.replays + 1 }
  | _, _ => { t with merging := redone t.merging, apart := redone t.apart }

/-- The editors after a call, whether it succeeded or not. -/
def exec (t : Twin) : Editor.Call → Twin
  | .act action => t.edit action.perform
  | .bundle calls _ => t.edit (Editor.bundle calls)
  | .correct documents => t.correct documents
  | .undo => t.undo
  | .redo => t.redo
  | .setEnabled enabled =>
    { t with merging := t.merging.setEnabled enabled, apart := t.apart.setEnabled enabled }
  | .clearHistory =>
    { t with
      merging := t.merging.clearHistory
      apart := t.apart.clearHistory
      undoable := []
      redoable := [] }

/-- Both editors after calls. -/
def after (t : Twin) (calls : List Editor.Call) : Twin := calls.foldl exec t

/-- Both editors have room for another entry. -/
def Below (t : Twin) : Prop :=
  t.merging.history.undoable.length < t.merging.history.limit ∧
    t.apart.history.undoable.length < t.apart.history.limit

/-- **The entries of the first editor are groups of the second one's.** -/
structure Matched (t : Twin) : Prop where
  undoable : List.Forall₂ Command.StandsFor (t.merging.history.undoable.map (·.command)) t.undoable
  redoable : List.Forall₂ Command.StandsFor t.merging.history.redoable t.redoable
  /-- The groups side by side are what the second editor can undo. -/
  behind : t.apart.history.undoable.map (·.command) = t.undoable.flatten.map (·.command)
  /-- What it can redo is in each group the earliest first. -/
  ahead : t.apart.history.redoable = (t.redoable.flatMap List.reverse).map (·.command)

/-- **The entries are groups, and it makes no difference to the graph in which editor they are
undone.** -/
structure Grouped (t : Twin) : Prop extends Matched t where
  graph : t.apart.graph = t.merging.graph
  /-- So many entries undone come to all of the groups undone. -/
  back : ∀ k ≤ t.undoable.length,
    (undone^[(t.undoable.take k).flatten.length] t.apart).graph = (undone^[k] t.merging).graph
  /-- Everything undone comes to the same. -/
  bottom : (undone^[t.apart.history.undoable.length] t.apart).graph =
    (undone^[t.merging.history.undoable.length] t.merging).graph

/-! ## What each call keeps -/

variable {t : Twin} {tick : Nat → Nat}

/-- Both editors are on timelines and at the same stage. -/
structure Aligned (t : Twin) : Prop where
  merging : ∃ line : Timeline, line.Holds t.merging
  apart : ∃ line : Timeline, line.Holds t.apart
  stage : SameStage t.merging t.apart

/-- **Between two calls**: the entries of the first editor are groups, and only an entry whose
recordings were made since the last replay is open to more moves. -/
structure Kept (tick : Nat → Nat) (t : Twin) : Prop extends Aligned t, Matched t where
  keepsApart : t.apart.history.KeepsApart tick
  fresh : t.merging.history.Open →
    ∀ group ∈ t.undoable.head?, ∀ recording ∈ group, recording.replays = t.replays

theorem kept_start (catalogue : Catalogue) (limit room window : Nat) (clock tick : Nat → Nat) :
    (start catalogue limit room window clock tick).Kept tick where
  merging := ⟨_, Timeline.holds_start ..⟩
  apart := ⟨_, Timeline.holds_start ..⟩
  stage := ⟨rfl, rfl, rfl, rfl⟩
  undoable := .nil
  redoable := .nil
  behind := rfl
  ahead := rfl
  keepsApart := ⟨rfl, rfl, fun _ htime => nomatch htime⟩
  fresh _ _ hgroup := nomatch hgroup

variable {α : Type} {calls : Attempt Editor α}

/-- **Calls that are bundled in both editors record the same in both.** -/
theorem Aligned.edit (h : t.Aligned) (hnotes : Keeps Editor.Notes calls)
    (hignores : Ignores SameStage calls) :
    t.merging.Records (t.merging.noted calls) ((Editor.bundle calls).exec t.merging).2 ∧
      t.apart.Records (t.merging.noted calls) ((Editor.bundle calls).exec t.apart).2 ∧
      (t.edit (Editor.bundle calls)).Aligned := by
  obtain ⟨⟨line, hline⟩, ⟨line', hline'⟩, hstage⟩ := h
  have hmerging := Editor.exec_bundle_records hnotes hline.idle (hline.graph ▸ hline.wellFormed)
  have hapart := Editor.exec_bundle_records hnotes hline'.idle (hline'.graph ▸ hline'.wellFormed)
  rw [← Editor.noted_eq_of_ignores hignores hstage] at hapart
  refine ⟨hmerging, hapart, ?_⟩
  obtain ⟨next, hnext, -⟩ := hline.record hmerging
  obtain ⟨next', hnext', -⟩ := hline'.record hapart
  have hleft := (Editor.bundle_ignores hignores t.merging t.apart hstage).2
  unfold Twin.edit
  dsimp only
  split
  · exact ⟨⟨next, hnext⟩, ⟨next', hnext'⟩, hleft⟩
  · exact ⟨⟨next, hnext⟩, ⟨next', hnext'⟩, hleft⟩

/-- **A recording joins the latest group or opens one**, which has been recorded since the last
replay. -/
theorem Kept.regroup (h : t.Kept tick) {command : Command} (hne : command ≠ [])
    (hroom : (t.merging.history.record command).undoable.length <
      (t.merging.history.record command).limit) :
    List.Forall₂ Command.StandsFor ((t.merging.history.record command).undoable.map (·.command))
        (t.regroup ⟨command, t.replays⟩) ∧
      (t.merging.history.record command).redoable = [] ∧
      (t.regroup ⟨command, t.replays⟩).flatten = ⟨command, t.replays⟩ :: t.undoable.flatten ∧
      ∀ group ∈ (t.regroup ⟨command, t.replays⟩).head?, ∀ recording ∈ group,
        recording.replays = t.replays := by
  unfold Twin.regroup
  cases hopens : t.merging.history.opens command with
  | true =>
    obtain ⟨hmap, hredo⟩ := History.record_opened hopens hroom
    rw [if_pos rfl, hmap]
    refine ⟨.cons (.single ⟨command, t.replays⟩) h.undoable, hredo, rfl, fun group hgroup => ?_⟩
    cases hgroup
    exact List.forall_mem_singleton.mpr rfl
  | false =>
    obtain ⟨hopen, last, rest, merged, hundoable, hmerge, hmap, hredo⟩ :=
      History.record_merged hne hopens
    -- The latest entry stands for the latest group, to which the recording is added.
    obtain ⟨group, groups, hstands, hrest, hgroups⟩ :=
      List.forall₂_cons_left_iff.mp (hundoable ▸ h.undoable)
    have hfresh := h.fresh hopen group (by rw [hgroups]; rfl)
    rw [hgroups, if_neg Bool.false_ne_true, hmap]
    refine ⟨.cons (hstands.merge hmerge hfresh) hrest, hredo, rfl, fun group' hgroup' => ?_⟩
    cases hgroup'
    exact List.forall_mem_cons.mpr ⟨rfl, hfresh⟩

/-- **Calls that are recorded as one keep the grouping**, as long as there is room. -/
theorem Kept.edit (h : t.Kept tick) (htick : StrictMono tick) (hnotes : Keeps Editor.Notes calls)
    (hignores : Ignores SameStage calls) (hbelow : (t.edit (Editor.bundle calls)).Below) :
    (t.edit (Editor.bundle calls)).Kept tick := by
  obtain ⟨hmerging, hapart, haligned⟩ := h.toAligned.edit hnotes hignores
  have hhist := hmerging.history
  have hhist' := hapart.history
  have hkeeps := hhist' ▸ h.keepsApart.record htick
  have hnoted : t.merging.noted (Editor.bundle calls) = t.merging.noted calls := rfl
  unfold Twin.edit at haligned hbelow ⊢
  simp only [hnoted, List.isEmpty_iff] at haligned hbelow ⊢
  split at haligned <;> rename_i hempty
  · -- Nothing has been recorded.
    rw [hempty] at hhist hhist'
    have hhist : ((Editor.bundle calls).exec t.merging).2.history = t.merging.history := hhist
    have hhist' : ((Editor.bundle calls).exec t.apart).2.history = t.apart.history := hhist'
    rw [if_pos hempty]
    exact {
      toAligned := haligned
      undoable := hhist ▸ h.undoable
      redoable := hhist ▸ h.redoable
      behind := hhist' ▸ h.behind
      ahead := hhist' ▸ h.ahead
      keepsApart := hkeeps
      fresh := hhist ▸ h.fresh }
  · -- The first editor opens an entry or lets the latest grow, the second always opens one.
    rw [if_neg hempty] at hbelow ⊢
    obtain ⟨hgroups, hredo, hflatten, hfresh⟩ := h.regroup hempty (hhist ▸ hbelow.1)
    obtain ⟨hmap', hredo'⟩ :=
      History.record_opened (h.keepsApart.opens htick hempty) (hhist' ▸ hbelow.2)
    exact {
      toAligned := haligned
      undoable := hhist ▸ hgroups
      redoable := by
        show List.Forall₂ _ ((Editor.bundle calls).exec t.merging).2.history.redoable []
        rw [hhist, hredo]
        exact .nil
      behind := by
        show ((Editor.bundle calls).exec t.apart).2.history.undoable.map (·.command) = _
        rw [hhist', hmap', h.behind, hflatten]
        rfl
      ahead := by
        show ((Editor.bundle calls).exec t.apart).2.history.redoable = _
        rw [hhist', hredo']
        rfl
      keepsApart := hkeeps
      fresh := fun _ => hfresh }

theorem edit_merging : (t.edit calls).merging = (calls.exec t.merging).2 := by
  unfold Twin.edit
  dsimp only
  split <;> rfl

theorem edit_apart : (t.edit calls).apart = (calls.exec t.apart).2 := by
  unfold Twin.edit
  dsimp only
  split <;> rfl

/-- Where there is room after calls that are recorded as one, there was room before. -/
theorem Aligned.edit_below (h : t.Aligned) (hnotes : Keeps Editor.Notes calls)
    (hignores : Ignores SameStage calls) (hbelow : (t.edit (Editor.bundle calls)).Below) :
    t.Below := by
  obtain ⟨hmerging, hapart, -⟩ := h.edit hnotes hignores
  rw [Below, edit_merging, edit_apart, hmerging.history, hapart.history] at hbelow
  exact ⟨History.room_of_record hbelow.1, History.room_of_record hbelow.2⟩

theorem Kept.act (h : t.Kept tick) (htick : StrictMono tick) (action : Action)
    (hbelow : (t.edit action.perform).Below) : (t.edit action.perform).Kept tick := by
  obtain ⟨line, hline⟩ := h.merging
  obtain ⟨line', hline'⟩ := h.apart
  -- Outside a bundle an action records what a bundle of its own would.
  have hedit : t.edit action.perform = t.edit (Editor.bundle action.perform) := by
    unfold Twin.edit
    rw [action.exec_bundle hline.idle, action.exec_bundle hline'.idle]
    rfl
  rw [hedit] at hbelow ⊢
  exact h.edit htick (action.keeps Editor.respects_notes) action.ignores hbelow

/-- Where there is room after corrections, there was room before. -/
theorem Aligned.correct_below (h : t.Aligned) (documents : List (OperatorId × Json))
    (hbelow : (t.correct documents).Below) : t.Below := by
  induction documents generalizing t with
  | nil => exact hbelow
  | cons entry rest ih =>
    obtain ⟨id, document⟩ := entry
    have hsingle := Editor.single_setProperties id document
    obtain ⟨-, -, haligned⟩ := h.edit hsingle.notes hsingle.ignores
    refine h.edit_below hsingle.notes hsingle.ignores ?_
    unfold Twin.correct at hbelow
    dsimp only at hbelow
    split at hbelow
    · exact ih haligned hbelow
    · exact hbelow

theorem Kept.correct (h : t.Kept tick) (htick : StrictMono tick)
    (documents : List (OperatorId × Json)) (hbelow : (t.correct documents).Below) :
    (t.correct documents).Kept tick := by
  induction documents generalizing t with
  | nil => exact h
  | cons entry rest ih =>
    obtain ⟨id, document⟩ := entry
    have hsingle := Editor.single_setProperties id document
    obtain ⟨-, -, haligned⟩ := h.toAligned.edit hsingle.notes hsingle.ignores
    unfold Twin.correct at hbelow ⊢
    dsimp only at hbelow ⊢
    split at hbelow
    · exact ih (h.edit htick hsingle.notes hsingle.ignores (haligned.correct_below rest hbelow))
        hbelow
    · exact h.edit htick hsingle.notes hsingle.ignores hbelow

/-! ### Undo and redo -/

/-- What the first editor has nothing of, the second has nothing of. -/
theorem Matched.undoable_eq_nil (h : t.Matched) (hnil : t.merging.history.undoable = []) :
    t.apart.history.undoable = [] := by
  have hgroups := h.undoable
  rw [hnil] at hgroups
  have hbehind := h.behind
  rw [List.forall₂_nil_left_iff.mp hgroups] at hbehind
  exact List.map_eq_nil_iff.mp hbehind

theorem Matched.redoable_eq_nil (h : t.Matched) (hnil : t.merging.history.redoable = []) :
    t.apart.history.redoable = [] := by
  have hgroups := h.redoable
  rw [hnil] at hgroups
  rw [h.ahead, List.forall₂_nil_left_iff.mp hgroups]
  rfl

/-- Replays that lead both editors to one graph leave them at the same stage. -/
theorem Kept.sameStage_replays (h : t.Kept tick)
    (step : History → Draft → Except EditError Bool × History × Draft)
    (hstep : ∀ (h : History) d, h.KeepsApart tick → (step h d).2.1.KeepsApart tick) {n : Nat}
    (hgraph : ((Editor.replay step).exec t.merging).2.graph =
      ((fun e => ((Editor.replay step).exec e).2)^[n] t.apart).graph) :
    SameStage ((Editor.replay step).exec t.merging).2
        ((fun e => ((Editor.replay step).exec e).2)^[n] t.apart) ∧
      ((fun e => ((Editor.replay step).exec e).2)^[n] t.apart).history.KeepsApart tick := by
  obtain ⟨hcat, henabled, hbundled⟩ := Editor.replay_frame step t.merging
  obtain ⟨hcat', henabled', hbundled', hkeeps⟩ := Editor.replays_keepApart hstep h.keepsApart n
  exact ⟨⟨hcat.trans (h.stage.catalogue.trans hcat'.symm), hgraph,
    henabled.trans (h.stage.enabled.trans henabled'.symm),
    hbundled.trans (h.stage.bundled.trans hbundled'.symm)⟩, hkeeps⟩

theorem undo_eq_of_idle (hidle : (Editor.undo.exec t.merging).1 ≠ .ok true) :
    t.undo = { t with merging := undone t.merging, apart := undone t.apart } := by
  unfold Twin.undo
  split
  · exact absurd ‹_› hidle
  · rfl

theorem undo_eq {group : List Recording} {rest : List (List Recording)}
    (hanswer : (Editor.undo.exec t.merging).1 = .ok true) (hgroups : t.undoable = group :: rest) :
    t.undo = {
      merging := undone t.merging
      apart := undone^[group.length] t.apart
      undoable := rest
      redoable := group :: t.redoable
      replays := t.replays + 1 } := by
  unfold Twin.undo
  rw [hanswer, hgroups]

/-- **The second editor goes back by a group**, which is one command that is reversed. -/
theorem Kept.apart_back (h : t.Kept tick) (henabled : t.apart.enabled = true)
    {group : List Recording} {rest : List (List Recording)} (hgroups : t.undoable = group :: rest) :
    ∃ line : Timeline, line.Holds (undone^[group.length] t.apart) ∧
      line.past.map (·.1) = rest.flatten.map (·.command) ∧
      line.future.map (·.1) = group.reverse.map (·.command) ++ t.apart.history.redoable ∧
      Takes (Recording.whole group).undo t.apart.graph line.present := by
  obtain ⟨line, hline⟩ := h.apart
  have hpast : line.past.map (·.1) = group.map (·.command) ++ rest.flatten.map (·.command) := by
    rw [← hline.undoable, h.behind, hgroups, List.flatten_cons, List.map_append]
  obtain ⟨hthere, -⟩ := holds_undone hline henabled group.length
  obtain ⟨hbehind, hahead, hblock⟩ := Timeline.back_block hline.leadsTo hpast
  rw [List.length_map] at hbehind hahead hblock
  rw [← List.map_reverse, ← hline.redoable] at hahead
  rw [← hline.graph] at hblock
  exact ⟨_, hthere, hbehind, hahead, hblock.2⟩

/-- **An undo keeps the grouping.** -/
theorem Kept.undo (h : t.Kept tick) : t.undo.Kept tick := by
  have hstage := h.stage
  by_cases hidle : t.merging.enabled = false ∨ t.merging.history.undoable = []
  · -- Neither editor finds anything.
    have hidle' := hidle.imp hstage.enabled.symm.trans h.undoable_eq_nil
    obtain ⟨hanswer, hsame⟩ := Editor.undo_idle hidle
    rw [undo_eq_of_idle hanswer, hsame, (Editor.undo_idle hidle').2]
    exact h
  obtain ⟨hlocked, hne⟩ := not_or.mp hidle
  have henabled : t.merging.enabled = true := by simpa using hlocked
  obtain ⟨⟨_ | ⟨⟨command, origin⟩, past⟩, present, future⟩, hline⟩ := h.merging
  · exact absurd (List.map_eq_nil_iff.mp hline.undoable) hne
  obtain ⟨hanswer, hback, -⟩ := hline.undo henabled
  obtain ⟨group, rest, hstands, hrest, hgroups⟩ :=
    List.forall₂_cons_left_iff.mp (hline.undoable ▸ h.undoable)
  obtain ⟨line', hthere, hbehind, hahead, htakes⟩ :=
    h.apart_back (hstage.enabled ▸ henabled) hgroups
  -- The entry reversed does what its group reversed does, so both come to the same graph.
  have horigin : origin = line'.present := by
    rw [← hstage.graph, hline.graph] at htakes
    exact ((hstands.backward ..).mp hline.leadsTo.2.1.2).unique htakes
  obtain ⟨hstage', hkeeps⟩ := h.sameStage_replays History.undo
    (fun _ d hkept => hkept.undo d) (hback.graph.trans (horigin.trans hthere.graph.symm))
  rw [undo_eq hanswer hgroups]
  exact {
    merging := ⟨_, hback⟩
    apart := ⟨_, hthere⟩
    stage := hstage'
    undoable := by
      rw [hback.undoable]
      exact hrest
    redoable := by
      rw [hback.redoable]
      exact .cons hstands (hline.redoable ▸ h.redoable)
    behind := hthere.undoable.trans hbehind
    ahead := by
      rw [hthere.redoable, hahead, h.ahead, List.flatMap_cons, List.map_append]
    keepsApart := hkeeps
    fresh := fun hopen => absurd hopen (Editor.not_open_replay History.not_open_undo hanswer) }

theorem redo_eq_of_idle (hidle : (Editor.redo.exec t.merging).1 ≠ .ok true) :
    t.redo = { t with merging := redone t.merging, apart := redone t.apart } := by
  unfold Twin.redo
  split
  · exact absurd ‹_› hidle
  · rfl

theorem redo_eq {group : List Recording} {rest : List (List Recording)}
    (hanswer : (Editor.redo.exec t.merging).1 = .ok true) (hgroups : t.redoable = group :: rest) :
    t.redo = {
      merging := redone t.merging
      apart := redone^[group.length] t.apart
      undoable := group :: t.undoable
      redoable := rest
      replays := t.replays + 1 } := by
  unfold Twin.redo
  rw [hanswer, hgroups]

/-- **The second editor goes forward by a group**, which is one command that is carried out. -/
theorem Kept.apart_forward (h : t.Kept tick) (henabled : t.apart.enabled = true)
    {group : List Recording} {rest : List (List Recording)} (hgroups : t.redoable = group :: rest) :
    ∃ line : Timeline, line.Holds (redone^[group.length] t.apart) ∧
      line.past.map (·.1) =
        group.map (·.command) ++ t.apart.history.undoable.map (·.command) ∧
      line.future.map (·.1) = (rest.flatMap List.reverse).map (·.command) ∧
      Takes (Recording.whole group).redo t.apart.graph line.present := by
  obtain ⟨line, hline⟩ := h.apart
  -- The earliest recording of the group comes first.
  have hfuture : line.future.map (·.1) =
      (group.map (·.command)).reverse ++ (rest.flatMap List.reverse).map (·.command) := by
    rw [← hline.redoable, h.ahead, hgroups, List.flatMap_cons, List.map_append, List.map_reverse]
  obtain ⟨hthere, -⟩ := holds_redone hline henabled group.length
  obtain ⟨hbehind, hahead, hblock⟩ := Timeline.forward_block hline.leadsFrom hfuture
  rw [List.length_reverse, List.length_map] at hbehind hahead hblock
  rw [List.reverse_reverse, ← hline.undoable] at hbehind
  rw [← hline.graph] at hblock
  exact ⟨_, hthere, hbehind, hahead, hblock.1⟩

/-- **A redo keeps the grouping.** -/
theorem Kept.redo (h : t.Kept tick) : t.redo.Kept tick := by
  have hstage := h.stage
  by_cases hidle : t.merging.enabled = false ∨ t.merging.history.redoable = []
  · -- Neither editor finds anything.
    have hidle' := hidle.imp hstage.enabled.symm.trans h.redoable_eq_nil
    obtain ⟨hanswer, hsame⟩ := Editor.redo_idle hidle
    rw [redo_eq_of_idle hanswer, hsame, (Editor.redo_idle hidle').2]
    exact h
  obtain ⟨hlocked, hne⟩ := not_or.mp hidle
  have henabled : t.merging.enabled = true := by simpa using hlocked
  obtain ⟨⟨past, present, _ | ⟨⟨command, result⟩, future⟩⟩, hline⟩ := h.merging
  · exact absurd hline.redoable hne
  obtain ⟨hanswer, hforward, -⟩ := hline.redo henabled
  obtain ⟨group, rest, hstands, hrest, hgroups⟩ :=
    List.forall₂_cons_left_iff.mp (hline.redoable ▸ h.redoable)
  obtain ⟨line', hthere, hbehind, hahead, htakes⟩ :=
    h.apart_forward (hstage.enabled ▸ henabled) hgroups
  have hresult : result = line'.present := by
    rw [← hstage.graph, hline.graph] at htakes
    exact ((hstands.forward ..).mp hline.leadsFrom.2.1.1).unique htakes
  obtain ⟨hstage', hkeeps⟩ := h.sameStage_replays History.redo
    (fun _ d hkept => hkept.redo d) (hforward.graph.trans (hresult.trans hthere.graph.symm))
  rw [redo_eq hanswer hgroups]
  exact {
    merging := ⟨_, hforward⟩
    apart := ⟨_, hthere⟩
    stage := hstage'
    undoable := by
      rw [hforward.undoable]
      exact .cons hstands (hline.undoable ▸ h.undoable)
    redoable := by
      rw [hforward.redoable]
      exact hrest
    behind := by
      rw [hthere.undoable, hbehind, h.behind, List.flatten_cons, List.map_append]
    ahead := hthere.redoable.trans hahead
    keepsApart := hkeeps
    fresh := fun hopen => absurd hopen (Editor.not_open_replay History.not_open_redo hanswer) }

/-! ### Runs -/

theorem Kept.setEnabled (h : t.Kept tick) (enabled : Bool) :
    (t.exec (.setEnabled enabled)).Kept tick := by
  obtain ⟨line, hline⟩ := h.merging
  obtain ⟨line', hline'⟩ := h.apart
  have hhist (e : Editor) : (e.setEnabled enabled).history = e.history := by
    unfold Editor.setEnabled
    split <;> rfl
  exact {
    merging := ⟨line, hline.setEnabled enabled⟩
    apart := ⟨line', hline'.setEnabled enabled⟩
    stage := Editor.setEnabled_sameStage h.stage enabled
    undoable := (hhist t.merging).symm ▸ h.undoable
    redoable := (hhist t.merging).symm ▸ h.redoable
    behind := (hhist t.apart).symm ▸ h.behind
    ahead := (hhist t.apart).symm ▸ h.ahead
    keepsApart := (hhist t.apart).symm ▸ h.keepsApart
    fresh := (hhist t.merging).symm ▸ h.fresh }

theorem Kept.clearHistory (h : t.Kept tick) : (t.exec .clearHistory).Kept tick := by
  obtain ⟨line, hline⟩ := h.merging
  obtain ⟨line', hline'⟩ := h.apart
  exact {
    merging := ⟨_, hline.clear⟩
    apart := ⟨_, hline'.clear⟩
    stage := ⟨h.stage.catalogue, h.stage.graph, h.stage.enabled, h.stage.bundled⟩
    undoable := .nil
    redoable := .nil
    behind := rfl
    ahead := rfl
    keepsApart := ⟨h.keepsApart.window, h.keepsApart.clock, fun _ htime => nomatch htime⟩
    fresh := fun _ _ hgroup => nomatch hgroup }

/-- **Every call keeps the grouping**, as long as there is room. -/
theorem Kept.exec (h : t.Kept tick) (htick : StrictMono tick) (call : Editor.Call)
    (hunaware : call.Unaware) (hbelow : (t.exec call).Below) : (t.exec call).Kept tick := by
  cases call with
  | act action => exact h.act htick action hbelow
  | bundle calls hprogram =>
    exact h.edit htick (Editor.program_notes hprogram) hunaware hbelow
  | correct documents => exact h.correct htick documents hbelow
  | undo => exact h.undo
  | redo => exact h.redo
  | setEnabled enabled => exact h.setEnabled enabled
  | clearHistory => exact h.clearHistory

theorem Kept.after (h : t.Kept tick) (htick : StrictMono tick) {calls : List Editor.Call}
    (hunaware : ∀ call ∈ calls, call.Unaware)
    (hbelow : ∀ n ≤ calls.length, (t.after (calls.take n)).Below) : (t.after calls).Kept tick := by
  induction calls generalizing t with
  | nil => exact h
  | cons call rest ih =>
    obtain ⟨hcall, hrest⟩ := List.forall_mem_cons.mp hunaware
    refine ih (h.exec htick call hcall (hbelow 1 (Nat.le_add_left 1 _))) hrest fun n hn => ?_
    exact hbelow (n + 1) (Nat.succ_le_succ hn)

/-! ## Undoing entries and undoing groups -/

/-- Where there is a group, there is an entry to undo. -/
theorem Kept.undo_answers (h : t.Kept tick) (henabled : t.merging.enabled = true)
    (hne : t.undoable ≠ []) : (Editor.undo.exec t.merging).1 = .ok true := by
  obtain ⟨line, hline⟩ := h.merging
  rw [(hline.undo henabled).1]
  have hpast : line.past.isEmpty = false := by
    have hlen := h.undoable.length_eq
    rw [List.length_map, hline.length_undoable] at hlen
    rw [List.isEmpty_eq_false_iff, ← List.length_pos_iff, hlen]
    exact List.length_pos_iff.mpr hne
  rw [hpast]
  rfl

/-- **So many entries undone come to all of their groups undone.** -/
theorem Kept.back (h : t.Kept tick) {k : Nat} (hk : k ≤ t.undoable.length) :
    (undone^[(t.undoable.take k).flatten.length] t.apart).graph =
      (undone^[k] t.merging).graph := by
  cases henabled : t.merging.enabled with
  | false =>
    have henabled' : t.apart.enabled = false := h.stage.enabled ▸ henabled
    rw [Editor.undone_locked henabled, Editor.undone_locked henabled', h.stage.graph]
  | true =>
    induction k generalizing t with
    | zero => exact h.stage.graph.symm
    | succ k ih =>
      obtain ⟨group, rest, hgroups⟩ :=
        List.exists_cons_of_length_pos (Nat.lt_of_lt_of_le k.succ_pos hk)
      have hundo := undo_eq (h.undo_answers henabled (hgroups ▸ List.cons_ne_nil _ _)) hgroups
      have hrest := h.undo
      rw [hundo] at hrest
      rw [hgroups] at hk
      have hafter := ih hrest (Nat.le_of_succ_le_succ hk)
        ((Editor.replay_frame History.undo t.merging).2.1.trans henabled)
      -- The group is undone first, then all that lies before it.
      rw [hgroups, List.take_succ_cons, List.flatten_cons, List.length_append, Nat.add_comm,
        Function.iterate_add_apply, Function.iterate_succ_apply]
      exact hafter

theorem Kept.grouped (h : t.Kept tick) : t.Grouped where
  toMatched := h.toMatched
  graph := h.stage.graph.symm
  back _ := h.back
  bottom := by
    have hgroups := h.undoable.length_eq
    have hbehind := congrArg List.length h.behind
    rw [List.length_map] at hgroups
    rw [List.length_map, List.length_map] at hbehind
    have hall := h.back (Nat.le_refl _)
    rwa [List.take_length, ← hbehind, ← hgroups] at hall

/-- **Merging only groups what is recorded**: whatever is called, whatever the clock of the first
editor shows and however long its window is, as long as there is room its entries are groups of what
the second editor keeps apart, and undoing them comes to the same.  What is bundled must not look at
history, for what it does might then differ between the two. -/
theorem grouped_after (catalogue : Catalogue) (limit room window : Nat) (clock tick : Nat → Nat)
    (calls : List Editor.Call) (htick : StrictMono tick)
    (hunaware : ∀ call ∈ calls, call.Unaware)
    (hbelow : ∀ n ≤ calls.length,
      ((start catalogue limit room window clock tick).after (calls.take n)).Below) :
    ((start catalogue limit room window clock tick).after calls).Grouped :=
  ((kept_start ..).after htick hunaware hbelow).grouped

/-- An operator is dragged in two moves, the drag is undone and carried out again, and goes on with
a move and a bundle of one move. -/
theorem grouped_after_drags :
    let scan : Operator := ⟨"scan", "Scan", "1", .object [], [], [], false⟩
    let moved (x : UInt64) : Attempt Editor Unit := Editor.moveOperator "scan" ⟨⟨x⟩, 0⟩
    let calls : List Editor.Call := [.act (.addOperator scan .origin),
      .act (.moveOperator "scan" ⟨⟨1⟩, 0⟩), .act (.moveOperator "scan" ⟨⟨2⟩, 0⟩), .undo, .redo,
      .act (.moveOperator "scan" ⟨⟨3⟩, 0⟩),
      .bundle (moved 4) (.act (.moveOperator "scan" ⟨⟨4⟩, 0⟩))]
    let t := start (.ofMetadata ⟨[⟨"Scan", .object [], ⟨"Scan", none, "Input", 0, 0⟩, "1"⟩], []⟩)
      4 6 500 id id
    StrictMono (id : Nat → Nat) ∧ (∀ call ∈ calls, call.Unaware) ∧
      (∀ n ≤ calls.length, (t.after (calls.take n)).Below) ∧
      (t.after calls).merging.history.undoable.length = 3 ∧
      (t.after calls).undoable.map (·.map (·.replays)) = [[2, 2], [0, 0], [0]] ∧
      (t.after calls).Grouped := by
  intro scan moved calls t
  have hunaware : ∀ call ∈ calls, call.Unaware := by
    have hmoved : Ignores SameStage (moved 4) := (Editor.single_moveOperator _ _).ignores
    simp [calls, Editor.Call.Unaware, hmoved]
  have hbelow : ∀ n ≤ calls.length, (t.after (calls.take n)).Below := by
    unfold Below
    decide +kernel
  exact ⟨strictMono_id, hunaware, hbelow, by decide +kernel, by decide +kernel,
    grouped_after _ 4 6 500 id id calls strictMono_id hunaware hbelow⟩

end Twin

end PipelineEditor
