import Mathlib.Logic.Function.Iterate
import PipelineEditor.Proofs.Evolution

/-!
# Timelines

The commands of a history lie on a timeline: before the present graph those that can be undone,
after it those that can be redone, each with the graph it leads to when it is undone or redone.
Undo and redo move the present along the timeline, and every recorded command cuts off what lay
ahead.

## Main definitions

* `Timeline`, `Timeline.back`, `Timeline.forward`: a timeline, and the moves along it
* `Timeline.Holds`: the editor stands at the present of the timeline
* `Editor.Notes`: what calls in a bundle do is what the bundle notes

## Main results

* `Timeline.forward_back_iterate`, `Timeline.back_forward_iterate`: moves there and back again
* `Timeline.back_block`, `Timeline.forward_block`: several commands back or forward as one
* `Timeline.Holds.undo`, `Timeline.Holds.redo`: replays succeed, and are moves along the timeline
* `Editor.exec_bundle_records`: a bundle does what it records
-/

namespace PipelineEditor

open Attempt (Keeps)
open Draft (Takes)

/-- The commands before and after the present graph, the nearest first.  Each comes with the graph
at its far end. -/
structure Timeline where
  past : List (Command × Graph)
  present : Graph
  future : List (Command × Graph)

namespace Timeline

/-! ## Moves along a timeline -/

/-- One command back, if there is one. -/
def back : Timeline → Timeline
  | ⟨(command, origin) :: past, present, future⟩ => ⟨past, origin, (command, present) :: future⟩
  | t => t

/-- One command forward, if there is one. -/
def forward : Timeline → Timeline
  | ⟨past, present, (command, result) :: future⟩ => ⟨(command, present) :: past, result, future⟩
  | t => t

theorem forward_back {t : Timeline} (h : 0 < t.past.length) :
    t.back.forward = t ∧ t.back.past.length + 1 = t.past.length := by
  obtain ⟨_ | ⟨⟨command, origin⟩, past⟩, present, future⟩ := t
  · cases h
  · exact ⟨rfl, rfl⟩

theorem back_forward {t : Timeline} (h : 0 < t.future.length) :
    t.forward.back = t ∧ t.forward.future.length + 1 = t.future.length := by
  obtain ⟨past, present, _ | ⟨⟨command, result⟩, future⟩⟩ := t
  · cases h
  · exact ⟨rfl, rfl⟩

/-- So many commands back and forward again end where they started. -/
theorem forward_back_iterate {k : Nat} {t : Timeline} (h : k ≤ t.past.length) :
    forward^[k] (back^[k] t) = t := by
  induction k generalizing t with
  | zero => rfl
  | succ k ih =>
    obtain ⟨hreturn, hlen⟩ := forward_back (t := t) (by omega)
    rw [Function.iterate_succ_apply', Function.iterate_succ_apply, ih (by omega), hreturn]

/-- So many commands forward and back again end where they started. -/
theorem back_forward_iterate {k : Nat} {t : Timeline} (h : k ≤ t.future.length) :
    back^[k] (forward^[k] t) = t := by
  induction k generalizing t with
  | zero => rfl
  | succ k ih =>
    obtain ⟨hreturn, hlen⟩ := back_forward (t := t) (by omega)
    rw [Function.iterate_succ_apply', Function.iterate_succ_apply, ih (by omega), hreturn]

/-! ## Sound timelines -/

/-- The commands, from the latest on, lead to a graph. -/
def LeadsTo (catalogue : Catalogue) : List (Command × Graph) → Graph → Prop
  | [], _ => True
  | (command, origin) :: rest, g =>
    origin.WellFormed catalogue ∧ command.Swaps origin g ∧ LeadsTo catalogue rest origin

/-- The commands, from the next on, lead away from a graph. -/
def LeadsFrom (catalogue : Catalogue) : List (Command × Graph) → Graph → Prop
  | [], _ => True
  | (command, result) :: rest, g =>
    result.WellFormed catalogue ∧ command.Swaps g result ∧ LeadsFrom catalogue rest result

theorem LeadsTo.take {catalogue : Catalogue} {past : List (Command × Graph)} {g : Graph}
    (h : LeadsTo catalogue past g) (n : Nat) : LeadsTo catalogue (past.take n) g := by
  induction past generalizing g n with
  | nil => rwa [List.take_nil]
  | cons entry rest ih =>
    cases n with
    | zero => trivial
    | succ n => exact ⟨h.1, h.2.1, ih h.2.2 n⟩

section

variable {catalogue : Catalogue} {t : Timeline} {block rest : List Command}

/-- **Several commands back** are one command that is reversed. -/
theorem back_block (h : LeadsTo catalogue t.past t.present)
    (hpast : t.past.map (·.1) = block ++ rest) :
    (back^[block.length] t).past.map (·.1) = rest ∧
      (back^[block.length] t).future.map (·.1) = block.reverse ++ t.future.map (·.1) ∧
      Command.Swaps block.reverse.flatten (back^[block.length] t).present t.present := by
  induction block generalizing t with
  | nil => exact ⟨hpast, rfl, .nil _⟩
  | cons command block ih =>
    obtain ⟨past, present, future⟩ := t
    obtain ⟨⟨command', origin⟩, past, rfl, rfl, hbehind⟩ := List.map_eq_cons_iff.mp hpast
    obtain ⟨-, hswaps, hbefore⟩ := h
    obtain ⟨hrest, hahead, hblock⟩ := ih (t := ⟨past, origin, (command', present) :: future⟩)
      hbefore hbehind
    rw [List.length_cons, Function.iterate_succ_apply]
    refine ⟨hrest, hahead.trans ?_, ?_⟩
    · rw [List.reverse_cons, List.append_assoc]
      rfl
    · rw [List.reverse_cons, List.flatten_concat]
      exact hblock.append hswaps

/-- **Several commands forward** are one command that is carried out. -/
theorem forward_block (h : LeadsFrom catalogue t.future t.present)
    (hfuture : t.future.map (·.1) = block ++ rest) :
    (forward^[block.length] t).past.map (·.1) = block.reverse ++ t.past.map (·.1) ∧
      (forward^[block.length] t).future.map (·.1) = rest ∧
      Command.Swaps block.flatten t.present (forward^[block.length] t).present := by
  induction block generalizing t with
  | nil => exact ⟨rfl, hfuture, .nil _⟩
  | cons command block ih =>
    obtain ⟨past, present, future⟩ := t
    obtain ⟨⟨command', result⟩, future, rfl, rfl, hahead⟩ := List.map_eq_cons_iff.mp hfuture
    obtain ⟨-, hswaps, hafter⟩ := h
    obtain ⟨hbehind, hrest, hblock⟩ := ih (t := ⟨(command', present) :: past, result, future⟩)
      hafter hahead
    rw [List.length_cons, Function.iterate_succ_apply]
    refine ⟨hbehind.trans ?_, hrest, ?_⟩
    · rw [List.reverse_cons, List.append_assoc]
      rfl
    · rw [List.flatten_cons]
      exact hswaps.append hblock

end

/-- **The editor stands at the present of the timeline**: history holds its commands and no more
than fit, and each of them leads back and forth between the graphs at its ends. -/
structure Holds (t : Timeline) (e : Editor) : Prop where
  idle : e.bundled = none
  graph : e.graph = t.present
  wellFormed : t.present.WellFormed e.catalogue
  undoable : e.history.undoable.map (·.command) = t.past.map (·.1)
  redoable : e.history.redoable = t.future.map (·.1)
  leadsTo : LeadsTo e.catalogue t.past t.present
  leadsFrom : LeadsFrom e.catalogue t.future t.present
  bound : t.past.length + t.future.length ≤ e.history.limit

/-- A new editor is on the timeline of an empty pipeline. -/
theorem holds_start (catalogue : Catalogue) (limit window : Nat) (clock : Nat → Nat) :
    Holds ⟨[], .empty, []⟩ (Editor.start catalogue limit window clock) where
  idle := rfl
  graph := rfl
  wellFormed := Graph.wellFormed_empty catalogue
  undoable := rfl
  redoable := rfl
  leadsTo := trivial
  leadsFrom := trivial
  bound := Nat.zero_le _

variable {t : Timeline} {e : Editor}

theorem Holds.length_undoable (h : t.Holds e) : e.history.undoable.length = t.past.length := by
  have hlen := congrArg List.length h.undoable
  rwa [List.length_map, List.length_map] at hlen

theorem Holds.length_redoable (h : t.Holds e) : e.history.redoable.length = t.future.length := by
  rw [h.redoable, List.length_map]

/-- What stays the same as history is replayed. -/
def SameFrame (e e' : Editor) : Prop :=
  e'.catalogue = e.catalogue ∧ e'.enabled = e.enabled ∧ e'.history.limit = e.history.limit

theorem exec_replay {step : History → Draft → Except EditError Bool × History × Draft}
    (henabled : e.enabled = true) : (Editor.replay step).exec e =
      ((step e.history e.draft).1,
        { e with history := (step e.history e.draft).2.1, draft := (step e.history e.draft).2.2 })
    := by
  unfold Editor.replay
  rw [Editor.exec_requireEnabled_bind, if_pos henabled]
  rfl

/-- While the pipeline is locked, history is not replayed. -/
theorem exec_replay_locked {step : History → Draft → Except EditError Bool × History × Draft}
    (hlocked : e.enabled = false) : (Editor.replay step).exec e = (.error .locked, e) := by
  unfold Editor.replay
  rw [Editor.exec_requireEnabled_bind, hlocked]
  rfl

/-- **Undo succeeds and is a move back along the timeline.** -/
theorem Holds.undo (h : t.Holds e) (henabled : e.enabled = true) :
    (Editor.undo.exec e).1 = .ok (!t.past.isEmpty) ∧ t.back.Holds (Editor.undo.exec e).2 ∧
      SameFrame e (Editor.undo.exec e).2 := by
  have hgraph := h.graph
  have hundoable := h.undoable
  unfold Editor.undo
  rw [exec_replay henabled]
  obtain ⟨past, present, future⟩ := t
  cases past with
  | nil =>
    -- Nothing to undo: the editor stays where it is.
    have hnone : e.history.undoable = [] := List.map_eq_nil_iff.mp hundoable
    unfold History.undo
    rw [hnone]
    exact ⟨rfl, h, rfl, rfl, rfl⟩
  | cons entry past =>
    obtain ⟨command, origin⟩ := entry
    obtain ⟨last, rest, hcons, rfl, hrest⟩ := List.map_eq_cons_iff.mp hundoable
    obtain ⟨horigin, hswaps, hpast⟩ := h.leadsTo
    obtain ⟨d', hexec, hd'⟩ := hswaps.2.exec hgraph
    unfold History.undo
    rw [hcons]
    dsimp only
    rw [hexec]
    refine ⟨rfl, ?_, rfl, rfl, rfl⟩
    exact {
      idle := h.idle
      graph := hd'
      wellFormed := horigin
      undoable := (History.map_command_sealTop rest).trans hrest
      redoable := congrArg _ h.redoable
      leadsTo := hpast
      leadsFrom := ⟨h.wellFormed, hswaps, h.leadsFrom⟩
      bound := by
        have hbound := h.bound
        simp only [List.length_cons, back] at hbound ⊢
        omega }

/-- **Redo succeeds and is a move forward along the timeline**; there is room for the entry. -/
theorem Holds.redo (h : t.Holds e) (henabled : e.enabled = true) :
    (Editor.redo.exec e).1 = .ok (!t.future.isEmpty) ∧ t.forward.Holds (Editor.redo.exec e).2 ∧
      SameFrame e (Editor.redo.exec e).2 ∧
      (t.future ≠ [] → (Editor.redo.exec e).2.history.undoable.tail = e.history.undoable) := by
  have hgraph := h.graph
  have hredoable := h.redoable
  have hlen := h.length_undoable
  unfold Editor.redo
  rw [exec_replay henabled]
  obtain ⟨past, present, future⟩ := t
  cases future with
  | nil =>
    have hnone : e.history.redoable = [] := hredoable
    unfold History.redo
    rw [hnone]
    exact ⟨rfl, h, ⟨rfl, rfl, rfl⟩, fun hne => absurd rfl hne⟩
  | cons entry future =>
    obtain ⟨command, result⟩ := entry
    have hcons : e.history.redoable = command :: future.map (·.1) := hredoable
    obtain ⟨hresult, hswaps, hfuture⟩ := h.leadsFrom
    obtain ⟨d', hexec, hd'⟩ := hswaps.1.exec hgraph
    have hbound := h.bound
    simp only [List.length_cons] at hbound hlen
    unfold History.redo
    rw [hcons]
    dsimp only
    rw [hexec]
    unfold History.push
    dsimp only
    -- The entry was within the limit before it was undone, so there is room for it.
    rw [List.take_of_length_le (by rw [List.length_cons, hlen]; omega)]
    refine ⟨rfl, ?_, ⟨rfl, rfl, rfl⟩, fun _ => rfl⟩
    exact {
      idle := h.idle
      graph := hd'
      wellFormed := hresult
      undoable := congrArg _ h.undoable
      redoable := rfl
      leadsTo := ⟨h.wellFormed, hswaps, h.leadsTo⟩
      leadsFrom := hfuture
      bound := by
        simp only [List.length_cons, forward]
        omega }

end Timeline

/-! ## What recording does to a timeline -/

namespace History

/-- Whether recording the command opens an entry: it has changes, and they are not merged into the
latest entry. -/
def opens (h : History) (command : Command) : Bool :=
  !command.isEmpty && (h.merge? command).isNone

/-- What could be redone plays no part in a merge. -/
theorem merge?_forgetting (h : History) (command : Command) :
    merge? { h with redoable := [] } command =
      (h.merge? command).map fun h' => { h' with redoable := [] } := by
  unfold merge?
  dsimp only
  split
  · rename_i last rest _
    have hnow : now { h with redoable := [] } = h.now := rfl
    rw [hnow]
    split
    · rw [Option.map_map]
      rfl
    · rfl
  · rfl

/-- What recording does: nothing, or the latest entry grows, or a new one is opened. -/
theorem record_cases (h : History) (command : Command) :
    (command = [] ∧ h.record command = h ∧ h.opens command = false) ∨
    (∃ last rest merged h', h.undoable = last :: rest ∧
      last.command.merge? command = some merged ∧ h.record command = h' ∧
      h'.undoable.map (·.command) = merged :: rest.map (·.command) ∧ h'.redoable = [] ∧
      h'.limit = h.limit ∧ h.opens command = false) ∨
    (∃ h', h.record command = h' ∧
      h'.undoable.map (·.command) = (command :: h.undoable.map (·.command)).take h.limit ∧
      h'.redoable = [] ∧ h'.limit = h.limit ∧ h.opens command = true) := by
  by_cases hempty : command.isEmpty = true
  · refine .inl ⟨List.isEmpty_iff.mp hempty, if_pos hempty, ?_⟩
    rw [opens, hempty]
    rfl
  · rw [record, if_neg hempty]
    dsimp only
    rw [merge?_forgetting]
    cases hmerge : h.merge? command with
    | none =>
      refine .inr (.inr ⟨_, rfl, ?_, rfl, rfl, ?_⟩)
      · simp [push, List.map_take]
      · rw [opens, hmerge, Bool.eq_false_iff.mpr hempty]
        rfl
    | some h' =>
      obtain ⟨last, rest, merged, hundoable, hmerged, rfl⟩ := merge?_eq_some h hmerge
      refine .inr (.inl ⟨last, rest, merged, _, hundoable, hmerged, rfl, rfl, rfl, rfl, ?_⟩)
      rw [opens, hmerge]
      exact Bool.and_false _

theorem record_limit (h : History) (command : Command) : (h.record command).limit = h.limit := by
  rcases h.record_cases command with ⟨-, hrecord, -⟩ |
    ⟨_, _, _, h', -, -, hrecord, -, -, hlimit, -⟩ | ⟨h', hrecord, -, -, hlimit, -⟩
  · rw [hrecord]
  · rw [hrecord, hlimit]
  · rw [hrecord, hlimit]

end History

namespace Editor

/-- **What calls in a bundle do is what the bundle notes**: history is left alone, and the changes
noted lead from the graph before to the graph after. -/
def Notes (e e' : Editor) : Prop :=
  ∀ changes, e.bundled = some changes → e.graph.WellFormed e.catalogue →
    e'.catalogue = e.catalogue ∧ e'.history = e.history ∧ e'.graph.WellFormed e.catalogue ∧
      ∃ more, e'.bundled = some (changes ++ more) ∧ Command.Swaps more e.graph e'.graph

instance : Std.Refl Notes where
  refl e changes hbundled hwf :=
    ⟨rfl, rfl, hwf, [], by rw [hbundled, List.append_nil], .nil e.graph⟩

instance : IsTrans Editor Notes where
  trans := by
    intro e e' e'' h h' changes hbundled hwf
    obtain ⟨hcat, hhist, hwf', more, hmore, hswaps⟩ := h changes hbundled hwf
    obtain ⟨hcat', hhist', hwf'', more', hmore', hswaps'⟩ :=
      h' (changes ++ more) hmore (hcat ▸ hwf')
    refine ⟨hcat'.trans hcat, hhist'.trans hhist, hcat ▸ hwf'', more ++ more', ?_, ?_⟩
    · rw [hmore', List.append_assoc]
    · exact hswaps.append hswaps'

/-- A single call in a bundle notes the one change that it carries out. -/
theorem Single.notes {call : Attempt Editor Unit} (hcall : Single call) : Keeps Notes call := by
  obtain ⟨choice, hsound, hexec⟩ := hcall
  intro e changes hbundled hwf
  rw [hexec]
  rcases hchoice : choice e.catalogue e.enabled e.graph with cause | _ | change
  · exact refl_of Notes e changes hbundled hwf
  · exact refl_of Notes e changes hbundled hwf
  · obtain ⟨hfits, hfaithful, g', htakes⟩ := hsound hwf hchoice
    obtain ⟨d', happly, hd'⟩ := htakes.exec (d := e.draft) rfl
    have hsteps := Change.apply_keeps hfits e.draft
    rw [happly] at hsteps
    rw [carryOut, exec_commit, happly]
    unfold note
    dsimp only
    rw [hbundled]
    refine ⟨rfl, rfl, hsteps.wellFormed hwf, [change], rfl, ?_⟩
    have hgraph : graph { e with draft := d', bundled := some (changes ++ [change]) } = g' := hd'
    rw [hgraph]
    exact .singleton hwf.toCoherent hfaithful htakes

theorem respects_notes : Respects Notes where
  single := Single.notes
  bundle hcalls := by
    intro e changes hbundled
    rw [exec_bundle_some hbundled]
    exact hcalls e changes hbundled

theorem setEnabled_notes (enabled : Bool) (e : Editor) : Notes e (e.setEnabled enabled) := by
  unfold setEnabled
  split
  · exact refl_of Notes e
  · exact fun changes hbundled hwf =>
      ⟨rfl, rfl, hwf, [], by rw [hbundled, List.append_nil], .nil e.graph⟩

/-- In a bundle, programs that edit and lock or unlock do what they note. -/
theorem program_notes {α : Type} {calls : Attempt Editor α} (h : Program (· = .lock) calls) :
    Keeps Notes calls :=
  h.keeps respects_notes nofun nofun nofun fun _ => setEnabled_notes

/-- What calls note as a bundle of their own; nothing if they fail. -/
def noted {α : Type} (calls : Attempt Editor α) (e : Editor) : Command :=
  match calls.exec { e with bundled := some [] } with
  | (.ok _, e') => e'.bundled.getD []
  | (.error _, _) => []

/-- The editor has carried a command out and recorded it. -/
structure Records (e : Editor) (command : Command) (e' : Editor) : Prop where
  idle : e'.bundled = none
  catalogue : e'.catalogue = e.catalogue
  history : e'.history = e.history.record command
  wellFormed : e'.graph.WellFormed e.catalogue
  swaps : command.Swaps e.graph e'.graph

/-- **A bundle does what its calls have noted**, and records it on the history that they have
left. -/
theorem records_of_notes {α : Type} {calls : Attempt Editor α} {e e' : Editor}
    {result : Except EditError α} (hidle : e.bundled = none) (hwf : e.graph.WellFormed e.catalogue)
    (hexec : calls.exec { e with bundled := some [] } = (result, e'))
    (hnotes : Notes { e with bundled := some [] } { e' with history := e.history }) :
    Records { e with history := e'.history } (noted calls e) ((bundle calls).exec e).2 := by
  obtain ⟨hcat, -, hwf', more, hmore, hswaps⟩ := hnotes [] rfl hwf
  have hmore : e'.bundled = some more := hmore
  rw [exec_bundle_none hidle, noted, hexec]
  rcases result with cause | value <;> dsimp only <;> rw [hmore, Option.getD_some]
  · -- The calls have failed: what they noted is taken back.
    obtain ⟨d', hundo, hd'⟩ := hswaps.2.exec (d := e'.draft) rfl
    have hgraph : graph { e' with bundled := none, draft := d' } = e.graph := hd'
    rw [hundo]
    refine ⟨rfl, hcat, rfl, ?_, ?_⟩
    · rw [hgraph]
      exact hwf
    · rw [hgraph]
      exact .nil e.graph
  · exact ⟨rfl, hcat, rfl, hwf', hswaps⟩

/-- **A bundle does what it records**; one that fails does nothing. -/
theorem exec_bundle_records {α : Type} {calls : Attempt Editor α} (hcalls : Keeps Notes calls)
    {e : Editor} (hidle : e.bundled = none) (hwf : e.graph.WellFormed e.catalogue) :
    e.Records (noted calls e) ((bundle calls).exec e).2 := by
  have hnotes := hcalls { e with bundled := some [] }
  rcases hexec : calls.exec { e with bundled := some [] } with ⟨result, e'⟩
  rw [hexec] at hnotes
  -- The calls leave history alone.
  obtain ⟨-, hhist, -⟩ := hnotes [] rfl hwf
  have hhist : e'.history = e.history := hhist
  have hsame : { e' with history := e.history } = e' := by rw [← hhist]
  have hrecords := records_of_notes hidle hwf hexec (hsame.symm ▸ hnotes)
  rwa [hhist] at hrecords

/-- Calls that fail note nothing in the end. -/
theorem noted_eq_nil {α : Type} {calls : Attempt Editor α} {e e' : Editor} {cause : EditError}
    (hidle : e.bundled = none) (hexec : (bundle calls).exec e = (.error cause, e')) :
    noted calls e = [] := by
  rw [exec_bundle_none hidle] at hexec
  unfold noted
  rcases hcalls : calls.exec { e with bundled := some [] } with ⟨cause | value, e''⟩
  · rfl
  · rw [hcalls] at hexec
    cases hexec

/-- Where nothing is recorded, nothing has happened. -/
theorem Records.nothing {e e' : Editor} (h : e.Records [] e') :
    e'.graph = e.graph ∧ e'.history = e.history :=
  ⟨h.swaps.1.unique (.pure _), h.history⟩

/-- A bundle that fails leaves graph and history as they were. -/
theorem exec_bundle_refused {α : Type} {calls : Attempt Editor α} (hcalls : Keeps Notes calls)
    {e e' : Editor} {cause : EditError} (hidle : e.bundled = none)
    (hwf : e.graph.WellFormed e.catalogue) (hexec : (bundle calls).exec e = (.error cause, e')) :
    e'.graph = e.graph ∧ e'.history = e.history := by
  have hrecords := exec_bundle_records hcalls hidle hwf
  rw [hexec, noted_eq_nil hidle hexec] at hrecords
  exact hrecords.nothing

end Editor

namespace Timeline

variable {t : Timeline} {e e' : Editor} {command : Command}

theorem Holds.setEnabled (h : t.Holds e) (enabled : Bool) : t.Holds (e.setEnabled enabled) := by
  unfold Editor.setEnabled
  split
  · exact h
  · exact ⟨h.idle, h.graph, h.wellFormed, h.undoable, h.redoable, h.leadsTo, h.leadsFrom, h.bound⟩

/-- Forgetting history leaves a timeline that is all present. -/
theorem Holds.clear (h : t.Holds e) : Holds ⟨[], t.present, []⟩ e.clearHistory :=
  ⟨h.idle, h.graph, h.wellFormed, rfl, rfl, trivial, trivial, Nat.zero_le _⟩

/-- **Recording a command keeps the editor on a timeline**: what lay ahead is cut off, and where an
entry was opened, the graph from before is at its far end. -/
theorem Holds.record (h : t.Holds e) (hrecords : e.Records command e') :
    ∃ t' : Timeline, t'.Holds e' ∧ t'.past.map (·.2) =
      if e.history.opens command then (e.graph :: t.past.map (·.2)).take e.history.limit
      else t.past.map (·.2) := by
  obtain ⟨hidle, hcat, hhist, hwf, hswaps⟩ := hrecords
  have hundoable := h.undoable
  have hbound := h.bound
  rw [h.graph] at hswaps
  rcases e.history.record_cases command with ⟨rfl, hrecord, hopens⟩ |
    ⟨last, rest, merged, h', hcons, hmerge, hrecord, hmap, hredo, hlimit, hopens⟩ |
    ⟨h', hrecord, hmap, hredo, hlimit, hopens⟩
  · -- Nothing is recorded, and what lies ahead stays.
    have hgraph : e'.graph = t.present := hswaps.1.unique (.pure _)
    rw [hrecord] at hhist
    refine ⟨t, ?_, by rw [hopens]; rfl⟩
    exact {
      idle := hidle
      graph := hgraph
      wellFormed := hcat ▸ h.wellFormed
      undoable := hhist ▸ h.undoable
      redoable := hhist ▸ h.redoable
      leadsTo := hcat ▸ h.leadsTo
      leadsFrom := hcat ▸ h.leadsFrom
      bound := hhist ▸ h.bound }
  · -- The latest entry grows; it still starts from the graph from before its first move.
    obtain ⟨past, present, future⟩ := t
    rw [hcons] at hundoable
    obtain ⟨⟨command', origin⟩, past, rfl, hcommand, hpast⟩ :=
      List.map_eq_cons_iff.mp hundoable.symm
    obtain ⟨horigin, hswaps', hbefore⟩ := h.leadsTo
    obtain rfl : command' = last.command := hcommand
    refine ⟨⟨(merged, origin) :: past, e'.graph, []⟩, ?_, by rw [hopens]; rfl⟩
    exact {
      idle := hidle
      graph := rfl
      wellFormed := hcat ▸ hwf
      undoable := by rw [hhist, hrecord, hmap, List.map_cons, hpast]
      redoable := by rw [hhist, hrecord, hredo]; rfl
      leadsTo := hcat ▸ ⟨horigin, .merge hmerge hswaps' hswaps, hbefore⟩
      leadsFrom := trivial
      bound := by
        rw [hhist, hrecord, hlimit]
        simp only [List.length_cons, List.length_nil] at hbound ⊢
        omega }
  · -- A new entry is opened, and the oldest may have to go.
    refine ⟨⟨((command, t.present) :: t.past).take e.history.limit, e'.graph, []⟩, ?_, ?_⟩
    · have hleads : LeadsTo e.catalogue ((command, t.present) :: t.past) e'.graph :=
        ⟨h.wellFormed, hswaps, h.leadsTo⟩
      exact {
        idle := hidle
        graph := rfl
        wellFormed := hcat ▸ hwf
        undoable := by rw [hhist, hrecord, hmap, hundoable, List.map_take, List.map_cons]
        redoable := by rw [hhist, hrecord, hredo]; rfl
        leadsTo := hcat ▸ hleads.take _
        leadsFrom := trivial
        bound := by
          rw [hhist, hrecord, hlimit, List.length_take]
          exact Nat.min_le_left _ _ }
    · rw [hopens, if_pos rfl, List.map_take, List.map_cons, h.graph]

end Timeline

end PipelineEditor
