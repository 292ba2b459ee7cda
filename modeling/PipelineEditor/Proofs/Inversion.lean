import Mathlib.Data.List.Nodup
import PipelineEditor.Proofs.Evolution

/-!
# Changes that can be taken back and forth

The inverse of a faithful change puts the graph back, and is itself faithful to the graph that the
change leaves: what an addition puts on the canvas is all that its inverse records, and what a
deletion has taken away is not there any more.  So a change can be taken back, carried out again and
so on, and a command whose changes are each faithful when their turn comes is undone exactly.

## Main definitions

* `Command.Faithful g`: each change of the command is faithful when its turn comes

## Main results

* `Graph.Coherent.perm_saved_restore`: a link that is put back is recorded along with its ends
* `Change.Faithful.inverse`: the inverse of a faithful change is faithful to the changed graph
* `Command.Faithful.swaps`: a command of faithful changes leads back and forth
* `Graph.Coherent.inverted`: changes are reversed by their inverses, and commands by their undo
-/

namespace PipelineEditor

open Draft (Takes Uniform)

/-! ## Links with their breakpoints -/

namespace Graph

variable {g : Graph}

/-- What is saved of the links at an operator. -/
theorem Coherent.mem_saved_linksAt (h : g.Coherent) {id : OperatorId} {saved : SavedLink} :
    saved ∈ (g.linksAt id).map g.saved ↔ g.links.get? saved.link.id = some saved.link ∧
      saved.link.touches id = true ∧ saved.breakpoint = g.breakpoints.get? saved.link.id := by
  rw [List.mem_map]
  constructor
  · rintro ⟨link, hlink, rfl⟩
    obtain ⟨hget, htouch⟩ := h.mem_linksAt.mp hlink
    exact ⟨hget, htouch, rfl⟩
  · rintro ⟨hget, htouch, hbp⟩
    refine ⟨saved.link, h.mem_linksAt.mpr ⟨hget, htouch⟩, ?_⟩
    rw [Graph.saved, ← hbp]

theorem Coherent.nodup_saved_linksAt (h : g.Coherent) (id : OperatorId) :
    ((g.linksAt id).map g.saved).Nodup := by
  have hids : (((g.linksAt id).map g.saved).map (·.link.id)).Nodup := by
    rw [List.map_map]
    exact h.nodup_linksAt id
  exact hids.of_map

/-- A link that is put back has the breakpoint it was saved with. -/
theorem Coherent.get?_restore_breakpoints_self (h : g.Coherent) {saved : SavedLink}
    (hfree : g.links.get? saved.link.id = none) :
    (g.restore saved).breakpoints.get? saved.link.id = saved.breakpoint := by
  rw [get?_restore_breakpoints, if_pos rfl, h.get?_breakpoints_eq_none hfree]
  cases saved.breakpoint <;> rfl

/-- **A link that is put back is saved along with the others at its end.** -/
theorem Coherent.perm_saved_restore (h : g.Coherent) {saved : SavedLink} {id : OperatorId}
    (hok : g.checkLink saved.link = .ok ()) (htouch : saved.link.touches id = true) :
    (((g.restore saved).linksAt id).map (g.restore saved).saved).Perm
      (saved :: (g.linksAt id).map g.saved) := by
  have hfree := (checkLink_eq_ok_iff.mp hok).1
  have hback := h.restore hok
  have hfresh : saved ∉ (g.linksAt id).map g.saved := fun hmem => by
    cases hfree.symm.trans (h.mem_saved_linksAt.mp hmem).1
  refine (List.perm_ext_iff_of_nodup (hback.nodup_saved_linksAt id)
    (List.nodup_cons.mpr ⟨hfresh, h.nodup_saved_linksAt id⟩)).mpr fun other => ?_
  rw [hback.mem_saved_linksAt, List.mem_cons, h.mem_saved_linksAt, get?_restore_links]
  by_cases hid : saved.link.id = other.link.id
  · -- The name was free, so what is saved under it now is what was put back.
    rw [if_pos hid, ← hid, hfree, h.get?_restore_breakpoints_self hfree]
    constructor
    · rintro ⟨hlink, -, hbp⟩
      obtain ⟨link, breakpoint⟩ := other
      obtain rfl : saved.link = link := Option.some.inj hlink
      obtain rfl : breakpoint = saved.breakpoint := hbp
      exact .inl rfl
    · rintro (rfl | ⟨hget, -⟩)
      · exact ⟨rfl, htouch, rfl⟩
      · cases hget
  · rw [if_neg hid, get?_restore_breakpoints, if_neg hid]
    refine ⟨.inr, fun hcases => hcases.resolve_left ?_⟩
    rintro rfl
    exact hid rfl

end Graph

/-! ## Inverses are faithful -/

namespace Change

variable {g g' : Graph}

/-- **What links that are put back at an operator leave**: they are saved along with those that were
there, and operators stay where they are. -/
theorem saved_of_takes {id : OperatorId} {links : List SavedLink} (h : g.Coherent)
    (htouch : ∀ saved ∈ links, saved.link.touches id = true)
    (htakes : Takes (links.forM restoreLink) g g') :
    g'.Coherent ∧ g'.operators = g.operators ∧ g'.positions = g.positions ∧
      ((g'.linksAt id).map g'.saved).Perm (links ++ (g.linksAt id).map g.saved) := by
  induction links generalizing g with
  | nil =>
    obtain rfl := htakes.unique (.pure g)
    exact ⟨h, rfl, rfl, .refl _⟩
  | cons saved rest ih =>
    obtain ⟨middle, hfirst, hrest⟩ :=
      (Draft.takes_bind_iff (uniform_restoreLink saved) (.forM uniform_restoreLink rest)).mp htakes
    obtain ⟨hok, rfl⟩ := takes_restoreLink_iff.mp hfirst
    obtain ⟨hcoherent, hops, hpos, hall⟩ := ih (h.restore hok)
      (fun other hmem => htouch other (List.mem_cons_of_mem _ hmem)) hrest
    have hone := h.perm_saved_restore hok (htouch saved List.mem_cons_self)
    exact ⟨hcoherent, hops, hpos, hall.trans ((hone.append_left rest).trans List.perm_middle)⟩

namespace Faithful

/-- **An addition leaves at the operator just the links that it has put back**, so its inverse
records all that there is. -/
theorem of_addOperator {op : Operator} {position : Point} {links : List SavedLink}
    (h : g.Coherent) (hf : (addOperator op position links).Faithful g)
    (happly : Takes (addOperator op position links).apply g g') :
    g'.Coherent ∧ (deleteOperator op position links).Faithful g' := by
  obtain ⟨hfree, htouch⟩ := hf
  obtain ⟨middle, hadd, hlinks⟩ :=
    (Draft.takes_bind_iff (.mutate _) (.forM uniform_restoreLink links)).mp happly
  obtain ⟨-, rfl⟩ := Draft.takes_addOperator_iff.mp hadd
  have hadded := h.addOperator position hfree
  -- Before the links are put back, none has an end at the operator.
  have hnone : Graph.linksAt { g with
      operators := g.operators.insert op.id op
      positions := g.positions.insert op.id position } op.id = [] := by
    refine List.eq_nil_iff_forall_not_mem.mpr fun link hlink => ?_
    obtain ⟨hget, htouched⟩ := hadded.mem_linksAt.mp hlink
    rw [h.touches_eq_false hfree hget] at htouched
    cases htouched
  obtain ⟨hcoherent, hops, hpos, hsaved⟩ := saved_of_takes hadded htouch hlinks
  rw [hnone, List.map_nil, List.append_nil] at hsaved
  refine ⟨hcoherent, ?_, ?_, hsaved.symm⟩
  · rw [hops, Dict.get?_insert_self]
  · rw [hpos, Dict.get?_insert_self]

/-- **The inverse of a faithful change is faithful to the changed graph**, which is coherent
still. -/
theorem inverse {change : Change} (h : g.Coherent) (hf : change.Faithful g)
    (happly : Takes change.apply g g') : g'.Coherent ∧ change.inverse.Faithful g' := by
  cases change with
  | addOperator op position links => exact of_addOperator h hf happly
  | deleteOperator op position links =>
    obtain ⟨-, -, hlinks⟩ := hf
    obtain ⟨-, rfl⟩ := Draft.takes_deleteOperator_iff.mp happly
    -- The ID is free once the operator is gone, and each link that was saved was at the operator.
    refine ⟨h.deleteOperator op.id, ?_, fun saved hmem => ?_⟩
    · rw [Graph.withoutOperator_operators, Dict.get?_erase_self]
    · exact (h.mem_saved_linksAt.mp (hlinks.mem_iff.mp hmem)).2.1
  | addLink saved =>
    obtain ⟨hok, rfl⟩ := takes_restoreLink_iff.mp happly
    have hfree := (Graph.checkLink_eq_ok_iff.mp hok).1
    refine ⟨h.restore hok, ?_, ?_⟩
    · rw [Graph.get?_restore_links, if_pos rfl]
    · exact (h.get?_restore_breakpoints_self hfree).symm
  | deleteLink saved =>
    obtain ⟨-, rfl⟩ := Draft.takes_deleteLink_iff.mp happly
    exact ⟨h.deleteLink hf.1, trivial⟩
  | setProperties id old new =>
    obtain ⟨op, hget, rfl⟩ := Draft.takes_setProperties_iff.mp happly
    exact ⟨h.replaceOperator hget rfl rfl rfl, _, Dict.get?_insert_self .., rfl⟩
  | setDisabled id old new =>
    obtain ⟨op, hget, rfl⟩ := Draft.takes_setDisabled_iff.mp happly
    exact ⟨h.replaceOperator hget rfl rfl rfl, _, Dict.get?_insert_self .., rfl⟩
  | setBreakpoint id old new =>
    obtain ⟨hlink, rfl⟩ := Draft.takes_setBreakpoint_iff.mp happly
    refine ⟨h.setBreakpoint new hlink, ?_⟩
    exact (Graph.get?_breakpointsWith ..).trans (if_pos rfl)
  | move id start finish =>
    obtain ⟨hop, rfl⟩ := Draft.takes_setPosition_iff.mp happly
    exact ⟨h.setPosition finish hop, Dict.get?_insert_self ..⟩

end Faithful

end Change

/-! ## Commands -/

namespace Command

variable {command : Command} {g g' : Graph}

/-- **Each change of the command is faithful when its turn comes.** -/
def Faithful : Graph → Command → Prop
  | _, [] => True
  | g, change :: rest =>
    change.Faithful g ∧ ∀ g', Takes change.apply g g' → Faithful g' rest

/-- A command of faithful changes leads back and forth. -/
theorem Faithful.swaps {g : Graph} (h : g.Coherent) (hf : Faithful g command)
    (hredo : Takes command.redo g g') : command.Swaps g g' := by
  induction command generalizing g with
  | nil =>
    obtain rfl := hredo.unique (.pure g)
    exact .nil _
  | cons change rest ih =>
    obtain ⟨hchange, hrest⟩ := hf
    obtain ⟨middle, happly, hredo⟩ := (Draft.takes_bind_iff change.uniform_apply
      (.forM Change.uniform_apply rest)).mp hredo
    -- The rest starts from the graph that the first change leaves.
    obtain ⟨hcoherent, -⟩ := hchange.inverse h happly
    exact Swaps.append (.singleton h hchange happly)
      (ih hcoherent (hrest middle happly) hredo)

end Command

/-- **Faithful changes are reversed by their inverses**, which are faithful to the changed graph, and
a command whose changes are each faithful when their turn comes is undone exactly.  What has been
announced in between makes no difference. -/
theorem Graph.Coherent.inverted {d : Draft} (h : d.graph.Coherent) :
    (∀ (change : Change) (d' : Draft), change.Faithful d.graph →
      change.apply.exec d = (.ok (), d') →
        Takes change.inverse.apply d'.graph d.graph ∧ change.inverse.Faithful d'.graph) ∧
    ∀ (command : Command) (d' : Draft), command.Faithful d.graph →
      command.redo.exec d = (.ok (), d') → Takes command.undo d'.graph d.graph := by
  refine ⟨fun change d' hf hexec => ?_, fun command d' hf hexec => ?_⟩
  · have happly := change.uniform_apply d d' hexec
    exact ⟨hf.takes_inverse h happly, (hf.inverse h happly).2⟩
  · have hredo := command.uniform_redo d d' hexec
    exact (Command.Faithful.swaps h hf hredo).2

/-- An operator is taken away with a link to itself and two others, which are recorded in no
particular order, and then the operator at the other end of these. -/
theorem Graph.Coherent.inverted_looped :
    let loop (id : OperatorId) : Operator :=
      ⟨id, "Loop", "1", .object [], [⟨"input-0", ""⟩], [⟨"output-0", ""⟩], false⟩
    let link (id : LinkId) (source target : OperatorId) : Link :=
      ⟨id, ⟨source, "output-0"⟩, ⟨target, "input-0"⟩⟩
    let calls : Attempt Editor Unit := do
      Editor.addAll [(loop "a", .origin), (loop "b", .origin)]
        [link "l" "a" "a", link "m" "a" "b", link "n" "b" "a"]
      Editor.setBreakpoint "l" (some (.count 3))
    let d := (calls.exec (.start (.ofMetadata ⟨[⟨"Loop", .object [], ⟨"Loop", none, "G", 1, 1⟩,
      "1"⟩], []⟩) 100 500 id)).2.draft
    let deletion : Change := .deleteOperator (loop "a") .origin
      [⟨link "n" "b" "a", none⟩, ⟨link "l" "a" "a", some (.count 3)⟩, ⟨link "m" "a" "b", none⟩]
    let command : Command := [deletion, .deleteOperator (loop "b") .origin []]
    d.graph.Coherent ∧ deletion.Faithful d.graph ∧ command.Faithful d.graph ∧
      (∃ d', deletion.apply.exec d = (.ok (), d') ∧ d'.graph.links = ∅ ∧
        Takes deletion.inverse.apply d'.graph d.graph ∧ deletion.inverse.Faithful d'.graph) ∧
      ∃ d', command.redo.exec d = (.ok (), d') ∧ d'.graph = .empty ∧
        Takes command.undo d'.graph d.graph := by
  intro loop link calls d deletion command
  have hprogram : Program (fun _ => False) calls :=
    .bind (.act (.addAll _ _)) fun _ => .act (.setBreakpoint _ _)
  have hcoherent : d.graph.Coherent :=
    ((Editor.program_evolves hprogram _).2 (Editor.sound_start ..)).1.graph.toCoherent
  obtain ⟨hchanges, hcommands⟩ := hcoherent.inverted
  have hdeletion : deletion.Faithful d.graph := by
    refine ⟨?_, ?_, ?_⟩ <;> decide +kernel
  have happly : deletion.apply.exec d = (.ok (), (deletion.apply.exec d).2) :=
    Prod.ext (by decide +kernel) rfl
  have hcommand : command.Faithful d.graph := by
    refine ⟨hdeletion, fun g' htakes => ⟨?_, fun _ _ => trivial⟩⟩
    -- The second operator has no links any more when its turn comes.
    obtain rfl := (deletion.uniform_apply _ _ happly).unique htakes
    refine ⟨?_, ?_, ?_⟩ <;> decide +kernel
  have hredo : command.redo.exec d = (.ok (), (command.redo.exec d).2) :=
    Prod.ext (by decide +kernel) rfl
  exact ⟨hcoherent, hdeletion, hcommand, ⟨_, happly, by decide +kernel, hchanges _ _ hdeletion happly⟩,
    _, hredo, by decide +kernel, hcommands _ _ hcommand hredo⟩

end PipelineEditor
