import Mathlib.Order.Monotone.Basic
import PipelineEditor.Proofs.Bundling
import PipelineEditor.Proofs.Replay

/-!
# Entries that stand for groups of moves

An entry of history that has grown by later moves stands for all the moves that were merged into it:
carried out or reversed, it does what they do one after the other.  A history whose window is empty
and whose clock never shows the same time twice keeps all commands apart.

## Main definitions

* `Recording`: a command as it was recorded
* `Command.StandsFor`: an entry stands for a group of recordings
* `History.KeepsApart`: history keeps commands apart
* `History.Open`: the entry recorded last is open to more moves

## Main results

* `Command.StandsFor.merge`: an entry that grows by a move stands for the group with that move
* `History.KeepsApart.merge?_eq_none`: where commands are kept apart, nothing is merged
* `History.record_opened`, `History.record_merged`: what recording does while there is room
* `Editor.not_open_replay`: a replay closes the entry that it leaves on top
-/

namespace PipelineEditor

open Chronicle (undone redone)
open Draft (Takes)

/-! ## Groups of recordings -/

/-- A command as it was recorded, with the number of replays that had taken place by then. -/
structure Recording where
  command : Command
  replays : Nat

/-- The recordings of a group, of which the latest comes first, as one command. -/
def Recording.whole (group : List Recording) : Command := (group.map (·.command)).reverse.flatten

namespace Command

variable {command earlier later : Command} {g g' : Graph}

/-- **The entry stands for the group**: it is the only recording, or all of them are single moves of
one operator, as is the entry. -/
structure StandsFor (command : Command) (group : List Recording) : Prop where
  nonempty : group ≠ []
  moves : (∃ recording, group = [recording] ∧ recording.command = command) ∨
    ∃ id, (∃ start finish, command = [.move id start finish]) ∧
      ∀ recording ∈ group, ∃ start finish, recording.command = [.move id start finish]
  /-- Carried out, it does to every graph what the recordings do. -/
  forward : ∀ g g', Takes command.redo g g' ↔ Takes (Recording.whole group).redo g g'
  /-- Reversed, it does to every graph what the recordings reversed do. -/
  backward : ∀ g g', Takes command.undo g g' ↔ Takes (Recording.whole group).undo g g'
  /-- Nothing was undone or redone between the recordings. -/
  together : ∀ recording ∈ group, ∀ other ∈ group, recording.replays = other.replays

/-- Of two moves of one operator the later decides, wherever they start. -/
theorem takes_moves_iff {id : OperatorId} {start stop origin finish other : Point} :
    (∃ middle, Takes (redo [.move id start stop]) g middle ∧
      Takes (redo [.move id origin finish]) middle g') ↔
      Takes (redo [.move id other finish]) g g' := by
  have hmove (start finish : Point) {g g' : Graph} : Takes (redo [.move id start finish]) g g' ↔
      (g.operators.get? id).isSome ∧ g' = { g with positions := g.positions.insert id finish } :=
    takes_redo_singleton.trans Draft.takes_setPosition_iff
  simp only [hmove]
  constructor
  · rintro ⟨_, ⟨hop, rfl⟩, -, rfl⟩
    exact ⟨hop, by rw [Dict.insert_insert]⟩
  · rintro ⟨hop, rfl⟩
    exact ⟨_, ⟨hop, rfl⟩, hop, by rw [Dict.insert_insert]⟩

namespace StandsFor

/-- A command recorded as an entry of its own stands for itself. -/
theorem single (recording : Recording) : StandsFor recording.command [recording] := by
  have hwhole : Recording.whole [recording] = recording.command := by simp [Recording.whole]
  refine ⟨List.cons_ne_nil _ _, .inl ⟨recording, rfl, rfl⟩, ?_, ?_, ?_⟩
  · rw [hwhole]
    exact fun _ _ => .rfl
  · rw [hwhole]
    exact fun _ _ => .rfl
  · intro first hfirst second hsecond
    rw [List.mem_singleton.mp hfirst, List.mem_singleton.mp hsecond]

/-- **An entry that grows by a move stands for the group with that move**, if nothing was replayed
since. -/
theorem merge {merged : Command} {group : List Recording} {recording : Recording}
    (h : command.StandsFor group) (hmerge : command.merge? recording.command = some merged)
    (hreplays : ∀ other ∈ group, other.replays = recording.replays) :
    merged.StandsFor (recording :: group) := by
  obtain ⟨id, start, stop, origin, finish, rfl, hrecording, rfl⟩ := merge?_eq_some_iff.mp hmerge
  have hwhole : Recording.whole (recording :: group) =
      Recording.whole group ++ recording.command := by
    simp [Recording.whole]
  -- Both entries are moves of one operator, so they come to one move over the whole way.
  refine ⟨List.cons_ne_nil _ _, .inr ⟨id, ⟨start, finish, rfl⟩, ?moves⟩, ?forward, ?backward,
    ?together⟩
  case moves =>
    intro other hother
    rcases List.mem_cons.mp hother with rfl | hother
    · exact ⟨origin, finish, hrecording⟩
    rcases h.moves with ⟨single, rfl, hsingle⟩ | ⟨id', ⟨_, _, hmove⟩, hall⟩
    · rw [List.mem_singleton.mp hother]
      exact ⟨start, stop, hsingle⟩
    · cases hmove
      exact hall other hother
  case forward =>
    intro g g'
    rw [hwhole, takes_redo_append_iff, hrecording]
    simp only [← h.forward]
    exact takes_moves_iff.symm
  case backward =>
    intro g g'
    rw [hwhole, takes_undo_append_iff, hrecording]
    simp only [← h.backward]
    exact takes_moves_iff.symm
  case together =>
    have hall : ∀ other ∈ recording :: group, other.replays = recording.replays := by
      intro other hother
      rcases List.mem_cons.mp hother with rfl | hother
      · rfl
      · exact hreplays other hother
    exact fun first hfirst second hsecond => (hall first hfirst).trans (hall second hsecond).symm

end StandsFor

end Command

/-! ## Histories that keep commands apart -/

namespace History

variable {tick : Nat → Nat} {h : History} {command : Command}

/-- **History keeps commands apart**: its window is empty, and its clock has moved on since each of
its entries was recorded. -/
structure KeepsApart (tick : Nat → Nat) (h : History) : Prop where
  window : h.window = 0
  clock : h.clock = tick
  earlier : ∀ time ∈ h.undoable.map (·.recordedAt), ∃ n < h.readings, time = tick n

namespace KeepsApart

theorem merge?_eq_none (hapart : h.KeepsApart tick) (htick : StrictMono tick) :
    h.merge? command = none := by
  refine Option.not_isSome_iff_eq_none.mp fun hsome => ?_
  obtain ⟨_, _, ⟨last, rest, _, hundoable, -, -, hwithin⟩, -⟩ := merge?_isSome_iff.mp hsome
  obtain ⟨n, hn, htime⟩ := hapart.earlier last.recordedAt
    (by rw [hundoable]; exact List.mem_cons_self)
  have hlater : tick n < tick h.readings := htick hn
  rw [now, hapart.clock, hapart.window, htime] at hwithin
  omega

theorem push (hapart : h.KeepsApart tick) (mergeable : Bool) :
    (h.push command mergeable).KeepsApart tick := by
  refine ⟨hapart.window, hapart.clock, fun time htime => ?_⟩
  obtain ⟨entry, hentry, rfl⟩ := List.mem_map.mp htime
  rcases List.mem_cons.mp (List.mem_of_mem_take hentry) with rfl | hentry
  · exact ⟨h.readings, Nat.lt_succ_self _, congrFun hapart.clock _⟩
  · obtain ⟨n, hn, htime⟩ := hapart.earlier _ (List.mem_map_of_mem hentry)
    exact ⟨n, Nat.lt_succ_of_lt hn, htime⟩

/-- Fewer entries are kept apart as well. -/
theorem of_suffix {entries : List Entry} (hapart : h.KeepsApart tick) (redoable : List Command)
    (hsuffix : entries.map (·.recordedAt) <:+ h.undoable.map (·.recordedAt)) :
    KeepsApart tick { h with undoable := entries, redoable } :=
  ⟨hapart.window, hapart.clock, fun time htime => hapart.earlier time (hsuffix.subset htime)⟩

theorem record (hapart : h.KeepsApart tick) (htick : StrictMono tick) :
    (h.record command).KeepsApart tick := by
  unfold History.record
  split
  · exact hapart
  · have hcut : KeepsApart tick { h with redoable := [] } := hapart.of_suffix [] (List.suffix_refl _)
    dsimp only
    rw [hcut.merge?_eq_none htick]
    exact hcut.push true

theorem undo (hapart : h.KeepsApart tick) (d : Draft) : (h.undo d).2.1.KeepsApart tick := by
  unfold History.undo
  split
  · exact hapart
  · rename_i last rest hundoable
    have hrest : rest.map (·.recordedAt) <:+ h.undoable.map (·.recordedAt) := by
      rw [hundoable]
      exact List.suffix_cons _ _
    have hseal : (sealTop rest).map (·.recordedAt) = rest.map (·.recordedAt) := by
      cases rest <;> rfl
    split
    · exact hapart.of_suffix _ (hseal ▸ hrest)
    · exact hapart.of_suffix _ hrest

theorem redo (hapart : h.KeepsApart tick) (d : Draft) : (h.redo d).2.1.KeepsApart tick := by
  unfold History.redo
  split
  · exact hapart
  · rename_i command rest _
    have hcut : KeepsApart tick { h with redoable := rest } :=
      hapart.of_suffix rest (List.suffix_refl _)
    split
    · exact hcut.push false
    · exact hcut

end KeepsApart

/-- The entry recorded last is open to more moves. -/
def Open (h : History) : Prop := ∃ last ∈ h.undoable.head?, last.mergeable = true

/-- An undo closes the entry that it leaves on top. -/
theorem not_open_undo (h : History) (d : Draft) (hanswer : (h.undo d).1 = .ok true) :
    ¬ (h.undo d).2.1.Open := by
  unfold undo at hanswer ⊢
  split at hanswer
  · cases hanswer
  · split at hanswer
    · rename_i rest _ _ _ _
      rintro ⟨entry, htop, hopen⟩
      cases rest <;> cases htop
      cases hopen
    · cases hanswer

/-- An entry that a redo has put back is closed. -/
theorem not_open_redo (h : History) (d : Draft) (hanswer : (h.redo d).1 = .ok true) :
    ¬ (h.redo d).2.1.Open := by
  unfold redo at hanswer ⊢
  split at hanswer
  · cases hanswer
  · split at hanswer
    · rename_i command rest _ _ _ _
      rintro ⟨entry, htop, hopen⟩
      have htop : entry ∈ ((⟨command, h.now, false⟩ :: h.undoable).take h.limit).head? := htop
      rw [List.head?_take] at htop
      split at htop <;> cases htop
      cases hopen
    · cases hanswer

/-- A command that opens an entry while there is room is put on top of the others. -/
theorem record_opened (hopens : h.opens command = true)
    (hroom : (h.record command).undoable.length < (h.record command).limit) :
    (h.record command).undoable.map (·.command) = command :: h.undoable.map (·.command) ∧
      (h.record command).redoable = [] := by
  rcases h.record_cases command with ⟨-, -, hnot⟩ | ⟨_, _, _, _, -, -, -, -, -, -, hnot⟩ |
    ⟨h', hrecord, hmap, hredo, hlimit, -⟩
  · rw [hnot] at hopens
    cases hopens
  · rw [hnot] at hopens
    cases hopens
  · rw [hrecord, hlimit] at hroom
    have hlen := congrArg List.length hmap
    rw [List.length_map, List.length_take] at hlen
    rw [hrecord, hmap, List.take_of_length_le (by omega)]
    exact ⟨rfl, hredo⟩

/-- Where there is room after a command has been recorded, there was room before. -/
theorem room_of_record (hroom : (h.record command).undoable.length < (h.record command).limit) :
    h.undoable.length < h.limit := by
  rcases h.record_cases command with ⟨-, hrecord, -⟩ |
    ⟨last, rest, _, h', hundoable, -, hrecord, hmap, -, hlimit, -⟩ |
    ⟨h', hrecord, hmap, -, hlimit, -⟩
  · rwa [hrecord] at hroom
  · rw [hrecord, hlimit] at hroom
    have hlen := congrArg List.length hmap
    rw [List.length_map, List.length_cons, List.length_map] at hlen
    rw [hundoable, List.length_cons]
    omega
  · rw [hrecord, hlimit] at hroom
    have hlen := congrArg List.length hmap
    rw [List.length_map, List.length_take, List.length_cons, List.length_map] at hlen
    omega

/-- A command that does not open an entry lets the latest one grow, which is open. -/
theorem record_merged (hne : command ≠ []) (hopens : h.opens command = false) :
    h.Open ∧ ∃ last rest merged, h.undoable = last :: rest ∧
      last.command.merge? command = some merged ∧
      (h.record command).undoable.map (·.command) = merged :: rest.map (·.command) ∧
      (h.record command).redoable = [] := by
  have hempty : command.isEmpty = false := by simpa using hne
  have hsome : (h.merge? command).isSome = true := by
    simpa [opens, hempty, Option.isSome_iff_ne_none] using hopens
  obtain ⟨_, _, ⟨last, rest, _, hundoable, -, hmergeable, -⟩, -⟩ := merge?_isSome_iff.mp hsome
  refine ⟨⟨last, by rw [hundoable]; rfl, hmergeable⟩, ?_⟩
  rcases h.record_cases command with ⟨hnil, -⟩ |
    ⟨last, rest, merged, h', hcons, hmerge, hrecord, hmap, hredo, -⟩ | ⟨_, -, -, -, -, hnot⟩
  · exact absurd hnil hne
  · exact ⟨last, rest, merged, hcons, hmerge, hrecord ▸ hmap, hrecord ▸ hredo⟩
  · rw [hnot] at hopens
    cases hopens

theorem KeepsApart.opens (hapart : h.KeepsApart tick) (htick : StrictMono tick)
    (hne : command ≠ []) : h.opens command = true := by
  rw [History.opens, hapart.merge?_eq_none htick]
  simpa using hne

end History

/-! ## Replays on an editor -/

namespace Editor

variable {step : History → Draft → Except EditError Bool × History × Draft} {e : Editor}
  {tick : Nat → Nat}

theorem replay_frame (step : History → Draft → Except EditError Bool × History × Draft)
    (e : Editor) :
    ((replay step).exec e).2.catalogue = e.catalogue ∧
      ((replay step).exec e).2.enabled = e.enabled ∧
      ((replay step).exec e).2.bundled = e.bundled := by
  cases henabled : e.enabled with
  | false =>
    rw [Timeline.exec_replay_locked henabled]
    exact ⟨rfl, henabled, rfl⟩
  | true =>
    rw [Timeline.exec_replay henabled]
    exact ⟨rfl, henabled, rfl⟩

/-- A replay that finds nothing, or the pipeline locked, leaves the editor as it is. -/
theorem exec_replay_idle
    (hidle : e.enabled = false ∨ step e.history e.draft = (.ok false, e.history, e.draft)) :
    ((replay step).exec e).1 ≠ .ok true ∧ ((replay step).exec e).2 = e := by
  cases henabled : e.enabled with
  | false =>
    rw [Timeline.exec_replay_locked henabled]
    exact ⟨nofun, rfl⟩
  | true =>
    have hnothing := hidle.resolve_left (by simp [henabled])
    rw [Timeline.exec_replay henabled, hnothing]
    exact ⟨nofun, rfl⟩

/-- **Several replays leave all but graph and history alone**, and keep commands apart. -/
theorem replays_keepApart
    (hstep : ∀ (h : History) d, h.KeepsApart tick → (step h d).2.1.KeepsApart tick)
    (hapart : e.history.KeepsApart tick) (n : Nat) :
    ((fun e => ((replay step).exec e).2)^[n] e).catalogue = e.catalogue ∧
      ((fun e => ((replay step).exec e).2)^[n] e).enabled = e.enabled ∧
      ((fun e => ((replay step).exec e).2)^[n] e).bundled = e.bundled ∧
      ((fun e => ((replay step).exec e).2)^[n] e).history.KeepsApart tick := by
  induction n with
  | zero => exact ⟨rfl, rfl, rfl, hapart⟩
  | succ n ih =>
    rw [Function.iterate_succ_apply']
    generalize (fun e => ((replay step).exec e).2)^[n] e = middle at ih ⊢
    obtain ⟨hcat, henabled, hbundled, hkeeps⟩ := ih
    obtain ⟨hcat', henabled', hbundled'⟩ := replay_frame step middle
    refine ⟨hcat'.trans hcat, henabled'.trans henabled, hbundled'.trans hbundled, ?_⟩
    cases hmiddle : middle.enabled with
    | false =>
      rw [Timeline.exec_replay_locked hmiddle]
      exact hkeeps
    | true =>
      rw [Timeline.exec_replay hmiddle]
      exact hstep _ _ hkeeps

/-- A replay that succeeds closes the entry that it leaves on top. -/
theorem not_open_replay
    (hstep : ∀ (h : History) d, (step h d).1 = .ok true → ¬ (step h d).2.1.Open)
    (hanswer : ((replay step).exec e).1 = .ok true) : ¬ ((replay step).exec e).2.history.Open := by
  cases henabled : e.enabled with
  | false =>
    rw [Timeline.exec_replay_locked henabled] at hanswer
    cases hanswer
  | true =>
    rw [Timeline.exec_replay henabled] at hanswer ⊢
    exact hstep _ _ hanswer

theorem undo_idle (hidle : e.enabled = false ∨ e.history.undoable = []) :
    (undo.exec e).1 ≠ .ok true ∧ undone e = e :=
  exec_replay_idle (hidle.imp_right fun hnil => by rw [History.undo, hnil])

theorem redo_idle (hidle : e.enabled = false ∨ e.history.redoable = []) :
    (redo.exec e).1 ≠ .ok true ∧ redone e = e :=
  exec_replay_idle (hidle.imp_right fun hnil => by rw [History.redo, hnil])

/-- While the pipeline is locked, nothing is undone. -/
theorem undone_locked (hlocked : e.enabled = false) (n : Nat) : undone^[n] e = e :=
  Function.iterate_fixed (undo_idle (.inl hlocked)).2 n

end Editor

end PipelineEditor
