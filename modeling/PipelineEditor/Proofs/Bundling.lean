import PipelineEditor.Proofs.Turns

/-!
# Bundles are undone as one

A bundle either fails and leaves no trace, or is one command, whatever its calls do: make bundles
of their own, fail and go on, or look for something to replay and find nothing.  A replay that
finds something moves history while the bundle is still open; such bundles are left out.  There is
one case in which an undo goes back further than to the start of the bundle: a bundle that only
moves one operator may go on with the drag that was recorded last.

## Main definitions

* `History.Replayed h h'`: a replay has taken place in between
* `History.Drags`: the command goes on with the drag that was recorded last

## Main results

* `Action.exec_locked`, `Program.exec_locked`: while the pipeline is locked, nothing happens
* `Editor.records_of_unreplayed`: a bundle in which nothing was replayed does what it records
* `Editor.Records.undo`: one undo takes back what was recorded last
* `Editor.bundle_all_or_nothing`: such a bundle leaves no trace if it fails, and else is undone by
  one undo
-/

namespace PipelineEditor

open Attempt (Keeps)
open Draft (Takes)

/-! ## Locked pipelines -/

/-- While the pipeline is locked, actions are refused. -/
theorem Action.exec_locked (action : Action) {e : Editor} (hlocked : e.enabled = false) :
    action.perform.exec e = (.error .locked, e) := by
  have hrefused {α : Type} (next : Unit → Attempt Editor α) :
      (Editor.requireEnabled >>= next).exec e = (.error .locked, e) := by
    rw [Editor.exec_requireEnabled_bind, hlocked]
    rfl
  -- Each of them asks for the lock first.
  cases action <;> exact hrefused _

/-- **While the pipeline is locked, programs that cannot unlock it do nothing.** -/
theorem Program.exec_locked {allowed : Control → Prop} (hclear : ¬ allowed .clearHistory)
    (hlock : ¬ allowed .lock) {α : Type} {calls : Attempt Editor α} (h : Program allowed calls)
    {e : Editor} (hlocked : e.enabled = false) : (calls.exec e).2 = e := by
  -- Each action asks for the lock before anything else, so none of them changes the editor.
  induction h generalizing e with
  | pure value => rfl
  | throw cause => rfl
  | read _ ih =>
    rw [Attempt.exec_get_bind]
    exact ih e hlocked
  | bind _ _ ih ihnext =>
    rw [Attempt.exec_bind]
    have hfirst := ih hlocked
    split <;> rename_i hexec <;> rw [hexec] at hfirst <;> cases hfirst
    · exact ihnext _ hlocked
    · rfl
  | handle _ _ ih ihhandler =>
    rw [Attempt.exec_tryCatch]
    have hcalls := ih hlocked
    split <;> rename_i hexec <;> rw [hexec] at hcalls <;> cases hcalls
    · rfl
    · exact ihhandler _ hlocked
  | act action => rw [action.exec_locked hlocked]
  | bundle _ ih =>
    cases hbundled : e.bundled with
    | some changes =>
      rw [Editor.exec_bundle_some hbundled]
      exact ih hlocked
    | none =>
      have hcalls := ih (e := { e with bundled := some [] }) hlocked
      rw [Editor.exec_bundle_none hbundled]
      -- The bundle is closed again, and its list was the only thing that it had changed.
      obtain ⟨catalogue, draft, history, enabled, bundled⟩ := e
      cases hbundled
      split <;> rename_i hexec <;> rw [hexec] at hcalls <;> cases hcalls <;> rfl
  | undo | redo => exact congrArg Prod.snd (Timeline.exec_replay_locked hlocked)
  | clearHistory h => exact absurd h hclear
  | setEnabled h => exact absurd h hlock

/-! ## Replays while a bundle is open -/

namespace History

/-- **A replay has taken place in between**: it has read the clock for an entry that it has put
back, or an entry has gone. -/
def Replayed (h h' : History) : Prop :=
  h.readings < h'.readings ∨ h'.readings = h.readings ∧
    (h'.undoable.length < h.undoable.length ∨
      h'.undoable.length = h.undoable.length ∧ h'.redoable.length < h.redoable.length)

theorem Replayed.trans {h h' h'' : History} (hfirst : h.Replayed h') (hsecond : h'.Replayed h'') :
    h.Replayed h'' := by
  unfold Replayed at *
  omega

/-- History never comes back to what it was before a replay. -/
theorem Replayed.ne {h h' : History} (hreplayed : h.Replayed h') : h' ≠ h := by
  rintro rfl
  unfold Replayed at hreplayed
  omega

/-- An undo finds nothing and does nothing, or replays an entry. -/
theorem undo_cases (h : History) (d : Draft) :
    h.undo d = (.ok false, h, d) ∨ h.Replayed (h.undo d).2.1 := by
  rcases hundoable : h.undoable with _ | ⟨last, rest⟩
  · left
    rw [undo, hundoable]
  · right
    have hseal : (sealTop rest).length = rest.length := by cases rest <;> rfl
    unfold undo
    rw [hundoable]
    dsimp only
    split
    · refine .inr ⟨rfl, .inl ?_⟩
      rw [hundoable, hseal]
      exact Nat.lt_succ_self _
    · refine .inr ⟨rfl, .inl ?_⟩
      rw [hundoable]
      exact Nat.lt_succ_self _

/-- A redo finds nothing and does nothing, or replays an entry. -/
theorem redo_cases (h : History) (d : Draft) :
    h.redo d = (.ok false, h, d) ∨ h.Replayed (h.redo d).2.1 := by
  rcases hredoable : h.redoable with _ | ⟨command, rest⟩
  · left
    rw [redo, hredoable]
  · right
    unfold redo
    rw [hredoable]
    dsimp only
    split
    · exact .inl (Nat.lt_succ_self _)
    · refine .inr ⟨rfl, .inr ⟨rfl, ?_⟩⟩
      rw [hredoable]
      exact Nat.lt_succ_self _

end History

namespace Editor

/-- **In a bundle, calls note what they do unless they replay something.** -/
def NotesOrReplays (e e' : Editor) : Prop :=
  e.bundled.isSome = true → e'.bundled.isSome = true ∧
    (e'.history = e.history ∧ Notes e e' ∨ e.history.Replayed e'.history)

instance : Std.Refl NotesOrReplays where
  refl e hbundled := ⟨hbundled, .inl ⟨rfl, refl_of Notes e⟩⟩

instance : IsTrans Editor NotesOrReplays where
  trans := by
    intro e e' e'' h h' hbundled
    obtain ⟨hbundled', hcases⟩ := h hbundled
    obtain ⟨hbundled'', hcases'⟩ := h' hbundled'
    refine ⟨hbundled'', ?_⟩
    rcases hcases with ⟨hhist, hnotes⟩ | hreplayed <;>
      rcases hcases' with ⟨hhist', hnotes'⟩ | hreplayed'
    · exact .inl ⟨hhist'.trans hhist, trans_of Notes hnotes hnotes'⟩
    · exact .inr (hhist ▸ hreplayed')
    · exact .inr (hhist' ▸ hreplayed)
    · exact .inr (hreplayed.trans hreplayed')

/-- In a bundle a single call leaves history alone. -/
theorem Single.history_eq {call : Attempt Editor Unit} (hcall : Single call) {e : Editor}
    (hbundled : e.bundled.isSome = true) : (call.exec e).2.history = e.history := by
  obtain ⟨changes, hchanges⟩ := Option.isSome_iff_exists.mp hbundled
  obtain ⟨choice, -, hexec⟩ := hcall
  rw [hexec]
  rcases choice e.catalogue e.enabled e.graph with cause | _ | change
  · rfl
  · rfl
  · rw [carryOut, exec_commit]
    rcases change.apply.exec e.draft with ⟨_ | _, draft⟩
    · rfl
    · unfold note
      dsimp only
      rw [hchanges]

theorem Single.notesOrReplays {call : Attempt Editor Unit} (hcall : Single call) :
    Keeps NotesOrReplays call := fun e hbundled =>
  ⟨(respects_sameBundling.single hcall e).trans hbundled,
    .inl ⟨hcall.history_eq hbundled, hcall.notes e⟩⟩

theorem respects_notesOrReplays : Respects NotesOrReplays where
  single := Single.notesOrReplays
  bundle := by
    intro α calls hcalls e hbundled
    obtain ⟨changes, hchanges⟩ := Option.isSome_iff_exists.mp hbundled
    rw [exec_bundle_some hchanges]
    exact hcalls e hbundled

/-- A replay that finds nothing leaves the editor as it is. -/
theorem replay_notesOrReplays
    {step : History → Draft → Except EditError Bool × History × Draft}
    (hstep : ∀ h d, step h d = (.ok false, h, d) ∨ h.Replayed (step h d).2.1) :
    Keeps NotesOrReplays (replay step) := by
  refine .bind requireEnabled_keeps fun _ e hbundled => ?_
  rw [Attempt.exec_of]
  dsimp only
  rcases hstep e.history e.draft with hnothing | hreplayed
  · rw [hnothing]
    exact ⟨hbundled, .inl ⟨rfl, refl_of Notes e⟩⟩
  · exact ⟨hbundled, .inr hreplayed⟩

/-- The calls beside editing that a bundle may make: it may replay history. -/
def MayReplay (control : Control) : Prop := control = .undo ∨ control = .redo

theorem program_notesOrReplays {α : Type} {calls : Attempt Editor α}
    (h : Program MayReplay calls) : Keeps NotesOrReplays calls := by
  refine h.keeps respects_notesOrReplays
    (fun _ => replay_notesOrReplays History.undo_cases)
    (fun _ => replay_notesOrReplays History.redo_cases) ?_ ?_
  · rintro (hallowed | hallowed) <;> cases hallowed
  · rintro (hallowed | hallowed) <;> cases hallowed

variable {e e' : Editor} {α : Type} {calls : Attempt Editor α}

/-- Nothing is replayed by calls that only edit. -/
theorem unreplayed_of_edits (h : Program (fun _ => False) calls)
    (hwf : e.graph.WellFormed e.catalogue) :
    (calls.exec { e with bundled := some [] }).2.history = e.history := by
  have hnotes : Keeps Notes calls :=
    h.keeps respects_notes (fun hundo => hundo.elim) (fun hredo => hredo.elim)
      (fun hclear => hclear.elim) fun hlock => hlock.elim
  exact (hnotes { e with bundled := some [] } [] rfl hwf).2.1

/-- **A bundle in which nothing was replayed does what it records.** -/
theorem records_of_unreplayed (h : Program MayReplay calls) (hidle : e.bundled = none)
    (hwf : e.graph.WellFormed e.catalogue)
    (hunreplayed : (calls.exec { e with bundled := some [] }).2.history = e.history) :
    e.Records (noted calls e) ((bundle calls).exec e).2 := by
  obtain ⟨-, hcases⟩ := program_notesOrReplays h { e with bundled := some [] } rfl
  have hnotes := (hcases.resolve_right fun hreplayed => hreplayed.ne hunreplayed).2
  rcases hexec : calls.exec { e with bundled := some [] } with ⟨result, e'⟩
  rw [hexec] at hnotes hunreplayed
  have hhist : e'.history = e.history := hunreplayed
  have hsame : { e' with history := e.history } = e' := by rw [← hhist]
  have hrecords := records_of_notes hidle hwf hexec (hsame.symm ▸ hnotes)
  rwa [hhist] at hrecords

end Editor

/-! ## Drags -/

/-- Two commands become one if both are moves of the same operator. -/
theorem Command.merge?_eq_some_iff {earlier later merged : Command} :
    earlier.merge? later = some merged ↔ ∃ id start stop origin finish,
      earlier = [.move id start stop] ∧ later = [.move id origin finish] ∧
        merged = [.move id start finish] := by
  constructor
  · intro hmerge
    unfold Command.merge? at hmerge
    split at hmerge
    · split at hmerge
      · rename_i heq
        cases hmerge
        subst heq
        exact ⟨_, _, _, _, _, rfl, rfl, rfl⟩
      · cases hmerge
    · cases hmerge
  · rintro ⟨id, start, stop, origin, finish, rfl, rfl, rfl⟩
    exact if_pos rfl

namespace History

/-- **The command goes on with a drag**: it is one move, the entry recorded last is one move of the
same operator that started at the given point, and it is open to more moves still. -/
def Drags (h : History) (command : Command) (id : OperatorId) (start : Point) : Prop :=
  (∃ last rest stop, h.undoable = last :: rest ∧ last.command = [.move id start stop] ∧
    last.mergeable = true ∧ h.now - last.recordedAt ≤ h.window) ∧
  ∃ origin finish, command = [.move id origin finish]

/-- **A command is merged into the entry recorded last just if it goes on with a drag.** -/
theorem merge?_isSome_iff {h : History} {command : Command} :
    (h.merge? command).isSome = true ↔ ∃ id start, h.Drags command id start := by
  constructor
  · intro hsome
    unfold merge? at hsome
    split at hsome
    · rename_i last rest hundoable
      split at hsome
      · rename_i hopen
        rw [Bool.and_eq_true, decide_eq_true_eq] at hopen
        rw [Option.isSome_map] at hsome
        obtain ⟨merged, hmerge⟩ := Option.isSome_iff_exists.mp hsome
        obtain ⟨id, start, stop, origin, finish, hlast, hcommand, -⟩ :=
          Command.merge?_eq_some_iff.mp hmerge
        exact ⟨id, start, ⟨last, rest, stop, hundoable, hlast, hopen⟩, origin, finish, hcommand⟩
      · cases hsome
    · cases hsome
  · rintro ⟨id, start, ⟨last, rest, stop, hundoable, hlast, hopen⟩, origin, finish, rfl⟩
    have hmerge : last.command.merge? [.move id origin finish] = some [.move id start finish] :=
      Command.merge?_eq_some_iff.mpr ⟨id, start, stop, origin, finish, hlast, rfl, rfl⟩
    unfold merge?
    rw [hundoable]
    dsimp only
    rw [if_pos (by rw [Bool.and_eq_true, decide_eq_true_eq]; exact hopen), hmerge]
    rfl

end History

/-! ## Undoing a bundle -/

namespace Editor

variable {e e' : Editor}

/-- An undo reverses the command recorded last, if that can be reversed. -/
theorem exec_undo_of_takes {last : Entry} {rest : List Entry} {g : Graph}
    (henabled : e.enabled = true) (hundoable : e.history.undoable = last :: rest)
    (htakes : Takes last.command.undo e.graph g) :
    (undo.exec e).1 = .ok true ∧ (undo.exec e).2.graph = g := by
  obtain ⟨d, hexec, hd⟩ := htakes.exec (d := e.draft) rfl
  have hundo : History.undo e.history e.draft = (.ok true, { e.history with
      undoable := History.sealTop rest
      redoable := last.command :: e.history.redoable }, d) := by
    unfold History.undo
    rw [hundoable]
    dsimp only
    rw [hexec]
  unfold undo
  rw [Timeline.exec_replay henabled, hundo]
  exact ⟨rfl, hd⟩

/-- **What an undo does to a command just recorded**: it reverses the command, or all of the drag
that the command goes on with. -/
theorem Records.undo {command : Command} (h : e.Records command e') (henabled : e'.enabled = true)
    (hlimit : 0 < e.limit) (hne : command ≠ []) :
    (undo.exec e').1 = .ok true ∧
      ((¬ ∃ id start, e.history.Drags command id start) →
        (undo.exec e').2.graph = e.graph) ∧
      ∀ id start, e.history.Drags command id start →
        (undo.exec e').2.graph = { e.graph with positions := e.graph.positions.insert id start } := by
  obtain ⟨-, -, hhist, -, hredo, hundo⟩ := h
  rcases e.history.record_cases command with ⟨rfl, -⟩ |
    ⟨last, rest, merged, h', hcons, hmerge, hrecord, hmap, -, -, hopens⟩ |
    ⟨h', hrecord, hmap, -, -, hopens⟩
  · exact absurd rfl hne
  · -- The command has been merged, so an undo goes back to where the drag started.
    rw [hrecord] at hhist
    rw [← hhist] at hmap
    obtain ⟨entry, rest', hundoable, hentry, -⟩ := List.map_eq_cons_iff.mp hmap
    obtain ⟨id, start, stop, origin, finish, hlast, rfl, rfl⟩ :=
      Command.merge?_eq_some_iff.mp hmerge
    obtain ⟨hop, hgraph⟩ := Draft.takes_setPosition_iff.mp (Command.takes_redo_singleton.mp hredo)
    have htakes : Takes (Command.undo entry.command) e'.graph
        { e.graph with positions := e.graph.positions.insert id start } := by
      rw [hentry, hgraph]
      refine Command.takes_redo_singleton.mpr (Draft.takes_setPosition_iff.mpr ⟨hop, ?_⟩)
      rw [Dict.insert_insert]
    obtain ⟨hanswer, hafter⟩ := exec_undo_of_takes henabled hundoable htakes
    refine ⟨hanswer, fun hnone => ?_, fun id' start' hdrags => ?_⟩
    · refine absurd (History.merge?_isSome_iff.mp ?_) hnone
      unfold History.opens at hopens
      cases hmerge? : e.history.merge? [.move id origin finish] with
      | some h'' => rfl
      | none =>
        rw [hmerge?] at hopens
        cases hopens
    · obtain ⟨⟨last', rest'', stop', hcons', hlast', -⟩, -⟩ := hdrags
      rw [hcons] at hcons'
      cases hcons'
      rw [hlast] at hlast'
      cases hlast'
      exact hafter
  · -- The command has an entry of its own, for at least one is kept.
    rw [hrecord] at hhist
    rw [← hhist] at hmap
    obtain ⟨kept, hkept⟩ : ∃ kept, e.history.limit = kept + 1 := Nat.exists_eq_add_one.mpr hlimit
    rw [hkept, List.take_succ_cons] at hmap
    obtain ⟨entry, rest, hundoable, rfl, -⟩ := List.map_eq_cons_iff.mp hmap
    obtain ⟨hanswer, hafter⟩ := exec_undo_of_takes henabled hundoable hundo
    refine ⟨hanswer, fun _ => hafter, fun id start hdrags => ?_⟩
    -- A command that goes on with a drag opens no entry.
    obtain ⟨h'', hmerge⟩ :=
      Option.isSome_iff_exists.mp (History.merge?_isSome_iff.mpr ⟨id, start, hdrags⟩)
    rw [History.opens, hmerge, Option.isNone_some, Bool.and_false] at hopens
    cases hopens

/-! ## All or nothing -/

variable {α : Type} {calls : Attempt Editor α}

/-- **A bundle leaves no trace if it fails, and is undone by one undo if it changes the graph**, as
long as nothing is replayed in it: history is what it was when the bundle ends.  Where the bundle
goes on with a drag, the undo takes all of the drag back. -/
theorem bundle_all_or_nothing (catalogue : Catalogue) (limit window : Nat) (clock : Nat → Nat)
    (hreached : Turns (fun _ => True) (start catalogue limit window clock) e)
    (h : Program MayReplay calls)
    (hunreplayed : (calls.exec { e with bundled := some [] }).2.history = e.history) :
    (∀ cause, ((bundle calls).exec e).1 = .error cause →
      ((bundle calls).exec e).2.graph = e.graph ∧
        ((bundle calls).exec e).2.history = e.history) ∧
    ∀ value, ((bundle calls).exec e).1 = .ok value → ((bundle calls).exec e).2.graph ≠ e.graph →
      (undo.exec ((bundle calls).exec e).2).1 = .ok true ∧
        ((¬ ∃ id start, e.history.Drags (noted calls e) id start) →
          (undo.exec ((bundle calls).exec e).2).2.graph = e.graph) ∧
        ∀ id start, e.history.Drags (noted calls e) id start →
          (undo.exec ((bundle calls).exec e).2).2.graph =
            { e.graph with positions := e.graph.positions.insert id start } := by
  have hsound : e.Sound := hreached.sound (sound_start ..)
  have hidle : e.bundled = none := hreached.idle rfl
  have hlimit : e.limit = max limit 1 := hreached.limit
  have hrecords := records_of_unreplayed h hidle hsound.graph hunreplayed
  have hbundle : Program MayReplay (bundle calls) := .bundle h
  have hlock : ¬ MayReplay .lock := by
    rintro (hallowed | hallowed) <;> cases hallowed
  have hclear : ¬ MayReplay .clearHistory := by
    rintro (hallowed | hallowed) <;> cases hallowed
  refine ⟨fun cause hcause => ?_, fun value hvalue hchanged => ?_⟩
  · rw [noted_eq_nil hidle (Prod.ext hcause rfl)] at hrecords
    exact hrecords.nothing
  · -- The graph has changed, so the pipeline was not locked, and is not now.
    have henabled : e.enabled = true := by
      by_contra hlocked
      rw [hbundle.exec_locked hclear hlock (by simpa using hlocked)] at hchanged
      exact hchanged rfl
    have henabled' : ((bundle calls).exec e).2.enabled = true :=
      (program_enabled hlock hbundle e).trans henabled
    refine hrecords.undo henabled' (by omega) fun hnil => hchanged ?_
    rw [hnil] at hrecords
    exact hrecords.nothing.1

/-- An operator and, in a bundle of its own, a link to it are undone as one. -/
theorem bundle_all_or_nothing_joined :
    let scan : Operator := ⟨"scan", "Scan", "1", .object [], [], [⟨"output-0", ""⟩], false⟩
    let sink : Operator := ⟨"sink", "Sink", "1", .object [], [⟨"input-0", ""⟩], [], false⟩
    let link : Link := ⟨"l", ⟨"scan", "output-0"⟩, ⟨"sink", "input-0"⟩⟩
    let catalogue : Catalogue := .ofMetadata ⟨[⟨"Scan", .object [], ⟨"Scan", none, "Input", 0, 1⟩,
      "1"⟩, ⟨"Sink", .object [], ⟨"Sink", none, "Output", 1, 0⟩, "1"⟩], []⟩
    let e := ((addOperator scan .origin).exec (start catalogue 100 500 id)).2
    let calls : Attempt Editor Unit := do
      addOperator sink .origin
      bundle (addLink link)
    Turns (fun _ => True) (start catalogue 100 500 id) e ∧ Program MayReplay calls ∧
      (calls.exec { e with bundled := some [] }).2.history = e.history ∧
      ((bundle calls).exec e).2.graph.links.get? "l" = some link ∧
      (undo.exec ((bundle calls).exec e).2).1 = .ok true ∧
      (undo.exec ((bundle calls).exec e).2).2.graph = e.graph := by
  intro scan sink link catalogue e calls
  have hreached : Turns (fun _ => True) (start catalogue 100 500 id) e :=
    .single (.act (.addOperator scan .origin))
  have hedits : Program (fun _ => False) calls :=
    .bind (.act (.addOperator sink .origin)) fun _ => .bundle (.act (.addLink link))
  have hprogram : Program MayReplay calls := hedits.mono fun _ hnever => hnever.elim
  have hunreplayed := unreplayed_of_edits hedits (hreached.sound (sound_start ..)).graph
  have hok : ((bundle calls).exec e).1 = .ok () := by decide +kernel
  have hlink : ((bundle calls).exec e).2.graph.links.get? "l" = some link := by decide +kernel
  have hchanged : ((bundle calls).exec e).2.graph ≠ e.graph := by decide +kernel
  have hnodrag : ¬ ∃ id start, e.history.Drags (noted calls e) id start := by
    rw [← History.merge?_isSome_iff]
    decide +kernel
  obtain ⟨hanswer, hgraph, -⟩ :=
    (bundle_all_or_nothing catalogue 100 500 id hreached hprogram hunreplayed).2 () hok hchanged
  exact ⟨hreached, hprogram, hunreplayed, hlink, hanswer, hgraph hnodrag⟩

/-- What is replayed in a bundle is not taken back when the bundle fails, and a bundle that only
moves an operator may be taken back together with the move before it. -/
theorem bundle_not_all_or_nothing :
    let scan : Operator := ⟨"scan", "Scan", "1", .object [], [], [], false⟩
    let start := start (.ofMetadata ⟨[⟨"Scan", .object [], ⟨"Scan", none, "Input", 0, 0⟩, "1"⟩], []⟩)
      100 500 id
    let e := ((addOperator scan .origin).exec start).2
    let failing : Attempt Editor Unit := do
      let _ ← undo
      throw .malformedDocument
    let dragged := ((moveOperator "scan" ⟨⟨1⟩, 0⟩).exec e).2
    let moving := moveOperator "scan" ⟨⟨2⟩, 0⟩
    (Turns (fun _ => True) start e ∧ e.bundled = none ∧ Program MayReplay failing ∧
      ((bundle failing).exec e).1 = .error .malformedDocument ∧
      ((bundle failing).exec e).2.graph ≠ e.graph ∧
      ((bundle failing).exec e).2.history.undoable.length ≠ e.history.undoable.length) ∧
    (Turns (fun _ => True) start dragged ∧ dragged.bundled = none ∧ Program MayReplay moving ∧
      ((bundle moving).exec dragged).1 = .ok () ∧
      ((bundle moving).exec dragged).2.graph ≠ dragged.graph ∧
      (undo.exec ((bundle moving).exec dragged).2).2.graph ≠ dragged.graph) := by
  intro scan start e failing dragged moving
  have hreached : Turns (fun _ => True) start e := .single (.act (.addOperator scan .origin))
  have hdragged : Turns (fun _ => True) start dragged :=
    hreached.tail (.act (.moveOperator "scan" ⟨⟨1⟩, 0⟩))
  have hfailing : Program MayReplay failing := .bind (.undo (.inl rfl)) fun _ => .throw _
  have hmoving : Program MayReplay moving := .act (.moveOperator "scan" ⟨⟨2⟩, 0⟩)
  refine ⟨⟨hreached, hreached.idle rfl, hfailing, ?_, ?_, ?_⟩,
    hdragged, hdragged.idle rfl, hmoving, ?_, ?_, ?_⟩ <;> decide +kernel

end Editor

end PipelineEditor
