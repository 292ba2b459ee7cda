import PipelineEditor.Proofs.Delivery
import PipelineEditor.Proofs.Frozen

/-!
# Outcomes that change nothing

An outcome that is stale or tells of a failure is at most published as a notice.  So it makes no
difference whether it is taken over or put aside when it comes: the runs with and without it come to
the same session, notices apart, and all that is answered on the way is the same.  The reason is
that what was published is never looked at again.

## Main definitions

* `Session.preface told s`: the session as it is, with events published before all others
* `Session.Prefaced call`: the call does not look at what was published
* `Happening`, `Session.follow`: calls, and outcomes that come, and are taken over or put aside
* `Spares s run run'`: the second run is the first with outcomes put aside that do not count
* `Session.SameButNotices`: the same session, but for notices of failures

## Main results

* `Session.Call.exec_preface`: no call looks at what was published
* `Session.inert_follow`: it makes no difference to put outcomes aside that do not count
-/

namespace PipelineEditor

namespace Session

variable {σ α β : Type}

/-! ## What was published -/

/-- **The session as it is, with events published before all others.** -/
def preface (told : List Event) (s : Session σ) : Session σ :=
  { s with published := told ++ s.published }

theorem publish_preface (told events : List Event) (s : Session σ) :
    (s.preface told).publish events = (s.publish events).preface told := by
  unfold publish preface
  rw [List.append_assoc]

theorem schedule_preface (told : List Event) (s : Session σ) :
    (s.preface told).schedule = s.schedule.preface told := by
  unfold schedule
  rw [show (s.preface told).dispatcher = s.dispatcher from rfl]
  cases s.dispatcher with
  | none => rfl
  | some d => rfl

theorem revise_preface (told : List Event) (s : Session σ) :
    (s.preface told).revise = s.revise.preface told :=
  schedule_preface told { s with
    revision := s.revision + 1
    propagation :=
      { s.propagation with overlay := s.propagation.overlay.forgetMissing s.graph } }

variable [Surface σ]

theorem dispatch_preface (told events : List Event) (s : Session σ) :
    (s.preface told).dispatch events = (s.dispatch events).preface told :=
  publish_preface told events (s.project events)

theorem settle_preface (told : List Event) (s : Session σ) :
    (s.preface told).settle = s.settle.preface told := by
  let shown := project s.editor.takeEvents.1 { s with editor := s.editor.takeEvents.2 }
  unfold settle
  rw [show (s.preface told).editor = s.editor from rfl]
  dsimp only
  split
  · rfl
  · -- Whether findings and schemas are revised, what is published comes last.
    split <;> split
    · exact (congrArg _ (revise_preface told shown.revalidate.2)).trans (publish_preface ..)
    · exact publish_preface told _ shown.revalidate.2
    · exact (congrArg _ (revise_preface told shown)).trans (publish_preface ..)
    · exact publish_preface told _ shown

/-- **The call does not look at what was published.** -/
def Prefaced (call : Attempt (Session σ) α) : Prop :=
  ∀ told s, call.exec (s.preface told) = ((call.exec s).1, (call.exec s).2.preface told)

namespace Prefaced

omit [Surface σ] in
theorem pure (value : α) : Prefaced (pure value : Attempt (Session σ) α) := fun _ _ => rfl

omit [Surface σ] in
theorem bind {call : Attempt (Session σ) α} {next : α → Attempt (Session σ) β}
    (h : Prefaced call) (hnext : ∀ value, Prefaced (next value)) : Prefaced (call >>= next) := by
  intro told s
  have hcall := h told s
  rcases hexec : call.exec s with ⟨cause | value, s'⟩ <;> rw [hexec] at hcall
  · rw [Attempt.exec_bind_error hexec, Attempt.exec_bind_error hcall]
  · rw [Attempt.exec_bind_ok hexec, Attempt.exec_bind_ok hcall]
    exact hnext value told s'

/-- A call to the editor is made on the editor alone. -/
theorem run (call : Attempt Editor α) : Prefaced (Session.run call : Attempt (Session σ) α) :=
  fun told s => Prod.ext rfl (settle_preface told ((onEditor call).exec s).2)

theorem handleGesture (gesture : Gesture) :
    Prefaced (Session.handleGesture gesture : Attempt (Session σ) Nat) :=
  fun told s => Prod.ext rfl (settle_preface told (s.forward gesture).2)

theorem processGestures : Prefaced (Session.processGestures : Attempt (Session σ) Nat) := by
  have hfold (gestures : List Gesture) (count : Nat) : Prefaced (gestures.foldlM
      (fun count gesture => return count + (← Session.handleGesture gesture)) count :
        Attempt (Session σ) Nat) := by
    induction gestures generalizing count with
    | nil => exact .pure _
    | cons gesture rest ih =>
      rw [List.foldlM_cons]
      exact .bind (.bind (.handleGesture gesture) fun _ => .pure _) fun _ => ih _
  exact .bind (fun _ _ => rfl) fun gestures => hfold gestures 0

theorem replay (call : Attempt Editor Bool) :
    Prefaced (Session.replay call : Attempt (Session σ) Bool) := by
  intro told s
  have hrun := run call told (s.setReplaying true)
  have hlast := congrArg (fun left => left.2.takeGestures.2.setReplaying false) hrun
  rw [exec_replay, exec_replay]
  exact congrArg ((call.exec s.editor).1, ·) hlast

theorem applyOutcome (outcome : Outcome) :
    Prefaced (Session.applyOutcome outcome : Attempt (Session σ) Applied) := by
  intro told s
  unfold Session.applyOutcome
  rw [Attempt.exec_of, Attempt.exec_of]
  rw [show (s.preface told).propagation.apply (s.preface told).editor outcome
    (s.preface told).revision = s.propagation.apply s.editor outcome s.revision from rfl]
  rcases s.propagation.apply s.editor outcome s.revision with ⟨cause | applied, p, e⟩
  · exact Prod.ext rfl (settle_preface told { s with propagation := p, editor := e })
  · have hdispatch := dispatch_preface told applied.events { s with propagation := p, editor := e }
    exact Prod.ext rfl ((congrArg settle hdispatch).trans (settle_preface told _))

omit [Surface σ] in
theorem takeOutcome?_preface (told : List Event) (s : Session σ) : (s.preface told).takeOutcome? =
    s.takeOutcome?.map fun taken => (taken.1, taken.2.preface told) := by
  unfold takeOutcome?
  rw [show (s.preface told).dispatcher = s.dispatcher from rfl]
  cases s.dispatcher with
  | none => rfl
  | some d =>
    simp only [Option.bind_eq_bind, Option.bind_some]
    cases d.take? with
    | none => rfl
    | some taken => rfl

theorem pumpUpTo (bound : Nat) : Prefaced (Session.pumpUpTo bound : Attempt (Session σ) Nat) := by
  induction bound with
  | zero => exact .pure _
  | succ bound ih =>
    intro told s
    unfold Session.pumpUpTo
    rw [Attempt.exec_get_bind, Attempt.exec_get_bind, takeOutcome?_preface]
    cases s.takeOutcome? with
    | none => rfl
    | some taken =>
      have hrest : Prefaced (do
          let _ ← Session.applyOutcome taken.1
          return (← Session.pumpUpTo bound) + 1 : Attempt (Session σ) Nat) :=
        .bind (.applyOutcome taken.1) fun _ => .bind ih fun _ => .pure _
      exact hrest told taken.2

end Prefaced

theorem setEnabled_preface (enabled : Bool) (told : List Event) (s : Session σ) :
    (s.preface told).setEnabled enabled = (s.setEnabled enabled).preface told := by
  cases enabled with
  | false => exact settle_preface told { s with editor := s.editor.setEnabled false }
  | true =>
    exact settle_preface told { s with
      propagation := (s.propagation.applyDeferred (s.editor.setEnabled true)).2.1
      editor := (s.propagation.applyDeferred (s.editor.setEnabled true)).2.2 }

theorem highlight_preface (ids : List OperatorId) (told : List Event) (s : Session σ) :
    (s.preface told).highlight ids = (s.highlight ids).preface told := by
  unfold highlight
  dsimp only
  rw [apply_ite (preface told), ← dispatch_preface]
  rfl

theorem unhighlight_preface (ids : List OperatorId) (told : List Event) (s : Session σ) :
    (s.preface told).unhighlight ids = (s.unhighlight ids).preface told := by
  unfold unhighlight
  dsimp only
  rw [apply_ite (preface told), ← dispatch_preface]
  rfl

omit [Surface σ] in
theorem attach_preface (told : List Event) (s : Session σ) :
    (s.preface told).attach = s.attach.preface told :=
  schedule_preface told { s with dispatcher := some (.start s.settings.quietPeriod) }

omit [Surface σ] in
theorem connect_preface (told : List Event) (s : Session σ) :
    (s.preface told).connect.2 = s.connect.2.preface told := by
  unfold connect
  rw [show (s.preface told).settings = s.settings from rfl]
  cases s.settings.inferenceEndpoint with
  | none => rfl
  | some _ => exact attach_preface told s

omit [Surface σ] in
theorem advance_preface (service : Service) (duration : Nat) (told : List Event) (s : Session σ) :
    ((s.preface told).advance service duration).1 =
      (s.advance service duration).1.preface told := by
  unfold advance
  rw [show (s.preface told).dispatcher = s.dispatcher from rfl]
  cases s.dispatcher with
  | none => rfl
  | some d => rfl

theorem next_preface (service : Service) (patience : Nat) (told : List Event) (s : Session σ) :
    (s.preface told).next service patience = ((s.next service patience).1,
      (s.next service patience).2.1.preface told, (s.next service patience).2.2) := by
  unfold next
  rw [show (s.preface told).dispatcher = s.dispatcher from rfl]
  cases s.dispatcher with
  | none => rfl
  | some d =>
    dsimp only
    rcases d.await service patience with ⟨_ | outcome, left, service'⟩
    · rfl
    · have happly := Prefaced.applyOutcome outcome told { s with dispatcher := some left }
      have hawaited : { s.preface told with dispatcher := some left } =
        preface told { s with dispatcher := some left } := rfl
      dsimp only
      rw [hawaited, happly]

theorem deliver_preface (delivery : Delivery) (told : List Event) (s : Session σ) :
    (s.preface told).deliver delivery =
      ((s.deliver delivery).1, (s.deliver delivery).2.preface told) := by
  have hcollect : (s.preface told).collect delivery =
    ((s.collect delivery).1, (s.collect delivery).2.preface told) := rfl
  unfold deliver
  rw [hcollect]
  cases (s.collect delivery).1 with
  | none => rfl
  | some outcome =>
    dsimp only
    rw [Prefaced.applyOutcome outcome told]

/-- **No call looks at what was published.** -/
theorem Call.exec_preface (call : Call σ) (told : List Event) (s : Session σ) :
    call.exec (s.preface told) = (call.exec s).preface told ∧
      call.cause? (s.preface told) = call.cause? s := by
  have hattempt {α : Type} {attempt : Attempt (Session σ) α} (h : Prefaced attempt) :
      (attempt.exec (s.preface told)).2 = (attempt.exec s).2.preface told ∧
        EditError.of? (attempt.exec (s.preface told)).1 = EditError.of? (attempt.exec s).1 := by
    rw [h told s]
    exact ⟨rfl, rfl⟩
  cases call with
  | act action => exact hattempt (.run action.perform)
  | bundle calls _ => exact hattempt (.run (Editor.bundle calls))
  | undo => exact hattempt (.replay Editor.undo)
  | redo => exact hattempt (.replay Editor.redo)
  | load content =>
    exact hattempt (.run (do replaceBy content content.breakpoints.toList; modify Editor.clearHistory))
  | setEnabled enabled => exact ⟨setEnabled_preface enabled told s, rfl⟩
  | handleGesture gesture => exact hattempt (.handleGesture gesture)
  | processGestures => exact hattempt .processGestures
  | useSurface | redraw | buildRequest => exact ⟨rfl, rfl⟩
  | highlight ids => exact ⟨highlight_preface ids told s, rfl⟩
  | unhighlight ids => exact ⟨unhighlight_preface ids told s, rfl⟩
  | attach => exact ⟨attach_preface told s, rfl⟩
  | connect => exact ⟨connect_preface told s, rfl⟩
  | advance service duration => exact ⟨advance_preface service duration told s, rfl⟩
  | next service patience =>
    have hnext := next_preface service patience told s
    refine ⟨congrArg (·.2.1) hnext, ?_⟩
    exact congrArg (fun answered => EditError.of? answered.1) hnext
  | pump =>
    have hpump : Prefaced (Session.pump : Attempt (Session σ) Nat) := fun told s =>
      Prefaced.pumpUpTo _ told s
    exact hattempt hpump
  | applyOutcome outcome => exact hattempt (.applyOutcome outcome)

end Session

/-! ## Runs with outcomes put aside -/

/-- **What happens to a session.** -/
inductive Happening (σ : Type) : Type 1 where
  | called (call : Session.Call σ)
  /-- An outcome comes and is taken over. -/
  | delivered (delivery : Delivery)
  /-- An outcome comes and is put aside. -/
  | putAside (delivery : Delivery)

/-- The session after something has happened. -/
def Happening.exec {σ : Type} [Surface σ] (s : Session σ) : Happening σ → Session σ
  | called call => call.exec s
  | delivered delivery => (s.deliver delivery).2
  | putAside delivery => (s.collect delivery).2

/-- What is handed in and put aside might as well not be handed in. -/
theorem Happening.exec_putAside_handed {σ : Type} [Surface σ] (s : Session σ) (outcome : Outcome) :
    (putAside (.handed outcome)).exec s = s := rfl

namespace Session

variable {σ : Type} {s s' : Session σ} {catalogue : Catalogue}

/-- **The same session, but for notices of failures**, of which the second has published fewer. -/
structure SameButNotices (s s' : Session σ) : Prop where
  same : s' = { s with published := s'.published }
  fewer : s'.published.Sublist s.published
  rest : s'.published.filter (!·.isFailureNotice) = s.published.filter (!·.isFailureNotice)

/-- Two such sessions go back to one that has published nothing. -/
theorem SameButNotices.exists_preface (h : SameButNotices s s') :
    ∃ bare : Session σ, s = bare.preface s.published ∧ s' = bare.preface s'.published := by
  refine ⟨{ s with published := [] }, ?_, ?_⟩
  · unfold preface
    rw [List.append_nil]
  · unfold preface
    rw [List.append_nil]
    exact h.same

/-- What is published from then on is the same. -/
theorem SameButNotices.of_preface {bare : Session σ} {told told' : List Event}
    (hfewer : told'.Sublist told)
    (hrest : told'.filter (!·.isFailureNotice) = told.filter (!·.isFailureNotice)) :
    SameButNotices (bare.preface told) (bare.preface told') := by
  refine ⟨rfl, hfewer.append_right _, ?_⟩
  show (told' ++ _).filter _ = (told ++ _).filter _
  rw [List.filter_append, List.filter_append, hrest]

/-- The first may publish a notice more. -/
theorem SameButNotices.publish {notices : List Event} (h : SameButNotices s s')
    (hnotices : ∀ event ∈ notices, event.isFailureNotice = true) :
    SameButNotices (s.publish notices) s' := by
  refine ⟨h.same, h.fewer.trans (List.sublist_append_left _ _), h.rest.trans ?_⟩
  have hnone : notices.filter (!·.isFailureNotice) = [] :=
    List.filter_eq_nil_iff.mpr fun event hmem => by simp [hnotices event hmem]
  show _ = (s.published ++ notices).filter _
  rw [List.filter_append, hnone, List.append_nil]

theorem SameButNotices.collect (h : SameButNotices s s') (delivery : Delivery) :
    SameButNotices (s.collect delivery).2 (s'.collect delivery).2 := by
  obtain ⟨bare, hs, hs'⟩ := h.exists_preface
  have hsame : SameButNotices ((bare.collect delivery).2.preface s.published)
    ((bare.collect delivery).2.preface s'.published) := .of_preface h.fewer h.rest
  rw [hs, hs']
  exact hsame

variable [Surface σ]

/-- The session after all of it has happened. -/
def follow (s : Session σ) (run : List (Happening σ)) : Session σ := run.foldl Happening.exec s

theorem AtRest.happening (h : s.AtRest catalogue) (happening : Happening σ) :
    (happening.exec s).AtRest catalogue := by
  cases happening with
  | called call => exact (after_stages s [call]).atRest h
  | delivered delivery => exact h.deliver delivery
  | putAside delivery => exact h.collect delivery

theorem AtRest.follow (h : s.AtRest catalogue) (run : List (Happening σ)) :
    (s.follow run).AtRest catalogue := by
  induction run generalizing s with
  | nil => exact h
  | cons happening rest ih => exact ih (h.happening happening)

/-- What happens does not look at what was published. -/
theorem SameButNotices.happening (h : SameButNotices s s') (happening : Happening σ) :
    SameButNotices (happening.exec s) (happening.exec s') := by
  obtain ⟨bare, hs, hs'⟩ := h.exists_preface
  have hexec (told : List Event) :
      happening.exec (bare.preface told) = (happening.exec bare).preface told := by
    cases happening with
    | called call => exact (call.exec_preface told bare).1
    | delivered delivery => exact congrArg Prod.snd (deliver_preface delivery told bare)
    | putAside delivery => rfl
  rw [hs, hs', hexec, hexec]
  exact .of_preface h.fewer h.rest

/-- An outcome that does not count may as well be put aside. -/
theorem SameButNotices.deliver (h : SameButNotices s s') (hsettled : s.Settled)
    {delivery : Delivery}
    (hinert : ∀ outcome ∈ (s.collect delivery).1, s.counts outcome = false) :
    SameButNotices (s.deliver delivery).2 (s'.collect delivery).2 := by
  unfold Session.deliver
  cases hcollect : (s.collect delivery).1 with
  | none => exact h.collect delivery
  | some outcome =>
    have hleft : (s.collect delivery).2.counts outcome = false := hinert outcome hcollect
    obtain ⟨applied, hexec, hnotices⟩ := exec_applyOutcome_of_not_counts
      (s := (s.collect delivery).2) hsettled hleft
    dsimp only
    rw [hexec]
    exact (h.collect delivery).publish hnotices

/-- **The second run is the first with outcomes put aside that do not count** when they come. -/
inductive Spares : Session σ → List (Happening σ) → List (Happening σ) → Prop
  | nil (s : Session σ) : Spares s [] []
  | keep {s : Session σ} {happening : Happening σ} {run run' : List (Happening σ)}
      (h : Spares (happening.exec s) run run') : Spares s (happening :: run) (happening :: run')
  | putAside {s : Session σ} {delivery : Delivery} {run run' : List (Happening σ)}
      (hinert : ∀ outcome ∈ (s.collect delivery).1, s.counts outcome = false)
      (h : Spares (s.deliver delivery).2 run run') :
      Spares s (.delivered delivery :: run) (.putAside delivery :: run')

namespace Spares

variable {run run' : List (Happening σ)}

theorem take (h : Spares s run run') (n : Nat) : Spares s (run.take n) (run'.take n) := by
  induction h generalizing n with
  | nil s => cases n <;> exact .nil s
  | keep _ ih =>
    cases n with
    | zero => exact .nil _
    | succ n => exact .keep (ih n)
  | putAside hinert _ ih =>
    cases n with
    | zero => exact .nil _
    | succ n => exact .putAside hinert (ih n)

/-- **Both runs come to the same**, but for notices of failures. -/
theorem sameButNotices (h : Spares s run run') (hrest : s.AtRest catalogue)
    (hsame : SameButNotices s s') : SameButNotices (s.follow run) (s'.follow run') := by
  induction h generalizing s' with
  | nil s => exact hsame
  | keep _ ih => exact ih (hrest.happening _) (hsame.happening _)
  | putAside hinert _ ih => exact ih (hrest.deliver _) (hsame.deliver hrest.settled hinert)

end Spares

/-- **Outcomes that do not count change nothing.**  Whatever happens to a session, every outcome is
taken over with success.  Of what happens, let outcomes that are stale or tell of a failure be put
aside instead of taken over: then at each moment the session is the same, notices of failures apart,
each call fails for the same reason or succeeds in both, and of each outcome that comes next the
same is answered. -/
theorem inert_follow (catalogue : Catalogue) (settings : Settings) (clock : Nat → Nat) (surface : σ)
    {run run' : List (Happening σ)}
    (h : Spares (start catalogue settings clock surface) run run') (n : Nat) :
    let s := (start catalogue settings clock surface).follow (run.take n)
    let s' := (start catalogue settings clock surface).follow (run'.take n)
    (∀ outcome, ∃ applied, ((applyOutcome outcome).exec s).1 = .ok applied) ∧
      SameButNotices s s' ∧ (∀ call : Call σ, call.cause? s' = call.cause? s) ∧
      ∀ delivery, (s'.deliver delivery).1 = (s.deliver delivery).1 := by
  intro s s'
  have hstart := atRest_start catalogue settings clock surface
  have hrest : s.AtRest catalogue := hstart.follow _
  have hsame : SameButNotices s s' :=
    (h.take n).sameButNotices hstart ⟨rfl, List.Sublist.refl _, rfl⟩
  obtain ⟨bare, hs, hs'⟩ := hsame.exists_preface
  refine ⟨applyOutcome_ok hrest.idle, hsame, fun call => ?_, fun delivery => ?_⟩
  · -- Both sessions go back to one that has published nothing, and answer as that one does.
    rw [hs, hs', (call.exec_preface _ bare).2, (call.exec_preface _ bare).2]
  · rw [hs, hs', deliver_preface, deliver_preface]

/-- A request is made, and twice its failure is handed in before it is answered; or the first time
the failure is put aside. -/
theorem inert_follow_failures :
    let scan : TypeSchema := ⟨"Scan", .object [], ⟨"Scan", none, "Input", 0, 0⟩, "1"⟩
    let opened := start (.ofMetadata ⟨[scan], []⟩) .initial id Blank.mk
    let failure : Delivery := .handed ⟨1, 0, .error "gone"⟩
    let answer : Delivery := .handed ⟨1, 0, .ok ⟨0, ∅, none⟩⟩
    let run : List (Happening Blank) :=
      [.called .buildRequest, .delivered failure, .delivered failure, .delivered answer]
    let run' : List (Happening Blank) :=
      [.called .buildRequest, .putAside failure, .delivered failure, .delivered answer]
    Spares opened run run' ∧ SameButNotices (opened.follow run) (opened.follow run') ∧
      (opened.follow run').published.length < (opened.follow run).published.length ∧
      ((opened.follow (run'.take 3)).deliver answer).1 =
        ((opened.follow (run.take 3)).deliver answer).1 := by
  intro scan opened failure answer run run'
  have hspares : Spares opened run run' := by
    refine .keep (.putAside ?_ (.keep (.keep (.nil _))))
    rintro _ ⟨⟩
    decide +kernel
  have hlast := inert_follow _ _ _ _ hspares 4
  have hbefore := inert_follow _ _ _ _ hspares 3
  exact ⟨hspares, hlast.2.1, by decide +kernel, hbefore.2.2.2 answer⟩

end Session

end PipelineEditor
