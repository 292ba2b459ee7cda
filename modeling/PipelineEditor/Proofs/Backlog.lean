import PipelineEditor.Proofs.Echoes

/-!
# The backlog of gestures

Gestures wait on the canvas until the session processes them.  Calls that do not take them leave
them where they are, in front of whatever is reported from then on.  Processing takes all of them,
follows one after the other, and stops at the first that is refused; those behind it are gone.  A
replay takes all of them too, and follows none.  Where neither of the two happens with gestures
waiting, each gesture is followed in its turn.

## Main definitions

* `Session.followEach`: the session after following gestures one by one
* `Session.upToRefused`: those of the gestures that are followed, up to the first that is refused
* `Session.Call.follows`, `Session.Call.drops`: the waiting gestures that a call follows, and those
  that it takes from the canvas without following them
* `Session.Processes`: what processing does to the waiting gestures

## Main results

* `Session.Call.backlog`: each waiting gesture is followed, dropped, or waits still
* `Session.backlog_after`: this is so after every run, and runs that drop none follow each in turn
* `Session.backlog_lost`: gestures that wait behind a refused one, or when history is replayed, are
  lost
-/

namespace PipelineEditor

open Attempt (Keeps)

namespace Session

variable {σ : Type} [Surface σ] {s : Session σ}

/-! ## Following one after the other -/

/-- The session after following the gestures one by one, whether they are granted or not. -/
def followEach (s : Session σ) (gestures : List Gesture) : Session σ :=
  gestures.foldl (fun s gesture => ((handleGesture gesture).exec s).2) s

@[simp] theorem followEach_nil (s : Session σ) : s.followEach [] = s := rfl

@[simp] theorem followEach_cons (s : Session σ) (gesture : Gesture) (rest : List Gesture) :
    s.followEach (gesture :: rest) = ((handleGesture gesture).exec s).2.followEach rest := rfl

/-- **The gestures that are followed**: all up to the first that is refused, and that one. -/
def upToRefused (s : Session σ) : List Gesture → List Gesture
  | [] => []
  | gesture :: rest =>
    match (handleGesture gesture).exec s with
    | (.ok _, s') => gesture :: s'.upToRefused rest
    | (.error _, _) => [gesture]

theorem upToRefused_of_ok {gesture : Gesture} {count : Nat} {s' : Session σ}
    (h : (handleGesture gesture).exec s = (.ok count, s')) (rest : List Gesture) :
    s.upToRefused (gesture :: rest) = gesture :: s'.upToRefused rest := by
  rw [upToRefused, h]

theorem upToRefused_of_error {gesture : Gesture} {cause : EditError} {s' : Session σ}
    (h : (handleGesture gesture).exec s = (.error cause, s')) (rest : List Gesture) :
    s.upToRefused (gesture :: rest) = [gesture] := by
  rw [upToRefused, h]

theorem prefix_upToRefused (s : Session σ) (gestures : List Gesture) :
    s.upToRefused gestures <+: gestures := by
  induction gestures generalizing s with
  | nil => exact List.prefix_rfl
  | cons gesture rest ih =>
    rcases h : (handleGesture gesture).exec s with ⟨cause | count, s'⟩
    · rw [upToRefused_of_error h]
      exact List.prefix_append [gesture] rest
    · rw [upToRefused_of_ok h]
      exact (List.prefix_cons_inj gesture).mpr (ih s')

/-- Gestures are followed one by one, whatever has been counted so far: all of them, or up to one
that is refused, and then that refusal is the answer. -/
theorem exec_foldlM_handleGesture (gestures : List Gesture) (count : Nat) (s : Session σ) :
    let done := (gestures.foldlM (fun count gesture => do
      return count + (← handleGesture gesture)) count : Attempt (Session σ) Nat).exec s
    done.2 = s.followEach (s.upToRefused gestures) ∧
    ((∃ total, done.1 = .ok total) ∧ s.upToRefused gestures = gestures ∨
      ∃ cause before last, done.1 = .error cause ∧ s.upToRefused gestures = before ++ [last] ∧
        ((handleGesture last).exec (s.followEach before)).1 = .error cause) := by
  induction gestures generalizing count s with
  | nil => exact ⟨rfl, .inl ⟨⟨count, rfl⟩, rfl⟩⟩
  | cons gesture rest ih =>
    intro done
    rcases h : (handleGesture gesture).exec s with ⟨cause | more, s'⟩
    · have hdone : done = (.error cause, s') := by
        simp only [done, List.foldlM_cons]
        exact Attempt.exec_bind_error (Attempt.exec_bind_error h)
      rw [hdone, upToRefused_of_error h, followEach_cons, h]
      refine ⟨rfl, .inr ⟨cause, [], gesture, rfl, rfl, ?_⟩⟩
      rw [followEach_nil, h]
    · have hdone : done = (rest.foldlM (fun count gesture => do
          return count + (← handleGesture gesture)) (count + more) :
          Attempt (Session σ) Nat).exec s' := by
        simp only [done, List.foldlM_cons]
        refine Attempt.exec_bind_ok ?_
        exact (Attempt.exec_bind_ok h).trans rfl
      obtain ⟨hsession, hanswer⟩ := ih (count + more) s'
      rw [hdone, upToRefused_of_ok h, followEach_cons, h]
      refine ⟨hsession, ?_⟩
      rcases hanswer with ⟨htotal, hall⟩ | ⟨cause, before, last, herror, hupTo, hlast⟩
      · exact .inl ⟨htotal, congrArg (gesture :: ·) hall⟩
      · refine .inr ⟨cause, gesture :: before, last, herror, congrArg (gesture :: ·) hupTo, ?_⟩
        rw [followEach_cons, h]
        exact hlast

/-- The waiting gestures that a call follows. -/
def Call.follows (s : Session σ) : Call σ → List Gesture
  | processGestures => s.takeGestures.2.upToRefused s.takeGestures.1
  | _ => []

/-- The waiting gestures that a call takes from the surface without following them. -/
def Call.drops (s : Session σ) : Call σ → List Gesture
  | processGestures =>
    s.takeGestures.1.drop (s.takeGestures.2.upToRefused s.takeGestures.1).length
  | undo | redo => s.takeGestures.1
  | _ => []

/-- The waiting gestures that the calls of a run follow. -/
def followed (s : Session σ) : List (Call σ) → List Gesture
  | [] => []
  | call :: rest => call.follows s ++ (call.exec s).followed rest

end Session

namespace Session

variable {s s' : Session Canvas}

/-! ## Calls that leave the backlog alone -/

/-- What waits is still waiting, in front of what has been reported since. -/
def Waits (s s' : Session Canvas) : Prop := s.view.surface.pending <+: s'.view.surface.pending

instance : Std.Refl Waits := ⟨fun _ => List.prefix_rfl⟩

instance : IsTrans (Session Canvas) Waits := ⟨fun _ _ _ h h' => h.trans h'⟩

/-- The call, if it uses the canvas, takes no gesture from it. -/
def Call.Pushes (call : Call Canvas) : Prop :=
  ∀ use, call.Uses use → ∀ canvas : Canvas, canvas.pending <+: (use canvas).pending

theorem waits_of_eq (h : s'.view.surface.pending = s.view.surface.pending) : Waits s s' :=
  ⟨[], (List.append_nil _).trans h.symm⟩

theorem waits_of_view {events : List Event} {view : View Canvas}
    (hsurface : view.surface = s.view.surface) (h : s'.view = events.foldl View.project view) :
    Waits s s' := by
  obtain ⟨echoed, -, hpending⟩ := View.pending_projectAll events view
  unfold Waits
  rw [h, hpending, hsurface]
  exact List.prefix_append ..

theorem settle_waits {t : Session Canvas} (h : t.view.surface = s.view.surface) :
    Waits s t.settle :=
  waits_of_view h t.settle_view

theorem dispatch_waits (events : List Event) (s : Session Canvas) :
    Waits s (s.dispatch events) :=
  waits_of_view rfl rfl

theorem handleGesture_waits (gesture : Gesture) : Keeps Waits (handleGesture gesture) :=
  fun _ => settle_waits rfl

theorem applyOutcome_waits (outcome : Outcome) : Keeps Waits (applyOutcome outcome) := by
  intro s
  unfold applyOutcome
  rw [Attempt.exec_of]
  rcases s.propagation.apply s.editor outcome s.revision with ⟨_ | applied, p, editor⟩
  · exact settle_waits rfl
  · have htold : Waits s (dispatch applied.events { s with propagation := p, editor }) :=
      waits_of_view rfl rfl
    exact trans_of Waits htold (settle_waits rfl)

theorem attach_waits (s : Session Canvas) : Waits s s.attach := by
  refine waits_of_eq ?_
  unfold attach
  rw [schedule_view]

/-- The call takes the waiting gestures from the surface. -/
def Call.Takes : Call Canvas → Prop
  | processGestures | undo | redo => True
  | _ => False

/-- **A call that does not take the waiting gestures leaves them where they are.** -/
theorem Call.waits {call : Call Canvas} (htakes : ¬ call.Takes) (hpush : call.Pushes) :
    Waits s (call.exec s) := by
  -- The calls that take gestures are excluded; all others may draw, and drawing only adds to them.
  cases call with
  | undo | redo | processGestures => exact absurd trivial htakes
  | act | bundle | load => exact settle_waits rfl
  | setEnabled enabled =>
    show Waits s (s.setEnabled enabled)
    unfold Session.setEnabled
    cases enabled <;> exact settle_waits rfl
  | handleGesture gesture => exact handleGesture_waits gesture s
  | useSurface use => exact hpush use rfl s.view.surface
  | buildRequest => exact refl_of Waits s
  | redraw => exact waits_of_eq (pending_redraw s)
  | highlight ids =>
    show Waits s (s.highlight ids)
    rcases highlight_cases ids s with heq | heq <;> rw [heq]
    · exact refl_of Waits s
    · exact dispatch_waits ..
  | unhighlight ids =>
    show Waits s (s.unhighlight ids)
    rcases unhighlight_cases ids s with heq | heq <;> rw [heq]
    · exact refl_of Waits s
    · exact dispatch_waits ..
  | attach => exact attach_waits s
  | connect =>
    show Waits s s.connect.2
    rcases connect_cases s with heq | heq <;> rw [heq]
    · exact refl_of Waits s
    · exact attach_waits s
  | advance service duration =>
    show Waits s (s.advance service duration).1
    rcases advance_cases service duration s with heq | ⟨d, -, heq⟩ <;> rw [heq] <;>
      exact refl_of Waits s
  | next service patience =>
    show Waits s (s.next service patience).2.1
    rcases next_cases service patience s with
      heq | ⟨d, _ | outcome, left, -, -, -, heq⟩ <;> rw [heq]
    · exact refl_of Waits s
    · exact refl_of Waits s
    · exact applyOutcome_waits outcome { s with dispatcher := some left }
  | pump =>
    refine pumpUpTo_keeps (fun htaken => ?_) applyOutcome_waits _ s
    obtain ⟨d, left, -, -, rfl⟩ := takeOutcome?_eq_some htaken
    exact refl_of Waits _
  | applyOutcome outcome => exact applyOutcome_waits outcome s

/-! ## Processing -/

/-- Following gestures switches no replay on or off. -/
theorem followEach_sameReplaying (s : Session Canvas) (gestures : List Gesture) :
    SameReplaying s (s.followEach gestures) := by
  induction gestures generalizing s with
  | nil => exact refl_of SameReplaying s
  | cons gesture rest ih =>
    exact trans_of SameReplaying (handleGesture_sameReplaying gesture s) (ih _)

/-- **What processing does to the gestures that wait.**  They are followed in their order, outside
of any replay, up to the first that is refused.  What is reported afterwards echoes what the call
has told: none of those that were left over waits any longer. -/
structure Processes (s : Session Canvas) : Prop where
  /-- Some are followed, and the others are dropped. -/
  split : s.view.surface.pending =
    Call.processGestures.follows s ++ Call.processGestures.drops s
  session : (processGestures.exec s).2 =
    s.takeGestures.2.followEach (Call.processGestures.follows s)
  outside : ∀ before, before <+: Call.processGestures.follows s →
    (s.takeGestures.2.followEach before).view.bridge.replaying = false
  answer : (∃ count, (processGestures.exec s).1 = .ok count) ∧ Call.processGestures.drops s = [] ∨
    ∃ cause before last, (processGestures.exec s).1 = .error cause ∧
      Call.processGestures.follows s = before ++ [last] ∧
      ((handleGesture last).exec (s.takeGestures.2.followEach before)).1 = .error cause
  reported : ∃ echoed : List Event, echoed.Sublist (Call.processGestures.tells s) ∧
    (processGestures.exec s).2.view.surface.pending = echoed.filterMap Event.echo?

/-- What is followed and what is dropped make up what was waiting. -/
theorem follows_append_drops (s : Session Canvas) : s.view.surface.pending =
    Call.processGestures.follows s ++ Call.processGestures.drops s := by
  obtain ⟨left, hleft⟩ := s.takeGestures.2.prefix_upToRefused s.takeGestures.1
  have hdrop : Call.processGestures.drops s = left := by
    show s.takeGestures.1.drop _ = left
    rw [← hleft, List.drop_left']
    rw [hleft]
  rw [hdrop]
  exact hleft.symm

theorem processes (hreplaying : s.view.bridge.replaying = false) : s.Processes := by
  obtain ⟨hsession, hanswer⟩ :=
    exec_foldlM_handleGesture s.takeGestures.1 0 s.takeGestures.2
  refine ⟨s.follows_append_drops, hsession, fun before _ => ?_, ?_, ?_⟩
  · exact (followEach_sameReplaying s.takeGestures.2 before).trans hreplaying
  · refine hanswer.imp_left fun ⟨htotal, hall⟩ => ⟨htotal, ?_⟩
    show s.takeGestures.1.drop (s.takeGestures.2.upToRefused s.takeGestures.1).length = []
    rw [hall, List.drop_length]
  · -- Nothing waits once the gestures are taken, so what waits afterwards was reported meanwhile.
    have hstages : Stages (fun _ => True) (fun _ => False) s.takeGestures.2
        (processGestures.exec s).2 :=
      handleAll_keeps (fun gesture _ _ => .single (.gesture trivial)) _
    have hstart : EchoesSince s s.takeGestures.2 :=
      ⟨[], [], (List.append_nil _).symm, .slnil, rfl⟩
    obtain ⟨told, echoed, htold, hsub, hpending⟩ := hstages.echoes hstart
    refine ⟨echoed, ?_, hpending⟩
    have htells : Call.processGestures.tells s = told := by
      show (processGestures.exec s).2.published.drop s.published.length = told
      rw [htold, List.drop_left]
    rw [htells]
    exact hsub

/-! ## After every run -/

/-- **Each gesture that waits is followed by the call, is dropped by it, or waits still.** -/
theorem Call.backlog {call : Call Canvas} (hpush : call.Pushes) : s.view.surface.pending <+:
    call.follows s ++ call.drops s ++ (call.exec s).view.surface.pending := by
  by_cases htakes : call.Takes
  · cases call with
    | processGestures =>
      rw [← follows_append_drops]
      exact List.prefix_append ..
    | undo | redo => exact List.prefix_append ..
    | _ => exact htakes.elim
  · have hneither : call.follows s = [] ∧ call.drops s = [] := by
      cases call <;> first | exact ⟨rfl, rfl⟩ | exact absurd trivial htakes
    rw [hneither.1, hneither.2]
    exact Call.waits htakes hpush

/-- Where no call of a run drops any, the gestures that wait are followed in their order, and then
come those that wait still. -/
theorem backlog_of_kept {calls : List (Call Canvas)} (hpush : ∀ call ∈ calls, call.Pushes)
    (hkept : ¬ s.Ever (fun s call => call.drops s ≠ []) calls) :
    s.view.surface.pending <+: s.followed calls ++ (s.after calls).view.surface.pending := by
  induction calls generalizing s with
  | nil => exact List.prefix_rfl
  | cons call rest ih =>
    obtain ⟨hcall, hrest⟩ := not_or.mp hkept
    have hone := call.backlog (s := s) (hpush call List.mem_cons_self)
    rw [not_not.mp hcall, List.append_nil] at hone
    have hmore := ih (s := call.exec s) (fun other hmem =>
      hpush other (List.mem_cons_of_mem _ hmem)) hrest
    refine hone.trans ?_
    rw [followed, List.append_assoc]
    exact (List.prefix_append_right_inj _).mpr hmore

theorem followed_append (s : Session Canvas) (calls more : List (Call Canvas)) :
    s.followed (calls ++ more) = s.followed calls ++ (s.after calls).followed more := by
  induction calls generalizing s with
  | nil => rfl
  | cons call rest ih =>
    rw [List.cons_append, followed, ih, followed, List.append_assoc]
    rfl

/-- **What becomes of the gestures that wait**, in every session that can be reached.  Processing
follows them in their order and outside of any replay, up to the first that is refused, and drops
those behind it; replays drop all of them; all other calls let them wait.  So where no call of a
run drops any, each has been followed in its turn, or it waits in front of whatever was reported
later; and once they are processed without a refusal, each has been followed. -/
theorem backlog_after (catalogue : Catalogue) (settings : Settings) (clock : Nat → Nat)
    (surface : Canvas) (calls : List (Call Canvas)) :
    let s := (start catalogue settings clock surface).after calls
    s.Processes ∧
    (Call.undo.exec s).view.surface.pending = [] ∧ (Call.redo.exec s).view.surface.pending = [] ∧
    (∀ call : Call Canvas, ¬ call.Takes → call.Pushes →
      s.view.surface.pending <+: (call.exec s).view.surface.pending) ∧
    ∀ later : List (Call Canvas), (∀ call ∈ later, call.Pushes) →
      ¬ s.Ever (fun s call => call.drops s ≠ []) later →
      s.view.surface.pending <+: s.followed later ++ (s.after later).view.surface.pending ∧
      ∀ count, (processGestures.exec (s.after later)).1 = .ok count →
        s.view.surface.pending <+: s.followed (later ++ [.processGestures]) := by
  intro s
  have hreplaying : s.view.bridge.replaying = false := after_replaying rfl calls
  refine ⟨processes hreplaying, pending_replay .., pending_replay .., fun call => Call.waits,
    fun later hpush hkept => ?_⟩
  have hwaiting := backlog_of_kept hpush hkept
  refine ⟨hwaiting, fun count hok => ?_⟩
  have hprocesses : (s.after later).Processes := processes (after_replaying hreplaying later)
  have hnone : Call.processGestures.drops (s.after later) = [] := by
    rcases hprocesses.answer with ⟨-, hnone⟩ | ⟨cause, -, -, herror, -⟩
    · exact hnone
    · cases hok.symm.trans herror
  have hall : (s.after later).followed [.processGestures] =
      (s.after later).view.surface.pending := by
    rw [hprocesses.split, hnone]
    rfl
  rw [followed_append, hall]
  exact hwaiting

/-- Two moves that wait while an operator is disabled are both followed once they are processed. -/
theorem backlog_after_moves :
    let scan (id : OperatorId) : Operator := ⟨id, "Scan", "1", .object [], [], [], false⟩
    let moves : List Gesture := [.shapeMoved "a" ⟨⟨1⟩, 0⟩, .shapeMoved "b" ⟨⟨2⟩, 0⟩]
    let s := (start (.ofMetadata ⟨[⟨"Scan", .object [], ⟨"Scan", none, "Input", 0, 0⟩, "1"⟩], []⟩)
      .initial id (Canvas.empty true)).after
        [.act (.addAll [(scan "a", .origin), (scan "b", .origin)] []),
          .useSurface fun canvas =>
            moves.foldl (fun canvas gesture => canvas.report gesture) canvas]
    let later : List (Call Canvas) := [.act (.setDisabled ["a"] true)]
    s.view.surface.pending = moves ∧ (∀ call ∈ later, call.Pushes) ∧
      ¬ s.Ever (fun s call => call.drops s ≠ []) later ∧
      (processGestures.exec (s.after later)).1 = .ok 2 ∧
      moves <+: s.followed (later ++ [.processGestures]) := by
  intro scan moves s later
  have hwaiting : s.view.surface.pending = moves := by decide +kernel
  have hpush : ∀ call ∈ later, call.Pushes := by
    intro call hmem use huse
    rw [List.mem_singleton.mp hmem] at huse
    exact huse.elim
  have hkept : ¬ s.Ever (fun s call => call.drops s ≠ []) later := by
    rintro (hdrops | hnone)
    · exact hdrops rfl
    · exact hnone
  have hok : (processGestures.exec (s.after later)).1 = .ok 2 := by decide +kernel
  obtain ⟨-, -, -, -, hlater⟩ := backlog_after _ .initial id (Canvas.empty true) _
  refine ⟨hwaiting, hpush, hkept, hok, ?_⟩
  rw [← hwaiting]
  exact (hlater later hpush hkept).2 2 hok

/-- **Gestures that wait behind a refused one are lost, and so are those that wait when history is
replayed.**  Of two moves that wait, the first is refused while the pipeline is locked, and the
second does not wait any longer; and undoing drops both.  Processing has nothing to do afterwards,
although the graph would still admit the move that was never followed. -/
theorem backlog_lost :
    let scan (id : OperatorId) : Operator := ⟨id, "Scan", "1", .object [], [], [], false⟩
    let moves : List Gesture := [.shapeMoved "a" ⟨⟨1⟩, 0⟩, .shapeMoved "b" ⟨⟨2⟩, 0⟩]
    let s := (start (.ofMetadata ⟨[⟨"Scan", .object [], ⟨"Scan", none, "Input", 0, 0⟩, "1"⟩], []⟩)
      .initial id (Canvas.empty false)).after
        [.act (.addOperator (scan "a") .origin), .act (.addOperator (scan "b") .origin),
          .useSurface fun canvas =>
            moves.foldl (fun canvas gesture => canvas.report gesture) canvas]
    let locked := (Call.setEnabled false).exec s
    let stopped := Call.processGestures.exec locked
    let unlocked := (Call.setEnabled true).exec stopped
    let undone := Call.undo.exec s
    s.view.surface.pending = moves ∧ locked.view.surface.pending = moves ∧
      ((processGestures.exec locked).1 = .error .locked ∧
        Call.processGestures.follows locked = [.shapeMoved "a" ⟨⟨1⟩, 0⟩] ∧
        stopped.view.surface.pending = [] ∧
        (processGestures.exec unlocked).1 = .ok 0 ∧
        ((handleGesture (.shapeMoved "b" ⟨⟨2⟩, 0⟩)).exec unlocked).1 = .ok 1) ∧
      ((Session.undo.exec s).1 = .ok true ∧ undone.view.surface.pending = [] ∧
        (processGestures.exec undone).1 = .ok 0 ∧
        ((handleGesture (.shapeMoved "a" ⟨⟨1⟩, 0⟩)).exec undone).1 = .ok 1) := by
  intro scan moves s locked stopped unlocked undone
  refine ⟨?_, ?_, ⟨?_, ?_, ?_, ?_, ?_⟩, ?_, ?_, ?_, ?_⟩ <;> decide +kernel

end Session

end PipelineEditor
