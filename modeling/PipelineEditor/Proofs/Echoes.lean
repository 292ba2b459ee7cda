import PipelineEditor.Proofs.Lasting
import PipelineEditor.Proofs.Marks

/-!
# Echoes

A canvas that echoes reports the removals and moves it is asked to draw as if the user had made
them.  An echo does nothing as long as the graph is still as the event behind it has left it.  A
call that goes back on one of its own steps leaves echoes that are outdated: following them takes
away a link that the call has put back, or moves an operator to where it stood in between.

## Main definitions

* `Session.EchoesSince s t`: what the canvas reports echoes events since then
* `Session.Quiet`: following the gestures that the surface reports does nothing
* `Session.Call.MakesOne s`: the call makes at most one change

## Main results

* `Session.Call.echoes`: what a canvas reports after a call echoes events of the call
* `Session.quiet_iff_lasts`: echoes do nothing just if the events behind them last
* `Session.echoes_after`: this is so after every run, and single calls and replays are quiet
* `Session.echoes_after_load`: loading the same pipeline again takes its links away
-/

namespace PipelineEditor

open Attempt (Keeps)

/-! ## What is reported as events are shown -/

namespace View

/-- An event that is shown is echoed at most once. -/
theorem pending_project (view : View Canvas) (event : Event) :
    (view.project event).surface.pending = view.surface.pending ∨
      ∃ gesture, event.echo? = some gesture ∧
        (view.project event).surface.pending = view.surface.pending ++ [gesture] := by
  have hreport (canvas : Canvas) (gesture : Gesture) :
      (canvas.reportEcho gesture).pending = canvas.pending ∨
        (canvas.reportEcho gesture).pending = canvas.pending ++ [gesture] := by
    unfold Canvas.reportEcho
    split
    · exact .inr rfl
    · exact .inl rfl
  cases event with
  | operatorAdded op position =>
    unfold project drawOperator
    dsimp only
    split <;> exact .inl rfl
  | linkDeleted link =>
    unfold project eraseLink
    dsimp only
    split
    · -- A shape that is not drawn is not removed, so there is nothing to echo.
      simp only [draw, Surface.removeLink]
      split
      · exact (hreport _ _).imp_right fun h => ⟨_, rfl, h⟩
      · exact .inl rfl
    · exact .inl rfl
  | operatorMoved id position =>
    exact (hreport _ _).imp_right fun h => ⟨_, rfl, h⟩
  | operatorsHighlighted ids | operatorsUnhighlighted ids =>
    exact .inl (highlightAll_eq (f := fun view => view.surface.pending) (fun _ _ => rfl) ids view)
  | _ => exact .inl rfl

/-- **What a canvas reports as it shows events echoes some of them**, in their order. -/
theorem pending_projectAll (events : List Event) (view : View Canvas) :
    ∃ echoed : List Event, echoed.Sublist events ∧
      (events.foldl project view).surface.pending =
        view.surface.pending ++ echoed.filterMap Event.echo? := by
  induction events generalizing view with
  | nil => exact ⟨[], .slnil, (List.append_nil _).symm⟩
  | cons event rest ih =>
    obtain ⟨echoed, hsub, hrest⟩ := ih (view.project event)
    rcases view.pending_project event with hsame | ⟨gesture, hecho, hmore⟩
    · exact ⟨echoed, hsub.cons event, hrest.trans (by rw [hsame])⟩
    · refine ⟨event :: echoed, hsub.cons_cons event, hrest.trans ?_⟩
      rw [hmore, List.filterMap_cons_some hecho, List.append_assoc]
      rfl

/-- Where nothing is echoed, nothing is reported. -/
theorem pending_projectAll_of_silent {events : List Event}
    (hsilent : ∀ event ∈ events, event.echo? = none) (view : View Canvas) :
    (events.foldl project view).surface.pending = view.surface.pending := by
  obtain ⟨echoed, hsub, hpending⟩ := pending_projectAll events view
  rw [hpending, List.filterMap_eq_nil_iff.mpr fun event hmem => hsilent event (hsub.subset hmem),
    List.append_nil]

end View

/-! ## What is reported after a call -/

namespace Session

variable {s t t' : Session Canvas} {catalogue : Catalogue}

/-- **What the canvas reports echoes events since then**, some of them and in their order. -/
def EchoesSince (s t : Session Canvas) : Prop :=
  ∃ told echoed : List Event, t.published = s.published ++ told ∧ echoed.Sublist told ∧
    t.view.surface.pending = echoed.filterMap Event.echo?

theorem EchoesSince.shown (h : EchoesSince s t) {events : List Event} (view : View Canvas)
    (hsurface : view.surface = t.view.surface) (hview : t'.view = events.foldl View.project view)
    (hpublished : t'.published = t.published ++ events) : EchoesSince s t' := by
  obtain ⟨told, echoed, htold, hsub, hpending⟩ := h
  obtain ⟨echoed', hsub', hpending'⟩ := View.pending_projectAll events view
  refine ⟨told ++ events, echoed ++ echoed', ?_, hsub.append hsub', ?_⟩
  · rw [hpublished, htold, List.append_assoc]
  · rw [hview, hpending', hsurface, hpending, List.filterMap_append]

theorem EchoesSince.of_eq (h : EchoesSince s t) (hpending : t'.view.surface.pending =
    t.view.surface.pending) (hpublished : t'.published = t.published) : EchoesSince s t' := by
  obtain ⟨told, echoed, htold, hsub, heq⟩ := h
  exact ⟨told, echoed, hpublished.trans htold, hsub, hpending.trans heq⟩

/-- A redraw is not echoed. -/
theorem pending_redraw (s : Session Canvas) :
    s.redraw.view.surface.pending = s.view.surface.pending := by
  have hstory : ∀ event ∈ s.graph.story, event.echo? = none := by
    intro event hmem
    simp only [Graph.story, Graph.linkStory, List.mem_append, List.mem_map, List.mem_flatMap,
      List.mem_cons] at hmem
    rcases hmem with ⟨op, -, rfl⟩ | ⟨link, -, rfl | ⟨breakpoint, -, rfl⟩⟩ <;> rfl
  have hverdicts : ∀ event ∈ s.validation.verdicts, event.echo? = none := by
    intro event hmem
    obtain ⟨entry, -, rfl⟩ := List.mem_map.mp hmem
    rfl
  rw [redraw_view, View.pending_projectAll_of_silent hverdicts, View.redraw_eq, List.foldl_append,
    View.pending_projectAll_of_silent (List.forall_mem_singleton.mpr rfl),
    View.pending_projectAll_of_silent hstory]
  rfl

/-- Each stage is echoed, and nothing else is, if the host does not use the surface. -/
theorem Stage.echoes {gestures : Gesture → Prop} (h : EchoesSince s t)
    (hstage : Stage gestures (fun _ => False) t t') : EchoesSince s t' := by
  cases hstage with
  | edit => exact h.shown t.view rfl (settle_view _) (settle_published _)
  | @gesture gesture =>
    exact h.shown (t.forward gesture).2.view rfl (settle_view _) (settle_published _)
  | tell => exact h.shown t.view rfl rfl rfl
  | highlight ids =>
    rcases highlight_cases ids t with heq | heq <;> rw [heq]
    · exact h
    · exact h.shown t.view rfl rfl rfl
  | unhighlight ids =>
    rcases unhighlight_cases ids t with heq | heq <;> rw [heq]
    · exact h
    · exact h.shown t.view rfl rfl rfl
  | redraw => exact h.of_eq (pending_redraw t) rfl
  | use huse => exact huse.elim
  | takeGestures =>
    obtain ⟨told, -, htold, -⟩ := h
    exact ⟨told, [], htold, List.nil_sublist told, rfl⟩
  | exchange | setReplaying => exact h.of_eq rfl rfl

theorem Stages.echoes {gestures : Gesture → Prop} (h : EchoesSince s t)
    (hstages : Stages gestures (fun _ => False) t t') : EchoesSince s t' := by
  induction hstages with
  | refl => exact h
  | tail _ hstage ih => exact hstage.echoes ih

/-- **What the canvas reports after a call echoes events of the call**, if it had nothing to report
before. -/
theorem Call.echoes {call : Call Canvas} (huse : ∀ use, ¬ call.Uses use)
    (hempty : s.view.surface.pending = []) :
    ∃ echoed : List Event, echoed.Sublist (call.tells s) ∧
      (call.exec s).view.surface.pending = echoed.filterMap Event.echo? := by
  have hstages : Stages (fun _ => True) (fun _ => False) s (call.exec s) :=
    call.stages s (fun _ _ => trivial) huse
  have hstart : EchoesSince s s := ⟨[], [], (List.append_nil _).symm, .slnil, hempty⟩
  have hechoes := hstages.echoes hstart
  obtain ⟨told, echoed, htold, hsub, hpending⟩ := hechoes
  refine ⟨echoed, ?_, hpending⟩
  rw [tells, htold, List.drop_left]
  exact hsub

end Session

/-! ## Following echoes -/

namespace Bridge

variable {bridge : Bridge} {g : Graph} {event : Event} {gesture : Gesture}

/-- An echo of what lasts asks for nothing. -/
theorem lift_of_lasts (hecho : event.echo? = some gesture) (h : event.Lasts g) (bridge : Bridge) :
    (bridge.lift g gesture).1 = [] := by
  unfold lift
  split
  · rfl
  · cases event with
    | linkDeleted link =>
      cases hecho
      have hgone : g.hasLink link.id = false := by
        unfold Graph.hasLink
        rw [Dict.contains_eq, show g.links.get? link.id = none from h]
        rfl
      simp [hgone]
    | operatorMoved id position =>
      cases hecho
      dsimp only
      split
      · rename_i current hget
        rw [if_pos (h current hget)]
      · rfl
    | _ => cases hecho

/-- An echo of what does not last asks for a change. -/
theorem lift_of_not_lasts (hecho : event.echo? = some gesture) (h : ¬ event.Lasts g)
    (hreplaying : bridge.replaying = false) :
    ∃ intent, (bridge.lift g gesture).1 = [intent] := by
  unfold lift
  rw [hreplaying]
  cases event with
  | linkDeleted link =>
    cases hecho
    have hthere : g.hasLink link.id = true := by
      unfold Graph.hasLink
      rw [Dict.contains_eq, Option.isSome_iff_ne_none]
      exact h
    exact ⟨.deleteLink link.id, by simp [hthere]⟩
  | operatorMoved id position =>
    cases hecho
    have helsewhere : ∃ current, g.positions.get? id = some current ∧
        ¬ current.same position = true := by
      by_contra hnone
      exact h fun current hget => by_contra fun hsame => hnone ⟨current, hget, hsame⟩
    obtain ⟨current, hget, hsame⟩ := helsewhere
    exact ⟨.moveOperator id position, by simp [hget, hsame]⟩
  | _ => cases hecho

/-- **Only shapes have changed.** -/
structure Reshaped (bridge bridge' : Bridge) : Prop where
  highlighted : bridge'.highlighted = bridge.highlighted
  replaying : bridge'.replaying = bridge.replaying

theorem Reshaped.trans {bridge bridge' bridge'' : Bridge} (h : bridge.Reshaped bridge')
    (h' : bridge'.Reshaped bridge'') : bridge.Reshaped bridge'' :=
  ⟨h'.highlighted.trans h.highlighted, h'.replaying.trans h.replaying⟩

theorem reshaped_foldl {step : Bridge → LinkId → Bridge}
    (hstep : ∀ (bridge : Bridge) id, bridge.Reshaped (step bridge id)) (ids : List LinkId)
    (bridge : Bridge) : bridge.Reshaped (ids.foldl step bridge) := by
  induction ids generalizing bridge with
  | nil => exact ⟨rfl, rfl⟩
  | cons id rest ih => exact (hstep bridge id).trans (ih _)

theorem lift_reshaped (bridge : Bridge) (g : Graph) (gesture : Gesture) :
    bridge.Reshaped (bridge.lift g gesture).2 := by
  unfold lift
  split
  · exact ⟨rfl, rfl⟩
  · cases gesture with
    | shapesDeleted operators links =>
      have hdrop : ∀ (bridge : Bridge) id, bridge.Reshaped (bridge.dropShape id) :=
        fun _ _ => ⟨rfl, rfl⟩
      exact reshaped_foldl hdrop links bridge
    | linkEndMoved id moved destination =>
      dsimp only
      split <;> exact ⟨rfl, rfl⟩
    | shapeMoved id position =>
      dsimp only
      split <;> exact ⟨rfl, rfl⟩
    | _ => exact ⟨rfl, rfl⟩

/-- **Gestures change nothing of a bridge but shapes.** -/
theorem forward_reshaped (bridge : Bridge) (e : Editor) (gesture : Gesture) :
    bridge.Reshaped (bridge.forward e gesture).2.1 := by
  have hlift := bridge.lift_reshaped e.graph gesture
  rcases bridge.forward_cases e gesture with ⟨e', -, heq⟩ | ⟨cause, e', -, heq⟩
  · rw [heq]
    exact hlift
  · rw [heq]
    refine hlift.trans (reshaped_foldl (fun bridge id => ?_) _ _)
    unfold restoreShape
    split <;> exact ⟨rfl, rfl⟩

/-- An echo of what lasts does nothing. -/
theorem forward_of_lasts (hecho : event.echo? = some gesture) {e : Editor}
    (h : event.Lasts e.graph) (bridge : Bridge) : ∃ bridge', bridge.forward e gesture =
      (.ok 0, bridge', e) := by
  have hlift := lift_of_lasts hecho h bridge
  have hexec : (Intent.performAll (bridge.lift e.graph gesture).1).exec e = (.ok (), e) := by
    rw [hlift]
    rfl
  rcases bridge.forward_cases e gesture with ⟨e', hexec', heq⟩ | ⟨cause, e', hexec', -⟩
  · cases hexec.symm.trans hexec'
    rw [hlift] at heq
    exact ⟨_, heq⟩
  · cases hexec.symm.trans hexec'

end Bridge

namespace Session

variable {σ : Type} [Surface σ] {s : Session σ} {event : Event} {gesture : Gesture}

/-- **Following the gestures that the surface reports does nothing** to pipeline and history. -/
def Quiet (s : Session σ) : Prop :=
  (processGestures.exec s).1 = .ok 0 ∧ s.Untouched (processGestures.exec s).2

theorem handleGesture_of_lasts (hecho : event.echo? = some gesture) (h : event.Lasts s.graph) :
    ∃ s', (handleGesture gesture).exec s = (.ok 0, s') ∧ s.Untouched s' ∧
      s'.view.bridge.replaying = s.view.bridge.replaying := by
  obtain ⟨bridge, hforward⟩ := Bridge.forward_of_lasts hecho h s.view.bridge
  have hreplaying := (s.view.bridge.forward_reshaped s.editor gesture).replaying
  have hexec : (handleGesture gesture).exec s =
      (.ok 0, settle { s with view := { s.view with bridge } }) := by
    unfold handleGesture forward
    rw [Attempt.exec_of, hforward]
  rw [hforward] at hreplaying
  refine ⟨_, hexec, ⟨settle_graph _, ?_⟩, (settle_replaying _).trans hreplaying⟩
  rw [settle_editor]
  rfl

/-- An echo of what does not last is refused, or is a request that is made. -/
theorem pos_of_handleGesture (hecho : event.echo? = some gesture) (h : ¬ event.Lasts s.graph)
    (hreplaying : s.view.bridge.replaying = false) {count : Nat}
    (hok : ((handleGesture gesture).exec s).1 = .ok count) : 0 < count := by
  obtain ⟨intent, hlift⟩ := Bridge.lift_of_not_lasts hecho h hreplaying
  have hresult : (s.view.bridge.forward s.editor gesture).1 = .ok count := hok
  rcases s.view.bridge.forward_cases s.editor gesture with ⟨e', -, heq⟩ | ⟨cause, e', -, heq⟩
  · rw [heq] at hresult
    cases hresult
    show 0 < (s.view.bridge.lift s.graph gesture).1.length
    rw [hlift]
    exact Nat.one_pos
  · rw [heq] at hresult
    cases hresult

/-- The count of requests only grows. -/
theorem le_of_exec_foldlM {gestures : List Gesture} {count total : Nat} {s s' : Session σ}
    (h : (gestures.foldlM (fun count gesture => do return count + (← handleGesture gesture)) count :
      Attempt (Session σ) Nat).exec s = (.ok total, s')) : count ≤ total := by
  induction gestures generalizing count s with
  | nil =>
    cases h
    exact Nat.le_refl _
  | cons gesture rest ih =>
    rw [List.foldlM_cons] at h
    obtain ⟨next, t, hfirst, hrest⟩ := Attempt.exec_bind_eq_ok_iff.mp h
    obtain ⟨more, t', -, hcount⟩ := Attempt.exec_bind_eq_ok_iff.mp hfirst
    cases hcount
    have := ih hrest
    omega

/-- A gesture that does nothing is passed over. -/
theorem exec_handleAll_cons {rest : List Gesture} {s' : Session σ}
    (h : (handleGesture gesture).exec s = (.ok 0, s')) :
    (handleAll (gesture :: rest)).exec s = (handleAll rest).exec s' := by
  unfold handleAll
  rw [List.foldlM_cons, Attempt.exec_bind, Attempt.exec_bind, h]
  rfl

/-- **Echoes do nothing just if the events behind them last**, where no replay is on.  An echo that
does nothing leaves the graph as it is for the next. -/
theorem handleAll_echoes (hreplaying : s.view.bridge.replaying = false) (echoed : List Event) :
    (((handleAll (echoed.filterMap Event.echo?)).exec s).1 = .ok 0 ↔
      ∀ event ∈ echoed, event.Lasts s.graph) ∧
    ((∀ event ∈ echoed, event.Lasts s.graph) →
      s.Untouched ((handleAll (echoed.filterMap Event.echo?)).exec s).2) := by
  induction echoed generalizing s with
  | nil => exact ⟨⟨fun _ _ hmem => (nomatch hmem), fun _ => rfl⟩, fun _ => ⟨rfl, rfl⟩⟩
  | cons event rest ih =>
    rw [List.forall_mem_cons]
    cases hecho : event.echo? with
    | none =>
      -- What is not echoed lasts anyway.
      have hlasts := Event.lasts_of_echo?_eq_none hecho s.graph
      obtain ⟨hiff, huntouched⟩ := ih hreplaying
      rw [List.filterMap_cons_none hecho]
      exact ⟨hiff.trans (and_iff_right hlasts).symm, fun h => huntouched h.2⟩
    | some gesture =>
      rw [List.filterMap_cons_some hecho]
      by_cases hlasts : event.Lasts s.graph
      · obtain ⟨s', hexec, hsame, hreplaying'⟩ := handleGesture_of_lasts hecho hlasts
        obtain ⟨hiff, huntouched⟩ := ih (hreplaying'.trans hreplaying)
        rw [exec_handleAll_cons hexec, and_iff_right hlasts, ← hsame.1]
        exact ⟨hiff, fun h => hsame.trans (huntouched h)⟩
      · refine ⟨⟨fun hok => ?_, fun h => absurd h.1 hlasts⟩, fun h => absurd h.1 hlasts⟩
        -- The first request counts, and what follows takes nothing off the count.
        unfold handleAll at hok
        rw [List.foldlM_cons] at hok
        obtain ⟨next, t, hfirst, hrest⟩ := Attempt.exec_bind_eq_ok_iff.mp (Prod.ext hok rfl)
        obtain ⟨count, t', hgesture, hcount⟩ := Attempt.exec_bind_eq_ok_iff.mp hfirst
        cases hcount
        have hpos := pos_of_handleGesture hecho hlasts hreplaying (congrArg Prod.fst hgesture)
        have hle := le_of_exec_foldlM hrest
        omega

end Session

namespace Session

variable {s : Session Canvas}

/-- **A session is quiet just if the events that were echoed last.** -/
theorem quiet_iff_lasts (hreplaying : s.view.bridge.replaying = false) {echoed : List Event}
    (hpending : s.view.surface.pending = echoed.filterMap Event.echo?) :
    s.Quiet ↔ ∀ event ∈ echoed, event.Lasts s.graph := by
  have hexec : processGestures.exec s =
      (handleAll (echoed.filterMap Event.echo?)).exec s.takeGestures.2 := by
    rw [← hpending]
    rfl
  obtain ⟨hiff, huntouched⟩ := handleAll_echoes (s := s.takeGestures.2) hreplaying echoed
  unfold Quiet
  rw [hexec]
  constructor
  · intro h
    exact hiff.mp h.1
  · intro h
    exact ⟨hiff.mpr h, huntouched h⟩

end Session

/-! ## Between calls no replay is on -/

namespace Session

variable {σ : Type} [Surface σ] {s : Session σ}

omit [Surface σ] in
/-- Whether a replay is on has not changed. -/
def SameReplaying (s s' : Session σ) : Prop :=
  s'.view.bridge.replaying = s.view.bridge.replaying

omit [Surface σ] in
instance : Std.Refl (SameReplaying (σ := σ)) := ⟨fun _ => rfl⟩

omit [Surface σ] in
instance : IsTrans (Session σ) SameReplaying := ⟨fun _ _ _ h h' => h'.trans h⟩

theorem handleGesture_sameReplaying (gesture : Gesture) :
    Keeps SameReplaying (handleGesture gesture : Attempt (Session σ) Nat) := fun s =>
  (settle_replaying _).trans (s.view.bridge.forward_reshaped s.editor gesture).replaying

theorem dispatch_sameReplaying (events : List Event) (s : Session σ) :
    SameReplaying s (s.dispatch events) :=
  View.foldl_project_replaying events s.view

theorem applyOutcome_sameReplaying (outcome : Outcome) :
    Keeps SameReplaying (applyOutcome outcome : Attempt (Session σ) Applied) := by
  intro s
  unfold SameReplaying applyOutcome
  rw [Attempt.exec_of]
  rcases s.propagation.apply s.editor outcome s.revision with ⟨_ | applied, p, editor⟩
  · exact settle_replaying _
  · exact (settle_replaying _).trans (dispatch_sameReplaying applied.events _)

theorem redraw_sameReplaying (s : Session σ) : SameReplaying s s.redraw := by
  unfold SameReplaying
  rw [redraw_bridge, View.redraw_eq, View.foldl_project_replaying]
  rfl

omit [Surface σ] in
theorem attach_sameReplaying (s : Session σ) : SameReplaying s s.attach := by
  unfold SameReplaying attach
  rw [schedule_view]

/-- **After a call no replay is on**, if none was before. -/
theorem Call.replaying (h : s.view.bridge.replaying = false) (call : Call σ) :
    (call.exec s).view.bridge.replaying = false := by
  have hsame {s' : Session σ} (hsame : SameReplaying s s') :
      s'.view.bridge.replaying = false := hsame.trans h
  -- Replays take the flag back themselves; all other calls leave it alone.
  cases call with
  | undo | redo => rfl
  | act | bundle | load => exact hsame (settle_replaying _)
  | setEnabled enabled =>
    show (s.setEnabled enabled).view.bridge.replaying = false
    unfold Session.setEnabled
    cases enabled <;> exact hsame (settle_replaying _)
  | handleGesture gesture => exact hsame (handleGesture_sameReplaying gesture s)
  | processGestures =>
    exact hsame (handleAll_keeps (fun gesture _ => handleGesture_sameReplaying gesture) _)
  | useSurface | buildRequest => exact h
  | redraw => exact hsame (redraw_sameReplaying s)
  | highlight ids =>
    show (s.highlight ids).view.bridge.replaying = false
    rcases highlight_cases ids s with heq | heq <;> rw [heq]
    · exact h
    · exact hsame (dispatch_sameReplaying ..)
  | unhighlight ids =>
    show (s.unhighlight ids).view.bridge.replaying = false
    rcases unhighlight_cases ids s with heq | heq <;> rw [heq]
    · exact h
    · exact hsame (dispatch_sameReplaying ..)
  | attach => exact hsame (attach_sameReplaying s)
  | connect =>
    show s.connect.2.view.bridge.replaying = false
    rcases connect_cases s with heq | heq <;> rw [heq]
    · exact h
    · exact hsame (attach_sameReplaying s)
  | advance service duration =>
    show (s.advance service duration).1.view.bridge.replaying = false
    rcases advance_cases service duration s with heq | ⟨d, -, heq⟩ <;> rw [heq] <;> exact h
  | next service patience =>
    show (s.next service patience).2.1.view.bridge.replaying = false
    rcases next_cases service patience s with
      heq | ⟨d, _ | outcome, left, -, -, -, heq⟩ <;> rw [heq]
    · exact h
    · exact h
    · exact hsame (applyOutcome_sameReplaying outcome { s with dispatcher := some left })
  | pump =>
    refine hsame (pumpUpTo_keeps (fun htaken => ?_) applyOutcome_sameReplaying _ s)
    obtain ⟨d, left, -, -, rfl⟩ := takeOutcome?_eq_some htaken
    rfl
  | applyOutcome outcome => exact hsame (applyOutcome_sameReplaying outcome s)

theorem after_replaying (h : s.view.bridge.replaying = false) (calls : List (Call σ)) :
    (s.after calls).view.bridge.replaying = false := by
  induction calls generalizing s with
  | nil => exact h
  | cons call rest ih => exact ih (call.replaying h)

end Session

/-! ## Calls that make one change -/

namespace Session

variable {s t : Session Canvas} {catalogue : Catalogue}

/-- **The call makes at most one change.** -/
def Call.MakesOne (s : Session Canvas) : Call Canvas → Prop
  | act action => action.MakesOne
  | handleGesture gesture => (s.view.bridge.lift s.graph gesture).1.length ≤ 1
  | _ => False

/-- What lasts as it is announced lasts as it is handed on, with the findings that come of it. -/
theorem settle_lasts {call : Call Canvas} (hexec : call.exec s = t.settle)
    (hpublished : t.published = s.published) (hnumeric : Event.Numeric (call.tells s))
    (h : Event.Numeric t.editor.draft.announced →
      ∀ event ∈ t.editor.draft.announced, event.Lasts t.graph) :
    ∀ event ∈ call.tells s, event.Lasts (call.exec s).graph := by
  have htells : call.tells s = t.editor.draft.announced ++ t.findings := by
    rw [Call.tells, hexec, settle_published, hpublished, List.drop_left]
  rw [htells] at hnumeric ⊢
  rw [hexec, settle_graph]
  intro event hmem
  rcases List.mem_append.mp hmem with hmem | hmem
  · exact h (fun id p hp => hnumeric id p (List.mem_append_left _ hp)) event hmem
  · have hstream := stream_findings t event hmem
    exact Event.lasts_of_echo?_eq_none (Event.echo?_of_stream (by simp [hstream]) (by simp [hstream])) _

/-- **What a call tells that makes at most one change lasts.** -/
theorem Call.MakesOne.lasts {call : Call Canvas} (h : call.MakesOne s) (hrest : s.AtRest catalogue)
    (hnumeric : Event.Numeric (call.tells s)) :
    ∀ event ∈ call.tells s, event.Lasts (call.exec s).graph := by
  have hcoherent := hrest.wellFormed.toCoherent
  cases call with
  | act action =>
    refine settle_lasts (t := { s with editor := (action.perform.exec s.editor).2 }) rfl rfl hnumeric
      fun hnumeric => ?_
    exact Editor.Single.lasts (Action.MakesOne.single h) hcoherent hrest.settled hnumeric
  | handleGesture gesture =>
    refine settle_lasts (t := (s.forward gesture).2) rfl rfl hnumeric fun hnumeric => ?_
    have heditor : (s.forward gesture).2.editor = _ := s.view.bridge.forward_editor s.editor gesture
    unfold Session.graph
    rw [heditor] at hnumeric ⊢
    exact Intent.lasts_performAll h hcoherent hrest.settled hnumeric
  | _ => exact h.elim

/-! ## After every run -/

/-- A replay leaves nothing to report. -/
theorem pending_replay (call : Attempt Editor Bool) (s : Session Canvas) :
    ((replay call).exec s).2.view.surface.pending = [] := by
  rw [exec_replay]
  rfl

/-- **What a canvas reports after a call echoes events of the call, and following it does nothing
just if these events last**, in every session that can be reached and has no gestures to follow.
After a call that makes at most one change, and moves operators to numbers only, following what is
reported does nothing; after a replay nothing is reported. -/
theorem echoes_after (catalogue : Catalogue) (settings : Settings) (clock : Nat → Nat)
    (surface : Canvas) (calls : List (Call Canvas))
    (hempty : ((start catalogue settings clock surface).after calls).view.surface.pending = []) :
    let s := (start catalogue settings clock surface).after calls
    (∀ call : Call Canvas, (∀ use, ¬ call.Uses use) → ∃ echoed : List Event,
      echoed.Sublist (call.tells s) ∧
      (call.exec s).view.surface.pending = echoed.filterMap Event.echo? ∧
      ((call.exec s).Quiet ↔ ∀ event ∈ echoed, event.Lasts (call.exec s).graph)) ∧
    (∀ call : Call Canvas, call.MakesOne s → Event.Numeric (call.tells s) →
      (call.exec s).Quiet) ∧
    (Call.undo.exec s).Quiet ∧ (Call.redo.exec s).Quiet := by
  intro s
  have hrest : s.AtRest catalogue := atRest_after catalogue settings clock surface calls
  have hreplaying : s.view.bridge.replaying = false := after_replaying rfl calls
  have hquiet {call : Call Canvas} {echoed : List Event}
      (hpending : (call.exec s).view.surface.pending = echoed.filterMap Event.echo?) :
      (call.exec s).Quiet ↔ ∀ event ∈ echoed, event.Lasts (call.exec s).graph :=
    quiet_iff_lasts (call.replaying hreplaying) hpending
  have hnone {call : Call Canvas} (hpending : (call.exec s).view.surface.pending = []) :
      (call.exec s).Quiet := by
    have hnothing : (call.exec s).view.surface.pending = List.filterMap Event.echo? [] := hpending
    exact (hquiet hnothing).mpr fun _ hmem => nomatch hmem
  refine ⟨fun call huse => ?_, fun call hone hnumeric => ?_, hnone (pending_replay ..),
    hnone (pending_replay ..)⟩
  · obtain ⟨echoed, hsub, hpending⟩ := Call.echoes huse hempty
    exact ⟨echoed, hsub, hpending, hquiet hpending⟩
  · have huse : ∀ use, ¬ call.Uses use := by
      intro use huse
      cases call <;> first | exact huse | exact hone
    obtain ⟨echoed, hsub, hpending⟩ := Call.echoes huse hempty
    exact (hquiet hpending).mpr fun event hmem => hone.lasts hrest hnumeric event (hsub.subset hmem)

/-- A move is echoed, and following the echo does nothing. -/
theorem echoes_after_move :
    let scan : Operator := ⟨"scan", "Scan", "1", .object [], [], [], false⟩
    let s := (start (.ofMetadata ⟨[⟨"Scan", .object [], ⟨"Scan", none, "Input", 0, 0⟩, "1"⟩], []⟩)
      .initial id (Canvas.empty true)).after [.act (.addOperator scan .origin)]
    let call : Call Canvas := .act (.moveOperator "scan" ⟨⟨1⟩, 0⟩)
    s.view.surface.pending = [] ∧ call.MakesOne s ∧
      call.tells s = [.operatorMoved "scan" ⟨⟨1⟩, 0⟩] ∧ Event.Numeric (call.tells s) ∧
      (call.exec s).view.surface.pending = [.shapeMoved "scan" ⟨⟨1⟩, 0⟩] ∧
      (call.exec s).Quiet := by
  intro scan s call
  have hempty : s.view.surface.pending = [] := by decide +kernel
  have htells : call.tells s = [.operatorMoved "scan" ⟨⟨1⟩, 0⟩] := by decide +kernel
  have hpending : (call.exec s).view.surface.pending = [.shapeMoved "scan" ⟨⟨1⟩, 0⟩] := by
    decide +kernel
  have hnumeric : Event.Numeric (call.tells s) := by
    rw [htells]
    intro id position hmem
    cases List.mem_singleton.mp hmem
    decide
  obtain ⟨-, hone, -⟩ := echoes_after _ .initial id (Canvas.empty true) _ hempty
  exact ⟨hempty, trivial, htells, hnumeric, hpending, hone call trivial hnumeric⟩

/-- **Loading the same pipeline again takes its links away** as soon as the echoes are followed, and
so does a deletion that is refused: the links are removed and put back, and their removal is
echoed. -/
theorem echoes_after_load :
    let scan : Operator := ⟨"scan", "Scan", "1", .object [], [], [⟨"output-0", ""⟩], false⟩
    let sink : Operator := ⟨"sink", "Sink", "1", .object [], [⟨"input-0", ""⟩], [], false⟩
    let link : Link := ⟨"l", ⟨"scan", "output-0"⟩, ⟨"sink", "input-0"⟩⟩
    let s := (start (.ofMetadata ⟨[⟨"Scan", .object [], ⟨"Scan", none, "Input", 0, 1⟩, "1"⟩,
        ⟨"Sink", .object [], ⟨"Sink", none, "Output", 1, 0⟩, "1"⟩], []⟩)
      .initial id (Canvas.empty true)).after
        [.act (.addAll [(scan, .origin), (sink, .origin)] [link])]
    let loaded := (Call.load s.content).exec s
    let refused := (Call.act (.deleteAll ["scan", "missing"] [])).exec s
    s.view.surface.pending = [] ∧
      (loaded.graph = s.graph ∧ loaded.graph.links.get? "l" = some link ∧ ¬ loaded.Quiet ∧
        (processGestures.exec loaded).1 = .ok 1 ∧
        (processGestures.exec loaded).2.graph.links.get? "l" = none) ∧
      (refused.graph = s.graph ∧ ¬ refused.Quiet ∧
        (processGestures.exec refused).1 = .ok 1 ∧
        (processGestures.exec refused).2.graph.links.get? "l" = none) := by
  intro scan sink link s loaded refused
  have hloaded : (processGestures.exec loaded).1 = .ok 1 := by decide +kernel
  have hrefused : (processGestures.exec refused).1 = .ok 1 := by decide +kernel
  have hloud {t : Session Canvas} (hone : (processGestures.exec t).1 = .ok 1) : ¬ t.Quiet := by
    intro hquiet
    cases hone.symm.trans hquiet.1
  refine ⟨?_, ⟨?_, ?_, hloud hloaded, hloaded, ?_⟩, ?_, hloud hrefused, hrefused, ?_⟩ <;>
    decide +kernel

end Session

end PipelineEditor
