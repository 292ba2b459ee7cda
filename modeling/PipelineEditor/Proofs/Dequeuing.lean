import PipelineEditor.Proofs.Peeling
import PipelineEditor.Proofs.Evolution

/-!
# The search takes each operator away once

As long as the counters count the links whose sources are still there, a counter that is lowered
counts at least the link on whose account it is lowered.  An operator is queued only when no link
into it is counted any more, and not again after it has been taken away; so the search ends after as
many steps as there are operators, in whatever order they were queued at first.

## Main definitions

* `Peeling.dequeued`: the operators that are taken from the queue in so many steps
* `Peeling.Lowers`: the states of the search at which a counter is lowered within a step
* `Graph.PeelsSafely`: what holds of every search that starts from the given queue

## Main results

* `Peeling.Lowers.step_eq`, `Peeling.contains_run_visited`: what is lowered is lowered by the step,
  and what is taken from the queue is what the run takes away
* `Peeling.Invariant.counter_of_lowers`: no counter is lowered that is zero
* `Peeling.Invariant.nodup_dequeued`: no operator is taken from the queue twice
* `Graph.Coherent.peels_safely`: every search of a coherent graph is safe
-/

namespace PipelineEditor

namespace Peeling

variable {g : Graph} {search : Peeling}

/-! ## Counters that are lowered -/

/-- **Within the next step the counter of an operator is lowered**, which finds the search in the
given state: the first operator has been taken from the queue, and the counters at the far ends of
some of its links have been lowered already. -/
def Lowers (links : List Link) (search between : Peeling) (target : OperatorId) : Prop :=
  ∃ id rest before link after, search.queue = id :: rest ∧
    links.filter (·.source.operator = id) = before ++ link :: after ∧
    between = before.foldl (fun s link => s.lower link.target.operator)
      { search with queue := rest, visited := search.visited.add id } ∧
    target = link.target.operator

/-- The step goes on from there with the counter lowered. -/
theorem Lowers.step_eq {links : List Link} {between : Peeling} {target : OperatorId}
    (h : search.Lowers links between target) :
    ∃ after : List Link, search.step links =
      after.foldl (fun s link => s.lower link.target.operator) (between.lower target) := by
  obtain ⟨id, rest, before, link, after, hqueue, hlinks, rfl, rfl⟩ := h
  refine ⟨after, ?_⟩
  rw [step, hqueue]
  simp only [hlinks, List.foldl_append, List.foldl_cons]

/-- **No counter is lowered that is zero.** -/
theorem Invariant.counter_of_lowers (hg : g.Coherent) (h : search.Invariant g)
    {between : Peeling} {target : OperatorId} (hlowers : search.Lowers g.links.values between target) :
    ∃ count, between.counters.get? target = some (count + 1) := by
  obtain ⟨id, rest, before, link, after, hqueue, hlinks, rfl, rfl⟩ := hlowers
  have htarget : ∀ other ∈ before ++ link :: after,
      g.hasOperator other.target.operator = true := fun other hmem =>
    hg.hasOperator_target (List.mem_filter.mp (hlinks ▸ hmem)).1
  have hremoved := h.dequeue hqueue
  rw [hlinks, List.append_assoc] at hremoved
  -- What has been lowered so far is no longer counted, and the link at hand still is.
  have hbetween := hremoved.foldl_lower fun other hmem =>
    htarget other (List.mem_append_left _ hmem)
  have hcount := hbetween.counter _ (htarget link (by simp))
  rw [List.cons_append, List.countP_cons_of_pos (by simp)] at hcount
  exact ⟨_, hcount⟩

/-! ## What is taken from the queue -/

/-- **The operators that are taken from the queue** in so many steps, in this order. -/
def dequeued (links : List Link) : Nat → Peeling → List OperatorId
  | 0, _ => []
  | steps + 1, search =>
    match search.queue with
    | [] => []
    | id :: _ => id :: dequeued links steps (search.step links)

/-- They are just those that the run adds to what has been taken away. -/
theorem contains_run_visited {links : List Link} {steps : Nat} {id : OperatorId} :
    (search.run links steps).visited.contains id = true ↔
      id ∈ search.dequeued links steps ∨ search.visited.contains id = true := by
  induction steps generalizing search with
  | zero => simp [run, dequeued]
  | succ steps ih =>
    rw [run, dequeued]
    cases hqueue : search.queue with
    | nil => simp
    | cons head rest =>
      rw [List.isEmpty_cons, if_neg Bool.false_ne_true, ih, step_visited hqueue,
        NameSet.contains_add, List.mem_cons, Bool.or_eq_true, decide_eq_true_eq]
      tauto

/-- **No operator is taken from the queue twice**, nor one that has been taken away before. -/
theorem Invariant.nodup_dequeued (hg : g.Coherent) (h : search.Invariant g) (steps : Nat) :
    (search.dequeued g.links.values steps).Nodup ∧
      ∀ id ∈ search.dequeued g.links.values steps, search.visited.contains id = false := by
  induction steps generalizing search with
  | zero => exact ⟨.nil, fun _ hid => nomatch hid⟩
  | succ steps ih =>
    rw [dequeued]
    cases hqueue : search.queue with
    | nil => exact ⟨.nil, fun _ hid => nomatch hid⟩
    | cons head rest =>
      have hhead : search.visited.contains head = false :=
        h.counts.waiting head (hqueue ▸ List.mem_cons_self)
      obtain ⟨hnodup, hlater⟩ := ih (h.step hg (by rw [hqueue]; rfl)).1
      -- What comes later is neither the first operator nor has it been taken away before.
      have hfresh : ∀ id ∈ (search.step g.links.values).dequeued g.links.values steps,
          id ≠ head ∧ search.visited.contains id = false := fun id hid => by
        have hnot := hlater id hid
        rw [step_visited hqueue, NameSet.contains_add, Bool.or_eq_false_iff,
          decide_eq_false_iff_not] at hnot
        exact ⟨by tauto, by tauto⟩
      refine ⟨List.nodup_cons.mpr ⟨fun hmem => (hfresh head hmem).1 rfl, hnodup⟩, fun id hid => ?_⟩
      rcases List.mem_cons.mp hid with rfl | hid
      · exact hhead
      · exact (hfresh id hid).2

/-- No more operators are taken from the queue than were left. -/
theorem Invariant.length_dequeued_le (hg : g.Coherent) (h : search.Invariant g) (steps : Nat) :
    (search.dequeued g.links.values steps).length ≤ (search.left g).length := by
  induction steps generalizing search with
  | zero => exact Nat.zero_le _
  | succ steps ih =>
    rw [dequeued]
    cases hqueue : search.queue with
    | nil => exact Nat.zero_le _
    | cons head rest =>
      obtain ⟨hstep, hlt⟩ := h.step hg (by rw [hqueue]; rfl)
      exact (Nat.succ_le_succ (ih hstep)).trans hlt

end Peeling

/-! ## Every search is safe -/

namespace Graph

variable {g : Graph} {roots : List OperatorId}

/-- **What holds of every search that starts from the given queue.** -/
structure PeelsSafely (g : Graph) (roots : List OperatorId) : Prop where
  /-- No operator is taken from the queue twice. -/
  once : ∀ steps, ((g.peelingFrom roots).dequeued g.links.values steps).Nodup
  /-- No more operators are taken from the queue than there are. -/
  few : ∀ steps,
    ((g.peelingFrom roots).dequeued g.links.values steps).length ≤ g.operators.size
  /-- A counter that is lowered is not zero. -/
  positive : ∀ steps between target,
    ((g.peelingFrom roots).run g.links.values steps).Lowers g.links.values between target →
      ∃ count, between.counters.get? target = some (count + 1)
  /-- The queue is empty after as many steps as there are operators. -/
  ends : ∀ steps, g.operators.size ≤ steps →
    ((g.peelingFrom roots).run g.links.values steps).queue = []
  /-- What is taken away does not depend on the order of the queue. -/
  order : ∀ other : List OperatorId, other.Perm roots →
    (g.peel other).visited = (g.peel roots).visited
  /-- Where an operator is left, a link between two operators is left. -/
  left : ∀ id, g.hasOperator id = true → (g.peel roots).visited.contains id = false →
    ∃ link ∈ g.links.values,
      (g.peel roots).visited.contains link.source.operator = false ∧
        (g.peel roots).visited.contains link.target.operator = false
  /-- No link is reported just where there is no cycle. -/
  reported : g.cycleLinkFrom? roots = none ↔ ∀ id, ¬ Relation.TransGen g.Leads id id

/-- **Every search of a coherent graph is safe**, in whatever order the operators into which no link
leads are queued at first. -/
theorem Coherent.peels_safely (h : g.Coherent) (hroots : roots.Perm g.roots) :
    g.PeelsSafely roots := by
  have hstart := invariant_peelingFrom hroots
  refine ⟨?once, ?few, ?positive, ?ends, ?order, ?left, ?reported⟩
  case once => exact fun steps => (hstart.nodup_dequeued h steps).1
  case few => exact fun steps => (hstart.length_dequeued_le h steps).trans length_left_peelingFrom_le
  case positive =>
    exact fun steps between target hlowers => (hstart.run h steps).counter_of_lowers h hlowers
  case ends =>
    exact fun steps hsteps => hstart.queue_run_eq_nil h (length_left_peelingFrom_le.trans hsteps)
  case order =>
    exact fun other hother =>
      (h.visited_peel_eq (hother.trans hroots)).trans (h.visited_peel_eq hroots).symm
  case left => exact fun id hop hid => h.exists_left_link hroots hop hid
  case reported => exact (h.cycleLinkFrom?_eq_none_iff hroots).trans h.forall_acc_iff

/-- Two links lead from one operator to another, and behind that one an operator is linked to
itself; the operators into which no link leads are queued in descending order. -/
theorem Coherent.peels_safely_ring :
    let scan (id : OperatorId) : Operator :=
      ⟨id, "Scan", "1", .object [], [], [⟨"output-0", ""⟩], false⟩
    let union (id : OperatorId) : Operator :=
      ⟨id, "Union", "1", .object [], [⟨"input-0", ""⟩, ⟨"input-1", ""⟩, ⟨"input-2", ""⟩],
        [⟨"output-0", ""⟩], false⟩
    let link (id : LinkId) (source target : OperatorId) (port : PortId) : Link :=
      ⟨id, ⟨source, "output-0"⟩, ⟨target, port⟩⟩
    let call : Attempt Editor Unit := Editor.addAll
      [(scan "fork", .origin), (union "join", .origin), (scan "other", .origin),
        (union "ring", .origin)]
      [link "k" "fork" "join" "input-0", link "l" "fork" "join" "input-1",
        link "m" "other" "join" "input-2", link "n" "join" "ring" "input-0",
        link "o" "ring" "ring" "input-1"]
    let g := (call.exec (.start (.ofMetadata ⟨[⟨"Scan", .object [], ⟨"Scan", none, "G", 0, 1⟩, "1"⟩,
      ⟨"Union", .object [], ⟨"Union", none, "G", 3, 1⟩, "1"⟩], []⟩) 100 500 id)).2.draft.graph
    let roots : List OperatorId := ["other", "fork"]
    g.Coherent ∧ roots.Perm g.roots ∧ g.PeelsSafely roots ∧
      (g.peelingFrom roots).dequeued g.links.values 4 = ["other", "fork", "join"] ∧
      g.cycleLinkFrom? roots = some "o" := by
  intro scan union link call g roots
  have hprogram : Program (fun _ => False) call := .act (.addAll _ _)
  have hcoherent : g.Coherent :=
    ((Editor.program_evolves hprogram _).2 (Editor.sound_start ..)).1.graph.toCoherent
  have hroots : roots.Perm g.roots := by decide +kernel
  exact ⟨hcoherent, hroots, hcoherent.peels_safely hroots, by decide +kernel, by decide +kernel⟩

end Graph

end PipelineEditor
