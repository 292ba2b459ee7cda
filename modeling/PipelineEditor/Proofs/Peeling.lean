import Mathlib.Data.Fintype.EquivFin
import Mathlib.Data.Fintype.Sets
import PipelineEditor.Proofs.Listing
import PipelineEditor.Proofs.WellFormed
import PipelineEditor.Validation.Cycle

/-!
# What can be taken away

Operators into which no link leads are taken away one after the other.  The counters of the search
count the links whose sources are still there, and an operator is queued when the last of them goes;
so exactly the operators are taken away that no cycle leads into, whatever the order of the queue.

## Main definitions

* `Graph.Leads`: a link leads from one operator to another
* `Graph.Behind`: an operator lies on a cycle or behind one
* `Peeling.Counts`: the counters count the links of a list
* `Peeling.Invariant`: they count the links whose sources have not been taken away

## Main results

* `Peeling.Invariant.step`, `Peeling.Invariant.run`: each step keeps the invariant
* `Peeling.Invariant.queue_run_eq_nil`: as many steps as there are operators left empty the queue
* `Graph.Coherent.contains_peel_iff`: which operators are taken away
* `Graph.Coherent.cycleLinkFrom?_eq_none_iff`: no link is reported if and only if there is no cycle
-/

namespace PipelineEditor

/-! ## Links as a relation -/

namespace Graph

/-- **A link leads** from one operator to another. -/
def Leads (g : Graph) (source target : OperatorId) : Prop :=
  ∃ id link, g.links.get? id = some link ∧
    link.source.operator = source ∧ link.target.operator = target

variable {g : Graph}

theorem leads_iff {source target : OperatorId} :
    g.Leads source target ↔
      ∃ link ∈ g.links.values, link.source.operator = source ∧ link.target.operator = target := by
  simp only [Leads, Dict.mem_values]
  exact ⟨fun ⟨id, link, hget, hends⟩ => ⟨link, ⟨id, hget⟩, hends⟩,
    fun ⟨link, ⟨id, hget⟩, hends⟩ => ⟨id, link, hget, hends⟩⟩

theorem Coherent.hasOperator_source (h : g.Coherent) {link : Link}
    (hlink : link ∈ g.links.values) : g.hasOperator link.source.operator = true := by
  obtain ⟨id, hget⟩ := Dict.mem_values.mp hlink
  obtain ⟨op, hop, -⟩ := h.source hget
  simp [hasOperator, Dict.contains_eq, hop]

theorem Coherent.hasOperator_target (h : g.Coherent) {link : Link}
    (hlink : link ∈ g.links.values) : g.hasOperator link.target.operator = true := by
  obtain ⟨id, hget⟩ := Dict.mem_values.mp hlink
  obtain ⟨op, hop, -⟩ := h.target hget
  simp [hasOperator, Dict.contains_eq, hop]

/-- **An operator lies on a cycle or behind one.** -/
def Behind (g : Graph) (id : OperatorId) : Prop :=
  ∃ origin, Relation.TransGen g.Leads origin origin ∧ Relation.ReflTransGen g.Leads origin id

theorem Behind.tail {source target : OperatorId} (h : g.Behind source)
    (hleads : g.Leads source target) : g.Behind target := by
  obtain ⟨origin, hcycle, hpath⟩ := h
  exact ⟨origin, hcycle, hpath.tail hleads⟩

/-- Going back from an operator comes to an end exactly where no cycle lies before it. -/
theorem Coherent.acc_iff (h : g.Coherent) {id : OperatorId} : Acc g.Leads id ↔ ¬ g.Behind id := by
  constructor
  · intro hacc
    have hall : ∀ other, Acc (Relation.TransGen g.Leads) other → ¬ g.Behind other := by
      intro other hother
      induction hother with
      | intro other _ ih =>
        rintro ⟨origin, hcycle, hpath⟩
        exact ih origin (hcycle.trans_left hpath) ⟨origin, hcycle, .refl⟩
    exact hall id hacc.transGen
  · -- Of the finitely many operators those that are not behind a cycle are ordered by paths.
    let Between (a b : {id // id ∈ g.operators.keys}) : Prop :=
      ¬ g.Behind a.1 ∧ Relation.TransGen g.Leads a.1 b.1
    have : IsTrans _ Between := ⟨fun _ _ _ hab hbc => ⟨hab.1, hab.2.trans hbc.2⟩⟩
    have : Std.Irrefl Between := ⟨fun a haa => haa.1 ⟨a.1, haa.2, .refl⟩⟩
    have hwf : WellFounded Between := Finite.wellFounded_of_trans_of_irrefl Between
    have hsource {before target : OperatorId} (hleads : g.Leads before target) :
        before ∈ g.operators.keys := by
      obtain ⟨link, hlink, rfl, -⟩ := leads_iff.mp hleads
      exact Dict.mem_keys.mpr (h.hasOperator_source hlink)
    have hall (a : {id // id ∈ g.operators.keys}) (ha : ¬ g.Behind a.1) : Acc g.Leads a.1 := by
      induction a using hwf.induction with
      | _ a ih =>
        refine .intro _ fun before hleads => ?_
        have hbefore : ¬ g.Behind before := fun hbehind => ha (hbehind.tail hleads)
        exact ih ⟨before, hsource hleads⟩ ⟨hbefore, .single hleads⟩ hbefore
    intro hid
    refine .intro _ fun before hleads => ?_
    exact hall ⟨before, hsource hleads⟩ fun hbehind => hid (hbehind.tail hleads)

/-- **No cycle leads into any operator if and only if there is no cycle.** -/
theorem Coherent.forall_acc_iff (h : g.Coherent) :
    (∀ id, g.hasOperator id = true → Acc g.Leads id) ↔
      ∀ id, ¬ Relation.TransGen g.Leads id id := by
  constructor
  · intro hacc id hcycle
    -- The last link of the cycle leads into an operator.
    have hop : g.hasOperator id = true := by
      obtain ⟨_, -, hlast⟩ := Relation.TransGen.tail'_iff.mp hcycle
      obtain ⟨link, hlink, -, rfl⟩ := leads_iff.mp hlast
      exact h.hasOperator_target hlink
    exact h.acc_iff.mp (hacc id hop) ⟨id, hcycle, .refl⟩
  · exact fun hnone id _ => h.acc_iff.mpr fun ⟨origin, hcycle, _⟩ => hnone origin hcycle

end Graph

/-! ## The counters -/

namespace Peeling

variable {g : Graph} {search : Peeling}

/-- **The counters count the links of a list** by the operators into which they lead, and those
into which none leads are queued or have been taken away. -/
structure Counts (g : Graph) (links : List Link) (search : Peeling) : Prop where
  counter : ∀ id, g.hasOperator id = true →
    search.counters.get? id = some (links.countP (·.target.operator = id))
  free_iff : ∀ id, (id ∈ search.queue ∨ search.visited.contains id = true) ↔
    g.hasOperator id = true ∧ ∀ link ∈ links, link.target.operator ≠ id
  nodup : search.queue.Nodup
  waiting : ∀ id ∈ search.queue, search.visited.contains id = false

theorem Counts.perm {links links' : List Link} (h : Counts g links search)
    (hperm : links.Perm links') : Counts g links' search where
  counter id hop := hperm.countP_eq _ ▸ h.counter id hop
  free_iff id := by simpa only [hperm.mem_iff] using h.free_iff id
  nodup := h.nodup
  waiting := h.waiting

theorem lower_eq {target : OperatorId} {count : Nat}
    (h : search.counters.get? target = some (count + 1)) :
    search.lower target = { search with
      counters := search.counters.insert target count
      queue := if count = 0 then search.queue ++ [target] else search.queue } := by
  rw [lower, h]
  rfl

/-- A link less is counted, and its far end is queued if the link was the last one into it. -/
theorem Counts.lower {link : Link} {links : List Link} (h : Counts g (link :: links) search)
    (htarget : g.hasOperator link.target.operator = true) :
    Counts g links (search.lower link.target.operator) := by
  have hcount : search.counters.get? link.target.operator =
      some (links.countP (·.target.operator = link.target.operator) + 1) := by
    rw [h.counter _ htarget, List.countP_cons_of_pos (by simp)]
  -- The link led into its far end, which therefore was neither queued nor taken away.
  have hbusy : ¬ (link.target.operator ∈ search.queue ∨
      search.visited.contains link.target.operator = true) := fun hfree =>
    ((h.free_iff _).mp hfree).2 link List.mem_cons_self rfl
  obtain ⟨hqueue, hvisited⟩ := not_or.mp hbusy
  have hfree : links.countP (·.target.operator = link.target.operator) = 0 ↔
      ∀ other ∈ links, other.target.operator ≠ link.target.operator := by
    simp [List.countP_eq_zero]
  have hother {id : OperatorId} (hne : link.target.operator ≠ id) :
      (∀ other ∈ link :: links, other.target.operator ≠ id) ↔
        ∀ other ∈ links, other.target.operator ≠ id := by
    rw [List.forall_mem_cons, and_iff_right hne]
  rw [lower_eq hcount]
  refine ⟨fun id hop => ?counter, fun id => ?free_iff, ?nodup, fun id hid => ?waiting⟩
  case counter =>
    rw [Dict.get?_insert]
    split
    · rename_i heq
      rw [heq]
    · rename_i hne
      rw [h.counter id hop, List.countP_cons_of_neg (by simpa using hne)]
  case free_iff =>
    by_cases hid : link.target.operator = id
    · subst hid
      rw [← hfree, and_iff_right htarget]
      split
      · exact iff_of_true (.inl (by simp)) ‹_›
      · exact iff_of_false hbusy ‹_›
    · rw [← hother hid, ← h.free_iff id]
      split <;> simp [Ne.symm hid]
  case nodup =>
    split
    · exact List.nodup_append.mpr ⟨h.nodup, List.nodup_singleton _, by
        rintro a ha b hb rfl
        exact hqueue (List.mem_singleton.mp hb ▸ ha)⟩
    · exact h.nodup
  case waiting =>
    have hcases : id ∈ search.queue ∨ id = link.target.operator := by
      split at hid
      · simpa using hid
      · exact .inl hid
    rcases hcases with hid | rfl
    · exact h.waiting id hid
    · simpa using hvisited

/-- Several links less are counted. -/
theorem Counts.foldl_lower {gone links : List Link} (h : Counts g (gone ++ links) search)
    (htarget : ∀ link ∈ gone, g.hasOperator link.target.operator = true) :
    Counts g links (gone.foldl (fun s link => s.lower link.target.operator) search) := by
  induction gone generalizing search with
  | nil => exact h
  | cons link rest ih =>
    exact ih (h.lower (htarget link List.mem_cons_self)) fun other hmem =>
      htarget other (List.mem_cons_of_mem _ hmem)

@[simp] theorem lower_visited (target : OperatorId) :
    (search.lower target).visited = search.visited := by
  rw [lower]
  split <;> rfl

theorem foldl_lower_visited (links : List Link) :
    (links.foldl (fun s link => s.lower link.target.operator) search).visited =
      search.visited := by
  induction links generalizing search with
  | nil => rfl
  | cons link rest ih => exact ih.trans (lower_visited _)

/-! ## Steps -/

/-- The links whose sources have not been taken away. -/
def pending (search : Peeling) (g : Graph) : List Link :=
  g.links.values.filter fun link => !search.visited.contains link.source.operator

theorem mem_pending {link : Link} :
    link ∈ search.pending g ↔
      link ∈ g.links.values ∧ search.visited.contains link.source.operator = false := by
  simp [pending]

/-- **Between two steps**: the counters count the links whose sources are still there, and what has
been taken away does not lie behind a cycle. -/
structure Invariant (g : Graph) (search : Peeling) : Prop where
  counts : Counts g (search.pending g) search
  taken : ∀ id, search.visited.contains id = true → Acc g.Leads id

/-- The operators that have not been taken away. -/
def left (search : Peeling) (g : Graph) : List OperatorId :=
  g.operators.keys.filter (!search.visited.contains ·)

theorem step_visited {links : List Link} {id : OperatorId} {rest : List OperatorId}
    (hqueue : search.queue = id :: rest) :
    (search.step links).visited = search.visited.add id := by
  rw [step, hqueue]
  exact foldl_lower_visited _

/-- **The first operator of the queue goes**, and its links are counted until they are lowered. -/
theorem Invariant.dequeue (h : search.Invariant g) {id : OperatorId} {rest : List OperatorId}
    (hqueue : search.queue = id :: rest) :
    Counts g (g.links.values.filter (·.source.operator = id) ++
        (search.step g.links.values).pending g)
      { search with queue := rest, visited := search.visited.add id } := by
  obtain ⟨⟨hcounter, hfree, hnodup, hwaiting⟩, -⟩ := h
  obtain ⟨hfresh, hrest⟩ := List.nodup_cons.mp (hqueue ▸ hnodup)
  have hid : search.visited.contains id = false := hwaiting id (hqueue ▸ List.mem_cons_self)
  have hpending : (search.pending g).Perm (g.links.values.filter (·.source.operator = id) ++
      (search.step g.links.values).pending g) := by
    refine (List.filter_append_perm (fun link => link.source.operator = id) _).symm.trans ?_
    rw [pending, pending, List.filter_filter, List.filter_filter]
    refine .of_eq (congrArg₂ _ (List.filter_congr fun link _ => ?_)
      (List.filter_congr fun link _ => ?_))
    · by_cases hlink : link.source.operator = id <;> simp [hlink, hid]
    · rw [step_visited hqueue, NameSet.contains_add]
      by_cases hlink : link.source.operator = id <;> simp [hlink, hid]
  refine Counts.perm ⟨hcounter, fun other => ?_, hrest, fun other hmem => ?_⟩ hpending
  · rw [← hfree other, hqueue, NameSet.contains_add, List.mem_cons, Bool.or_eq_true,
      decide_eq_true_eq]
    tauto
  · have hne : other ≠ id := fun heq => hfresh (heq ▸ hmem)
    rw [NameSet.contains_add, hwaiting other (hqueue ▸ List.mem_cons_of_mem _ hmem)]
    simp [hne]

/-- **A step takes one operator away** and keeps the invariant. -/
theorem Invariant.step (hg : g.Coherent) (h : search.Invariant g)
    (hqueue : search.queue.isEmpty = false) :
    (search.step g.links.values).Invariant g ∧
      ((search.step g.links.values).left g).length < (search.left g).length := by
  obtain ⟨id, rest, hqueue⟩ : ∃ id rest, search.queue = id :: rest :=
    List.exists_cons_of_ne_nil (by simpa using hqueue)
  have hhead : id ∈ search.queue := hqueue ▸ List.mem_cons_self
  obtain ⟨hop, hsources⟩ := (h.counts.free_iff id).mp (.inl hhead)
  have hid : search.visited.contains id = false := h.counts.waiting id hhead
  refine ⟨⟨?_, fun other hother => ?_⟩, ?_⟩
  · have hlowered := (h.dequeue hqueue).foldl_lower fun link hlink =>
      hg.hasOperator_target (List.mem_filter.mp hlink).1
    rw [Peeling.step, hqueue] at hlowered ⊢
    exact hlowered
  · rw [step_visited hqueue, NameSet.contains_add, Bool.or_eq_true, decide_eq_true_eq] at hother
    rcases hother with rfl | hother
    · -- No counted link led into the operator, so all links into it start at operators taken away.
      refine .intro _ fun before hleads => h.taken before ?_
      obtain ⟨link, hlink, rfl, htarget⟩ := Graph.leads_iff.mp hleads
      by_contra hbefore
      exact hsources link (mem_pending.mpr ⟨hlink, by simpa using hbefore⟩) htarget
    · exact h.taken other hother
  · have hleft : (search.step g.links.values).left g = (search.left g).filter (· ≠ id) := by
      rw [left, left, List.filter_filter, step_visited hqueue]
      refine List.filter_congr fun other _ => ?_
      rw [NameSet.contains_add]
      by_cases hother : other = id <;> simp [hother]
    rw [hleft, List.length_filter_lt_length_iff_exists]
    exact ⟨id, by simp [left, hid, Dict.mem_keys.mpr hop], by simp⟩

/-- **The run keeps the invariant.** -/
theorem Invariant.run (hg : g.Coherent) (h : search.Invariant g) (steps : Nat) :
    (search.run g.links.values steps).Invariant g := by
  induction steps generalizing search with
  | zero => exact h
  | succ steps ih =>
    rw [Peeling.run]
    split
    · exact h
    · rename_i hqueue
      exact ih (h.step hg (by simpa using hqueue)).1

/-- **The run empties the queue** with as many steps as there are operators left. -/
theorem Invariant.queue_run_eq_nil (hg : g.Coherent) {steps : Nat} (h : search.Invariant g)
    (hsteps : (search.left g).length ≤ steps) :
    (search.run g.links.values steps).queue = [] := by
  induction steps generalizing search with
  | zero =>
    refine List.eq_nil_iff_forall_not_mem.mpr fun id hid => ?_
    -- No operator is left, so none is queued.
    have hop := ((h.counts.free_iff id).mp (.inl hid)).1
    have hleft : id ∈ search.left g :=
      List.mem_filter.mpr ⟨Dict.mem_keys.mpr hop, by simp [h.counts.waiting id hid]⟩
    rw [List.length_eq_zero_iff.mp (Nat.le_zero.mp hsteps)] at hleft
    cases hleft
  | succ steps ih =>
    rw [Peeling.run]
    split
    · rename_i hempty
      exact List.isEmpty_iff.mp hempty
    · rename_i hqueue
      obtain ⟨hstep, hlt⟩ := h.step hg (by simpa using hqueue)
      exact ih hstep (by omega)

end Peeling

/-! ## The search -/

namespace Graph

variable {g : Graph}

theorem get?_inDegrees (id : OperatorId) :
    g.inDegrees.get? id =
      if g.hasOperator id = true then some ((g.linksInto id).length) else none := by
  have hvalues : ∀ entry ∈ g.operators.keys.map fun id => (id, (g.linksInto id).length),
      entry.2 = (g.linksInto entry.1).length := by
    simp
  rw [inDegrees, Dict.get?_ofList_of_eq (f := fun id => (g.linksInto id).length) hvalues]
  refine if_congr ?_ rfl rfl
  rw [List.map_map, hasOperator, Dict.contains_eq, ← Dict.mem_keys]
  simp

theorem mem_roots {id : OperatorId} :
    id ∈ g.roots ↔ g.hasOperator id = true ∧ ∀ link ∈ g.links.values, link.target.operator ≠ id := by
  simp only [roots, List.mem_map, List.mem_filter, Prod.exists, Dict.mem_toList, get?_inDegrees]
  simp [linksInto, List.filter_eq_nil_iff]

theorem nodup_roots : g.roots.Nodup :=
  (List.Sublist.map _ List.filter_sublist).nodup g.inDegrees.nodup_keys

/-- **Before its first step the search counts all links.** -/
theorem invariant_peelingFrom {roots : List OperatorId} (hroots : roots.Perm g.roots) :
    (g.peelingFrom roots).Invariant g where
  counts := by
    have hpending : (g.peelingFrom roots).pending g = g.links.values :=
      List.filter_eq_self.mpr fun _ _ => rfl
    rw [hpending]
    refine ⟨fun id hop => ?_, fun id => ?_, hroots.nodup_iff.mpr nodup_roots, fun _ _ => rfl⟩
    · rw [peelingFrom, get?_inDegrees, if_pos hop, linksInto, List.countP_eq_length_filter]
    · rw [← mem_roots, peelingFrom, hroots.mem_iff]
      exact or_iff_left Bool.false_ne_true
  taken id h := nomatch h

variable {roots : List OperatorId}

theorem length_left_peelingFrom_le : ((g.peelingFrom roots).left g).length ≤ g.operators.size :=
  (List.length_filter_le _ _).trans (List.length_map _).le

/-- **Exactly the operators are taken away that do not lie on a cycle or behind one.** -/
theorem Coherent.contains_peel_iff (h : g.Coherent) (hroots : roots.Perm g.roots)
    (id : OperatorId) :
    (g.peel roots).visited.contains id = true ↔ g.hasOperator id = true ∧ Acc g.Leads id := by
  have hstart := invariant_peelingFrom hroots
  have hend : (g.peel roots).Invariant g := hstart.run h _
  have hqueue : (g.peel roots).queue = [] := hstart.queue_run_eq_nil h length_left_peelingFrom_le
  have hfree := hend.counts.free_iff
  simp only [hqueue, List.not_mem_nil, false_or] at hfree
  constructor
  · exact fun hid => ⟨((hfree id).mp hid).1, hend.taken id hid⟩
  · rintro ⟨hop, hacc⟩
    induction hacc with
    | intro id _ ih =>
      -- Everything that leads into the operator is taken away, so no link into it is counted.
      refine (hfree id).mpr ⟨hop, fun link hlink htarget => ?_⟩
      obtain ⟨hlink, hsource⟩ := Peeling.mem_pending.mp hlink
      have hbefore := ih _ (leads_iff.mpr ⟨link, hlink, rfl, htarget⟩) (h.hasOperator_source hlink)
      cases hsource.symm.trans hbefore

/-- **The order in which operators are queued at first plays no part** in what is taken away. -/
theorem Coherent.visited_peel_eq (h : g.Coherent) (hroots : roots.Perm g.roots) :
    (g.peel roots).visited = (g.peel g.roots).visited :=
  NameSet.ext_contains fun id => by
    rw [Bool.eq_iff_iff, h.contains_peel_iff hroots, h.contains_peel_iff (.refl _)]

theorem Coherent.cycleLinkFrom?_eq (h : g.Coherent) (hroots : roots.Perm g.roots) :
    g.cycleLinkFrom? roots = g.cycleLink? := by
  rw [cycleLink?, cycleLinkFrom?, cycleLinkFrom?, h.visited_peel_eq hroots]

/-- An operator that cannot be taken away has another one before it. -/
theorem exists_before {target : OperatorId} (htarget : ¬ Acc g.Leads target) :
    ∃ link ∈ g.links.values, link.target.operator = target ∧
      ¬ Acc g.Leads link.source.operator := by
  by_contra hnone
  push Not at hnone
  refine htarget (.intro _ fun before hleads => ?_)
  obtain ⟨link, hlink, rfl, hends⟩ := leads_iff.mp hleads
  exact hnone link hlink hends

/-- **Where an operator is left, a link between two operators is left.** -/
theorem Coherent.exists_left_link (h : g.Coherent) (hroots : roots.Perm g.roots)
    {id : OperatorId} (hop : g.hasOperator id = true)
    (hid : (g.peel roots).visited.contains id = false) :
    ∃ link ∈ g.links.values,
      (g.peel roots).visited.contains link.source.operator = false ∧
        (g.peel roots).visited.contains link.target.operator = false := by
  have hpeel := h.contains_peel_iff hroots
  have hacc : ¬ Acc g.Leads id := fun hacc =>
    Bool.false_ne_true (hid.symm.trans ((hpeel id).mpr ⟨hop, hacc⟩))
  obtain ⟨link, hlink, -, hsource⟩ := exists_before hacc
  obtain ⟨previous, hprevious, htarget, hfirst⟩ := exists_before hsource
  refine ⟨previous, hprevious, ?_, ?_⟩ <;>
    simp [← Bool.not_eq_true, hpeel, hfirst, htarget, hsource]

/-- **No link is reported if and only if no cycle leads into any operator.** -/
theorem Coherent.cycleLinkFrom?_eq_none_iff (h : g.Coherent) (hroots : roots.Perm g.roots) :
    g.cycleLinkFrom? roots = none ↔ ∀ id, g.hasOperator id = true → Acc g.Leads id := by
  have hpeel := h.contains_peel_iff hroots
  have hsize : (g.peel roots).visited.size = g.operators.size ↔
      ∀ id, g.hasOperator id = true → Acc g.Leads id := by
    rw [Dict.size_eq_iff_of_subset fun id hid => ((hpeel id).mp hid).1]
    exact forall_congr' fun id => imp_congr_right fun hop => (hpeel id).trans (and_iff_right hop)
  rw [cycleLinkFrom?, ← hsize]
  split
  · simpa
  · rename_i hleft
    refine iff_of_false ?_ hleft
    rw [hsize] at hleft
    push Not at hleft
    obtain ⟨id, hop, hid⟩ := hleft
    obtain ⟨link, hlink, hsource, htarget⟩ := h.exists_left_link hroots hop
      (Bool.eq_false_iff.mpr fun hpeeled => hid ((hpeel id).mp hpeeled).2)
    rw [Option.map_eq_none_iff, List.find?_eq_none]
    push Not
    exact ⟨link, hlink, by rw [hsource, htarget]; rfl⟩

end Graph

end PipelineEditor
