import PipelineEditor.Proofs.Stage
import PipelineEditor.Proofs.Verdict

/-!
# The link that is blamed for a cycle

Where links form a cycle, one of them is reported.  The search for cycles is left with the links
that start on a cycle or behind one, and the lowest of these is blamed.  So the link that is
reported may lie on no cycle, where its name is lower than theirs; else it is the lowest of the
links that do.

## Main definitions

* `Dict.IsLowest`: a key is the lowest of those whose values have a property
* `Graph.OnCycle`: a path leads from the end of a link back to its start

## Main results

* `Dict.isLowest_of_find?_values`: the first value with a property has the lowest key
* `Graph.Coherent.cycleLink?_isLowest`: which link is reported
* `Graph.isLowest_onCycle_iff`: when the lowest link on a cycle is the lowest of all that
  start on a cycle or behind one
* `Graph.Coherent.cycle_reported`: where there is a cycle, a link is reported, and this is the
  lowest on a cycle unless a lower one starts behind a cycle
-/

namespace PipelineEditor

namespace Dict

variable {β : Type} {m : Dict β}

/-- **A key is the lowest** of those whose values have a property. -/
def IsLowest (m : Dict β) (p : β → Prop) (key : String) : Prop :=
  ∃ value, m.get? key = some value ∧ p value ∧
    ∀ other found, m.get? other = some found → p found → key ≤ other

/-- Values are listed by increasing key. -/
theorem isLowest_of_find?_values {p : β → Bool} {value : β} (h : m.values.find? p = some value) :
    ∃ key, m.get? key = some value ∧ m.IsLowest (p · = true) key := by
  have hfind : m.values.find? p = (m.toList.find? fun entry => p entry.2).map (·.2) :=
    List.find?_map
  rw [hfind, Option.map_eq_some_iff] at h
  obtain ⟨⟨key, value⟩, hfirst, rfl⟩ := h
  obtain ⟨hp, before, after, hsplit, hbefore⟩ := List.find?_eq_some_iff_append.mp hfirst
  have hordered : Entries.Ordered (before ++ (key, value) :: after) := hsplit ▸ m.ordered
  have hafter := (List.pairwise_cons.mp (List.pairwise_append.mp hordered).2.1).1
  have hget : m.get? key = some value := mem_toList.mp (by simp [hsplit])
  refine ⟨key, hget, value, hget, hp, fun other found hother hfound => ?_⟩
  have hmem : (other, found) ∈ before ++ (key, value) :: after := hsplit ▸ mem_toList.mpr hother
  rcases List.mem_append.mp hmem with hmem | hmem
  · -- What stands before the first does not have the property.
    simpa [hfound] using hbefore _ hmem
  · rcases List.mem_cons.mp hmem with heq | hmem
    · cases heq
      exact String.le_refl key
    · exact Std.le_of_lt (hafter _ hmem)

end Dict

namespace Graph

variable {g : Graph}

/-! ## Links on a cycle -/

/-- **A link lies on a cycle** if a path leads from its end back to its start. -/
def OnCycle (g : Graph) (link : Link) : Prop :=
  Relation.ReflTransGen g.Leads link.target.operator link.source.operator

/-- **A link starts on a cycle or behind one.** -/
def StartsBehind (g : Graph) (link : Link) : Prop := g.Behind link.source.operator

theorem OnCycle.startsBehind {id : LinkId} {link : Link} (h : g.OnCycle link)
    (hlink : g.links.get? id = some link) : g.StartsBehind link :=
  ⟨link.source.operator, .head' ⟨id, link, hlink, rfl, rfl⟩ h, .refl⟩

/-- **The lowest link that starts on a cycle or behind one lies on a cycle** if and only if each
such link that does not has a lower one that does. -/
theorem isLowest_onCycle_iff {id : LinkId} (h : g.links.IsLowest g.StartsBehind id) :
    g.links.IsLowest g.OnCycle id ↔
      ∀ other found, g.links.get? other = some found → g.StartsBehind found → ¬ g.OnCycle found →
        ∃ lower link, g.links.get? lower = some link ∧ g.OnCycle link ∧ lower < other := by
  obtain ⟨link, hlink, hbehind, hlowest⟩ := h
  constructor
  · rintro ⟨_, hget, hon, -⟩ other found hother hfound hoff
    cases hlink.symm.trans hget
    have hne : id ≠ other := by
      rintro rfl
      cases hlink.symm.trans hother
      exact hoff hon
    exact ⟨id, link, hlink, hon,
      Entries.lt_of_ne_of_not_lt hne (String.not_lt.mpr (hlowest other found hother hfound))⟩
  · intro hlower
    have hon : g.OnCycle link := by
      by_contra hoff
      obtain ⟨lower, under, hunder, hon, hlt⟩ := hlower id link hlink hbehind hoff
      exact String.not_lt.mpr (hlowest lower under hunder (hon.startsBehind hunder)) hlt
    exact ⟨link, hlink, hon, fun other found hother hfound =>
      hlowest other found hother (hfound.startsBehind hother)⟩

/-! ## The link that is reported -/

/-- **The link that is reported** is the lowest of those that start on a cycle or behind one. -/
theorem Coherent.cycleLink?_isLowest (h : g.Coherent) {id : LinkId}
    (hid : g.cycleLink? = some id) : g.links.IsLowest g.StartsBehind id := by
  have hvisited {op : OperatorId} (hop : g.hasOperator op = true) :
      (g.peel g.roots).visited.contains op = false ↔ g.Behind op := by
    rw [← Bool.not_eq_true, h.contains_peel_iff (.refl _), and_iff_right hop, h.acc_iff, not_not]
  -- A link that starts on a cycle or behind one ends there as well.
  have hleft {id : LinkId} {link : Link} (hlink : g.links.get? id = some link) :
      (!(g.peel g.roots).visited.contains link.source.operator &&
        !(g.peel g.roots).visited.contains link.target.operator) = true ↔ g.StartsBehind link := by
    have hmem : link ∈ g.links.values := Dict.mem_values.mpr ⟨id, hlink⟩
    rw [Bool.and_eq_true, Bool.not_eq_true', Bool.not_eq_true',
      hvisited (h.hasOperator_source hmem), hvisited (h.hasOperator_target hmem)]
    exact and_iff_left_of_imp fun hbehind => hbehind.tail ⟨id, link, hlink, rfl, rfl⟩
  rw [cycleLink?, cycleLinkFrom?] at hid
  split at hid
  · cases hid
  · obtain ⟨link, hfirst, rfl⟩ := Option.map_eq_some_iff.mp hid
    obtain ⟨key, hkey, _, hget, hp, hlowest⟩ := Dict.isLowest_of_find?_values hfirst
    cases hkey.symm.trans hget
    obtain rfl := h.link_id hkey
    exact ⟨link, hkey, (hleft hkey).mp hp, fun other found hother hbehind =>
      hlowest other found hother ((hleft hother).mpr hbehind)⟩

/-- **Where links form a cycle, the lowest link is reported that starts on a cycle or behind one.**
It is the lowest of the links that lie on a cycle exactly where each link that is merely behind one
has a lower link on a cycle. -/
theorem Coherent.cycle_reported (h : g.Coherent) (catalogue : Catalogue)
    (hcycle : ∃ id, Relation.TransGen g.Leads id id) :
    ∃ id, g.cycleLink? = some id ∧
      (g.checkAll catalogue).2.get? id = some "Link is part of a cycle" ∧
      g.links.IsLowest g.StartsBehind id ∧
      (g.links.IsLowest g.OnCycle id ↔
        ∀ other found, g.links.get? other = some found → g.StartsBehind found → ¬ g.OnCycle found →
          ∃ lower link, g.links.get? lower = some link ∧ g.OnCycle link ∧ lower < other) := by
  have hsome : g.cycleLink? ≠ none := by
    rw [cycleLink?, Ne, h.cycleLinkFrom?_eq_none_iff (.refl _), h.forall_acc_iff]
    exact fun hnone => hcycle.elim hnone
  obtain ⟨id, hid⟩ := Option.ne_none_iff_exists'.mp hsome
  have hlowest := h.cycleLink?_isLowest hid
  refine ⟨id, hid, ?_, hlowest, isLowest_onCycle_iff hlowest⟩
  simp [checkAll, pipelineErrors, hid]

/-- Two operators that feed each other, and a third one behind them: the first link of the cycle is
reported. -/
theorem cycle_reported_between :
    let loop (id : OperatorId) : Operator :=
      ⟨id, "Loop", "1", .object [], [⟨"input-0", ""⟩], [⟨"output-0", ""⟩], false⟩
    let link (id : LinkId) (source target : OperatorId) : Link :=
      ⟨id, ⟨source, "output-0"⟩, ⟨target, "input-0"⟩⟩
    let catalogue : Catalogue := .ofMetadata ⟨[⟨"Loop", .object [], ⟨"Loop", none, "G", 1, 1⟩, "1"⟩],
      []⟩
    let g := ((Session.start catalogue .initial id Blank.mk).after
      [.act (.addAll [(loop "a", .origin), (loop "b", .origin), (loop "c", .origin)]
        [link "m" "a" "b", link "n" "b" "a", link "o" "b" "c"])]).graph
    g.Coherent ∧ Relation.TransGen g.Leads "a" "a" ∧
      (g.checkAll catalogue).2.get? "m" = some "Link is part of a cycle" ∧
      g.links.IsLowest g.OnCycle "m" := by
  intro loop link catalogue g
  have hcoherent : g.Coherent := (Session.atRest_after ..).wellFormed.toCoherent
  have hm : g.links.get? "m" = some (link "m" "a" "b") := by decide +kernel
  have hn : g.links.get? "n" = some (link "n" "b" "a") := by decide +kernel
  have hkeys : g.links.keys = ["m", "n", "o"] := by decide +kernel
  have hforth : g.Leads "a" "b" := ⟨"m", _, hm, rfl, rfl⟩
  have hback : g.Leads "b" "a" := ⟨"n", _, hn, rfl, rfl⟩
  have hcycle : Relation.TransGen g.Leads "a" "a" := .tail (.single hforth) hback
  have hon : g.OnCycle (link "m" "a" "b") := .single hback
  obtain ⟨id, hid, hreported, -, hiff⟩ := hcoherent.cycle_reported catalogue ⟨"a", hcycle⟩
  have hfirst : g.cycleLink? = some "m" := by decide +kernel
  cases hid.symm.trans hfirst
  refine ⟨hcoherent, hcycle, hreported, hiff.mpr fun other found hother _ hoff => ?_⟩
  have hmem : other ∈ g.links.keys := Dict.mem_keys.mpr (by rw [hother]; rfl)
  refine ⟨"m", _, hm, hon, ?_⟩
  rw [hkeys] at hmem
  simp only [List.mem_cons, List.not_mem_nil, or_false] at hmem
  rcases hmem with rfl | rfl | rfl
  · cases hm.symm.trans hother
    exact absurd hon hoff
  · decide
  · decide

/-- **A link is blamed that lies on no cycle.**  One operator feeds itself, through the link `z`,
and another one, through `k`. -/
theorem not_onCycle_reported :
    let loop : Operator :=
      ⟨"a", "Loop", "1", .object [], [⟨"input-0", ""⟩], [⟨"output-0", ""⟩], false⟩
    let sink : Operator := ⟨"b", "Sink", "1", .object [], [⟨"input-0", ""⟩], [], false⟩
    let behind : Link := ⟨"k", ⟨"a", "output-0"⟩, ⟨"b", "input-0"⟩⟩
    let around : Link := ⟨"z", ⟨"a", "output-0"⟩, ⟨"a", "input-0"⟩⟩
    let catalogue : Catalogue := .ofMetadata ⟨[⟨"Loop", .object [], ⟨"Loop", none, "G", 1, 1⟩, "1"⟩,
      ⟨"Sink", .object [], ⟨"Sink", none, "G", 1, 0⟩, "1"⟩], []⟩
    let g := ((Session.start catalogue .initial id Blank.mk).after
      [.act (.addAll [(loop, .origin), (sink, .origin)] [behind, around])]).graph
    g.WellFormed catalogue ∧ g.links.toList = [("k", behind), ("z", around)] ∧
      g.OnCycle around ∧ ¬ g.OnCycle behind ∧ g.cycleLink? = some "k" ∧
      (g.checkAll catalogue).2.toList = [("k", "Link is part of a cycle")] := by
  intro loop sink behind around catalogue g
  have hlinks : g.links.toList = [("k", behind), ("z", around)] := by decide +kernel
  refine ⟨(Session.atRest_after ..).wellFormed, hlinks, .refl, fun hback => ?_, ?_, ?_⟩
  · -- No link leads on from the second operator.
    rcases Relation.ReflTransGen.cases_head hback with heq | ⟨next, ⟨id, link, hlink, hsource, -⟩, -⟩
    · exact absurd heq (by decide)
    · have hmem : (id, link) ∈ g.links.toList := Dict.mem_toList.mpr hlink
      simp only [hlinks, List.mem_cons, Prod.mk.injEq, List.not_mem_nil, or_false] at hmem
      rcases hmem with ⟨-, rfl⟩ | ⟨-, rfl⟩
      · exact absurd hsource (by decide)
      · exact absurd hsource (by decide)
  · decide +kernel
  · decide +kernel

end Graph

end PipelineEditor
