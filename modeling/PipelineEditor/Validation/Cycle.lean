import PipelineEditor.Graph

/-!
# Cycles of links

A graph is searched for cycles by taking away, one after the other, operators into which no link
leads any more.  A counter for each operator says how many links still lead into it; taking an
operator away lowers the counters at the far ends of its links.  What cannot be taken away lies on a
cycle or behind one.

## Main definitions

* `Peeling`, `Peeling.step` — counters, queue and what has been taken away so far.
* `Graph.cycleLink?` — the lowest link between two operators that are left.
-/

namespace PipelineEditor

/-- A search for operators that can be taken away. -/
structure Peeling where
  /-- For each operator how many links still lead into it. -/
  counters : Dict Nat
  /-- Operators into which no link leads any more, to be taken away in this order. -/
  queue : List OperatorId
  /-- Operators taken away. -/
  visited : NameSet

namespace Peeling

/-- Counts one link less into an operator, which can be taken away once there is none. -/
def lower (search : Peeling) (target : OperatorId) : Peeling :=
  match search.counters.get? target with
  | none => search
  | some count =>
    { search with
      counters := search.counters.insert target (count - 1)
      queue := if count - 1 = 0 then search.queue ++ [target] else search.queue }

/-- Takes the first operator of the queue away with the links that start at it. -/
def step (links : List Link) (search : Peeling) : Peeling :=
  match search.queue with
  | [] => search
  | id :: rest =>
    (links.filter (·.source.operator = id)).foldl (fun s link => s.lower link.target.operator)
      { search with queue := rest, visited := search.visited.add id }

/-- At most so many steps, fewer when the queue runs empty. -/
def run (links : List Link) : Nat → Peeling → Peeling
  | 0, search => search
  | steps + 1, search =>
    if search.queue.isEmpty then search else run links steps (search.step links)

end Peeling

namespace Graph

/-- How many links lead into each operator. -/
def inDegrees (g : Graph) : Dict Nat :=
  .ofList (g.operators.keys.map fun id => (id, (g.linksInto id).length))

/-- The search before its first step; the operators that can be taken away at once are queued in
the given order. -/
def peelingFrom (g : Graph) (roots : List OperatorId) : Peeling := ⟨g.inDegrees, roots, ∅⟩

/-- The operators into which no link leads. -/
def roots (g : Graph) : List OperatorId :=
  (g.inDegrees.toList.filter fun entry => entry.2 = 0).map (·.1)

/-- The search run to its end.  Each operator is taken away at most once, so there are no more steps
than operators. -/
def peel (g : Graph) (roots : List OperatorId) : Peeling :=
  (g.peelingFrom roots).run g.links.values g.operators.size

/-- The lowest link between two operators that cannot be taken away, if not all operators can. -/
def cycleLinkFrom? (g : Graph) (roots : List OperatorId) : Option LinkId :=
  let visited := (g.peel roots).visited
  if visited.size = g.operators.size then none
  else
    (g.links.values.find? fun link =>
      !visited.contains link.source.operator && !visited.contains link.target.operator).map (·.id)

/-- The link by which a cycle is reported. -/
def cycleLink? (g : Graph) : Option LinkId := g.cycleLinkFrom? g.roots

end Graph

end PipelineEditor
