import Mathlib.Order.Lattice.Nat
import Mcp.Lib.Bytes
import Mcp.Lib.Levels

namespace Mcp.ToolGraph
open Lib Bytes Levels

structure Edge where
  source : Bytes
  target : Bytes

structure Graph where
  nodes : Finset Bytes
  edges : List Edge
  root : Bytes := []

namespace Graph

variable (g : Graph)

def adj (id : Bytes) : List Bytes := (g.edges.filter (·.source = id)).map (·.target)

def hasIncoming (id : Bytes) : Bool := g.edges.any (·.target = id)

/-- The arguments are the orders in which the two loops over the map of nodes visit it. -/
def roots (first second : List Bytes) : List Bytes :=
  let roots := first.filter fun id => !g.hasIncoming id
  if roots.length = 0 then if g.root ≠ [] then [g.root] else second.take 1 else roots

def handleUnvisited (visited : Bytes → Bool) (levels : Bytes → Option Nat) (id : Bytes) : Bytes → Option Nat :=
  if visited id then levels else Function.update levels id (some 0)

def calculateLevels (visits : Nat → List Bytes) (fuel : Nat) : Option (Bytes → Option Nat) :=
  (Search.run g.adj fuel (Search.start (g.roots (visits 0) (visits 1)))).map fun s =>
    (visits 2).foldl (handleUnvisited s.visited) s.levels

/-- The nodes of in-degree zero. -/
def sources : Set Bytes := {id | id ∈ g.nodes ∧ ∀ e ∈ g.edges, e.target ≠ id}

open Classical in
/-- The shortest distance from the nodes of in-degree zero, and 0 for a node that none of them reaches. -/
noncomputable def distance (id : Bytes) : Option Nat :=
  if ∃ n, Walk g.sources g.adj n id then some (sInf {n | Walk g.sources g.adj n id})
  else if id ∈ g.nodes then some 0 else none

theorem foldl_handleUnvisited (visited : Bytes → Bool) (ids : List Bytes) (levels : Bytes → Option Nat) (id : Bytes) :
    ids.foldl (handleUnvisited visited) levels id = if id ∈ ids ∧ visited id = false then some 0 else levels id := by
  induction ids generalizing levels with
  | nil => simp
  | cons first ids ih =>
    rw [List.foldl_cons, ih, handleUnvisited]
    by_cases same : id = first <;> cases seen : visited first <;> simp [same, seen]

variable {g}

theorem mem_of_order {ids : List Bytes} (order : (ids : Multiset Bytes) = g.nodes.val) (id : Bytes) :
    id ∈ ids ↔ id ∈ g.nodes := by
  rw [← Finset.mem_val, ← order, Multiset.mem_coe]

theorem mem_roots {first : List Bytes} (order : (first : Multiset Bytes) = g.nodes.val)
    (rooted : g.sources.Nonempty) (second : List Bytes) (id : Bytes) : id ∈ g.roots first second ↔ id ∈ g.sources := by
  have mem (id : Bytes) : id ∈ first.filter (fun id => !g.hasIncoming id) ↔ id ∈ g.sources := by
    simp [sources, hasIncoming, mem_of_order order]
  obtain ⟨root, here⟩ := rooted
  rw [roots, if_neg (List.length_pos_of_mem ((mem root).mpr here)).ne', mem]

def targets (g : Graph) : Finset Bytes := (g.edges.map (·.target)).toFinset

theorem mem_targets (g : Graph) (u v : Bytes) (edge : v ∈ g.adj u) : v ∈ g.targets := by
  obtain ⟨e, member, target⟩ := List.mem_map.mp edge
  exact List.mem_toFinset.mpr (List.mem_map.mpr ⟨e, List.mem_of_mem_filter member, target⟩)

/-- If a node has no incoming edge, the levels are the distances, in whatever order the map of nodes is visited. -/
theorem calculateLevels_eq_distance (g : Graph) (rooted : g.sources.Nonempty) (visits : Nat → List Bytes)
    (order : ∀ k, (visits k : Multiset Bytes) = g.nodes.val) :
    ∃ bound, ∀ fuel > bound, g.calculateLevels visits fuel = some g.distance := by
  refine ⟨Search.remaining g.targets (Search.start (g.roots (visits 0) (visits 1))), fun fuel enough => ?_⟩
  obtain ⟨s, ran, layered, done⟩ := Search.run_layered g.mem_targets
    (Search.layered_start (mem_roots (order 0) rooted (visits 1))) enough
  rw [calculateLevels, ran, Option.map_some, Option.some_inj]
  funext id
  rw [foldl_handleUnvisited, distance]
  by_cases reached : ∃ n, Walk g.sources g.adj n id
  · have seen : s.visited id := reached.elim fun n walk => (layered.level_le done walk).1
    rw [if_pos reached, if_neg (by simp [seen])]
    exact layered.levels_eq done ⟨Nat.sInf_mem reached, fun _ => Nat.sInf_le⟩
  · have unseen : s.visited id = false := eq_false_of_ne_true fun seen => reached ⟨_, layered.walk id seen⟩
    have level : s.levels id = none := by simpa [unseen] using layered.visited id
    simp [reached, unseen, level, mem_of_order (order 2)]

end Graph

/-- `b` is one edge away from the root, the cycle of `c` with itself is not reached. -/
def looping : Graph where
  nodes := {[97], [98], [99]}
  edges := [⟨[97], [98]⟩, ⟨[99], [99]⟩]

theorem calculateLevels_looping :
    (∃ bound, ∀ fuel > bound, looping.calculateLevels (fun _ => [[97], [98], [99]]) fuel = some looping.distance) ∧
    (looping.calculateLevels (fun _ => [[97], [98], [99]]) 9).map [[97], [98], [99]].map =
      some [some 0, some 1, some 0] :=
  ⟨looping.calculateLevels_eq_distance ⟨[97], by decide, by simp [looping]⟩ _ fun _ => rfl, by decide⟩

end Mcp.ToolGraph
