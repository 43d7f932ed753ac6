import Mcp.Lib.Bytes
import Mcp.Lib.Sorting
import Mcp.Lib.Trail

namespace Mcp.Cli
open Mcp.Lib Bytes Sorting Trail

variable {τ ε : Type}

structure Listing (ε τ : Type) where
  requested : List Bytes
  result : Except ε (List τ)

def listPages (list : Bytes → Except ε (List τ × Bytes)) :
    Nat → Bytes → List τ → List Bytes → Option (Listing ε τ)
  | 0, _, _, _ => none
  | n + 1, cursor, all, requested =>
    match list cursor with
    | .error err => some ⟨requested ++ [cursor], .error err⟩
    | .ok (page, nextCursor) =>
      if nextCursor = [] ∨ nextCursor = cursor then some ⟨requested ++ [cursor], .ok (all ++ page)⟩
      else listPages list n nextCursor (all ++ page) (requested ++ [cursor])

def listAll (less : τ → τ → Bool) (list : Bytes → Except ε (List τ × Bytes)) (n : Nat) : Option (Listing ε τ) :=
  (listPages list n [] [] []).map fun listing => { listing with result := listing.result.map (sortSlice less) }

def listToolsAll (name : τ → Bytes) : (Bytes → Except ε (List τ × Bytes)) → Nat → Option (Listing ε τ) :=
  listAll fun a b => name a < name b

def listResourcesAll (uri : τ → Bytes) : (Bytes → Except ε (List τ × Bytes)) → Nat → Option (Listing ε τ) :=
  listAll fun a b => uri a < uri b

def listPromptsAll (name : τ → Bytes) : (Bytes → Except ε (List τ × Bytes)) → Nat → Option (Listing ε τ) :=
  listAll fun a b => name a < name b

variable (server : Bytes → List τ × Bytes)

def followUp (cursor : Bytes) : Option Bytes :=
  if (server cursor).2 = [] ∨ (server cursor).2 = cursor then none else some (server cursor).2

def pages (cursors : List Bytes) : List τ := (cursors.map fun cursor => (server cursor).1).flatten

variable {server}

theorem listPages_eq (n : Nat) (cursor : Bytes) (all : List τ) (requested : List Bytes) :
    listPages (fun cursor => (.ok (server cursor) : Except ε _)) n cursor all requested =
      (trail (followUp server) n cursor).map fun cursors =>
        ⟨requested ++ cursors, .ok (all ++ pages server cursors)⟩ := by
  induction n generalizing cursor all requested with
  | zero => rfl
  | succ n ih =>
    by_cases last : (server cursor).2 = [] ∨ (server cursor).2 = cursor
    · have stop : followUp server cursor = none := if_pos last
      rw [trail_last stop]
      simp [listPages, last, pages]
    · have step : followUp server cursor = some (server cursor).2 := if_neg last
      rw [trail_next step, listPages]
      simp only [if_neg last, ih, Option.map_map]
      congr 1
      funext cursors
      simp [pages]

theorem reachable_of_followUp {c d : Bytes} (reaches : Reaches (followUp server) c d) :
    Relation.ReflTransGen (fun c d => (server c).2 = d) c d := by
  refine Relation.ReflTransGen.mono (fun c d step => ?_) c d reaches
  obtain ⟨-, same⟩ := Option.ite_none_left_eq_some.mp step
  exact Option.some.inj same

/-- The listing ends, no cursor is requested twice, and the result holds what is on the pages. -/
def Complete (server : Bytes → List τ × Bytes)
    (listing : (Bytes → Except ε (List τ × Bytes)) → Nat → Option (Listing ε τ)) : Prop :=
  ∃ n requested all, listing (fun cursor => .ok (server cursor)) n = some ⟨requested, .ok all⟩ ∧
    requested.Nodup ∧ (∀ cursor, cursor ∈ requested ↔ Reaches (followUp server) [] cursor) ∧
    all.Perm (pages server requested)

theorem complete_listAll_iff (less : τ → τ → Bool)
    (finite : {c | Relation.ReflTransGen (fun c d => (server c).2 = d) [] c}.Finite) :
    Complete (ε := ε) server (listAll less) ↔
      ∀ c, Reaches (followUp server) [] c → ¬ OnCycle (followUp server) c := by
  rw [← exists_trail_iff (finite.subset fun c => reachable_of_followUp)]
  constructor
  · rintro ⟨n, requested, all, listed, -⟩
    rw [listAll, listPages_eq, Option.map_map] at listed
    obtain ⟨cursors, found, -⟩ := Option.map_eq_some_iff.mp listed
    exact ⟨n, cursors, found⟩
  · rintro ⟨n, cursors, found⟩
    refine ⟨n, cursors, sortSlice less (pages server cursors), ?_, trail_nodup found,
      fun cursor => mem_trail_iff found, List.mergeSort_perm ..⟩
    rw [listAll, listPages_eq, found]
    rfl

theorem listings_complete_iff (key : τ → Bytes) (server : Bytes → List τ × Bytes)
    (finite : {c | Relation.ReflTransGen (fun c d => (server c).2 = d) [] c}.Finite) :
    (Complete (ε := ε) server (listToolsAll key) ↔
      ∀ c, Reaches (followUp server) [] c → ¬ OnCycle (followUp server) c) ∧
    (Complete (ε := ε) server (listResourcesAll key) ↔
      ∀ c, Reaches (followUp server) [] c → ¬ OnCycle (followUp server) c) ∧
    (Complete (ε := ε) server (listPromptsAll key) ↔
      ∀ c, Reaches (followUp server) [] c → ¬ OnCycle (followUp server) c) :=
  ⟨complete_listAll_iff _ finite, complete_listAll_iff _ finite, complete_listAll_iff _ finite⟩

theorem finite_of_closed (cursors : List Bytes) (start : [] ∈ cursors)
    (closed : ∀ c ∈ cursors, (server c).2 ∈ cursors) :
    {c | Relation.ReflTransGen (fun c d => (server c).2 = d) [] c}.Finite := by
  refine (List.finite_toSet cursors).subset fun c reachable => ?_
  induction reachable with
  | refl => exact start
  | tail _ step member =>
    rw [← step]
    exact closed _ member

def twoPages (cursor : Bytes) : List Bytes × Bytes :=
  if cursor = [] then ([[98], [97]], [49]) else ([[99]], [])

theorem listings_complete_twoPages :
    {c | Relation.ReflTransGen (fun c d => (twoPages c).2 = d) [] c}.Finite ∧
      Complete (ε := String) twoPages (listToolsAll id) := by
  have finite : {c | Relation.ReflTransGen (fun c d => (twoPages c).2 = d) [] c}.Finite :=
    finite_of_closed [[], [49]] (by decide) (by decide)
  have found : trail (followUp twoPages) 2 [] = some [[], [49]] := by decide
  exact ⟨finite, (listings_complete_iff id twoPages finite).1.mpr (acyclic_of_trail found)⟩

def cyclicServer (cursor : Bytes) : List Bytes × Bytes :=
  if cursor = [] then ([[97]], [49]) else if cursor = [49] then ([[98]], [50]) else ([[99]], [49])

theorem listToolsAll_cyclicServer :
    {c | Relation.ReflTransGen (fun c d => (cyclicServer c).2 = d) [] c}.Finite ∧
      ∀ n, listToolsAll id (fun cursor => (.ok (cyclicServer cursor) : Except String _)) n = none := by
  refine ⟨finite_of_closed [[], [49], [50]] (by decide) (by decide), fun n => ?_⟩
  have first : Reaches (followUp cyclicServer) [] [49] := .single (by decide : followUp cyclicServer [] = some [49])
  have cycle : OnCycle (followUp cyclicServer) [49] :=
    .tail (.single (by decide : followUp cyclicServer [49] = some [50]))
      (by decide : followUp cyclicServer [50] = some [49])
  cases found : trail (followUp cyclicServer) n [] with
  | none => rw [listToolsAll, listAll, listPages_eq, found]; rfl
  | some cursors => exact (acyclic_of_trail found _ first cycle).elim

end Mcp.Cli
