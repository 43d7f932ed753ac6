import Mcp.Lib.Sorting
import Mathlib.Order.Nat

namespace Mcp.Middleware
open Mcp.Lib Sorting

structure MiddlewareChain (μ : Type) where
  middlewares : List μ

structure MiddlewareGroup (μ : Type) where
  middlewares : List μ
  enabled : Bool

variable {μ η : Type} (priority : μ → Int) (wrap : μ → η → η)

def MiddlewareChain.apply (mc : MiddlewareChain μ) (handler : η) : η :=
  if mc.middlewares.isEmpty then handler
  else
    (bubbleSort priority mc.middlewares).reverse.foldl
      (fun current middleware => wrap middleware current) handler

def MiddlewareGroup.apply (g : MiddlewareGroup μ) (handler : η) : η :=
  if !g.enabled then handler
  else
    (sortSlice (fun a b => priority b < priority a) g.middlewares).foldl
      (fun current middleware => wrap middleware current) handler

variable {priority wrap}

theorem MiddlewareChain.apply_eq_foldr (mc : MiddlewareChain μ) (handler : η) :
    mc.apply priority wrap handler = (bubbleSort priority mc.middlewares).foldr wrap handler := by
  unfold MiddlewareChain.apply
  split_ifs with empty
  · rw [List.isEmpty_iff.mp empty]
    rfl
  · rw [List.foldl_reverse]

theorem chain_apply_stable (priority : μ → Int) (mc : MiddlewareChain μ) :
    ∃ sorted, (∀ other, StableSort priority mc.middlewares other ↔ other = sorted) ∧
      ∀ (η : Type) (wrap : μ → η → η) (handler : η),
        mc.apply priority wrap handler = sorted.foldr wrap handler := by
  have stable := bubbleSort_stable priority mc.middlewares
  refine ⟨bubbleSort priority mc.middlewares, fun other => ⟨fun sorted => sorted.unique stable, ?_⟩, ?_⟩
  · rintro rfl
    exact stable
  · intro η wrap handler
    exact mc.apply_eq_foldr handler

example : MiddlewareChain.apply (fun m : Int × String => m.1) List.cons
    ⟨[(1, "auth"), (2, "log"), (1, "cache")]⟩ [] = [(2, "log"), (1, "auth"), (1, "cache")] := by decide

variable {middlewares sorted items : List μ}

section Descending
variable (distinct : (middlewares.map priority).Nodup) (perm : sorted.Perm middlewares)
  (descending : Descending priority sorted) (handler : η)

include distinct perm descending

theorem MiddlewareChain.apply_eq_of_descending :
    MiddlewareChain.apply priority wrap ⟨middlewares⟩ handler = sorted.foldr wrap handler := by
  have bubble := bubbleSort_spec priority middlewares
  have distinct' : (sorted.map priority).Nodup := (perm.map priority).nodup_iff.mpr distinct
  rw [apply_eq_foldr, descending.unique bubble.2 (perm.trans bubble.1.symm) distinct']

theorem MiddlewareGroup.apply_eq_of_descending :
    MiddlewareGroup.apply priority wrap ⟨middlewares, true⟩ handler = sorted.reverse.foldr wrap handler := by
  have slice := sortSlice_spec priority middlewares
  have distinct' : (sorted.map priority).Nodup := (perm.map priority).nodup_iff.mpr distinct
  rw [List.foldr_reverse, descending.unique slice.2 (perm.trans slice.1.symm) distinct']
  rfl

end Descending

theorem length_le_one_of_eq_reverse (distinct : items.Nodup) (same : items.reverse = items) : items.length ≤ 1 := by
  by_contra longer
  have first : 0 < items.length := by omega
  have last : items.length - 1 < items.length := by omega
  have ends : items[items.length - 1] = items[0] := by
    have equal : items.reverse[0]? = items[0]? := by rw [same]
    rw [List.getElem?_reverse first, Nat.sub_zero, List.getElem?_eq_getElem last,
      List.getElem?_eq_getElem first] at equal
    exact Option.some.inj equal
  have indices := (distinct.getElem_inj_iff).mp ends
  omega

theorem reverse_of_length_le_one (few : items.length ≤ 1) : items.reverse = items := by
  cases items with
  | nil => rfl
  | cons a rest =>
    have none : rest = [] := List.length_eq_zero_iff.mp (Nat.le_zero.mp (Nat.le_of_succ_le_succ few))
    rw [none, List.reverse_singleton]

theorem group_apply_eq_chain_iff (priority : μ → Int) (middlewares : List μ)
    (distinct : (middlewares.map priority).Nodup) :
    (∀ (η : Type) (wrap : μ → η → η) (handler : η) (sorted : List μ),
      sorted.Perm middlewares → Descending priority sorted →
        MiddlewareGroup.apply priority wrap ⟨middlewares, true⟩ handler =
          MiddlewareChain.apply priority wrap ⟨middlewares⟩ handler ∧
        MiddlewareGroup.apply priority wrap ⟨middlewares, true⟩ handler = sorted.foldr wrap handler) ↔
    middlewares.length ≤ 1 := by
  constructor
  · intro agree
    -- the nesting itself as the handler
    have bubble := bubbleSort_spec priority middlewares
    have nested := (agree (List μ) List.cons [] _ bubble.1 bubble.2).2
    rw [MiddlewareGroup.apply_eq_of_descending distinct bubble.1 bubble.2, List.foldr_cons_nil,
      List.foldr_cons_nil] at nested
    rw [← bubble.1.length_eq]
    exact length_le_one_of_eq_reverse (bubble.1.nodup_iff.mpr (List.Nodup.of_map _ distinct)) nested
  · intro few η wrap handler sorted perm descending
    have same : sorted.reverse = sorted := reverse_of_length_le_one (perm.length_eq ▸ few)
    rw [MiddlewareGroup.apply_eq_of_descending distinct perm descending,
      MiddlewareChain.apply_eq_of_descending distinct perm descending, same]
    exact ⟨rfl, rfl⟩

theorem group_apply_eq_chain_single :
    ([7].map fun p : Int => p).Nodup ∧ ([7] : List Int).length ≤ 1 ∧
      MiddlewareGroup.apply (fun p : Int => p) List.cons ⟨[7], true⟩ [] =
        MiddlewareChain.apply (fun p : Int => p) List.cons ⟨[7]⟩ [] := by
  have distinct : ([7].map fun p : Int => p).Nodup := by decide
  have agree := (group_apply_eq_chain_iff (fun p : Int => p) [7] distinct).mpr (by decide)
  exact ⟨distinct, by decide, (agree (List Int) List.cons [] [7] (.refl _) (List.pairwise_singleton ..)).1⟩

theorem group_apply_ne_chain_two :
    ([1, 2].map fun p : Int => p).Nodup ∧
      MiddlewareChain.apply (fun p : Int => p) List.cons ⟨[1, 2]⟩ [] = [2, 1] ∧
      MiddlewareGroup.apply (fun p : Int => p) List.cons ⟨[1, 2], true⟩ [] = [1, 2] := by
  have sorted : Descending (fun p : Int => p) [2, 1] := by simp [Descending]
  have perm : [2, 1].Perm ([1, 2] : List Int) := .swap 1 2 []
  exact ⟨by decide, by decide, MiddlewareGroup.apply_eq_of_descending (by decide) perm sorted []⟩

end Mcp.Middleware
