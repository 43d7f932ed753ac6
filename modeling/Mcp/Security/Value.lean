import Mathlib.Data.Rat.Defs
import Mcp.Lib.Bytes
import Mcp.Lib.Matching

namespace Mcp.Security
open Mcp.Lib Matching

inductive Value where
  | null
  | bool (b : Bool)
  | number (q : ℚ)
  | string (s : Bytes)
  | array (elements : List Value)
  | object (entries : List (Bytes × Value))

namespace Value

def children : Value → List Value
  | .array elements => elements
  | .object entries => entries.map Prod.snd
  | _ => []

@[elab_as_elim]
theorem induct {P : Value → Prop} (step : ∀ v : Value, (∀ x ∈ v.children, P x) → P v) (v : Value) : P v :=
  @Value.rec P (fun elements => ∀ x ∈ elements, P x) (fun entries => ∀ x ∈ entries.map Prod.snd, P x)
    (fun entry => P entry.2) (step _ (by simp [children])) (fun _ => step _ (by simp [children]))
    (fun _ => step _ (by simp [children])) (fun _ => step _ (by simp [children]))
    (fun _ each => step _ each) (fun _ each => step _ each)
    (by simp) (fun _ _ first rest => List.forall_mem_cons.mpr ⟨first, rest⟩)
    (by simp) (fun _ _ first rest => List.forall_mem_cons.mpr ⟨first, rest⟩)
    (fun _ _ second => second) v

/-- A part of a value, with its depth. -/
inductive Node : Value → Nat → Value → Prop
  | self (v : Value) : Node v 0 v
  | child {v x w : Value} {d : Nat} (member : x ∈ v.children) (node : Node x d w) : Node v (d + 1) w

variable {Q : Nat → Value → Prop} {v : Value}

theorem forall_node_iff : (∀ d w, Node v d w → Q d w) ↔ Q 0 v ∧ ∀ x ∈ v.children, ∀ d w, Node x d w → Q (d + 1) w := by
  constructor
  · exact fun all => ⟨all 0 v (.self v), fun x member d w node => all (d + 1) w (.child member node)⟩
  · rintro ⟨own, each⟩ d w (_ | ⟨member, node⟩)
    · exact own
    · exact each _ member _ _ node

theorem forall_node_leaves {entries : List (Bytes × Value)} (leaves : ∀ entry ∈ entries, entry.2.children = []) :
    (∀ d w, Node (.object entries) d w → Q d w) ↔ Q 0 (.object entries) ∧ ∀ entry ∈ entries, Q 1 entry.2 := by
  rw [forall_node_iff, children, List.forall_mem_map]
  refine and_congr_right fun _ => forall₂_congr fun entry member => ?_
  rw [forall_node_iff, leaves entry member]
  simp

/-- The same value, with the entries of each object in any order. -/
inductive Reorders : Value → Value → Prop
  | refl (v : Value) : Reorders v v
  | array {xs ys : List Value} (length : xs.length = ys.length)
      (each : ∀ (i : Nat) x y, xs[i]? = some x → ys[i]? = some y → Reorders x y) : Reorders (.array xs) (.array ys)
  | object {xs order ys : List (Bytes × Value)} (perm : xs.Perm order) (keys : order.map Prod.fst = ys.map Prod.fst)
      (each : ∀ (i : Nat) x y, order[i]? = some x → ys[i]? = some y → Reorders x.2 y.2) :
      Reorders (.object xs) (.object ys)

theorem reorders_of_perm {xs ys : List (Bytes × Value)} (perm : xs.Perm ys) : Reorders (.object xs) (.object ys) := by
  refine .object perm rfl fun i x y left right => ?_
  obtain rfl := Option.some.inj (left.symm.trans right)
  exact .refl _

theorem Reorders.iff {ι : Type*} {P : ι → Value → Prop} {own : ι → Value → Prop} {next : ι → ι}
    (parts : ∀ i v, P i v ↔ own i v ∧ ∀ x ∈ v.children, P (next i) x)
    (same : ∀ i v w, v.Reorders w → (own i v ↔ own i w)) {w : Value} (reorders : v.Reorders w) (i : ι) :
    P i v ↔ P i w := by
  induction reorders generalizing i with
  | refl => exact Iff.rfl
  | array length each ih =>
    rw [parts i, parts i, same i _ _ (.array length each)]
    exact and_congr_right fun _ => forall_mem_iff_of_forall₂
      (forall₂_iff_getElem?.mpr ⟨length, fun j x y left right => ih j x y left right (next i)⟩)
  | object perm keys each ih =>
    rw [parts i, parts i, same i _ _ (.object perm keys each)]
    refine and_congr_right fun _ => ?_
    have length := congrArg List.length keys
    simp only [List.length_map] at length
    simp only [children, List.forall_mem_map]
    rw [← forall_mem_iff_of_forall₂ (P := fun entry => P (next i) entry.2) (Q := fun entry => P (next i) entry.2)
      (forall₂_iff_getElem?.mpr ⟨length, fun j x y left right => ih j x y left right (next i)⟩)]
    exact forall_congr' fun entry => imp_congr_left perm.mem_iff

end Value

end Mcp.Security
