import Mathlib.Data.List.Nodup
import Mathlib.Data.List.Pairwise
import Mathlib.Order.Lattice

/-! # Reading a changing collection page by page -/

namespace Mcp.Lib.Paging
open List

variable {τ κ : Type*} [LinearOrder κ] (key : τ → κ)

def inOrder (items : List τ) : List τ := items.mergeSort fun a b => key a ≤ key b

def above (bound : Option κ) (items : List τ) : List τ :=
  (inOrder key items).filter fun x => ∀ k ∈ bound, k < key x

structure Walk (τ κ : Type*) where
  pages : List (List τ) := []
  bound : Option κ := none
  done : Bool := false

def search (f : Nat → Bool) : Nat → Nat → Nat → Nat
  | 0, i, _ => i
  | fuel + 1, i, j =>
    if i < j then
      let h := (i + j) / 2
      if f h then search f fuel i h else search f fuel (h + 1) j
    else i

def firstAbove (bound : κ) (sorted : List τ) : Nat :=
  search (fun i => ∀ x ∈ sorted[i]?, bound < key x) sorted.length 0 sorted.length

variable (size : Nat)

def Walk.request (w : Walk τ κ) (items : List τ) : Walk τ κ :=
  if w.done then w
  else
    let rest := above key w.bound items
    if rest.length ≤ size then { w with pages := w.pages ++ [rest], done := true }
    else { w with pages := w.pages ++ [rest.take size], bound := (rest.take size).getLast?.map key }

def walk (snapshots : Nat → List τ) : Nat → Walk τ κ
  | 0 => {}
  | n + 1 => (walk snapshots n).request key size (snapshots n)

variable {key} {items : List τ} {bound : Option κ}

theorem inOrder_perm (items : List τ) : (inOrder key items).Perm items := mergeSort_perm ..

theorem inOrder_sorted (unique : (items.map key).Nodup) : (inOrder key items).Pairwise fun a b => key a < key b := by
  have sorted : (inOrder key items).Pairwise fun a b => (decide (key a ≤ key b)) = true := by
    apply pairwise_mergeSort
    · intro a b c
      simpa using le_trans
    · intro a b
      simpa using le_total (key a) (key b)
  have distinct : (inOrder key items).Pairwise fun a b => key a ≠ key b := by
    apply pairwise_map.mp
    exact ((inOrder_perm items).map key).nodup_iff.mpr unique
  refine (sorted.and distinct).imp ?_
  rintro a b ⟨le, ne⟩
  exact lt_of_le_of_ne (of_decide_eq_true le) ne

theorem mem_above {x : τ} : x ∈ above key bound items ↔ x ∈ items ∧ ∀ k ∈ bound, k < key x := by
  rw [above, mem_filter, (inOrder_perm items).mem_iff]
  simp

theorem above_sorted (unique : (items.map key).Nodup) : (above key bound items).Pairwise fun a b => key a < key b :=
  (inOrder_sorted unique).sublist List.filter_sublist

theorem above_length_congr {items' : List τ} (perm : items'.Perm items) :
    (above key bound items').length = (above key bound items).length := by
  apply List.Perm.length_eq
  apply List.Perm.filter
  exact ((inOrder_perm items').trans perm).trans (inOrder_perm items).symm

variable {size}

variable {xs : List τ} {f : Nat → Bool} {i start : Nat}

theorem exists_last (positive : 0 < size) (long : size < xs.length) :
    ∃ before last, xs.take size = before ++ [last] ∧ xs = before ++ last :: xs.drop size := by
  have nonempty : xs.take size ≠ [] := by
    intro empty
    have length := congrArg List.length empty
    rw [length_take, length_nil] at length
    omega
  refine ⟨(xs.take size).dropLast, (xs.take size).getLast nonempty, (dropLast_append_getLast nonempty).symm, ?_⟩
  rw [← singleton_append, ← append_assoc, dropLast_append_getLast nonempty, take_append_drop]

theorem split_sorted (unique : (items.map key).Nodup) {before after : List τ} {last : τ}
    (split : above key bound items = before ++ last :: after) :
    (∀ x ∈ before, key x < key last) ∧ ∀ x ∈ after, key last < key x := by
  have sorted : (above key bound items).Pairwise fun a b => key a < key b := above_sorted unique
  rw [split] at sorted
  obtain ⟨-, sortedAfter, cross⟩ := pairwise_append.mp sorted
  exact ⟨fun x early => cross x early last mem_cons_self, (pairwise_cons.mp sortedAfter).1⟩

theorem exists_page (positive : 0 < size) (unique : (items.map key).Nodup)
    (long : size < (above key bound items).length) :
    ∃ before last, (above key bound items).take size = before ++ [last] ∧
      above key bound items = before ++ last :: (above key bound items).drop size ∧
      (∀ x ∈ (above key bound items).take size, key x ≤ key last) ∧
      ∀ x ∈ (above key bound items).drop size, key last < key x := by
  obtain ⟨before, last, page, split⟩ := exists_last positive long
  obtain ⟨cross, lastAfter⟩ := split_sorted unique split
  refine ⟨before, last, page, split, ?_, lastAfter⟩
  intro x member
  rw [page] at member
  rcases mem_append.mp member with early | same
  · exact (cross x early).le
  · rw [mem_singleton.mp same]

theorem above_last (unique : (items.map key).Nodup) {before after : List τ} {last : τ}
    (split : above key bound items = before ++ last :: after) : above key (some (key last)) items = after := by
  obtain ⟨cross, lastAfter⟩ := split_sorted unique split
  -- Filtering by the larger bound can be done after filtering by the smaller one.
  have again : above key (some (key last)) items =
      (above key bound items).filter fun x => key last < key x := by
    rw [above, above, List.filter_filter]
    apply List.filter_congr
    intro x _
    have member : last ∈ above key bound items := by simp [split]
    have below := (mem_above.mp member).2
    simp only [Option.mem_some_iff, forall_eq', Bool.and_eq_decide, decide_eq_true_eq, decide_eq_decide]
    exact ⟨fun less => ⟨less, fun k bounds => (below k bounds).trans less⟩, And.left⟩
  rw [again, split, List.filter_append, List.filter_cons_of_neg (by simp)]
  rw [List.filter_eq_nil_iff.mpr, List.filter_eq_self.mpr, nil_append]
  · intro x member
    simpa using lastAfter x member
  · intro x member
    simpa using (cross x member).le

theorem le_iff_of_switch (monotone : ∀ {a b}, a ≤ b → f a = true → f b = true)
    (low : ∀ k < i, f k = false) (high : f i = true) (k : Nat) : i ≤ k ↔ f k = true := by
  constructor
  · intro le
    exact monotone le high
  · intro holds
    by_contra less
    simp [low k (Nat.lt_of_not_le less)] at holds

theorem search_le_iff (monotone : ∀ {a b}, a ≤ b → f a = true → f b = true) {fuel j : Nat}
    (enough : j ≤ i + fuel) (ordered : i ≤ j) (low : ∀ k < i, f k = false) (high : f j = true) (k : Nat) :
    search f fuel i j ≤ k ↔ f k = true := by
  -- Below `i` the test fails and from `j` on it holds.
  induction fuel generalizing i j with
  | zero =>
    have same : i = j := by omega
    exact le_iff_of_switch monotone low (same ▸ high) k
  | succ fuel ih =>
    unfold search
    split_ifs with less
    · simp only
      split_ifs with holds
      · exact ih (by omega) (by omega) low holds
      · refine ih (by omega) (by omega) ?_ high
        intro a below
        by_contra early
        exact holds (monotone (Nat.le_of_lt_succ below) (by simpa using early))
    · have same : i = j := by omega
      exact le_iff_of_switch monotone low (same ▸ high) k

theorem filter_eq_drop {p : τ → Bool} {r : Nat}
    (switch : ∀ (k : Nat) (x : τ), xs[k]? = some x → (r ≤ k ↔ p x = true)) : xs.filter p = xs.drop r := by
  induction xs generalizing r with
  | nil => simp
  | cons x xs ih =>
    cases r with
    | zero =>
      refine List.filter_eq_self.mpr ?_
      intro y member
      obtain ⟨k, at_k⟩ := mem_iff_getElem?.mp member
      exact (switch k y at_k).mp (Nat.zero_le k)
    | succ r =>
      have first : ¬ p x = true := fun holds => by simpa using (switch 0 x rfl).mpr holds
      rw [List.filter_cons_of_neg first, drop_succ_cons]
      apply ih
      intro k y at_k
      rw [← switch (k + 1) y at_k]
      omega

theorem drop_firstAbove (unique : (items.map key).Nodup) (bound : κ) :
    (inOrder key items).drop (firstAbove key bound (inOrder key items)) = above key (some bound) items := by
  have sorted := pairwise_iff_getElem.mp (inOrder_sorted unique)
  refine (filter_eq_drop ?_).symm
  intro k x at_k
  rw [firstAbove, search_le_iff _ (by omega) (Nat.zero_le _) (by simp) (by simp)]
  · simp [at_k]
  · intro a b le holds
    rcases Nat.lt_or_eq_of_le le with less | rfl
    · simp only [Option.mem_def, decide_eq_true_eq, List.getElem?_eq_some_iff] at holds ⊢
      rintro y ⟨inside, rfl⟩
      exact (holds _ ⟨Nat.lt_trans less inside, rfl⟩).trans (sorted a b _ inside less)
    · exact holds

structure Reading (key : τ → κ) (size : Nat) (snapshots : Nat → List τ) (n : Nat) (w : Walk τ κ) : Prop where
  short : ∀ page ∈ w.pages, page.length ≤ size
  increasing : w.pages.flatten.Pairwise fun a b => key a < key b
  real : ∀ x ∈ w.pages.flatten, ∃ k < n, x ∈ snapshots k
  below : w.done = false → ∀ x ∈ w.pages.flatten, ∃ b, w.bound = some b ∧ key x ≤ b
  complete : ∀ x, (∀ k < n, x ∈ snapshots k) → w.done = true ∨ (∃ b, w.bound = some b ∧ key x ≤ b) →
    x ∈ w.pages.flatten

variable {snapshots : Nat → List τ} {n : Nat} {w : Walk τ κ}

theorem Reading.wait (reading : Reading key size snapshots n w) : Reading key size snapshots (n + 1) w where
  short := reading.short
  increasing := reading.increasing
  real x member := by
    obtain ⟨k, less, held⟩ := reading.real x member
    exact ⟨k, Nat.lt_succ_of_lt less, held⟩
  below := reading.below
  complete x present := reading.complete x fun k less => present k (Nat.lt_succ_of_lt less)

theorem Reading.extend (reading : Reading key size snapshots n w) (going : w.done = false) {page : List τ}
    {w' : Walk τ κ} (pages : w'.pages = w.pages ++ [page]) (short : page.length ≤ size)
    (sorted : page.Pairwise fun a b => key a < key b) (some_above : ∀ x ∈ page, x ∈ above key w.bound (snapshots n))
    (below : w'.done = false → ∀ x ∈ w'.pages.flatten, ∃ b, w'.bound = some b ∧ key x ≤ b)
    (complete : ∀ x ∈ above key w.bound (snapshots n), w'.done = true ∨ (∃ b, w'.bound = some b ∧ key x ≤ b) →
      x ∈ page) : Reading key size snapshots (n + 1) w' := by
  have whole : w'.pages.flatten = w.pages.flatten ++ page := by simp [pages]
  refine ⟨?_, ?_, ?_, below, ?_⟩
  · intro p member
    rw [pages] at member
    rcases mem_append.mp member with old | new
    · exact reading.short p old
    · rw [mem_singleton.mp new]
      exact short
  · rw [whole]
    refine pairwise_append.mpr ⟨reading.increasing, sorted, ?_⟩
    intro a old b new
    obtain ⟨bound, eq, le⟩ := reading.below going a old
    exact le.trans_lt ((mem_above.mp (some_above b new)).2 bound eq)
  · intro x member
    rw [whole] at member
    rcases mem_append.mp member with old | new
    · obtain ⟨k, less, held⟩ := reading.real x old
      exact ⟨k, Nat.lt_succ_of_lt less, held⟩
    · exact ⟨n, Nat.lt_succ_self n, (mem_above.mp (some_above x new)).1⟩
  · intro x present reached
    rw [whole]
    by_cases old : ∃ b, w.bound = some b ∧ key x ≤ b
    · have earlier := reading.complete x (fun k less => present k (Nat.lt_succ_of_lt less)) (.inr old)
      exact mem_append.mpr (.inl earlier)
    · have larger : x ∈ above key w.bound (snapshots n) := by
        refine mem_above.mpr ⟨present n (Nat.lt_succ_self n), ?_⟩
        intro k bounds
        exact lt_of_not_ge fun le => old ⟨k, bounds, le⟩
      exact mem_append.mpr (.inr (complete x larger reached))

theorem Reading.request (positive : 0 < size) (unique : ((snapshots n).map key).Nodup)
    (reading : Reading key size snapshots n w) :
    Reading key size snapshots (n + 1) (w.request key size (snapshots n)) := by
  unfold Walk.request
  split_ifs with done
  · exact reading.wait
  have going : w.done = false := by simpa using done
  have sorted : (above key w.bound (snapshots n)).Pairwise fun a b => key a < key b := above_sorted unique
  simp only
  split_ifs with short
  · exact reading.extend going rfl short sorted (fun _ member => member) (by simp) (fun _ member _ => member)
  · obtain ⟨before, last, page, split, upTo, beyond⟩ := exists_page positive unique (Nat.lt_of_not_le short)
    have bound : ((above key w.bound (snapshots n)).take size).getLast?.map key = some (key last) := by
      rw [page, List.getLast?_concat, Option.map_some]
    refine reading.extend going rfl (length_take_le ..) ?_ (fun _ member => mem_of_mem_take member) ?_ ?_
    · exact sorted.sublist (take_sublist ..)
    · intro _ x member
      refine ⟨key last, bound, ?_⟩
      rw [flatten_append, flatten_singleton] at member
      rcases mem_append.mp member with old | new
      · obtain ⟨b, eq, le⟩ := reading.below going x old
        have larger : last ∈ above key w.bound (snapshots n) := by
          rw [split]
          simp
        exact le.trans ((mem_above.mp larger).2 b eq).le
      · exact upTo x new
    · intro x member reached
      rw [← take_append_drop size (above key w.bound (snapshots n))] at member
      rcases mem_append.mp member with early | after
      · exact early
      · -- An item behind the page has a larger key than the new bound.
        obtain stopped | ⟨b, eq, le⟩ := reached
        · simp [going] at stopped
        · cases bound.symm.trans eq
          exact absurd (beyond x after) (not_lt_of_ge le)

theorem walk_reading (positive : 0 < size) (unique : ∀ n, ((snapshots n).map key).Nodup) (n : Nat) :
    Reading key size snapshots n (walk key size snapshots n) := by
  induction n with
  | zero => constructor <;> simp [walk]
  | succ n ih => exact ih.request positive (unique n)

theorem walk_done_of_length (positive : 0 < size) (unique : ∀ n, ((snapshots n).map key).Nodup)
    (stable : ∀ k, start ≤ k → (snapshots k).Perm (snapshots start)) (left n : Nat) (later : start ≤ n)
    (few : (above key (walk key size snapshots n).bound (snapshots start)).length ≤ left) :
    ∃ m, (walk key size snapshots m).done = true := by
  -- Every page leaves fewer items above the bound.
  induction left using Nat.strongRecOn generalizing n with
  | ind left ih =>
    by_cases done : (walk key size snapshots n).done = true
    · exact ⟨n, done⟩
    · have same : (above key (walk key size snapshots n).bound (snapshots n)).length = _ :=
        above_length_congr (stable n later)
      by_cases last : (above key (walk key size snapshots n).bound (snapshots n)).length ≤ size
      · refine ⟨n + 1, ?_⟩
        simp [walk, Walk.request, done, last]
      · obtain ⟨before, final, page, split⟩ := exists_last positive (Nat.lt_of_not_le last)
        have bound : (walk key size snapshots (n + 1)).bound = some (key final) := by
          simp [walk, Walk.request, done, last, page]
        have rest := above_last (unique n) split
        have fewer : (above key (walk key size snapshots (n + 1)).bound (snapshots start)).length < left := by
          rw [bound, ← above_length_congr (stable n later), rest, length_drop]
          omega
        exact ih _ fewer (n + 1) (Nat.le_succ_of_le later) (Nat.le_refl _)

theorem walk_done (positive : 0 < size) (unique : ∀ n, ((snapshots n).map key).Nodup)
    (stable : ∀ k, start ≤ k → (snapshots k).Perm (snapshots start)) : ∃ m, (walk key size snapshots m).done = true :=
  walk_done_of_length positive unique stable _ start (Nat.le_refl _) (Nat.le_refl _)

end Mcp.Lib.Paging
