import Mathlib.Data.List.Lex
import Mcp.Lib.Base64
import Mcp.Lib.Paging

namespace Mcp.Serving
open Mcp.Lib Paging

variable {τ : Type*}

def defaultPageSize : Nat := 100

def encodeCursor (key : Bytes) : Bytes := Base64.encode key

def decodeCursor (cursor : Bytes) : Option Bytes := Base64.decode cursor

def pageFrom (items : List τ) (start : Nat) (key : τ → Bytes) : List τ × Bytes :=
  let stop := start + defaultPageSize
  if long : items.length ≤ stop then (items.drop start, [])
  else
    ((items.take stop).drop start,
      encodeCursor (key (items.get ⟨stop - 1, Nat.lt_of_le_of_lt (Nat.sub_le ..) (Nat.lt_of_not_le long)⟩)))

def paginate (items : List τ) (cursor : Bytes) (key : τ → Bytes) : List τ × Bytes :=
  let items := inOrder key items
  if cursor = [] then pageFrom items 0 key
  else
    match decodeCursor cursor with
    | none => ([], [])
    | some after => pageFrom items (firstAbove key after items) key

structure Following (τ : Type*) where
  pages : List (List τ) := []
  cursor : Bytes := []
  finished : Bool := false

def Following.entries (f : Following τ) : List τ := f.pages.flatten

def Following.request (key : τ → Bytes) (f : Following τ) (items : List τ) : Following τ :=
  if f.finished then f
  else
    let answer := paginate items f.cursor key
    { pages := f.pages ++ [answer.1], cursor := answer.2, finished := answer.2 = [] }

def follow (key : τ → Bytes) (snapshots : Nat → List τ) : Nat → Following τ
  | 0 => {}
  | n + 1 => (follow key snapshots n).request key (snapshots n)

variable {key : τ → Bytes} {items : List τ}

def cursorOf : Option Bytes → Bytes
  | none => []
  | some bound => encodeCursor bound

theorem paginate_start {bound : Option Bytes} (unique : (items.map key).Nodup) (nonempty : bound ≠ some []) :
    ∃ start, above key bound items = (inOrder key items).drop start ∧
      paginate items (cursorOf bound) key = pageFrom (inOrder key items) start key := by
  cases bound with
  | none =>
    refine ⟨0, ?_, rfl⟩
    simp [above]
  | some bound =>
    have whole : encodeCursor bound ≠ [] := by
      intro empty
      exact nonempty (congrArg some (Base64.encode_eq_nil.mp empty))
    refine ⟨_, (drop_firstAbove unique bound).symm, ?_⟩
    have decoded : decodeCursor (encodeCursor bound) = some bound := Base64.decode_encode bound
    simp only [paginate, cursorOf, if_neg whole, decoded]

variable {start : Nat} {x : τ}

theorem pageFrom_last (short : ((items.drop start).length) ≤ defaultPageSize) :
    pageFrom items start key = (items.drop start, []) := by
  rw [List.length_drop] at short
  exact dif_pos (by omega)

theorem pageFrom_full (sorted : items.Pairwise fun a b => key a < key b)
    (long : defaultPageSize < (items.drop start).length) :
    ∃ last, last ≠ [] ∧ ((items.drop start).take defaultPageSize).getLast?.map key = some last ∧
      pageFrom items start key = ((items.drop start).take defaultPageSize, encodeCursor last) := by
  rw [List.length_drop] at long
  have inside : start + defaultPageSize - 1 < items.length := by omega
  refine ⟨key (items.get ⟨start + defaultPageSize - 1, inside⟩), ?_, ?_, ?_⟩
  · have less := List.pairwise_iff_getElem.mp sorted 0 (start + defaultPageSize - 1) (by omega) inside
      (by simp only [defaultPageSize]; omega)
    intro empty
    rw [List.get_eq_getElem] at empty
    rw [empty] at less
    exact List.not_lt_nil _ less
  · rw [List.getLast?_eq_getElem?, List.length_take, List.length_drop]
    rw [List.getElem?_take_of_lt (by simp only [defaultPageSize] at *; omega), List.getElem?_drop]
    have position : start + (min defaultPageSize (items.length - start) - 1) = start + defaultPageSize - 1 := by
      simp only [defaultPageSize] at *
      omega
    rw [position, List.getElem?_eq_getElem inside]
    rfl
  · rw [pageFrom, dif_neg (by omega), List.drop_take, Nat.add_sub_cancel_left]

theorem mem_of_mem_pageFrom (member : x ∈ (pageFrom items start key).1) : x ∈ items := by
  unfold pageFrom at member
  simp only at member
  split_ifs at member with last
  · exact List.mem_of_mem_drop member
  · exact List.mem_of_mem_take (List.mem_of_mem_drop member)

theorem mem_of_mem_paginate {cursor : Bytes} (member : x ∈ (paginate items cursor key).1) : x ∈ items := by
  have listed : x ∈ inOrder key items := by
    unfold paginate at member
    simp only at member
    split_ifs at member with first
    · exact mem_of_mem_pageFrom member
    · cases decoded : decodeCursor cursor with
      | none => simp [decoded] at member
      | some after =>
        rw [decoded] at member
        exact mem_of_mem_pageFrom member
  exact (inOrder_perm items).subset listed

structure Simulates (f : Following τ) (w : Paging.Walk τ Bytes) : Prop where
  pages : f.pages = w.pages
  finished : f.finished = w.done
  cursor : w.done = false → f.cursor = cursorOf w.bound
  bound : w.bound ≠ some []

theorem Simulates.request {f : Following τ} {w : Paging.Walk τ Bytes} (simulates : Simulates f w)
    (unique : (items.map key).Nodup) : Simulates (f.request key items) (w.request key defaultPageSize items) := by
  unfold Following.request Paging.Walk.request
  rw [simulates.finished]
  split_ifs with done
  · exact simulates
  obtain ⟨start, rest, answer⟩ := paginate_start unique simulates.bound
  simp only [simulates.cursor (by simpa using done), answer, simulates.pages, rest]
  split_ifs with short
  · rw [pageFrom_last short]
    exact ⟨rfl, rfl, by simp, simulates.bound⟩
  · obtain ⟨last, nonempty, bound, page⟩ := pageFrom_full (inOrder_sorted unique) (Nat.lt_of_not_le short)
    have more : encodeCursor last ≠ [] := fun empty => nonempty (Base64.encode_eq_nil.mp empty)
    rw [page, bound]
    refine ⟨rfl, ?_, fun _ => rfl, ?_⟩
    · simpa [more] using done
    · simpa using nonempty

variable {snapshots : Nat → List τ}

theorem follow_simulates (unique : ∀ n, ((snapshots n).map key).Nodup) (n : Nat) :
    Simulates (follow key snapshots n) (walk key defaultPageSize snapshots n) := by
  induction n with
  | zero => exact ⟨rfl, rfl, fun _ => rfl, by simp [walk]⟩
  | succ n ih => exact ih.request (unique n)

theorem follow_complete [BEq τ] [LawfulBEq τ] (key : τ → Bytes) (snapshots : Nat → List τ)
    (unique : ∀ n, ((snapshots n).map key).Nodup) :
    (∀ n, (∀ page ∈ (follow key snapshots n).pages, page.length ≤ 100) ∧
      (follow key snapshots n).entries.Pairwise (fun a b => key a < key b) ∧
      (∀ x, (follow key snapshots n).entries.count x ≤ 1) ∧
      (∀ x ∈ (follow key snapshots n).entries, ∃ k < n, x ∈ snapshots k) ∧
      ((follow key snapshots n).finished = true → ∀ x, (∀ k < n, x ∈ snapshots k) →
        (follow key snapshots n).entries.count x = 1)) ∧
    ∀ start, (∀ k, start ≤ k → (snapshots k).Perm (snapshots start)) →
      ∃ n, (follow key snapshots n).finished = true := by
  have positive : 0 < defaultPageSize := by decide
  constructor
  · intro n
    have simulates := follow_simulates unique n
    have reading := walk_reading positive unique n
    rw [Following.entries, simulates.pages, simulates.finished]
    have distinct : (walk key defaultPageSize snapshots n).pages.flatten.Nodup :=
      reading.increasing.imp fun less same => (same ▸ less).false
    refine ⟨reading.short, reading.increasing, List.nodup_iff_count_le_one.mp distinct, reading.real, ?_⟩
    intro done x present
    exact List.count_eq_one_of_mem distinct (reading.complete x present (.inl done))
  · intro start stable
    obtain ⟨n, done⟩ := walk_done positive unique stable
    exact ⟨n, (follow_simulates unique n).finished.trans done⟩

def registering (k : Nat) : List Bytes := (List.range (if k = 0 then 101 else 102)).map fun i => [UInt8.ofNat i]

theorem follow_complete_registering :
    ∃ n, (follow id registering n).finished = true ∧
      ∀ i < 101, (follow id registering n).entries.count [UInt8.ofNat i] = 1 := by
  have distinct (k : Nat) : ((registering k).map id).Nodup := by
    rw [List.map_id]
    refine List.Nodup.map_on ?_ List.nodup_range
    intro i small j small' same
    have bytes := congrArg UInt8.toNat (List.singleton_inj.mp same)
    rw [UInt8.toNat_ofNat', UInt8.toNat_ofNat'] at bytes
    rw [List.mem_range] at small small'
    split_ifs at small small' <;> omega
  have complete := follow_complete id registering distinct
  obtain ⟨n, finished⟩ := complete.2 1 (by
    intro k later
    cases k with
    | zero => simp at later
    | succ k => exact List.Perm.refl (registering 1))
  refine ⟨n, finished, ?_⟩
  intro i less
  refine (complete.1 n).2.2.2.2 finished _ ?_
  intro k _
  refine List.mem_map_of_mem (List.mem_range.mpr ?_)
  split_ifs <;> omega

end Mcp.Serving
