import Mathlib.Data.Finset.Card
import Mathlib.Order.Bounds.Basic

/-! # Breadth-first levels -/

namespace Mcp.Lib.Levels

variable {κ : Type*}

/-- A walk of the given length leads from one of the roots to the vertex. -/
inductive Walk (roots : Set κ) (adj : κ → List κ) : Nat → κ → Prop
  | root {v : κ} (here : v ∈ roots) : Walk roots adj 0 v
  | step {n : Nat} {u v : κ} (walk : Walk roots adj n u) (edge : v ∈ adj u) : Walk roots adj (n + 1) v

structure Search (κ : Type*) where
  queue : List κ
  visited : κ → Bool
  levels : κ → Option Nat

namespace Search

def level (s : Search κ) (v : κ) : Nat := (s.levels v).getD 0

/-- Levels are lengths of walks, the queue is ordered by level and spans two levels, and the neighbours of what has left
the queue are at most one level further. -/
structure Layered (roots : Set κ) (adj : κ → List κ) (s : Search κ) : Prop where
  visited : ∀ v, s.visited v = (s.levels v).isSome
  root : ∀ v ∈ roots, s.visited v ∧ s.level v = 0
  walk : ∀ v, s.visited v → Walk roots adj (s.level v) v
  queued : ∀ v ∈ s.queue, s.visited v
  ordered : s.queue.Pairwise (s.level · ≤ s.level ·)
  span : ∀ u ∈ s.queue, ∀ v, s.visited v → s.level v ≤ s.level u + 1
  closed : ∀ u, s.visited u → u ∉ s.queue → ∀ v ∈ adj u, s.visited v ∧ s.level v ≤ s.level u + 1

variable {roots : Set κ} {adj : κ → List κ} {s t : Search κ} {u v : κ} {rest new : List κ} {n : Nat}

namespace Layered

variable (layered : Layered roots adj s) (done : s.queue = [])
include layered done

theorem level_le (walk : Walk roots adj n v) : s.visited v ∧ s.level v ≤ n := by
  induction walk with
  | root here =>
    obtain ⟨seen, zero⟩ := layered.root _ here
    exact ⟨seen, zero.le⟩
  | step walk edge ih =>
    obtain ⟨seen, le⟩ := layered.closed _ ih.1 (by simp [done]) _ edge
    exact ⟨seen, le.trans (Nat.succ_le_succ ih.2)⟩

theorem levels_eq (least : IsLeast {n | Walk roots adj n v} n) : s.levels v = some n := by
  obtain ⟨seen, le⟩ := layered.level_le done least.1
  have same : s.level v = n := le.antisymm (least.2 (layered.walk v seen))
  obtain ⟨m, found⟩ := Option.isSome_iff_exists.mp (layered.visited v ▸ seen)
  rw [found, ← same, level, found, Option.getD_some]

end Layered

variable [DecidableEq κ]

def visit (level : Nat) (s : Search κ) (v : κ) : Search κ where
  queue := s.queue ++ [v]
  visited := Function.update s.visited v true
  levels := Function.update s.levels v (some level)

def discover (level : Nat) (s : Search κ) (v : κ) : Search κ := if s.visited v then s else s.visit level v

def start (roots : List κ) : Search κ := roots.foldl (visit 0) ⟨[], fun _ => false, fun _ => none⟩

def expand (adj : κ → List κ) (s : Search κ) (current : κ) (rest : List κ) : Search κ :=
  (adj current).foldl (discover (s.level current + 1)) { s with queue := rest }

def run (adj : κ → List κ) : Nat → Search κ → Option (Search κ)
  | 0, _ => none
  | fuel + 1, s =>
    match s.queue with
    | [] => some s
    | current :: rest => run adj fuel (s.expand adj current rest)

theorem foldl_visit (k : Nat) (new : List κ) (s : Search κ) : new.foldl (visit k) s =
    ⟨s.queue ++ new, fun v => v ∈ new || s.visited v, fun v => if v ∈ new then some k else s.levels v⟩ := by
  induction new generalizing s with
  | nil => simp
  | cons u new ih =>
    rw [List.foldl_cons, ih]
    congr 1
    · simp [visit]
    all_goals
      funext v
      by_cases same : v = u <;> simp [visit, same]

theorem layered_start {rs : List κ} (same : ∀ v, v ∈ rs ↔ v ∈ roots) : Layered roots adj (start rs) := by
  have level (v : κ) : (start rs).level v = 0 := by
    by_cases here : v ∈ rs <;> simp [start, Search.level, foldl_visit, here]
  constructor
  · intro v
    by_cases here : v ∈ rs <;> simp [start, foldl_visit, here]
  · exact fun v here => ⟨by simp [start, foldl_visit, same, here], level v⟩
  · intro v here
    rw [level]
    exact .root (by simpa [start, foldl_visit, same] using here)
  · simp [start, foldl_visit]
  · simp [level, List.pairwise_iff_forall_sublist]
  · simp [level]
  · simp +contextual [start, foldl_visit]

theorem foldl_discover (k : Nat) (ns : List κ) (s : Search κ) :
    ∃ new : List κ, ns.foldl (discover k) s = new.foldl (visit k) s ∧ new.Nodup ∧
      ∀ v, v ∈ new ↔ v ∈ ns ∧ s.visited v = false := by
  induction ns generalizing s with
  | nil => exact ⟨[], rfl, List.nodup_nil, by simp⟩
  | cons u ns ih =>
    rw [List.foldl_cons, discover]
    split_ifs with seen
    · obtain ⟨new, same, nodup, mem⟩ := ih s
      refine ⟨new, same, nodup, fun v => ?_⟩
      by_cases first : v = u <;> simp_all
    · obtain ⟨new, same, nodup, mem⟩ := ih (s.visit k u)
      refine ⟨u :: new, same, List.nodup_cons.mpr ⟨by simp [mem, visit], nodup⟩, fun v => ?_⟩
      by_cases first : v = u <;> simp_all [visit]

/-- The search after `u` has left the queue: `new` are its neighbours that had not been visited. -/
structure Expanded (adj : κ → List κ) (s : Search κ) (u : κ) (rest new : List κ) (t : Search κ) : Prop where
  queue : t.queue = rest ++ new
  nodup : new.Nodup
  fresh : ∀ v, v ∈ new ↔ v ∈ adj u ∧ s.visited v = false
  visited : ∀ v, t.visited v = true ↔ v ∈ new ∨ s.visited v = true
  levels : ∀ v, t.levels v = if v ∈ new then some (s.level u + 1) else s.levels v

theorem expanded (adj : κ → List κ) (s : Search κ) (u : κ) (rest : List κ) :
    ∃ new, Expanded adj s u rest new (s.expand adj u rest) := by
  obtain ⟨new, made, nodup, fresh⟩ := foldl_discover (s.level u + 1) (adj u) { s with queue := rest }
  rw [expand, made, foldl_visit]
  exact ⟨new, rfl, nodup, fresh, by simp, fun v => rfl⟩

namespace Expanded

variable (step : Expanded adj s u rest new t)
include step

theorem level_old (before : s.visited v) : t.level v = s.level v := by
  have old : v ∉ new := by simp [step.fresh, before]
  simp [level, step.levels, old]

theorem level_new (member : v ∈ new) : t.level v = s.level u + 1 := by simp [level, step.levels, member]

theorem layered (layered : Layered roots adj s) (front : s.queue = u :: rest) : Layered roots adj t := by
  have queued := List.forall_mem_cons.mp (front ▸ layered.queued)
  have ordered := List.pairwise_cons.mp (front ▸ layered.ordered)
  have highest (v : κ) (here : t.visited v) : t.level v ≤ s.level u + 1 := by
    rcases (step.visited v).mp here with member | before
    · exact (step.level_new member).le
    · rw [step.level_old before]
      exact layered.span u (front ▸ List.mem_cons_self) v before
  constructor
  · intro v
    rw [Bool.eq_iff_iff, step.visited, step.levels, layered.visited]
    split_ifs with member <;> simp [member]
  · intro v here
    obtain ⟨before, zero⟩ := layered.root v here
    exact ⟨(step.visited v).mpr (.inr before), (step.level_old before).trans zero⟩
  · intro v here
    rcases (step.visited v).mp here with member | before
    · rw [step.level_new member]
      exact (layered.walk u queued.1).step ((step.fresh v).mp member).1
    · rw [step.level_old before]
      exact layered.walk v before
  · intro v member
    rw [step.queue, List.mem_append] at member
    exact (step.visited v).mpr (member.symm.imp_right (queued.2 v))
  · rw [step.queue, List.pairwise_append]
    refine ⟨?_, ?_, fun a old b member => ?_⟩
    · refine ordered.2.imp_of_mem fun {a b} old old' le => ?_
      rwa [step.level_old (queued.2 a old), step.level_old (queued.2 b old')]
    · refine List.pairwise_of_forall_mem_list fun a member b member' => ?_
      rw [step.level_new member, step.level_new member']
    · rw [step.level_new member]
      exact highest a ((step.visited a).mpr (.inr (queued.2 a old)))
  · intro a member v here
    refine (highest v here).trans (Nat.succ_le_succ ?_)
    rw [step.queue, List.mem_append] at member
    rcases member with old | member
    · rw [step.level_old (queued.2 a old)]
      exact ordered.1 a old
    · exact (Nat.le_succ _).trans (step.level_new member).ge
  · intro a here left v edge
    rw [step.queue, List.mem_append, not_or] at left
    have before : s.visited a := ((step.visited a).mp here).resolve_left left.2
    rw [step.level_old before]
    by_cases first : a = u
    · -- the neighbours of `u` were visited before or are now
      subst first
      have here : t.visited v := by simp [step.visited, step.fresh, edge]
      exact ⟨here, highest v here⟩
    · obtain ⟨old, le⟩ := layered.closed a before (by simp [front, first, left.1]) v edge
      exact ⟨(step.visited v).mpr (.inr old), by rwa [step.level_old old]⟩

end Expanded

/-- What is in the queue and what is still to be visited. -/
def remaining (all : Finset κ) (s : Search κ) : Nat := s.queue.length + (all.filter fun v => s.visited v = false).card

theorem Expanded.remaining_lt {all : Finset κ} (step : Expanded adj s u rest new t) (front : s.queue = u :: rest)
    (within : ∀ v ∈ adj u, v ∈ all) : remaining all t < remaining all s := by
  have left : (all.filter fun v => t.visited v = false) = (all.filter fun v => s.visited v = false) \ new.toFinset := by
    ext v
    simp [← Bool.not_eq_true, step.visited, and_left_comm, and_comm]
  have part : new.toFinset ⊆ all.filter fun v => s.visited v = false := fun v member => by
    obtain ⟨edge, fresh⟩ := (step.fresh v).mp (List.mem_toFinset.mp member)
    exact Finset.mem_filter.mpr ⟨within v edge, fresh⟩
  have count := Finset.card_sdiff_add_card_eq_card part
  rw [List.toFinset_card_of_nodup step.nodup] at count
  rw [remaining, remaining, left, step.queue, front, List.length_append, List.length_cons]
  omega

theorem run_layered {all : Finset κ} (within : ∀ u, ∀ v ∈ adj u, v ∈ all) {fuel : Nat} (layered : Layered roots adj s)
    (enough : remaining all s < fuel) : ∃ t, run adj fuel s = some t ∧ Layered roots adj t ∧ t.queue = [] := by
  induction fuel generalizing s with
  | zero => exact absurd enough (Nat.not_lt_zero _)
  | succ fuel ih =>
    cases front : s.queue with
    | nil => exact ⟨s, by simp only [run, front], layered, front⟩
    | cons u rest =>
      obtain ⟨new, step⟩ := expanded adj s u rest
      obtain ⟨t, ran, done⟩ := ih (step.layered layered front)
        ((step.remaining_lt front (within u)).trans_le (Nat.le_of_lt_succ enough))
      exact ⟨t, by simpa only [run, front] using ran, done⟩

end Search

end Mcp.Lib.Levels
