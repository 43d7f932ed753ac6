import Mcp.Lib.Machine

/-! # Object pools -/

namespace Mcp.Lib
open Function

structure Recycler (α : Type*) where
  new : α
  reset : α → α
  reset_new : reset new = new

namespace Recycler

variable {α : Type*}

structure State (α : Type*) where
  heap : Nat → α
  allocated : Nat := 0
  idle : List Nat := []

inductive Label (α : Type*) where
  | get (i : Option Nat)
  | make (o : α)
  | write (p : Nat) (o : α)
  | put (p : Nat)
  | drop (i : Nat)

variable (r : Recycler α)

def start : State α where
  heap := fun _ => r.new

def handedOut (s : State α) : Option Nat → Option α
  | none => some (r.reset r.new)
  | some i => s.idle[i]?.map fun p => r.reset (s.heap p)

def State.allocate (s : State α) (o : α) : State α where
  heap := update s.heap s.allocated o
  allocated := s.allocated + 1
  idle := s.idle

def step (s : State α) : Label α → Option (State α)
  | .get none => some (s.allocate (r.reset r.new))
  | .get (some i) => s.idle[i]?.map fun p =>
    { s with heap := update s.heap p (r.reset (s.heap p)), idle := s.idle.eraseIdx i }
  | .make o => some (s.allocate o)
  | .write p o => if p < s.allocated then some { s with heap := update s.heap p o } else none
  | .put p => if p < s.allocated then some { s with idle := p :: s.idle } else none
  | .drop i => some { s with idle := s.idle.eraseIdx i }

def HandsOutNew (s : State α) : Prop := ∀ i o, r.handedOut s i = some o → o = r.new

/-- An object is put back, or written to in the pool, only with what the reset clears. -/
def Clears (s : State α) : Label α → Prop
  | .write p o => p ∈ s.idle → r.reset o = r.new
  | .put p => r.reset (s.heap p) = r.new
  | _ => True

def Bounded (s : State α) : Prop := ∀ p ∈ s.idle, p < s.allocated

variable {r} {s s' : State α} {l : Label α}

theorem handsOutNew_iff : r.HandsOutNew s ↔ ∀ p ∈ s.idle, r.reset (s.heap p) = r.new := by
  constructor
  · intro new p member
    obtain ⟨i, found⟩ := List.mem_iff_getElem?.mp member
    exact new (some i) _ (by simp [handedOut, found])
  · intro new i o out
    cases i with
    | none =>
      cases out
      exact r.reset_new
    | some i =>
      obtain ⟨p, found, rfl⟩ := Option.map_eq_some_iff.mp out
      exact new p (List.mem_of_getElem? found)

theorem bounded_step (bounded : Bounded s) (step : r.step s l = some s') : Bounded s' := by
  have allocated (o : α) : Bounded (s.allocate o) := fun p member => Nat.lt_succ_of_lt (bounded p member)
  cases l with
  | get i =>
    cases i with
    | none =>
      cases step
      exact allocated _
    | some i =>
      obtain ⟨p, -, rfl⟩ := Option.map_eq_some_iff.mp step
      exact fun q member => bounded q (List.mem_of_mem_eraseIdx member)
  | make o =>
    cases step
    exact allocated o
  | write p o =>
    obtain ⟨-, ⟨⟩⟩ := Option.ite_none_right_eq_some.mp step
    exact bounded
  | put p =>
    obtain ⟨old, ⟨⟩⟩ := Option.ite_none_right_eq_some.mp step
    exact List.forall_mem_cons.mpr ⟨old, bounded⟩
  | drop i =>
    cases step
    exact fun q member => bounded q (List.mem_of_mem_eraseIdx member)

theorem handsOutNew_allocate (bounded : Bounded s) (new : r.HandsOutNew s) (o : α) : r.HandsOutNew (s.allocate o) := by
  rw [handsOutNew_iff] at new ⊢
  intro p member
  have other : p ≠ s.allocated := Nat.ne_of_lt (bounded p member)
  show r.reset (update s.heap s.allocated o p) = r.new
  rw [update_of_ne other]
  exact new p member

theorem handsOutNew_update {idle : List Nat} {p : Nat} {o : α} (own : p ∈ idle → r.reset o = r.new)
    (kept : ∀ q ∈ idle, r.reset (s.heap q) = r.new) : ∀ q ∈ idle, r.reset (update s.heap p o q) = r.new := by
  intro q member
  by_cases same : q = p
  · subst same
    rw [update_self]
    exact own member
  · rw [update_of_ne same]
    exact kept q member

theorem handsOutNew_step_iff (bounded : Bounded s) (new : r.HandsOutNew s) (step : r.step s l = some s') :
    r.HandsOutNew s' ↔ r.Clears s l := by
  have kept := handsOutNew_iff.mp new
  cases l with
  | get i =>
    refine iff_of_true ?_ trivial
    cases i with
    | none =>
      cases step
      exact handsOutNew_allocate bounded new _
    | some i =>
      obtain ⟨p, found, rfl⟩ := Option.map_eq_some_iff.mp step
      refine handsOutNew_iff.mpr (handsOutNew_update (fun _ => ?_) ?_)
      · rw [kept p (List.mem_of_getElem? found), r.reset_new]
      · exact fun q member => kept q (List.mem_of_mem_eraseIdx member)
  | make o =>
    cases step
    exact iff_of_true (handsOutNew_allocate bounded new o) trivial
  | write p o =>
    obtain ⟨-, ⟨⟩⟩ := Option.ite_none_right_eq_some.mp step
    rw [handsOutNew_iff]
    dsimp only
    constructor
    · intro after member
      have own := after p member
      rwa [update_self] at own
    · exact fun clears => handsOutNew_update clears kept
  | put p =>
    obtain ⟨-, ⟨⟩⟩ := Option.ite_none_right_eq_some.mp step
    rw [handsOutNew_iff, List.forall_mem_cons, and_iff_left kept]
    rfl
  | drop i =>
    cases step
    exact iff_of_true (handsOutNew_iff.mpr fun q member => kept q (List.mem_of_mem_eraseIdx member)) trivial

theorem bounded_start : Bounded r.start := nofun

theorem handsOutNew_start : r.HandsOutNew r.start := handsOutNew_iff.mpr nofun

end Recycler

end Mcp.Lib
