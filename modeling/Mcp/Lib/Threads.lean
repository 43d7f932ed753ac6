import Mcp.Lib.Machine
import Mathlib.Order.Basic

/-! # Threads over a shared object -/

namespace Mcp.Lib
open Function

structure Config (σ τ : Type*) where
  shared : σ
  threads : List τ := []

inductive Label (α β ε : Type*) where
  | env (e : ε)
  | spawn (b : β)
  | act (i : Nat) (a : α)

structure System (σ ο τ α β ε : Type*) where
  start : σ
  perform : σ → ο → Option σ
  env : ε → ο
  spawn : σ → β → Option ο × τ
  act : σ → τ → α → Option (Option ο × τ)

namespace System

variable {σ ο τ α β ε : Type*} (sys : System σ ο τ α β ε)

def effect (s : σ) : Option ο → Option σ
  | none => some s
  | some op => sys.perform s op

def step (c : Config σ τ) : Label α β ε → Option (Config σ τ)
  | .env e => (sys.perform c.shared (sys.env e)).map fun s => { c with shared := s }
  | .spawn b =>
    (sys.effect c.shared (sys.spawn c.shared b).1).map fun s =>
      ⟨s, c.threads ++ [(sys.spawn c.shared b).2]⟩
  | .act i a =>
    c.threads[i]?.bind fun x =>
      (sys.act c.shared x a).bind fun moved =>
        (sys.effect c.shared moved.1).map fun s => ⟨s, c.threads.set i moved.2⟩

def machine : Machine (Config σ τ) (Label α β ε) where
  start := ⟨sys.start, []⟩
  step := sys.step

inductive Stepped (c : Config σ τ) : Label α β ε → Config σ τ → Prop
  | env {e : ε} {s : σ} (performed : sys.perform c.shared (sys.env e) = some s) :
      Stepped c (.env e) { c with shared := s }
  | spawn {b : β} {op : Option ο} {x : τ} {s : σ} (spawned : sys.spawn c.shared b = (op, x))
      (performed : sys.effect c.shared op = some s) : Stepped c (.spawn b) ⟨s, c.threads ++ [x]⟩
  | act {i : Nat} {a : α} {x x' : τ} {op : Option ο} {s : σ} (found : c.threads[i]? = some x)
      (acted : sys.act c.shared x a = some (op, x')) (performed : sys.effect c.shared op = some s) :
      Stepped c (.act i a) ⟨s, c.threads.set i x'⟩

variable {sys} {c c' : Config σ τ} {l : Label α β ε}

theorem stepped (step : sys.machine.step c l = some c') : sys.Stepped c l c' := by
  cases l with
  | env e =>
    obtain ⟨s, performed, rfl⟩ := Option.map_eq_some_iff.mp step
    exact .env performed
  | spawn b =>
    obtain ⟨s, performed, rfl⟩ := Option.map_eq_some_iff.mp step
    exact .spawn rfl performed
  | act i a =>
    obtain ⟨x, found, step⟩ := Option.bind_eq_some_iff.mp step
    obtain ⟨⟨op, x'⟩, acted, step⟩ := Option.bind_eq_some_iff.mp step
    obtain ⟨s, performed, rfl⟩ := Option.map_eq_some_iff.mp step
    exact .act found acted performed

variable {i j : Nat} {x y : τ} {op : Option ο} {s : σ} {xs : List τ} {P : σ → Prop}

theorem step_act {a : α} {x' : τ} (found : c.threads[i]? = some x)
    (acted : sys.act c.shared x a = some (op, x')) (performed : sys.effect c.shared op = some s) :
    sys.machine.step c (.act i a) = some ⟨s, c.threads.set i x'⟩ := by
  simp [machine, step, found, acted, performed]

theorem getElem?_set_cases (found : (xs.set i x)[j]? = some y) : j = i ∧ y = x ∨ j ≠ i ∧ xs[j]? = some y := by
  rw [List.getElem?_set] at found
  by_cases same : i = j
  · rw [if_pos same] at found
    split_ifs at found
    exact .inl ⟨same.symm, (Option.some.inj found).symm⟩
  · rw [if_neg same] at found
    exact .inr ⟨Ne.symm same, found⟩

theorem getElem?_concat_cases (found : (xs ++ [x])[j]? = some y) :
    j = xs.length ∧ y = x ∨ j < xs.length ∧ xs[j]? = some y := by
  obtain before | after := Nat.lt_or_ge j xs.length
  · rw [List.getElem?_append_left before] at found
    exact .inr ⟨before, found⟩
  · rw [List.getElem?_append_right after, List.getElem?_singleton] at found
    split_ifs at found with atEnd
    exact .inl ⟨by omega, (Option.some.inj found).symm⟩

theorem thread_stepped (step : sys.machine.step c l = some c') (found : c.threads[i]? = some x) :
    ∃ x', c'.threads[i]? = some x' ∧ (x' = x ∨ ∃ a op, sys.act c.shared x a = some (op, x')) := by
  have inside : i < c.threads.length := (List.getElem?_eq_some_iff.mp found).1
  cases stepped step with
  | env performed => exact ⟨x, found, .inl rfl⟩
  | spawn made performed => exact ⟨x, (List.getElem?_append_left inside).trans found, .inl rfl⟩
  | @act j a y y' op _ own acted performed =>
    by_cases same : j = i
    · subst same
      obtain rfl := Option.some.inj (own.symm.trans found)
      exact ⟨y', List.getElem?_set_self inside, .inr ⟨a, op, acted⟩⟩
    · exact ⟨x, (List.getElem?_set_ne same).trans found, .inl rfl⟩

theorem effect_invariant {s' : σ} (holds : P s) (kept : ∀ o s', op = some o → sys.perform s o = some s' → P s')
    (performed : sys.effect s op = some s') : P s' := by
  cases op with
  | none =>
    cases performed
    exact holds
  | some o => exact kept o s' rfl performed

theorem shared_invariant (initial : P sys.start) (kept : ∀ s op s', P s → sys.perform s op = some s' → P s')
    (reachable : sys.machine.Reachable c) : P c.shared := by
  refine Machine.Reachable.invariant (P := fun c => P c.shared) initial (fun c l c' holds step => ?_)
    reachable
  cases stepped step with
  | env performed => exact kept _ _ _ holds performed
  | spawn made performed | act found acted performed =>
    exact effect_invariant holds (fun o s' _ => kept _ o s' holds) performed

theorem thread_invariant {I : σ → Prop} {P : σ → τ → Prop} (always : ∀ c, sys.machine.Reachable c → I c.shared)
    (spawned : ∀ s b op x s', I s → sys.spawn s b = (op, x) → sys.effect s op = some s' → P s' x)
    (acts : ∀ s x a op x', I s → P s x → sys.act s x a = some (op, x') → P s x')
    (stable : ∀ s op s' x, P s x → sys.perform s op = some s' → P s' x)
    (reachable : sys.machine.Reachable c) (found : c.threads[i]? = some x) : P c.shared x := by
  refine Machine.Reachable.invariant' (P := fun c => ∀ (i : Nat) x, c.threads[i]? = some x → P c.shared x)
    (by intro i x found; simp [machine] at found) (fun c l c' reachable holds step => ?_) reachable i x found
  have undisturbed {s : σ} {op : Option ο} {y : τ} (before : P c.shared y)
      (performed : sys.effect c.shared op = some s) : P s y :=
    effect_invariant (P := fun s => P s y) before (fun o s' _ => stable _ o s' y before) performed
  cases stepped step with
  | env performed => exact fun j y found => stable _ _ _ _ (holds j y found) performed
  | spawn made performed =>
    intro j y found
    obtain ⟨-, rfl⟩ | ⟨-, found⟩ := getElem?_concat_cases found
    · exact spawned _ _ _ _ _ (always c reachable) made performed
    · exact undisturbed (holds j y found) performed
  | act own acted performed =>
    intro j y found
    obtain ⟨-, rfl⟩ | ⟨-, found⟩ := getElem?_set_cases found
    · exact undisturbed (acts _ _ _ _ _ (always c reachable) (holds _ _ own) acted) performed
    · exact undisturbed (holds j y found) performed

/-! # Fresh names -/

section FreshNames

variable {ν : Type*}

def names (name : τ → Option ν) (c : Config σ τ) (i : Nat) : Option ν := c.threads[i]?.bind name

variable {name : τ → Option ν} {i : Nat} {x : τ} {next n : ν}

theorem names_of_found (found : c.threads[i]? = some x) : names name c i = name x := by
  rw [names, found, Option.bind_some]

theorem names_set {x' : τ} (found : c.threads[i]? = some x) (s : σ) :
    names name ⟨s, c.threads.set i x'⟩ = update (names name c) i (name x') := by
  funext j
  have inside : i < c.threads.length := (List.getElem?_eq_some_iff.mp found).1
  by_cases same : j = i
  · subst same
    simp [names, inside]
  · simp [names, same, List.getElem?_set_ne (Ne.symm same)]

theorem names_concat (x : τ) (s : σ) : names name ⟨s, c.threads ++ [x]⟩ =
      update (names name c) c.threads.length (name x) := by
  funext j
  by_cases same : j = c.threads.length
  · subst same
    simp [names]
  · rw [update_of_ne same]
    rcases Nat.lt_or_ge j c.threads.length with before | after
    · simp [names, List.getElem?_append_left before]
    · have beyond : (c.threads ++ [x]).length ≤ j := by
        rw [List.length_append, List.length_singleton]
        omega
      simp [names, List.getElem?_eq_none after, List.getElem?_eq_none beyond]

structure Fresh [LT ν] (names : Nat → Option ν) (next : ν) : Prop where
  bound : ∀ {i n}, names i = some n → n < next
  distinct : ∀ {i j n}, names i = some n → names j = some n → i = j

theorem Fresh.lt [LT ν] (fresh : Fresh (names name c) next)
    (found : c.threads[i]? = some x) (named : name x = some n) : n < next :=
  fresh.bound ((names_of_found found).trans named)

theorem Fresh.unique [LT ν] {j : Nat} {y : τ}
    (fresh : Fresh (names name c) next) (found : c.threads[i]? = some x) (found' : c.threads[j]? = some y)
    (named : name x = some n) (named' : name y = some n) : i = j :=
  fresh.distinct ((names_of_found found).trans named) ((names_of_found found').trans named')

variable [Preorder ν]

theorem Fresh.update {names : Nat → Option ν} {next' : ν} {new : Option ν} (fresh : Fresh names next)
    (grows : next ≤ next') (i : Nat) (taken : new = names i ∨ new = some next ∧ next < next') :
    Fresh (update names i new) next' := by
  rcases taken with rfl | ⟨rfl, less⟩
  · rw [update_eq_self]
    exact ⟨fun named => (fresh.bound named).trans_le grows, fresh.distinct⟩
  -- The counter itself is the name of no thread yet.
  have unused {j : Nat} : names j ≠ some next := fun named => lt_irrefl _ (fresh.bound named)
  constructor
  · intro j n named
    rw [update_apply] at named
    split_ifs at named
    · exact Option.some.inj named ▸ less
    · exact (fresh.bound named).trans_le grows
  · intro j k n first second
    rw [update_apply] at first second
    split_ifs at first second with atJ atK atK
    · exact atJ.trans atK.symm
    · exact absurd (second.trans first.symm) unused
    · exact absurd (first.trans second.symm) unused
    · exact fresh.distinct first second

theorem freshNames (name : τ → Option ν) (next : σ → ν)
    (mono : ∀ s op s', sys.perform s op = some s' → next s ≤ next s')
    (spawned : ∀ s b op x s', sys.spawn s b = (op, x) → sys.effect s op = some s' →
      name x = none ∨ name x = some (next s) ∧ next s < next s')
    (acts : ∀ s x a op x' s', sys.act s x a = some (op, x') → sys.effect s op = some s' →
      name x' = name x ∨ name x' = some (next s) ∧ next s < next s')
    (reachable : sys.machine.Reachable c) : Fresh (names name c) (next c.shared) := by
  have grows {s s' : σ} {op : Option ο} (performed : sys.effect s op = some s') : next s ≤ next s' :=
    effect_invariant (P := fun s' => next s ≤ next s') le_rfl (fun o s' _ => mono s o s') performed
  have initial : Fresh (names name sys.machine.start) (next sys.start) :=
    ⟨fun named => by simp [names, machine] at named, fun named => by simp [names, machine] at named⟩
  refine Machine.Reachable.invariant (P := fun c => Fresh (names name c) (next c.shared)) initial
    (fun c l c' fresh step => ?_) reachable
  cases stepped step with
  | env performed =>
    exact ⟨fun named => (fresh.bound named).trans_le (mono _ _ _ performed), fresh.distinct⟩
  | spawn made performed =>
    rw [names_concat]
    have unnamed : names name c c.threads.length = none := by simp [names]
    apply fresh.update (grows performed)
    rw [unnamed]
    exact spawned _ _ _ _ _ made performed
  | @act i _ x _ _ _ found acted performed =>
    rw [names_set found]
    apply fresh.update (grows performed)
    rw [names_of_found found]
    exact acts _ _ _ _ _ _ acted performed

end FreshNames

end System

end Mcp.Lib
