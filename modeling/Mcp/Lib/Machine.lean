import Mathlib.Data.List.Basic

/-! # Step machines -/

namespace Mcp.Lib

structure Machine (σ α : Type*) where
  start : σ
  step : σ → α → Option σ

namespace Machine

variable {σ τ α β : Type*} (m : Machine σ α)

def run : σ → List α → Option σ
  | s, [] => some s
  | s, a :: as => (m.step s a).bind fun s' => run s' as

def Reachable (s : σ) : Prop := ∃ as, m.run m.start as = some s

/-- Every step of the run meets `ok` in the state it is taken from. -/
def EachStep (ok : σ → α → Prop) : σ → List α → Prop
  | _, [] => True
  | s, a :: as => ok s a ∧ ∀ s', m.step s a = some s' → EachStep ok s' as

def checks (ok : σ → α → Bool) : σ → List α → Bool
  | _, [] => true
  | s, a :: as => ok s a && (m.step s a).all fun s' => checks ok s' as

def Always (P : σ → Prop) : σ → List α → Prop
  | s, [] => P s
  | s, a :: as => P s ∧ ∀ s', m.step s a = some s' → Always P s' as

variable {s t : σ} {a : α} {as : List α} {ok ok' : σ → α → Prop} {P : σ → Prop}

@[simp] theorem run_nil (s : σ) : m.run s [] = some s := rfl

theorem run_cons : m.run s (a :: as) = some t ↔ ∃ s', m.step s a = some s' ∧ m.run s' as = some t := by
  simp only [run, Option.bind_eq_some_iff]

theorem run_append {bs : List α} : m.run s (as ++ bs) = some t ↔ ∃ u, m.run s as = some u ∧ m.run u bs = some t := by
  induction as generalizing s with
  | nil => simp
  | cons a as ih =>
    simp only [List.cons_append, run_cons, ih]
    constructor
    · rintro ⟨s', step, u, first, rest⟩
      exact ⟨u, ⟨s', step, first⟩, rest⟩
    · rintro ⟨u, ⟨s', step, first⟩, rest⟩
      exact ⟨s', step, u, first, rest⟩

variable {m}

theorem Reachable.start : m.Reachable m.start := ⟨[], rfl⟩

theorem Reachable.next {s' : σ} (reachable : m.Reachable s) (step : m.step s a = some s') : m.Reachable s' := by
  obtain ⟨as, run⟩ := reachable
  refine ⟨as ++ [a], m.run_append.mpr ⟨s, run, ?_⟩⟩
  exact m.run_cons.mpr ⟨s', step, rfl⟩

theorem Reachable.run (reachable : m.Reachable s) (run : m.run s as = some t) : m.Reachable t := by
  obtain ⟨before, run'⟩ := reachable
  exact ⟨before ++ as, m.run_append.mpr ⟨s, run', run⟩⟩

theorem run_invariant_of_eachStep (kept : ∀ s a s', P s → ok s a → m.step s a = some s' → P s')
    (holds : P s) (each : m.EachStep ok s as) (run : m.run s as = some t) : P t := by
  induction as generalizing s with
  | nil =>
    cases run
    exact holds
  | cons a as ih =>
    obtain ⟨s', step, rest⟩ := m.run_cons.mp run
    exact ih (kept s a s' holds each.1 step) (each.2 s' step) rest

theorem invariant_of_eachStep (initial : P m.start)
    (kept : ∀ s a s', m.Reachable s → P s → ok s a → m.step s a = some s' → P s')
    (each : m.EachStep ok m.start as) (run : m.run m.start as = some t) : P t := by
  have both : m.Reachable t ∧ P t :=
    run_invariant_of_eachStep (P := fun s => m.Reachable s ∧ P s)
      (fun s a s' holds allowed step => ⟨holds.1.next step, kept s a s' holds.1 holds.2 allowed step⟩)
      ⟨.start, initial⟩ each run
  exact both.2

theorem EachStep.cons {s' : σ} (here : ok s a) (step : m.step s a = some s') (rest : m.EachStep ok s' as) :
    m.EachStep ok s (a :: as) := by
  refine ⟨here, fun t other => ?_⟩
  cases step.symm.trans other
  exact rest

theorem EachStep.imp_of_kept
    (kept : ∀ s a s', P s → ok s a → m.step s a = some s' → P s') (implies : ∀ s a, P s → ok s a → ok' s a)
    (holds : P s) (each : m.EachStep ok s as) : m.EachStep ok' s as := by
  induction as generalizing s with
  | nil => trivial
  | cons a as ih =>
    exact ⟨implies s a holds each.1, fun s' step => ih (kept s a s' holds each.1 step) (each.2 s' step)⟩

theorem eachStep_congr (kept : ∀ s a s', P s → m.step s a = some s' → P s')
    (same : ∀ s a, P s → (ok s a ↔ ok' s a)) (holds : P s) (as : List α) :
    m.EachStep ok s as ↔ m.EachStep ok' s as := by
  constructor
  · exact fun each => each.imp_of_kept (fun s a s' holds _ => kept s a s' holds)
      (fun s a holds => (same s a holds).mp) holds
  · exact fun each => each.imp_of_kept (fun s a s' holds _ => kept s a s' holds)
      (fun s a holds => (same s a holds).mpr) holds

theorem EachStep.imp_of_invariant (kept : ∀ s a s', P s → ok s a → m.step s a = some s' → P s')
    (implies : ∀ s a, P s → ok' s a) (holds : P s) (each : m.EachStep ok s as) : m.EachStep ok' s as :=
  each.imp_of_kept kept (fun s a holds _ => implies s a holds) holds

theorem eachStep_of_forall {ok : α → Prop} (each : ∀ a ∈ as, ok a) (s : σ) : m.EachStep (fun _ a => ok a) s as := by
  induction as generalizing s with
  | nil => trivial
  | cons a as ih =>
    exact ⟨each a (by simp), fun s' _ => ih (fun b member => each b (by simp [member])) s'⟩

theorem EachStep.and (each : m.EachStep ok s as)
    (each' : m.EachStep ok' s as) : m.EachStep (fun s a => ok s a ∧ ok' s a) s as := by
  induction as generalizing s with
  | nil => trivial
  | cons a as ih => exact ⟨⟨each.1, each'.1⟩, fun s' step => ih (each.2 s' step) (each'.2 s' step)⟩

theorem eachStep_of_checks [∀ s a, Decidable (ok s a)]
    (checked : m.checks (fun s a => ok s a) s as = true) : m.EachStep ok s as := by
  induction as generalizing s with
  | nil => trivial
  | cons a as ih =>
    simp only [checks, Bool.and_eq_true, decide_eq_true_eq, Option.all_eq_true] at checked
    exact ⟨checked.1, fun s' step => ih (checked.2 s' step)⟩

theorem eachStep_append {bs : List α} :
    m.EachStep ok s (as ++ bs) ↔ m.EachStep ok s as ∧ ∀ u, m.run s as = some u → m.EachStep ok u bs := by
  induction as generalizing s with
  | nil => simp [EachStep, run]
  | cons a as ih =>
    simp only [List.cons_append, EachStep, ih, m.run_cons]
    grind

theorem run_invariant (kept : ∀ s a s', P s → m.step s a = some s' → P s') (holds : P s) (run : m.run s as = some t) :
    P t :=
  run_invariant_of_eachStep (fun s a s' holds _ => kept s a s' holds) holds
    (eachStep_of_forall (fun _ _ => trivial) s) run

theorem Reachable.invariant (initial : P m.start) (kept : ∀ s a s', P s → m.step s a = some s' → P s')
    (reachable : m.Reachable s) : P s := by
  obtain ⟨as, run⟩ := reachable
  exact run_invariant kept initial run

theorem Reachable.invariant' (initial : P m.start) (kept : ∀ s a s', m.Reachable s → P s → m.step s a = some s' → P s')
    (reachable : m.Reachable s) : P s := by
  have both : m.Reachable s ∧ P s :=
    Reachable.invariant (P := fun s => m.Reachable s ∧ P s) ⟨.start, initial⟩
      (fun s a s' holds step => ⟨holds.1.next step, kept s a s' holds.1 holds.2 step⟩) reachable
  exact both.2

theorem run_history {P : List α → σ → Prop}
    (kept : ∀ before s a s', P before s → m.step s a = some s' → P (before ++ [a]) s')
    {before : List α} (holds : P before s) (run : m.run s as = some t) : P (before ++ as) t := by
  induction as generalizing s before with
  | nil =>
    cases run
    simpa using holds
  | cons a as ih =>
    obtain ⟨s', step, rest⟩ := m.run_cons.mp run
    have next := ih (kept before s a s' holds step) rest
    rwa [List.append_assoc, List.singleton_append] at next

theorem always_iff_eachStep (kept : ∀ s a s', m.Reachable s → P s → m.step s a = some s' → (P s' ↔ ok s a))
    (reachable : m.Reachable s) (holds : P s) (run : m.run s as = some t) : m.Always P s as ↔ m.EachStep ok s as := by
  induction as generalizing s with
  | nil => exact iff_of_true holds trivial
  | cons a as ih =>
    obtain ⟨s', step, rest⟩ := m.run_cons.mp run
    have next := kept s a s' reachable holds step
    have unique {u : σ} (other : m.step s a = some u) : u = s' := Option.some.inj (other.symm.trans step)
    constructor
    · rintro ⟨-, always⟩
      have after : m.Always P s' as := always s' step
      have holds' : P s' := by cases as <;> first | exact after | exact after.1
      refine ⟨next.mp holds', fun u other => ?_⟩
      rw [unique other]
      exact (ih (reachable.next step) holds' rest).mp after
    · rintro ⟨meets, each⟩
      refine ⟨holds, fun u other => ?_⟩
      rw [unique other]
      exact (ih (reachable.next step) (next.mpr meets) rest).mpr (each s' step)

end Machine

variable {ε α β : Type}

theorem bind_eq_ok {x : Except ε α} {f : α → Except ε β} {b : β} : x >>= f = .ok b ↔ ∃ a, x = .ok a ∧ f a = .ok b := by
  cases x with
  | error | ok => simp [bind, Except.bind]

theorem toOption_map_eq_some {x : Except ε α} {f : α → β} {b : β} :
    (x.map f).toOption = some b ↔ ∃ a, x = .ok a ∧ f a = b := by
  cases x with
  | error | ok => simp [Except.map, Except.toOption]

end Mcp.Lib
