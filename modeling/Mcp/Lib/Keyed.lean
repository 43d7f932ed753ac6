import Mathlib.Tactic.Common

/-! # Entries made on demand -/

namespace Mcp.Lib
open Function

structure Keyed (κ σ : Type*) where
  fresh : κ → Int → σ
  ask : κ → σ → Int → Int → Option (σ × Bool)

namespace Keyed

variable {κ σ : Type*} (m : Keyed κ σ)

def fetch (key : κ) (now : Int) (entry : Option σ) : σ := entry.getD (m.fresh key now)

def allow [DecidableEq κ] (entries : κ → Option σ) (key : κ) (n now : Int) : Option ((κ → Option σ) × Bool) :=
  (m.ask key (m.fetch key now (entries key)) n now).map fun (s, allowed) => (update entries key (some s), allowed)

def decisions [DecidableEq κ] : (κ → Option σ) → List (κ × Int × Int) → List (Option Bool)
  | _, [] => []
  | entries, (key, n, now) :: later =>
    match m.allow entries key n now with
    | some (entries, allowed) => some allowed :: decisions entries later
    | none => [none]

/-- Requests one after another, each at one of the given instants. -/
def Timed (instants : Int → Prop) : Int → List (κ × Int × Int) → Prop
  | _, [] => True
  | begin, (_, _, now) :: later => begin ≤ now ∧ instants now ∧ Timed instants now later

/-- From the time on, a request leads to the same decision and to the same entry. -/
def Agree (instants : Int → Prop) (begin : Int) (key : κ) (entry entry' : Option σ) : Prop :=
  ∀ n now, begin ≤ now → instants now →
    m.ask key (m.fetch key now entry) n now = m.ask key (m.fetch key now entry') n now

variable {m} {instants : Int → Prop} {begin : Int} {key : κ}

theorem Agree.later {now : Int} {entry entry' : Option σ} (agree : m.Agree instants begin key entry entry')
    (order : begin ≤ now) : m.Agree instants now key entry entry' :=
  fun n now' after within => agree n now' (Int.le_trans order after) within

variable [DecidableEq κ] {entries entries' : κ → Option σ}

variable {later : List (κ × Int × Int)}

theorem decisions_eq (agree : ∀ key, m.Agree instants begin key (entries key) (entries' key))
    (timed : Timed instants begin later) : m.decisions entries later = m.decisions entries' later := by
  induction later generalizing begin entries entries' with
  | nil => rfl
  | cons request later ih =>
    obtain ⟨key, n, now⟩ := request
    obtain ⟨after, within, timed⟩ := timed
    unfold decisions allow
    rw [agree key n now after within]
    cases m.ask key (m.fetch key now (entries' key)) n now with
    | none => rfl
    | some outcome =>
      obtain ⟨s, allowed⟩ := outcome
      simp only [Option.map_some, List.cons.injEq, true_and]
      refine ih (fun other => ?_) timed
      by_cases same : other = key
      · subst same
        simp only [update_self]
        exact fun _ _ _ _ => rfl
      · simp only [update_of_ne same]
        exact (agree other).later after

theorem decisions_update {entry : σ}
    (agree : m.Agree instants begin key (some entry) (entries key)) (timed : Timed instants begin later) :
    m.decisions (update entries key (some entry)) later = m.decisions entries later := by
  refine decisions_eq (fun other => ?_) timed
  by_cases same : other = key
  · subst same
    rw [update_self]
    exact agree
  · rw [update_of_ne same]
    exact fun _ _ _ _ => rfl

end Keyed

end Mcp.Lib
