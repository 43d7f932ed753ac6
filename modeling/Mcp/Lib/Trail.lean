import Mathlib.Data.Set.Card

/-! # Following a partial function -/

namespace Mcp.Lib.Trail

variable {κ : Type*} (next : κ → Option κ)

def trail : Nat → κ → Option (List κ)
  | 0, _ => none
  | n + 1, c =>
    match next c with
    | none => some [c]
    | some d => (trail n d).map (c :: ·)

def Follows (c d : κ) : Prop := next c = some d

def Reaches (c d : κ) : Prop := Relation.ReflTransGen (Follows next) c d

def OnCycle (c : κ) : Prop := Relation.TransGen (Follows next) c c

variable {next} {n : Nat} {c d e : κ} {places : List κ}

theorem trail_last (stop : next c = none) : trail next (n + 1) c = some [c] := by simp only [trail, stop]

theorem trail_next (step : next c = some d) : trail next (n + 1) c = (trail next n d).map (c :: ·) := by
  simp only [trail, step]

theorem reaches_of_next (step : next c = some d) (reaches : Reaches next d e) : Reaches next c e :=
  Relation.ReflTransGen.head step reaches

theorem reaches_iff_next (step : next c = some d) : Reaches next c e ↔ e = c ∨ Reaches next d e := by
  constructor
  · intro reaches
    rcases Relation.ReflTransGen.cases_head reaches with rfl | ⟨d', step', rest⟩
    · exact .inl rfl
    · cases step.symm.trans step'
      exact .inr rest
  · rintro (rfl | reaches)
    · exact .refl
    · exact reaches_of_next step reaches

theorem eq_of_reaches (stop : next c = none) (reaches : Reaches next c e) : e = c := by
  rcases Relation.ReflTransGen.cases_head reaches with rfl | ⟨d, step, -⟩
  · rfl
  · cases stop.symm.trans step

theorem onCycle_iff (step : next c = some d) : OnCycle next c ↔ Reaches next d c := by
  constructor
  · intro cycle
    obtain ⟨d', step', rest⟩ := Relation.TransGen.head'_iff.mp cycle
    cases step.symm.trans step'
    exact rest
  · intro reaches
    exact Relation.TransGen.head' step reaches

theorem not_onCycle (stop : next c = none) : ¬ OnCycle next c := by
  intro cycle
  obtain ⟨d, step, -⟩ := Relation.TransGen.head'_iff.mp cycle
  cases stop.symm.trans step

theorem acyclic_of_trail (found : trail next n c = some places) (e : κ) (reaches : Reaches next c e) :
    ¬ OnCycle next e := by
  induction n generalizing c places with
  | zero => cases found
  | succ n ih =>
    cases step : next c with
    | none =>
      rw [eq_of_reaches step reaches]
      exact not_onCycle step
    | some d =>
      rw [trail_next step] at found
      obtain ⟨rest, found', -⟩ := Option.map_eq_some_iff.mp found
      rcases (reaches_iff_next step).mp reaches with rfl | later
      · -- a cycle through the first place is reached from the second
        intro cycle
        exact ih found' ((onCycle_iff step).mp cycle) cycle
      · exact ih found' later

theorem mem_trail_iff (found : trail next n c = some places) : e ∈ places ↔ Reaches next c e := by
  induction n generalizing c places with
  | zero => cases found
  | succ n ih =>
    cases step : next c with
    | none =>
      rw [trail_last step] at found
      cases found
      rw [List.mem_singleton]
      refine ⟨?_, eq_of_reaches step⟩
      rintro rfl
      exact .refl
    | some d =>
      rw [trail_next step] at found
      obtain ⟨rest, found', rfl⟩ := Option.map_eq_some_iff.mp found
      rw [List.mem_cons, reaches_iff_next step, ih found']

theorem trail_nodup (found : trail next n c = some places) : places.Nodup := by
  induction n generalizing c places with
  | zero => cases found
  | succ n ih =>
    cases step : next c with
    | none =>
      rw [trail_last step] at found
      cases found
      exact List.nodup_singleton c
    | some d =>
      have acyclic := acyclic_of_trail found c .refl
      rw [trail_next step] at found
      obtain ⟨rest, found', rfl⟩ := Option.map_eq_some_iff.mp found
      refine List.nodup_cons.mpr ⟨fun member => acyclic ?_, ih found'⟩
      exact (onCycle_iff step).mpr ((mem_trail_iff found').mp member)

theorem exists_trail (finite : {e | Reaches next c e}.Finite) (acyclic : ∀ e, Reaches next c e → ¬ OnCycle next e) :
    ∃ n places, trail next n c = some places := by
  -- every step leaves a place behind for good
  induction size : {e | Reaches next c e}.ncard using Nat.strong_induction_on generalizing c with
  | _ size ih =>
    cases step : next c with
    | none => exact ⟨1, [c], trail_last step⟩
    | some d =>
      have later : {e | Reaches next d e} ⊆ {e | Reaches next c e} := fun e => reaches_of_next step
      have fewer : {e | Reaches next d e}.ncard < {e | Reaches next c e}.ncard := by
        refine Set.ncard_lt_ncard ⟨later, fun all => acyclic c .refl ((onCycle_iff step).mpr ?_)⟩ finite
        exact all Relation.ReflTransGen.refl
      obtain ⟨n, places, found⟩ :=
        ih _ (size ▸ fewer) (finite.subset later) (fun e reaches => acyclic e (later reaches)) rfl
      exact ⟨n + 1, c :: places, by rw [trail_next step, found]; rfl⟩

theorem exists_trail_iff (finite : {e | Reaches next c e}.Finite) :
    (∃ n places, trail next n c = some places) ↔ ∀ e, Reaches next c e → ¬ OnCycle next e :=
  ⟨fun ⟨_, _, found⟩ => acyclic_of_trail found, exists_trail finite⟩

end Mcp.Lib.Trail
