import Mcp.Sse.Client

namespace Mcp.Sse
open Mcp.Lib Bytes

def dataOf (line : Bytes) : Option Bytes :=
  if startsWith "data:" line then some (trimSpace (line.drop 5)) else none

def ends (line : Bytes) : Bool := line = [] ∨ startsWith "event:" line

def closed : List Bytes → Bool
  | [] => false
  | line :: lines => dataOf line = none && (ends line || closed lines)

variable {line data : Bytes} {before after : List Bytes} {size : Nat}

theorem handle_data (here : dataOf line = some data) (acc : List Bytes) : handle acc line = (none, acc ++ [data]) := by
  unfold dataOf at here
  split_ifs at here with starts
  cases here
  have nonempty : line ≠ [] := by
    rintro rfl
    cases starts
  simp [handle, nonempty, starts]

theorem handle_ends (absent : dataOf line = none) (here : ends line) (acc : List Bytes) :
    handle acc line = (flush acc, []) := by
  unfold dataOf at absent
  split_ifs at absent with starts
  simp only [ends, decide_eq_true_eq] at here
  by_cases blank : line = []
  · simp [handle, blank]
  · simp [handle, blank, starts, here.resolve_left blank]

theorem handle_other (absent : dataOf line = none) (here : ¬ ends line) (acc : List Bytes) :
    handle acc line = (none, acc) := by
  unfold dataOf at absent
  split_ifs at absent with starts
  simp only [ends, decide_eq_true_eq, not_or] at here
  simp [handle, here, starts]

@[simp] theorem flush_nil : flush [] = none := rfl

theorem handle_nil (absent : dataOf line = none) : handle [] line = (none, []) := by
  by_cases here : ends line
  · simp [handle_ends absent here]
  · exact handle_other absent here []

theorem collect_skip (absent : ∀ line ∈ before, dataOf line = none) (after : List Bytes) :
    collect [] (before ++ after) = collect [] after := by
  induction before with
  | nil => rfl
  | cons line before ih =>
    rw [List.forall_mem_cons] at absent
    simp [collect, handle_nil absent.1, ih absent.2]

theorem safe_skip (absent : ∀ line ∈ before, dataOf line = none) (count : Nat)
    (after : List Bytes) : Safe [] count (before ++ after) ↔ Safe [] count after := by
  induction before with
  | nil => rfl
  | cons line before ih =>
    rw [List.forall_mem_cons] at absent
    simp [Safe, handle_nil absent.1, ih absent.2]

variable {acc acc' lines : List Bytes} {count : Nat}

theorem flush_of_ne_nil (begun : acc ≠ []) : flush acc = some acc.flatten := if_neg begun

theorem collect_of_closed (begun : acc ≠ []) (done : closed lines) :
    (collect acc lines).1 = acc.flatten :: (collect [] lines).1 := by
  induction lines with
  | nil => cases done
  | cons line lines ih =>
    simp only [closed, Bool.and_eq_true, decide_eq_true_eq, Bool.or_eq_true] at done
    obtain ⟨absent, done⟩ := done
    by_cases here : ends line
    · simp [collect, handle_ends absent here, flush_of_ne_nil begun]
    · simp [collect, handle_other absent here, ih (done.resolve_left here)]

theorem safe_of_closed (begun : acc ≠ []) (room : count < readChanCap) (done : closed lines) :
    Safe acc count lines ↔ Safe [] (count + 1) lines := by
  induction lines with
  | nil => cases done
  | cons line lines ih =>
    simp only [closed, Bool.and_eq_true, decide_eq_true_eq, Bool.or_eq_true] at done
    obtain ⟨absent, done⟩ := done
    by_cases here : ends line
    · simp [Safe, handle_ends absent here, flush_of_ne_nil begun, room]
    · simp [Safe, handle_other absent here, ih (done.resolve_left here)]

theorem safe_congr (begun : acc ≠ []) (begun' : acc' ≠ []) : Safe acc count lines ↔ Safe acc' count lines := by
  induction lines generalizing acc acc' count with
  | nil => rfl
  | cons line lines ih =>
    cases data : dataOf line with
    | some data' =>
      have rest : Safe (acc ++ [data']) count lines ↔ Safe (acc' ++ [data']) count lines := ih (by simp) (by simp)
      simpa [Safe, handle_data data] using rest
    | none =>
      by_cases here : ends line
      · simp [Safe, handle_ends data here, flush_of_ne_nil begun, flush_of_ne_nil begun']
      · simpa [Safe, handle_other data here] using ih begun begun'

theorem safe_of_not_closed (continued : ¬ closed lines) : Safe [data] count lines ↔ Safe [] count lines := by
  induction lines with
  | nil => rfl
  | cons line lines ih =>
    cases here : dataOf line with
    | some data' =>
      have rest : Safe [data, data'] count lines ↔ Safe [data'] count lines := safe_congr (by simp) (by simp)
      simpa [Safe, handle_data here] using rest
    | none =>
      simp only [closed, here, decide_true, Bool.true_and, Bool.or_eq_true, not_or] at continued
      simpa [Safe, handle_other here continued.1] using ih continued.2

def Separated : List Bytes → Prop
  | [] => True
  | line :: lines => (dataOf line ≠ none → closed lines) ∧ Separated lines

theorem Separated.drop (separated : Separated (before ++ after)) : Separated after := by
  induction before with
  | nil => exact separated
  | cons line before ih => exact ih separated.2

theorem collect_separated (separated : Separated lines) : (collect [] lines).1 = lines.filterMap dataOf := by
  induction lines with
  | nil => rfl
  | cons line lines ih =>
    cases here : dataOf line with
    | some data =>
      have first : (collect [data] lines).1 = data :: (collect [] lines).1 := by
        simpa using collect_of_closed (List.cons_ne_nil data []) (separated.1 (by simp [here]))
      simp [collect, handle_data here, here, first, ih separated.2]
    | none => simp [collect, handle_nil here, here, ih separated.2]

theorem collect_of_not_closed (separated : Separated lines) (continued : ¬ closed lines) :
    (collect [data] lines).1 = match lines.filterMap dataOf with
      | [] => []
      | next :: others => (data ++ next) :: others := by
  induction lines with
  | nil => rfl
  | cons line lines ih =>
    cases here : dataOf line with
    | some next =>
      have first : (collect [data, next] lines).1 = (data ++ next) :: (collect [] lines).1 := by
        simpa using collect_of_closed (List.cons_ne_nil data [next]) (separated.1 (by simp [here]))
      simp [collect, handle_data here, here, first, collect_separated separated.2]
    | none =>
      simp only [closed, here, decide_true, Bool.true_and, Bool.or_eq_true, not_or] at continued
      simpa [collect, handle_other here continued.1, here] using ih separated.2 continued.2

/-- Lines are lost, the last of them perhaps only in part, and the rest is kept: no data line is lost
and what is left of a torn line adds no data, or that happens to repeat the one data line that is lost. -/
def Harmless (lost : List Bytes) (torn : Option Bytes) (kept : List Bytes) : Prop :=
  match torn.bind dataOf with
  | none => lost.filterMap dataOf = []
  | some data =>
    if closed kept then lost.filterMap dataOf = [data] else lost.filterMap dataOf = [] ∧ data = []

instance (lost : List Bytes) (torn : Option Bytes) (kept : List Bytes) : Decidable (Harmless lost torn kept) := by
  unfold Harmless
  split <;> infer_instance

variable {lost kept : List Bytes} {torn : Option Bytes}

theorem collect_left_iff (separated : Separated (lost ++ kept))
    (finished : ∀ data, torn.bind dataOf = some data → ¬ closed kept → kept.filterMap dataOf ≠ []) :
    (collect [] (torn.toList ++ kept)).1 = (lost ++ kept).filterMap dataOf ↔ Harmless lost torn kept := by
  have whole := collect_separated separated.drop
  rw [List.filterMap_append]
  unfold Harmless
  cases here : torn.bind dataOf with
  | none =>
    have absent : ∀ line ∈ torn.toList, dataOf line = none := by simpa using here
    rw [collect_skip absent, whole]
    simp
  | some data =>
    obtain ⟨line, rfl, here⟩ := Option.bind_eq_some_iff.mp here
    have begun : (collect [] ([line] ++ kept)).1 = (collect [data] kept).1 := by
      simp [collect, handle_data here]
    simp only [Option.toList_some, begun]
    by_cases done : closed kept
    · rw [if_pos done, collect_of_closed (by simp) done, whole, List.flatten_singleton, ← List.singleton_append,
        List.append_cancel_right_eq, eq_comm]
    · rw [if_neg done, collect_of_not_closed separated.drop done]
      cases others : kept.filterMap dataOf with
      | nil => exact absurd others (finished data (by simp [here]) done)
      | cons next others =>
        simp only
        cases lost.filterMap dataOf with
        | nil => simp
        | cons first rest =>
          simp only [List.cons_append, List.cons.injEq, reduceCtorEq, false_and, iff_false, not_and]
          intro _ same
          have length := congrArg List.length same
          simp at length
          omega

theorem safe_left_iff (separated : Separated (lost ++ kept)) (harmless : Harmless lost torn kept) :
    Safe [] 0 (torn.toList ++ kept) ↔ Safe [] 0 (lost ++ kept) := by
  unfold Harmless at harmless
  cases here : torn.bind dataOf with
  | none =>
    rw [here] at harmless
    have absent : ∀ line ∈ torn.toList, dataOf line = none := by simpa using here
    rw [safe_skip absent, safe_skip (List.filterMap_eq_nil_iff.mp harmless)]
  | some data =>
    rw [here] at harmless
    obtain ⟨line, rfl, here⟩ := Option.bind_eq_some_iff.mp here
    have begun : Safe [] 0 ([line] ++ kept) ↔ Safe [data] 0 kept := by
      simp [Safe, handle_data here]
    simp only [Option.toList_some, begun]
    by_cases done : closed kept
    · simp only [if_pos done] at harmless
      obtain ⟨before, first, after, rfl, absent, first', absent'⟩ := List.filterMap_eq_cons_iff.mp harmless
      have closed' : closed (after ++ kept) := by
        rw [List.append_assoc] at separated
        exact separated.drop.1 (by simp [first'])
      have begun' : Safe [] 0 (first :: (after ++ kept)) ↔ Safe [data] 0 (after ++ kept) := by
        simp [Safe, handle_data first']
      rw [safe_of_closed (by simp) (by decide) done, List.append_assoc, List.cons_append,
        safe_skip absent, begun', safe_of_closed (by simp) (by decide) closed',
        safe_skip (List.filterMap_eq_nil_iff.mp absent')]
    · simp only [if_neg done] at harmless
      rw [safe_of_not_closed done, safe_skip (List.filterMap_eq_nil_iff.mp harmless.1)]

def Small (size : Nat) : List Bytes → Prop
  | [] => True
  | line :: lines =>
    line.length ≤ maxSSELine ∧ (dataOf line ≠ none → size + line.length ≤ maxSSELine) ∧
      Small (if line = [] then 0 else size + line.length) lines

theorem Small.mono {size' : Nat} (small : Small size lines) (le : size' ≤ size) : Small size' lines := by
  induction lines generalizing size size' with
  | nil => trivial
  | cons line lines ih =>
    refine ⟨small.1, fun data => Nat.le_trans (Nat.add_le_add_right le _) (small.2.1 data), ih small.2.2 ?_⟩
    split_ifs <;> omega

theorem Small.drop (small : Small size (before ++ after)) : Small 0 after := by
  induction before generalizing size with
  | nil => exact small.mono (Nat.zero_le _)
  | cons line before ih => exact ih small.2.2

theorem Small.of_suffix {part : Bytes} (small : Small size (line :: lines)) (suffix : part <:+ line) :
    Small 0 (part :: lines) := by
  have le := suffix.length_le
  refine ⟨Nat.le_trans le small.1, fun _ => by have := small.1; omega, small.2.2.mono ?_⟩
  by_cases blank : line = []
  · obtain rfl : part = [] := by simpa [blank] using suffix
    simp
  · rw [if_neg blank]
    split_ifs <;> omega

theorem Small.fits (small : Small size lines) (within : acc.flatten.length ≤ size) : Fits acc lines := by
  induction lines generalizing acc size with
  | nil => trivial
  | cons line lines ih =>
    obtain ⟨-, room, rest⟩ := small
    cases here : dataOf line with
    | some data =>
      have le : data.length ≤ line.length := by
        unfold dataOf at here
        split_ifs at here
        cases here
        exact Nat.le_trans (length_trimSpace_le _) (by simp)
      have room := room (by simp [here])
      have nonempty : line ≠ [] := by
        rintro rfl
        cases here
      rw [if_neg nonempty] at rest
      refine ⟨?_, ?_⟩
      · rintro ⟨starts, large⟩
        simp only [dataOf, starts, if_true, Option.some.injEq] at here
        rw [here] at large
        omega
      · rw [handle_data here]
        apply ih rest
        simp only [List.flatten_append, List.length_append, List.flatten_singleton]
        omega
    | none =>
      refine ⟨?_, ?_⟩
      · rintro ⟨starts, -⟩
        simp [dataOf, starts] at here
      · by_cases stop : ends line
        · rw [handle_ends here stop]
          exact ih rest (Nat.zero_le _)
        · have nonempty : line ≠ [] := by
            rintro rfl
            exact stop rfl
          rw [handle_other here stop]
          rw [if_neg nonempty] at rest
          exact ih rest (Nat.le_add_right_of_le within)

theorem small_append
    (nonempty : ∀ line ∈ before, line ≠ []) (within : size + before.flatten.length ≤ maxSSELine)
    (small : Small 0 after) : Small size (before ++ [] :: after) := by
  induction before generalizing size with
  | nil => exact ⟨Nat.zero_le _, fun data => absurd rfl data, small⟩
  | cons line before ih =>
    rw [List.forall_mem_cons] at nonempty
    rw [List.flatten_cons, List.length_append] at within
    refine ⟨by omega, fun _ => by omega, ?_⟩
    rw [if_neg nonempty.1]
    exact ih nonempty.2 (by omega)

theorem newline_not_mem_collect (begun : ∀ data ∈ acc, newline ∉ data) (whole : ∀ line ∈ lines, newline ∉ line) :
    ∀ message ∈ (collect acc lines).1, newline ∉ message := by
  induction lines generalizing acc with
  | nil => simp [collect]
  | cons line lines ih =>
    rw [List.forall_mem_cons] at whole
    cases here : dataOf line with
    | some data =>
      have data' : newline ∉ data := by
        unfold dataOf at here
        split_ifs at here
        cases here
        exact fun member => whole.1 (List.mem_of_mem_drop (mem_of_mem_trimSpace member))
      simp only [collect, handle_data here]
      apply ih _ whole.2
      simpa [or_imp, forall_and] using ⟨begun, data'⟩
    | none =>
      by_cases stop : ends line
      · simp only [collect, handle_ends here stop, List.forall_mem_append]
        refine ⟨?_, ih (by simp) whole.2⟩
        by_cases empty : acc = []
        · simp [empty]
        · simpa [flush_of_ne_nil empty] using begun
      · simp only [collect, handle_other here stop]
        exact ih begun whole.2

end Mcp.Sse
