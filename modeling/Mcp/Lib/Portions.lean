import Mathlib.Algebra.GroupWithZero.Nat
import Mathlib.Data.List.Basic

/-! # Reading messages in chunks -/

namespace Mcp.Lib.Portions

variable {τ : Type*} {size : Nat} {sizes : List Nat} {chunk : List τ} {messages rest : List (List τ)}

def read (size : Nat) : List (List τ) → Option (List τ × List (List τ))
  | [] => none
  | message :: later => some (message.take size, if size < message.length then message.drop size :: later else later)

def reads : List Nat → List (List τ) → List (List τ)
  | [], _ => []
  | size :: sizes, messages =>
    match read size messages with
    | none => []
    | some (chunk, rest) => chunk :: reads sizes rest

theorem reads_cons_none (done : read size messages = none) : reads (size :: sizes) messages = [] := by
  simp only [reads, done]

theorem reads_cons_some (found : read size messages = some (chunk, rest)) :
    reads (size :: sizes) messages = chunk :: reads sizes rest := by simp only [reads, found]

theorem flatten_read (found : read size messages = some (chunk, rest)) : messages.flatten = chunk ++ rest.flatten := by
  cases messages with
  | nil => cases found
  | cons message later =>
    simp only [read] at found
    split_ifs at found with more
    · cases found
      simp [← List.append_assoc]
    · cases found
      simp [List.take_of_length_le (Nat.not_lt.mp more)]

theorem reads_prefix (sizes : List Nat) (messages : List (List τ)) :
    ∃ left, messages.flatten = (reads sizes messages).flatten ++ left := by
  induction sizes generalizing messages with
  | nil => exact ⟨messages.flatten, rfl⟩
  | cons size sizes ih =>
    cases found : read size messages with
    | none => exact ⟨messages.flatten, by rw [reads_cons_none found]; rfl⟩
    | some next =>
      obtain ⟨left, same⟩ := ih next.2
      refine ⟨left, ?_⟩
      rw [reads_cons_some found, List.flatten_cons, flatten_read found, same, List.append_assoc]

def Inside (messages before : List (List τ)) (chunk : List τ) : Prop :=
  ∃ earlier message later front back, messages = earlier ++ message :: later ∧
    message = front ++ chunk ++ back ∧ before.flatten = earlier.flatten ++ front

theorem inside_read (found : read size messages = some (chunk, rest)) : Inside messages [] chunk := by
  cases messages with
  | nil => cases found
  | cons message later =>
    cases found
    exact ⟨[], message, later, [], message.drop size, rfl, (List.take_append_drop size message).symm, rfl⟩

theorem Inside.after_read {before : List (List τ)} {chunk' : List τ}
    (found : read size messages = some (chunk, rest)) (inside : Inside rest before chunk') :
    Inside messages (chunk :: before) chunk' := by
  cases messages with
  | nil => cases found
  | cons message messages =>
    simp only [read] at found
    obtain ⟨earlier, inner, later, front, back, parts, split, place⟩ := inside
    split_ifs at found with more
    · cases found
      -- what is left of the message is the first message of the later reads
      cases earlier with
      | nil =>
        obtain ⟨first, rfl⟩ := List.cons.inj parts
        refine ⟨[], message, messages, message.take size ++ front, back, rfl, ?_, by simpa using place⟩
        calc message = message.take size ++ message.drop size := (List.take_append_drop size message).symm
          _ = message.take size ++ front ++ chunk' ++ back := by rw [first, split]; simp
      | cons start earlier =>
        obtain ⟨rfl, rfl⟩ := List.cons.inj parts
        refine ⟨message :: earlier, inner, later, front, back, rfl, split, ?_⟩
        simp [place, ← List.append_assoc]
    · cases found
      refine ⟨message :: earlier, inner, later, front, back, by rw [parts, List.cons_append], split, ?_⟩
      simp [place, List.take_of_length_le (Nat.not_lt.mp more)]

theorem reads_inside {before after : List (List τ)} (sizes : List Nat) (messages : List (List τ))
    (parts : reads sizes messages = before ++ chunk :: after) : Inside messages before chunk := by
  induction sizes generalizing messages before with
  | nil => simp [reads] at parts
  | cons size sizes ih =>
    cases found : read size messages with
    | none => simp [reads_cons_none found] at parts
    | some next =>
      rw [reads_cons_some found] at parts
      cases before with
      | nil =>
        obtain ⟨rfl, -⟩ := List.cons.inj parts
        exact inside_read found
      | cons first before =>
        obtain ⟨rfl, later⟩ := List.cons.inj parts
        exact (ih next.2 later).after_read found

def effort (messages : List (List τ)) : Nat := (messages.map fun message => max 1 message.length).sum

theorem effort_read (positive : 1 ≤ size) (found : read size messages = some (chunk, rest)) :
    effort rest + 1 ≤ effort messages := by
  cases messages with
  | nil => cases found
  | cons message later =>
    simp only [read] at found
    split_ifs at found with more
    · cases found
      simp only [effort, List.map_cons, List.sum_cons, List.length_drop]
      omega
    · cases found
      simp only [effort, List.map_cons, List.sum_cons]
      omega

theorem reads_complete (positive : ∀ size ∈ sizes, 1 ≤ size) (enough : effort messages ≤ sizes.length) :
    (reads sizes messages).flatten = messages.flatten := by
  induction sizes generalizing messages with
  | nil =>
    cases messages with
    | nil => rfl
    | cons message later =>
      simp only [effort, List.map_cons, List.sum_cons, List.length_nil] at enough
      omega
  | cons size sizes ih =>
    cases found : read size messages with
    | none =>
      cases messages with
      | nil => rw [reads_cons_none found]
      | cons message later => cases found
    | some next =>
      have less := effort_read (positive size (by simp)) found
      have rest : (reads sizes next.2).flatten = next.2.flatten := by
        apply ih fun size member => positive size (by simp [member])
        simp only [List.length_cons] at enough
        omega
      rw [reads_cons_some found, List.flatten_cons, rest, ← flatten_read found]

end Mcp.Lib.Portions
