import Mathlib.Data.List.Lex
import Mcp.Lib.Entries
import Mcp.Lib.Replace
import Mcp.Security.Validation

namespace Mcp.Security
open Mcp.Lib Bytes Entries Matching

namespace InputValidator

variable (v : InputValidator)

def escaped (s : Bytes) : Bytes :=
  let s := replaceAll [0] [] s
  if v.config.strictMode then
    let s := replaceAll (ofString "&") (ofString "&amp;") s
    let s := replaceAll (ofString "<") (ofString "&lt;") s
    let s := replaceAll (ofString ">") (ofString "&gt;") s
    let s := replaceAll (ofString "\"") (ofString "&quot;") s
    replaceAll (ofString "'") (ofString "&#x27;") s
  else s

-- There is no result where the slice expression panics.
def sanitizeString (s : Bytes) : Option Bytes :=
  let s := v.escaped s
  if v.config.maxStringLength < s.length then
    if v.config.maxStringLength < 0 then none else some (s.take v.config.maxStringLength.toNat)
  else some s

mutual

def sanitizeInput : Value → Option Value
  | .string s => (v.sanitizeString s).map .string
  | .array arr => (sanitizeItems 0 arr).map .array
  | .object obj => (sanitizeEntries [] obj).map .object
  | .number q => some (.number q)
  | .bool b => some (.bool b)
  | .null => some .null

def sanitizeItems (count : Nat) : List Value → Option (List Value)
  | [] => some []
  | item :: rest =>
    (sanitizeInput item).bind fun sanitized =>
      if v.config.maxArrayLength ≤ count + 1 then some [sanitized]
      else (sanitizeItems (count + 1) rest).map (sanitized :: ·)

def sanitizeEntries (result : List (Bytes × Value)) : List (Bytes × Value) → Option (List (Bytes × Value))
  | [] => some result
  | (key, value) :: rest =>
    (v.sanitizeString key).bind fun sanitizedKey =>
      (sanitizeInput value).bind fun sanitizedValue =>
        sanitizeEntries (upsert sanitizedKey (fun _ => sanitizedValue) result) rest

end

inductive Keeps : Value → Value → Prop
  | null : Keeps .null .null
  | bool (b : Bool) : Keeps (.bool b) (.bool b)
  | number (q : ℚ) : Keeps (.number q) (.number q)
  | string {s t : Bytes} (sanitized : v.sanitizeString s = some t) : Keeps (.string s) (.string t)
  | array {xs ys : List Value} (length : xs.length = ys.length)
      (each : ∀ (i : Nat) x y, xs[i]? = some x → ys[i]? = some y → Keeps x y) : Keeps (.array xs) (.array ys)
  | object {entries result : List (Bytes × Value)} (length : result.length = entries.length)
      (found : ∀ key value key' value', (key, value) ∈ entries → v.sanitizeString key = some key' →
        v.sanitizeInput value = some value' → result.lookup key' = some value')
      (each : ∀ key value value', (key, value) ∈ entries → v.sanitizeInput value = some value' → Keeps value value') :
      Keeps (.object entries) (.object result)

/-- Nothing is lost, and the result is the same for every order of the entries. -/
def Faithful (x : Value) : Prop :=
  ∃ result, v.sanitizeInput x = some result ∧ v.Keeps x result ∧
    ∀ visited, x.Reorders visited → v.sanitizeInput visited = some result

def clean (s : Bytes) : Bytes := (v.escaped s).take v.config.maxStringLength.toNat

def ShortNode : Value → Prop
  | .array elements => elements.length ≤ v.config.maxArrayLength
  | _ => True

/-- No two keys of an object are rewritten to the same string, and nothing is sliced to a negative length. -/
def SafeNode : Value → Prop
  | .string _ => 0 ≤ v.config.maxStringLength
  | .object entries => (entries ≠ [] → 0 ≤ v.config.maxStringLength) ∧ (entries.map fun entry => v.clean entry.1).Nodup
  | _ => True

variable {v}

theorem sanitizeString_eq (s : Bytes) :
    v.sanitizeString s = if v.config.maxStringLength < 0 then none else some (v.clean s) := by
  unfold sanitizeString clean
  dsimp only
  split_ifs with long negative negative
  · rfl
  · rfl
  · omega
  · rw [List.take_of_length_le (by omega)]

theorem sanitizeString_eq_some {s t : Bytes} :
    v.sanitizeString s = some t ↔ 0 ≤ v.config.maxStringLength ∧ v.clean s = t := by
  rw [sanitizeString_eq]
  split_ifs with negative
  · simp [not_le.mpr negative]
  · simp [not_lt.mp negative]

theorem mapM_eq_some_iff {α β : Type} {f : α → Option β} {xs : List α} {ys : List β} :
    xs.mapM f = some ys ↔ List.Forall₂ (fun x y => f x = some y) xs ys := by
  induction xs generalizing ys with
  | nil => simp [eq_comm]
  | cons x rest ih =>
    simp only [List.mapM_cons, List.forall₂_cons_left_iff, ← ih]
    cases f x with
    | none => simp
    | some y =>
      cases rest.mapM f with
      | none => simp
      | some ys' => simp [eq_comm]

theorem sanitizeItems_eq {count : Nat} {items : List Value}
    (short : (count + items.length : Int) ≤ v.config.maxArrayLength) :
    v.sanitizeItems count items = items.mapM v.sanitizeInput := by
  induction items generalizing count with
  | nil => rfl
  | cons item rest ih =>
    rw [List.length_cons, Int.natCast_succ] at short
    rw [sanitizeItems, List.mapM_cons]
    cases v.sanitizeInput item with
    | none => rfl
    | some sanitized =>
      simp only [Option.bind_some]
      split_ifs with last
      · obtain rfl : rest = [] := List.length_eq_zero_iff.mp (by omega)
        rfl
      · rw [ih (by push_cast; omega)]
        cases rest.mapM v.sanitizeInput <;> rfl

theorem sanitizeInput_array {xs ys : List Value} (short : v.ShortNode (.array xs)) :
    v.sanitizeInput (.array xs) = some (.array ys) ↔ List.Forall₂ (fun x y => v.sanitizeInput x = some y) xs ys := by
  have whole : ((0 : Nat) + xs.length : Int) ≤ v.config.maxArrayLength := by simpa [ShortNode] using short
  rw [sanitizeInput, sanitizeItems_eq whole, ← mapM_eq_some_iff]
  simp

def sanitizeEntry (v : InputValidator) (entry : Bytes × Value) : Option (Bytes × Value) :=
  (v.sanitizeString entry.1).bind fun key => (v.sanitizeInput entry.2).map fun value => (key, value)

theorem sanitizeEntry_eq_some {entry pair : Bytes × Value} : v.sanitizeEntry entry = some pair ↔
      0 ≤ v.config.maxStringLength ∧ v.clean entry.1 = pair.1 ∧ v.sanitizeInput entry.2 = some pair.2 := by
  simp only [sanitizeEntry, Option.bind_eq_some_iff, sanitizeString_eq_some, Option.map_eq_some_iff]
  constructor
  · rintro ⟨key, ⟨room, rfl⟩, value, sanitized, rfl⟩
    exact ⟨room, rfl, sanitized⟩
  · rintro ⟨room, key, sanitized⟩
    exact ⟨pair.1, ⟨room, key⟩, pair.2, sanitized, rfl⟩

theorem sanitizeEntries_eq (result entries : List (Bytes × Value)) :
    v.sanitizeEntries result entries = (entries.mapM v.sanitizeEntry).map (insertAll result) := by
  induction entries generalizing result with
  | nil => rfl
  | cons entry rest ih =>
    rw [sanitizeEntries, List.mapM_cons, sanitizeEntry]
    cases v.sanitizeString entry.1 with
    | none => rfl
    | some key =>
      cases v.sanitizeInput entry.2 with
      | none => rfl
      | some value =>
        simp only [Option.bind_some, ih]
        cases rest.mapM v.sanitizeEntry <;> rfl

theorem sanitizeInput_object {entries result : List (Bytes × Value)} :
    v.sanitizeInput (.object entries) = some (.object result) ↔
      ∃ pairs, List.Forall₂ (fun entry pair => v.sanitizeEntry entry = some pair) entries pairs ∧
        ofList pairs = result := by
  rw [sanitizeInput, sanitizeEntries_eq]
  simp only [← mapM_eq_some_iff, Option.map_map, Option.map_eq_some_iff, Function.comp_apply, Value.object.injEq]
  rfl

theorem keys_pairs {entries pairs : List (Bytes × Value)}
    (sanitized : List.Forall₂ (fun entry pair => v.sanitizeEntry entry = some pair) entries pairs) :
    keys pairs = entries.map fun entry => v.clean entry.1 := by
  induction sanitized with
  | nil => rfl
  | cons first _ ih => rw [keys_cons, ih, List.map_cons, (sanitizeEntry_eq_some.mp first).2.1]

theorem safe_of_keeps {x result : Value} (sanitized : v.sanitizeInput x = some result) (keeps : v.Keeps x result)
    (short : ∀ d w, x.Node d w → v.ShortNode w) : ∀ d w, x.Node d w → v.SafeNode w := by
  induction x using Value.induct generalizing result with
  | step x ih =>
    obtain ⟨own, each⟩ := Value.forall_node_iff.mp short
    refine Value.forall_node_iff.mpr ?_
    cases keeps with
    | null | bool | number => exact ⟨trivial, by simp [Value.children]⟩
    | string key => exact ⟨(sanitizeString_eq_some.mp key).1, by simp [Value.children]⟩
    | array length keeps =>
      refine ⟨trivial, fun child member => ?_⟩
      obtain ⟨length', sanitized⟩ := forall₂_iff_getElem?.mp ((sanitizeInput_array own).mp sanitized)
      obtain ⟨i, inside, rfl⟩ := List.mem_iff_getElem.mp member
      have place := List.getElem?_eq_getElem inside
      have place' := List.getElem?_eq_getElem (length ▸ inside)
      exact ih _ member (sanitized i _ _ place place') (keeps i _ _ place place') (each _ member)
    | object length found keeps =>
      obtain ⟨pairs, paired, rfl⟩ := sanitizeInput_object.mp sanitized
      rw [← paired.length_eq.symm, length_ofList_iff, keys_pairs paired] at length
      refine ⟨⟨fun some => ?_, length⟩, List.forall_mem_map.mpr fun entry member => ?_⟩
      · obtain ⟨entry, member⟩ := List.exists_mem_of_ne_nil _ some
        obtain ⟨pair, -, related⟩ := exists_of_mem_left paired member
        exact (sanitizeEntry_eq_some.mp related).1
      · obtain ⟨pair, -, related⟩ := exists_of_mem_left paired member
        obtain ⟨-, -, value⟩ := sanitizeEntry_eq_some.mp related
        have child : entry.2 ∈ Value.children (.object _) := List.mem_map_of_mem member
        exact ih _ child value (keeps entry.1 entry.2 pair.2 member value) (each _ child)

theorem faithful_array {xs : List Value} (short : v.ShortNode (.array xs)) (each : ∀ x ∈ xs, v.Faithful x) :
    v.Faithful (.array xs) := by
  obtain ⟨ys, related⟩ := exists_forall₂ each
  obtain ⟨length, place⟩ := forall₂_iff_getElem?.mp related
  have sanitized : v.sanitizeInput (.array xs) = some (.array ys) :=
    (sanitizeInput_array short).mpr (related.imp fun _ _ faithful => faithful.1)
  refine ⟨.array ys, sanitized, .array length fun i x y left right => (place i x y left right).2.1, ?_⟩
  intro visited reordered
  cases reordered with
  | refl => exact sanitized
  | @array _ visited length' reorders =>
    have short' : v.ShortNode (.array visited) := by
      rw [ShortNode, ← length']
      exact short
    refine (sanitizeInput_array short').mpr (forall₂_iff_getElem?.mpr ⟨length' ▸ length, ?_⟩)
    intro i y' y left right
    have inside : i < xs.length := length' ▸ (List.getElem?_eq_some_iff.mp left).1
    have left' := List.getElem?_eq_getElem inside
    exact (place i _ y left' right).2.2 y' (reorders i _ y' left' left)

/-- The pair is what becomes of the entry, in whatever order the maps in it are visited. -/
def Settled (v : InputValidator) (entry pair : Bytes × Value) : Prop :=
  v.sanitizeEntry entry = some pair ∧ v.Keeps entry.2 pair.2 ∧
    ∀ visited, entry.2.Reorders visited → v.sanitizeInput visited = some pair.2

section

variable {entries pairs : List (Bytes × Value)}

theorem exists_settled (room : entries ≠ [] → 0 ≤ v.config.maxStringLength)
    (each : ∀ entry ∈ entries, v.Faithful entry.2) : ∃ pairs, List.Forall₂ v.Settled entries pairs := by
  refine exists_forall₂ fun entry member => ?_
  obtain ⟨result, sanitized, keeps, same⟩ := each entry member
  have room' := room (List.ne_nil_of_mem member)
  exact ⟨(v.clean entry.1, result), sanitizeEntry_eq_some.mpr ⟨room', rfl, sanitized⟩, keeps, same⟩

theorem keeps_object (settled : List.Forall₂ v.Settled entries pairs) (nodup : (keys pairs).Nodup) :
    v.Keeps (.object entries) (.object (ofList pairs)) := by
  refine .object ?_ ?_ ?_
  · rw [length_ofList_iff.mpr nodup, settled.length_eq]
  · intro key value key' value' member keyed valued
    obtain ⟨pair, place, entry, -⟩ := exists_of_mem_left settled member
    have same : v.sanitizeEntry (key, value) = some (key', value') := by simp [sanitizeEntry, keyed, valued]
    obtain rfl := Option.some.inj (entry.symm.trans same)
    exact lookup_ofList_of_mem nodup place
  · intro key value value' member valued
    obtain ⟨pair, -, entry, keeps, -⟩ := exists_of_mem_left settled member
    obtain rfl := Option.some.inj ((sanitizeEntry_eq_some.mp entry).2.2.symm.trans valued)
    exact keeps

theorem sanitizeEntry_visited {visited : List (Bytes × Value)} (settled : List.Forall₂ v.Settled entries pairs)
    (keys : entries.map Prod.fst = visited.map Prod.fst)
    (reorders : ∀ (i : Nat) x y, entries[i]? = some x → visited[i]? = some y → x.2.Reorders y.2) :
    List.Forall₂ (fun entry pair => v.sanitizeEntry entry = some pair) visited pairs := by
  obtain ⟨length, place⟩ := forall₂_iff_getElem?.mp settled
  have length' : entries.length = visited.length := by simpa using congrArg List.length keys
  refine forall₂_iff_getElem?.mpr ⟨length' ▸ length, fun i entry pair left right => ?_⟩
  have inside : i < entries.length := length' ▸ (List.getElem?_eq_some_iff.mp left).1
  have left' := List.getElem?_eq_getElem inside
  obtain ⟨sanitized, -, same⟩ := place i _ pair left' right
  obtain ⟨room, key, -⟩ := sanitizeEntry_eq_some.mp sanitized
  have key' : entries[i].1 = entry.1 := by
    have := congrArg (·[i]?) keys
    simpa only [List.getElem?_map, left', left, Option.map_some, Option.some.injEq] using this
  exact sanitizeEntry_eq_some.mpr ⟨room, key' ▸ key, same entry.2 (reorders i _ entry left' left)⟩

theorem faithful_object (safe : v.SafeNode (.object entries)) (each : ∀ entry ∈ entries, v.Faithful entry.2) :
    v.Faithful (.object entries) := by
  obtain ⟨room, nodup⟩ := safe
  obtain ⟨pairs, settled⟩ := exists_settled room each
  have paired := settled.imp fun _ _ both => both.1
  have nodup' : (keys pairs).Nodup := by rwa [keys_pairs paired]
  have sanitized : v.sanitizeInput (.object entries) = some (.object (ofList pairs)) :=
    sanitizeInput_object.mpr ⟨pairs, paired, rfl⟩
  refine ⟨_, sanitized, keeps_object settled nodup', fun visited reordered => ?_⟩
  cases reordered with
  | refl => exact sanitized
  | @object _ order visited perm keys reorders =>
    obtain ⟨pairs', settled', perm'⟩ := List.perm_comp_forall₂ perm.symm settled
    rw [ofList_perm nodup' perm'.symm]
    exact sanitizeInput_object.mpr ⟨pairs', sanitizeEntry_visited settled' keys reorders, rfl⟩

end

theorem faithful_of_safe {x : Value} (short : ∀ d w, x.Node d w → v.ShortNode w)
    (safe : ∀ d w, x.Node d w → v.SafeNode w) : v.Faithful x := by
  induction x using Value.induct with
  | step x ih =>
    obtain ⟨short', shorts⟩ := Value.forall_node_iff.mp short
    obtain ⟨safe', safes⟩ := Value.forall_node_iff.mp safe
    have each : ∀ y ∈ x.children, v.Faithful y := fun y member => ih y member (shorts y member) (safes y member)
    cases x with
    | null => exact ⟨_, rfl, .null, by rintro _ (_ | _); rfl⟩
    | bool b => exact ⟨_, rfl, .bool b, by rintro _ (_ | _); rfl⟩
    | number q => exact ⟨_, rfl, .number q, by rintro _ (_ | _); rfl⟩
    | string s =>
      have sanitized : v.sanitizeString s = some (v.clean s) := sanitizeString_eq_some.mpr ⟨safe', rfl⟩
      have whole : v.sanitizeInput (.string s) = some (.string (v.clean s)) := by simp [sanitizeInput, sanitized]
      exact ⟨_, whole, .string sanitized, by rintro _ (_ | _); exact whole⟩
    | array elements => exact faithful_array short' each
    | object entries =>
      exact faithful_object safe' fun entry member => each entry.2 (List.mem_map_of_mem member)

theorem sanitizing_faithful_iff (v : InputValidator) (x : Value) (short : ∀ d w, x.Node d w → v.ShortNode w) :
    v.Faithful x ↔ ∀ d w, x.Node d w → v.SafeNode w :=
  ⟨fun ⟨_, sanitized, keeps, _⟩ => safe_of_keeps sanitized keeps short, faithful_of_safe short⟩

theorem sanitizing_faithful_distinct_keys :
    Faithful {} (.object [(ofString "a", .string (ofString "<x>")), (ofString "b", .null)]) := by
  refine (sanitizing_faithful_iff {} _ ?_).mpr ?_
  · exact (Value.forall_node_leaves (by simp [Value.children])).mpr (by simp [ShortNode])
  · exact (Value.forall_node_leaves (by simp [Value.children])).mpr (by simp +decide [SafeNode])

theorem sanitizing_keys_collide :
    let x : Value := .object [(ofString "a", .null), (ofString "a" ++ [0], .bool true)]
    (∀ d w, x.Node d w → ShortNode {} w) ∧
      sanitizeInput {} x = some (.object [(ofString "a", .bool true)]) ∧
      sanitizeInput {} (.object [(ofString "a" ++ [0], .bool true), (ofString "a", .null)]) =
        some (.object [(ofString "a", .null)]) ∧
      ¬ Faithful {} x := by
  have first : sanitizeInput {} (.object [(ofString "a", .null), (ofString "a" ++ [0], .bool true)]) =
      some (.object [(ofString "a", .bool true)]) := rfl
  refine ⟨?_, first, rfl, ?_⟩
  · exact (Value.forall_node_leaves (by simp [Value.children])).mpr (by simp [ShortNode])
  · rintro ⟨result, sanitized, keeps, -⟩
    obtain rfl := Option.some.inj (first.symm.trans sanitized)
    cases keeps with
    | object length => exact absurd length (by decide)

end InputValidator

end Mcp.Security
