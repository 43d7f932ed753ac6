import Mcp.JsonText
import Mcp.Streamable.Message

namespace Mcp
open Json
open Streamable (foldName storeString)

section Decoded
open Text (Sorted)

variable {entries : List (String × Any)}

theorem Any.insertEntry_last {key : String} {value : Any} (below : ∀ name ∈ entries.map Prod.fst, name < key) :
    Any.insertEntry key value entries = entries ++ [(key, value)] := by
  induction entries with
  | nil => rfl
  | cons entry rest ih =>
    rw [List.map_cons, List.forall_mem_cons] at below
    have differs : key ≠ entry.1 := by
      rintro rfl
      exact String.lt_irrefl _ below.1
    have after : ¬key < entry.1 := fun less => String.lt_irrefl _ (String.lt_trans less below.1)
    rw [Any.insertEntry, if_neg differs, if_neg after, ih below.2, List.cons_append]

theorem Json.decodeMembers_encodeEntries {before : List (String × Any)} (sorted : Sorted (before ++ entries))
    (values : ∀ entry ∈ entries, entry.2.encode.decode = entry.2) :
    decodeMembers (Any.encodeEntries entries) before = before ++ entries := by
  induction entries generalizing before with
  | nil => simp [Any.encodeEntries, decodeMembers]
  | cons entry rest ih =>
    have below : ∀ name ∈ before.map Prod.fst, name < entry.1 := by
      rw [Sorted, List.map_append, List.map_cons] at sorted
      exact fun name member => (List.pairwise_append.mp sorted).2.2 name member entry.1 List.mem_cons_self
    rw [List.forall_mem_cons] at values
    rw [Any.encodeEntries, decodeMembers, values.1, Any.insertEntry_last below, ih _ values.2,
      List.append_assoc, List.singleton_append]
    rwa [List.append_assoc, List.singleton_append]

theorem Json.mem_decodeMembers {members : List (String × Json)}
    {entry : String × Any} (member : entry ∈ decodeMembers members entries) :
    entry ∈ entries ∨ ∃ source ∈ members, entry.2 = source.2.decode := by
  induction members generalizing entries with
  | nil => exact .inl member
  | cons first rest ih =>
    obtain inserted | ⟨source, within, same⟩ := ih member
    · obtain rfl | kept := mem_insertEntry inserted
      · exact .inr ⟨first, List.mem_cons_self, rfl⟩
      · exact .inl kept
    · exact .inr ⟨source, List.mem_cons_of_mem _ within, same⟩
where
  mem_insertEntry {key : String} {value : Any} {entries : List (String × Any)} {entry : String × Any}
      (member : entry ∈ Any.insertEntry key value entries) : entry = (key, value) ∨ entry ∈ entries := by
    induction entries with
    | nil => exact .inl (List.mem_singleton.mp member)
    | cons first rest ih =>
      unfold Any.insertEntry at member
      grind

mutual

theorem Json.decode_encode_decode : (value : Json) → value.decode.encode.decode = value.decode
  | .null | .bool _ | .number _ | .string _ => rfl
  | .array elements => congrArg Any.slice (decodeElements_encode_decode elements)
  | .object members => by
      have sorted : Sorted ([] ++ decodeMembers members []) := Text.sorted_decodeMembers members List.Pairwise.nil
      have values : ∀ entry ∈ decodeMembers members [], entry.2.encode.decode = entry.2 := by
        intro entry member
        obtain none | ⟨source, within, same⟩ := mem_decodeMembers member
        · cases none
        · rw [same, decodeMembers_encode_decode members source within]
      exact congrArg Any.object (decodeMembers_encodeEntries sorted values)

theorem Json.decodeElements_encode_decode : (elements : List Json) →
    decodeElements (Any.encodeElements (decodeElements elements)) = decodeElements elements
  | [] => rfl
  | element :: rest =>
    congrArg₂ List.cons (decode_encode_decode element) (decodeElements_encode_decode rest)

theorem Json.decodeMembers_encode_decode : (members : List (String × Json)) →
    ∀ member ∈ members, member.2.decode.encode.decode = member.2.decode
  | [] => nofun
  | (_, value) :: rest => List.forall_mem_cons.mpr
      ⟨decode_encode_decode value, decodeMembers_encode_decode rest⟩

end

end Decoded

@[ext] structure AnyMap where
  entries : List (String × Any)
  decoded : ∃ members, decodeMembers members [] = entries

namespace AnyMap

def encode (m : AnyMap) : Json := .object (Any.encodeEntries m.entries)

def empty : AnyMap := ⟨[], [], rfl⟩

theorem decodeMembers_append (first rest : List (String × Json)) (entries : List (String × Any)) :
    decodeMembers (first ++ rest) entries = decodeMembers rest (decodeMembers first entries) := by
  induction first generalizing entries with
  | nil => rfl
  | cons member first ih => exact ih _

def insert (m : AnyMap) (members : List (String × Json)) : AnyMap where
  entries := decodeMembers members m.entries
  decoded := by
    obtain ⟨before, same⟩ := m.decoded
    exact ⟨before ++ members, by rw [decodeMembers_append, same]⟩

theorem empty_insert_encode (m : AnyMap) : empty.insert (Any.encodeEntries m.entries) = m := by
  obtain ⟨entries, members, rfl⟩ := m
  have again := decode_encode_decode (.object members)
  exact AnyMap.ext (Any.object.inj again)

end AnyMap

section Store
variable {α : Type}

-- `null` leaves a flag, a number or a string as it is, and clears a pointer, a slice or a map.
def storeBool (value : Json) (old : Bool) : Option Bool :=
  match value with
  | .null => some old
  | .bool b => some b
  | _ => none

def storeFloat64 (value : Json) (old : ℚ) : Option ℚ :=
  match value with
  | .null => some old
  | .number q => some q
  | _ => none

def storePointer (store : Json → α → Option α) (zero : α) (value : Json) (old : Option α) : Option (Option α) :=
  match value with
  | .null => some none
  | _ => (store value (old.getD zero)).map some

-- The elements an old slice has are stored over, not replaced.
def storeElements (store : Json → α → Option α) (zero : α) : List Json → List α → Option (List α)
  | [], _ => some []
  | value :: rest, old => do
      let element ← store value (old.headD zero)
      let elements ← storeElements store zero rest old.tail
      return element :: elements

def storeSlice (store : Json → α → Option α) (zero : α) (value : Json) (old : Option (List α)) :
    Option (Option (List α)) :=
  match value with
  | .null => some none
  | .array elements => (storeElements store zero elements (old.getD [])).map some
  | _ => none

def storeMap (value : Json) (old : Option AnyMap) : Option (Option AnyMap) :=
  match value with
  | .null => some none
  | .object members => some (some ((old.getD .empty).insert members))
  | _ => none

abbrev RawMessage := Option Json

-- A `json.RawMessage` keeps the text `null` as well.
def storeRaw (value : Json) (_ : RawMessage) : Option RawMessage := some (some value)

@[simp] theorem storeString_string (s old : String) : storeString (.string s) old = some s := rfl

@[simp] theorem storePointer_string (s : String) (old : Option String) :
    storePointer storeString "" (.string s) old = some (some s) := rfl

@[simp] theorem storeRaw_eq (value : Json) (old : RawMessage) : storeRaw value old = some (some value) := rfl

def encodeSlice (write : α → Json) (slice : List α) : Json := .array (slice.map write)

def nullable (write : α → Json) (value : Option α) : Json := value.elim .null write

@[simp] theorem nullable_none (write : α → Json) : nullable write none = .null := rfl

@[simp] theorem nullable_some (write : α → Json) (x : α) : nullable write (some x) = write x := rfl

theorem storeElements_map {store : Json → α → Option α} {zero : α} {write : α → Json}
    (stored : ∀ x, store (write x) zero = some x) (xs : List α) :
    storeElements store zero (xs.map write) [] = some xs := by
  induction xs with
  | nil => rfl
  | cons x xs ih => simp [storeElements, stored, ih]

theorem storeElements_raw (values : List Json) : storeElements storeRaw none values [] = some (values.map some) := by
  induction values with
  | nil => rfl
  | cons value rest ih => simp [storeElements, storeRaw, ih]

@[simp] theorem storeSlice_raw (write : α → Json) (slice : Option (List α)) :
    storeSlice storeRaw none (nullable (encodeSlice write) slice) none =
      some (slice.map (·.map fun x => some (write x))) := by
  cases slice with
  | none => rfl
  | some xs => simp [nullable, encodeSlice, storeSlice, storeElements_raw]

end Store

def nilEmpty {α : Type} (slice : Option (List α)) : Option (List α) := slice.filter (!·.isEmpty)

def AnyMap.nilEmpty (m : Option AnyMap) : Option AnyMap := m.filter (!·.entries.isEmpty)

@[simp] theorem nilEmpty_nilEmpty {α : Type} (slice : Option (List α)) :
    nilEmpty (nilEmpty slice) = nilEmpty slice := by
  simp [nilEmpty, Option.filter_filter]

@[simp] theorem AnyMap.nilEmpty_nilEmpty (m : Option AnyMap) : nilEmpty (nilEmpty m) = nilEmpty m := by
  simp [nilEmpty, Option.filter_filter]

namespace Struct
variable {α σ : Type}

def field (store : Json → α → Option α) (name : String) : List (String × Json) → α → Option α
  | [], old => some old
  | (key, value) :: rest, old =>
    (if foldName key = foldName name then store value old else some old).bind (field store name rest)

def store (fields : List (String × Json) → σ → Option σ) (value : Json) (old : σ) : Option σ :=
  match value with
  | .null => some old
  | .object members => fields members old
  | _ => none

def written (fields : List (String × Option Json)) : List (String × Json) :=
  fields.filterMap fun field => field.2.map (field.1, ·)

def restore (store : Json → α → Option α) (zero : α) (value : Option Json) : Option α :=
  match value with
  | none => some zero
  | some value => store value zero

@[simp] theorem restore_none (store : Json → α → Option α) (zero : α) : restore store zero none = some zero := rfl

@[simp] theorem restore_some (store : Json → α → Option α) (zero : α) (value : Json) :
    restore store zero (some value) = store value zero := rfl

@[simp] theorem field_nil (store : Json → α → Option α) (name : String) : field store name (written []) = some := by
  funext old
  rfl

@[simp] theorem field_cons (store : Json → α → Option α) (name key : String) (value : Option Json)
    (rest : List (String × Option Json)) (old : α) : field store name (written ((key, value) :: rest)) old =
      (if foldName key = foldName name then restore store old value else some old).bind
        (field store name (written rest)) := by
  cases value with
  | none =>
    have dropped : written ((key, none) :: rest) = written rest := rfl
    simp [dropped]
  | some value =>
    have kept : written ((key, some value) :: rest) = (key, value) :: written rest := rfl
    rw [kept, field, restore_some]

@[simp] theorem store_object (fields : List (String × Json) → σ → Option σ) (members : List (String × Json)) (old : σ) :
    store fields (.object members) old = fields members old := rfl

variable {store : Json → α → Option α} {zero : α} {write : α → Json} {fields : List (String × Option Json)}

theorem restore_pointer {f : α → α}
    (stored : ∀ x, store (write x) zero = some (f x)) (solid : ∀ x, write x ≠ .null) (pointer : Option α) :
    restore (storePointer store zero) none (pointer.map write) = some (pointer.map f) := by
  cases pointer with
  | none => rfl
  | some x =>
    have kept : storePointer store zero (write x) none = (store (write x) zero).map some := by
      unfold storePointer
      split
      case h_1 null => exact absurd null (solid x)
      case h_2 => rfl
    simp [kept, stored]

theorem restore_slice (stored : ∀ x, store (write x) zero = some x) (slice : Option (List α)) :
    restore (storeSlice store zero) none (slice.map (encodeSlice write)) = some slice := by
  cases slice with
  | none => rfl
  | some xs => simp [encodeSlice, storeSlice, storeElements_map stored]

@[simp] theorem restore_strings (slice : Option (List String)) :
    restore (storeSlice storeString "") none (slice.map (encodeSlice .string)) = some slice :=
  restore_slice (fun _ => rfl) slice

@[simp] theorem restore_map (m : Option AnyMap) : restore storeMap none (m.map AnyMap.encode) = some m := by
  cases m with
  | none => rfl
  | some m => simp [AnyMap.encode, storeMap, AnyMap.empty_insert_encode]

@[simp] theorem restore_string (pointer : Option String) :
    restore (storePointer storeString "") none (pointer.map .string) = some pointer := by
  cases pointer <;> rfl

@[simp] theorem restore_raw (raw : RawMessage) : restore storeRaw none raw = some raw := by
  cases raw <;> rfl

@[simp] theorem restore_bool (pointer : Option Bool) :
    restore (storePointer storeBool false) none (pointer.map .bool) = some pointer := by
  cases pointer <;> rfl

@[simp] theorem restore_float64 (pointer : Option ℚ) :
    restore (storePointer storeFloat64 0) none (pointer.map .number) = some pointer := by
  cases pointer <;> rfl

theorem lookup_insertEntry (name key : String) (value : Any) (entries : List (String × Any)) :
    (Any.insertEntry key value entries).lookup name = if name = key then some value else entries.lookup name := by
  induction entries with
  | nil | cons =>
    unfold Any.insertEntry
    grind

def get? (name : String) : Any → Option Any
  | .object entries => entries.lookup name
  | _ => none

theorem lookup_decodeMembers_written (distinct : (fields.map Prod.fst).Nodup) (name : String)
    (entries : List (String × Any)) : (decodeMembers (written fields) entries).lookup name =
      ((fields.lookup name).join.map decode).or (entries.lookup name) := by
  induction fields generalizing entries with
  | nil => rfl
  | cons field rest ih =>
    obtain ⟨key, value⟩ := field
    rw [List.map_cons, List.nodup_cons] at distinct
    have later : name = key → rest.lookup name = none := by
      rintro rfl
      rw [List.lookup_eq_none_iff]
      rintro other member
      rw [bne_iff_ne]
      rintro rfl
      exact distinct.1 (List.mem_map.mpr ⟨other, member, rfl⟩)
    cases value with
    | none =>
      have dropped : written ((key, none) :: rest) = written rest := rfl
      rw [dropped, ih distinct.2]
      grind
    | some value =>
      have kept : written ((key, some value) :: rest) = (key, value) :: written rest := rfl
      rw [kept, decodeMembers, ih distinct.2, lookup_insertEntry]
      grind

theorem get?_decode_written (distinct : (fields.map Prod.fst).Nodup) (name : String) :
    get? name (object (written fields)).decode = (fields.lookup name).join.map decode := by
  have found := lookup_decodeMembers_written distinct name []
  rwa [List.lookup_nil, Option.or_none] at found

theorem decodeMembers_written_congr {fields' : List (String × Option Json)}
    (same : (fields.map fun field => (field.1, field.2.map decode)) =
      fields'.map fun field => (field.1, field.2.map decode)) (entries : List (String × Any)) :
    decodeMembers (written fields) entries = decodeMembers (written fields') entries := by
  induction fields generalizing fields' entries with
  | nil =>
    rw [List.map_nil, eq_comm, List.map_eq_nil_iff] at same
    rw [same]
  | cons field rest ih =>
    obtain _ | ⟨field', rest'⟩ := fields'
    · cases same
    · obtain ⟨name, value⟩ := field
      obtain ⟨name', value'⟩ := field'
      rw [List.map_cons, List.map_cons, List.cons.injEq, Prod.mk.injEq] at same
      obtain ⟨⟨rfl, value_eq⟩, rest_eq⟩ := same
      cases value with
      | none =>
        cases Option.map_eq_none_iff.mp value_eq.symm
        exact ih rest_eq entries
      | some value =>
        obtain ⟨value', rfl, decoded⟩ := Option.map_eq_some_iff.mp value_eq.symm
        have kept (v : Json) (others : List (String × Option Json)) :
            written ((name, some v) :: others) = (name, v) :: written others := rfl
        rw [kept, kept, decodeMembers, decodeMembers, decoded]
        exact ih rest_eq _

end Struct

end Mcp
