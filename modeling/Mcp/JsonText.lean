import Mcp.Json
import Mcp.Lib.Entries
import Mcp.Lib.Float64
import Mathlib.Data.String.Basic

namespace Mcp
open Mcp.Lib

inductive Text where
  | null
  | bool (b : Bool)
  | number (n : Int64)
  | string (s : String)
  | array (elements : List Text)
  | object (members : List (String × Text))

namespace Text

mutual

def parse : Text → Json
  | .null => .null
  | .bool b => .bool b
  | .number n => .number (Float64.signed Float64.nearest n.toInt)
  | .string s => .string s
  | .array elements => .array (parseElements elements)
  | .object members => .object (parseMembers members)

def parseElements : List Text → List Json
  | [] => []
  | element :: rest => element.parse :: parseElements rest

def parseMembers : List (String × Text) → List (String × Json)
  | [] => []
  | (name, value) :: rest => (name, value.parse) :: parseMembers rest

end

def relayed (value : Text) : Json := value.parse.decode.encode

mutual

/-- The same members in any order, with the same values. A number is written as its shortest decimal. -/
def Same : Text → Json → Prop
  | .null, .null => True
  | .bool b, .bool b' => b = b'
  | .number n, .number q => q.den = 1 ∧ Float64.signed Float64.shortest q.num = n.toInt
  | .string s, .string s' => s = s'
  | .array elements, .array elements' => SameElements elements elements'
  | .object members, .object members' => ∃ order, order.Perm members' ∧ SameMembers members order
  | _, _ => False

def SameElements : List Text → List Json → Prop
  | [], [] => True
  | element :: rest, element' :: rest' => Same element element' ∧ SameElements rest rest'
  | _, _ => False

def SameMembers : List (String × Text) → List (String × Json) → Prop
  | [], [] => True
  | (name, value) :: rest, (name', value') :: rest' => name = name' ∧ Same value value' ∧ SameMembers rest rest'
  | _, _ => False

end

mutual

def Kept : Text → Prop
  | .null | .bool _ | .string _ => True
  | .number n => Float64.Canonical n.toInt.natAbs
  | .array elements => KeptElements elements
  | .object members => (members.map Prod.fst).Nodup ∧ KeptMembers members

def KeptElements : List Text → Prop
  | [] => True
  | element :: rest => element.Kept ∧ KeptElements rest

def KeptMembers : List (String × Text) → Prop
  | [] => True
  | (_, value) :: rest => value.Kept ∧ KeptMembers rest

end

theorem parseMembers_eq (members : List (String × Text)) :
    parseMembers members = members.map fun member => (member.1, member.2.parse) := by
  induction members with
  | nil => rfl
  | cons member rest ih => simp [parseMembers, ih]

variable {members : List (String × Text)} {members' : List (String × Json)} {name key : String} {value : Text}
  {entries : List (String × Any)}

theorem sameMembers_names (same : SameMembers members members') : members.map Prod.fst = members'.map Prod.fst := by
  induction members generalizing members' with
  | nil => cases members' with
    | nil => rfl
    | cons _ _ => cases same
  | cons member rest ih => cases members' with
    | nil => cases same
    | cons member' rest' =>
      obtain ⟨name, -, others⟩ := same
      rw [List.map_cons, List.map_cons, name, ih others]

theorem mem_of_sameMembers (same : SameMembers members members') (member : (name, value) ∈ members) :
    ∃ value', (name, value') ∈ members' ∧ Same value value' := by
  induction members generalizing members' with
  | nil => cases member
  | cons first rest ih => cases members' with
    | nil => cases same
    | cons first' rest' =>
      obtain ⟨name', value'⟩ := first'
      obtain ⟨rfl, here, others⟩ := same
      obtain rfl | later := List.mem_cons.mp member
      · exact ⟨value', List.mem_cons_self, here⟩
      · obtain ⟨value', within, same'⟩ := ih others later
        exact ⟨value', List.mem_cons_of_mem _ within, same'⟩

theorem keptMembers_of_forall (kept : ∀ member ∈ members, member.2.Kept) : KeptMembers members := by
  induction members with
  | nil => trivial
  | cons member rest ih =>
    rw [List.forall_mem_cons] at kept
    exact ⟨kept.1, ih kept.2⟩

theorem eq_string_of_same {s : String} (same : value.Same (.string s)) : value = .string s := by
  cases value with
  | string s' => exact congrArg _ same
  | _ => cases same

theorem eq_null_of_relayed (null : value.relayed = .null) : value = .null := by
  cases value with
  | null => rfl
  | _ => cases null

theorem encodeEntries_eq (entries : List (String × Any)) :
    Any.encodeEntries entries = entries.map fun entry => (entry.1, entry.2.encode) := by
  induction entries with
  | nil => rfl
  | cons entry rest ih => simp [Any.encodeEntries, ih]

theorem insertEntry_eq_upsert (key : String) (value : Any) (entries : List (String × Any)) :
    Any.insertEntry key value entries = Entries.upsert key (fun _ => value) entries := by
  induction entries with
  | nil => rfl
  | cons entry rest ih =>
    obtain ⟨k, v⟩ := entry
    unfold Any.insertEntry Entries.upsert
    split_ifs with same before
    · rw [same]
    · rfl
    · rw [ih]

theorem name_of_insertEntry {value : Any}
    (member : name ∈ (Any.insertEntry key value entries).map Prod.fst) : name = key ∨ name ∈ entries.map Prod.fst := by
  rw [insertEntry_eq_upsert] at member
  exact Entries.mem_keys_upsert.mp member

def Sorted (entries : List (String × Any)) : Prop := (entries.map Prod.fst).Pairwise (· < ·)

theorem sorted_insertEntry (sorted : Sorted entries) (key : String) (value : Any) :
    Sorted (Any.insertEntry key value entries) := by
  rw [insertEntry_eq_upsert]
  exact Entries.sorted_upsert sorted

theorem sorted_decodeMembers (members : List (String × Json)) (sorted : Sorted entries) :
    Sorted (Json.decodeMembers members entries) := by
  induction members generalizing entries with
  | nil => exact sorted
  | cons member rest ih => exact ih (sorted_insertEntry sorted member.1 member.2.decode)

theorem insertEntry_perm {value : Any}
    (fresh : key ∉ entries.map Prod.fst) : (Any.insertEntry key value entries).Perm ((key, value) :: entries) := by
  induction entries with
  | nil => exact .refl _
  | cons entry rest ih =>
    rw [List.map_cons, List.mem_cons, not_or] at fresh
    unfold Any.insertEntry
    rw [if_neg fresh.1]
    split_ifs
    · exact .refl _
    · exact ((ih fresh.2).cons entry).trans (.swap ..)

theorem decodeMembers_perm {members : List (String × Json)}
    (distinct : (members.map Prod.fst).Nodup) (fresh : ∀ name ∈ members.map Prod.fst, name ∉ entries.map Prod.fst) :
    (Json.decodeMembers members entries).Perm ((members.map fun member => (member.1, member.2.decode)) ++ entries) := by
  induction members generalizing entries with
  | nil => exact .refl _
  | cons member rest ih =>
    rw [List.map_cons, List.nodup_cons] at distinct
    rw [List.map_cons, List.forall_mem_cons] at fresh
    have inserted : (Any.insertEntry member.1 member.2.decode entries).Perm ((member.1, member.2.decode) :: entries) :=
      insertEntry_perm fresh.1
    have fresh' : ∀ name ∈ rest.map Prod.fst,
        name ∉ (Any.insertEntry member.1 member.2.decode entries).map Prod.fst := by
      intro name within member'
      obtain rfl | later := name_of_insertEntry member'
      · exact distinct.1 within
      · exact fresh.2 name within later
    exact (ih distinct.2 fresh').trans ((inserted.append_left _).trans List.perm_middle)

structure Rewritten (members : List (String × Text)) (out : List (String × Json)) : Prop where
  distinct : (out.map Prod.fst).Nodup
  perm : (members.map Prod.fst).Nodup → out.Perm (members.map fun member => (member.1, member.2.relayed))

theorem relayed_object (members : List (String × Text)) :
    ∃ out, relayed (.object members) = .object out ∧ Rewritten members out := by
  refine ⟨_, rfl, ?_, fun distinct => ?_⟩
  · rw [encodeEntries_eq, List.map_map]
    have sorted : Sorted (Json.decodeMembers (parseMembers members) []) := sorted_decodeMembers _ List.Pairwise.nil
    apply List.Pairwise.imp _ sorted
    rintro name _ less rfl
    exact String.lt_irrefl name less
  · rw [parseMembers_eq, encodeEntries_eq]
    have distinct' : ((members.map fun member => (member.1, member.2.parse)).map Prod.fst).Nodup := by
      simpa [Function.comp_def] using distinct
    have fresh : ∀ name ∈ (members.map fun member => (member.1, member.2.parse)).map Prod.fst,
        name ∉ ([] : List (String × Any)).map Prod.fst := fun _ _ => List.not_mem_nil
    have encoded := (decodeMembers_perm distinct' fresh).map fun entry => (entry.1, entry.2.encode)
    simpa [Function.comp_def, relayed] using encoded

theorem eq_of_perm_of_names {α β : Type*} {xs ys : List (α × β)} (perm : xs.Perm ys)
    (names : xs.map Prod.fst = ys.map Prod.fst) (distinct : (ys.map Prod.fst).Nodup) : xs = ys := by
  induction xs generalizing ys with
  | nil => exact (List.nil_perm.mp perm).symm
  | cons x xs ih => cases ys with
    | nil => cases names
    | cons y ys =>
      rw [List.map_cons, List.map_cons, List.cons.injEq] at names
      rw [List.map_cons, List.nodup_cons] at distinct
      obtain rfl | later := List.mem_cons.mp (perm.subset List.mem_cons_self)
      · rw [ih (perm.cons_inv) names.2 distinct.2]
      · exact absurd (names.1 ▸ List.mem_map_of_mem later) distinct.1

mutual

theorem same_relayed_iff : (value : Text) → (Same value value.relayed ↔ value.Kept)
  | .null | .bool _ | .string _ => by simp [relayed, parse, Json.decode, Any.encode, Same, Kept]
  | .number n => by
      simp only [relayed, parse, Json.decode, Any.encode, Same, Kept, Rat.num_intCast, Rat.den_intCast, true_and]
      exact Float64.signed_signed_iff
  | .array elements => by
      have each := sameElements_relayed_iff elements
      simpa [relayed, parse, Json.decode, Any.encode, Same, Kept] using each
  | .object members => by
      obtain ⟨out, value, rewritten⟩ := relayed_object members
      have each := sameMembers_relayed_iff members
      rw [value, Same, Kept, ← each]
      constructor
      · rintro ⟨order, perm, same⟩
        have names := sameMembers_names same
        have distinct : (members.map Prod.fst).Nodup := by
          rw [names]
          exact (perm.map Prod.fst).nodup_iff.mpr rewritten.distinct
        refine ⟨distinct, ?_⟩
        have equal : order = members.map fun member => (member.1, member.2.relayed) :=
          eq_of_perm_of_names (perm.trans (rewritten.perm distinct)) (by simp [← names, Function.comp_def])
            (by simpa [Function.comp_def] using distinct)
        rwa [← equal]
      · rintro ⟨distinct, same⟩
        exact ⟨_, (rewritten.perm distinct).symm, same⟩

theorem sameElements_relayed_iff : (elements : List Text) →
    (SameElements elements (Any.encodeElements (Json.decodeElements (parseElements elements))) ↔ KeptElements elements)
  | [] => by simp [parseElements, Json.decodeElements, Any.encodeElements, SameElements, KeptElements]
  | element :: rest => by
      have first := same_relayed_iff element
      have others := sameElements_relayed_iff rest
      rw [relayed] at first
      simp only [parseElements, Json.decodeElements, Any.encodeElements, SameElements, KeptElements, first, others]

theorem sameMembers_relayed_iff : (members : List (String × Text)) →
    (SameMembers members (members.map fun member => (member.1, member.2.relayed)) ↔ KeptMembers members)
  | [] => by simp [SameMembers, KeptMembers]
  | (name, value) :: rest => by
      have first := same_relayed_iff value
      have others := sameMembers_relayed_iff rest
      simp only [List.map_cons, SameMembers, KeptMembers, first, others, true_and]

end

end Text

end Mcp
