import Mcp.Json
import Mcp.Lib.Numbering
import Mcp.Lib.Sorting
import Mathlib.Data.List.Lex

namespace Mcp.Cli
open Mcp.Lib Numbering Sorting

abbrev Name := List Char

def uniqueName (name : Name) (used : Name → Nat) : Name × (Name → Nat) :=
  if used name = 0 then (name, Function.update used name 1)
  else (name ++ '-' :: Nat.toDigits 10 (used name + 1), Function.update used name (used name + 1))

def uniqueNames (used : Name → Nat) : List Name → List Name
  | [] => []
  | name :: names => (uniqueName name used).1 :: uniqueNames (uniqueName name used).2 names

structure Unicode where
  isSpace : Char → Bool
  isUpper : Char → Bool
  isLower : Char → Bool
  isDigit : Char → Bool
  toLower : Char → Char
  isSpace_ascii (c : Char) (ascii : c.toNat < 128) : isSpace c = decide (c = ' ' ∨ '\t' ≤ c ∧ c ≤ '\r')
  isUpper_ascii (c : Char) (ascii : c.toNat < 128) : isUpper c = c.isUpper
  isLower_ascii (c : Char) (ascii : c.toNat < 128) : isLower c = c.isLower
  isDigit_ascii (c : Char) (ascii : c.toNat < 128) : isDigit c = c.isDigit
  toLower_ascii (c : Char) (ascii : c.toNat < 128) : toLower c = c.toLower

variable (u : Unicode)

def trimBoth (cut : Char → Bool) (s : Name) : Name := ((s.dropWhile cut).reverse.dropWhile cut).reverse

def splitLoop : Option Char → Bool → Name → Name → Name
  | _, _, b, [] => b
  | prev, lastDash, b, r :: rest =>
    if r = '_' ∨ r = '-' ∨ r = '/' ∨ u.isSpace r then
      if b ≠ [] ∧ !lastDash then splitLoop none true (b ++ ['-']) rest else splitLoop none lastDash b rest
    else
      let boundary := prev.any fun p => u.isUpper r &&
        (u.isLower p || u.isDigit p || (u.isUpper p && rest.head?.any u.isLower))
      let b := if boundary ∧ b ≠ [] ∧ !lastDash then b ++ ['-'] else b
      splitLoop (some r) false (b ++ [u.toLower r]) rest

def splitName (s : Name) : Name := splitLoop u none false [] (trimBoth u.isSpace s)

-- runs of other characters than `[a-zA-Z0-9-]` become one dash
def replaceNonName : Bool → Name → Name
  | _, [] => []
  | inside, c :: rest =>
    if c.isAlphanum || c = '-' then c :: replaceNonName false rest
    else if inside then replaceNonName true rest
    else '-' :: replaceNonName true rest

def flagName (key : Name) : Name :=
  let key := trimBoth (· = '-') (replaceNonName false (splitName u key))
  if key = [] then ['a', 'r', 'g'] else key

inductive JSONSchema where
  | mk (type : Any) (properties : List (Name × Option JSONSchema)) (items : Option JSONSchema)

namespace JSONSchema

def properties : JSONSchema → List (Name × Option JSONSchema)
  | .mk _ properties _ => properties

def namedType : Any → Option String
  | .string name => some name
  | .slice items => items.findSome? fun item =>
    match item with
    | .string name => if name ≠ "null" then some name else none
    | _ => none
  | _ => none

def kind : JSONSchema → String
  | .mk type properties items =>
    (namedType type).getD (if properties ≠ [] then "object" else if items.isSome then "array" else "json")

def isObject (s : JSONSchema) : Bool := s.kind = "object"

end JSONSchema

structure FlagSets (σ : Type) where
  new : σ
  defined : σ → Name → Prop
  var : σ → Name → Option σ
  not_defined_new (name : Name) : ¬ defined new name
  var_eq_none (flags : σ) (name : Name) : var flags name = none ↔ defined flags name
  defined_var (flags flags' : σ) (name other : Name) (added : var flags name = some flags') :
    defined flags' other ↔ defined flags other ∨ other = name

inductive FlagKind where
  | string
  | bool
  | int
  | float
  | json

structure PropertyBinding where
  key : Name
  flagName : Name
  kind : FlagKind

def FlagKind.ofSchema : String → FlagKind
  | "string" => .string
  | "boolean" => .bool
  | "integer" => .int
  | "number" => .float
  | _ => .json

def bindProperty (key : Name) (schema : Option JSONSchema) (used : Name → Nat) :
    PropertyBinding × (Name → Nat) :=
  let (name, used) := uniqueName (flagName u key) used
  ({ key := key, flagName := name, kind := .ofSchema ((schema.map JSONSchema.kind).getD "") }, used)

variable {σ : Type} (flagSets : FlagSets σ)

-- `StringVar`, `BoolVar`, `Int64Var` and `Float64Var` define the flag in the same way
def addFlag (flags : σ) (binding : PropertyBinding) : Option σ := flagSets.var flags binding.flagName

def addFlags (flags : σ) (used : Name → Nat) : List (Name × Option JSONSchema) → Option σ
  | [] => some flags
  | (key, prop) :: rest =>
    let (binding, used) := bindProperty u key prop used
    (addFlag flagSets flags binding).bind fun flags => addFlags flags used rest

def jsonFlagName : Name := ['j', 's', 'o', 'n']

def usedFlags : Name → Nat := Function.update (fun _ => 0) jsonFlagName 1

def addSchemaFlags (flags : σ) (schema : JSONSchema) : Option σ :=
  addFlags u flagSets flags usedFlags (sortSlice (fun a b => a.1 < b.1) schema.properties)

def command (schema : Option JSONSchema) : Option σ :=
  (flagSets.var flagSets.new jsonFlagName).bind fun flags =>
    match schema with
    | none => some flags
    | some schema => if schema.isObject then addSchemaFlags u flagSets flags schema else some flags

variable {u flagSets} {used : Name → Nat} {names : List Name} {x y : Name} {c d : Nat}

def variantOf (use : Name × Nat) : Name :=
  if use.2 = 1 then use.1 else use.1 ++ '-' :: Nat.toDigits 10 use.2

theorem uniqueName_eq (name : Name) (used : Name → Nat) : uniqueName name used =
      (variantOf (name, used name + 1), Function.update used name (used name + 1)) := by
  unfold uniqueName variantOf
  by_cases first : used name = 0
  · simp [first]
  · simp [first]

theorem uniqueNames_eq (used : Name → Nat) (names : List Name) :
    uniqueNames used names = (number used names).map variantOf := by
  induction names generalizing used with
  | nil => rfl
  | cons name names ih => rw [uniqueNames, uniqueName_eq, number, List.map_cons, ih]

theorem dash_not_mem_toDigits (n : Nat) : '-' ∉ Nat.toDigits 10 n := by
  intro member
  have digit : '-'.isDigit = true := Nat.isDigit_of_mem_toDigits (by decide) (by decide) member
  cases digit

theorem suffixed_injective (same : x ++ '-' :: Nat.toDigits 10 c = y ++ '-' :: Nat.toDigits 10 d) : x = y ∧ c = d := by
  have digits : Nat.toDigits 10 c = Nat.toDigits 10 d → c = d := by
    intro equal
    rw [← Nat.ofDigitChars_ten_toDigits (n := c), equal, Nat.ofDigitChars_ten_toDigits]
  rcases List.append_eq_append_iff.mp same with ⟨front, rfl, rest⟩ | ⟨front, rfl, rest⟩
  · cases front with
    | nil => exact ⟨(List.append_nil x).symm, digits (List.cons.inj rest).2⟩
    | cons a front =>
      have dash : '-' ∈ Nat.toDigits 10 c := by rw [(List.cons.inj rest).2]; simp
      exact (dash_not_mem_toDigits c dash).elim
  · cases front with
    | nil => exact ⟨List.append_nil y, (digits (List.cons.inj rest).2.symm)⟩
    | cons a front =>
      have dash : '-' ∈ Nat.toDigits 10 d := by rw [(List.cons.inj rest).2]; simp
      exact (dash_not_mem_toDigits d dash).elim

/-- A name that is new is the numbered form of a name that is used often enough. -/
def Clash (used : Name → Nat) (names : List Name) : Prop :=
  ∃ x c, 2 ≤ c ∧ used x < c ∧ c ≤ used x + names.count x ∧
    x ++ '-' :: Nat.toDigits 10 c ∈ names ∧ used (x ++ '-' :: Nat.toDigits 10 c) = 0

theorem clash_of_numbered (member : (x, c) ∈ number used names) (member' : (y, 1) ∈ number used names)
    (more : c ≠ 1) (same : variantOf (x, c) = variantOf (y, 1)) : Clash used names := by
  have bounds := mem_number_iff.mp member
  have bounds' := mem_number_iff.mp member'
  simp only [variantOf, if_neg more, if_true] at same
  refine ⟨x, c, by omega, bounds.1, bounds.2, ?_, ?_⟩
  · rw [same]
    exact List.count_pos_iff.mp (by omega)
  · rw [same]
    omega

theorem variantOf_injOn (clear : ¬ Clash used names) (a : Name × Nat) (member : a ∈ number used names)
    (b : Name × Nat) (member' : b ∈ number used names) (same : variantOf a = variantOf b) : a = b := by
  obtain ⟨x, c⟩ := a
  obtain ⟨y, d⟩ := b
  by_cases first : c = 1
  · by_cases first' : d = 1
    · subst first first'
      simpa [variantOf] using same
    · subst first
      exact (clear (clash_of_numbered member' member first' same.symm)).elim
  · by_cases first' : d = 1
    · subst first'
      exact (clear (clash_of_numbered member member' first same)).elim
    · simp only [variantOf, if_neg first, if_neg first'] at same
      obtain ⟨rfl, rfl⟩ := suffixed_injective same
      rfl

theorem uniqueNames_nodup_iff (used : Name → Nat) (names : List Name) :
    (uniqueNames used names).Nodup ↔ ¬ Clash used names := by
  rw [uniqueNames_eq]
  constructor
  · rintro distinct ⟨x, c, two, low, high, member, fresh⟩
    have numbered : (x, c) ∈ number used names := mem_number_iff.mpr ⟨low, high⟩
    have plain : (x ++ '-' :: Nat.toDigits 10 c, 1) ∈ number used names := by
      have counted := List.count_pos_iff.mpr member
      exact mem_number_iff.mpr ⟨by omega, by omega⟩
    have equal := List.inj_on_of_nodup_map distinct numbered plain (by simp [variantOf]; omega)
    have one := congrArg Prod.snd equal
    simp only at one
    omega
  · intro clear
    exact List.Nodup.map_on (variantOf_injOn clear) (number_nodup used names)

theorem addFlags_isSome_iff (flags : σ) (used : Name → Nat) (properties : List (Name × Option JSONSchema)) :
    (addFlags u flagSets flags used properties).isSome ↔
      (uniqueNames used (properties.map fun p => flagName u p.1)).Nodup ∧
        ∀ name ∈ uniqueNames used (properties.map fun p => flagName u p.1), ¬ flagSets.defined flags name := by
  induction properties generalizing flags used with
  | nil => simp [addFlags, uniqueNames]
  | cons entry rest ih =>
    obtain ⟨key, prop⟩ := entry
    simp only [addFlags, bindProperty, addFlag, List.map_cons, uniqueNames, List.nodup_cons, List.forall_mem_cons]
    cases added : flagSets.var flags (uniqueName (flagName u key) used).1 with
    | none =>
      have defined := (flagSets.var_eq_none flags _).mp added
      simp [defined]
    | some flags' =>
      have fresh : ¬ flagSets.defined flags (uniqueName (flagName u key) used).1 := by
        intro defined
        rw [(flagSets.var_eq_none flags _).mpr defined] at added
        cases added
      rw [Option.bind_some, ih]
      simp only [flagSets.defined_var _ _ _ _ added, not_or, fresh, not_false_eq_true, true_and]
      constructor
      · rintro ⟨distinct, clear⟩
        exact ⟨⟨fun member => (clear _ member).2 rfl, distinct⟩, fun name member => (clear name member).1⟩
      · rintro ⟨⟨absent, distinct⟩, clear⟩
        exact ⟨distinct, fun name member => ⟨clear name member, fun same => absent (same ▸ member)⟩⟩

theorem jsonFlagName_not_mem (names : List Name) : jsonFlagName ∉ uniqueNames usedFlags names := by
  rw [uniqueNames_eq, List.mem_map]
  rintro ⟨⟨x, c⟩, member, same⟩
  have low := (mem_number_iff.mp member).1
  by_cases first : c = 1
  · subst first
    simp only [variantOf, if_true] at same
    subst same
    simp [usedFlags] at low
  · simp only [variantOf, if_neg first] at same
    have dash : '-' ∈ jsonFlagName := by rw [← same]; simp
    exact absurd dash (by decide)

theorem clash_perm {names' : List Name} (perm : names.Perm names') : Clash used names ↔ Clash used names' := by
  simp only [Clash, perm.count_eq, perm.mem_iff]

theorem addSchemaFlags_isSome_iff {flags : σ} (added : flagSets.var flagSets.new jsonFlagName = some flags)
    (schema : JSONSchema) : (addSchemaFlags u flagSets flags schema).isSome ↔
      ¬ Clash usedFlags (schema.properties.map fun p => flagName u p.1) := by
  have sorted : ((sortSlice (fun a b => a.1 < b.1) schema.properties).map fun p => flagName u p.1).Perm
      (schema.properties.map fun p => flagName u p.1) := (List.mergeSort_perm ..).map _
  rw [addSchemaFlags, addFlags_isSome_iff, uniqueNames_nodup_iff, clash_perm sorted, and_iff_left]
  intro name member
  rw [flagSets.defined_var _ _ _ _ added]
  rintro (defined | rfl)
  · exact flagSets.not_defined_new name defined
  · exact jsonFlagName_not_mem _ member

theorem command_isSome_iff (u : Unicode) (flagSets : FlagSets σ) (schema : Option JSONSchema) :
    (command u flagSets schema).isSome ↔ ∀ s ∈ schema, s.isObject = true →
      ¬ Clash usedFlags (s.properties.map fun p => flagName u p.1) := by
  obtain ⟨flags, added⟩ : ∃ flags, flagSets.var flagSets.new jsonFlagName = some flags := by
    apply Option.ne_none_iff_exists'.mp
    rw [Ne, flagSets.var_eq_none]
    exact flagSets.not_defined_new jsonFlagName
  cases schema with
  | none => simp [command, added]
  | some schema =>
    cases object : schema.isObject with
    | false => simp [command, added, object]
    | true => simp [command, added, object, addSchemaFlags_isSome_iff]

/-- The names that `uniqueName` returns are distinct, and the flags of a tool are registered without a panic,
exactly if no new name is the numbered form of another one. -/
theorem flag_names_iff (u : Unicode) (flagSets : FlagSets σ) :
    (∀ used names, (uniqueNames used names).Nodup ↔ ¬ Clash used names) ∧
    ∀ schema, (command u flagSets schema).isSome ↔ ∀ s ∈ schema, s.isObject = true →
      ¬ Clash usedFlags (s.properties.map fun p => flagName u p.1) :=
  ⟨uniqueNames_nodup_iff, command_isSome_iff u flagSets⟩

def asciiTables : Unicode where
  isSpace c := c = ' ' ∨ '\t' ≤ c ∧ c ≤ '\r'
  isUpper := Char.isUpper
  isLower := Char.isLower
  isDigit := Char.isDigit
  toLower := Char.toLower
  isSpace_ascii _ _ := rfl
  isUpper_ascii _ _ := rfl
  isLower_ascii _ _ := rfl
  isDigit_ascii _ _ := rfl
  toLower_ascii _ _ := rfl

def listedFlags : FlagSets (List Name) where
  new := []
  defined flags name := name ∈ flags
  var flags name := if name ∈ flags then none else some (name :: flags)
  not_defined_new _ := List.not_mem_nil
  var_eq_none flags name := by simp
  defined_var flags flags' name other added := by
    obtain ⟨-, same⟩ := Option.ite_none_left_eq_some.mp added
    rw [← Option.some.inj same, List.mem_cons, or_comm]

def userSchema : JSONSchema :=
  .mk (.string "object") [("userId".toList, none), ("user_id".toList, none), ("user-id-2".toList, none)] none

theorem command_panics_userSchema :
    ¬ (uniqueNames usedFlags ["user-id-2".toList, "user-id".toList, "user-id".toList]).Nodup ∧
      command asciiTables listedFlags (some userSchema) = none := by
  refine ⟨by decide, Option.not_isSome_iff_eq_none.mp fun registered => ?_⟩
  apply (command_isSome_iff asciiTables listedFlags _).mp registered userSchema rfl (by decide)
  exact ⟨"user-id".toList, 2, by decide, by decide, by decide, by decide, by decide⟩

end Mcp.Cli
