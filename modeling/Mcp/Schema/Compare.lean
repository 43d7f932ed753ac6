import Mcp.Json
import Mcp.Lib.Entries
import Mathlib.Data.List.Basic

namespace Mcp.Schemas

def stringOf : Any → Option String
  | .string s => some s
  | _ => none

def cannotUnmarshal (kind : String) : String :=
  "json: cannot unmarshal " ++ kind ++ " into Go value of type map[string]interface \x7b\x7d"

def unmarshalMap : Json → Except String (List (String × Any))
  | .object members => .ok (Json.decodeMembers members [])
  | .null => .ok []
  | .bool _ => .error (cannotUnmarshal "bool")
  | .number _ => .error (cannotUnmarshal "number")
  | .string _ => .error (cannotUnmarshal "string")
  | .array _ => .error (cannotUnmarshal "array")

def compareRequired (path : String) (req1Set : List String) : List Any → Bool → List String → Bool × List String
  | [], compatible, differences => (compatible, differences)
  | .string s :: req2, compatible, differences =>
    if s ∈ req1Set then compareRequired path req1Set req2 compatible differences
    else compareRequired path req1Set req2 false (differences ++ [path ++ ": new required field " ++ s])
  | _ :: req2, compatible, differences => compareRequired path req1Set req2 compatible differences

def compareTypes (path : String) (differences : List String) : Option Any → Option Any → Bool × List String
  | some (.string type1), some (.string type2) =>
    if type1 = type2 then (true, differences)
    else (false, differences ++ [path ++ ": type mismatch (" ++ type1 ++ " vs " ++ type2 ++ ")"])
  | _, _ => (true, differences)

def compareSchemaObjects (path : String) (obj1 obj2 : List (String × Any)) (differences : List String) :
    Bool × List String :=
  let (compatible, differences) := compareTypes path differences (obj1.lookup "type") (obj2.lookup "type")
  match obj1.lookup "required", obj2.lookup "required" with
  | some (.slice req1), some (.slice req2) =>
    compareRequired path (req1.filterMap stringOf) req2 compatible differences
  | _, _ => (compatible, differences)

def compareSchemas (schema1 schema2 : Json) : Except String (Bool × List String) :=
  match unmarshalMap schema1, unmarshalMap schema2 with
  | .error e, _ => .error ("failed to unmarshal schema1: " ++ e)
  | .ok _, .error e => .error ("failed to unmarshal schema2: " ++ e)
  | .ok s1, .ok s2 => .ok (compareSchemaObjects "" s1 s2 [])

inductive Subschema where
  | property (name : String)
  | items
  | additionalProperties

def keyword (name : String) : Any → Option Any
  | .object entries => entries.lookup name
  | _ => none

def Subschema.of (schema : Any) : Subschema → Option Any
  | .property name => (keyword "properties" schema).bind (keyword name)
  | .items => keyword "items" schema
  | .additionalProperties => keyword "additionalProperties" schema

def subschemaAt : List Subschema → Any → Option Any
  | [], schema => some schema
  | step :: path, schema => (step.of schema).bind (subschemaAt path)

def required (schema : Any) : List String :=
  match keyword "required" schema with
  | some (.slice names) => names.filterMap stringOf
  | _ => []

def declared (schema : Any) : Option (List String) :=
  match keyword "type" schema with
  | some (.string name) => some [name]
  | some (.slice names) => some (names.filterMap stringOf)
  | _ => none

def requiredAt (path : List Subschema) (schema : Any) : List String :=
  ((subschemaAt path schema).map required).getD []

def declaredAt (path : List Subschema) (schema : Any) : Option (List String) := (subschemaAt path schema).bind declared

def SameTypes (types1 types2 : Option (List String)) : Prop :=
  ∀ names1 names2, types1 = some names1 → types2 = some names2 → ∀ name, name ∈ names1 ↔ name ∈ names2

structure AgreeAt (schema1 schema2 : Any) (path : List Subschema) : Prop where
  required : ∀ field ∈ requiredAt path schema2, field ∈ requiredAt path schema1
  types : SameTypes (declaredAt path schema1) (declaredAt path schema2)

def TopMismatch (obj1 obj2 : List (String × Any)) : Prop :=
  (∃ type1 type2, obj1.lookup "type" = some (.string type1) ∧ obj2.lookup "type" = some (.string type2) ∧
    type1 ≠ type2) ∨
    ∃ req1 req2, obj1.lookup "required" = some (.slice req1) ∧ obj2.lookup "required" = some (.slice req2) ∧
      ∃ field ∈ req2.filterMap stringOf, field ∉ req1.filterMap stringOf

/-- Of the two values of a `type` keyword one is absent, or they are equal. -/
def SameKeyword (type1 type2 : Option Any) : Prop := type1 = none ∨ type2 = none ∨ type1 = type2

/-- What the code does not compare at the top level: `required` if schema1 has no array there, and types that are not
two names. -/
structure TopCovered (obj1 obj2 : List (String × Any)) : Prop where
  required : required (.object obj2) ≠ [] → ∃ req1, obj1.lookup "required" = some (.slice req1)
  types : (∃ type1 type2, obj1.lookup "type" = some (.string type1) ∧ obj2.lookup "type" = some (.string type2)) ∨
    SameKeyword (obj1.lookup "type") (obj2.lookup "type")

/-- A subschema of schema2 against what schema1 has at its place: equal to it, or it neither requires fields nor
declares a type unless schema1 says the same there, and its own subschemas are covered again. -/
inductive Covered : Option Any → Any → Prop
  | same (schema : Any) : Covered (some schema) schema
  | keywords {schema1 : Option Any} {schema2 : Any}
      (required : ∀ names, keyword "required" schema2 = some names → schema1.bind (keyword "required") = some names)
      (types : SameKeyword (schema1.bind (keyword "type")) (keyword "type" schema2))
      (below : ∀ step sub2, Subschema.of schema2 step = some sub2 →
        Covered (schema1.bind fun schema => step.of schema) sub2) : Covered schema1 schema2

section
variable {path : String} {obj1 obj2 : List (String × Any)} {differences : List String}

theorem compareRequired_compatible {req1Set : List String} {req2 : List Any} {compatible : Bool} :
    (compareRequired path req1Set req2 compatible differences).1 = true ↔
      compatible = true ∧ ∀ field ∈ req2.filterMap stringOf, field ∈ req1Set := by
  induction req2 generalizing compatible differences with
  | nil => simp [compareRequired]
  | cons value req2 ih =>
    cases value with
    | string s =>
      rw [compareRequired]
      split_ifs with known
      · simp [ih, stringOf, known]
      · simp [ih, stringOf, known]
    | _ => simp [compareRequired, ih, stringOf]

variable (path differences) in
theorem compareTypes_compatible {type1 type2 : Option Any} : (compareTypes path differences type1 type2).1 = true ↔
      ¬ ∃ name1 name2, type1 = some (.string name1) ∧ type2 = some (.string name2) ∧ name1 ≠ name2 := by
  unfold compareTypes
  split
  · split_ifs with same <;> simp [same]
  · rename_i other
    refine iff_of_true rfl ?_
    rintro ⟨name1, name2, rfl, rfl, -⟩
    exact other name1 name2 rfl rfl

variable (path differences) in
theorem compareSchemaObjects_compatible :
    (compareSchemaObjects path obj1 obj2 differences).1 = true ↔ ¬ TopMismatch obj1 obj2 := by
  rw [TopMismatch, not_or, ← compareTypes_compatible path differences]
  unfold compareSchemaObjects
  generalize compareTypes path differences (obj1.lookup "type") (obj2.lookup "type") = first
  obtain ⟨compatible, differences⟩ := first
  simp only
  split
  · rename_i req1 req2 found1 found2
    rw [compareRequired_compatible, found1, found2]
    simp
  · rename_i other
    refine (and_iff_left ?_).symm
    rintro ⟨req1, req2, found1, found2, -⟩
    exact other req1 req2 found1 found2

theorem SameKeyword.sameTypes {schema1 schema2 : Any}
    (same : SameKeyword (keyword "type" schema1) (keyword "type" schema2)) :
    SameTypes (declared schema1) (declared schema2) := by
  intro names1 names2 found1 found2 name
  rcases same with absent | absent | same
  · simp [declared, absent] at found1
  · simp [declared, absent] at found2
  · rw [declared, same, ← declared.eq_def schema2, found2] at found1
    cases found1
    exact Iff.rfl

theorem agreeAt_nil (compatible : ¬ TopMismatch obj1 obj2) (covered : TopCovered obj1 obj2) :
    AgreeAt (.object obj1) (.object obj2) [] := by
  obtain ⟨names, fields⟩ := not_or.mp compatible
  constructor
  · intro field member
    have member : field ∈ required (.object obj2) := member
    obtain ⟨req1, found1⟩ := covered.required (List.ne_nil_of_mem member)
    unfold required at member
    split at member
    · rename_i req2 found2
      by_contra absent
      refine fields ⟨req1, req2, found1, found2, field, member, fun inFirst => absent ?_⟩
      show field ∈ required (.object obj1)
      simpa only [required, keyword, found1] using inFirst
    · cases member
  · rcases covered.types with ⟨type1, type2, found1, found2⟩ | same
    · have same : type1 = type2 := by
        by_contra differ
        exact names ⟨type1, type2, found1, found2, differ⟩
      exact SameKeyword.sameTypes (.inr (.inr (by rw [keyword, keyword, found1, found2, same])))
    · exact SameKeyword.sameTypes same

theorem mem_requiredAt_cons {step : Subschema} {steps : List Subschema} {schema : Any} {field : String} :
    field ∈ requiredAt (step :: steps) schema ↔ ∃ sub, step.of schema = some sub ∧ field ∈ requiredAt steps sub := by
  rw [requiredAt, subschemaAt]
  cases step.of schema <;> simp [requiredAt]

theorem declaredAt_cons (step : Subschema) (steps : List Subschema) (schema : Any) :
    declaredAt (step :: steps) schema = (step.of schema).bind (declaredAt steps) := Option.bind_assoc ..

-- by induction on the covering: an equal subschema agrees with itself at every path, and otherwise the keywords
-- settle the empty path and the subschemas a longer one
theorem Covered.agree {schema1 : Option Any} {schema2 : Any} (covered : Covered schema1 schema2)
    (steps : List Subschema) :
    (∀ field ∈ requiredAt steps schema2, ∃ sub1, schema1 = some sub1 ∧ field ∈ requiredAt steps sub1) ∧
      ∀ sub1, schema1 = some sub1 → SameTypes (declaredAt steps sub1) (declaredAt steps schema2) := by
  induction covered generalizing steps with
  | same schema =>
    refine ⟨fun field member => ⟨schema, rfl, member⟩, ?_⟩
    rintro _ ⟨⟩ names1 names2 found1 found2 name
    cases found1.symm.trans found2
    exact Iff.rfl
  | @keywords schema1 schema2 fields types below ih =>
    cases steps with
    | nil =>
      constructor
      · intro field member
        have member : field ∈ required schema2 := member
        unfold required at member
        split at member
        · rename_i names found
          obtain ⟨sub1, rfl, found1⟩ := Option.bind_eq_some_iff.mp (fields _ found)
          refine ⟨sub1, rfl, ?_⟩
          show field ∈ required sub1
          rwa [required, found1]
        · cases member
      · rintro sub1 rfl
        exact SameKeyword.sameTypes types
    | cons step steps =>
      constructor
      · intro field member
        obtain ⟨sub2, found2, member⟩ := mem_requiredAt_cons.mp member
        obtain ⟨sub, found, member⟩ := (ih step sub2 found2 steps).1 field member
        obtain ⟨sub1, rfl, found1⟩ := Option.bind_eq_some_iff.mp found
        exact ⟨sub1, rfl, mem_requiredAt_cons.mpr ⟨sub, found1, member⟩⟩
      · rintro sub1 rfl
        intro names1 names2 found1 found2
        rw [declaredAt_cons] at found1 found2
        obtain ⟨below1, of1, found1⟩ := Option.bind_eq_some_iff.mp found1
        obtain ⟨below2, of2, found2⟩ := Option.bind_eq_some_iff.mp found2
        exact (ih step below2 of2 steps).2 below1 of1 names1 names2 found1 found2

end

theorem schema_comparison_sound (members1 members2 : List (String × Json)) {differences : List String}
    (top : TopCovered (Json.decodeMembers members1 []) (Json.decodeMembers members2 []))
    (below : ∀ step sub2, Subschema.of (.object (Json.decodeMembers members2 [])) step = some sub2 →
      Covered (step.of (.object (Json.decodeMembers members1 []))) sub2)
    (verdict : compareSchemas (.object members1) (.object members2) = .ok (true, differences)) (path : List Subschema) :
    AgreeAt (.object (Json.decodeMembers members1 [])) (.object (Json.decodeMembers members2 [])) path := by
  have compatible : ¬ TopMismatch (Json.decodeMembers members1 []) (Json.decodeMembers members2 []) := by
    rw [← compareSchemaObjects_compatible "" []]
    exact congrArg Prod.fst (Except.ok.inj verdict)
  cases path with
  | nil => exact agreeAt_nil compatible top
  | cons step steps =>
    constructor
    · intro field member
      obtain ⟨sub2, found2, member⟩ := mem_requiredAt_cons.mp member
      exact mem_requiredAt_cons.mpr (((below step sub2 found2).agree steps).1 field member)
    · intro names1 names2 found1 found2
      rw [declaredAt_cons] at found1 found2
      obtain ⟨sub1, of1, found1⟩ := Option.bind_eq_some_iff.mp found1
      obtain ⟨sub2, of2, found2⟩ := Option.bind_eq_some_iff.mp found2
      exact ((below step sub2 of2).agree steps).2 sub1 of1 names1 names2 found1 found2

theorem schema_comparison_sound_nested :
    let nested (note : List (String × Json)) (name : Json) : List (String × Json) :=
      [("type", .string "object"), ("required", .array [.string "user"]),
        ("properties", .object (("user", .object [("type", .string "object"), ("required", .array [.string "name"]),
          ("properties", .object [("name", name)])]) :: note))]
    ∀ path, AgreeAt (.object (Json.decodeMembers (nested [] (.object [("type", .string "string")])) []))
      (.object (Json.decodeMembers (nested [("note", .object [("title", .string "Note")])] (.object [])) [])) path := by
  intro nested
  have leaf : ∀ schema1 entries, (∀ name ∈ ["required", "type", "properties", "items", "additionalProperties"],
      (List.lookup name entries : Option Any) = none) → Covered schema1 (.object entries) := by
    intro schema1 entries absent
    refine .keywords (fun names found => ?_) (.inr (.inl (absent _ (by simp)))) ?_
    · cases (absent _ (by simp)).symm.trans found
    · rintro (name | _ | _) sub2 found
      · simp [Subschema.of, keyword, absent] at found
      · cases (absent _ (by simp)).symm.trans found
      · cases (absent _ (by simp)).symm.trans found
  have verdict : compareSchemas (.object (nested [] (.object [("type", .string "string")])))
      (.object (nested [("note", .object [("title", .string "Note")])] (.object []))) = .ok (true, []) := rfl
  refine schema_comparison_sound _ _ ⟨fun _ => ⟨_, rfl⟩, .inl ⟨_, _, rfl, rfl⟩⟩ ?_ verdict
  have user : Covered (some (.object [("properties", .object [("name", .object [("type", .string "string")])]),
      ("required", .slice [.string "name"]), ("type", .string "object")])) (.object [("properties",
        .object [("name", .object [])]), ("required", .slice [.string "name"]), ("type", .string "object")]) := by
    refine .keywords (fun names found => found) (.inr (.inr rfl)) ?_
    rintro (name | _ | _) sub2 found
    · have member := Lib.Entries.mem_of_lookup found
      simp only [List.mem_singleton, Prod.mk.injEq] at member
      obtain ⟨rfl, rfl⟩ := member
      exact leaf _ _ (fun _ _ => rfl)
    · cases found
    · cases found
  rintro (name | _ | _) sub2 found
  · have member := Lib.Entries.mem_of_lookup found
    rw [show Json.decodeMembers _ [] = [("note", _), ("user", _)] from rfl] at member
    rcases List.mem_cons.mp member with ⟨rfl, rfl⟩ | other
    · exact leaf _ _ (by decide)
    · cases List.mem_singleton.mp other
      exact user
  · cases found
  · cases found

theorem schema_comparison_shallow :
    let nested (fields : List Json) : Json := .object [("type", .string "object"),
      ("properties", .object [("user", .object [("type", .string "object"), ("required", .array fields)])])]
    compareSchemas (nested [.string "name"]) (nested [.string "name", .string "email"]) = .ok (true, []) ∧
      requiredAt [.property "user"] (nested [.string "name"]).decode = ["name"] ∧
      requiredAt [.property "user"] (nested [.string "name", .string "email"]).decode = ["name", "email"] ∧
      ¬ AgreeAt (nested [.string "name"]).decode (nested [.string "name", .string "email"]).decode
        [.property "user"] := by
  intro nested
  have first : requiredAt [.property "user"] (nested [.string "name"]).decode = ["name"] := by decide +kernel
  have second : requiredAt [.property "user"] (nested [.string "name", .string "email"]).decode =
      ["name", "email"] := by
    decide +kernel
  refine ⟨by rfl, first, second, fun agree => ?_⟩
  have known := agree.required "email" (by simp [second])
  simp [first] at known

end Mcp.Schemas
