import Mcp.Json
import Mcp.Lib.Strconv
import Mathlib.Data.List.Sort

namespace Mcp.Schemas
open Mcp.Lib

inductive IntKind where
  | int | int8 | int16 | int32 | int64 | uint | uint8 | uint16 | uint32 | uint64
deriving DecidableEq

def IntKind.text : IntKind → String
  | .int => "int" | .int8 => "int8" | .int16 => "int16" | .int32 => "int32" | .int64 => "int64"
  | .uint => "uint" | .uint8 => "uint8" | .uint16 => "uint16" | .uint32 => "uint32" | .uint64 => "uint64"

inductive FloatKind where
  | float32 | float64

def FloatKind.text : FloatKind → String
  | .float32 => "float32" | .float64 => "float64"

structure TypeName where
  pkgPath : String
  pkgName : String
  name : String
  declaration : Nat := 0
deriving DecidableEq

structure FieldInfo where
  name : String
  exported : Bool := true
  anonymous : Bool := false
  tag : String := ""
  json : String := ""
  description : String := ""
deriving DecidableEq

inductive GoType where
  | bool
  | int (kind : IntKind)
  | float (kind : FloatKind)
  | string
  | array (length : Nat) (elem : GoType)
  | slice (elem : GoType)
  | map (key elem : GoType)
  | ptr (elem : GoType)
  | struct (fields : List (FieldInfo × GoType))
  | interface (text : String)
  -- channels, functions, complex numbers and the like
  | other (text : String)
  | named (name : TypeName) (underlying : GoType)
  | recursive (name : TypeName)

def TypeName.text (n : TypeName) : String := n.pkgName ++ "." ++ n.name

mutual

def GoType.text (quote : String → String) : GoType → String
  | .bool => "bool"
  | .int kind => kind.text
  | .float kind => kind.text
  | .string => "string"
  | .array n elem => "[" ++ String.ofList (formatInt n) ++ "]" ++ elem.text quote
  | .slice elem => "[]" ++ elem.text quote
  | .map key elem => "map[" ++ key.text quote ++ "]" ++ elem.text quote
  | .ptr elem => "*" ++ elem.text quote
  | .struct [] => "struct \x7b\x7d"
  | .struct fields => "struct \x7b " ++ "; ".intercalate (GoType.fieldTexts quote fields) ++ " \x7d"
  | .interface text => text
  | .other text => text
  | .named n _ => n.text
  | .recursive n => n.text

def GoType.fieldTexts (quote : String → String) : List (FieldInfo × GoType) → List String
  | [] => []
  | (f, t) :: rest =>
    ((if f.anonymous then "" else f.name ++ " ") ++ t.text quote ++ (if f.tag = "" then "" else " " ++ quote f.tag)) ::
      GoType.fieldTexts quote rest

end

def GoType.isInterface : GoType → Bool
  | .interface _ => true
  | .named _ t => t.isInterface
  | _ => false

inductive Schema where
  | simple (type : String)
  | array (items : Schema)
  | dict (additionalProperties : Schema)
  -- the properties are sorted by their names
  | record (properties : List (String × Schema)) (required : List String)
  | described (description : String) (schema : Schema)

namespace Schema

mutual

def entries : Schema → Option String → List (String × Json)
  | .simple type, d => describe d ++ [("type", .string type)]
  | .array items, d => describe d ++ [("items", .object (items.entries none)), ("type", .string "array")]
  | .dict values, d =>
    ("additionalProperties", .object (values.entries none)) :: describe d ++ [("type", .string "object")]
  | .record properties required, d =>
    describe d ++ [("properties", .object (propertyMembers properties))] ++
      (if required.isEmpty then [] else [("required", .array (required.map .string))]) ++
      [("type", .string "object")]
  | .described text schema, d => schema.entries (some (d.getD text))

def propertyMembers : List (String × Schema) → List (String × Json)
  | [] => []
  | (name, schema) :: rest => (name, .object (schema.entries none)) :: propertyMembers rest

def describe : Option String → List (String × Json)
  | none => []
  | some text => [("description", .string text)]

end

def marshal (schema : Schema) : Json := .object (schema.entries none)

def insert (name : String) (schema : Schema) (properties : List (String × Schema)) : List (String × Schema) :=
  (properties.filter fun p => p.1 ≠ name).orderedInsert (fun p q => p.1 ≤ q.1) (name, schema)

end Schema

def splitComma : List Char → List (List Char)
  | [] => [[]]
  | c :: rest =>
    if c = ',' then [] :: splitComma rest
    else match splitComma rest with
      | [] => [[c]]
      | part :: parts => (c :: part) :: parts

def FieldInfo.parts (f : FieldInfo) : String × List String :=
  match splitComma f.json.toList with
  | [] => ("", [])
  | part :: parts => (String.ofList part, parts.map String.ofList)

def FieldInfo.property (f : FieldInfo) : Option (String × Bool) :=
  if !f.exported then none
  else if f.json ≠ "" then
    if f.parts.1 = "-" then none
    else some (if f.parts.1 ≠ "" then f.parts.1 else f.name, !f.parts.2.contains "omitempty")
  else some (f.name, true)

def Schema.withDescription (text : String) (schema : Schema) : Schema :=
  if text ≠ "" then .described text schema else schema

mutual

def generateSchemaForType (deref : Bool) : GoType → Option Schema
  | .named _ t => generateSchemaForType deref t
  | .ptr elem => if deref then generateSchemaForType false elem else some (.simple "object")
  | .string => some (.simple "string")
  | .int _ => some (.simple "number")
  | .float _ => some (.simple "number")
  | .bool => some (.simple "boolean")
  | .array _ elem => (generateSchemaForType true elem).map .array
  | .slice elem => (generateSchemaForType true elem).map .array
  | .map _ elem => (generateSchemaForType true elem).map .dict
  | .struct fields => generateStructSchema fields [] []
  | .interface _ => some (.simple "object")
  | .other _ => some (.simple "object")
  | .recursive _ => none

def generateStructSchema : List (FieldInfo × GoType) → List (String × Schema) → List String → Option Schema
  | [], properties, required => some (.record properties required)
  | (f, t) :: rest, properties, required =>
    match f.property with
    | none => generateStructSchema rest properties required
    | some (name, isRequired) =>
      (generateSchemaForType true t).bind fun schema =>
        generateStructSchema rest (Schema.insert name (schema.withDescription f.description) properties)
          (if isRequired then required ++ [name] else required)

end

-- The `reflect.Type` of a nil interface is nil, and its `Kind` panics.
def generateJSONSchemaReflection (t : GoType) : Option Json :=
  if t.isInterface then none else (generateSchemaForType true t).map Schema.marshal

structure SchemaCache where
  schemas : String → Option Json := fun _ => none

def SchemaCache.getOrCreate (c : SchemaCache) (typeKey : String) (generator : Option Json) :
    SchemaCache × Option Json :=
  match c.schemas typeKey with
  | some schema => (c, some schema)
  | none =>
    match generator with
    | none => (c, none)
    | some schema => ({ schemas := Function.update c.schemas typeKey (some schema) }, some schema)

section Cache

variable (quote : String → String)

def typeKey (t : GoType) : String := if t.isInterface then "<nil>" else t.text quote

def createJSONSchema (c : SchemaCache) (t : GoType) : SchemaCache × Option Json :=
  c.getOrCreate (typeKey quote t) (generateJSONSchemaReflection t)

def createAll : SchemaCache → List GoType → List (Option Json)
  | _, [] => []
  | c, t :: rest => (createJSONSchema quote c t).2 :: createAll (createJSONSchema quote c t).1 rest

variable {quote}

def SchemaCache.From (c : SchemaCache) (quote : String → String) (before : List GoType) : Prop :=
  ∀ key schema, c.schemas key = some schema →
    ∃ t ∈ before, typeKey quote t = key ∧ generateJSONSchemaReflection t = some schema

def SchemaCache.Covers (c : SchemaCache) (quote : String → String) (before : List GoType) : Prop :=
  ∀ t ∈ before, ∀ schema, generateJSONSchemaReflection t = some schema → c.schemas (typeKey quote t) = some schema

def Agree (quote : String → String) (a b : GoType) : Prop :=
  ∀ schema, generateJSONSchemaReflection a = some schema → typeKey quote a = typeKey quote b →
    generateJSONSchemaReflection b = some schema

variable {c : SchemaCache} {before : List GoType} {t : GoType}

theorem from_create (t : GoType) (origin : c.From quote before) :
    (createJSONSchema quote c t).1.From quote (before ++ [t]) := by
  intro key schema found
  have old (found : c.schemas key = some schema) : ∃ u ∈ before ++ [t],
      typeKey quote u = key ∧ generateJSONSchemaReflection u = some schema := by
    obtain ⟨u, member, rest⟩ := origin key schema found
    exact ⟨u, List.mem_append_left _ member, rest⟩
  unfold createJSONSchema SchemaCache.getOrCreate at found
  split at found
  · exact old found
  · split at found
    · exact old found
    · rename_i made
      simp only [Function.update_apply] at found
      split_ifs at found with same
      · exact ⟨t, by simp, same.symm, made.trans found⟩
      · exact old found

theorem create_covered (own : (createJSONSchema quote c t).2 = generateJSONSchemaReflection t) :
    ∀ schema, generateJSONSchemaReflection t = some schema →
      (createJSONSchema quote c t).1.schemas (typeKey quote t) = some schema := by
  intro schema made
  rw [made] at own
  unfold createJSONSchema SchemaCache.getOrCreate at own ⊢
  split at own
  · rename_i cached
    simp only [cached]
    exact own
  · rename_i absent
    simp only [made, Function.update_self]

theorem create_kept {key : String} {schema : Json} (t : GoType) (found : c.schemas key = some schema) :
    (createJSONSchema quote c t).1.schemas key = some schema := by
  unfold createJSONSchema SchemaCache.getOrCreate
  split
  · exact found
  · rename_i absent
    split
    · exact found
    · have ne : key ≠ typeKey quote t := by
        rintro rfl
        rw [absent] at found
        cases found
      exact (Function.update_of_ne ne _ _).trans found

theorem create_eq_iff (origin : c.From quote before) (covers : c.Covers quote before) :
    (createJSONSchema quote c t).2 = generateJSONSchemaReflection t ↔ ∀ a ∈ before, Agree quote a t := by
  constructor
  · intro own a member schema made same
    have cached := covers a member schema made
    rw [same] at cached
    rw [← own]
    simp only [createJSONSchema, SchemaCache.getOrCreate, cached]
  · intro agree
    unfold createJSONSchema SchemaCache.getOrCreate
    split
    · rename_i schema cached
      obtain ⟨a, member, same, made⟩ := origin _ schema cached
      exact (agree a member schema made same).symm
    · cases made : generateJSONSchemaReflection t <;> rfl

theorem createAll_eq_iff (origin : c.From quote before) (covers : c.Covers quote before) (types : List GoType) :
    createAll quote c types = types.map generateJSONSchemaReflection ↔
      (∀ a ∈ before, ∀ t ∈ types, Agree quote a t) ∧ types.Pairwise (Agree quote) := by
  induction types generalizing c before with
  | nil => simp [createAll]
  | cons t rest ih =>
    simp only [createAll, List.map_cons, List.cons.injEq, List.pairwise_cons, List.forall_mem_cons]
    rw [create_eq_iff origin covers]
    by_cases own : ∀ a ∈ before, Agree quote a t
    · have covered : (createJSONSchema quote c t).1.Covers quote (before ++ [t]) := by
        intro u member schema made
        rcases List.mem_append.mp member with old | new
        · exact create_kept t (covers u old schema made)
        · cases List.mem_singleton.mp new
          exact create_covered ((create_eq_iff origin covers).mpr own) schema made
      rw [ih (from_create t origin) covered]
      simp only [List.mem_append, List.mem_singleton, or_imp, forall_and, forall_eq]
      tauto
    · refine iff_of_false (fun h => own h.1) fun h => own fun a member => (h.1 a member).1

theorem schema_cache_invisible_iff (quote : String → String) (types : List GoType) :
    createAll quote {} types = types.map generateJSONSchemaReflection ↔ types.Pairwise (Agree quote) := by
  have empty : SchemaCache.From {} quote [] := nofun
  have covers : SchemaCache.Covers {} quote [] := nofun
  rw [createAll_eq_iff empty covers]
  simp

def userArgs : GoType := .named ⟨"example.com/user/tools", "tools", "Args", 0⟩ (.struct [({ name := "Name" }, .string)])

def mathArgs : GoType := .named ⟨"example.com/math/tools", "tools", "Args", 0⟩ (.struct [({ name := "N" }, .int .int)])

theorem schema_cache_collision :
    createAll id {} [userArgs, mathArgs] =
      [generateJSONSchemaReflection userArgs, generateJSONSchemaReflection userArgs] ∧
      generateJSONSchemaReflection mathArgs ≠ generateJSONSchemaReflection userArgs := by
  have same : typeKey id userArgs = typeKey id mathArgs := by decide +kernel
  have user : generateJSONSchemaReflection userArgs =
      some (Schema.record [("Name", .simple "string")] ["Name"]).marshal := by rfl
  have math : generateJSONSchemaReflection mathArgs =
      some (Schema.record [("N", .simple "number")] ["N"]).marshal := by rfl
  constructor
  · simp [createAll, createJSONSchema, SchemaCache.getOrCreate, same, user]
  · rw [user, math]
    simp [Schema.marshal, Schema.entries, Schema.propertyMembers, Schema.describe]

end Cache

end Mcp.Schemas
