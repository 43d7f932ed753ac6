import Mcp.Schema.Places

namespace Mcp.Schemas
open PlainType (goType Has followed isBasic)
open EncodedField (omits member encoded)

def typeOf : Json → String
  | .null => "null"
  | .bool _ => "boolean"
  | .number _ => "number"
  | .string _ => "string"
  | .array _ => "array"
  | .object _ => "object"

mutual

def Schema.Accepts : Schema → Json → Prop
  | .simple type, value => typeOf value = type
  | .array items, .array elements => ∀ x ∈ elements, items.Accepts x
  | .dict values, .object members => ∀ m ∈ members, values.Accepts m.2
  | .record properties required, .object members =>
    (∀ r ∈ required, ∃ m ∈ members, m.1 = r) ∧ AcceptsProperties properties members
  | .described _ schema, value => schema.Accepts value
  | _, _ => False

def AcceptsProperties : List (String × Schema) → List (String × Json) → Prop
  | [], _ => True
  | (name, schema) :: rest, members =>
    (∀ m ∈ members, m.1 = name → schema.Accepts m.2) ∧ AcceptsProperties rest members

end

variable {properties properties' : List (String × Schema)} {schema : Schema} {fields : Fields}
  {required required' : List String}

theorem acceptsProperties_iff {members : List (String × Json)} : AcceptsProperties properties members ↔
      ∀ p ∈ properties, ∀ m ∈ members, m.1 = p.1 → p.2.Accepts m.2 := by
  induction properties with
  | nil => simp [AcceptsProperties]
  | cons p rest ih => simp [AcceptsProperties, ih]

theorem accepts_withDescription {text : String} {value : Json} :
    (schema.withDescription text).Accepts value ↔ schema.Accepts value := by
  unfold Schema.withDescription
  split_ifs
  · rw [Schema.Accepts]
  · rfl

theorem mem_insert {name : String} {p : String × Schema} :
    p ∈ Schema.insert name schema properties ↔ p = (name, schema) ∨ p ∈ properties ∧ p.1 ≠ name := by
  simp [Schema.insert]

def propertyField : Fields → String → Option (FieldInfo × PlainType)
  | [], _ => none
  | (f, t) :: rest, name =>
    match propertyField rest name with
    | some field => some field
    | none => if f.property.map Prod.fst = some name then some (f, t) else none

def requiredNames (fields : Fields) : List String :=
  fields.filterMap fun (f, _) =>
    match f.property with
    | some (name, true) => some name
    | _ => none

theorem generate_followed (t : PlainType) :
    generateSchemaForType true t.goType = generateSchemaForType false t.followed.goType := by
  cases t with
  | struct name fields => cases name <;> simp [followed, goType, generateSchemaForType]
  | _ => simp [followed, goType, generateSchemaForType]

mutual

theorem generate_isSome : (t : PlainType) → (deref : Bool) →
      ∃ schema, generateSchemaForType deref t.goType = some schema
  | .bool, _ | .int _, _ | .string, _ => ⟨_, by rw [goType, generateSchemaForType]⟩
  | .slice elem, _ => by
      obtain ⟨schema, made⟩ := generate_isSome elem true
      exact ⟨.array schema, by simp [goType, generateSchemaForType, made]⟩
  | .map elem, _ => by
      obtain ⟨schema, made⟩ := generate_isSome elem true
      exact ⟨.dict schema, by simp [goType, generateSchemaForType, made]⟩
  | .ptr elem, deref => by
      obtain ⟨schema, made⟩ := generate_isSome elem false
      cases deref <;> simp [goType, generateSchemaForType, made]
  | .struct name fields, _ => by
      obtain ⟨properties, required, made⟩ := generateStruct_isSome fields [] []
      refine ⟨.record properties required, ?_⟩
      cases name <;> simp [goType, generateSchemaForType, made]

theorem generateStruct_isSome : (fields : Fields) → (properties : List (String × Schema)) → (required : List String) →
    ∃ properties' required', generateStructSchema (goFields fields) properties required =
      some (.record properties' required')
  | [], properties, required => ⟨properties, required, by rw [goFields, generateStructSchema]⟩
  | (f, t) :: rest, properties, required => by
      rw [goFields, generateStructSchema]
      cases f.property with
      | none => exact generateStruct_isSome rest properties required
      | some p =>
        obtain ⟨schema, made⟩ := generate_isSome t true
        simp only [made, Option.bind_some]
        exact generateStruct_isSome rest _ _

end

theorem generateStruct_required
    (made : generateStructSchema (goFields fields) properties required = some (.record properties' required')) :
    required' = required ++ requiredNames fields := by
  induction fields generalizing properties required with
  | nil =>
    rw [goFields, generateStructSchema] at made
    cases made
    simp [requiredNames]
  | cons field rest ih =>
    obtain ⟨f, t⟩ := field
    rw [goFields, generateStructSchema] at made
    cases found : f.property with
    | none =>
      rw [found] at made
      rw [ih made]
      simp [requiredNames, found]
    | some p =>
      obtain ⟨name, isRequired⟩ := p
      rw [found] at made
      obtain ⟨schema, -, made⟩ := Option.bind_eq_some_iff.mp made
      rw [ih made]
      cases isRequired <;> simp [requiredNames, found]

theorem generateStruct_properties
    (made : generateStructSchema (goFields fields) properties required = some (.record properties' required'))
    (p : String × Schema) : p ∈ properties' ↔
      (∃ f t schema, propertyField fields p.1 = some (f, t) ∧ generateSchemaForType true t.goType = some schema ∧
        p.2 = schema.withDescription f.description) ∨ propertyField fields p.1 = none ∧ p ∈ properties := by
  induction fields generalizing properties required with
  | nil =>
    rw [goFields, generateStructSchema] at made
    cases made
    simp [propertyField]
  | cons field rest ih =>
    obtain ⟨f, t⟩ := field
    rw [goFields, generateStructSchema] at made
    cases found : f.property with
    | none =>
      rw [found] at made
      rw [ih made]
      have same : propertyField ((f, t) :: rest) p.1 = propertyField rest p.1 := by
        simp only [propertyField, found]
        cases propertyField rest p.1 <;> simp
      rw [same]
    | some named =>
      obtain ⟨name, isRequired⟩ := named
      rw [found] at made
      obtain ⟨schema, made', made⟩ := Option.bind_eq_some_iff.mp made
      rw [ih made, mem_insert]
      cases later : propertyField rest p.1 with
      | some field => simp [propertyField, later]
      | none =>
        -- no later field has the name, so this one is the last
        by_cases same : name = p.1
        · have own : propertyField ((f, t) :: rest) p.1 = some (f, t) := by
            simp [propertyField, later, found, same]
          rw [own]
          obtain ⟨n, s⟩ := p
          simp only at same
          subst same
          simp [made']
        · have own : propertyField ((f, t) :: rest) p.1 = none := by
            simp [propertyField, later, found, same]
          rw [own]
          obtain ⟨n, s⟩ := p
          simp only [Prod.mk.injEq] at same ⊢
          simp [Ne.symm same]

def PlainType.Admits (t : PlainType) (value : Json) : Prop :=
  ∃ schema, generateSchemaForType false t.goType = some schema ∧ schema.Accepts value

section Admits

variable {value : Json} {elem : PlainType} {kind : IntKind} {name : Option TypeName} {fields : Fields}

variable {t : PlainType}

theorem admits_of_generate {schema : Schema} (made : generateSchemaForType false t.goType = some schema) :
    t.Admits value ↔ schema.Accepts value := by
  simp [PlainType.Admits, made]

@[simp] theorem admits_bool : PlainType.bool.Admits value ↔ typeOf value = "boolean" := by
  simp [PlainType.Admits, goType, generateSchemaForType, Schema.Accepts]

@[simp] theorem admits_int : (PlainType.int kind).Admits value ↔ typeOf value = "number" := by
  simp [PlainType.Admits, goType, generateSchemaForType, Schema.Accepts]

@[simp] theorem admits_string : PlainType.string.Admits value ↔ typeOf value = "string" := by
  simp [PlainType.Admits, goType, generateSchemaForType, Schema.Accepts]

@[simp] theorem admits_ptr : (PlainType.ptr elem).Admits value ↔ typeOf value = "object" := by
  simp [PlainType.Admits, goType, generateSchemaForType, Schema.Accepts]

theorem exists_followed (t : PlainType) : ∃ schema, generateSchemaForType true t.goType = some schema ∧
    ∀ value, t.followed.Admits value ↔ schema.Accepts value := by
  obtain ⟨schema, made⟩ := generate_isSome t true
  exact ⟨schema, made, fun value => admits_of_generate ((generate_followed t).symm.trans made)⟩

@[simp] theorem admits_slice : (PlainType.slice elem).Admits value ↔
    ∃ elements, value = .array elements ∧ ∀ x ∈ elements, elem.followed.Admits x := by
  obtain ⟨schema, made, inner⟩ := exists_followed elem
  have outer : generateSchemaForType false (PlainType.slice elem).goType = some (.array schema) := by
    simp [goType, generateSchemaForType, made]
  rw [admits_of_generate outer]
  cases value <;> simp [Schema.Accepts, inner]

@[simp] theorem admits_map : (PlainType.map elem).Admits value ↔
    ∃ members, value = .object members ∧ ∀ m ∈ members, elem.followed.Admits m.2 := by
  obtain ⟨schema, made, inner⟩ := exists_followed elem
  have outer : generateSchemaForType false (PlainType.map elem).goType = some (.dict schema) := by
    simp [goType, generateSchemaForType, made]
  rw [admits_of_generate outer]
  cases value <;> simp [Schema.Accepts, inner]

@[simp] theorem admits_struct : (PlainType.struct name fields).Admits value ↔
    ∃ members, value = .object members ∧ (∀ r ∈ requiredNames fields, ∃ m ∈ members, m.1 = r) ∧
      ∀ m ∈ members, ∀ f t, propertyField fields m.1 = some (f, t) → t.followed.Admits m.2 := by
  obtain ⟨properties, required, made⟩ := generateStruct_isSome fields [] []
  have outer : generateSchemaForType false (PlainType.struct name fields).goType =
      some (.record properties required) := by
    cases name <;> simp [goType, generateSchemaForType, made]
  have names : required = requiredNames fields := generateStruct_required made
  have described := generateStruct_properties made
  rw [admits_of_generate outer]
  have each (members : List (String × Json)) : AcceptsProperties properties members ↔
      ∀ m ∈ members, ∀ f t, propertyField fields m.1 = some (f, t) → t.followed.Admits m.2 := by
    rw [acceptsProperties_iff]
    constructor
    · intro all m member f t found
      obtain ⟨schema, made', inner⟩ := exists_followed t
      have listed : (m.1, schema.withDescription f.description) ∈ properties :=
        (described _).mpr (.inl ⟨f, t, schema, found, made', rfl⟩)
      exact (inner _).mpr (accepts_withDescription.mp (all _ listed m member rfl))
    · intro all p listed m member same
      rcases (described p).mp listed with ⟨f, t, schema, found, made', eq⟩ | ⟨-, none⟩
      · rw [eq, accepts_withDescription, ← admits_of_generate ((generate_followed t).symm.trans made')]
        exact all m member f t (same ▸ found)
      · cases none
  cases value <;> simp [Schema.Accepts, names, each]

theorem not_admits_null (t : PlainType) : ¬ t.Admits .null := by
  cases t <;> simp [typeOf]

theorem eq_bool_of_admits {b : Bool} (admits : t.Admits (.bool b)) : t = .bool := by
  cases t with
  | bool => rfl
  | _ => simp [typeOf] at admits

theorem eq_int_of_admits {q : ℚ} (admits : t.Admits (.number q)) : ∃ kind, t = .int kind := by
  cases t with
  | int kind => exact ⟨kind, rfl⟩
  | _ => simp [typeOf] at admits

theorem eq_string_of_admits {s : String} (admits : t.Admits (.string s)) : t = .string := by
  cases t with
  | string => rfl
  | _ => simp [typeOf] at admits

theorem eq_slice_of_admits {elements : List Json} (admits : t.Admits (.array elements)) : ∃ elem, t = .slice elem := by
  cases t with
  | slice elem => exact ⟨elem, rfl⟩
  | _ => simp [typeOf] at admits

theorem object_of_admits {members : List (String × Json)} (admits : t.Admits (.object members)) :
    (∃ elem, t = .ptr elem) ∨ (∃ elem, t = .map elem) ∨ ∃ name fields, t = .struct name fields := by
  cases t with
  | ptr elem => exact .inl ⟨elem, rfl⟩
  | map elem => exact .inr (.inl ⟨elem, rfl⟩)
  | struct name fields => exact .inr (.inr ⟨name, fields, rfl⟩)
  | _ => simp [typeOf] at admits

end Admits

def PlainType.isContainer : PlainType → Bool
  | .slice _ | .map _ => true
  | _ => false

def EncodedField.nonzero (e : EncodedField) (z : Bool) (fields : Fields) : Bool :=
  e.omitZero || e.omitEmpty && !e.type.isStruct || z && forced fields e.index

def EncodedField.kept (e : EncodedField) (z : Bool) (fields : Fields) : Bool :=
  (z && forced fields e.index || !e.omitZero) &&
    (!e.omitEmpty || e.type.isStruct || z && forced fields e.index && !e.type.isContainer)

def reaches (z : Bool) (fields : Fields) (index : List Nat) : Bool :=
  if z then reached fields index else solid fields index

/-- The schema of the first type accepts every value of the second one; with `z`, its zero value apart. A
pointer is followed by the generator once, so under it a pointer has the schema of any object. -/
inductive Describes (isWord : Char → Bool) : Bool → PlainType → PlainType → Prop
  | bool {z : Bool} : Describes isWord z .bool .bool
  | int {z : Bool} {kind kind' : IntKind} : Describes isWord z (.int kind) (.int kind')
  | string {z : Bool} : Describes isWord z .string .string
  | bytes {elem : PlainType} (byte : elem.isByte = true) : Describes isWord true .string (.slice elem)
  | slice {elem elem' : PlainType} (other : elem'.isByte = false)
      (elements : Describes isWord false elem.followed elem') :
      Describes isWord true (.slice elem) (.slice elem')
  | map {elem elem' : PlainType} (values : Describes isWord false elem.followed elem') :
      Describes isWord true (.map elem) (.map elem')
  | mapObject {elem elem' : PlainType} : Describes isWord true (.ptr elem) (.map elem')
  | mapStruct {name : Option TypeName} {fields : Fields} {elem : PlainType} (optional : requiredNames fields = [])
      (values : ∀ n f t, propertyField fields n = some (f, t) → Describes isWord false t.followed elem) :
      Describes isWord true (.struct name fields) (.map elem)
  | ptr {t elem : PlainType} (target : Describes isWord false t elem) : Describes isWord true t (.ptr elem)
  | single {t : PlainType} {name : Option TypeName} {fields : Fields} (single : allSingle fields = true) :
      Describes isWord true t (.struct name fields)
  | structObject {z : Bool} {elem : PlainType} {name : Option TypeName} {fields : Fields} :
      Describes isWord z (.ptr elem) (.struct name fields)
  | structMap {z : Bool} {elem : PlainType} {name : Option TypeName} {fields : Fields}
      (quoted : ∀ e ∈ typeFields isWord name fields, e.quoted = true →
        elem.followed = .string ∧ (e.type.isBasic = false → e.nonzero z fields = true))
      (values : ∀ e ∈ typeFields isWord name fields, e.quoted = false →
        Describes isWord (e.nonzero z fields) elem.followed e.type) :
      Describes isWord z (.map elem) (.struct name fields)
  | struct {z : Bool} {name name' : Option TypeName} {fields fields' : Fields}
      (required : ∀ r ∈ requiredNames fields, ∃ e ∈ typeFields isWord name' fields', e.name = r ∧
        reaches z fields' e.index = true ∧ e.kept z fields' = true)
      (quoted : ∀ e ∈ typeFields isWord name' fields', ∀ f t, propertyField fields e.name = some (f, t) →
        e.quoted = true → t.followed = .string ∧ (e.type.isBasic = false → e.nonzero z fields' = true))
      (values : ∀ e ∈ typeFields isWord name' fields', ∀ f t, propertyField fields e.name = some (f, t) →
        e.quoted = false → Describes isWord (e.nonzero z fields') t.followed e.type) :
      Describes isWord z (.struct name fields) (.struct name' fields')

section Values

variable {isWord : Char → Bool} {quote : String → String} {z : Bool} {fields : Fields} {xs : List Value} {x : Value}
  {e : EncodedField} {name : Option TypeName} {t elem : PlainType} {m : String × Json}

theorem mem_members : m ∈ (typeFields isWord name fields).filterMap (member isWord quote xs) ↔
    ∃ e ∈ typeFields isWord name fields, ∃ x, walk xs e.index = some x ∧ e.omits x = false ∧
      m = (e.name, e.encoded isWord quote x) := by
  simp only [List.mem_filterMap, member, Option.bind_eq_some_iff, Option.ite_none_left_eq_some,
    Option.some_inj, Bool.not_eq_true, eq_comm (a := m)]

theorem has_slice (has : (PlainType.slice elem).Has x) (nonzero : x.isZero = false) :
    ∃ xs, x = .slice (some xs) ∧ ∀ y ∈ xs, elem.Has y := by
  cases x with
  | slice elements =>
    cases elements with
    | none => cases nonzero
    | some xs =>
      refine ⟨xs, rfl, ?_⟩
      simpa only [Has] using has
  | _ => simp [Has] at has

theorem has_map (has : (PlainType.map elem).Has x) (nonzero : x.isZero = false) :
    ∃ entries, x = .map (some entries) ∧ ∀ entry ∈ entries, elem.Has entry.2 := by
  cases x with
  | map entries =>
    cases entries with
    | none => cases nonzero
    | some entries =>
      refine ⟨entries, rfl, ?_⟩
      simp only [Has] at has
      exact has.2
  | _ => simp [Has] at has

theorem isEmpty_of_isZero (has : t.Has x) (other : t.isStruct = false) (zero : x.isZero = true) : x.isEmpty = true := by
  cases x with
  | struct xs => cases t <;> simp_all [Has, PlainType.isStruct]
  | slice | map => simp_all [Value.isZero, Value.isEmpty]
  | _ => exact zero

theorem isZero_of_isEmpty (has : t.Has x) (other : t.isContainer = false) (empty : x.isEmpty = true) :
    x.isZero = true := by
  cases x with
  | slice | map => cases t <;> simp_all [Has, PlainType.isContainer]
  | struct xs => cases empty
  | _ => exact empty

theorem isEmpty_struct (has : t.Has x) (struct : t.isStruct = true) : x.isEmpty = false := by
  cases t with
  | struct name fields =>
    obtain ⟨xs, rfl, -⟩ := has_struct has
    rfl
  | _ => cases struct

/-- Values of the fields; with `z`, not all of them zero. -/
def Fills (z : Bool) (fields : Fields) (xs : List Value) : Prop :=
  HasFields fields xs ∧ (z = true → Value.allZero xs = false)

theorem nonzero_of_written (located : Located fields e) (fills : Fills z fields xs)
    (found : walk xs e.index = some x) (written : e.omits x = false) (only : e.nonzero z fields = true) :
    x.isZero = false := by
  have value := walk_has located.place fills.1 found
  simp only [omits, Bool.or_eq_false_iff, Bool.and_eq_false_iff] at written
  simp only [EncodedField.nonzero, Bool.or_eq_true, Bool.and_eq_true, Bool.not_eq_true'] at only
  rcases only with (omitZero | ⟨omitEmpty, other⟩) | ⟨given, known⟩
  · exact written.2.resolve_left (by simp [omitZero])
  · have full := written.1.resolve_left (by simp [omitEmpty])
    by_contra zero
    rw [isEmpty_of_isZero value other (Bool.of_not_eq_false zero)] at full
    cases full
  · exact nonzero_of_forced located.place known fills.1 (fills.2 given) found

theorem written_of_kept (located : Located fields e) (fills : Fills z fields xs)
    (found : walk xs e.index = some x) (kept : e.kept z fields = true) : e.omits x = false := by
  have value := walk_has located.place fills.1 found
  have nonzero (known : z = true ∧ forced fields e.index = true) : x.isZero = false :=
    nonzero_of_forced located.place known.2 fills.1 (fills.2 known.1) found
  simp only [EncodedField.kept, Bool.and_eq_true, Bool.or_eq_true, Bool.not_eq_true'] at kept
  obtain ⟨zero, empty⟩ := kept
  simp only [omits, Bool.or_eq_false_iff, Bool.and_eq_false_iff]
  constructor
  · rcases empty with (off | struct) | ⟨known, other⟩
    · exact .inl off
    · exact .inr (isEmpty_struct value struct)
    · right
      by_contra empty
      have zero := isZero_of_isEmpty value other (Bool.of_not_eq_false empty)
      rw [nonzero known] at zero
      cases zero
  · rcases zero with known | off
    · exact .inr (nonzero known)
    · exact .inl off

theorem walk_of_reaches (located : Located fields e) (fills : Fills z fields xs)
    (known : reaches z fields e.index = true) : ∃ x, walk xs e.index = some x := by
  cases z with
  | false => exact walk_of_solid located.place known fills.1
  | true => exact walk_of_reached located.place known fills.1 (fills.2 rfl)

theorem quotedValue_string (quote : String → String) (basic : t.followed.isBasic = true) (has : t.Has x) :
    (∃ s, quotedValue quote x = .string s) ∨ x.isZero = true ∧ t.isBasic = false ∧ quotedValue quote x = .null := by
  have simple {t : PlainType} {x : Value} (basic : t.isBasic = true) (has : t.Has x) :
      (∃ b, x = .bool b) ∨ (∃ n, x = .int n) ∨ ∃ s, x = .string s := by
    cases t <;> cases basic <;> cases x <;> simp_all [Has]
  cases t with
  | ptr elem =>
    rcases has_ptr has with rfl | ⟨y, rfl, has⟩
    · exact .inr ⟨rfl, rfl, rfl⟩
    · rcases simple basic has with ⟨b, rfl⟩ | ⟨n, rfl⟩ | ⟨s, rfl⟩ <;> exact .inl ⟨_, rfl⟩
  | _ => rcases simple basic has with ⟨b, rfl⟩ | ⟨n, rfl⟩ | ⟨s, rfl⟩ <;> exact .inl ⟨_, rfl⟩

theorem encoded_admits (located : Located fields e) (fills : Fills z fields xs) (found : walk xs e.index = some x)
    (written : e.omits x = false)
    (quoted : e.quoted = true → t = .string ∧ (e.type.isBasic = false → e.nonzero z fields = true))
    (plain : e.quoted = false → ∀ y, e.type.Has y → (e.nonzero z fields = true → y.isZero = false) →
      t.Admits (encode isWord quote e.type y)) : t.Admits (e.encoded isWord quote x) := by
  have value := walk_has located.place fills.1 found
  have nonzero := nonzero_of_written located fills found written
  unfold encoded
  cases mode : e.quoted with
  | false => exact plain mode x value nonzero
  | true =>
    obtain ⟨rfl, only⟩ := quoted mode
    rcases quotedValue_string quote (located.basic mode) value with ⟨s, eq⟩ | ⟨zero, other, -⟩
    · rw [if_pos rfl, eq, admits_string]
      rfl
    · rw [nonzero (only other)] at zero
      cases zero

theorem admits_of_describes {t' : PlainType} (describes : Describes isWord z t t') {v : Value} (has : t'.Has v)
    (nonzero : z = true → v.isZero = false) : t.Admits (encode isWord quote t' v) := by
  induction describes generalizing v with
  | bool =>
    cases v with
    | bool b => simp [encode, typeOf]
    | _ => simp [Has] at has
  | int =>
    cases v with
    | int n => simp [encode, typeOf]
    | _ => simp [Has] at has
  | string =>
    cases v with
    | string s => simp [encode, typeOf]
    | _ => simp [Has] at has
  | bytes byte =>
    obtain ⟨xs, rfl, -⟩ := has_slice has (nonzero rfl)
    simp [encode, byte, typeOf]
  | slice other elements ih =>
    obtain ⟨xs, rfl, each⟩ := has_slice has (nonzero rfl)
    simp only [encode, other, Bool.false_eq_true, if_false, admits_slice]
    refine ⟨_, rfl, fun j member => ?_⟩
    obtain ⟨x, place, rfl⟩ := List.mem_map.mp member
    exact ih (each x place) (by simp)
  | map values ih =>
    obtain ⟨entries, rfl, each⟩ := has_map has (nonzero rfl)
    simp only [encode, admits_map]
    refine ⟨_, rfl, fun m member => ?_⟩
    obtain ⟨entry, place, rfl⟩ := List.mem_map.mp ((List.mem_insertionSort _).mp member)
    exact ih (each entry place) (by simp)
  | mapObject =>
    obtain ⟨entries, rfl, -⟩ := has_map has (nonzero rfl)
    simp [encode, typeOf]
  | mapStruct optional values ih =>
    obtain ⟨entries, rfl, each⟩ := has_map has (nonzero rfl)
    simp only [encode, admits_struct, optional]
    refine ⟨_, rfl, by simp, fun m member f t found => ?_⟩
    obtain ⟨entry, place, rfl⟩ := List.mem_map.mp ((List.mem_insertionSort _).mp member)
    exact ih entry.1 f t found (each entry place) (by simp)
  | ptr target ih =>
    rcases has_ptr has with rfl | ⟨y, rfl, has⟩
    · cases nonzero rfl
    · rw [encode]
      exact ih has (by simp)
  | single only =>
    obtain ⟨xs, rfl, has⟩ := has_struct has
    have zero := allZero_of_single _ xs only has
    have differs : Value.allZero xs = false := nonzero rfl
    rw [zero] at differs
    cases differs
  | structObject =>
    obtain ⟨xs, rfl, -⟩ := has_struct has
    rw [encode_struct, admits_ptr]
    rfl
  | structMap quoted values ih =>
    obtain ⟨xs, rfl, has⟩ := has_struct has
    rw [encode_struct, admits_map]
    refine ⟨_, rfl, fun m member => ?_⟩
    obtain ⟨e, listed, x, found, written, rfl⟩ := mem_members.mp member
    exact encoded_admits (located listed) ⟨has, nonzero⟩ found written (quoted e listed)
      fun mode y value => ih e listed mode value
  | struct required quoted values ih =>
    obtain ⟨xs, rfl, has⟩ := has_struct has
    rw [encode_struct, admits_struct]
    refine ⟨_, rfl, fun r member => ?_, fun m member f t described => ?_⟩
    · obtain ⟨e, listed, same, reach, kept⟩ := required r member
      obtain ⟨x, found⟩ := walk_of_reaches (located listed) ⟨has, nonzero⟩ reach
      have written := written_of_kept (located listed) ⟨has, nonzero⟩ found kept
      exact ⟨_, mem_members.mpr ⟨e, listed, x, found, written, rfl⟩, same⟩
    · obtain ⟨e, listed, x, found, written, rfl⟩ := mem_members.mp member
      exact encoded_admits (located listed) ⟨has, nonzero⟩ found written (quoted e listed f t described)
        fun mode y value => ih e listed f t described mode value

theorem exists_value (located : Located fields e) (value : e.type.Has x)
    (possible : (z && forced fields e.index) = false ∨ x.isZero = false) :
    ∃ xs, Fills z fields xs ∧ walk xs e.index = some x := by
  rcases possible with free | nonzero
  · cases z with
    | false =>
      obtain ⟨xs, has, found⟩ := exists_walk located.place value
      exact ⟨xs, ⟨has, by simp⟩, found⟩
    | true =>
      obtain ⟨xs, has, differs, found⟩ := exists_walk_free located.place value free
      exact ⟨xs, ⟨has, fun _ => differs⟩, found⟩
  · obtain ⟨xs, has, found⟩ := exists_walk located.place value
    exact ⟨xs, ⟨has, fun _ => walk_nonzero found nonzero⟩, found⟩

theorem exists_written (located : Located fields e) (value : e.type.Has x)
    (possible : e.nonzero z fields = true → x.isZero = false ∧ x.isEmpty = false) :
    ∃ xs, Fills z fields xs ∧ walk xs e.index = some x ∧ e.omits x = false := by
  cases only : e.nonzero z fields with
  | true =>
    obtain ⟨nonzero, full⟩ := possible only
    obtain ⟨xs, fills, found⟩ := exists_value located value (.inr nonzero)
    exact ⟨xs, fills, found, by simp [omits, nonzero, full]⟩
  | false =>
    simp only [EncodedField.nonzero, Bool.or_eq_false_iff] at only
    obtain ⟨⟨omitZero, omitEmpty⟩, free⟩ := only
    obtain ⟨xs, fills, found⟩ := exists_value located value (.inl free)
    refine ⟨xs, fills, found, ?_⟩
    rw [omits, omitZero, Bool.false_and, Bool.or_false, Bool.and_eq_false_iff]
    refine (Bool.and_eq_false_iff.mp omitEmpty).imp_right fun struct => isEmpty_struct value ?_
    simpa using struct

/-- Every type that accepts the values of this one describes it. -/
def Complete (isWord : Char → Bool) (quote : String → String) (t' : PlainType) : Prop :=
  ∀ z t, (∀ v, t'.Has v → (z = true → v.isZero = false ∧ v.isEmpty = false) →
    PlainType.Admits t (encode isWord quote t' v)) → Describes isWord z t t'

theorem complete_bool : Complete isWord quote .bool := by
  intro z t all
  have admits := all (.bool true) trivial fun _ => ⟨rfl, rfl⟩
  rw [encode] at admits
  rw [eq_bool_of_admits admits]
  exact .bool

theorem complete_int (kind : IntKind) : Complete isWord quote (.int kind) := by
  intro z t all
  have admits := all (.int 1) kind.holds_one fun _ => ⟨rfl, rfl⟩
  rw [encode] at admits
  obtain ⟨kind', rfl⟩ := eq_int_of_admits admits
  exact .int

theorem complete_string : Complete isWord quote .string := by
  intro z t all
  have admits := all (.string "a") trivial fun _ => ⟨by decide, by decide⟩
  rw [encode] at admits
  rw [eq_string_of_admits admits]
  exact .string

theorem complete_of_null {t' : PlainType} {v : Value} (has : t'.Has v) (null : encode isWord quote t' v = .null)
    (rest : ∀ t, (∀ v, t'.Has v → v.isZero = false ∧ v.isEmpty = false →
      PlainType.Admits t (encode isWord quote t' v)) →
      Describes isWord true t t') : Complete isWord quote t' := by
  intro z t all
  cases z with
  | false => exact absurd (null ▸ all v has (by simp)) (not_admits_null t)
  | true => exact rest t fun v has nonzero => all v has fun _ => nonzero

theorem complete_slice (elements : Complete isWord quote elem) : Complete isWord quote (.slice elem) := by
  refine complete_of_null (v := .slice none) trivial (by rw [encode.eq_def]) fun t all => ?_
  have one (x : Value) (value : elem.Has x) := all (.slice (some [x])) (by simpa [Has] using value) ⟨rfl, rfl⟩
  cases byte : elem.isByte with
  | true =>
    have admits := one elem.zero (has_zero elem)
    rw [encode, if_pos byte] at admits
    rw [eq_string_of_admits admits]
    exact .bytes byte
  | false =>
    simp only [encode, byte, Bool.false_eq_true, if_false, List.map_cons, List.map_nil] at one
    obtain ⟨elem', rfl⟩ := eq_slice_of_admits (one elem.zero (has_zero elem))
    refine .slice byte (elements false elem'.followed fun x value _ => ?_)
    obtain ⟨_, ⟨⟩, each⟩ := admits_slice.mp (one x value)
    exact each _ List.mem_cons_self

theorem complete_ptr (target : Complete isWord quote elem) : Complete isWord quote (.ptr elem) := by
  refine complete_of_null (v := .ptr none) trivial (by rw [encode.eq_def]) fun t all => ?_
  refine .ptr (target false t fun x value _ => ?_)
  have admits := all (.ptr (some x)) value ⟨rfl, rfl⟩
  rwa [encode] at admits

theorem complete_map (values : Complete isWord quote elem) : Complete isWord quote (.map elem) := by
  refine complete_of_null (v := .map none) trivial (by rw [encode.eq_def]) fun t all => ?_
  have one (key : String) (x : Value) (value : elem.Has x) :
      t.Admits (.object [(key, encode isWord quote elem x)]) := by
    have admits := all (.map (some [(key, x)])) (by simpa [Has] using value) ⟨rfl, rfl⟩
    simpa [encode] using admits
  rcases object_of_admits (one "" elem.zero (has_zero elem)) with ⟨elem', rfl⟩ | ⟨elem', rfl⟩ | ⟨name, fields, rfl⟩
  · exact .mapObject
  · refine .map (values false elem'.followed fun x value _ => ?_)
    obtain ⟨_, ⟨⟩, each⟩ := admits_map.mp (one "" x value)
    exact each _ List.mem_cons_self
  · refine .mapStruct ?_ fun n f t found => values false t.followed fun x value _ => ?_
    · -- a map need not have any of the keys
      rw [List.eq_nil_iff_forall_not_mem]
      intro r member
      obtain ⟨_, ⟨⟩, required, -⟩ := admits_struct.mp (one (r ++ "a") elem.zero (has_zero elem))
      obtain ⟨m, place, same⟩ := required r member
      rw [List.mem_singleton.mp place] at same
      have length := congrArg String.length same
      simp [String.length_append] at length
    · obtain ⟨_, ⟨⟩, -, each⟩ := admits_struct.mp (one n x value)
      exact each _ List.mem_cons_self f t found

theorem field_described (located : Located fields e) (complete : Complete isWord quote e.type)
    (all : ∀ x, e.type.Has x → (e.nonzero z fields = true → x.isZero = false ∧ x.isEmpty = false) →
      t.Admits (e.encoded isWord quote x)) :
    (e.quoted = true → t = .string ∧ (e.type.isBasic = false → e.nonzero z fields = true)) ∧
      (e.quoted = false → Describes isWord (e.nonzero z fields) t e.type) := by
  constructor
  · intro quoted
    have basic := located.basic quoted
    have several : e.type.single = false := by
      cases h : e.type <;> simp_all [followed, isBasic, PlainType.single]
    simp only [encoded, quoted, if_true] at all
    constructor
    · obtain ⟨x, value, nonzero, full⟩ := exists_nonzero e.type several
      have admits := all x value fun _ => ⟨nonzero, full⟩
      rcases quotedValue_string quote basic value with ⟨s, eq⟩ | ⟨zero, -⟩
      · rw [eq] at admits
        exact eq_string_of_admits admits
      · rw [nonzero] at zero
        cases zero
    · intro other
      by_contra written
      -- the zero value of a pointer is written as null
      have admits := all e.type.zero (has_zero e.type) fun only => absurd only written
      have null : quotedValue quote e.type.zero = .null := by
        cases h : e.type <;> simp_all [followed, isBasic, PlainType.zero, quotedValue]
      rw [null] at admits
      exact not_admits_null t admits
  · intro plain
    simp only [encoded, plain, Bool.false_eq_true, if_false] at all
    exact complete _ _ all

theorem reaches_of_present (located : Located fields e) (several : z = true → allSingle fields = false)
    (present : ∀ xs, Fills z fields xs → ∃ x, walk xs e.index = some x) : reaches z fields e.index = true := by
  by_contra out
  cases z with
  | false =>
    obtain ⟨x, found⟩ := present (zeros fields) ⟨hasFields_zeros fields, by simp⟩
    rw [walk_zeros located.place (Bool.of_not_eq_true out)] at found
    cases found
  | true =>
    obtain ⟨xs, has, differs, missing⟩ := exists_not_reached located.place (Bool.of_not_eq_true out) (several rfl)
    obtain ⟨x, found⟩ := present xs ⟨has, fun _ => differs⟩
    rw [missing] at found
    cases found

theorem kept_of_present (located : Located fields e)
    (present : ∀ xs x, Fills z fields xs → walk xs e.index = some x → e.omits x = false) : e.kept z fields = true := by
  have written {x : Value} (value : e.type.Has x) (possible : (z && forced fields e.index) = false ∨ x.isZero = false) :
      e.omits x = false := by
    obtain ⟨xs, fills, found⟩ := exists_value located value possible
    exact present xs x fills found
  unfold EncodedField.kept
  cases known : (z && forced fields e.index) with
  | false =>
    have zero := written (has_zero e.type) (.inl known)
    simp only [omits, isZero_zero, Bool.and_true, Bool.or_eq_false_iff] at zero
    cases struct : e.type.isStruct with
    | true => simp [zero.2]
    | false =>
      rw [isEmpty_of_isZero (has_zero e.type) struct (isZero_zero e.type), Bool.and_true] at zero
      simp [zero]
  | true =>
    cases container : e.type.isContainer with
    | false => simp
    | true =>
      -- an empty slice or map that is not nil is left out by `omitempty`
      have empty : ∃ x, e.type.Has x ∧ x.isZero = false ∧ x.isEmpty = true := by
        cases h : e.type with
        | slice elem => exact ⟨.slice (some []), by simp [Has], rfl, rfl⟩
        | map elem => exact ⟨.map (some []), by simp [Has], rfl, rfl⟩
        | _ => simp [h, PlainType.isContainer] at container
      obtain ⟨x, value, nonzero, empty⟩ := empty
      have kept := written value (.inr nonzero)
      simp only [omits, empty, nonzero, Bool.and_true, Bool.and_false, Bool.or_false] at kept
      simp [kept]

theorem exists_fields (several : z = true → allSingle fields = false) : ∃ xs, Fills z fields xs := by
  cases z with
  | false => exact ⟨zeros fields, hasFields_zeros fields, by simp⟩
  | true =>
    obtain ⟨xs, has, differs⟩ := exists_nonzero_fields fields (several rfl)
    exact ⟨xs, has, fun _ => differs⟩

theorem required_of_present (several : z = true → allSingle fields = false) {r : String}
    (present : ∀ xs, Fills z fields xs →
      ∃ e ∈ typeFields isWord name fields, e.name = r ∧ ∃ x, walk xs e.index = some x ∧ e.omits x = false) :
    ∃ e ∈ typeFields isWord name fields, e.name = r ∧ reaches z fields e.index = true ∧ e.kept z fields = true := by
  obtain ⟨xs₀, fills₀⟩ := exists_fields several
  obtain ⟨e, listed, same, -⟩ := present xs₀ fills₀
  -- it is the same field in every value, because no two have the same name
  have always (xs : List Value) (fills : Fills z fields xs) : ∃ x, walk xs e.index = some x ∧ e.omits x = false := by
    obtain ⟨e', listed', same', rest⟩ := present xs fills
    cases typeFields_unique listed listed' (same.trans same'.symm)
    exact rest
  refine ⟨e, listed, same, ?_, ?_⟩
  · refine reaches_of_present (located listed) several fun xs fills => ?_
    obtain ⟨x, found, -⟩ := always xs fills
    exact ⟨x, found⟩
  · refine kept_of_present (located listed) fun xs x fills found => ?_
    obtain ⟨x', found', written⟩ := always xs fills
    cases found.symm.trans found'
    exact written

theorem complete_struct (each : ∀ e ∈ typeFields isWord name fields, Complete isWord quote e.type) :
    Complete isWord quote (.struct name fields) := by
  intro z t all
  have object (xs : List Value) (fills : Fills z fields xs) :
      t.Admits (.object ((typeFields isWord name fields).filterMap (member isWord quote xs))) := by
    rw [← encode_struct]
    exact all (.struct xs) fills.1 fun given => ⟨fills.2 given, rfl⟩
  by_cases only : z = true ∧ allSingle fields = true
  · obtain ⟨rfl, single⟩ := only
    exact .single single
  have several : z = true → allSingle fields = false :=
    fun given => Bool.of_not_eq_true fun single => only ⟨given, single⟩
  obtain ⟨xs₀, fills₀⟩ := exists_fields several
  rcases object_of_admits (object xs₀ fills₀) with ⟨elem, rfl⟩ | ⟨elem, rfl⟩ | ⟨name', fields', rfl⟩
  · exact .structObject
  · have described (e : EncodedField) (listed : e ∈ typeFields isWord name fields) :=
      field_described (z := z) (t := elem.followed) (located listed) (each e listed) fun x value possible => by
        obtain ⟨xs, fills, found, written⟩ := exists_written (located listed) value possible
        obtain ⟨_, ⟨⟩, members⟩ := admits_map.mp (object xs fills)
        exact members _ (mem_members.mpr ⟨e, listed, x, found, written, rfl⟩)
    exact .structMap (fun e listed => (described e listed).1) fun e listed => (described e listed).2
  · have described (e : EncodedField) (listed : e ∈ typeFields isWord name fields) (f : FieldInfo) (t : PlainType)
        (property : propertyField fields' e.name = some (f, t)) :=
      field_described (z := z) (t := t.followed) (located listed) (each e listed) fun x value possible => by
        obtain ⟨xs, fills, found, written⟩ := exists_written (located listed) value possible
        obtain ⟨_, ⟨⟩, -, members⟩ := admits_struct.mp (object xs fills)
        exact members _ (mem_members.mpr ⟨e, listed, x, found, written, rfl⟩) f t property
    refine .struct (fun r member => ?_) (fun e listed f t property => (described e listed f t property).1)
      fun e listed f t property => (described e listed f t property).2
    refine required_of_present several fun xs fills => ?_
    obtain ⟨_, ⟨⟩, required, -⟩ := admits_struct.mp (object xs fills)
    obtain ⟨m, place, same⟩ := required r member
    obtain ⟨e, listed, x, found, written, rfl⟩ := mem_members.mp place
    exact ⟨e, listed, same, x, found, written⟩

theorem sizeOf_place {index : List Nat} (place : Place fields index t) : sizeOf t < sizeOf fields := by
  induction place with
  | here at' =>
    have inside := List.sizeOf_lt_of_mem (List.mem_of_getElem? at')
    simp only [Prod.mk.sizeOf_spec] at inside
    omega
  | inside at' struct deeper ih =>
    have inside := List.sizeOf_lt_of_mem (List.mem_of_getElem? at')
    rcases followed_eq_struct struct with rfl | rfl
    · simp only [Prod.mk.sizeOf_spec, PlainType.struct.sizeOf_spec] at inside
      omega
    · simp only [Prod.mk.sizeOf_spec, PlainType.ptr.sizeOf_spec, PlainType.struct.sizeOf_spec] at inside
      omega

theorem complete (t : PlainType) : Complete isWord quote t := by
  induction size : sizeOf t using Nat.strong_induction_on generalizing t with
  | _ n ih =>
    subst size
    cases t with
    | bool => exact complete_bool
    | int kind => exact complete_int kind
    | string => exact complete_string
    | slice elem => exact complete_slice (ih _ (by simp) elem rfl)
    | map elem => exact complete_map (ih _ (by simp) elem rfl)
    | ptr elem => exact complete_ptr (ih _ (by simp) elem rfl)
    | struct name fields =>
      refine complete_struct fun e listed => ih _ ?_ e.type rfl
      have less := sizeOf_place (located listed).place
      simp only [PlainType.struct.sizeOf_spec]
      omega

end Values

theorem generated_schema_sound_iff (isWord : Char → Bool) (quote : String → String) (t : PlainType) :
    (∃ schema, generateSchemaForType true t.goType = some schema ∧
        ∀ v, t.Has v → schema.Accepts (encode isWord quote t v)) ↔
      Describes isWord false t.followed t := by
  obtain ⟨schema, made, admits⟩ := exists_followed t
  simp only [made, Option.some.injEq, exists_eq_left', ← admits]
  constructor
  · intro all
    exact complete t false t.followed fun v has _ => all v has
  · intro describes v has
    exact admits_of_describes describes has (by simp)

def tagsFields : Fields := [({ name := "Tags" }, .slice .string)]

def itemFields : Fields :=
  [({ name := "Base", anonymous := true },
    .struct (some ⟨"example.com/shop", "shop", "Base", 0⟩) [({ name := "ID" }, .string)])]

theorem generated_schema_unsound :
    (∃ schema, generateSchemaForType true (PlainType.struct none tagsFields).goType = some schema ∧
      HasFields tagsFields [.slice none] ∧
      ¬ schema.Accepts (encode Char.isAlphanum id (.struct none tagsFields) (.struct [.slice none]))) ∧
    ∃ schema, generateSchemaForType true (PlainType.struct none itemFields).goType = some schema ∧
      HasFields itemFields [.struct [.string "7"]] ∧
      ¬ schema.Accepts (encode Char.isAlphanum id (.struct none itemFields) (.struct [.struct [.string "7"]])) := by
  have tags : typeFields Char.isAlphanum none tagsFields =
      [⟨"Tags", false, [0], .slice .string, false, false, false⟩] := by rfl
  have item : typeFields Char.isAlphanum none itemFields =
      [⟨"ID", false, [0, 0], .string, false, false, false⟩] := by rfl
  constructor
  · refine ⟨.record [("Tags", .array (.simple "string"))] ["Tags"], by rfl, by simp [tagsFields, HasFields, Has], ?_⟩
    rw [encode_struct, tags]
    simp [member, walk, omits, encoded, encode, Schema.Accepts, AcceptsProperties]
  · refine ⟨.record [("Base", .record [("ID", .simple "string")] ["ID"])] ["Base"], by rfl,
      by simp [itemFields, HasFields, Has], ?_⟩
    rw [encode_struct, item]
    simp [member, walk, omits, encoded, encode, Schema.Accepts]

end Mcp.Schemas
