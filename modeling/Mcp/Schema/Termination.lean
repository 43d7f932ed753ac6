import Mcp.Schema.Generate
import Mathlib.Data.Set.Finite.Basic
import Mathlib.Order.WellFounded

namespace Mcp.Schemas

inductive TypeKind (τ : Type) where
  | bool
  | int (kind : IntKind)
  | float (kind : FloatKind)
  | string
  | array (length : Nat) (elem : τ)
  | slice (elem : τ)
  | map (key elem : τ)
  | ptr (elem : τ)
  | struct (fields : List (FieldInfo × τ))
  | interface (text : String)
  | other (text : String)

def TypeKind.assemble {τ : Type} (tree : τ → GoType) : TypeKind τ → GoType
  | .bool => .bool
  | .int kind => .int kind
  | .float kind => .float kind
  | .string => .string
  | .array length elem => .array length (tree elem)
  | .slice elem => .slice (tree elem)
  | .map key elem => .map (tree key) (tree elem)
  | .ptr elem => .ptr (tree elem)
  | .struct fields => .struct (fields.map fun (f, t) => (f, tree t))
  | .interface text => .interface text
  | .other text => .other text

structure TypeTable (τ : Type) where
  kind : τ → TypeKind τ
  name : τ → Option TypeName

namespace TypeTable

variable {τ : Type} (table : TypeTable τ)

def unfold : Nat → τ → GoType
  | 0, _ => .recursive ⟨"", "", "", 0⟩
  | depth + 1, t =>
    let underlying := (table.kind t).assemble (unfold depth)
    match table.name t with
    | some name => .named name underlying
    | none => underlying

def isInterface (t : τ) : Prop := ∃ text, table.kind t = .interface text

def parts : TypeKind τ → List τ
  | .array _ elem => [elem]
  | .slice elem => [elem]
  | .map _ elem => [elem]
  | .struct fields => (fields.filter fun (f, _) => f.property.isSome).map Prod.snd
  | _ => []

def followed (t : τ) : τ :=
  match table.kind t with
  | .ptr elem => elem
  | _ => t

def Uses (t u : τ) : Prop := u ∈ parts (table.kind (table.followed t))

def Returns (depth : Nat) (deref : Bool) (t : τ) : Prop :=
  (generateSchemaForType deref (table.unfold depth t)).isSome = true

variable {table} {depth : Nat} {deref : Bool} {t u : τ}

theorem not_returns_zero : ¬ table.Returns 0 deref t := by
  simp [Returns, unfold, generateSchemaForType]

theorem generateStructSchema_isSome {fields : List (FieldInfo × GoType)} {properties : List (String × Schema)}
    {required : List String} : (generateStructSchema fields properties required).isSome = true ↔
      ∀ field ∈ fields, field.1.property.isSome = true → (generateSchemaForType true field.2).isSome = true := by
  induction fields generalizing properties required with
  | nil => simp [generateStructSchema]
  | cons field rest ih =>
    obtain ⟨f, t⟩ := field
    rw [generateStructSchema, List.forall_mem_cons]
    cases f.property with
    | none => simp [ih]
    | some property =>
      obtain ⟨name, isRequired⟩ := property
      cases generateSchemaForType true t with
      | none => simp
      | some s => simp [ih]

theorem returns_succ_iff : table.Returns (depth + 1) deref t ↔
      (generateSchemaForType deref ((table.kind t).assemble (table.unfold depth))).isSome = true := by
  unfold Returns TypeTable.unfold
  cases table.name t <;> rfl

variable {elem : τ}

theorem returns_ptr (kind : table.kind t = .ptr elem) :
    table.Returns (depth + 1) deref t ↔ (deref = true → table.Returns depth false elem) := by
  rw [returns_succ_iff, kind, TypeKind.assemble, generateSchemaForType]
  cases deref <;> simp [Returns]

theorem returns_parts (kind : ∀ elem, table.kind t ≠ .ptr elem) :
    table.Returns (depth + 1) deref t ↔ ∀ u ∈ parts (table.kind t), table.Returns depth true u := by
  rw [returns_succ_iff]
  cases found : table.kind t with
  | ptr elem => exact absurd found (kind elem)
  | struct fields =>
    rw [TypeKind.assemble, generateSchemaForType, generateStructSchema_isSome]
    simp only [parts, List.forall_mem_map, List.mem_filter, and_imp]
    exact Iff.rfl
  | _ => simp [TypeKind.assemble, generateSchemaForType, parts, Returns]

theorem Returns.mono (returns : table.Returns depth deref t) : table.Returns (depth + 1) deref t := by
  induction depth generalizing deref t with
  | zero => exact absurd returns not_returns_zero
  | succ depth ih =>
    by_cases kind : ∃ elem, table.kind t = .ptr elem
    · obtain ⟨elem, kind⟩ := kind
      exact (returns_ptr kind).mpr fun set => ih ((returns_ptr kind).mp returns set)
    · have kind := not_exists.mp kind
      exact (returns_parts kind).mpr fun u member => ih ((returns_parts kind).mp returns u member)

theorem Returns.le {deeper : Nat} (returns : table.Returns depth deref t) (order : depth ≤ deeper) :
    table.Returns deeper deref t := by
  induction order with
  | refl => exact returns
  | step _ ih => exact ih.mono

theorem followed_of_ptr (kind : table.kind t = .ptr elem) : table.followed t = elem := by
  simp [followed, kind]

theorem followed_of_not_ptr (kind : ∀ elem, table.kind t ≠ .ptr elem) : table.followed t = t := by
  unfold followed
  split
  · exact absurd (by assumption) (kind _)
  · rfl

theorem returns_of_uses (each : ∀ u, table.Uses t u → table.Returns depth true u) :
    table.Returns (depth + 2) true t := by
  by_cases kind : ∃ elem, table.kind t = .ptr elem
  · obtain ⟨elem, kind⟩ := kind
    rw [returns_ptr kind]
    intro _
    simp only [Uses, followed_of_ptr kind] at each
    by_cases kind' : ∃ inner, table.kind elem = .ptr inner
    · obtain ⟨inner, kind'⟩ := kind'
      exact (returns_ptr kind').mpr (by simp)
    · exact (returns_parts (not_exists.mp kind')).mpr each
  · have kind := not_exists.mp kind
    simp only [Uses, followed_of_not_ptr kind] at each
    exact (returns_parts kind).mpr fun u member => (each u member).mono

theorem Returns.uses (returns : table.Returns depth true t) (uses : table.Uses t u) :
    ∃ less < depth, table.Returns less true u := by
  cases depth with
  | zero => exact absurd returns not_returns_zero
  | succ depth =>
    by_cases kind : ∃ elem, table.kind t = .ptr elem
    · obtain ⟨elem, kind⟩ := kind
      have inner := (returns_ptr kind).mp returns rfl
      rw [Uses, followed_of_ptr kind] at uses
      cases depth with
      | zero => exact absurd inner not_returns_zero
      | succ depth =>
        by_cases kind' : ∃ inner, table.kind elem = .ptr inner
        · obtain ⟨inner, kind'⟩ := kind'
          rw [kind'] at uses
          cases uses
        · exact ⟨depth, by omega, (returns_parts (not_exists.mp kind')).mp inner u uses⟩
    · have kind := not_exists.mp kind
      rw [Uses, followed_of_not_ptr kind] at uses
      exact ⟨depth, Nat.lt_succ_self depth, (returns_parts kind).mp returns u uses⟩

theorem Returns.reaches (returns : table.Returns depth true t) (reaches : Relation.TransGen table.Uses t u) :
    ∃ less < depth, table.Returns less true u := by
  induction reaches with
  | single uses => exact returns.uses uses
  | tail _ uses ih =>
    obtain ⟨less, order, returns'⟩ := ih
    obtain ⟨less', order', returns''⟩ := returns'.uses uses
    exact ⟨less', order'.trans order, returns''⟩

theorem not_returns_of_cycle (cycle : Relation.TransGen table.Uses t t) : ¬ table.Returns depth true t := by
  intro returns
  induction depth using Nat.strong_induction_on with
  | _ depth ih =>
    obtain ⟨less, order, returns'⟩ := returns.reaches cycle
    exact ih less order returns'

theorem exists_returns_all {types : List τ} (each : ∀ u ∈ types, ∃ depth, table.Returns depth true u) :
    ∃ depth, ∀ u ∈ types, table.Returns depth true u := by
  induction types with
  | nil => exact ⟨0, nofun⟩
  | cons u rest ih =>
    obtain ⟨⟨own, returns⟩, others⟩ := List.forall_mem_cons.mp each
    obtain ⟨depth, every⟩ := ih others
    refine ⟨max own depth, List.forall_mem_cons.mpr ⟨returns.le (Nat.le_max_left _ _), ?_⟩⟩
    exact fun v member => (every v member).le (Nat.le_max_right _ _)

theorem exists_returns [Finite τ]
    (acyclic : ∀ u, Relation.ReflTransGen table.Uses t u → ¬ Relation.TransGen table.Uses u u) :
    ∃ depth, table.Returns depth true t := by
  let Below (u v : { u // Relation.ReflTransGen table.Uses t u }) : Prop := Relation.TransGen table.Uses v.1 u.1
  have trans : IsTrans _ Below := ⟨fun _ _ _ first second => second.trans first⟩
  have irrefl : Std.Irrefl Below := ⟨fun u cycle => acyclic u.1 u.2 cycle⟩
  have wellFounded : WellFounded Below := Finite.wellFounded_of_trans_of_irrefl Below
  have all : ∀ u : { u // Relation.ReflTransGen table.Uses t u }, ∃ depth, table.Returns depth true u.1 := by
    intro u
    induction u using wellFounded.induction with
    | _ u ih =>
      obtain ⟨depth, every⟩ := exists_returns_all fun v (member : v ∈ parts (table.kind (table.followed u.1))) =>
        ih ⟨v, u.2.tail member⟩ (.single member)
      exact ⟨depth + 2, returns_of_uses every⟩
  exact all ⟨t, .refl⟩

theorem isInterface_unfold : (table.unfold (depth + 1) t).isInterface = true ↔ table.isInterface t := by
  have underlying : ((table.kind t).assemble (table.unfold depth)).isInterface = true ↔ table.isInterface t := by
    unfold isInterface
    cases table.kind t <;> simp [TypeKind.assemble, GoType.isInterface]
  rw [← underlying]
  unfold TypeTable.unfold
  cases table.name t <;> rfl

theorem generateJSONSchemaReflection_eq_none (diverges : ¬ table.Returns depth true t) :
    generateJSONSchemaReflection (table.unfold depth t) = none := by
  rw [generateJSONSchemaReflection, Option.not_isSome_iff_eq_none.mp diverges]
  exact ite_self none

theorem schema_generation_returns_iff {τ : Type} [Finite τ] (table : TypeTable τ) (t : τ) :
    (∃ depth schema, generateJSONSchemaReflection (table.unfold depth t) = some schema) ↔
      ¬ table.isInterface t ∧
        ∀ u, Relation.ReflTransGen table.Uses t u → ¬ Relation.TransGen table.Uses u u := by
  constructor
  · rintro ⟨depth, schema, result⟩
    unfold generateJSONSchemaReflection at result
    split_ifs at result with interface
    have returns : table.Returns depth true t := by
      obtain ⟨s, generated, -⟩ := Option.map_eq_some_iff.mp result
      exact Option.isSome_iff_exists.mpr ⟨s, generated⟩
    constructor
    · cases depth with
      | zero => exact absurd returns not_returns_zero
      | succ depth => rwa [isInterface_unfold] at interface
    · intro u reaches cycle
      rcases Relation.reflTransGen_iff_eq_or_transGen.mp reaches with rfl | reaches
      · exact not_returns_of_cycle cycle returns
      · obtain ⟨less, -, returns'⟩ := returns.reaches reaches
        exact not_returns_of_cycle cycle returns'
  · rintro ⟨interface, acyclic⟩
    obtain ⟨depth, returns⟩ := exists_returns acyclic
    obtain ⟨s, generated⟩ := Option.isSome_iff_exists.mp returns.mono
    refine ⟨depth + 1, s.marshal, ?_⟩
    rw [generateJSONSchemaReflection, if_neg (mt isInterface_unfold.mp interface), generated]
    rfl

def plainTable : TypeTable (Fin 4) where
  kind t := [.struct [({ name := "Name" }, 1), ({ name := "Tags" }, 2)], .string, .map 1 3, .ptr 1][t.val]
  name _ := none

theorem schema_generation_returns_plain :
    ∃ depth schema, generateJSONSchemaReflection (plainTable.unfold depth 0) = some schema := by
  have uses : ∀ t u : Fin 4, u ∈ parts (plainTable.kind (plainTable.followed t)) → t < u := by decide
  have reaches (t u : Fin 4) (path : Relation.TransGen plainTable.Uses t u) : t < u := by
    induction path with
    | single step => exact uses _ _ step
    | tail _ step ih => exact ih.trans (uses _ _ step)
  refine (schema_generation_returns_iff plainTable 0).mpr ⟨?_, fun u _ cycle => lt_irrefl u (reaches u u cycle)⟩
  rintro ⟨text, ⟨⟩⟩

def nodeTable : TypeTable (Fin 3) where
  kind t := [.struct [({ name := "Next" }, 1)], .ptr 0, .interface "interface \x7b\x7d"][t.val]
  name t := if t = 0 then some ⟨"example.com/list", "list", "Node", 0⟩ else none

theorem schema_generation_diverges :
    (∀ depth, generateJSONSchemaReflection (nodeTable.unfold depth 0) = none) ∧
      ∀ depth, generateJSONSchemaReflection (nodeTable.unfold depth 2) = none := by
  have next : nodeTable.Uses 0 1 := List.mem_singleton.mpr rfl
  have cycle : nodeTable.Uses 1 1 := List.mem_singleton.mpr rfl
  constructor
  · refine fun depth => generateJSONSchemaReflection_eq_none fun returns => ?_
    obtain ⟨less, -, returns'⟩ := returns.uses next
    exact not_returns_of_cycle (.single cycle) returns'
  · intro depth
    cases depth with
    | zero => exact generateJSONSchemaReflection_eq_none not_returns_zero
    | succ depth => exact if_pos (isInterface_unfold.mpr ⟨_, rfl⟩)

end TypeTable

end Mcp.Schemas
