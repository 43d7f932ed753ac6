import Mcp.JsonText
import Mathlib.Data.List.Induction

namespace Mcp.Spy
open Mcp.Lib Entries

inductive SchemaType where
  | array
  | boolean
  | integer
  | null
  | number
  | object
  | string
  deriving DecidableEq

def SchemaType.name : SchemaType → String
  | .array => "array"
  | .boolean => "boolean"
  | .integer => "integer"
  | .null => "null"
  | .number => "number"
  | .object => "object"
  | .string => "string"

structure SchemaNode where
  observations : Nat := 0
  types : SchemaType → Bool := fun _ => false
  properties : List (String × SchemaNode) := []
  propSeen : String → Nat := fun _ => 0
  items : Option SchemaNode := none

def newSchemaNode : SchemaNode := {}

namespace SchemaNode

def see (t : SchemaType) (n : SchemaNode) : SchemaNode :=
  { n with observations := n.observations + 1, types := Function.update n.types t true }

mutual

def observe : Any → SchemaNode → SchemaNode
  | .nil, n => n.see .null
  | .bool _, n => n.see .boolean
  | .string _, n => n.see .string
  | .float64 q, n => n.see (if q.den = 1 then .integer else .number)
  | .slice elements, n =>
    if elements.isEmpty then n.see .array
    else { n.see .array with items := some (observeItems elements (n.items.getD newSchemaNode)) }
  | .object entries, n => observeProperties entries (n.see .object)

def observeItems : List Any → SchemaNode → SchemaNode
  | [], n => n
  | item :: rest, n => observeItems rest (observe item n)

def observeProperties : List (String × Any) → SchemaNode → SchemaNode
  | [], n => n
  | (key, item) :: rest, n =>
    observeProperties rest
      { n with
        propSeen := Function.update n.propSeen key (n.propSeen key + 1)
        properties := upsert key (fun child => observe item (child.getD newSchemaNode)) n.properties }

end

def observeAll (values : List Any) : SchemaNode := values.foldl (fun n value => n.observe value) newSchemaNode

def schemaTypes (types : SchemaType → Bool) : List SchemaType :=
  [.array, .boolean, .integer, .null, .number, .object, .string].filter fun t =>
    !(t = .integer && types .number) && types t

def typeKeyword : List SchemaType → Option Json
  | [] => none
  | [t] => some (.string t.name)
  | ts => some (.array (ts.map fun t => .string t.name))

def requiredKeyword : List String → Option Json
  | [] => none
  | names => some (.array (names.map .string))

def required (n : SchemaNode) : List String :=
  (keys n.properties).filter fun key => n.propSeen key = n.observations

def keywordMember (name : String) (argument : Option Json) : List (String × Json) :=
  (argument.map (name, ·)).toList

mutual

def value : SchemaNode → Json
  | ⟨observations, types, properties, propSeen, items⟩ =>
    .object <|
      keywordMember "items" (if types .array then itemsKeyword items else none) ++
      keywordMember "properties" (if types .object then propertiesKeyword properties else none) ++
      keywordMember "required" (if types .object then
        requiredKeyword ((keys properties).filter fun key => propSeen key = observations) else none) ++
      keywordMember "type" (typeKeyword (schemaTypes types))

def itemsKeyword : Option SchemaNode → Option Json
  | none => none
  | some items => some items.value

def propertiesKeyword : List (String × SchemaNode) → Option Json
  | [] => none
  | (key, child) :: rest => some (.object ((key, child.value) :: propertyValues rest))

def propertyValues : List (String × SchemaNode) → List (String × Json)
  | [] => []
  | (key, child) :: rest => (key, child.value) :: propertyValues rest

end

end SchemaNode

open SchemaNode

def schemaType : Any → SchemaType
  | .nil => .null
  | .bool _ => .boolean
  | .float64 q => if q.den = 1 then .integer else .number
  | .string _ => .string
  | .slice _ => .array
  | .object _ => .object

def member (key : String) : Any → Option Any
  | .object entries => entries.lookup key
  | _ => none

def elements : Any → List Any
  | .slice elements => elements
  | _ => []

def membersOf (key : String) (values : List Any) : List Any := values.filterMap (member key)

def elementsOf (values : List Any) : List Any := values.flatMap elements

/-- The node is in the state that the values, observed in this order, put it in. -/
inductive Describes : SchemaNode → List Any → Prop
  | mk {n : SchemaNode} {values : List Any} (observations : n.observations = values.length)
      (types : ∀ t, n.types t = true ↔ ∃ v ∈ values, schemaType v = t)
      (propSeen : ∀ key, n.propSeen key = (membersOf key values).length)
      (sorted : Sorted n.properties)
      (present : ∀ key, key ∈ keys n.properties ↔ membersOf key values ≠ [])
      (properties : ∀ key child, n.properties.lookup key = some child → Describes child (membersOf key values))
      (some_items : n.items.isSome ↔ elementsOf values ≠ [])
      (items : ∀ child, n.items = some child → Describes child (elementsOf values)) : Describes n values

section Observing

variable {n : SchemaNode} {values : List Any} {key k : String} {v item : Any} {pre : List (String × Any)}

theorem membersOf_concat (key : String) (values : List Any) (v : Any) :
    membersOf key (values ++ [v]) = membersOf key values ++ (member key v).toList := by
  simp only [membersOf, List.filterMap_append, List.filterMap_cons, List.filterMap_nil]
  cases member key v <;> rfl

theorem elementsOf_concat (values : List Any) (v : Any) :
    elementsOf (values ++ [v]) = elementsOf values ++ elements v := by
  simp [elementsOf]

theorem lookup_concat_self (absent : key ∉ keys pre) : (pre ++ [(key, item)]).lookup key = some item := by
  have missing : pre.lookup key = none := by
    rw [← Option.not_isSome_iff_eq_none, lookup_isSome_iff]
    exact absent
  simp [List.lookup_append, missing]

theorem lookup_concat_of_ne (other : k ≠ key) : (pre ++ [(key, item)]).lookup k = pre.lookup k := by
  simp [List.lookup_append, List.lookup_cons, beq_eq_false_iff_ne.mpr other]

theorem describes_new : Describes newSchemaNode [] := by
  refine .mk rfl ?_ (fun key => rfl) List.Pairwise.nil ?_ ?_ ?_ ?_
  · simp [newSchemaNode]
  · simp [newSchemaNode, membersOf, keys]
  · simp [newSchemaNode]
  · simp [newSchemaNode, elementsOf]
  · simp [newSchemaNode]

theorem Describes.membersOf_eq_nil (described : Describes n values)
    (missing : n.properties.lookup key = none) : membersOf key values = [] := by
  obtain ⟨-, -, -, -, present, -, -, -⟩ := described
  by_contra used
  have stored := lookup_isSome_iff.mpr ((present key).mpr used)
  rw [missing] at stored
  cases stored

theorem Describes.elementsOf_eq_nil (described : Describes n values) (missing : n.items = none) :
    elementsOf values = [] := by
  obtain ⟨-, -, -, -, -, -, some_items, -⟩ := described
  by_contra used
  have stored := some_items.mpr used
  rw [missing] at stored
  cases stored

theorem Describes.child (described : Describes n values) (key : String) :
    Describes ((n.properties.lookup key).getD newSchemaNode) (membersOf key values) := by
  cases found : n.properties.lookup key with
  | some child =>
    obtain ⟨-, -, -, -, -, properties, -, -⟩ := described
    exact properties key child found
  | none =>
    rw [described.membersOf_eq_nil found]
    exact describes_new

theorem Describes.itemsNode (described : Describes n values) :
    Describes (n.items.getD newSchemaNode) (elementsOf values) := by
  cases found : n.items with
  | some child =>
    obtain ⟨-, -, -, -, -, -, -, items⟩ := described
    exact items child found
  | none =>
    rw [described.elementsOf_eq_nil found]
    exact describes_new

theorem Describes.see (described : Describes n values) (v : Any) (plain : ∀ key, member key v = none)
    (bare : elements v = []) : Describes (n.see (schemaType v)) (values ++ [v]) := by
  obtain ⟨observations, types, propSeen, sorted, present, properties, some_items, items⟩ := described
  have same (key : String) : membersOf key (values ++ [v]) = membersOf key values := by
    rw [membersOf_concat, plain, Option.toList_none, List.append_nil]
  have same' : elementsOf (values ++ [v]) = elementsOf values := by
    rw [elementsOf_concat, bare, List.append_nil]
  refine .mk ?_ ?_ ?_ sorted ?_ ?_ ?_ ?_
  · simp [SchemaNode.see, observations]
  · intro t
    by_cases this : t = schemaType v
    · subst this
      simp [SchemaNode.see]
    · simp [SchemaNode.see, this, types, Ne.symm this]
  · simp only [same]
    exact propSeen
  · simp only [same]
    exact present
  · simp only [same]
    exact properties
  · rw [same']
    exact some_items
  · rw [same']
    exact items

theorem Describes.seeItems (described : Describes n values) {es : List Any} (nonempty : es ≠ [])
    {child : SchemaNode} (items : Describes child (elementsOf values ++ es)) :
    Describes { n.see .array with items := some child } (values ++ [.slice es]) := by
  have seen : Describes (n.see .array) (values ++ [.slice []]) := described.see (.slice []) (fun _ => rfl) rfl
  obtain ⟨observations, types, propSeen, sorted, present, properties, -, -⟩ := seen
  have same (key : String) : membersOf key (values ++ [.slice es]) = membersOf key (values ++ [.slice []]) := by
    rw [membersOf_concat, membersOf_concat]
    rfl
  have elements : elementsOf (values ++ [.slice es]) = elementsOf values ++ es := elementsOf_concat values _
  refine .mk ?_ ?_ ?_ sorted ?_ ?_ ?_ ?_
  · simpa using observations
  · simpa [schemaType] using types
  · simp only [same]
    exact propSeen
  · simp only [same]
    exact present
  · simp only [same]
    exact properties
  · simp [elements, nonempty]
  · rintro c ⟨⟩
    rw [elements]
    exact items

theorem Describes.seeEntry (described : Describes n (values ++ [.object pre])) (absent : key ∉ keys pre)
    {child : SchemaNode → SchemaNode}
    (observed : ∀ {m : SchemaNode} {ws : List Any}, Describes m ws → Describes (child m) (ws ++ [item])) :
    Describes { n with
        propSeen := Function.update n.propSeen key (n.propSeen key + 1)
        properties := upsert key (fun old => child (old.getD newSchemaNode)) n.properties }
      (values ++ [.object (pre ++ [(key, item)])]) := by
  have grown := observed (described.child key)
  obtain ⟨observations, types, propSeen, sorted, present, properties, some_items, items⟩ := described
  have missing : member key (.object pre) = none := by
    rw [← Option.not_isSome_iff_eq_none]
    exact fun found => absent (lookup_isSome_iff.mp found)
  have here : membersOf key (values ++ [.object (pre ++ [(key, item)])]) =
      membersOf key (values ++ [.object pre]) ++ [item] := by
    have found : member key (.object (pre ++ [(key, item)])) = some item := lookup_concat_self absent
    rw [membersOf_concat, membersOf_concat, found, missing, Option.toList_none, List.append_nil]
    rfl
  have elsewhere (k : String) (other : k ≠ key) : membersOf k (values ++ [.object (pre ++ [(key, item)])]) =
      membersOf k (values ++ [.object pre]) := by
    have same : member k (.object (pre ++ [(key, item)])) = member k (.object pre) := lookup_concat_of_ne other
    rw [membersOf_concat, membersOf_concat, same]
  have elements : elementsOf (values ++ [.object (pre ++ [(key, item)])]) = elementsOf (values ++ [.object pre]) := by
    rw [elementsOf_concat, elementsOf_concat]
    rfl
  refine .mk ?_ ?_ ?_ (sorted_upsert sorted) ?_ ?_ ?_ ?_
  · simpa using observations
  · simpa [schemaType] using types
  · intro k
    by_cases same : k = key
    · subst same
      simp [here, propSeen]
    · simp [same, elsewhere k same, propSeen]
  · intro k
    by_cases same : k = key
    · subst same
      simp [mem_keys_upsert, here]
    · simp only [mem_keys_upsert, same, false_or, elsewhere k same]
      exact present k
  · intro k c found
    by_cases same : k = key
    · subst same
      rw [lookup_upsert_self sorted] at found
      rw [here, ← Option.some.inj found]
      exact grown
    · rw [lookup_upsert_of_ne same] at found
      rw [elsewhere k same]
      exact properties k c found
  · rw [elements]
    exact some_items
  · rw [elements]
    exact items

mutual

def Distinct : Any → Prop
  | .slice elements => DistinctElements elements
  | .object entries => (keys entries).Nodup ∧ DistinctEntries entries
  | _ => True

def DistinctElements : List Any → Prop
  | [] => True
  | element :: rest => Distinct element ∧ DistinctElements rest

def DistinctEntries : List (String × Any) → Prop
  | [] => True
  | (_, value) :: rest => Distinct value ∧ DistinctEntries rest

end

mutual

theorem describes_observe : (v : Any) → Distinct v → {n : SchemaNode} → {values : List Any} →
    Describes n values → Describes (n.observe v) (values ++ [v])
  | .nil, _, _, _, described => described.see .nil (fun _ => rfl) rfl
  | .bool b, _, _, _, described => described.see (.bool b) (fun _ => rfl) rfl
  | .string s, _, _, _, described => described.see (.string s) (fun _ => rfl) rfl
  | .float64 q, _, _, _, described => described.see (.float64 q) (fun _ => rfl) rfl
  | .slice [], _, _, _, described => described.see (.slice []) (fun _ => rfl) rfl
  | .slice (element :: rest), distinct, _, _, described =>
    described.seeItems (List.cons_ne_nil element rest)
      (describes_observeItems (element :: rest) distinct described.itemsNode)
  | .object entries, distinct, _, _, described =>
    describes_observeProperties entries [] distinct.2 distinct.1 (described.see (.object []) (fun _ => rfl) rfl)

theorem describes_observeItems : (items : List Any) → DistinctElements items → {n : SchemaNode} →
    {values : List Any} → Describes n values → Describes (n.observeItems items) (values ++ items)
  | [], _, _, values, described => by
      rw [List.append_nil]
      exact described
  | item :: rest, distinct, _, values, described => by
      have later := describes_observeItems rest distinct.2 (describes_observe item distinct.1 described)
      rwa [List.append_assoc, List.singleton_append] at later

theorem describes_observeProperties : (entries pre : List (String × Any)) → DistinctEntries entries →
    (keys (pre ++ entries)).Nodup → {n : SchemaNode} → {values : List Any} →
    Describes n (values ++ [.object pre]) →
    Describes (n.observeProperties entries) (values ++ [.object (pre ++ entries)])
  | [], pre, _, _, _, _, described => by
      rw [List.append_nil]
      exact described
  | (key, item) :: rest, pre, distinct, nodup, _, values, described => by
      have absent : key ∉ keys pre := by
        intro member
        rw [keys, List.map_append, List.map_cons, List.nodup_append] at nodup
        exact nodup.2.2 key member key List.mem_cons_self rfl
      have next := described.seeEntry absent (describes_observe item distinct.1)
      have later := describes_observeProperties rest (pre ++ [(key, item)]) distinct.2 (by simpa using nodup) next
      rwa [List.append_assoc, List.singleton_append] at later

end

theorem describes_observeAll (distinct : ∀ v ∈ values, Distinct v) : Describes (observeAll values) values := by
  induction values using List.reverseRecOn with
  | nil => exact describes_new
  | append_singleton values v ih =>
    rw [observeAll, List.foldl_append]
    exact describes_observe v (distinct v (by simp)) (ih fun w member => distinct w (by simp [member]))

end Observing

def HasType (name : String) (v : Any) : Prop :=
  name = (schemaType v).name ∨ name = "number" ∧ schemaType v = .integer

def TypeHolds : Json → Any → Prop
  | .string name, v => HasType name v
  | .array names, v => ∃ name, .string name ∈ names ∧ HasType name v
  | _, _ => False

def RequiredHolds : Json → Any → Prop
  | .array names, .object entries => ∀ name, .string name ∈ names → name ∈ keys entries
  | .array _, _ => True
  | _, _ => False

mutual

/-- A value meets a JSON schema, keyword by keyword. -/
def Conforms : Json → Any → Prop
  | .object keywords, v => KeywordsHold keywords v
  | _, _ => False

def KeywordsHold : List (String × Json) → Any → Prop
  | [], _ => True
  | (keyword, argument) :: rest, v =>
    (if keyword = "type" then TypeHolds argument v
      else if keyword = "required" then RequiredHolds argument v
      else if keyword = "properties" then PropertiesHold argument v
      else if keyword = "items" then ∀ element ∈ elements v, Conforms argument element
      else True) ∧ KeywordsHold rest v

def PropertiesHold : Json → Any → Prop
  | .object properties, v => EachProperty properties v
  | _, _ => False

def EachProperty : List (String × Json) → Any → Prop
  | [], _ => True
  | (key, schema) :: rest, v => (∀ item ∈ member key v, Conforms schema item) ∧ EachProperty rest v

end

section Soundness

variable {n : SchemaNode} {values : List Any} {v : Any}

theorem keywordsHold_append {front back : List (String × Json)} :
    KeywordsHold (front ++ back) v ↔ KeywordsHold front v ∧ KeywordsHold back v := by
  induction front with
  | nil => simp [KeywordsHold]
  | cons keyword front ih =>
    rw [List.cons_append, KeywordsHold, KeywordsHold, ih, and_assoc]

variable {argument : Json}

theorem keywordsHold_member {name : String} {argument : Option Json}
    (holds : ∀ a ∈ argument, KeywordsHold [(name, a)] v) : KeywordsHold (keywordMember name argument) v := by
  cases argument with
  | none => trivial
  | some a => exact holds a rfl

theorem keywordsHold_type : KeywordsHold [("type", argument)] v ↔ TypeHolds argument v := by simp [KeywordsHold]

theorem keywordsHold_required : KeywordsHold [("required", argument)] v ↔ RequiredHolds argument v := by
  simp [KeywordsHold]

theorem keywordsHold_properties : KeywordsHold [("properties", argument)] v ↔ PropertiesHold argument v := by
  simp [KeywordsHold]

theorem keywordsHold_items : KeywordsHold [("items", argument)] v ↔
      ∀ element ∈ elements v, Conforms argument element := by
  simp [KeywordsHold]

theorem propertyValues_eq (properties : List (String × SchemaNode)) :
    propertyValues properties = properties.map fun p => (p.1, p.2.value) := by
  induction properties with
  | nil => rfl
  | cons p rest ih => rw [propertyValues, ih, List.map_cons]

theorem propertiesKeyword_eq (properties : List (String × SchemaNode)) : propertiesKeyword properties =
      if properties = [] then none else some (.object (properties.map fun p => (p.1, p.2.value))) := by
  cases properties with
  | nil => rfl
  | cons p rest =>
    rw [propertiesKeyword, propertyValues_eq, if_neg (List.cons_ne_nil p rest), List.map_cons]

theorem itemsKeyword_eq (items : Option SchemaNode) : itemsKeyword items = items.map value := by
  cases items <;> rfl

theorem requiredKeyword_eq (names : List String) :
    requiredKeyword names = if names = [] then none else some (.array (names.map .string)) := by
  cases names <;> rfl

theorem eachProperty_iff {properties : List (String × Json)} :
    EachProperty properties v ↔ ∀ p ∈ properties, ∀ item ∈ member p.1 v, Conforms p.2 item := by
  induction properties with
  | nil => simp [EachProperty]
  | cons p rest ih => rw [EachProperty, ih, List.forall_mem_cons]

theorem mem_membersOf {key : String} {item : Any} (observed : v ∈ values) (found : member key v = some item) :
    item ∈ membersOf key values := List.mem_filterMap.mpr ⟨v, observed, found⟩

theorem mem_elementsOf {element : Any} (observed : v ∈ values) (within : element ∈ elements v) :
    element ∈ elementsOf values := List.mem_flatMap.mpr ⟨v, observed, within⟩

theorem typeKeyword_holds {types : List SchemaType} (named : ∃ t ∈ types, HasType t.name v) (a : Json)
    (written : a ∈ typeKeyword types) : TypeHolds a v := by
  obtain ⟨t, member, holds⟩ := named
  cases types with
  | nil => cases written
  | cons first rest =>
    cases rest with
    | nil =>
      cases written
      rwa [← List.mem_singleton.mp member]
    | cons second rest =>
      cases written
      exact ⟨t.name, List.mem_map.mpr ⟨t, member, rfl⟩, holds⟩

theorem schemaTypes_cover {types : SchemaType → Bool} (seen : types (schemaType v) = true) :
    ∃ t ∈ schemaTypes types, HasType t.name v := by
  by_cases merged : schemaType v = .integer ∧ types .number = true
  · refine ⟨.number, ?_, .inr ⟨rfl, merged.1⟩⟩
    simp [schemaTypes, merged.2]
  · refine ⟨schemaType v, ?_, .inl rfl⟩
    simp only [schemaTypes, List.mem_filter, seen, Bool.and_true]
    constructor
    · cases schemaType v <;> simp
    · simpa [← imp_iff_not_or] using merged

theorem membersOf_length_eq_iff (key : String) (values : List Any) :
    (membersOf key values).length = values.length ↔ ∀ v ∈ values, (member key v).isSome := by
  induction values with
  | nil => simp [membersOf]
  | cons v values ih =>
    have shorter : (membersOf key values).length ≤ values.length := List.length_filterMap_le ..
    cases found : member key v with
    | none =>
      simp only [membersOf, List.filterMap_cons, found, List.forall_mem_cons, List.length_cons] at shorter ⊢
      simp
      omega
    | some item =>
      simp only [membersOf, List.filterMap_cons, found, List.length_cons, Nat.add_right_cancel_iff,
        List.forall_mem_cons, Option.isSome_some, true_and]
      exact ih

theorem value_eq (n : SchemaNode) : n.value = .object
    (keywordMember "items" (if n.types .array then itemsKeyword n.items else none) ++
      keywordMember "properties" (if n.types .object then propertiesKeyword n.properties else none) ++
      keywordMember "required" (if n.types .object then requiredKeyword n.required else none) ++
      keywordMember "type" (typeKeyword (schemaTypes n.types))) := by
  cases n
  rfl

theorem Describes.mem_required (described : Describes n values) (nonempty : values ≠ []) (key : String) :
    key ∈ n.required ↔ ∀ v ∈ values, (member key v).isSome := by
  obtain ⟨observations, -, propSeen, -, present, -, -, -⟩ := described
  rw [required, List.mem_filter, decide_eq_true_eq, propSeen, observations, membersOf_length_eq_iff,
    present, and_iff_right_iff_imp]
  intro all none
  have empty := (membersOf_length_eq_iff key values).mpr all
  rw [none] at empty
  exact nonempty (List.length_eq_zero_iff.mp empty.symm)

theorem requiredHolds_of {names : List String}
    (holds : ∀ entries, v = .object entries → ∀ name ∈ names, name ∈ keys entries) :
    RequiredHolds (.array (names.map .string)) v := by
  cases v with
  | object entries =>
    intro name member
    obtain ⟨same, within, equal⟩ := List.mem_map.mp member
    cases equal
    exact holds entries rfl _ within
  | _ => trivial

theorem Describes.conforms (described : Describes n values) : ∀ v ∈ values, Conforms n.value v := by
  induction described with
  | @mk n values observations types propSeen sorted present properties some_items items property_ih items_ih =>
    have whole : Describes n values :=
      .mk observations types propSeen sorted present properties some_items items
    intro v observed
    rw [value_eq, Conforms, keywordsHold_append, keywordsHold_append, keywordsHold_append]
    refine ⟨⟨⟨keywordsHold_member ?_, keywordsHold_member ?_⟩, keywordsHold_member ?_⟩, keywordsHold_member ?_⟩
    · intro a written
      obtain ⟨-, written⟩ := Option.mem_ite_none_right.mp written
      rw [itemsKeyword_eq] at written
      obtain ⟨child, found, rfl⟩ := Option.mem_map.mp written
      rw [keywordsHold_items]
      exact fun element within => items_ih child found element (mem_elementsOf observed within)
    · intro a written
      obtain ⟨-, written⟩ := Option.mem_ite_none_right.mp written
      rw [propertiesKeyword_eq] at written
      obtain ⟨-, ⟨⟩⟩ := Option.mem_ite_none_left.mp written
      rw [keywordsHold_properties, PropertiesHold, eachProperty_iff]
      intro p member item found
      obtain ⟨⟨key, child⟩, stored, rfl⟩ := List.mem_map.mp member
      exact property_ih key child (lookup_of_mem sorted stored) item (mem_membersOf observed found)
    · intro a written
      obtain ⟨-, written⟩ := Option.mem_ite_none_right.mp written
      rw [requiredKeyword_eq] at written
      obtain ⟨-, ⟨⟩⟩ := Option.mem_ite_none_left.mp written
      rw [keywordsHold_required]
      apply requiredHolds_of
      rintro entries rfl name required
      have everywhere := (whole.mem_required (List.ne_nil_of_mem observed) name).mp required
      exact lookup_isSome_iff.mp (everywhere _ observed)
    · intro a written
      rw [keywordsHold_type]
      exact typeKeyword_holds (schemaTypes_cover ((types _).mpr ⟨v, observed, rfl⟩)) a written

end Soundness

inductive SchemaStep where
  | property (key : String)
  | items

def valuesAt : List SchemaStep → List Any → List Any
  | [], values => values
  | .property key :: path, values => valuesAt path (membersOf key values)
  | .items :: path, values => valuesAt path (elementsOf values)

def keyword (name : String) : Json → Option Json
  | .object members => members.lookup name
  | _ => none

def schemaAt : List SchemaStep → Json → Option Json
  | [], schema => some schema
  | .property key :: path, schema => ((keyword "properties" schema).bind (keyword key)).bind (schemaAt path)
  | .items :: path, schema => (keyword "items" schema).bind (schemaAt path)

def stringOf : Json → Option String
  | .string s => some s
  | _ => none

def requiredOf (schema : Json) : List String :=
  match keyword "required" schema with
  | some (.array names) => names.filterMap stringOf
  | _ => []

section Places

variable {n : SchemaNode} {values : List Any}

theorem lookup_map_value (key : String) (properties : List (String × SchemaNode)) :
    (properties.map fun p => (p.1, p.2.value)).lookup key = (properties.lookup key).map value := by
  induction properties with
  | nil => rfl
  | cons p rest ih =>
    rw [List.map_cons, List.lookup_cons, List.lookup_cons, ih]
    cases key == p.1 <;> rfl

theorem Describes.array_of_items (described : Describes n values) (some : n.items.isSome) : n.types .array = true := by
  obtain ⟨-, types, -, -, -, -, some_items, -⟩ := described
  obtain ⟨element, within⟩ := List.exists_mem_of_ne_nil _ (some_items.mp some)
  obtain ⟨v, observed, inside⟩ := List.mem_flatMap.mp within
  refine (types _).mpr ⟨v, observed, ?_⟩
  cases v with
  | slice => rfl
  | _ => cases inside

theorem Describes.object_of_properties (described : Describes n values) (some : n.properties ≠ []) :
    n.types .object = true := by
  obtain ⟨-, types, -, -, present, -, -, -⟩ := described
  obtain ⟨p, stored⟩ := List.exists_mem_of_ne_nil _ some
  obtain ⟨item, within⟩ := List.exists_mem_of_ne_nil _ ((present p.1).mp (List.mem_map_of_mem stored))
  obtain ⟨v, observed, found⟩ := List.mem_filterMap.mp within
  refine (types _).mpr ⟨v, observed, ?_⟩
  cases v with
  | object => rfl
  | _ => cases found

theorem lookup_keywordMember_self (name : String) (argument : Option Json) :
    (keywordMember name argument).lookup name = argument := by
  cases argument <;> simp [keywordMember]

theorem lookup_keywordMember_of_ne {name other : String} (ne : name ≠ other) (argument : Option Json) :
    (keywordMember other argument).lookup name = none := by
  cases argument with
  | none => rfl
  | some a => simp [keywordMember, List.lookup_cons, beq_eq_false_iff_ne.mpr ne]

theorem Describes.keyword_items (described : Describes n values) : keyword "items" n.value = n.items.map value := by
  rw [value_eq, keyword]
  simp only [List.lookup_append, lookup_keywordMember_self,
    lookup_keywordMember_of_ne (by decide : "items" ≠ "properties"),
    lookup_keywordMember_of_ne (by decide : "items" ≠ "required"),
    lookup_keywordMember_of_ne (by decide : "items" ≠ "type"), Option.or_none, itemsKeyword_eq]
  cases found : n.items with
  | none => simp
  | some child => rw [described.array_of_items (by rw [found]; rfl), if_pos rfl]

theorem Describes.keyword_properties (described : Describes n values) (key : String) :
    (keyword "properties" n.value).bind (keyword key) = (n.properties.lookup key).map value := by
  rw [value_eq, keyword]
  simp only [List.lookup_append, lookup_keywordMember_self,
    lookup_keywordMember_of_ne (by decide : "properties" ≠ "items"),
    lookup_keywordMember_of_ne (by decide : "properties" ≠ "required"),
    lookup_keywordMember_of_ne (by decide : "properties" ≠ "type"), Option.or_none, Option.none_or,
    propertiesKeyword_eq]
  by_cases empty : n.properties = []
  · simp [empty]
  · rw [described.object_of_properties empty, if_pos rfl, if_neg empty, Option.bind_some, keyword, lookup_map_value]

theorem Describes.requiredOf_value (described : Describes n values) : requiredOf n.value = n.required := by
  have found : keyword "required" n.value =
      if n.types .object then requiredKeyword n.required else none := by
    rw [value_eq, keyword]
    simp only [List.lookup_append, lookup_keywordMember_self,
      lookup_keywordMember_of_ne (by decide : "required" ≠ "items"),
      lookup_keywordMember_of_ne (by decide : "required" ≠ "properties"),
      lookup_keywordMember_of_ne (by decide : "required" ≠ "type"), Option.or_none, Option.none_or]
  rw [requiredOf, found, requiredKeyword_eq]
  by_cases empty : n.required = []
  · simp [empty]
  · have some : n.properties ≠ [] := by
      intro none
      exact empty (by rw [required, none]; rfl)
    have strings : (n.required.map Json.string).filterMap stringOf = n.required := by
      rw [List.filterMap_map]
      exact List.filterMap_some
    simp only [described.object_of_properties some, if_true, if_neg empty, strings]

theorem valuesAt_nil (path : List SchemaStep) : valuesAt path [] = [] := by
  induction path with
  | nil => rfl
  | cons step path ih => cases step <;> exact ih

theorem Describes.schemaAt (described : Describes n values) (nonempty : values ≠ []) (path : List SchemaStep) :
    ((schemaAt path n.value).isSome ↔ valuesAt path values ≠ []) ∧ ∀ node, schemaAt path n.value = some node →
        ∀ key, key ∈ requiredOf node ↔ ∀ v ∈ valuesAt path values, (member key v).isSome := by
  induction path generalizing n values with
  | nil =>
    refine ⟨by simpa [Spy.schemaAt, valuesAt] using nonempty, ?_⟩
    rintro node ⟨⟩ key
    rw [described.requiredOf_value, described.mem_required nonempty]
    rfl
  | cons step path ih =>
    cases step with
    | property name =>
      rw [Spy.schemaAt, described.keyword_properties, valuesAt]
      cases found : n.properties.lookup name with
      | none => simp [described.membersOf_eq_nil found, valuesAt_nil]
      | some child =>
        obtain ⟨-, -, -, -, present, properties, -, -⟩ := described
        have used := (present name).mp (lookup_isSome_iff.mp (by rw [found]; rfl))
        exact ih (properties name child found) used
    | items =>
      rw [Spy.schemaAt, described.keyword_items, valuesAt]
      cases found : n.items with
      | none => simp [described.elementsOf_eq_nil found, valuesAt_nil]
      | some child =>
        obtain ⟨-, -, -, -, -, -, some_items, items⟩ := described
        exact ih (items child found) (some_items.mp (by rw [found]; rfl))

end Places

theorem distinctEntries_insertEntry {key : String} {value : Any} {entries : List (String × Any)}
    (new : Distinct value) (old : DistinctEntries entries) : DistinctEntries (Any.insertEntry key value entries) := by
  induction entries with
  | nil => exact ⟨new, trivial⟩
  | cons entry rest ih =>
    unfold Any.insertEntry
    split_ifs
    · exact ⟨new, old.2⟩
    · exact ⟨new, old⟩
    · exact ⟨old.1, ih old.2⟩

mutual

theorem distinct_decode : (doc : Json) → Distinct doc.decode
  | .null | .bool _ | .number _ | .string _ => trivial
  | .array elements => distinct_decodeElements elements
  | .object members => by
      have sorted : Text.Sorted (Json.decodeMembers members []) := Text.sorted_decodeMembers members List.Pairwise.nil
      exact ⟨List.Pairwise.imp (fun less => ne_of_lt less) sorted, distinct_decodeMembers members [] trivial⟩

theorem distinct_decodeElements : (elements : List Json) → DistinctElements (Json.decodeElements elements)
  | [] => trivial
  | element :: rest => ⟨distinct_decode element, distinct_decodeElements rest⟩

theorem distinct_decodeMembers : (members : List (String × Json)) → (entries : List (String × Any)) →
    DistinctEntries entries → DistinctEntries (Json.decodeMembers members entries)
  | [], _, old => old
  | (_, value) :: rest, _, old =>
    distinct_decodeMembers rest _ (distinctEntries_insertEntry (distinct_decode value) old)

end

theorem describes_decoded (docs : List Json) :
    Describes (observeAll (docs.map Json.decode)) (docs.map Json.decode) := by
  apply describes_observeAll
  intro v observed
  obtain ⟨doc, -, rfl⟩ := List.mem_map.mp observed
  exact distinct_decode doc

theorem inferred_schema_tight (docs : List Json) (nonempty : docs ≠ []) :
    (∀ doc ∈ docs, Conforms (observeAll (docs.map Json.decode)).value doc.decode) ∧
    ∀ path, ((schemaAt path (observeAll (docs.map Json.decode)).value).isSome ↔
        valuesAt path (docs.map Json.decode) ≠ []) ∧
      ∀ node, schemaAt path (observeAll (docs.map Json.decode)).value = some node →
        ∀ key, key ∈ requiredOf node ↔
          ∀ v ∈ valuesAt path (docs.map Json.decode), (member key v).isSome := by
  have described := describes_decoded docs
  refine ⟨fun doc observed => described.conforms _ (List.mem_map_of_mem observed), ?_⟩
  exact described.schemaAt (by simpa using nonempty)

def observedDocs : List Json :=
  [.object [("items", .array [.object [("id", .number 1), ("name", .string "a")], .object [("id", .number (1 / 2))]])],
    .object [("items", .array []), ("n", .number 3)]]

theorem inferred_schema_observedDocs :
    observedDocs ≠ [] ∧
      ∀ doc ∈ observedDocs, Conforms (observeAll (observedDocs.map Json.decode)).value doc.decode :=
  have nonempty : observedDocs ≠ [] := List.cons_ne_nil _ _
  ⟨nonempty, (inferred_schema_tight observedDocs nonempty).1⟩

end Mcp.Spy
