import Mcp.Content.Protocol

namespace Mcp.Draft
open Mcp.Content Mcp.Struct Mcp.Protocol
open Streamable (foldName storeString)

def unmarshalItem (i : Nat) : RawMessage → Except Error Content
  | none => .error (.wrapped ("draft.ContentList item " ++ i.repr ++ " probe") .json)
  | some raw => do
      let type ← given (.wrapped ("draft.ContentList item " ++ i.repr ++ " probe") .json) (probeType raw)
      match type with
      | "text" => do
          let tc ← given (.wrapped ("draft.ContentList: TextContent item " ++ i.repr) .json)
            (store TextContent.fields raw {})
          return .text tc
      | "image" => do
          let ic ← given (.wrapped ("draft.ContentList: ImageContent item " ++ i.repr) .json)
            (store MediaContent.fields raw {})
          return .image ic
      | "audio" => do
          let ac ← given (.wrapped ("draft.ContentList: AudioContent item " ++ i.repr) .json)
            (store MediaContent.fields raw {})
          return .audio ac
      | "resource" => do
          let er ← wrapping ("draft.ContentList: EmbeddedResource item " ++ i.repr)
            (EmbeddedResource.unmarshalJSON {} raw)
          return .resource er
      | type =>
        .error (.quoting ("draft.ContentList item " ++ i.repr ++ " unknown type: '" ++ type ++ "' from data ") raw)

inductive Shape where
  | text
  | media
  | resource
  deriving DecidableEq

def Shape.ofType : String → Option Shape
  | "text" => some .text
  | "image" | "audio" => some .media
  | "resource" => some .resource
  | _ => none

def shape : Content → Shape
  | .text _ => .text
  | .image _ | .audio _ => .media
  | .resource _ => .resource

theorem get?_marshal (c : Content) : (get? "text" c.marshal.decode).isSome = decide (shape c = .text) ∧
    (get? "data" c.marshal.decode).isSome = decide (shape c = .media) := by
  cases c <;> simp [Content.marshal, TextContent.members, MediaContent.members, EmbeddedResource.marshal,
    EmbeddedResource.members, get?_decode_written, shape, List.lookup_cons]

variable {c c' : Content} {i : Nat}

theorem shape_eq_of_decode (same : c'.marshal.decode = c.marshal.decode) : shape c' = shape c := by
  obtain ⟨text, data⟩ := get?_marshal c
  obtain ⟨text', data'⟩ := get?_marshal c'
  rw [same, text] at text'
  rw [same, data] at data'
  revert text' data'
  cases shape c <;> cases shape c' <;> decide

theorem shape_of_unmarshalItem (decoded : unmarshalItem i (some c.marshal) = .ok c') :
    Shape.ofType c.type = some (shape c') := by
  rw [unmarshalItem, probeType_marshal, given_some, ok_bind] at decoded
  split at decoded
  case h_5 => cases decoded
  all_goals
    obtain ⟨_, -, decoded⟩ := bind_eq_ok.mp decoded
    cases decoded
    simp [Shape.ofType, shape, *]

def Reencodes : Content → Prop
  | .text tc => tc.type = "text"
  | .image mc | .audio mc => mc.type = "image" ∨ mc.type = "audio"
  | .resource er => er.type = "resource" ∧ er.Named

-- An image called audio is decoded as audio, and written back with the members it had.
theorem unmarshalItem_media (i : Nat) (mc : MediaContent) (type : mc.type = "image" ∨ mc.type = "audio") :
    ∃ c', unmarshalItem i (some (.object mc.members)) = .ok c' ∧ c'.marshal = .object mc.members := by
  have probed := probeType_marshal (.image mc)
  rw [Content.marshal, Content.type] at probed
  obtain type | type := type
  · refine ⟨.image mc.normal, ?_, Content.marshal_normal (.image mc)⟩
    simp [unmarshalItem, probed, type, mc.fields_members]
  · refine ⟨.audio mc.normal, ?_, Content.marshal_normal (.audio mc)⟩
    simp [unmarshalItem, probed, type, mc.fields_members]

theorem unmarshalItem_of_reencodes (i : Nat) (good : Reencodes c) :
    ∃ c', unmarshalItem i (some c.marshal) = .ok c' ∧ c'.marshal = c.marshal := by
  have same := c.marshal_normal
  cases c with
  | text tc =>
    have type : tc.type = "text" := good
    refine ⟨.text tc.normal, ?_, same⟩
    rw [unmarshalItem, probeType_marshal, given_some, ok_bind, Content.type, type]
    simp [Content.marshal, tc.fields_members]
  | image mc | audio mc => exact unmarshalItem_media i mc good
  | resource er =>
    refine ⟨.resource er.normal, ?_, same⟩
    rw [unmarshalItem, probeType_marshal, given_some, ok_bind, Content.type, good.1]
    simp [Content.marshal, er.unmarshalJSON_marshal good.2]

theorem named_of_unmarshalItem {er : EmbeddedResource} (type : er.type = "resource")
    (decoded : unmarshalItem i (some (Content.resource er).marshal) = .ok c') : er.Named := by
  rw [unmarshalItem, probeType_marshal, given_some, ok_bind, Content.type, type] at decoded
  obtain ⟨er', decoded, -⟩ := bind_eq_ok.mp decoded
  cases whole : EmbeddedResource.unmarshalJSON {} er.marshal with
  | ok er' => exact EmbeddedResource.named_of_unmarshalJSON whole
  | error error =>
    rw [Content.marshal, whole, wrapping_error] at decoded
    cases decoded

theorem reencodes_of_unmarshalItem (decoded : unmarshalItem i (some c.marshal) = .ok c')
    (same : c'.marshal.decode = c.marshal.decode) : Reencodes c := by
  have matched := shape_of_unmarshalItem decoded
  rw [shape_eq_of_decode same] at matched
  unfold Shape.ofType at matched
  cases c with
  | text tc =>
    split at matched <;> cases matched
    assumption
  | image mc | audio mc =>
    split at matched <;> cases matched
    · exact .inl ‹_›
    · exact .inr ‹_›
  | resource er =>
    split at matched <;> cases matched
    exact ⟨‹_›, named_of_unmarshalItem ‹_› decoded⟩

theorem unmarshalItem_iff (i : Nat) (item : Option Content) :
    (∃ c', unmarshalItem i (some (nullable Content.marshal item)) = .ok c' ∧
      c'.marshal.decode = (nullable Content.marshal item).decode) ↔ ∃ c ∈ item, Reencodes c := by
  cases item with
  | none =>
    constructor
    · rintro ⟨c', decoded, -⟩
      cases decoded
    · rintro ⟨_, none, -⟩
      cases none
  | some c =>
    constructor
    · rintro ⟨c', decoded, same⟩
      exact ⟨c, rfl, reencodes_of_unmarshalItem decoded same⟩
    · rintro ⟨d, member, good⟩
      obtain rfl := Option.mem_some.mp member
      obtain ⟨c', decoded, same⟩ := unmarshalItem_of_reencodes i good
      exact ⟨c', decoded, congrArg Json.decode same⟩

abbrev ContentList := List (Option Content)

def ContentList.unmarshalJSON : Json → Except Error ContentList
  | .null => .ok []
  | data => do
      let raws ← given (.wrapped "draft.ContentList base" .json) (storeSlice storeRaw none data none)
      let items ← decodeItems unmarshalItem 0 (raws.getD [])
      return items.map some

def ContentList.marshal : ContentList → Json := encodeSlice (nullable Content.marshal)

theorem ContentList.unmarshalJSON_marshal (items : ContentList) : unmarshalJSON items.marshal =
      decodeItems unmarshalItem 0 (items.map fun item => some (nullable Content.marshal item)) >>=
        fun cs => .ok (cs.map some) := by
  have raws := storeSlice_raw (nullable Content.marshal) (some items)
  rw [nullable_some, encodeSlice] at raws
  simp [marshal, encodeSlice, unmarshalJSON, raws]

theorem ContentList.decode_marshal (items : ContentList) :
    items.marshal.decode = .slice (items.map fun item => (nullable Content.marshal item).decode) := by
  have elements (values : List Json) : Json.decodeElements values = values.map Json.decode := by
    induction values with
    | nil => rfl
    | cons value rest ih => rw [Json.decodeElements, ih, List.map_cons]
  simp [marshal, encodeSlice, Json.decode, elements, Function.comp_def]

theorem ContentList.reencodes_iff (items : ContentList) :
    (∃ cl, unmarshalJSON items.marshal = .ok cl ∧ cl.marshal.decode = items.marshal.decode) ↔
      ∀ item ∈ items, ∃ c ∈ item, Reencodes c := by
  rw [← decodeItems_iff unmarshalItem_iff items 0]
  constructor
  · rintro ⟨cl, decoded, same⟩
    rw [unmarshalJSON_marshal] at decoded
    obtain ⟨cs, each, rebuilt⟩ := bind_eq_ok.mp decoded
    cases rebuilt
    rw [decode_marshal, decode_marshal, List.map_map, Any.slice.injEq] at same
    exact ⟨cs, each, same⟩
  · rintro ⟨cs, decoded, same⟩
    refine ⟨cs.map some, by rw [unmarshalJSON_marshal, decoded, ok_bind], ?_⟩
    rw [decode_marshal, decode_marshal, List.map_map, Any.slice.injEq]
    exact same

structure CallToolResult where
  metadata : Option AnyMap := none
  isError : Option Bool := none
  structuredContent : Option AnyMap := none
  content : Option (Option ContentList) := none
  isStructuredResult : Bool := false

structure Temp where
  metadata : Option AnyMap := none
  isError : Option Bool := none
  content : RawMessage := none
  structuredContent : RawMessage := none

def Temp.fields (members : List (String × Json)) (temp : Temp) : Option Temp := do
  let metadata ← field storeMap "_meta" members temp.metadata
  let isError ← field (storePointer storeBool false) "isError" members temp.isError
  let content ← field storeRaw "content" members temp.content
  let structuredContent ← field storeRaw "structuredContent" members temp.structuredContent
  return { metadata, isError, content, structuredContent }

def present : RawMessage → Option Json
  | none | some .null | some (.string "") => none
  | some data => some data

@[simp] theorem present_none : present none = none := rfl

@[simp] theorem present_null : present (some .null) = none := rfl

@[simp] theorem present_encode (m : AnyMap) : present (some m.encode) = some m.encode := rfl

@[simp] theorem present_marshal (items : ContentList) : present (some items.marshal) = some items.marshal := rfl

namespace CallToolResult

def ofTemp (temp : Temp) : Except Error CallToolResult :=
  let ctr : CallToolResult := { metadata := temp.metadata, isError := temp.isError }
  match present temp.structuredContent, present temp.content with
  | some structured, compat => do
      let structuredContent ← given (.wrapped "draft.CallToolResult structured" .json) (storeMap structured none)
      let ctr := { ctr with structuredContent, isStructuredResult := true }
      match compat with
      | some content => do
          let cl ← wrapping "draft.CallToolResult compat content" (ContentList.unmarshalJSON content)
          return { ctr with content := some (some cl) }
      | none => return ctr
  | none, some content => do
      let cl ← wrapping "draft.CallToolResult unstructured" (ContentList.unmarshalJSON content)
      return { ctr with content := some (some cl) }
  | none, none => return ctr

def unmarshalJSON (ctr : CallToolResult) : Json → Except Error CallToolResult
  | .null => .ok ctr
  | data => do
      let temp ← given (.wrapped "draft.CallToolResult base" .json) (store Temp.fields data {})
      ofTemp temp

def structured (ctr : CallToolResult) : Option AnyMap :=
  if ctr.isStructuredResult then
    if ctr.structuredContent.isSome then ctr.structuredContent
    else if ctr.isError = some true then none
    else some .empty
  else none

def listed (ctr : CallToolResult) : Option (Option ContentList) :=
  if ctr.isStructuredResult then (nilEmpty ctr.content.join).map some else ctr.content

-- The map that is encoded has its keys in order.
def marshalJSON (ctr : CallToolResult) : Json :=
  .object (written [("_meta", ctr.metadata.map AnyMap.encode),
    ("content", ctr.listed.map (nullable ContentList.marshal)),
    ("isError", ctr.isError.map .bool), ("structuredContent", ctr.structured.map AnyMap.encode)])

theorem unmarshalJSON_marshalJSON (x : CallToolResult) :
    unmarshalJSON {} x.marshalJSON = ofTemp ⟨x.metadata, x.isError, x.listed.map (nullable ContentList.marshal),
      x.structured.map AnyMap.encode⟩ := by
  simp [unmarshalJSON, marshalJSON, Temp.fields]

def Received (x : CallToolResult) (content : Option (Option ContentList)) : Prop :=
  match x.listed with
  | none | some none => content = none
  | some (some items) => ∃ cl, ContentList.unmarshalJSON items.marshal = .ok cl ∧ content = some (some cl)

def rebuilt (x : CallToolResult) (content : Option (Option ContentList)) : CallToolResult where
  metadata := x.metadata
  isError := x.isError
  structuredContent := x.structured
  content := content
  isStructuredResult := x.structured.isSome

variable {x : CallToolResult} {items : ContentList}

theorem unmarshalJSON_eq_ok {y : CallToolResult} :
    unmarshalJSON {} x.marshalJSON = .ok y ↔ ∃ content, x.Received content ∧ y = x.rebuilt content := by
  have stored (m : AnyMap) : storeMap m.encode none = some (some m) := restore_map (some m)
  rw [unmarshalJSON_marshalJSON]
  unfold Received rebuilt
  cases x.structured with
  | none =>
    rcases x.listed with _ | _ | items
    · simp [ofTemp, eq_comm]
    · simp [ofTemp, eq_comm]
    · cases decoded : ContentList.unmarshalJSON items.marshal <;> simp [ofTemp, decoded, eq_comm]
  | some m =>
    rcases x.listed with _ | _ | items
    · simp [ofTemp, stored, eq_comm]
    · simp [ofTemp, stored, eq_comm]
    · cases decoded : ContentList.unmarshalJSON items.marshal <;> simp [ofTemp, stored, decoded, eq_comm]

theorem rebuilt_structured (x : CallToolResult) (content : Option (Option ContentList)) :
    (x.rebuilt content).structured = x.structured := by
  unfold rebuilt
  cases structured : x.structured <;> simp [CallToolResult.structured]

/-- The list is not the `nil` one unless it is left out, and each of its items is written back as it was. -/
def Stable (x : CallToolResult) : Prop :=
  ∀ list ∈ x.content, (x.isStructuredResult = false → list ≠ none) ∧
    ∀ items ∈ list, ∀ item ∈ items, ∃ c ∈ item, Reencodes c

theorem stable_iff_listed (x : CallToolResult) :
    x.Stable ↔ ∀ list ∈ x.listed, ∃ items, list = some items ∧ ∀ item ∈ items, ∃ c ∈ item, Reencodes c := by
  obtain ⟨metadata, isError, structuredContent, content, isStructuredResult⟩ := x
  rcases content with _ | _ | _ | ⟨item, items⟩ <;> cases isStructuredResult <;> simp [Stable, listed, nilEmpty]

theorem get?_content (x : CallToolResult) :
    get? "content" x.marshalJSON.decode = x.listed.map fun list => (nullable ContentList.marshal list).decode := by
  simp [marshalJSON, get?_decode_written, List.lookup_cons, Function.comp_def]

theorem decode_rebuilt_iff (x : CallToolResult) (content : Option (Option ContentList)) :
    (x.rebuilt content).marshalJSON.decode = x.marshalJSON.decode ↔
      ((x.rebuilt content).listed.map fun list => (nullable ContentList.marshal list).decode) =
        x.listed.map fun list => (nullable ContentList.marshal list).decode := by
  constructor
  · intro same
    rw [← get?_content, ← get?_content, same]
  · intro same
    refine congrArg Any.object (decodeMembers_written_congr ?_ [])
    have metadata : (x.rebuilt content).metadata = x.metadata := rfl
    have isError : (x.rebuilt content).isError = x.isError := rfl
    simpa [metadata, isError, rebuilt_structured, Function.comp_def] using same

theorem listed_rebuilt (x : CallToolResult) (content : Option (Option ContentList)) :
    (x.rebuilt content).listed = if x.structured.isSome then (nilEmpty content.join).map some else content := rfl

theorem exists_unmarshalJSON_iff (x : CallToolResult) :
    (∃ y, unmarshalJSON {} x.marshalJSON = .ok y ∧ y.marshalJSON.decode = x.marshalJSON.decode) ↔
      ∃ content, x.Received content ∧
        ((x.rebuilt content).listed.map fun list => (nullable ContentList.marshal list).decode) =
          x.listed.map fun list => (nullable ContentList.marshal list).decode := by
  constructor
  · rintro ⟨y, decoded, same⟩
    obtain ⟨content, received, rfl⟩ := unmarshalJSON_eq_ok.mp decoded
    exact ⟨content, received, (x.decode_rebuilt_iff content).mp same⟩
  · rintro ⟨content, received, same⟩
    exact ⟨_, unmarshalJSON_eq_ok.mpr ⟨content, received, rfl⟩, (x.decode_rebuilt_iff content).mpr same⟩

theorem ne_nil_of_listed (listed : x.listed = some (some items)) (structured : x.structured.isSome) : items ≠ [] := by
  rintro rfl
  have flag : x.isStructuredResult = true := by
    by_contra unset
    simp [CallToolResult.structured, unset] at structured
  simp [CallToolResult.listed, flag, nilEmpty] at listed

theorem received_items_iff (listed : x.listed = some (some items)) (cl : ContentList) :
    ((x.rebuilt (some (some cl))).listed.map fun list => (nullable ContentList.marshal list).decode) =
      some items.marshal.decode ↔ cl.marshal.decode = items.marshal.decode := by
  rw [listed_rebuilt]
  split_ifs with structured
  · have filled := ne_nil_of_listed listed structured
    cases cl with
    | nil =>
      have differs : (ContentList.marshal []).decode ≠ items.marshal.decode := by
        rw [Ne, ContentList.decode_marshal, ContentList.decode_marshal, Any.slice.injEq, List.map_nil, eq_comm,
          List.map_eq_nil_iff]
        exact filled
      simp [nilEmpty, differs]
    | cons item rest => simp [nilEmpty]
  · simp

theorem result_reencodes_iff (x : CallToolResult) :
    (∃ y, unmarshalJSON {} x.marshalJSON = .ok y ∧ y.marshalJSON.decode = x.marshalJSON.decode) ↔ x.Stable := by
  rw [exists_unmarshalJSON_iff, stable_iff_listed]
  unfold Received
  rcases listed : x.listed with _ | _ | items
  · simp [listed_rebuilt, nilEmpty]
  · simp [listed_rebuilt, nilEmpty]
  · have each := items.reencodes_iff
    constructor
    · rintro ⟨_, ⟨cl, decoded, rfl⟩, same⟩ list member
      obtain rfl := Option.mem_some.mp member
      exact ⟨items, rfl, each.mp ⟨cl, decoded, (received_items_iff listed cl).mp same⟩⟩
    · intro stable
      obtain ⟨_, same, good⟩ := stable (some items) rfl
      cases same
      obtain ⟨cl, decoded, same⟩ := each.mpr good
      exact ⟨_, ⟨cl, decoded, rfl⟩, (received_items_iff listed cl).mpr same⟩

-- A variadic parameter without arguments is a `nil` slice.
def newCallToolResultUnstructured (content : ContentList) : CallToolResult where
  content := some (nilEmpty (some content))
  isStructuredResult := false

theorem null_content_lost :
    (newCallToolResultUnstructured []).marshalJSON = .object [("content", .null)] ∧
    unmarshalJSON {} (newCallToolResultUnstructured []).marshalJSON = .ok {} ∧
    (marshalJSON {}).decode ≠ (newCallToolResultUnstructured []).marshalJSON.decode := by
  refine ⟨rfl, ?_, ?_⟩
  · rw [unmarshalJSON_marshalJSON]
    rfl
  · intro same
    have content := congrArg (get? "content") same
    rw [get?_content, get?_content] at content
    cases content

end CallToolResult

end Mcp.Draft
