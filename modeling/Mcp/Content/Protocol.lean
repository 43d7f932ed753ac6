import Mcp.Content.Decoding

namespace Mcp.Protocol
open Mcp.Content Mcp.Struct
open Streamable (foldName storeString)

structure Annotations where
  audience : Option (List String) := none
  priority : Option ℚ := none

namespace Annotations

def fields (members : List (String × Json)) (a : Annotations) : Option Annotations := do
  let audience ← field (storeSlice storeString "") "audience" members a.audience
  let priority ← field (storePointer storeFloat64 0) "priority" members a.priority
  return { audience, priority }

def marshal (a : Annotations) : Json :=
  .object (written [("audience", (nilEmpty a.audience).map (encodeSlice .string)),
    ("priority", a.priority.map .number)])

-- The value with empty lists and maps read as `nil`, here and for the types below.
def normal (a : Annotations) : Annotations := { a with audience := nilEmpty a.audience }

theorem store_marshal (a : Annotations) : store fields a.marshal {} = some a.normal := by
  simp [marshal, fields, normal]

@[simp] theorem restore_marshal (a : Option Annotations) :
    restore (storePointer (store fields) {}) none (a.map marshal) = some (a.map normal) :=
  restore_pointer store_marshal nofun a

theorem marshal_normal (a : Annotations) : a.normal.marshal = a.marshal := by
  simp [normal, marshal]

@[simp] theorem marshal_comp_normal : marshal ∘ normal = marshal := funext marshal_normal

@[simp] theorem normal_normal (a : Annotations) : a.normal.normal = a.normal := by
  simp [normal]

@[simp] theorem normal_comp_normal : normal ∘ normal = normal := funext normal_normal

end Annotations

structure BaseResourceContents where
  uri : String := ""
  mimeType : Option String := none

structure TextResourceContents extends BaseResourceContents where
  text : String := ""

structure BlobResourceContents extends BaseResourceContents where
  blob : String := ""

def BaseResourceContents.fields (members : List (String × Json)) (brc : BaseResourceContents) :
    Option BaseResourceContents := do
  let uri ← field storeString "uri" members brc.uri
  let mimeType ← field (storePointer storeString "") "mimeType" members brc.mimeType
  return { uri, mimeType }

def TextResourceContents.fields (members : List (String × Json)) (trc : TextResourceContents) :
    Option TextResourceContents := do
  let base ← BaseResourceContents.fields members trc.toBaseResourceContents
  let text ← field storeString "text" members trc.text
  return { base with text }

def BlobResourceContents.fields (members : List (String × Json)) (brc : BlobResourceContents) :
    Option BlobResourceContents := do
  let base ← BaseResourceContents.fields members brc.toBaseResourceContents
  let blob ← field storeString "blob" members brc.blob
  return { base with blob }

def TextResourceContents.members (trc : TextResourceContents) : List (String × Json) :=
  written [("uri", some (.string trc.uri)), ("mimeType", trc.mimeType.map .string), ("text", some (.string trc.text))]

def BlobResourceContents.members (brc : BlobResourceContents) : List (String × Json) :=
  written [("uri", some (.string brc.uri)), ("mimeType", brc.mimeType.map .string), ("blob", some (.string brc.blob))]

abbrev ResourceContents := Content.ResourceContents TextResourceContents BlobResourceContents

namespace ResourceContents

def uri : ResourceContents → String
  | .text trc => trc.uri
  | .blob brc => brc.uri

def members : ResourceContents → List (String × Json)
  | .text trc => trc.members
  | .blob brc => brc.members

def marshal (rc : ResourceContents) : Json := .object (members rc)

end ResourceContents

def unmarshalResourceContentsInternal : RawMessage → Except Error (Option ResourceContents) :=
  Content.ResourceContents.unmarshal (store TextResourceContents.fields · {}) (store BlobResourceContents.fields · {})

namespace ResourceContents

theorem probe_members (rc : ResourceContents) :
    ∃ probe, Content.ResourceContents.Probe.fields (members rc) {} = some probe ∧ probe.uri = uri rc := by
  cases rc with
  | text trc => simp [members, TextResourceContents.members, Content.ResourceContents.Probe.fields, uri]
  | blob brc => simp [members, BlobResourceContents.members, Content.ResourceContents.Probe.fields, uri]

theorem unmarshal_marshal (rc : ResourceContents) (named : uri rc ≠ "") :
    unmarshalResourceContentsInternal (some (marshal rc)) = .ok (some rc) := by
  cases rc with
  | text trc =>
    have probed : Content.ResourceContents.Probe.fields trc.members {} = some ⟨trc.uri, some trc.text, none⟩ := by
      simp [TextResourceContents.members, Content.ResourceContents.Probe.fields]
    have decoded : store TextResourceContents.fields (.object trc.members) {} = some trc := by
      simp [TextResourceContents.members, TextResourceContents.fields, BaseResourceContents.fields]
    exact Content.ResourceContents.unmarshal_text probed named decoded
  | blob brc =>
    have probed : Content.ResourceContents.Probe.fields brc.members {} = some ⟨brc.uri, none, some brc.blob⟩ := by
      simp [BlobResourceContents.members, Content.ResourceContents.Probe.fields]
    have decoded : store BlobResourceContents.fields (.object brc.members) {} = some brc := by
      simp [BlobResourceContents.members, BlobResourceContents.fields, BaseResourceContents.fields]
    exact Content.ResourceContents.unmarshal_blob probed named decoded

end ResourceContents

structure TextContent where
  type : String := ""
  text : String := ""
  annotations : Option Annotations := none

structure MediaContent where
  type : String := ""
  data : String := ""
  mimeType : String := ""
  annotations : Option Annotations := none

abbrev ImageContent := MediaContent

abbrev AudioContent := MediaContent

structure EmbeddedResource where
  type : String := ""
  resource : Option ResourceContents := none
  annotations : Option Annotations := none

inductive Content where
  | text (tc : TextContent)
  | image (ic : ImageContent)
  | audio (ac : AudioContent)
  | resource (er : EmbeddedResource)

namespace TextContent

def fields (members : List (String × Json)) (tc : TextContent) : Option TextContent := do
  let type ← field storeString "type" members tc.type
  let text ← field storeString "text" members tc.text
  let annotations ← field (storePointer (store Annotations.fields) {}) "annotations" members tc.annotations
  return { type, text, annotations }

def members (tc : TextContent) : List (String × Json) :=
  written [("type", some (.string tc.type)), ("text", some (.string tc.text)),
    ("annotations", tc.annotations.map Annotations.marshal)]

def normal (tc : TextContent) : TextContent := { tc with annotations := tc.annotations.map Annotations.normal }

theorem fields_members (tc : TextContent) : fields tc.members {} = some tc.normal := by
  simp [members, fields, normal]

end TextContent

namespace MediaContent

def fields (members : List (String × Json)) (mc : MediaContent) : Option MediaContent := do
  let type ← field storeString "type" members mc.type
  let data ← field storeString "data" members mc.data
  let mimeType ← field storeString "mimeType" members mc.mimeType
  let annotations ← field (storePointer (store Annotations.fields) {}) "annotations" members mc.annotations
  return { type, data, mimeType, annotations }

def members (mc : MediaContent) : List (String × Json) :=
  written [("type", some (.string mc.type)), ("data", some (.string mc.data)),
    ("mimeType", some (.string mc.mimeType)), ("annotations", mc.annotations.map Annotations.marshal)]

def normal (mc : MediaContent) : MediaContent := { mc with annotations := mc.annotations.map Annotations.normal }

theorem fields_members (mc : MediaContent) : fields mc.members {} = some mc.normal := by
  simp [members, fields, normal]

end MediaContent

namespace EmbeddedResource

def fields (members : List (String × Json)) (er : EmbeddedResource) : Option EmbeddedResource := do
  let type ← field storeString "type" members er.type
  let annotations ← field (storePointer (store Annotations.fields) {}) "annotations" members er.annotations
  return { er with type, annotations }

def unmarshalJSON (er : EmbeddedResource) : Json → Except Error EmbeddedResource
  | .null => .ok er
  | data => do
      let (raw, er) ← shadowed "EmbeddedResource base" storeRaw "resource" fields data none er
      if raw = none then
        .error (.message "EmbeddedResource missing required 'resource' field")
      else do
        let rc ← wrapping "EmbeddedResource.Resource" (unmarshalResourceContentsInternal raw)
        return { er with resource := rc }

def members (er : EmbeddedResource) : List (String × Json) :=
  written [("type", some (.string er.type)), ("resource", some (nullable ResourceContents.marshal er.resource)),
    ("annotations", er.annotations.map Annotations.marshal)]

def marshal (er : EmbeddedResource) : Json := .object er.members

def normal (er : EmbeddedResource) : EmbeddedResource :=
  { er with annotations := er.annotations.map Annotations.normal }

theorem normal_normal (er : EmbeddedResource) : er.normal.normal = er.normal := by
  simp [normal]

def Named (er : EmbeddedResource) : Prop := ∀ rc ∈ er.resource, rc.uri ≠ ""

theorem unmarshalJSON_marshal (er : EmbeddedResource) (named : er.Named) :
    unmarshalJSON {} er.marshal = .ok er.normal := by
  have resource : unmarshalResourceContentsInternal (some (nullable ResourceContents.marshal er.resource)) =
      .ok er.resource := by
    cases present : er.resource with
    | none => rfl
    | some rc => exact ResourceContents.unmarshal_marshal rc (named rc present)
  simp [unmarshalJSON, marshal, members, shadowed, fields, resource, normal]

theorem named_of_unmarshalJSON {er er' : EmbeddedResource} (decoded : unmarshalJSON {} er.marshal = .ok er') :
    er.Named := by
  rintro rc present unnamed
  obtain ⟨probe, probed, uri⟩ := ResourceContents.probe_members rc
  obtain ⟨error, failed⟩ : ∃ error,
      unmarshalResourceContentsInternal (some (ResourceContents.marshal rc)) = .error error :=
    Content.ResourceContents.unmarshal_unnamed probed (uri.trans unnamed)
  have resource : er.resource = some rc := present
  simp [unmarshalJSON, marshal, members, shadowed, fields, resource, nullable, failed] at decoded

end EmbeddedResource

namespace Content

def marshal : Content → Json
  | .text tc => .object tc.members
  | .image ic => .object ic.members
  | .audio ac => .object ac.members
  | .resource er => er.marshal

def normal : Content → Content
  | .text tc => .text tc.normal
  | .image ic => .image ic.normal
  | .audio ac => .audio ac.normal
  | .resource er => .resource er.normal

def type : Content → String
  | .text tc => tc.type
  | .image ic => ic.type
  | .audio ac => ac.type
  | .resource er => er.type

/-- The `Type` field says which kind of content this is, and a resource has a URI. -/
def Known : Content → Prop
  | .text tc => tc.type = "text"
  | .image ic => ic.type = "image"
  | .audio ac => ac.type = "audio"
  | .resource er => er.type = "resource" ∧ er.Named

theorem marshal_normal (c : Content) : c.normal.marshal = c.marshal := by
  cases c <;> simp [normal, marshal, TextContent.normal, TextContent.members, MediaContent.normal, MediaContent.members,
    EmbeddedResource.normal, EmbeddedResource.marshal, EmbeddedResource.members]

theorem normal_normal (c : Content) : c.normal.normal = c.normal := by
  cases c <;> simp [normal, TextContent.normal, MediaContent.normal, EmbeddedResource.normal]

end Content

def unmarshalContentInternal : RawMessage → Except Error (Option Content)
  | none | some .null => .ok none
  | some data => do
      let type ← given (.probing "probing content type" .json data) (probeType data)
      match type with
      | "text" => do
          let tc ← given (.wrapped "unmarshaling TextContent" .json) (store TextContent.fields data {})
          return some (.text tc)
      | "image" => do
          let ic ← given (.wrapped "unmarshaling ImageContent" .json) (store MediaContent.fields data {})
          return some (.image ic)
      | "audio" => do
          let ac ← given (.wrapped "unmarshaling AudioContent" .json) (store MediaContent.fields data {})
          return some (.audio ac)
      | "resource" => do
          let er ← wrapping "unmarshaling EmbeddedResource" (EmbeddedResource.unmarshalJSON {} data)
          return some (.resource er)
      | type => .error (.quoting ("unknown content type: '" ++ type ++ "' from data: ") data)

theorem probeType_marshal (c : Content) : probeType c.marshal = some c.type := by
  cases c <;> simp [probeType, Content.marshal, Content.type, TextContent.members, MediaContent.members,
    EmbeddedResource.marshal, EmbeddedResource.members]

theorem unmarshalContentInternal_marshal (c : Content) (known : c.Known) :
    unmarshalContentInternal (some c.marshal) = .ok (some c.normal) := by
  have probed := probeType_marshal c
  cases c with
  | text tc =>
    have type : tc.type = "text" := known
    rw [Content.marshal, Content.type] at probed
    simp [Content.marshal, unmarshalContentInternal, probed, type, tc.fields_members, Content.normal]
  | image ic =>
    have type : ic.type = "image" := known
    rw [Content.marshal, Content.type] at probed
    simp [Content.marshal, unmarshalContentInternal, probed, type, ic.fields_members, Content.normal]
  | audio ac =>
    have type : ac.type = "audio" := known
    rw [Content.marshal, Content.type] at probed
    simp [Content.marshal, unmarshalContentInternal, probed, type, ac.fields_members, Content.normal]
  | resource er =>
    obtain ⟨type, named⟩ := known
    have decoded := er.unmarshalJSON_marshal named
    rw [EmbeddedResource.marshal] at decoded
    rw [Content.marshal, Content.type, EmbeddedResource.marshal] at probed
    simp [Content.marshal, EmbeddedResource.marshal, unmarshalContentInternal, probed, type, decoded, Content.normal]

theorem unmarshalContentInternal_nullable (c : Option Content) (known : ∀ item ∈ c, item.Known) :
    unmarshalContentInternal (some (nullable Content.marshal c)) = .ok (c.map Content.normal) := by
  cases c with
  | none => rfl
  | some c => exact unmarshalContentInternal_marshal c (known c rfl)

abbrev PromptMessage := Message Content

abbrev SamplingMessage := Message Content

abbrev ReadResourceResult := Content.ReadResourceResult ResourceContents

structure CreateMessageResult where
  metadata : Option AnyMap := none
  role : String := ""
  content : Option Content := none
  model : String := ""
  stopReason : Option String := none

structure CallToolResult where
  metadata : Option AnyMap := none
  content : Option (List (Option Content)) := none
  isError : Option Bool := none

def PromptMessage.unmarshalJSON : PromptMessage → Json → Except Error PromptMessage :=
  Message.unmarshalJSON "PromptMessage" unmarshalContentInternal

def SamplingMessage.unmarshalJSON : SamplingMessage → Json → Except Error SamplingMessage :=
  Message.unmarshalJSON "SamplingMessage" unmarshalContentInternal

namespace ReadResourceResult

def unmarshalJSON : ReadResourceResult → Json → Except Error ReadResourceResult :=
  Content.ReadResourceResult.unmarshalJSON unmarshalResourceContentsInternal

def marshal (rrr : ReadResourceResult) : Json :=
  .object (written [("_meta", (AnyMap.nilEmpty rrr.metadata).map AnyMap.encode),
    ("contents", some (nullable (encodeSlice (nullable ResourceContents.marshal)) rrr.contents))])

theorem unmarshalJSON_marshal (rrr : ReadResourceResult)
    (named : ∀ contents ∈ rrr.contents.getD [], ∀ rc ∈ contents, ResourceContents.uri rc ≠ "") :
    unmarshalJSON {} (marshal rrr) =
      .ok ⟨AnyMap.nilEmpty rrr.metadata, some ((rrr.contents.getD []).map (·.map id))⟩ := by
  apply Content.ReadResourceResult.unmarshalJSON_object ResourceContents.marshal
  · simp
  · simp
  · intro contents member
    cases contents with
    | none => rfl
    | some rc => exact ResourceContents.unmarshal_marshal rc (named _ member rc rfl)

end ReadResourceResult

namespace CreateMessageResult

def fields (members : List (String × Json)) (cmr : CreateMessageResult) : Option CreateMessageResult := do
  let metadata ← field storeMap "_meta" members cmr.metadata
  let role ← field storeString "role" members cmr.role
  let model ← field storeString "model" members cmr.model
  let stopReason ← field (storePointer storeString "") "stopReason" members cmr.stopReason
  return { cmr with metadata, role, model, stopReason }

def unmarshalJSON (cmr : CreateMessageResult) : Json → Except Error CreateMessageResult
  | .null => .ok cmr
  | data => do
      let (raw, cmr) ← shadowed "CreateMessageResult base" storeRaw "content" fields data none cmr
      let c ← wrapping "CreateMessageResult.Content" (unmarshalContentInternal raw)
      return { cmr with content := c }

def marshal (cmr : CreateMessageResult) : Json :=
  .object (written [("_meta", (AnyMap.nilEmpty cmr.metadata).map AnyMap.encode), ("role", some (.string cmr.role)),
    ("content", some (nullable Content.marshal cmr.content)), ("model", some (.string cmr.model)),
    ("stopReason", cmr.stopReason.map .string)])

def normal (cmr : CreateMessageResult) : CreateMessageResult :=
  { cmr with metadata := AnyMap.nilEmpty cmr.metadata, content := cmr.content.map Content.normal }

theorem unmarshalJSON_marshal (cmr : CreateMessageResult) (known : ∀ c ∈ cmr.content, c.Known) :
    unmarshalJSON {} cmr.marshal = .ok cmr.normal := by
  have content := unmarshalContentInternal_nullable cmr.content known
  simp [unmarshalJSON, marshal, shadowed, fields, content, normal]

theorem normal_normal (cmr : CreateMessageResult) : cmr.normal.normal = cmr.normal := by
  have twice : Content.normal ∘ Content.normal = Content.normal := funext Content.normal_normal
  simp [normal, twice]

end CreateMessageResult

def contentListForCallToolResult : Json → Except Error (List (Option Content))
  | .null => .ok []
  | data => do
      let raws ← given .json (storeSlice storeRaw none data none)
      decodeItems (fun i raw =>
        wrapping ("contentListForCallToolResult item " ++ i.repr) (unmarshalContentInternal raw)) 0 (raws.getD [])

namespace CallToolResult

def fields (members : List (String × Json)) (ctr : CallToolResult) : Option CallToolResult := do
  let metadata ← field storeMap "_meta" members ctr.metadata
  let isError ← field (storePointer storeBool false) "isError" members ctr.isError
  return { ctr with metadata, isError }

def unmarshalJSON (ctr : CallToolResult) : Json → Except Error CallToolResult
  | .null => .ok ctr
  | data => do
      let (raw, ctr) ← shadowed "CallToolResult base" storeRaw "content" fields data none ctr
      match raw with
      | none | some .null => return ctr
      | some raw => do
          let cl ← wrapping "CallToolResult.Content" (contentListForCallToolResult raw)
          return { ctr with content := some cl }

def marshal (ctr : CallToolResult) : Json :=
  .object (written [("_meta", (AnyMap.nilEmpty ctr.metadata).map AnyMap.encode),
    ("content", some (nullable (encodeSlice (nullable Content.marshal)) ctr.content)),
    ("isError", ctr.isError.map .bool)])

def normal (ctr : CallToolResult) : CallToolResult where
  metadata := AnyMap.nilEmpty ctr.metadata
  content := nilEmpty (ctr.content.map (·.map (·.map Content.normal)))
  isError := ctr.isError

def Known (ctr : CallToolResult) : Prop := ∀ items ∈ ctr.content, ∀ item ∈ items, ∀ c ∈ item, c.Known

theorem unmarshalJSON_marshal (ctr : CallToolResult) (known : ctr.Known) : unmarshalJSON {} ctr.marshal =
      .ok ⟨AnyMap.nilEmpty ctr.metadata, ctr.content.map (·.map (·.map Content.normal)), ctr.isError⟩ := by
  obtain ⟨metadata, content, isError⟩ := ctr
  cases content with
  | none =>
    simp [unmarshalJSON, marshal, shadowed, fields, nullable]
  | some items =>
    have decoded : contentListForCallToolResult (encodeSlice (nullable Content.marshal) items) =
        .ok (items.map (·.map Content.normal)) := by
      have raws := storeSlice_raw (nullable Content.marshal) (some items)
      rw [nullable, Option.elim_some] at raws
      rw [encodeSlice, contentListForCallToolResult, ← encodeSlice, raws]
      · apply decodeItems_map
        intro i item member
        rw [unmarshalContentInternal_nullable item (known items rfl item member), wrapping_ok]
      · intro null
        cases null
    rw [encodeSlice] at decoded
    simp [unmarshalJSON, marshal, shadowed, fields, nullable, encodeSlice, decoded]

theorem normal_received (ctr : CallToolResult) :
    normal ⟨AnyMap.nilEmpty ctr.metadata, ctr.content.map (·.map (·.map Content.normal)), ctr.isError⟩ =
      ctr.normal := by
  simp [normal, Function.comp_def, Content.normal_normal]

end CallToolResult

theorem content_round_trip :
    (∀ ctr : CallToolResult, ctr.Known →
      RoundTrips CallToolResult.marshal (CallToolResult.unmarshalJSON {}) CallToolResult.normal ctr) ∧
    (∀ pm : PromptMessage, (∀ c ∈ pm.content, c.Known) →
      RoundTrips (Message.marshal Content.marshal) (PromptMessage.unmarshalJSON {})
        (Message.normal Content.normal) pm) ∧
    (∀ sm : SamplingMessage, (∀ c ∈ sm.content, c.Known) →
      RoundTrips (Message.marshal Content.marshal) (SamplingMessage.unmarshalJSON {})
        (Message.normal Content.normal) sm) ∧
    (∀ cmr : CreateMessageResult, (∀ c ∈ cmr.content, c.Known) →
      RoundTrips CreateMessageResult.marshal (CreateMessageResult.unmarshalJSON {}) CreateMessageResult.normal cmr) ∧
    (∀ rrr : ReadResourceResult,
      (∀ contents ∈ rrr.contents.getD [], ∀ rc ∈ contents, ResourceContents.uri rc ≠ "") →
      RoundTrips ReadResourceResult.marshal (ReadResourceResult.unmarshalJSON {})
        (Content.ReadResourceResult.normal id) rrr) ∧
    ∀ er : EmbeddedResource, er.Named →
      RoundTrips EmbeddedResource.marshal (EmbeddedResource.unmarshalJSON {}) EmbeddedResource.normal er := by
  refine ⟨fun ctr known => ?_, fun pm known => ?_, fun sm known => ?_, fun cmr known => ?_, fun rrr named => ?_,
    fun er named => ?_⟩
  · exact ⟨_, ctr.unmarshalJSON_marshal known, ctr.normal_received⟩
  · exact pm.roundTrips "PromptMessage" Content.normal_normal (unmarshalContentInternal_nullable pm.content known)
  · exact sm.roundTrips "SamplingMessage" Content.normal_normal (unmarshalContentInternal_nullable sm.content known)
  · exact ⟨_, cmr.unmarshalJSON_marshal known, cmr.normal_normal⟩
  · exact ⟨_, ReadResourceResult.unmarshalJSON_marshal rrr named,
      Content.ReadResourceResult.normal_received (fun _ => rfl) rrr⟩
  · exact ⟨_, er.unmarshalJSON_marshal named, er.normal_normal⟩

def note : TextContent := { type := "text", text := "done", annotations := some { audience := some [] } }

def file : EmbeddedResource where
  type := "resource"
  resource := some (.blob { uri := "file:///a", blob := "AA==" })

theorem content_round_trip_file :
    RoundTrips CallToolResult.marshal (CallToolResult.unmarshalJSON {}) CallToolResult.normal
      { content := some [some (.text note), some (.resource file), none], isError := some false } ∧
    RoundTrips (Message.marshal Content.marshal) (PromptMessage.unmarshalJSON {}) (Message.normal Content.normal)
      { role := "user", content := some (.resource file) } ∧
    RoundTrips (Message.marshal Content.marshal) (SamplingMessage.unmarshalJSON {}) (Message.normal Content.normal)
      { role := "user", content := some (.text note) } ∧
    RoundTrips CreateMessageResult.marshal (CreateMessageResult.unmarshalJSON {}) CreateMessageResult.normal
      { metadata := some .empty, content := some (.text note), stopReason := some "" } ∧
    RoundTrips ReadResourceResult.marshal (ReadResourceResult.unmarshalJSON {})
      (Content.ReadResourceResult.normal id) { contents := some [file.resource] } ∧
    RoundTrips EmbeddedResource.marshal (EmbeddedResource.unmarshalJSON {}) EmbeddedResource.normal file := by
  have text : (Content.text note).Known := rfl
  have named : file.Named := by simp [EmbeddedResource.Named, file, ResourceContents.uri]
  have resource : (Content.resource file).Known := ⟨rfl, named⟩
  obtain ⟨ctr, pm, sm, cmr, rrr, er⟩ := content_round_trip
  refine ⟨ctr _ ?_, pm _ ?_, sm _ ?_, cmr _ ?_, rrr _ ?_, er _ named⟩
  · simp [CallToolResult.Known, text, resource]
  · simp [resource]
  · simp [text]
  · simp [text]
  · simpa [EmbeddedResource.Named] using named

end Mcp.Protocol
