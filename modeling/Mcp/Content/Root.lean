import Mcp.Content.Decoding
import Mcp.Lib.Base64

namespace Mcp.Root
open Mcp.Content Mcp.Struct Mcp.Lib
open Streamable (foldName storeString)

structure TextContent where
  type : String := ""
  text : String := ""

structure MediaContent where
  type : String := ""
  data : Option Bytes := none
  mimeType : String := ""

abbrev ImageContent := MediaContent

abbrev AudioContent := MediaContent

inductive Content where
  | text (tc : TextContent)
  | image (ic : ImageContent)
  | audio (ac : AudioContent)
  | generic (fields : AnyMap)

def storeUInt8 (value : Json) (old : UInt8) : Option UInt8 :=
  match value with
  | .null => some old
  | .number q => if q.den = 1 ∧ 0 ≤ q.num ∧ q.num < 256 then some (.ofNat q.num.toNat) else none
  | _ => none

-- A string holds base64. An array of numbers is accepted as well.
def storeBytes (value : Json) (old : Option Bytes) : Option (Option Bytes) :=
  match value with
  | .string s => (Base64.Std.decode s).map some
  | value => storeSlice storeUInt8 0 value old

def encodeBytes (bytes : Bytes) : Json := .string (Base64.Std.encode bytes)

@[simp] theorem storeBytes_nullable (bytes : Option Bytes) :
    storeBytes (nullable encodeBytes bytes) none = some bytes := by
  cases bytes with
  | none => rfl
  | some bytes => simp [nullable, encodeBytes, storeBytes, Base64.Std.decode_encode]

namespace TextContent

def fields (members : List (String × Json)) (tc : TextContent) : Option TextContent := do
  let type ← field storeString "type" members tc.type
  let text ← field storeString "text" members tc.text
  return { type, text }

def members (tc : TextContent) : List (String × Json) :=
  written [("type", some (.string tc.type)), ("text", some (.string tc.text))]

theorem fields_members (tc : TextContent) : fields tc.members {} = some tc := by
  simp [members, fields]

theorem probeType_members (tc : TextContent) : probeType (.object tc.members) = some tc.type := by
  simp [probeType, members]

end TextContent

namespace MediaContent

def fields (members : List (String × Json)) (mc : MediaContent) : Option MediaContent := do
  let type ← field storeString "type" members mc.type
  let data ← field storeBytes "data" members mc.data
  let mimeType ← field storeString "mimeType" members mc.mimeType
  return { type, data, mimeType }

def members (mc : MediaContent) : List (String × Json) :=
  written [("type", some (.string mc.type)), ("data", some (nullable encodeBytes mc.data)),
    ("mimeType", some (.string mc.mimeType))]

theorem fields_members (mc : MediaContent) : fields mc.members {} = some mc := by
  simp [members, fields]

theorem probeType_members (mc : MediaContent) : probeType (.object mc.members) = some mc.type := by
  simp [probeType, members]

end MediaContent

namespace Content

def marshal : Content → Json
  | .text tc => .object tc.members
  | .image ic => .object ic.members
  | .audio ac => .object ac.members
  | .generic fields => fields.encode

def Known : Content → Prop
  | .text tc => tc.type = "text"
  | .image ic => ic.type = "image"
  | .audio ac => ac.type = "audio"
  | .generic _ => False

end Content

def unmarshalContent : RawMessage → Except Error (Option Content)
  | none | some .null => .ok none
  | some data => do
      let type ← given (.probing "probing content type" .json data) (probeType data)
      match type with
      | "text" => do
          let tc ← given (.wrapped "unmarshaling TextContent" .json) (store TextContent.fields data {})
          return some (.text tc)
      | "image" => do
          let ic ← given (.wrapped "unmarshaling ImageContent" .json) (store MediaContent.fields data {})
          return some (.image ic)
      | "audio" => do
          let ac ← given (.wrapped "unmarshaling AudioContent" .json) (store MediaContent.fields data {})
          return some (.audio ac)
      | type => do
          let generic ← given (.wrapped ("unmarshaling content (type " ++ type.quote ++ ")") .json) (storeMap data none)
          return generic.map .generic

theorem unmarshalContent_marshal (c : Content) (known : c.Known) :
    unmarshalContent (some c.marshal) = .ok (some c) := by
  cases c with
  | text tc =>
    have type : tc.type = "text" := known
    simp [Content.marshal, unmarshalContent, tc.probeType_members, type, tc.fields_members]
  | image ic =>
    have type : ic.type = "image" := known
    simp [Content.marshal, unmarshalContent, ic.probeType_members, type, ic.fields_members]
  | audio ac =>
    have type : ac.type = "audio" := known
    simp [Content.marshal, unmarshalContent, ac.probeType_members, type, ac.fields_members]
  | generic fields => exact known.elim

theorem unmarshalContent_nullable (c : Option Content) (known : ∀ item ∈ c, item.Known) :
    unmarshalContent (some (nullable Content.marshal c)) = .ok (c.map id) := by
  cases c with
  | none => rfl
  | some c => exact unmarshalContent_marshal c (known c rfl)

structure TextResourceContents where
  uri : String := ""
  mimeType : String := ""
  text : String := ""

structure BlobResourceContents where
  uri : String := ""
  mimeType : String := ""
  blob : String := ""

def omitEmpty (s : String) : Option Json := if s = "" then none else some (.string s)

@[simp] theorem restore_omitEmpty (s : String) : restore storeString "" (omitEmpty s) = some s := by
  unfold omitEmpty
  split_ifs with empty
  · rw [restore_none, empty]
  · rfl

def TextResourceContents.fields (members : List (String × Json)) (trc : TextResourceContents) :
    Option TextResourceContents := do
  let uri ← field storeString "uri" members trc.uri
  let mimeType ← field storeString "mimeType" members trc.mimeType
  let text ← field storeString "text" members trc.text
  return { uri, mimeType, text }

def BlobResourceContents.fields (members : List (String × Json)) (brc : BlobResourceContents) :
    Option BlobResourceContents := do
  let uri ← field storeString "uri" members brc.uri
  let mimeType ← field storeString "mimeType" members brc.mimeType
  let blob ← field storeString "blob" members brc.blob
  return { uri, mimeType, blob }

def TextResourceContents.members (trc : TextResourceContents) : List (String × Json) :=
  written [("uri", some (.string trc.uri)), ("mimeType", omitEmpty trc.mimeType), ("text", some (.string trc.text))]

def BlobResourceContents.members (brc : BlobResourceContents) : List (String × Json) :=
  written [("uri", some (.string brc.uri)), ("mimeType", omitEmpty brc.mimeType), ("blob", some (.string brc.blob))]

abbrev ResourceContents := Content.ResourceContents TextResourceContents BlobResourceContents

namespace ResourceContents

def uri : ResourceContents → String
  | .text trc => trc.uri
  | .blob brc => brc.uri

def marshal : ResourceContents → Json
  | .text trc => .object trc.members
  | .blob brc => .object brc.members

end ResourceContents

def unmarshalResourceContentsInternal : RawMessage → Except Error (Option ResourceContents) :=
  Content.ResourceContents.unmarshal (store TextResourceContents.fields · {}) (store BlobResourceContents.fields · {})

theorem unmarshalResourceContentsInternal_marshal (rc : ResourceContents) (named : ResourceContents.uri rc ≠ "") :
    unmarshalResourceContentsInternal (some (ResourceContents.marshal rc)) = .ok (some rc) := by
  cases rc with
  | text trc =>
    have probed : Content.ResourceContents.Probe.fields trc.members {} = some ⟨trc.uri, some trc.text, none⟩ := by
      simp [TextResourceContents.members, Content.ResourceContents.Probe.fields]
    have decoded : store TextResourceContents.fields (.object trc.members) {} = some trc := by
      simp [TextResourceContents.members, TextResourceContents.fields]
    exact Content.ResourceContents.unmarshal_text probed named decoded
  | blob brc =>
    have probed : Content.ResourceContents.Probe.fields brc.members {} = some ⟨brc.uri, none, some brc.blob⟩ := by
      simp [BlobResourceContents.members, Content.ResourceContents.Probe.fields]
    have decoded : store BlobResourceContents.fields (.object brc.members) {} = some brc := by
      simp [BlobResourceContents.members, BlobResourceContents.fields]
    exact Content.ResourceContents.unmarshal_blob probed named decoded

abbrev PromptMessage := Message Content

abbrev SamplingMessage := Message Content

abbrev ReadResourceResult := Content.ReadResourceResult ResourceContents

structure CreateMessageResult where
  metadata : Option AnyMap := none
  role : String := ""
  content : Option Content := none
  model : String := ""
  stopReason : String := ""

def PromptMessage.unmarshalJSON : PromptMessage → Json → Except Error PromptMessage :=
  Message.unmarshalJSON "PromptMessage" unmarshalContent

def SamplingMessage.unmarshalJSON : SamplingMessage → Json → Except Error SamplingMessage :=
  Message.unmarshalJSON "SamplingMessage" unmarshalContent

namespace ReadResourceResult

def unmarshalJSON : ReadResourceResult → Json → Except Error ReadResourceResult :=
  Content.ReadResourceResult.unmarshalJSON unmarshalResourceContentsInternal

def marshal (rrr : ReadResourceResult) : Json :=
  .object (written [("contents", some (nullable (encodeSlice (nullable ResourceContents.marshal)) rrr.contents)),
    ("_meta", (AnyMap.nilEmpty rrr.metadata).map AnyMap.encode)])

theorem unmarshalJSON_marshal (rrr : ReadResourceResult)
    (named : ∀ contents ∈ rrr.contents.getD [], ∀ rc ∈ contents, ResourceContents.uri rc ≠ "") :
    unmarshalJSON {} (marshal rrr) =
      .ok ⟨AnyMap.nilEmpty rrr.metadata, some ((rrr.contents.getD []).map (·.map id))⟩ := by
  apply Content.ReadResourceResult.unmarshalJSON_object ResourceContents.marshal
  · simp
  · simp
  · intro contents member
    cases contents with
    | none => rfl
    | some rc => exact unmarshalResourceContentsInternal_marshal rc (named _ member rc rfl)

end ReadResourceResult

namespace CreateMessageResult

def fields (members : List (String × Json)) (r : CreateMessageResult) : Option CreateMessageResult := do
  let metadata ← field storeMap "_meta" members r.metadata
  let role ← field storeString "role" members r.role
  let model ← field storeString "model" members r.model
  let stopReason ← field storeString "stopReason" members r.stopReason
  return { r with metadata, role, model, stopReason }

def unmarshalJSON (r : CreateMessageResult) : Json → Except Error CreateMessageResult
  | .null => .ok r
  | data => do
      let (raw, r) ← shadowed "CreateMessageResult base" storeRaw "content" fields data none r
      let content ← wrapping "CreateMessageResult.Content" (unmarshalContent raw)
      return { r with content }

def marshal (r : CreateMessageResult) : Json :=
  .object (written [("_meta", (AnyMap.nilEmpty r.metadata).map AnyMap.encode), ("role", some (.string r.role)),
    ("content", some (nullable Content.marshal r.content)), ("model", some (.string r.model)),
    ("stopReason", omitEmpty r.stopReason)])

def normal (r : CreateMessageResult) : CreateMessageResult := { r with metadata := AnyMap.nilEmpty r.metadata }

theorem unmarshalJSON_marshal (r : CreateMessageResult) (known : ∀ c ∈ r.content, c.Known) :
    unmarshalJSON {} r.marshal = .ok r.normal := by
  have content := unmarshalContent_nullable r.content known
  simp [unmarshalJSON, marshal, shadowed, fields, content, normal]

end CreateMessageResult

theorem root_content_round_trip :
    (∀ rrr : ReadResourceResult,
      (∀ contents ∈ rrr.contents.getD [], ∀ rc ∈ contents, ResourceContents.uri rc ≠ "") →
      RoundTrips ReadResourceResult.marshal (ReadResourceResult.unmarshalJSON {})
        (Content.ReadResourceResult.normal id) rrr) ∧
    (∀ r : CreateMessageResult, (∀ c ∈ r.content, c.Known) →
      RoundTrips CreateMessageResult.marshal (CreateMessageResult.unmarshalJSON {}) CreateMessageResult.normal r) ∧
    (∀ m : SamplingMessage, (∀ c ∈ m.content, c.Known) →
      RoundTrips (Message.marshal Content.marshal) (SamplingMessage.unmarshalJSON {}) id m) ∧
    ∀ m : PromptMessage, (∀ c ∈ m.content, c.Known) →
      RoundTrips (Message.marshal Content.marshal) (PromptMessage.unmarshalJSON {}) id m := by
  refine ⟨fun rrr named => ?_, fun r known => ?_, fun m known => ?_, fun m known => ?_⟩
  · exact ⟨_, ReadResourceResult.unmarshalJSON_marshal rrr named,
      Content.ReadResourceResult.normal_received (fun _ => rfl) rrr⟩
  · exact ⟨_, r.unmarshalJSON_marshal known, by simp [CreateMessageResult.normal]⟩
  · have read := unmarshalContent_nullable m.content known
    exact ⟨_, Message.unmarshalJSON_marshal "SamplingMessage" m read, by simp [Message.normal]⟩
  · have read := unmarshalContent_nullable m.content known
    exact ⟨_, Message.unmarshalJSON_marshal "PromptMessage" m read, by simp [Message.normal]⟩

theorem root_content_round_trip_image :
    RoundTrips ReadResourceResult.marshal (ReadResourceResult.unmarshalJSON {}) (Content.ReadResourceResult.normal id)
      { contents := some [some (.text { uri := "file:///a", text := "" })], metadata := some .empty } ∧
    RoundTrips CreateMessageResult.marshal (CreateMessageResult.unmarshalJSON {}) CreateMessageResult.normal
      { content := some (.image { type := "image", data := some [137, 80], mimeType := "image/png" }) } ∧
    RoundTrips (Message.marshal Content.marshal) (SamplingMessage.unmarshalJSON {}) id
      { role := "user", content := some (.audio { type := "audio" }) } ∧
    RoundTrips (Message.marshal Content.marshal) (PromptMessage.unmarshalJSON {}) id
      { role := "user", content := some (.text { type := "text", text := "hello" }) } := by
  obtain ⟨rrr, r, sm, pm⟩ := root_content_round_trip
  refine ⟨rrr _ ?_, r _ ?_, sm _ ?_, pm _ ?_⟩
  · simp [ResourceContents.uri]
  all_goals simp [Content.Known]

end Mcp.Root
