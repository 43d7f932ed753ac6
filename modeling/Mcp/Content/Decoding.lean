import Mcp.JsonStruct

namespace Mcp.Content
open Mcp.Struct
open Streamable (foldName storeString)

variable {α ρ σ κ τ β : Type}

@[simp] theorem foldName_names :
    foldName "_meta" = "_META" ∧ foldName "annotations" = "ANNOTATIONS" ∧ foldName "audience" = "AUDIENCE" ∧
    foldName "blob" = "BLOB" ∧ foldName "content" = "CONTENT" ∧ foldName "contents" = "CONTENTS" ∧
    foldName "data" = "DATA" ∧ foldName "isError" = "ISERROR" ∧ foldName "mimeType" = "MIMETYPE" ∧
    foldName "model" = "MODEL" ∧ foldName "priority" = "PRIORITY" ∧ foldName "resource" = "RESOURCE" ∧
    foldName "role" = "ROLE" ∧ foldName "stopReason" = "STOPREASON" ∧
    foldName "structuredContent" = "STRUCTUREDCONTENT" ∧ foldName "text" = "TEXT" ∧ foldName "type" = "TYPE" ∧
    foldName "uri" = "URI" := by
  decide

inductive Error where
  | json
  | message (text : String)
  | quoting (text : String) (data : Json)
  | wrapped (context : String) (cause : Error)
  | probing (context : String) (cause : Error) (data : Json)

def given (error : Error) (result : Option α) : Except Error α := result.elim (.error error) .ok

def wrapping (context : String) (result : Except Error α) : Except Error α := result.mapError (.wrapped context)

@[simp] theorem ok_bind (x : α) (f : α → Except Error β) : (Except.ok x >>= f) = f x := rfl

@[simp] theorem error_bind (error : Error) (f : α → Except Error β) : (Except.error error >>= f) = .error error := rfl

@[simp] theorem pure_eq_ok (x : α) : (pure x : Except Error α) = .ok x := rfl

theorem bind_eq_ok {result : Except Error α} {f : α → Except Error β} {y : β} :
    (result >>= f) = .ok y ↔ ∃ x, result = .ok x ∧ f x = .ok y := by
  cases result <;> simp

@[simp] theorem given_some (error : Error) (x : α) : given error (some x) = .ok x := rfl

@[simp] theorem wrapping_ok (context : String) (x : α) : wrapping context (.ok x) = .ok x := rfl

@[simp] theorem wrapping_error (context : String) (error : Error) :
    wrapping context (.error error : Except Error α) = .error (.wrapped context error) := rfl

def shadowed (context : String) (store : Json → ρ → Option ρ) (name : String)
    (fields : List (String × Json) → σ → Option σ) (data : Json) (raw : ρ) (receiver : σ) : Except Error (ρ × σ) :=
  given (.wrapped context .json) (Struct.store (fun members old => do
    let raw ← field store name members old.1
    let base ← fields members old.2
    return (raw, base)) data (raw, receiver))

/-- Decoding what `x` is encoded as succeeds, with `x` up to what `normal` identifies. -/
def RoundTrips (marshal : α → Json) (unmarshal : Json → Except Error α) (normal : α → α) (x : α) : Prop :=
  ∃ y, unmarshal (marshal x) = .ok y ∧ normal y = normal x

def decodeItems (decode : Nat → RawMessage → Except Error α) : Nat → List RawMessage → Except Error (List α)
  | _, [] => .ok []
  | i, raw :: rest => do
      let item ← decode i raw
      let items ← decodeItems decode (i + 1) rest
      return item :: items

theorem decodeItems_map {decode : Nat → RawMessage → Except Error α} {write : κ → Json} {f : κ → α} {xs : List κ}
    (each : ∀ i, ∀ x ∈ xs, decode i (some (write x)) = .ok (f x)) (i : Nat) :
    decodeItems decode i (xs.map fun x => some (write x)) = .ok (xs.map f) := by
  induction xs generalizing i with
  | nil => rfl
  | cons x xs ih =>
    have first := each i x List.mem_cons_self
    have others := ih (fun i x member => each i x (List.mem_cons_of_mem _ member)) (i + 1)
    rw [List.map_cons, decodeItems, first, List.map_cons]
    simp [others]

section
variable {γ : Type} {decode : Nat → RawMessage → Except Error α} {write : κ → Json} {back : α → Json} {g : Json → γ}
  {good : κ → Prop}

theorem decodeItems_iff (each : ∀ i x, (∃ y, decode i (some (write x)) = .ok y ∧ g (back y) = g (write x)) ↔ good x)
    (xs : List κ) (i : Nat) : (∃ ys, decodeItems decode i (xs.map fun x => some (write x)) = .ok ys ∧
      ys.map (fun y => g (back y)) = xs.map fun x => g (write x)) ↔ ∀ x ∈ xs, good x := by
  induction xs generalizing i with
  | nil => simp [decodeItems]
  | cons x xs ih =>
    rw [List.forall_mem_cons, ← each i x, ← ih (i + 1)]
    constructor
    · rintro ⟨ys, decoded, same⟩
      rw [List.map_cons, decodeItems] at decoded
      obtain ⟨y, first, decoded⟩ := bind_eq_ok.mp decoded
      obtain ⟨rest, others, decoded⟩ := bind_eq_ok.mp decoded
      cases decoded
      rw [List.map_cons, List.map_cons, List.cons.injEq] at same
      exact ⟨⟨y, first, same.1⟩, rest, others, same.2⟩
    · rintro ⟨⟨y, first, same⟩, ys, others, same'⟩
      refine ⟨y :: ys, ?_, by rw [List.map_cons, List.map_cons, same, same']⟩
      simp [decodeItems, first, others]

end

def probeType (data : Json) : Option String := Struct.store (field storeString "type") data ""

inductive ResourceContents (τ β : Type) where
  | text (contents : τ)
  | blob (contents : β)

namespace ResourceContents

structure Probe where
  uri : String := ""
  text : Option String := none
  blob : Option String := none

def Probe.fields (members : List (String × Json)) (probe : Probe) : Option Probe := do
  let uri ← field storeString "uri" members probe.uri
  let text ← field (storePointer storeString "") "text" members probe.text
  let blob ← field (storePointer storeString "") "blob" members probe.blob
  return { uri, text, blob }

-- `unmarshalResourceContentsInternal`, for the structs `τ` and `β` of a package.
def unmarshal (text : Json → Option τ) (blob : Json → Option β) :
    RawMessage → Except Error (Option (ResourceContents τ β))
  | none | some .null => .ok none
  | some data => do
      let probe ← given (.probing "probing resource contents fields" .json data) (Struct.store Probe.fields data {})
      if probe.uri = "" then
        .error (.quoting "resource contents missing URI field from data: " data)
      else if probe.text.isSome ∧ probe.blob.isSome then
        .error (.message ("resource contents (uri: " ++ probe.uri ++ ") has both text and blob fields"))
      else if probe.text.isSome then do
        let contents ← given (.wrapped ("unmarshaling TextResourceContents (uri: " ++ probe.uri ++ ")") .json)
          (text data)
        return some (.text contents)
      else if probe.blob.isSome then do
        let contents ← given (.wrapped ("unmarshaling BlobResourceContents (uri: " ++ probe.uri ++ ")") .json)
          (blob data)
        return some (.blob contents)
      else
        .error (.message ("resource contents (uri: " ++ probe.uri ++ ") has neither text nor blob field"))

variable {text : Json → Option τ} {blob : Json → Option β} {members : List (String × Json)} {uri payload : String}

theorem unmarshal_text {contents : τ} (probed : Probe.fields members {} = some ⟨uri, some payload, none⟩)
    (named : uri ≠ "") (decoded : text (.object members) = some contents) :
    unmarshal text blob (some (.object members)) = .ok (some (.text contents)) := by
  simp [unmarshal, probed, named, decoded]

theorem unmarshal_blob {contents : β} (probed : Probe.fields members {} = some ⟨uri, none, some payload⟩)
    (named : uri ≠ "") (decoded : blob (.object members) = some contents) :
    unmarshal text blob (some (.object members)) = .ok (some (.blob contents)) := by
  simp [unmarshal, probed, named, decoded]

theorem unmarshal_unnamed {probe : Probe} (probed : Probe.fields members {} = some probe) (unnamed : probe.uri = "") :
    ∃ error, unmarshal text blob (some (.object members)) = .error error := by
  simp [unmarshal, probed, unnamed]

end ResourceContents

section Results
variable {content : RawMessage → Except Error (Option κ)} {item : κ → Json} {f : κ → κ}

structure Message (κ : Type) where
  role : String := ""
  content : Option κ := none

namespace Message

def fields (members : List (String × Json)) (m : Message κ) : Option (Message κ) := do
  let role ← field storeString "role" members m.role
  return { m with role }

def unmarshalJSON (type : String) (content : RawMessage → Except Error (Option κ)) (m : Message κ) :
    Json → Except Error (Message κ)
  | .null => .ok m
  | data => do
      let (raw, m) ← shadowed (type ++ " base") storeRaw "content" fields data none m
      let c ← wrapping (type ++ ".Content") (content raw)
      return { m with content := c }

def marshal (item : κ → Json) (m : Message κ) : Json :=
  .object (written [("role", some (.string m.role)), ("content", some (nullable item m.content))])

def normal (f : κ → κ) (m : Message κ) : Message κ := { m with content := m.content.map f }

theorem unmarshalJSON_marshal (type : String) (m : Message κ)
    (read : content (some (nullable item m.content)) = .ok (m.content.map f)) :
    unmarshalJSON type content {} (marshal item m) = .ok (m.normal f) := by
  simp [unmarshalJSON, marshal, shadowed, fields, read, normal]

theorem roundTrips (type : String) (idempotent : ∀ c, f (f c) = f c) (m : Message κ)
    (read : content (some (nullable item m.content)) = .ok (m.content.map f)) :
    RoundTrips (marshal item) (unmarshalJSON type content {}) (normal f) m := by
  have twice : f ∘ f = f := funext idempotent
  exact ⟨_, unmarshalJSON_marshal type m read, by simp [normal, twice]⟩

end Message

structure ReadResourceResult (κ : Type) where
  metadata : Option AnyMap := none
  contents : Option (List (Option κ)) := none

namespace ReadResourceResult

def fields (members : List (String × Json)) (result : ReadResourceResult κ) : Option (ReadResourceResult κ) := do
  let metadata ← field storeMap "_meta" members result.metadata
  return { result with metadata }

def unmarshalJSON (contents : RawMessage → Except Error (Option κ)) (result : ReadResourceResult κ) :
    Json → Except Error (ReadResourceResult κ)
  | .null => .ok result
  | data => do
      let (raws, result) ←
        shadowed "ReadResourceResult base" (storeSlice storeRaw none) "contents" fields data none result
      let items ← decodeItems (fun i raw =>
        wrapping ("ReadResourceResult.Contents item " ++ i.repr) (contents raw)) 0 (raws.getD [])
      return { result with contents := some items }

def normal (f : κ → κ) (result : ReadResourceResult κ) : ReadResourceResult κ where
  metadata := AnyMap.nilEmpty result.metadata
  contents := nilEmpty (result.contents.map (·.map (·.map f)))

theorem unmarshalJSON_object (item : κ → Json) {members : List (String × Json)} {result : ReadResourceResult κ}
    (metadata : field storeMap "_meta" members none = some (AnyMap.nilEmpty result.metadata))
    (contents : field (storeSlice storeRaw none) "contents" members none =
      some (result.contents.map (·.map fun c => some (nullable item c))))
    (read : ∀ c ∈ result.contents.getD [], content (some (nullable item c)) = .ok (c.map f)) :
    unmarshalJSON content {} (.object members) =
      .ok ⟨AnyMap.nilEmpty result.metadata, some ((result.contents.getD []).map (·.map f))⟩ := by
  have raws : (result.contents.map (·.map fun c => some (nullable item c))).getD [] =
      (result.contents.getD []).map fun c => some (nullable item c) := by
    cases result.contents <;> rfl
  have items : decodeItems (fun i raw => wrapping ("ReadResourceResult.Contents item " ++ i.repr) (content raw)) 0
      ((result.contents.getD []).map fun c => some (nullable item c)) =
        .ok ((result.contents.getD []).map (·.map f)) := by
    apply decodeItems_map
    intro i c member
    rw [read c member, wrapping_ok]
  simp [unmarshalJSON, shadowed, fields, metadata, contents, raws, items]

theorem normal_received (idempotent : ∀ c, f (f c) = f c) (result : ReadResourceResult κ) :
    normal f ⟨AnyMap.nilEmpty result.metadata, some ((result.contents.getD []).map (·.map f))⟩ = result.normal f := by
  have twice : f ∘ f = f := funext idempotent
  obtain ⟨metadata, contents⟩ := result
  cases contents <;> simp [normal, nilEmpty, twice]

end ReadResourceResult

end Results

end Mcp.Content
