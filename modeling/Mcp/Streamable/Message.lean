import Mcp.Json

namespace Mcp.Streamable

structure JSONRPCMessage where
  id : Any := .nil
  method : String := ""
  params : Any := .nil
  result : Any := .nil
  error : Any := .nil
  jsonrpc : String := ""

namespace JSONRPCMessage

abbrev IsRequest (msg : JSONRPCMessage) : Prop := msg.id ≠ .nil ∧ msg.method ≠ ""

abbrev IsNotification (msg : JSONRPCMessage) : Prop := msg.id = .nil ∧ msg.method ≠ ""

abbrev IsResponse (msg : JSONRPCMessage) : Prop := msg.id ≠ .nil ∧ msg.method = ""

end JSONRPCMessage

-- Outside ASCII only U+017F (long s) and U+212A (Kelvin sign) fold to a letter of a field name.
def foldRune (c : Char) : Char :=
  if c = 'ſ' then 'S' else if c = 'K' then 'K' else c.toUpper

def foldName (name : String) : String := String.ofList (name.toList.map foldRune)

def storeString (value : Json) (old : String) : Option String :=
  match value with
  | .null => some old
  | .string s => some s
  | _ => none

def storeMember (msg : JSONRPCMessage) (member : String × Json) : Option JSONRPCMessage :=
  match foldName member.1 with
  | "ID" => some { msg with id := member.2.decode }
  | "METHOD" => (storeString member.2 msg.method).map fun s => { msg with method := s }
  | "PARAMS" => some { msg with params := member.2.decode }
  | "RESULT" => some { msg with result := member.2.decode }
  | "ERROR" => some { msg with error := member.2.decode }
  | "JSONRPC" => (storeString member.2 msg.jsonrpc).map fun s => { msg with jsonrpc := s }
  | _ => some msg

def unmarshal : Json → Option JSONRPCMessage
  | .null => some {}
  | .object members => members.foldlM storeMember {}
  | _ => none

def idMember : Json → Json
  | .object members =>
    members.foldl (fun found member => if foldName member.1 = "ID" then member.2 else found) .null
  | _ => .null

variable {msg next : JSONRPCMessage} {name : String}

theorem storeMember_id {member : String × Json} (stored : storeMember msg member = some next) :
    next.id = if foldName member.1 = "ID" then member.2.decode else msg.id := by
  unfold storeMember at stored
  split at stored
  case h_1 named =>
    cases stored
    simp [named]
  case h_2 named | h_6 named =>
    obtain ⟨s, -, rfl⟩ := Option.map_eq_some_iff.mp stored
    simp [named]
  case h_7 other _ _ _ _ _ =>
    cases stored
    rw [if_neg other]
  all_goals
    cases stored
    simp [*]

theorem unmarshal_id {body : Json} (decoded : unmarshal body = some msg) : msg.id = (idMember body).decode := by
  cases body with
  | null =>
    cases decoded
    rfl
  | object members =>
    have stored (members : List (String × Json)) (start : JSONRPCMessage) (found : Json)
        (same : start.id = found.decode) (folded : members.foldlM storeMember start = some msg) :
        msg.id = (members.foldl (fun found member =>
          if foldName member.1 = "ID" then member.2 else found) found).decode := by
      induction members generalizing start found with
      | nil =>
        cases folded
        exact same
      | cons member rest ih =>
        rw [List.foldlM_cons] at folded
        obtain ⟨next, first, folded⟩ := Option.bind_eq_some_iff.mp folded
        apply ih next _ _ folded
        rw [storeMember_id first, same]
        split_ifs with named <;> simp [named]
    exact stored members {} .null rfl decoded
  | _ => cases decoded

def omitNil (name : String) (value : Any) : List (String × Json) :=
  if value = .nil then [] else [(name, value.encode)]

def omitEmpty (name value : String) : List (String × Json) :=
  if value = "" then [] else [(name, .string value)]

def marshal (msg : JSONRPCMessage) : Json :=
  .object (omitNil "id" msg.id ++ omitEmpty "method" msg.method ++ omitNil "params" msg.params ++
    omitNil "result" msg.result ++ omitNil "error" msg.error ++ [("jsonrpc", .string msg.jsonrpc)])

def overWire (msg : JSONRPCMessage) : JSONRPCMessage where
  id := msg.id.encode.decode
  method := msg.method
  params := msg.params.encode.decode
  result := msg.result.encode.decode
  error := msg.error.encode.decode
  jsonrpc := msg.jsonrpc

theorem storeMember_field : (∀ msg value, storeMember msg ("id", value) = some { msg with id := value.decode }) ∧
    (∀ msg s, storeMember msg ("method", .string s) = some { msg with method := s }) ∧
    (∀ msg value, storeMember msg ("params", value) = some { msg with params := value.decode }) ∧
    (∀ msg value, storeMember msg ("result", value) = some { msg with result := value.decode }) ∧
    (∀ msg value, storeMember msg ("error", value) = some { msg with error := value.decode }) ∧
    ∀ msg s, storeMember msg ("jsonrpc", .string s) = some { msg with jsonrpc := s } := by
  have id : foldName "id" = "ID" := by decide
  have method : foldName "method" = "METHOD" := by decide
  have params : foldName "params" = "PARAMS" := by decide
  have result : foldName "result" = "RESULT" := by decide
  have error : foldName "error" = "ERROR" := by decide
  have jsonrpc : foldName "jsonrpc" = "JSONRPC" := by decide
  simp [storeMember, storeString, id, method, params, result, error, jsonrpc]

theorem foldlM_omitNil {value : Any}
    (stored : storeMember msg (name, value.encode) = some next) (absent : value = .nil → next = msg) :
    (omitNil name value).foldlM storeMember msg = some next := by
  unfold omitNil
  split_ifs with empty
  · rw [absent empty]
    rfl
  · rw [List.foldlM_cons, stored]
    rfl

theorem foldlM_omitEmpty {value : String}
    (stored : storeMember msg (name, .string value) = some next) (absent : value = "" → next = msg) :
    (omitEmpty name value).foldlM storeMember msg = some next := by
  unfold omitEmpty
  split_ifs with empty
  · rw [absent empty]
    rfl
  · rw [List.foldlM_cons, stored]
    rfl

theorem unmarshal_marshal (msg : JSONRPCMessage) : unmarshal (marshal msg) = some (overWire msg) := by
  obtain ⟨storeID, storeMethod, storeParams, storeResult, storeError, storeVersion⟩ := storeMember_field
  obtain ⟨id, method, params, result, error, version⟩ := msg
  have first := foldlM_omitNil (storeID {} id.encode) fun empty => by rw [empty]; rfl
  have second := foldlM_omitEmpty (storeMethod ⟨id.encode.decode, "", .nil, .nil, .nil, ""⟩ method)
    fun empty => by rw [empty]
  have third := foldlM_omitNil (storeParams ⟨id.encode.decode, method, .nil, .nil, .nil, ""⟩ params.encode)
    fun empty => by rw [empty]; rfl
  have fourth := foldlM_omitNil
    (storeResult ⟨id.encode.decode, method, params.encode.decode, .nil, .nil, ""⟩ result.encode)
    fun empty => by rw [empty]; rfl
  have fifth := foldlM_omitNil
    (storeError ⟨id.encode.decode, method, params.encode.decode, result.encode.decode, .nil, ""⟩ error.encode)
    fun empty => by rw [empty]; rfl
  simp only [unmarshal, marshal, List.foldlM_append, first, second, third, fourth, fifth,
    Option.bind_eq_bind, Option.bind_some, List.foldlM_cons, List.foldlM_nil, storeVersion]
  rfl

end Mcp.Streamable
