import Mcp.Sse.Events
import Mcp.Streamable.Transport

namespace Mcp.Streamable
open Mcp.Lib Bytes Sse

structure Encoder where
  encode : Json → Bytes
  nonempty : ∀ j, encode j ≠ []
  noNewline : ∀ j, newline ∉ encode j
  noReturn : ∀ j, carriageReturn ∉ encode j
  trimmed : ∀ j, Trimmed (encode j)

def writeSSEMessage (json : Encoder) (msg : StreamableMsg) : Bytes :=
  ofString "id: " ++ ofString msg.eventID ++ ofString "\n" ++
    (ofString "data: " ++ json.encode (marshal msg.message) ++ ofString "\n\n")

def keepAlive : Bytes := ofString ": keep-alive\n\n"

structure Numbered (json : Encoder) where
  sid : StreamID
  idx : Int
  message : JSONRPCMessage
  idShort : (ofString "id: " ++ ofString (formatEventID sid idx)).length < maxTokenSize
  dataShort : (ofString "data: " ++ json.encode (marshal message)).length < maxTokenSize

def Numbered.msg {json : Encoder} (m : Numbered json) : StreamableMsg := ⟨m.message, formatEventID m.sid m.idx⟩

inductive Item (json : Encoder) where
  | message (m : Numbered json)
  | keepAlive

variable {json : Encoder}

def Item.bytes : Item json → Bytes
  | .message m => writeSSEMessage json m.msg
  | .keepAlive => Streamable.keepAlive

def Item.event : Item json → Option Sse.Event
  | .message m => some { id := ofString m.msg.eventID, data := json.encode (marshal m.message) }
  | .keepAlive => none

variable {c : Char} {sid : StreamID} {idx : Int} {b : UInt8}

theorem mem_formatInt {n : Int} (member : c ∈ formatInt n) : c = '-' ∨ c.isDigit := by
  have digit {c : Char} {n : Nat} (member : c ∈ Nat.toDigits 10 n) : c.isDigit :=
    Nat.isDigit_of_mem_toDigits (by decide) (by decide) member
  cases n with
  | ofNat n => exact .inr (digit member)
  | negSucc n =>
    obtain rfl | member := List.mem_cons.mp member
    · exact .inl rfl
    · exact .inr (digit member)

theorem mem_formatEventID (member : c ∈ (formatEventID sid idx).toList) : c = '-' ∨ c = '_' ∨ c.isDigit := by
  rw [formatEventID, String.toList_ofList, List.mem_append, List.mem_cons] at member
  obtain first | rfl | second := member
  · obtain sign | digit := mem_formatInt first
    · exact .inl sign
    · exact .inr (.inr digit)
  · exact .inr (.inl rfl)
  · obtain sign | digit := mem_formatInt second
    · exact .inl sign
    · exact .inr (.inr digit)

theorem byte_formatEventID (member : b ∈ ofString (formatEventID sid idx)) : 45 ≤ b ∧ b ≤ 95 := by
  obtain ⟨c, member, encoded⟩ := List.mem_flatMap.mp member
  have range : 45 ≤ c.val.toNat ∧ c.val.toNat ≤ 95 := by
    obtain rfl | rfl | digit := mem_formatEventID member
    · decide
    · decide
    · have range := digit_range digit
      omega
  have ascii : String.utf8EncodeChar c = [UInt8.ofNat c.val.toNat] := by
    unfold String.utf8EncodeChar
    exact if_pos (by omega)
  rw [ascii, List.mem_singleton] at encoded
  subst encoded
  have small : c.val.toNat < UInt8.size := Nat.lt_of_le_of_lt range.2 (by decide)
  constructor
  · rw [UInt8.le_iff_toNat_le, UInt8.toNat_ofNat_of_lt' small]
    exact range.1
  · rw [UInt8.le_iff_toNat_le, UInt8.toNat_ofNat_of_lt' small]
    exact range.2

theorem formatEventID_ne_nil (sid : StreamID) (idx : Int) : ofString (formatEventID sid idx) ≠ [] := by
  have underscore : 95 ∈ ofString (formatEventID sid idx) := by
    apply List.mem_flatMap.mpr
    exact ⟨'_', by simp [formatEventID], by decide⟩
  exact List.ne_nil_of_mem underscore

theorem trimmed_formatEventID (sid : StreamID) (idx : Int) : Trimmed (ofString (formatEventID sid idx)) := by
  apply trimmed_of_disjoint
  intro space member
  have outside : ∀ space ∈ spaces, ∃ b ∈ space, ¬ (45 ≤ b ∧ b ≤ 95) := by decide
  obtain ⟨b, within, other⟩ := outside space member
  exact ⟨b, within, fun used => other (byte_formatEventID used)⟩

theorem not_mem_formatEventID (outside : ¬ (45 ≤ b ∧ b ≤ 95)) (sid : StreamID) (idx : Int) :
    b ∉ ofString (formatEventID sid idx) :=
  fun used => outside (byte_formatEventID used)

def field (name : String) (value : Bytes) (plainName : newline ∉ ofString name ∧ carriageReturn ∉ ofString name)
    (plainValue : newline ∉ value ∧ carriageReturn ∉ value)
    (short : (ofString name ++ ofString ": " ++ value).length < maxTokenSize) : Line where
  text := ofString name ++ ofString ": " ++ value
  crlf := false
  whole := by
    have space : newline ∉ ofString ": " := by decide
    simp [plainName.1, plainValue.1, space]
  plain := by
    have space : carriageReturn ∉ ofString ": " := by decide
    intro last
    simpa [plainName.2, plainValue.2, space] using List.mem_of_getLast? last
  field := by
    have mark : colon ∈ ofString ": " := by decide
    simp [mark]
  short := short

section Field

variable {name : String} {value : Bytes} {plainName : newline ∉ ofString name ∧ carriageReturn ∉ ofString name}
  {plainValue : newline ∉ value ∧ carriageReturn ∉ value}
  {short : (ofString name ++ ofString ": " ++ value).length < maxTokenSize}

theorem field_split (noColon : colon ∉ ofString name) :
    (field name value plainName plainValue short).name = ofString name ∧
      (field name value plainName plainValue short).rest = 32 :: value := by
  have text : (field name value plainName plainValue short).text = ofString name ++ colon :: 32 :: value := by
    change ofString name ++ ofString ": " ++ value = _
    rw [List.append_assoc]
    rfl
  have found : cut colon (field name value plainName plainValue short).text =
      some ((field name value plainName plainValue short).name, (field name value plainName plainValue short).rest) :=
    cut_of_mem (field name value plainName plainValue short).field
  rw [text, cut_append noColon] at found
  obtain ⟨sameName, sameRest⟩ := Prod.mk.inj (Option.some.inj found)
  exact ⟨sameName.symm, sameRest.symm⟩

theorem field_value (noColon : colon ∉ ofString name) (trimmed : Trimmed value) :
    (field name value plainName plainValue short).value = value := by
  rw [Line.value, (field_split noColon).2, trimSpace_space trimmed]

end Field

def Numbered.idLine (m : Numbered json) : Line :=
  field "id" (ofString m.msg.eventID) (by decide)
    ⟨not_mem_formatEventID (by decide) m.sid m.idx, not_mem_formatEventID (by decide) m.sid m.idx⟩ m.idShort

def Numbered.dataLine (m : Numbered json) : Line :=
  field "data" (json.encode (marshal m.message)) (by decide) ⟨json.noNewline _, json.noReturn _⟩ m.dataShort

def commentLine : Line := field "" (ofString "keep-alive") (by decide) (by decide) (by decide)

def Item.block : Item json → Block
  | .message m => ⟨[m.idLine, m.dataLine], false⟩
  | .keepAlive => ⟨[commentLine], false⟩

theorem Item.bytes_block (item : Item json) : item.block.bytes = item.bytes := by
  cases item with
  | message m =>
    have id : ofString "id" ++ ofString ": " = ofString "id: " := rfl
    have data : ofString "data" ++ ofString ": " = ofString "data: " := rfl
    have one : ofString "\n" = [newline] := rfl
    have two : ofString "\n\n" = [newline, newline] := rfl
    simp [Item.block, Item.bytes, Block.bytes, Line.bytes, Numbered.idLine, Numbered.dataLine, field, ending,
      writeSSEMessage, ← id, ← data, one, two, Numbered.msg]
  | keepAlive => rfl

theorem Numbered.idLine_field (m : Numbered json) :
    m.idLine.name = ofString "id" ∧ m.idLine.value = ofString m.msg.eventID :=
  ⟨(field_split (by decide)).1, field_value (by decide) (trimmed_formatEventID m.sid m.idx)⟩

theorem Numbered.dataLine_field (m : Numbered json) :
    m.dataLine.name = ofString "data" ∧ m.dataLine.value = json.encode (marshal m.message) :=
  ⟨(field_split (by decide)).1, field_value (by decide) (json.trimmed _)⟩

theorem Item.yielded_block (item : Item json) : item.block.yielded = item.event := by
  cases item with
  | keepAlive => rfl
  | message m =>
    have event : (Block.mk [m.idLine, m.dataLine] false).event =
        { id := ofString m.msg.eventID, data := json.encode (marshal m.message) } := by
      obtain ⟨idOther, dataOther, dataOther'⟩ := fields_ne
      simp [Block.event, Block.values, m.idLine_field, m.dataLine_field, idOther, dataOther, dataOther',
        dataOther'.symm, List.intercalate]
    rw [Item.block, Block.yielded, event, if_neg (fun unnamed => formatEventID_ne_nil _ _ unnamed.2), Item.event]

/-- Whatever messages and keep-alive comments are written on a response, in whatever order, and however the
network splits it, `scanEvents` finds the messages with their ids and nothing else. -/
theorem scanEvents_response {ρ : Type*} [Source ρ] (json : Encoder) (items : List (Item json)) (r : ρ)
    (response : Source.rest r = items.flatMap Item.bytes) :
    scanEvents r = (items.filterMap Item.event, none) := by
  have stream : Source.rest r = (items.map Item.block).flatMap Block.bytes := by
    rw [response, List.flatMap_map]
    simp only [Item.bytes_block]
  rw [scanEvents_eq stream, scanLines_blocks, List.filterMap_map]
  simp only [Function.comp_def, Item.yielded_block]

-- one 7 more than the message has members
def sevens : Encoder where
  encode
    | .object members => List.replicate (members.length + 1) 55
    | _ => [55]
  nonempty value := by cases value <;> simp
  noNewline value := by cases value <;> simp [List.mem_replicate, newline]
  noReturn value := by cases value <;> simp [List.mem_replicate, carriageReturn]
  trimmed value := by
    have other : ∀ space ∈ spaces, ∃ b ∈ space, b ≠ 55 := by decide
    refine trimmed_of_disjoint fun space known => ?_
    obtain ⟨b, member, differs⟩ := other space known
    exact ⟨b, member, by cases value <;> simp [List.mem_replicate, differs]⟩

theorem scanEvents_response_split :
    scanEvents (⟨[ofString "id: 0_3\nda", ofString "ta: 777\n\n: keep-al", ofString "ive\n\nid: 0_4\ndata: 77\n\n"]⟩ :
        Chunks) =
      ([{ id := ofString "0_3", data := ofString "777" }, { id := ofString "0_4", data := ofString "77" }], none) :=
  scanEvents_response sevens
    [.message ⟨0, 3, { method := "ping", jsonrpc := "2.0" }, by decide, by decide⟩, .keepAlive,
      .message ⟨0, 4, { jsonrpc := "2.0" }, by decide, by decide⟩] _ (by decide)

end Mcp.Streamable
