import Mcp.JsonText
import Mcp.Streamable.Transport

namespace Mcp.Streamable
open Mcp.Lib Function

def relay (p : Text) : Option Json := (unmarshal p.parse).map marshal

def StreamableClientRWCAdapter.write (p : Text) : Option Json := relay p

def StreamableClientRWCAdapter.read (data : Text) : Option Json := relay data

def StreamableRWCAdapter.write (transport : StreamableServerTransport) (p : Text) :
    Option (Except Fault StreamableServerTransport) :=
  (unmarshal p.parse).map transport.write

structure Transparent (text : Text) : Prop where
  clientWrite : ∃ out, StreamableClientRWCAdapter.write text = some out ∧ text.Same out
  clientRead : ∃ out, StreamableClientRWCAdapter.read text = some out ∧ text.Same out
  -- The message that a successful `Write` has added is what `writeSSEMessage` serialises.
  serverWrite : ∀ t t', StreamableRWCAdapter.write t text = some (.ok t') →
    ∃ sid msg, t'.messages sid = t.messages sid ++ [msg] ∧ text.Same (marshal msg.message)

inductive Field where
  | id
  | method
  | params
  | result
  | error
  | jsonrpc
  deriving DecidableEq

namespace Field

def all : List Field := [.id, .method, .params, .result, .error, .jsonrpc]

def name : Field → String
  | .id => "id"
  | .method => "method"
  | .params => "params"
  | .result => "result"
  | .error => "error"
  | .jsonrpc => "jsonrpc"

def value (msg : JSONRPCMessage) : Field → Json
  | .id => msg.id.encode
  | .method => .string msg.method
  | .params => msg.params.encode
  | .result => msg.result.encode
  | .error => msg.error.encode
  | .jsonrpc => .string msg.jsonrpc

def omitted (msg : JSONRPCMessage) : Field → Bool
  | .id => msg.id = .nil
  | .method => msg.method = ""
  | .params => msg.params = .nil
  | .result => msg.result = .nil
  | .error => msg.error = .nil
  | .jsonrpc => false

theorem mem_all (f : Field) : f ∈ all := by cases f <;> decide

variable {f g : Field} {msg : JSONRPCMessage} {value : Json}

theorem name_injective (same : f.name = g.name) : f = g := by
  revert same
  cases f <;> cases g <;> decide

def members (msg : JSONRPCMessage) : List (String × Json) :=
  (all.filter fun f => !f.omitted msg).map fun f => (f.name, f.value msg)

theorem marshal_eq (msg : JSONRPCMessage) : marshal msg = .object (members msg) := by
  have keep (f : Field) (rest : List Field) :
      ((f :: rest).filter fun f => !f.omitted msg).map (fun f => (f.name, f.value msg)) =
        (if f.omitted msg then [] else [(f.name, f.value msg)]) ++
          (rest.filter fun f => !f.omitted msg).map fun f => (f.name, f.value msg) := by
    cases h : f.omitted msg <;> simp [h]
  simp only [members, all, keep, marshal, omitNil, omitEmpty]
  simp [omitted, name, value]

theorem mem_members {name : String} :
    (name, value) ∈ members msg ↔ ∃ f : Field, f.omitted msg = false ∧ f.name = name ∧ f.value msg = value := by
  simp [members, mem_all]

theorem names_members (msg : JSONRPCMessage) : ((members msg).map Prod.fst).Nodup := by
  have names : (members msg).map Prod.fst = (all.filter fun f => !f.omitted msg).map name := by
    simp [members, comp_def]
  have distinct : (all.map name).Nodup := by decide
  rw [names]
  exact distinct.sublist (List.filter_sublist.map name)

def store (value : Json) (msg : JSONRPCMessage) : Field → Option JSONRPCMessage
  | .id => some { msg with id := value.decode }
  | .method => (storeString value msg.method).map fun s => { msg with method := s }
  | .params => some { msg with params := value.decode }
  | .result => some { msg with result := value.decode }
  | .error => some { msg with error := value.decode }
  | .jsonrpc => (storeString value msg.jsonrpc).map fun s => { msg with jsonrpc := s }

theorem storeMember_name (f : Field) (value : Json) (msg : JSONRPCMessage) :
    storeMember msg (f.name, value) = f.store value msg := by
  have folded : foldName f.name = match f with
      | .id => "ID"
      | .method => "METHOD"
      | .params => "PARAMS"
      | .result => "RESULT"
      | .error => "ERROR"
      | .jsonrpc => "JSONRPC" := by
    cases f <;> decide
  cases f <;> simp only [storeMember, folded, store]

def Reads (value : Json) : Field → Prop
  | .method | .jsonrpc => ∃ s, value = .string s
  | .id | .params | .result | .error => True

theorem store_of_reads (reads : f.Reads value) (msg : JSONRPCMessage) :
    ∃ next, f.store value msg = some next ∧ f.value next = value.decode.encode := by
  cases f with
  | id | params | result | error => exact ⟨_, rfl, rfl⟩
  | method | jsonrpc =>
    obtain ⟨s, rfl⟩ := reads
    exact ⟨_, rfl, rfl⟩

theorem value_of_store {next : JSONRPCMessage} (stored : f.store value msg = some next)
    (different : g ≠ f) : g.value next = g.value msg := by
  cases f with
  | id | params | result | error =>
    cases stored
    cases g <;> first | rfl | exact absurd rfl different
  | method | jsonrpc =>
    obtain ⟨s, -, rfl⟩ := Option.map_eq_some_iff.mp stored
    cases g <;> first | rfl | exact absurd rfl different

end Field

def named {α : Type} (fields : List (Field × α)) : List (String × α) :=
  fields.map fun member => (member.1.name, member.2)

variable {α : Type} {f : Field} {value : Text} {members : List (String × Text)}

theorem eq_named {members : List (String × α)} (known : ∀ member ∈ members, ∃ f : Field, member.1 = f.name) :
    ∃ fields : List (Field × α), members = named fields := by
  induction members with
  | nil => exact ⟨[], rfl⟩
  | cons member rest ih =>
    rw [List.forall_mem_cons] at known
    obtain ⟨f, name⟩ := known.1
    obtain ⟨fields, rfl⟩ := ih known.2
    exact ⟨(f, member.2) :: fields, by simp [named, ← name]⟩

theorem mem_named {fields : List (Field × α)} {value : α} : (f.name, value) ∈ named fields ↔ (f, value) ∈ fields := by
  simp only [named, List.mem_map, Prod.mk.injEq, Prod.exists]
  constructor
  · rintro ⟨g, value, member, same, rfl⟩
    rwa [← Field.name_injective same]
  · intro member
    exact ⟨f, value, member, rfl, rfl⟩

theorem nodup_of_named {fields : List (Field × α)} (distinct : ((named fields).map Prod.fst).Nodup) :
    (fields.map Prod.fst).Nodup := by
  have names : (named fields).map Prod.fst = (fields.map Prod.fst).map Field.name := by
    simp [named, comp_def]
  rw [names] at distinct
  exact List.Pairwise.of_map Field.name (fun _ _ different same => different (congrArg _ same)) distinct

theorem nodup_of_names {members : List (String × α)} (distinct : (members.map Prod.fst).Nodup) : members.Nodup :=
  List.Pairwise.of_map Prod.fst (fun _ _ different same => different (congrArg _ same)) distinct

variable {fields : List (Field × Json)} {start msg : JSONRPCMessage}

theorem foldlM_of_reads (reads : ∀ member ∈ fields, member.1.Reads member.2) (start : JSONRPCMessage) :
    ∃ msg, (named fields).foldlM storeMember start = some msg := by
  induction fields generalizing start with
  | nil => exact ⟨start, rfl⟩
  | cons member rest ih =>
    rw [List.forall_mem_cons] at reads
    obtain ⟨next, stored, -⟩ := Field.store_of_reads reads.1 start
    obtain ⟨msg, folded⟩ := ih reads.2 next
    refine ⟨msg, ?_⟩
    rw [named, List.map_cons, List.foldlM_cons, Field.storeMember_name, stored]
    exact folded

theorem value_of_foldlM (distinct : (fields.map Prod.fst).Nodup)
    (folded : (named fields).foldlM storeMember start = some msg) (f : Field) :
    (∀ value, (f, value) ∈ fields → f.Reads value → f.value msg = value.decode.encode) ∧
      (f ∉ fields.map Prod.fst → f.value msg = f.value start) := by
  induction fields generalizing start with
  | nil =>
    cases folded
    simp
  | cons member rest ih =>
    rw [List.map_cons, List.nodup_cons] at distinct
    rw [named, List.map_cons, List.foldlM_cons, Field.storeMember_name] at folded
    obtain ⟨next, stored, folded⟩ := Option.bind_eq_some_iff.mp folded
    obtain ⟨found, absent⟩ := ih distinct.2 folded
    refine ⟨fun value within reads => ?_, fun missing => ?_⟩
    · obtain rfl | later := List.mem_cons.mp within
      · obtain ⟨next', stored', value'⟩ := Field.store_of_reads reads start
        cases stored.symm.trans stored'
        rw [absent distinct.1, value']
      · exact found value later reads
    · rw [List.map_cons, List.mem_cons, not_or] at missing
      rw [absent missing.2, Field.value_of_store stored missing.1]

def Field.Keeps (value : Text) : Field → Prop
  | .jsonrpc => ∃ s, value = .string s
  | .method => ∃ s, s ≠ "" ∧ value = .string s
  | .id | .params | .result | .error => value ≠ .null ∧ value.Kept

structure Faithful (members : List (String × Text)) : Prop where
  known : ∀ member ∈ members, ∃ f : Field, member.1 = f.name
  distinct : (members.map Prod.fst).Nodup
  version : "jsonrpc" ∈ members.map Prod.fst
  kept : ∀ (f : Field) value, (f.name, value) ∈ members → f.Keeps value

theorem Field.Keeps.kept (keeps : f.Keeps value) : value.Kept := by
  cases f with
  | id | params | result | error => exact keeps.2
  | method =>
    obtain ⟨s, -, rfl⟩ := keeps
    trivial
  | jsonrpc =>
    obtain ⟨s, rfl⟩ := keeps
    trivial

theorem Field.Keeps.reads (keeps : f.Keeps value) : f.Reads value.parse := by
  cases f with
  | id | params | result | error => trivial
  | method =>
    obtain ⟨s, -, rfl⟩ := keeps
    exact ⟨s, rfl⟩
  | jsonrpc =>
    obtain ⟨s, rfl⟩ := keeps
    exact ⟨s, rfl⟩

theorem encode_eq_null {value : Any} (null : value.encode = .null) : value = .nil := by
  cases value <;> first | rfl | cases null

theorem Field.omitted_iff (optional : f ≠ .jsonrpc) (msg : JSONRPCMessage) :
    f.omitted msg = true ↔ f.value msg = f.value {} := by
  have nil {value : Any} : value = .nil ↔ value.encode = Any.nil.encode :=
    ⟨fun same => by rw [same], encode_eq_null⟩
  cases f with
  | id | params | result | error => simpa [Field.omitted, Field.value] using nil
  | method => simp [Field.omitted, Field.value]
  | jsonrpc => exact absurd rfl optional

theorem Field.Keeps.not_omitted (keeps : f.Keeps value) (same : f.value msg = value.relayed) :
    f.omitted msg = false := by
  by_cases optional : f = .jsonrpc
  · rw [optional]
    rfl
  rw [← Bool.not_eq_true, Field.omitted_iff optional, same]
  cases f with
  | id | params | result | error => exact fun null => keeps.1 (Text.eq_null_of_relayed null)
  | method =>
    obtain ⟨s, nonempty, rfl⟩ := keeps
    intro empty
    cases empty
    exact nonempty rfl
  | jsonrpc => exact absurd rfl optional

def parsed (fields : List (Field × Text)) : List (Field × Json) := fields.map fun member => (member.1, member.2.parse)

theorem parseMembers_named (fields : List (Field × Text)) :
    Text.parseMembers (named fields) = named (parsed fields) := by
  simp [Text.parseMembers_eq, named, parsed, comp_def]

theorem value_of_unmarshal {fields : List (Field × Text)} (distinct : (fields.map Prod.fst).Nodup)
    (decoded : unmarshal (Text.object (named fields)).parse = some msg) (f : Field) :
    (∀ value, (f, value) ∈ fields → f.Reads value.parse → f.value msg = value.relayed) ∧
      (f ∉ fields.map Prod.fst → f.value msg = f.value {}) := by
  have names : (parsed fields).map Prod.fst = fields.map Prod.fst := by
    simp [parsed, comp_def]
  rw [Text.parse, unmarshal, parseMembers_named] at decoded
  obtain ⟨found, absent⟩ := value_of_foldlM (names ▸ distinct) decoded f
  refine ⟨fun value within reads => found value.parse ?_ reads, fun missing => absent (names ▸ missing)⟩
  exact List.mem_map.mpr ⟨(f, value), within, rfl⟩

theorem Faithful.of_relay {out : Json} (relayed : relay (.object members) = some out)
    (same : (Text.object members).Same out) : Faithful members := by
  obtain ⟨msg, decoded, rfl⟩ := Option.map_eq_some_iff.mp relayed
  rw [Field.marshal_eq, Text.Same] at same
  obtain ⟨order, perm, pairs⟩ := same
  have names : (members.map Prod.fst).Perm ((Field.members msg).map Prod.fst) := by
    rw [Text.sameMembers_names pairs]
    exact perm.map Prod.fst
  have known : ∀ member ∈ members, ∃ f : Field, member.1 = f.name := by
    intro member within
    obtain ⟨entry, within', name⟩ := List.mem_map.mp (names.subset (List.mem_map_of_mem within))
    obtain ⟨f, -, name', -⟩ := Field.mem_members.mp within'
    exact ⟨f, by rw [← name, ← name']⟩
  have distinct : (members.map Prod.fst).Nodup := names.nodup_iff.mpr (Field.names_members msg)
  refine ⟨known, distinct, ?_, fun f value within => ?_⟩
  · have present : ("jsonrpc", Json.string msg.jsonrpc) ∈ Field.members msg :=
      Field.mem_members.mpr ⟨.jsonrpc, rfl, rfl, rfl⟩
    exact names.mem_iff.mpr (List.mem_map_of_mem present)
  · obtain ⟨value', within', same⟩ := Text.mem_of_sameMembers pairs within
    obtain ⟨g, present, name, rfl⟩ := Field.mem_members.mp (perm.subset within')
    obtain rfl := (Field.name_injective name).symm
    cases f with
    | id | params | result | error =>
      obtain ⟨fields, rfl⟩ := eq_named known
      have value' := (value_of_unmarshal (nodup_of_named distinct) decoded _).1 value (mem_named.mp within) trivial
      rw [value', Text.same_relayed_iff] at same
      refine ⟨?_, same⟩
      rintro rfl
      exact absurd ((Field.omitted_iff (by simp) msg).mpr value') (by simp [present])
    | method =>
      refine ⟨msg.method, ?_, Text.eq_string_of_same same⟩
      simpa [Field.omitted] using present
    | jsonrpc => exact ⟨msg.jsonrpc, Text.eq_string_of_same same⟩

theorem Faithful.relay (faithful : Faithful members) :
    ∃ out, Streamable.relay (.object members) = some out ∧ (Text.object members).Same out := by
  obtain ⟨fields, rfl⟩ := eq_named faithful.known
  have keeps {f : Field} {value : Text} (within : (f, value) ∈ fields) : f.Keeps value :=
    faithful.kept f value (mem_named.mpr within)
  have reads : ∀ member ∈ parsed fields, member.1.Reads member.2 := by
    intro member within
    obtain ⟨⟨f, value⟩, within', rfl⟩ := List.mem_map.mp within
    exact (keeps within').reads
  obtain ⟨msg, folded⟩ := foldlM_of_reads reads {}
  have decoded : unmarshal (Text.object (named fields)).parse = some msg := by
    rwa [Text.parse, unmarshal, parseMembers_named]
  have values := value_of_unmarshal (nodup_of_named faithful.distinct) decoded
  refine ⟨marshal msg, by rw [Streamable.relay, decoded]; rfl, ?_⟩
  rw [Field.marshal_eq, Text.Same]
  refine ⟨(named fields).map fun member => (member.1, member.2.relayed), ?_, ?_⟩
  · -- Both lists have distinct names, so it is enough that they have the same elements.
    have names : ((named fields).map fun member => (member.1, member.2.relayed)).map Prod.fst =
        (named fields).map Prod.fst := by
      simp [comp_def]
    rw [List.perm_ext_iff_of_nodup (nodup_of_names (names ▸ faithful.distinct))
      (nodup_of_names (Field.names_members msg))]
    rintro ⟨name, value'⟩
    rw [Field.mem_members]
    constructor
    · intro within
      obtain ⟨member, within', same⟩ := List.mem_map.mp within
      obtain ⟨⟨f, value⟩, within'', rfl⟩ := List.mem_map.mp within'
      cases same
      have value' := (values f).1 value within'' (keeps within'').reads
      exact ⟨f, (keeps within'').not_omitted value', rfl, value'⟩
    · rintro ⟨f, present, rfl, rfl⟩
      by_cases member : f ∈ fields.map Prod.fst
      · obtain ⟨⟨f, value⟩, within, rfl⟩ := List.mem_map.mp member
        rw [(values f).1 value within (keeps within).reads]
        exact List.mem_map.mpr ⟨(f.name, value), mem_named.mpr within, rfl⟩
      · have optional : f ≠ .jsonrpc := by
          rintro rfl
          obtain ⟨entry, within, name⟩ := List.mem_map.mp faithful.version
          obtain ⟨⟨g, value⟩, within', rfl⟩ := List.mem_map.mp within
          obtain rfl : g = .jsonrpc := Field.name_injective name
          exact member (List.mem_map_of_mem within')
        exact absurd ((Field.omitted_iff optional msg).mpr ((values f).2 member)) (by simp [present])
  · rw [Text.sameMembers_relayed_iff]
    apply Text.keptMembers_of_forall
    intro member within
    obtain ⟨⟨f, value⟩, within', rfl⟩ := List.mem_map.mp within
    exact (keeps within').kept

/-- A message passes all adapters unchanged if and only if it has no other members than the six, none of
them twice and the version among them, a method that is not empty, no id, params, result or error that is
null, and in these only integers that are shortest decimals and no repeated names. -/
theorem transparent_iff (members : List (String × Text)) : Transparent (.object members) ↔ Faithful members := by
  constructor
  · rintro ⟨⟨out, relayed, same⟩, -, -⟩
    exact Faithful.of_relay relayed same
  · intro faithful
    obtain ⟨out, relayed, same⟩ := faithful.relay
    refine ⟨⟨out, relayed, same⟩, ⟨out, relayed, same⟩, fun t t' written => ?_⟩
    obtain ⟨msg, decoded, accepted⟩ := Option.map_eq_some_iff.mp written
    obtain ⟨-, sid, -, wrote⟩ := StreamableServerTransport.write_eq_ok accepted
    rw [relay, decoded, Option.map_some, Option.some.injEq] at relayed
    refine ⟨sid, _, by rw [wrote.messages, update_self], ?_⟩
    rwa [relayed]

def emptyResult : List (String × Text) :=
  [("jsonrpc", .string "2.0"), ("id", .number 7), ("result", .object [])]

theorem emptyResult_transparent : Transparent (.object emptyResult) := by
  rw [transparent_iff]
  refine ⟨?_, by decide, by decide, fun f value within => ?_⟩
  · simp only [emptyResult, List.forall_mem_cons]
    exact ⟨⟨.jsonrpc, rfl⟩, ⟨.id, rfl⟩, ⟨.result, rfl⟩, by simp⟩
  · have canonical : Float64.Canonical 7 := Float64.canonical_of_lt (by decide)
    cases f with
    | id =>
      obtain rfl : value = .number 7 := by simpa [emptyResult, Field.name] using within
      exact ⟨by simp, canonical⟩
    | result =>
      obtain rfl : value = .object [] := by simpa [emptyResult, Field.name] using within
      exact ⟨by simp, List.nodup_nil, trivial⟩
    | jsonrpc =>
      obtain rfl : value = .string "2.0" := by simpa [emptyResult, Field.name] using within
      exact ⟨"2.0", rfl⟩
    | method | params | error => simp [emptyResult, Field.name] at within

def nullResult : List (String × Text) :=
  [("jsonrpc", .string "2.0"), ("id", .number 7), ("result", .null)]

def largeID : List (String × Text) :=
  [("jsonrpc", .string "2.0"), ("id", .number 9007199254740993), ("method", .string "ping")]

theorem adapters_lose :
    relay (.object nullResult) = some (.object [("id", .number 7), ("jsonrpc", .string "2.0")]) ∧
    ¬ Transparent (.object nullResult) ∧
    relay (.object largeID) = some (.object
      [("id", .number 9007199254740992), ("method", .string "ping"), ("jsonrpc", .string "2.0")]) ∧
    ¬ Transparent (.object largeID) := by
  refine ⟨by rfl, ?_, by rfl, ?_⟩
  · rintro ⟨⟨out, relayed, same⟩, -, -⟩
    have keeps := (Faithful.of_relay relayed same).kept .result .null (by simp [nullResult, Field.name])
    exact keeps.1 rfl
  · rintro ⟨⟨out, relayed, same⟩, -, -⟩
    have keeps := (Faithful.of_relay relayed same).kept .id (.number 9007199254740993) (by simp [largeID, Field.name])
    have canonical : Float64.Canonical 9007199254740993 := keeps.2
    rw [← Float64.shortest_nearest_iff] at canonical
    exact absurd canonical (by decide)

end Mcp.Streamable
