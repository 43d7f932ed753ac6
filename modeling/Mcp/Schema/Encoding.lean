import Mathlib.Data.List.Lex
import Mcp.Lib.Base64
import Mcp.Schema.Generate

namespace Mcp.Schemas
open Mcp.Lib

inductive PlainType where
  | bool
  | int (kind : IntKind)
  | string
  | slice (elem : PlainType)
  | map (elem : PlainType)
  | ptr (elem : PlainType)
  | struct (name : Option TypeName) (fields : List (FieldInfo × PlainType))

abbrev Fields := List (FieldInfo × PlainType)

mutual

def PlainType.goType : PlainType → GoType
  | .bool => .bool
  | .int kind => .int kind
  | .string => .string
  | .slice elem => .slice elem.goType
  | .map elem => .map .string elem.goType
  | .ptr elem => .ptr elem.goType
  | .struct none fields => .struct (goFields fields)
  | .struct (some name) fields => .named name (.struct (goFields fields))

def goFields : Fields → List (FieldInfo × GoType)
  | [] => []
  | (f, t) :: rest => (f, t.goType) :: goFields rest

end

inductive Value where
  | bool (b : Bool)
  | int (n : Int)
  | string (s : String)
  | slice (elements : Option (List Value))
  | map (entries : Option (List (String × Value)))
  | ptr (target : Option Value)
  | struct (fields : List Value)

def IntKind.bounds : IntKind → Int × Int
  | .int | .int64 => (-2 ^ 63, 2 ^ 63 - 1)
  | .int8 => (-2 ^ 7, 2 ^ 7 - 1)
  | .int16 => (-2 ^ 15, 2 ^ 15 - 1)
  | .int32 => (-2 ^ 31, 2 ^ 31 - 1)
  | .uint | .uint64 => (0, 2 ^ 64 - 1)
  | .uint8 => (0, 2 ^ 8 - 1)
  | .uint16 => (0, 2 ^ 16 - 1)
  | .uint32 => (0, 2 ^ 32 - 1)

def IntKind.Holds (kind : IntKind) (n : Int) : Prop := kind.bounds.1 ≤ n ∧ n ≤ kind.bounds.2

mutual

def PlainType.Has : PlainType → Value → Prop
  | .bool, .bool _ => True
  | .int kind, .int n => kind.Holds n
  | .string, .string _ => True
  | .slice _, .slice none => True
  | .slice elem, .slice (some xs) => ∀ x ∈ xs, elem.Has x
  | .map _, .map none => True
  | .map elem, .map (some entries) => (entries.map Prod.fst).Nodup ∧ ∀ entry ∈ entries, elem.Has entry.2
  | .ptr _, .ptr none => True
  | .ptr elem, .ptr (some x) => elem.Has x
  | .struct _ fields, .struct xs => HasFields fields xs
  | _, _ => False

def HasFields : Fields → List Value → Prop
  | [], [] => True
  | (_, t) :: fields, x :: xs => t.Has x ∧ HasFields fields xs
  | _, _ => False

end

mutual

def Value.isZero : Value → Bool
  | .bool b => !b
  | .int n => n = 0
  | .string s => s = ""
  | .slice elements => elements.isNone
  | .map entries => entries.isNone
  | .ptr target => target.isNone
  | .struct xs => Value.allZero xs

def Value.allZero : List Value → Bool
  | [] => true
  | x :: xs => x.isZero && Value.allZero xs

end

def Value.isEmpty : Value → Bool
  | .bool b => !b
  | .int n => n = 0
  | .string s => s = ""
  | .slice elements => (elements.getD []).isEmpty
  | .map entries => (entries.getD []).isEmpty
  | .ptr target => target.isNone
  | .struct _ => false

namespace PlainType

def followed : PlainType → PlainType
  | .ptr t => t
  | t => t

def isStruct : PlainType → Bool
  | .struct _ _ => true
  | _ => false

def isBasic : PlainType → Bool
  | .bool | .int _ | .string => true
  | _ => false

def isByte : PlainType → Bool
  | .int .uint8 => true
  | _ => false

end PlainType

structure EncodedField where
  name : String
  tagged : Bool
  index : List Nat
  type : PlainType
  omitEmpty : Bool
  omitZero : Bool
  quoted : Bool

structure Embedded where
  name : Option TypeName
  fields : Fields
  index : List Nat

section TypeFields

variable (isWord : Char → Bool)

def isValidTag (name : String) : Bool :=
  name ≠ "" && name.toList.all fun c => "!#$%&()*+-./:;<=>?@[]^_\x7b|\x7d~ ".toList.contains c || isWord c

def FieldInfo.tagName (f : FieldInfo) : String := if isValidTag isWord f.parts.1 then f.parts.1 else ""

def FieldInfo.ignored (f : FieldInfo) (t : PlainType) : Bool :=
  (if f.anonymous then !f.exported && !t.followed.isStruct else !f.exported) || f.json = "-"

def FieldInfo.flattened (f : FieldInfo) (t : PlainType) : Bool :=
  f.tagName isWord = "" && f.anonymous && t.followed.isStruct

def encodedField (index : List Nat) (f : FieldInfo) (t : PlainType) : EncodedField where
  name := if f.tagName isWord = "" then f.name else f.tagName isWord
  tagged := f.tagName isWord ≠ ""
  index := index
  type := t
  omitEmpty := f.parts.2.contains "omitempty"
  omitZero := f.parts.2.contains "omitzero"
  quoted := f.parts.2.contains "string" && t.followed.isBasic

def embedded (index : List Nat) : PlainType → Option Embedded
  | .struct name fields => some ⟨name, fields, index⟩
  | _ => none

def Embedded.found (m : Embedded) : List EncodedField :=
  m.fields.zipIdx.filterMap fun ((f, t), i) =>
    if f.ignored t || f.flattened isWord t then none else some (encodedField isWord (m.index ++ [i]) f t)

def Embedded.next (m : Embedded) : List Embedded :=
  m.fields.zipIdx.filterMap fun ((f, t), i) =>
    if !f.ignored t && f.flattened isWord t then embedded (m.index ++ [i]) t.followed else none

def firsts : List Embedded → List Embedded
  | [] => []
  | m :: rest => m :: (firsts rest).filter fun other => other.name ≠ m.name

def explore : Nat → List Embedded → List (Option TypeName) → List EncodedField
  | 0, _, _ => []
  | fuel + 1, queued, visited =>
    let current := (firsts queued).filter fun m => m.name ∉ visited
    let found := current.flatMap fun m =>
      if 1 < queued.countP (fun other => other.name = m.name) then
        (m.found isWord).flatMap fun e => [e, e]
      else m.found isWord
    found ++ explore fuel (current.flatMap (Embedded.next isWord)) (visited ++ current.map Embedded.name)

def EncodedField.beats (e other : EncodedField) : Bool :=
  e.index.length < other.index.length || (e.index.length = other.index.length && e.tagged && !other.tagged)

def dominant (fields : List EncodedField) : List EncodedField :=
  fields.filter fun e => fields.countP (fun other => other.name = e.name && !e.beats other) = 1

mutual

def PlainType.depth : PlainType → Nat
  | .slice elem => elem.depth
  | .map elem => elem.depth
  | .ptr elem => elem.depth
  | .struct _ fields => fieldsDepth fields + 1
  | _ => 0

def fieldsDepth : Fields → Nat
  | [] => 0
  | (_, t) :: rest => max t.depth (fieldsDepth rest)

end

def typeFields (name : Option TypeName) (fields : Fields) : List EncodedField :=
  (dominant (explore isWord (fieldsDepth fields + 1) [⟨name, fields, []⟩] [])).insertionSort
    fun a b => a.index ≤ b.index

end TypeFields

def walk : List Value → List Nat → Option Value
  | _, [] => none
  | xs, [i] => xs[i]?
  | xs, i :: j :: rest =>
    match xs[i]? with
    | some (.struct ys) => walk ys (j :: rest)
    | some (.ptr (some (.struct ys))) => walk ys (j :: rest)
    | _ => none

def EncodedField.omits (e : EncodedField) (x : Value) : Bool := e.omitEmpty && x.isEmpty || e.omitZero && x.isZero

def bytesOf (xs : List Value) : Bytes :=
  xs.map fun
    | .int n => UInt8.ofNat n.toNat
    | _ => 0

def quotedValue (quote : String → String) : Value → Json
  | .bool b => .string (if b then "true" else "false")
  | .int n => .string (String.ofList (formatInt n))
  | .string s => .string (quote s)
  | .ptr (some (.bool b)) => .string (if b then "true" else "false")
  | .ptr (some (.int n)) => .string (String.ofList (formatInt n))
  | .ptr (some (.string s)) => .string (quote s)
  | _ => .null

theorem sizeOf_walk {xs : List Value} {index : List Nat} {x : Value} (found : walk xs index = some x) :
    sizeOf x < sizeOf xs := by
  induction index generalizing xs with
  | nil => simp [walk] at found
  | cons i rest ih =>
    cases rest with
    | nil => exact List.sizeOf_lt_of_mem (List.mem_of_getElem? found)
    | cons j rest =>
      unfold walk at found
      split at found
      · rename_i ys place
        have inside := List.sizeOf_lt_of_mem (List.mem_of_getElem? place)
        have deeper := ih found
        simp only [Value.struct.sizeOf_spec] at inside
        omega
      · rename_i ys place
        have inside := List.sizeOf_lt_of_mem (List.mem_of_getElem? place)
        have deeper := ih found
        simp only [Value.ptr.sizeOf_spec, Value.struct.sizeOf_spec, Option.some.sizeOf_spec] at inside
        omega
      · cases found

section Encode

variable (isWord : Char → Bool) (quote : String → String)

def encode : PlainType → Value → Json
  | .bool, .bool b => .bool b
  | .int _, .int n => .number n
  | .string, .string s => .string s
  | .slice elem, .slice (some xs) =>
    if elem.isByte then .string (Base64.Std.encode (bytesOf xs)) else .array (xs.map (encode elem))
  | .map elem, .map (some entries) =>
    .object ((entries.map fun entry => (entry.1, encode elem entry.2)).insertionSort fun a b => a.1 ≤ b.1)
  | .ptr elem, .ptr (some x) => encode elem x
  | .struct name fields, .struct xs =>
    .object ((typeFields isWord name fields).filterMap fun e =>
      match _found : walk xs e.index with
      | none => none
      | some x =>
        if e.omits x then none
        else some (e.name, if e.quoted then quotedValue quote x else encode e.type x))
  | _, _ => .null
termination_by _ v => sizeOf v
decreasing_by
  · have inside := List.sizeOf_lt_of_mem ‹_›
    simp only [Value.slice.sizeOf_spec, Option.some.sizeOf_spec]
    omega
  · rename_i member
    have inside := List.sizeOf_lt_of_mem member
    have second : sizeOf entry.2 < sizeOf entry := by
      rcases entry with ⟨key, x⟩
      simp only [Prod.mk.sizeOf_spec]
      omega
    simp only [Value.map.sizeOf_spec, Option.some.sizeOf_spec]
    omega
  · simp only [Value.ptr.sizeOf_spec, Option.some.sizeOf_spec]
    omega
  · have inside := sizeOf_walk _found
    simp only [Value.struct.sizeOf_spec]
    omega

def EncodedField.encoded (e : EncodedField) (x : Value) : Json :=
  if e.quoted then quotedValue quote x else encode isWord quote e.type x

def EncodedField.member (xs : List Value) (e : EncodedField) : Option (String × Json) :=
  (walk xs e.index).bind fun x => if e.omits x then none else some (e.name, e.encoded isWord quote x)

theorem encode_struct (name : Option TypeName) (fields : Fields) (xs : List Value) :
    encode isWord quote (.struct name fields) (.struct xs) =
      .object ((typeFields isWord name fields).filterMap (EncodedField.member isWord quote xs)) := by
  rw [encode]
  congr 1
  refine List.filterMap_congr fun e _ => ?_
  unfold EncodedField.member
  split
  · rename_i missing
    rw [missing, Option.bind_none]
  · rename_i x found
    rw [found, Option.bind_some, EncodedField.encoded]

end Encode

end Mcp.Schemas
