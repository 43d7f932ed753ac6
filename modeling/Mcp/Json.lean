import Mathlib.Data.Rat.Defs

namespace Mcp

inductive Json where
  | null
  | bool (b : Bool)
  | number (q : ℚ)
  | string (s : String)
  | array (elements : List Json)
  | object (members : List (String × Json))

inductive Any where
  | nil
  | bool (b : Bool)
  | float64 (q : ℚ)
  | string (s : String)
  | slice (elements : List Any)
  | object (entries : List (String × Any))

namespace Any

instance decidableEqNil : (v : Any) → Decidable (v = .nil)
  | .nil => isTrue rfl
  | .bool _ | .float64 _ | .string _ | .slice _ | .object _ => isFalse nofun

def insertEntry (key : String) (value : Any) : List (String × Any) → List (String × Any)
  | [] => [(key, value)]
  | (k, v) :: rest =>
    if key = k then (key, value) :: rest
    else if key < k then (key, value) :: (k, v) :: rest
    else (k, v) :: insertEntry key value rest

end Any

mutual

-- A number stands for the `float64` that its text has been rounded to.
def Json.decode : Json → Any
  | .null => .nil
  | .bool b => .bool b
  | .number q => .float64 q
  | .string s => .string s
  | .array elements => .slice (Json.decodeElements elements)
  | .object members => .object (Json.decodeMembers members [])

def Json.decodeElements : List Json → List Any
  | [] => []
  | element :: rest => element.decode :: Json.decodeElements rest

def Json.decodeMembers : List (String × Json) → List (String × Any) → List (String × Any)
  | [], entries => entries
  | (key, value) :: rest, entries =>
    Json.decodeMembers rest (Any.insertEntry key value.decode entries)

end

mutual

def Any.encode : Any → Json
  | .nil => .null
  | .bool b => .bool b
  | .float64 q => .number q
  | .string s => .string s
  | .slice elements => .array (Any.encodeElements elements)
  | .object entries => .object (Any.encodeEntries entries)

def Any.encodeElements : List Any → List Json
  | [] => []
  | element :: rest => element.encode :: Any.encodeElements rest

def Any.encodeEntries : List (String × Any) → List (String × Json)
  | [] => []
  | (key, value) :: rest => (key, value.encode) :: Any.encodeEntries rest

end

inductive Key where
  | nil
  | bool (b : Bool)
  | float64 (q : ℚ)
  | string (s : String)
  deriving DecidableEq

-- Hashing an interface value. Slices and maps panic with "hash of unhashable type".
def Any.key? : Any → Option Key
  | .nil => some .nil
  | .bool b => some (.bool b)
  | .float64 q => some (.float64 q)
  | .string s => some (.string s)
  | .slice _ | .object _ => none

variable {v w : Any}

theorem Any.key?_injective {k : Key} (left : v.key? = some k) (right : w.key? = some k) : v = w := by
  cases v <;> cases left <;> cases w <;> cases right <;> rfl

@[simp] theorem Any.key?_eq_nil : v.key? = some .nil ↔ v = .nil := by
  cases v <;> simp [Any.key?]

def Json.Composite : Json → Prop
  | .array _ | .object _ => True
  | _ => False

instance : DecidablePred Json.Composite
  | .array _ | .object _ => isTrue trivial
  | .null | .bool _ | .number _ | .string _ => isFalse id

theorem Json.key?_decode {value : Json} : value.decode.key? = none ↔ value.Composite := by
  cases value <;> simp [Json.decode, Any.key?, Json.Composite]

-- The `==` of two interface values. Two slices, or two maps, panic.
def Any.compare : Any → Any → Option Bool
  | .slice _, .slice _ => none
  | .object _, .object _ => none
  | v, w => some (v.key?.isSome && v.key? == w.key?)

theorem Any.compare_eq_true (hashable : w.key?.isSome) : v.compare w = some true ↔ v = w := by
  cases w <;> cases v <;> simp_all [Any.compare, Any.key?]

theorem Any.compare_isSome (hashable : w.key?.isSome) : (v.compare w).isSome := by
  cases w <;> cases v <;> simp_all [Any.compare, Any.key?]

end Mcp
