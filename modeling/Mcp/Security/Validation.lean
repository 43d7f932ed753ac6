import Mcp.Lib.Machine
import Mcp.Lib.Strconv
import Mcp.Security.Value

namespace Mcp.Security
open Mcp.Lib Bytes

structure SecurityConfig where
  maxStringLength : Int := 10000
  maxArrayLength : Int := 1000
  maxObjectDepth : Int := 10
  strictMode : Bool := true

structure InputValidator where
  config : SecurityConfig := {}
  compiledPatterns : List (Bytes → Bool) := []

inductive Error where
  | depth (depth max : Int)
  | stringLength (length max : Int)
  | forbiddenPattern
  | nullByte
  | arrayLength (length max : Int)
  | item (i : Nat) (err : Error)
  | key (key : Bytes) (err : Error)
  | field (key : Bytes) (err : Error)

def decimal (n : Int) : Bytes := ofString (String.ofList (formatInt n))

def Error.failed (text : Bytes) : Bytes := ofString "security: validation failed: " ++ text

def Error.exceeds (what : String) (n max : Int) : Bytes :=
  failed (ofString what ++ decimal n ++ ofString " exceeds maximum " ++ decimal max)

def Error.text : Error → Bytes
  | .depth n max => exceeds "object depth " n max
  | .stringLength n max => exceeds "string length " n max
  | .forbiddenPattern => failed (ofString "forbidden pattern detected")
  | .nullByte => failed (ofString "null byte in string")
  | .arrayLength n max => exceeds "array length " n max
  | .item i err => ofString "array[" ++ decimal i ++ ofString "]: " ++ err.text
  | .key name err => ofString "key '" ++ name ++ ofString "': " ++ err.text
  | .field name err => ofString "field '" ++ name ++ ofString "': " ++ err.text

namespace InputValidator

variable (v : InputValidator)

def validateString (s : Bytes) : Except Error Unit :=
  if v.config.maxStringLength < s.length then .error (.stringLength s.length v.config.maxStringLength)
  else if v.compiledPatterns.any (· s) then .error .forbiddenPattern
  else if 0 ∈ s then .error .nullByte
  else .ok ()

mutual

def validateValue (depth : Int) (value : Value) : Except Error Unit :=
  if v.config.maxObjectDepth < depth then .error (.depth depth v.config.maxObjectDepth)
  else
    match value with
    | .string s => v.validateString s
    | .array arr =>
      if v.config.maxArrayLength < arr.length then .error (.arrayLength arr.length v.config.maxArrayLength)
      else validateItems (depth + 1) 0 arr
    | .object obj => validateEntries (depth + 1) obj
    | .number _ | .bool _ | .null => .ok ()

def validateItems (depth : Int) (i : Nat) : List Value → Except Error Unit
  | [] => .ok ()
  | item :: rest => do
      (validateValue depth item).mapError (.item i)
      validateItems depth (i + 1) rest

def validateEntries (depth : Int) : List (Bytes × Value) → Except Error Unit
  | [] => .ok ()
  | (key, value) :: rest => do
      (v.validateString key).mapError (.key key)
      (validateValue depth value).mapError (.field key)
      validateEntries depth rest

end

structure Passes (s : Bytes) : Prop where
  short : s.length ≤ v.config.maxStringLength
  allowed : ∀ pattern ∈ v.compiledPatterns, pattern s = false
  whole : 0 ∉ s

def NodeOk : Value → Prop
  | .string s => v.Passes s
  | .array elements => elements.length ≤ v.config.maxArrayLength
  | .object entries => ∀ key ∈ entries.map Prod.fst, v.Passes key
  | .number _ | .bool _ | .null => True

variable {v} {depth : Int}

theorem validateString_ok {s : Bytes} : v.validateString s = .ok () ↔ v.Passes s := by
  unfold validateString
  split_ifs with long forbidden nul
  · exact iff_of_false nofun fun passes => absurd passes.short (not_le.mpr long)
  · obtain ⟨pattern, member, found⟩ := List.any_eq_true.mp forbidden
    refine iff_of_false nofun fun passes => ?_
    rw [passes.allowed pattern member] at found
    cases found
  · exact iff_of_false nofun fun passes => passes.whole nul
  · exact iff_of_true rfl ⟨not_lt.mp long, by simpa using forbidden, nul⟩

theorem mapError_ok {x : Except Error Unit} {f : Error → Error} : x.mapError f = .ok () ↔ x = .ok () := by
  cases x <;> simp [Except.mapError]

theorem and_then_ok {x y : Except Error Unit} : (do x; y) = .ok () ↔ x = .ok () ∧ y = .ok () := by
  rw [bind_eq_ok]
  exact ⟨fun ⟨_, first, second⟩ => ⟨first, second⟩, fun ⟨first, second⟩ => ⟨(), first, second⟩⟩

theorem validateItems_ok {items : List Value} {i : Nat} :
    v.validateItems depth i items = .ok () ↔ ∀ item ∈ items, v.validateValue depth item = .ok () := by
  induction items generalizing i with
  | nil => simp [validateItems]
  | cons item rest ih => rw [validateItems, and_then_ok, mapError_ok, ih, List.forall_mem_cons]

theorem validateEntries_ok {entries : List (Bytes × Value)} : v.validateEntries depth entries = .ok () ↔
      ∀ entry ∈ entries, v.Passes entry.1 ∧ v.validateValue depth entry.2 = .ok () := by
  induction entries with
  | nil => simp [validateEntries]
  | cons entry rest ih =>
    rw [validateEntries, and_then_ok, and_then_ok, mapError_ok, mapError_ok, validateString_ok, ih,
      List.forall_mem_cons, and_assoc]

theorem validateValue_ok (depth : Int) (value : Value) : v.validateValue depth value = .ok () ↔
      (depth ≤ v.config.maxObjectDepth ∧ v.NodeOk value) ∧
        ∀ x ∈ value.children, v.validateValue (depth + 1) x = .ok () := by
  rw [validateValue.eq_def]
  split_ifs with deep
  · exact iff_of_false nofun fun valid => absurd valid.1.1 (not_le.mpr deep)
  rw [and_iff_right (not_lt.mp deep)]
  cases value with
  | string s => simp [Value.children, NodeOk, validateString_ok]
  | array elements =>
    simp only [NodeOk, Value.children]
    split_ifs with long
    · exact iff_of_false nofun fun valid => absurd valid.1 (not_le.mpr long)
    · rw [validateItems_ok, and_iff_right (not_lt.mp long)]
  | object entries =>
    simp only [NodeOk, Value.children, validateEntries_ok, List.forall_mem_map]
    exact forall₂_and
  | _ => simp [Value.children, NodeOk]

theorem validateValue_ok_iff_node (value : Value) (depth : Int) : v.validateValue depth value = .ok () ↔
      ∀ d w, value.Node d w → depth + d ≤ v.config.maxObjectDepth ∧ v.NodeOk w := by
  induction value using Value.induct generalizing depth with
  | step value ih =>
    rw [validateValue_ok, Value.forall_node_iff (Q := fun d w => depth + d ≤ v.config.maxObjectDepth ∧ v.NodeOk w)]
    refine and_congr (by simp) (forall₂_congr fun x member => ?_)
    rw [ih x member (depth + 1)]
    refine forall₃_congr fun d w node => ?_
    rw [Int.natCast_add, Int.natCast_one, Int.add_assoc, Int.add_comm 1]

variable {x y : Value}

theorem nodeOk_of_reorders (reorders : x.Reorders y) : v.NodeOk x ↔ v.NodeOk y := by
  cases reorders with
  | refl => exact Iff.rfl
  | array length each => simp only [NodeOk, length]
  | object perm keys each =>
    simp only [NodeOk, ← keys]
    exact forall_congr' fun key => imp_congr_left (perm.map Prod.fst).mem_iff

theorem validateValue_reorders (reorders : x.Reorders y) (depth : Int) :
    v.validateValue depth x = .ok () ↔ v.validateValue depth y = .ok () :=
  reorders.iff (P := fun depth x => v.validateValue depth x = .ok ()) validateValue_ok
    (fun _ _ _ reorders => and_congr_right fun _ => nodeOk_of_reorders reorders) depth

/-- Whatever the order of its objects, a value is accepted exactly when every part of it is at most at the
maximal depth and within the limits. -/
theorem validation_exact (v : InputValidator) (value visited : Value) (depth : Int)
    (reorders : value.Reorders visited) :
    v.validateValue depth visited = .ok () ↔
      ∀ d w, value.Node d w → depth + d ≤ v.config.maxObjectDepth ∧ v.NodeOk w := by
  rw [← validateValue_reorders reorders, validateValue_ok_iff_node]

theorem validation_exact_swapped :
    let value : Value := .object [(ofString "a", .string (ofString "x")), (ofString "b", .array [.null])]
    ∀ d w, value.Node d w → d ≤ 10 ∧ NodeOk {} w := by
  intro value d w node
  have accepted : validateValue {} 0
      (.object [(ofString "b", .array [.null]), (ofString "a", .string (ofString "x"))]) =
      .ok () := rfl
  have every := (validation_exact {} value _ 0 (Value.reorders_of_perm (.swap _ _ _))).mp accepted d w node
  have shallow : (0 : Int) + d ≤ 10 := every.1
  exact ⟨by omega, every.2⟩

end InputValidator

end Mcp.Security
