import Mathlib.Data.String.Basic
import Mcp.Json
import Mcp.Lib.Entries

namespace Mcp.MockClient
open Lib.Entries

abbrev Entries := List (String × Any)

def partialKey : String := "\x7b\x7bpartial\x7d\x7d"

def itemsKey : String := "\x7b\x7bitems\x7d\x7d"

def isToken (pattern : String) : Bool :=
  ['\x7b', '\x7b'].isPrefixOf pattern.toList && ['\x7d', '\x7d'].isSuffixOf pattern.toList

def isRegex (pattern : String) : Bool :=
  ['/'].isPrefixOf pattern.toList && ['/'].isSuffixOf pattern.toList && pattern.utf8ByteSize > 2

def isSpecialPattern (pattern : String) : Bool := isToken pattern || isRegex pattern

def matchToken (token : String) (actual : Any) : Bool :=
  match token, actual with
  | "any", _ | "*", _ => true
  | "string", .string _ => true
  | "number", .float64 _ => true
  | "boolean", .bool _ => true
  | "object", .object _ => true
  | "array", .slice _ => true
  | _, _ => false

abbrev Regex := String → Any → Bool

def inner (n : Nat) (pattern : String) : String :=
  String.ofList ((pattern.toList.drop n).take (pattern.length - 2 * n))

def matchSpecialPattern (regex : Regex) (pattern : String) (actual : Any) : Bool :=
  if isToken pattern then matchToken (inner 2 pattern) actual else regex (inner 1 pattern) actual

def remove (key : String) (entries : Entries) : Entries := entries.filter (·.1 ≠ key)

theorem sizeOf_lookup {entries : Entries} {key : String} {value : Any} (found : entries.lookup key = some value) :
    sizeOf value < sizeOf entries := by
  have member := List.sizeOf_lt_of_mem (mem_of_lookup found)
  simp only [Prod.mk.sizeOf_spec] at member
  omega

variable (regex : Regex) (order : List Nat → Entries → Entries)

mutual

def deepMatch (path : List Nat) (pattern actual : Any) : Bool × Any :=
  match pattern, actual with
  | .nil, .nil => (true, .nil)
  | .nil, _ => (false, .nil)
  | pattern, .nil => (false, pattern)
  | .string s, actual =>
    (if isSpecialPattern s then matchSpecialPattern regex s actual else
      match actual with
      | .string t => s = t
      | _ => false, .string s)
  | .object pattern, .object actual =>
    let matched := matchMaps path pattern actual
    (matched.1, .object matched.2)
  | .slice pattern, .slice actual =>
    let matched := matchSlices path pattern actual
    (matched.1, .slice matched.2)
  | .bool b, .bool c => (b = c, .bool b)
  | .float64 x, .float64 y => (x = y, .float64 x)
  | pattern, _ => (false, pattern)
termination_by (sizeOf actual, 0)

def matchMaps (path : List Nat) (pattern actual : Entries) : Bool × Entries :=
  let isPartial := (pattern.lookup partialKey).isSome
  let matched := matchKeys path (order path (remove partialKey pattern)) (remove partialKey pattern) actual
  (matched.1 && (isPartial || actual.all fun entry => (matched.2.lookup entry.1).isSome), matched.2)
termination_by (sizeOf actual, (order path (remove partialKey pattern)).length + 1)

def matchKeys (path : List Nat) (todo pattern actual : Entries) : Bool × Entries :=
  match todo with
  | [] => (true, pattern)
  | (key, value) :: rest =>
    match found : actual.lookup key with
    | none => (false, pattern)
    | some item =>
      have := sizeOf_lookup found
      let matched := deepMatch (rest.length :: path) value item
      let pattern := put key matched.2 pattern
      if matched.1 then matchKeys path rest pattern actual else (false, pattern)
termination_by (sizeOf actual, todo.length)

def matchSlices (path : List Nat) (pattern actual : List Any) : Bool × List Any :=
  match pattern with
  | [.object template] =>
    if (template.lookup itemsKey).isSome then
      let matched := matchItems path (remove itemsKey template) actual
      (matched.1, [.object matched.2])
    else if actual.length ≠ 1 then (false, pattern) else matchEach path pattern actual
  | pattern => if pattern.length ≠ actual.length then (false, pattern) else matchEach path pattern actual
termination_by (sizeOf actual, 1)

def matchItems (path : List Nat) (template : Entries) : List Any → Bool × Entries
  | [] => (true, template)
  | .object item :: rest =>
    let matched := matchMaps (rest.length :: path) template item
    if matched.1 then matchItems path matched.2 rest else matched
  | _ :: _ => (false, template)
termination_by actual => (sizeOf actual, 0)

def matchEach (path : List Nat) : List Any → List Any → Bool × List Any
  | first :: pattern, item :: rest =>
    let matched := deepMatch (rest.length :: path) first item
    if matched.1 then
      let others := matchEach path pattern rest
      (others.1, matched.2 :: others.2)
    else (false, matched.2 :: pattern)
  | pattern, _ => (true, pattern)
termination_by _ actual => (sizeOf actual, 0)

end

/-- No string of the pattern is special and no key is a token. -/
inductive Tokenless : Any → Prop
  | nil : Tokenless .nil
  | bool (b : Bool) : Tokenless (.bool b)
  | float64 (q : ℚ) : Tokenless (.float64 q)
  | string (s : String) (literal : ¬ isSpecialPattern s) : Tokenless (.string s)
  | slice (items : List Any) (each : ∀ item ∈ items, Tokenless item) : Tokenless (.slice items)
  | object (entries : Entries) (keys : ∀ entry ∈ entries, entry.1 ≠ partialKey ∧ entry.1 ≠ itemsKey)
      (each : ∀ entry ∈ entries, Tokenless entry.2) : Tokenless (.object entries)

/-- A JSON value: the entries of its maps are in the order of their keys. -/
inductive Value : Any → Prop
  | nil : Value .nil
  | bool (b : Bool) : Value (.bool b)
  | float64 (q : ℚ) : Value (.float64 q)
  | string (s : String) : Value (.string s)
  | slice (items : List Any) (each : ∀ item ∈ items, Value item) : Value (.slice items)
  | object (entries : Entries) (sorted : Sorted entries) (each : ∀ entry ∈ entries, Value entry.2) :
      Value (.object entries)

def Exact (pattern actual : Any) : Prop :=
  ∀ path, (deepMatch regex order path pattern actual).2 = pattern ∧
    ((deepMatch regex order path pattern actual).1 = true ↔ pattern = actual)

variable {regex order} (path : List Nat)

theorem matchKeys_exact {todo pattern actual : Entries} (stored : ∀ entry ∈ todo, pattern.lookup entry.1 = some entry.2)
    (each : ∀ entry ∈ todo, ∀ item, actual.lookup entry.1 = some item → Exact regex order entry.2 item) :
    (matchKeys regex order path todo pattern actual).2 = pattern ∧
      ((matchKeys regex order path todo pattern actual).1 = true ↔
        ∀ entry ∈ todo, actual.lookup entry.1 = some entry.2) := by
  induction todo with
  | nil => simp [matchKeys]
  | cons entry rest ih =>
    obtain ⟨key, value⟩ := entry
    rw [List.forall_mem_cons] at stored each
    obtain ⟨unchanged, success⟩ := ih stored.2 each.2
    rw [matchKeys]
    split
    next missing => simp [missing]
    next item found =>
      obtain ⟨kept, same⟩ := each.1 item found (rest.length :: path)
      have here : actual.lookup key = some value ↔
          (deepMatch regex order (rest.length :: path) value item).1 = true := by
        rw [found, Option.some_inj, same, eq_comm]
      simp only [kept, put_of_lookup stored.1, List.forall_mem_cons, here]
      split_ifs with matched
      · simp [unchanged, success, matched]
      · simp [matched]

theorem matchEach_exact {pattern actual : List Any} (length : pattern.length = actual.length)
    (each : ∀ first ∈ pattern, ∀ item ∈ actual, Exact regex order first item) :
    (matchEach regex order path pattern actual).2 = pattern ∧
      ((matchEach regex order path pattern actual).1 = true ↔ pattern = actual) := by
  induction pattern generalizing actual with
  | nil =>
    obtain rfl := List.length_eq_zero_iff.mp length.symm
    simp [matchEach]
  | cons first pattern ih =>
    cases actual with
    | nil => cases length
    | cons item rest =>
      obtain ⟨kept, same⟩ := each first List.mem_cons_self item List.mem_cons_self (rest.length :: path)
      obtain ⟨unchanged, success⟩ := ih (Nat.succ.inj length) fun first member item member' =>
        each first (List.mem_cons_of_mem _ member) item (List.mem_cons_of_mem _ member')
      rw [matchEach, List.cons.injEq, ← same]
      split_ifs with matched
      · simp [kept, unchanged, success, matched]
      · simp [kept, matched]

theorem matchSlices_exact {pattern actual : List Any}
    (plain : ∀ template, pattern = [.object template] → template.lookup itemsKey = none)
    (each : ∀ first ∈ pattern, ∀ item ∈ actual, Exact regex order first item) :
    (matchSlices regex order path pattern actual).2 = pattern ∧
      ((matchSlices regex order path pattern actual).1 = true ↔ pattern = actual) := by
  have regular : matchSlices regex order path pattern actual =
      if pattern.length ≠ actual.length then (false, pattern) else matchEach regex order path pattern actual := by
    unfold matchSlices
    split
    · rw [plain _ rfl]
      simp [eq_comm]
    · rfl
  rw [regular]
  split_ifs with length
  · simpa using fun same => length (congrArg _ same)
  · exact matchEach_exact path (not_not.mp length) each

theorem remove_absent {key : String} {entries : Entries} (absent : ∀ entry ∈ entries, entry.1 ≠ key) :
    remove key entries = entries ∧ entries.lookup key = none := by
  refine ⟨List.filter_eq_self.mpr fun entry member => decide_eq_true (absent entry member), ?_⟩
  rw [← Option.not_isSome_iff_eq_none, lookup_isSome_iff]
  rintro member
  obtain ⟨entry, here, rfl⟩ := List.mem_map.mp member
  exact absent entry here rfl

theorem matchMaps_exact {pattern actual : Entries} (visits : ∀ path entries, (order path entries).Perm entries)
    (keys : ∀ entry ∈ pattern, entry.1 ≠ partialKey) (sorted : Sorted pattern) (sorted' : Sorted actual)
    (each : ∀ entry ∈ pattern, ∀ item, actual.lookup entry.1 = some item → Exact regex order entry.2 item) :
    (matchMaps regex order path pattern actual).2 = pattern ∧
      ((matchMaps regex order path pattern actual).1 = true ↔ pattern = actual) := by
  obtain ⟨same, absent⟩ := remove_absent keys
  have visited (entry) : entry ∈ order path pattern ↔ entry ∈ pattern := (visits path pattern).mem_iff
  have stored (entry) (member : entry ∈ order path pattern) := lookup_of_mem sorted ((visited entry).mp member)
  obtain ⟨kept, success⟩ := matchKeys_exact path stored fun entry member => each entry ((visited entry).mp member)
  rw [matchMaps, same, absent]
  simp only [kept, Option.isSome_none, Bool.false_or, Bool.and_eq_true, success, visited, List.all_eq_true, true_and]
  constructor
  · rintro ⟨found, all⟩
    refine sorted_ext sorted sorted' fun key => ?_
    cases stored : pattern.lookup key with
    | some value => exact (found (key, value) (mem_of_lookup stored)).symm
    | none =>
      cases there : actual.lookup key with
      | none => rfl
      | some item =>
        have known := all (key, item) (mem_of_lookup there)
        rw [stored] at known
        cases known
  · rintro rfl
    exact ⟨fun entry member => lookup_of_mem sorted member, fun entry member => by
      rw [lookup_of_mem sorted member]
      rfl⟩

theorem Tokenless.exact {p a : Any} (tokenless : Tokenless p)
    (visits : ∀ path entries, (order path entries).Perm entries) (value : Value p) (value' : Value a) :
    Exact regex order p a := by
  induction tokenless generalizing a with
  | nil | bool | float64 => intro path; cases a <;> simp [deepMatch]
  | string s literal => intro path; cases a <;> simp [deepMatch, literal]
  | slice items each ih =>
    intro path
    cases value' with
    | slice actual parts' =>
      have plain (template : Entries) (single : items = [.object template]) : template.lookup itemsKey = none := by
        subst single
        cases each (.object template) (List.mem_singleton_self _) with
        | object _ keys _ => exact (remove_absent fun entry member => (keys entry member).2).2
      obtain _ | _ | _ | _ | ⟨_, parts⟩ := value
      have slices := matchSlices_exact path plain fun first member item member' =>
        ih first member (parts first member) (parts' item member')
      rw [deepMatch]
      simpa using slices
    | _ => simp [deepMatch]
  | object entries keys each ih =>
    intro path
    cases value' with
    | object actual sorted' parts' =>
      obtain _ | _ | _ | _ | _ | ⟨_, sorted, parts⟩ := value
      have maps := matchMaps_exact path visits (fun entry member => (keys entry member).1) sorted sorted'
        fun entry member item found => ih entry member (parts entry member) (parts' _ (mem_of_lookup found))
      rw [deepMatch]
      simpa using maps
    | _ => simp [deepMatch]

theorem deepMatch_tokenless_iff (visits : ∀ path entries, (order path entries).Perm entries) {p a : Any}
    (value : Value p) (value' : Value a) (tokenless : Tokenless p) :
    (deepMatch regex order [] p a).1 = true ↔ p = a :=
  (tokenless.exact visits value value' []).2

theorem deepMatch_tokenless_nested : (deepMatch (fun _ _ => false) (fun _ entries => entries.reverse) []
    (.object [("a", .slice [.float64 1]), ("b", .nil)]) (.object [("a", .slice [.float64 1]), ("b", .nil)])).1 =
      true := by
  have value : Value (.object [("a", .slice [.float64 1]), ("b", .nil)]) :=
    .object _ (by unfold Sorted; decide) (List.forall_mem_cons.mpr
      ⟨.slice _ (List.forall_mem_singleton.mpr (.float64 1)), List.forall_mem_singleton.mpr .nil⟩)
  refine (deepMatch_tokenless_iff (fun _ entries => List.reverse_perm entries) value value ?_).mpr rfl
  exact .object _ (by decide) (List.forall_mem_cons.mpr
    ⟨.slice _ (List.forall_mem_singleton.mpr (.float64 1)), List.forall_mem_singleton.mpr .nil⟩)

end Mcp.MockClient
