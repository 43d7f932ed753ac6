import Mathlib.Data.List.Infix
import Mcp.Lib.Bytes
import Mcp.Lib.Entries
import Mcp.Lib.Machine
import Mcp.Lib.Table

namespace Mcp.Namespaces
open Lib Bytes Entries

def slash : UInt8 := 47

def namespaceType : Bytes := ofString "namespace"

structure Info (τ : Type) where
  name : Bytes
  type : Bytes
  transport : Bytes := []
  address : Bytes := []
  command : Bytes := []
  args : List Bytes := []
  metadata : Table Bytes Bytes := ∅
  lastSeen : τ

-- The parent and the name of a `Namespace` are never read, so that a namespace is its map of entries.
inductive Entry (τ : Type) where
  | mk (info : Info τ) (children : Option (List (Bytes × Entry τ)))

abbrev Namespace (τ : Type) := List (Bytes × Entry τ)

def Entry.info {τ : Type} : Entry τ → Info τ
  | .mk info _ => info

def Entry.children {τ : Type} : Entry τ → Option (Namespace τ)
  | .mk _ children => children

inductive Fault where
  | error (text : Bytes)
  | nilDereference
  deriving DecidableEq

def trimSlashes (path : Bytes) : Bytes := ((path.dropWhile (· = slash)).reverse.dropWhile (· = slash)).reverse

def parts (path : Bytes) : List Bytes := (trimSlashes path).splitOn slash

def notNamespace (name : Bytes) : Fault := .error (ofString "path component " ++ name ++ ofString " is not a namespace")

def notFound (path : Bytes) : Fault := .error (ofString "not found: " ++ path)

section

variable {τ : Type}

def registerAt (entry : Entry τ) : List Bytes → (Nat → τ) → Namespace τ → Namespace τ × Option Fault
  | [], _, current => (current, some (.error (ofString "invalid path")))
  | [name], now, current =>
    (put name (.mk { entry.info with name := name, lastSeen := now 0 } entry.children) current, none)
  | name :: next :: rest, now, current =>
    match current.lookup name with
    | some existing =>
      if existing.info.type ≠ namespaceType then (current, some (notNamespace name))
      else match existing.children with
        | none => (current, some .nilDereference)
        | some child =>
          let (child', fault) := registerAt entry (next :: rest) now child
          (put name (.mk existing.info (some child')) current, fault)
    | none =>
      let (child', fault) := registerAt entry (next :: rest) (fun i => now (i + 1)) []
      (put name (.mk { name := name, type := namespaceType, lastSeen := now 0 } (some child')) current, fault)

def register (path : Bytes) (entry : Entry τ) (now : Nat → τ) (root : Namespace τ) : Namespace τ × Option Fault :=
  registerAt entry (parts path) now root

def lookupAt (path : Bytes) : List Bytes → Namespace τ → Except Fault (Entry τ)
  | [], _ => .error (notFound path)
  | name :: rest, current =>
    match current.lookup name with
    | none => .error (notFound path)
    | some entry =>
      if rest = [] then .ok entry
      else if entry.info.type ≠ namespaceType then .error (notNamespace name)
      else match entry.children with
        | none => .error .nilDereference
        | some child => lookupAt path rest child

def lookup (path : Bytes) (root : Namespace τ) : Except Fault (Entry τ) := lookupAt path (parts path) root

def list (path : Bytes) (root : Namespace τ) : Except Fault (List (Entry τ)) :=
  if path = [] ∨ path = [slash] then .ok (root.map Prod.snd)
  else match lookup path root with
    | .error fault => .error fault
    | .ok entry =>
      if entry.info.type ≠ namespaceType then .error (.error (ofString "not a namespace: " ++ path))
      else match entry.children with
        | none => .error .nilDereference
        | some child => .ok (child.map Prod.snd)

end

theorem parts_ne_nil (path : Bytes) : parts path ≠ [] := List.splitOn_ne_nil slash (trimSlashes path)

variable {τ : Type}

inductive Whole : Entry τ → Prop
  | leaf {info : Info τ} {children : Option (Namespace τ)} (other : info.type ≠ namespaceType) :
      Whole (.mk info children)
  | inner {info : Info τ} {child : Namespace τ} (each : ∀ entry ∈ child, Whole entry.2) : Whole (.mk info (some child))

def WholeTree (root : Namespace τ) : Prop := ∀ entry ∈ root, Whole entry.2

theorem wholeTree_nil : WholeTree ([] : Namespace τ) := by simp [WholeTree]

theorem Whole.exists_children {entry : Entry τ} (whole : Whole entry) (inner : entry.info.type = namespaceType) :
    ∃ child, entry.children = some child ∧ WholeTree child := by
  cases whole with
  | leaf other => exact absurd inner other
  | inner each => exact ⟨_, rfl, each⟩

section Register

variable {entry existing : Entry τ} {name next path : Bytes} {rest ps qs : List Bytes} {now : Nat → τ}
  {current child : Namespace τ} {fault : Fault}

def Entry.registered (entry : Entry τ) (name : Bytes) (seen : τ) : Entry τ :=
  .mk { entry.info with name := name, lastSeen := seen } entry.children

theorem registerAt_new (found : current.lookup name = none) : registerAt entry (name :: next :: rest) now current =
      (put name (.mk { name := name, type := namespaceType, lastSeen := now 0 }
        (some (registerAt entry (next :: rest) (fun i => now (i + 1)) []).1)) current,
        (registerAt entry (next :: rest) (fun i => now (i + 1)) []).2) := by
  simp [registerAt, found]

theorem registerAt_existing (found : current.lookup name = some existing) (inner : existing.info.type = namespaceType)
    (children : existing.children = some child) : registerAt entry (name :: next :: rest) now current =
      (put name (.mk existing.info (some (registerAt entry (next :: rest) now child).1)) current,
        (registerAt entry (next :: rest) now child).2) := by
  simp [registerAt, found, inner, children]

theorem registerAt_blocked (found : current.lookup name = some existing) (other : existing.info.type ≠ namespaceType) :
    registerAt entry (name :: next :: rest) now current = (current, some (notNamespace name)) := by
  simp [registerAt, found, other]

theorem exists_below (whole : WholeTree current) (found : current.lookup name = some existing)
    (success : (registerAt entry (name :: next :: rest) now current).2 = none) :
    ∃ child, existing.info.type = namespaceType ∧ existing.children = some child ∧ WholeTree child := by
  by_cases inner : existing.info.type = namespaceType
  · obtain ⟨child, children, below⟩ := (whole _ (mem_of_lookup found)).exists_children inner
    exact ⟨child, inner, children, below⟩
  · rw [registerAt_blocked found inner] at success
    cases success

theorem registerAt_nil_succeeds (ps : List Bytes) (now : Nat → τ) (nonempty : ps ≠ []) :
    (registerAt entry ps now []).2 = none := by
  induction ps generalizing now with
  | nil => exact absurd rfl nonempty
  | cons name rest ih =>
    cases rest with
    | nil => rfl
    | cons next rest =>
      rw [registerAt_new rfl]
      exact ih _ (by simp)

theorem registerAt_failed (whole : WholeTree current) (failed : (registerAt entry ps now current).2 = some fault) :
    (registerAt entry ps now current).1 = current ∧ fault ≠ .nilDereference := by
  induction ps generalizing now current with
  | nil =>
    cases failed
    exact ⟨rfl, by simp⟩
  | cons name rest ih =>
    cases rest with
    | nil => cases failed
    | cons next rest =>
      cases found : current.lookup name with
      | none =>
        rw [registerAt_new found, registerAt_nil_succeeds _ _ (by simp)] at failed
        cases failed
      | some existing =>
        by_cases inner : existing.info.type = namespaceType
        · obtain ⟨child, children, below⟩ := (whole _ (mem_of_lookup found)).exists_children inner
          rw [registerAt_existing found inner children] at failed ⊢
          obtain ⟨unchanged, crash⟩ := ih below failed
          refine ⟨?_, crash⟩
          obtain ⟨info, children'⟩ := existing
          rw [unchanged, ← children]
          exact put_of_lookup found
        · rw [registerAt_blocked found inner] at failed ⊢
          cases failed
          exact ⟨rfl, by simp [notNamespace]⟩

theorem lookupAt_congr {current' : Namespace τ} (same : current'.lookup name = current.lookup name) :
    lookupAt path (name :: rest) current' = lookupAt path (name :: rest) current := by
  simp only [lookupAt, same]

theorem lookupAt_last (found : current.lookup name = some existing) : lookupAt path [name] current = .ok existing := by
  simp [lookupAt, found]

theorem lookupAt_inner (found : current.lookup name = some existing) (inner : existing.info.type = namespaceType)
    (children : existing.children = some child) (more : rest ≠ []) :
    lookupAt path (name :: rest) current = lookupAt path rest child := by
  simp [lookupAt, found, inner, children, more]

theorem lookupAt_put_inner {info : Info τ} (inner : info.type = namespaceType) (more : rest ≠ []) :
    lookupAt path (name :: rest) (put name (.mk info (some child)) current) = lookupAt path rest child :=
  lookupAt_inner lookup_put_self inner rfl more

theorem lookupAt_registered (whole : WholeTree current) (success : (registerAt entry ps now current).2 = none)
    (nonempty : ps ≠ []) :
    ∃ i, lookupAt path ps (registerAt entry ps now current).1 =
      .ok (entry.registered (ps.getLast nonempty) (now i)) := by
  induction ps generalizing now current with
  | nil => exact absurd rfl nonempty
  | cons name rest ih =>
    cases rest with
    | nil => exact ⟨0, by simp [registerAt, lookupAt, Entry.registered]⟩
    | cons next rest =>
      rw [List.getLast_cons (by simp)]
      cases found : current.lookup name with
      | none =>
        rw [registerAt_new found] at success ⊢
        obtain ⟨i, below⟩ := ih wholeTree_nil success (by simp)
        exact ⟨i + 1, (lookupAt_put_inner rfl (by simp)).trans below⟩
      | some existing =>
        obtain ⟨child, inner, children, below⟩ := exists_below whole found success
        rw [registerAt_existing found inner children] at success ⊢
        obtain ⟨i, below⟩ := ih below success (by simp)
        exact ⟨i, (lookupAt_put_inner inner (by simp)).trans below⟩

def view (result : Except Fault (Entry τ)) : Except Fault (Info τ × Bool) :=
  result.map fun entry => (entry.info, entry.children.isSome)

theorem lookupAt_absent (absent : current.lookup name = none) :
    lookupAt path (name :: rest) current = .error (notFound path) := by
  simp [lookupAt, absent]

theorem registerAt_lookup_of_ne {q : Bytes} (other : q ≠ name) :
    (registerAt entry (name :: rest) now current).1.lookup q = current.lookup q := by
  cases rest with
  | nil => exact lookup_put_of_ne other
  | cons next rest =>
    unfold registerAt
    split
    · split_ifs
      · rfl
      · split
        · rfl
        · exact lookup_put_of_ne other
    · exact lookup_put_of_ne other

theorem view_lookupAt_registerAt (whole : WholeTree current) (success : (registerAt entry ps now current).2 = none)
    (apart : ¬ ps <+: qs) (old : qs <+: ps → ∃ found, lookupAt path qs current = .ok found) :
    view (lookupAt path qs (registerAt entry ps now current).1) = view (lookupAt path qs current) := by
  induction ps generalizing qs now current with
  | nil => exact absurd List.nil_prefix apart
  | cons name rest ih =>
    cases qs with
    | nil => rfl
    | cons q later =>
      by_cases same : q = name
      · subst same
        cases rest with
        | nil => exact absurd (List.cons_prefix_cons.mpr ⟨rfl, List.nil_prefix⟩) apart
        | cons next rest =>
          have apart' : ¬ next :: rest <+: later := fun leads => apart (List.cons_prefix_cons.mpr ⟨rfl, leads⟩)
          cases found : current.lookup q with
          | none =>
            -- Nothing was there, so that the path leaves the new branch.
            rw [lookupAt_absent found] at old ⊢
            have leaves : ¬ later <+: next :: rest := fun leads => by
              obtain ⟨_, none⟩ := old (List.cons_prefix_cons.mpr ⟨rfl, leads⟩)
              cases none
            have more : later ≠ [] := fun empty => leaves (empty ▸ List.nil_prefix)
            rw [registerAt_new found] at success ⊢
            rw [lookupAt_put_inner rfl more, ih wholeTree_nil success apart' (fun leads => absurd leads leaves)]
            cases later with
            | nil => rfl
            | cons q later => rw [lookupAt_absent rfl]
          | some existing =>
            obtain ⟨child, inner, children, below⟩ := exists_below whole found success
            rw [registerAt_existing found inner children] at success ⊢
            by_cases more : later = []
            · subst more
              obtain ⟨info, children'⟩ := existing
              cases children
              rw [lookupAt_last found, lookupAt_last lookup_put_self]
              rfl
            · rw [lookupAt_put_inner inner more, lookupAt_inner found inner children more]
              refine ih below success apart' fun leads => ?_
              rw [← lookupAt_inner found inner children more]
              exact old (List.cons_prefix_cons.mpr ⟨rfl, leads⟩)
      · rw [lookupAt_congr (registerAt_lookup_of_ne same)]

end Register

section Whole

variable {entry : Entry τ} {name : Bytes} {ps : List Bytes} {now : Nat → τ} {current child : Namespace τ}

theorem whole_registered {seen : τ} : Whole (entry.registered name seen) ↔ Whole entry := by
  obtain ⟨info, children⟩ := entry
  constructor
  · rintro (other | each)
    · exact .leaf other
    · exact .inner each
  · rintro (other | each)
    · exact .leaf other
    · exact .inner each

theorem wholeTree_put (whole : WholeTree current) : WholeTree (put name entry current) ↔ Whole entry := by
  constructor
  · exact fun all => all _ mem_put_self
  · intro new e member
    rcases mem_put member with rfl | old
    · exact new
    · exact whole e old

theorem whole_inner_iff {info : Info τ} (inner : info.type = namespaceType) :
    Whole (.mk info (some child)) ↔ WholeTree child := by
  constructor
  · rintro (other | each)
    · exact absurd inner other
    · exact each
  · exact .inner

theorem wholeTree_registerAt (whole : WholeTree current) (success : (registerAt entry ps now current).2 = none)
    (nonempty : ps ≠ []) : WholeTree (registerAt entry ps now current).1 ↔ Whole entry := by
  induction ps generalizing now current with
  | nil => exact absurd rfl nonempty
  | cons name rest ih =>
    cases rest with
    | nil => exact (wholeTree_put whole).trans whole_registered
    | cons next rest =>
      cases found : current.lookup name with
      | none =>
        rw [registerAt_new found] at success ⊢
        rw [wholeTree_put whole, whole_inner_iff rfl]
        exact ih wholeTree_nil success (by simp)
      | some existing =>
        obtain ⟨child, inner, children, below⟩ := exists_below whole found success
        rw [registerAt_existing found inner children] at success ⊢
        rw [wholeTree_put whole, whole_inner_iff inner]
        exact ih below success (by simp)

end Whole

/-- A registration fails and changes nothing, or the entry is found under its path and every path that is not at or
below it, and is not a new namespace on the way to it, leads to what it led to before. -/
theorem register_tree_law (path : Bytes) (entry : Entry τ) (now : Nat → τ) (root : Namespace τ)
    (whole : WholeTree root) :
    (∃ text, (register path entry now root).2 = some (.error text) ∧ (register path entry now root).1 = root) ∨
      ((register path entry now root).2 = none ∧
        (∃ i, lookup path (register path entry now root).1 =
          .ok (entry.registered ((parts path).getLast (parts_ne_nil path)) (now i))) ∧
        ∀ q, ¬ parts path <+: parts q → (parts q <+: parts path → ∃ found, lookup q root = .ok found) →
          view (lookup q (register path entry now root).1) = view (lookup q root)) := by
  cases failed : (register path entry now root).2 with
  | none =>
    refine .inr ⟨rfl, lookupAt_registered whole failed (parts_ne_nil path), fun q apart old => ?_⟩
    exact view_lookupAt_registerAt whole failed apart old
  | some fault =>
    obtain ⟨unchanged, crash⟩ := registerAt_failed whole failed
    cases fault with
    | error text => exact .inl ⟨text, rfl, unchanged⟩
    | nilDereference => exact absurd rfl crash

def sampleInfo (type : String) : Info Unit := { name := [], type := ofString type, lastSeen := () }

def sampleTree : Namespace Unit :=
  (register (ofString "tools/clock") (.mk (sampleInfo "local") none) (fun _ => ()) []).1

theorem register_tree_law_sibling : WholeTree sampleTree ∧
    (register (ofString "/tools/files/") (.mk (sampleInfo "remote") none) (fun _ => ()) sampleTree).2 = none ∧
    view (lookup (ofString "tools/clock")
      (register (ofString "/tools/files/") (.mk (sampleInfo "remote") none) (fun _ => ()) sampleTree).1) =
        view (lookup (ofString "tools/clock") sampleTree) := by
  have whole : WholeTree sampleTree :=
    (wholeTree_registerAt wholeTree_nil (by decide) (parts_ne_nil _)).mpr (.leaf (by decide))
  have success : (register (ofString "/tools/files/") (.mk (sampleInfo "remote") none) (fun _ => ()) sampleTree).2 =
      none := by
    decide
  obtain ⟨text, failed, -⟩ | ⟨-, -, frame⟩ :=
    register_tree_law (ofString "/tools/files/") (.mk (sampleInfo "remote") none) (fun _ => ()) sampleTree whole
  · rw [success] at failed
    cases failed
  · exact ⟨whole, success, frame (ofString "tools/clock") (by decide) fun leads => absurd leads (by decide)⟩

end Mcp.Namespaces
