import Mcp.JsonStruct
import Mcp.Lib.Utf8
import Mcp.Namespace

namespace Mcp.Namespaces
open Lib Bytes Entries Utf8

structure TimeText (τ : Type) where
  format : τ → String

variable {τ : Type}

def marshalString (s : Bytes) : Json := .string (toValid s)

-- The keys of a map are sorted before they are coerced to valid UTF-8.
def marshalMap (entries : List (Bytes × Json)) : Json :=
  .object ((entries.mergeSort fun a b => a.1 ≤ b.1).map fun entry => (toValid entry.1, entry.2))

def omitEmpty (s : Bytes) : Option Json := if s = [] then none else some (marshalString s)

def entryFields (times : TimeText τ) (info : Info τ) : List (String × Option Json) :=
  [("name", some (marshalString info.name)), ("type", some (marshalString info.type)),
    ("transport", omitEmpty info.transport), ("address", omitEmpty info.address), ("command", omitEmpty info.command),
    ("args", if info.args = [] then none else some (.array (info.args.map marshalString))),
    ("metadata", if info.metadata.entries = [] then none
      else some (marshalMap (info.metadata.entries.map fun entry => (entry.1, marshalString entry.2)))),
    ("last_seen", some (.string (times.format info.lastSeen)))]

def marshalEntry (times : TimeText τ) (info : Info τ) : Json := .object (Struct.written (entryFields times info))

mutual

-- A namespace without children is dereferenced.
def serializeEntry (times : TimeText τ) : Entry τ → Option Json
  | .mk info none => if info.type = namespaceType then none else some (marshalEntry times info)
  | .mk info (some child) =>
    if info.type = namespaceType then (serializeNamespace times child).map marshalMap
    else some (marshalEntry times info)

def serializeNamespace (times : TimeText τ) : List (Bytes × Entry τ) → Option (List (Bytes × Json))
  | [] => some []
  | (name, entry) :: rest =>
    match serializeEntry times entry, serializeNamespace times rest with
    | some value, some others => some ((name, value) :: others)
    | _, _ => none

end

mutual

def nesting : Json → Nat
  | .array elements => nestingElements elements + 1
  | .object members => nestingMembers members + 1
  | .null => 0
  | .bool _ => 0
  | .number _ => 0
  | .string _ => 0

def nestingElements : List Json → Nat
  | [] => 0
  | element :: rest => max (nesting element) (nestingElements rest)

def nestingMembers : List (String × Json) → Nat
  | [] => 0
  | (_, value) :: rest => max (nesting value) (nestingMembers rest)

end

def maxNestingDepth : Nat := 10000

-- `MarshalIndent` scans what it has marshalled, and the scanner bounds the depth.
def saveToFile (times : TimeText τ) (root : Namespace τ) : Except Fault Json :=
  match serializeNamespace times root with
  | none => .error .nilDereference
  | some entries =>
    if nesting (marshalMap entries) ≤ maxNestingDepth then .ok (marshalMap entries)
    else .error (.error (ofString "exceeded max depth"))

mutual

theorem serializeEntry_isSome (times : TimeText τ) :
    (entry : Entry τ) → ((serializeEntry times entry).isSome ↔ Whole entry)
  | .mk info none => by
      by_cases inner : info.type = namespaceType
      · have missing : ¬ Whole (.mk info none : Entry τ) := by
          rintro (other | _)
          exact other inner
        simp [serializeEntry, inner, missing]
      · simp [serializeEntry, inner, Whole.leaf]
  | .mk info (some child) => by
      by_cases inner : info.type = namespaceType
      · rw [whole_inner_iff inner, ← serializeNamespace_isSome times child]
        simp [serializeEntry, inner]
      · simp [serializeEntry, inner, Whole.leaf]

theorem serializeNamespace_isSome (times : TimeText τ) : (entries : List (Bytes × Entry τ)) →
    ((serializeNamespace times entries).isSome ↔ WholeTree entries)
  | [] => by simp [serializeNamespace, wholeTree_nil]
  | (name, entry) :: rest => by
      have first := serializeEntry_isSome times entry
      have others := serializeNamespace_isSome times rest
      rw [WholeTree, List.forall_mem_cons, ← first, ← WholeTree, ← others, serializeNamespace]
      cases serializeEntry times entry <;> cases serializeNamespace times rest <;> simp

end

section Crashes

variable {entry : Entry τ} {path : Bytes} {ps qs : List Bytes} {now : Nat → τ} {current child root : Namespace τ}

theorem lookupAt_whole (whole : WholeTree current) :
    lookupAt path ps current ≠ .error .nilDereference ∧
      ∀ found, lookupAt path ps current = .ok found → Whole found := by
  induction ps generalizing current with
  | nil => simp [lookupAt, notFound]
  | cons name rest ih =>
    cases found : current.lookup name with
    | none => simp [lookupAt, found, notFound]
    | some existing =>
      have stored := whole _ (mem_of_lookup found)
      by_cases last : rest = []
      · subst last
        rw [lookupAt_last found]
        refine ⟨by simp, fun other equal => ?_⟩
        cases equal
        exact stored
      · by_cases inner : existing.info.type = namespaceType
        · obtain ⟨child, children, below⟩ := stored.exists_children inner
          rw [lookupAt_inner found inner children last]
          exact ih below
        · simp [lookupAt, found, last, inner, notNamespace]

/-- Some component above the last one is an entry that is not a namespace. -/
def Blocked (path : Bytes) (ps : List Bytes) (current : Namespace τ) : Prop :=
  ∃ qs found, qs <+: ps ∧ qs ≠ ps ∧ lookupAt path qs current = .ok found ∧ found.info.type ≠ namespaceType

theorem blocked_cons {name next : Bytes} {rest : List Bytes} {existing : Entry τ}
    (found : current.lookup name = some existing)
    (inner : existing.info.type = namespaceType) (children : existing.children = some child) :
    Blocked path (name :: next :: rest) current ↔ Blocked path (next :: rest) child := by
  constructor
  · rintro ⟨_ | ⟨q, later⟩, e, leads, proper, there, other⟩
    · cases there
    · obtain ⟨rfl, below⟩ := List.cons_prefix_cons.mp leads
      by_cases last : later = []
      · subst last
        rw [lookupAt_last found] at there
        cases there
        exact absurd inner other
      · rw [lookupAt_inner found inner children last] at there
        exact ⟨later, e, below, fun same => proper (by rw [same]), there, other⟩
  · rintro ⟨later, e, leads, proper, there, other⟩
    have more : later ≠ [] := by
      rintro rfl
      cases there
    refine ⟨name :: later, e, List.cons_prefix_cons.mpr ⟨rfl, leads⟩, fun same => proper (List.cons.inj same).2, ?_,
      other⟩
    rwa [lookupAt_inner found inner children more]

theorem registerAt_succeeds_iff (path : Bytes) (whole : WholeTree current) (nonempty : ps ≠ []) :
    (registerAt entry ps now current).2 = none ↔ ¬ Blocked path ps current := by
  induction ps generalizing current with
  | nil => exact absurd rfl nonempty
  | cons name rest ih =>
    cases rest with
    | nil =>
      refine iff_of_true rfl ?_
      rintro ⟨_ | ⟨q, later⟩, e, leads, proper, there, -⟩
      · cases there
      · obtain ⟨rfl, below⟩ := List.cons_prefix_cons.mp leads
        exact proper (by rw [List.prefix_nil.mp below])
    | cons next rest =>
      cases found : current.lookup name with
      | none =>
        rw [registerAt_new found, registerAt_nil_succeeds _ _ (by simp)]
        refine iff_of_true rfl ?_
        rintro ⟨_ | ⟨q, later⟩, e, leads, proper, there, -⟩
        · cases there
        · obtain ⟨rfl, -⟩ := List.cons_prefix_cons.mp leads
          rw [lookupAt_absent found] at there
          cases there
      | some existing =>
        by_cases inner : existing.info.type = namespaceType
        · obtain ⟨child, children, below⟩ := (whole _ (mem_of_lookup found)).exists_children inner
          rw [registerAt_existing found inner children, blocked_cons found inner children]
          exact ih below (by simp)
        · rw [registerAt_blocked found inner]
          refine iff_of_false (by simp) (not_not.mpr ⟨[name], existing, ?_, by simp, lookupAt_last found, inner⟩)
          exact List.cons_prefix_cons.mpr ⟨rfl, List.nil_prefix⟩

end Crashes

inductive Op (τ : Type) where
  | register (path : Bytes) (info : Info τ) (now : Nat → τ)
  | lookup (path : Bytes)
  | list (path : Bytes)
  | saveToFile

def Crashes (times : TimeText τ) (root : Namespace τ) : Op τ → Prop
  | .register path info now => (register path (.mk info none) now root).2 = some .nilDereference
  | .lookup path => lookup path root = .error .nilDereference
  | .list path => list path root = .error .nilDereference
  | .saveToFile => saveToFile times root = .error .nilDereference

def server : Machine (Namespace τ) (Op τ) where
  start := []
  step root op := match op with
    | .register path info now => some (register path (.mk info none) now root).1
    | .lookup _ | .list _ | .saveToFile => some root

variable {root : Namespace τ}

theorem list_whole (whole : WholeTree root) (path : Bytes) : list path root ≠ .error .nilDereference := by
  have defined : lookup path root ≠ .error .nilDereference := (lookupAt_whole whole).1
  have below : ∀ found, lookup path root = .ok found → Whole found := (lookupAt_whole whole).2
  unfold list
  split_ifs
  · simp
  · cases result : lookup path root with
    | error fault =>
      rw [result] at defined
      simpa using defined
    | ok found =>
      by_cases inner : found.info.type = namespaceType
      · obtain ⟨child, children, -⟩ := (below found result).exists_children inner
        simp [inner, children]
      · simp [inner]

theorem forall_not_crashes_iff (times : TimeText τ) (root : Namespace τ) :
    (∀ op, ¬ Crashes times root op) ↔ WholeTree root := by
  constructor
  · intro safe
    have saved := safe .saveToFile
    rw [← serializeNamespace_isSome times, Option.isSome_iff_ne_none]
    intro missing
    exact saved (by simp [Crashes, saveToFile, missing])
  · rintro whole (⟨path, info, now⟩ | path | path | _) crash
    · exact (registerAt_failed whole crash).2 rfl
    · exact (lookupAt_whole whole).1 crash
    · exact list_whole whole path crash
    · have written := (serializeNamespace_isSome times root).mpr whole
      obtain ⟨entries, saved⟩ := Option.isSome_iff_exists.mp written
      simp only [Crashes, saveToFile, saved] at crash
      split_ifs at crash
      cases crash

theorem wholeTree_register_iff (whole : WholeTree root) (path : Bytes) (info : Info τ) (now : Nat → τ) :
    WholeTree (register path (.mk info none) now root).1 ↔
      (info.type = namespaceType → Blocked path (parts path) root) := by
  have succeeds : (registerAt (.mk info none) (parts path) now root).2 = none ↔ ¬ Blocked path (parts path) root :=
    registerAt_succeeds_iff path whole (parts_ne_nil path)
  by_cases blocked : Blocked path (parts path) root
  · obtain ⟨fault, failed⟩ := Option.ne_none_iff_exists'.mp fun success => succeeds.mp success blocked
    rw [register, (registerAt_failed whole failed).1]
    exact iff_of_true whole fun _ => blocked
  · rw [register, wholeTree_registerAt whole (succeeds.mpr blocked) (parts_ne_nil path)]
    constructor
    · rintro (other | _) inner
      exact absurd inner other
    · exact fun refused => .leaf fun inner => blocked (refused inner)

/-- In each state of a run no operation crashes the server, just when every entry that calls itself a namespace is
registered below something that is not one, so that it is refused. -/
theorem server_crash_free_iff (times : TimeText τ) (ops : List (Op τ)) :
    server.Always (fun root => ∀ op, ¬ Crashes times root op) [] ops ↔
      server.EachStep (fun root op => ∀ path info now, op = .register path info now → info.type = namespaceType →
        Blocked path (parts path) root) [] ops := by
  simp only [forall_not_crashes_iff]
  obtain ⟨after, run⟩ : ∃ after, (server (τ := τ)).run [] ops = some after := by
    generalize ([] : Namespace τ) = root
    induction ops generalizing root with
    | nil => exact ⟨root, rfl⟩
    | cons op ops ih => cases op <;> exact ih _
  refine Machine.always_iff_eachStep ?_ .start wholeTree_nil run
  rintro root op after - whole step
  cases op with
  | register path info now =>
    cases step
    rw [wholeTree_register_iff whole]
    exact ⟨fun refused _ _ _ same => by cases same; exact refused, fun all => all path info now rfl⟩
  | lookup path | list path | saveToFile =>
    cases step
    exact iff_of_true whole (by simp)

def sampleTimes : TimeText Unit := ⟨fun _ => "2025-01-01T00:00:00Z"⟩

theorem server_crashes_after_register :
    ∃ root, server.run [] [.register (ofString "a") (sampleInfo "namespace") fun _ => ()] = some root ∧
      Crashes sampleTimes root (.lookup (ofString "a/b")) ∧ Crashes sampleTimes root (.list (ofString "a")) ∧
      Crashes sampleTimes root (.register (ofString "a/b") (sampleInfo "local") fun _ => ()) ∧
      Crashes sampleTimes root .saveToFile :=
  ⟨_, rfl, rfl, rfl, rfl, rfl⟩

end Mcp.Namespaces
