import Mcp.Spy.Tracker

namespace Mcp.Spy
open Mcp.Lib Bytes

structure Marshalling (δ : Type) where
  marshalIndent : δ → Except Bytes Bytes
  nonempty : ∀ document, marshalIndent document ≠ .ok []

inductive Disk where
  | mkdirFails (err : Bytes)
  | writeFails (err : Bytes) (left : Option Bytes)
  | renameFails (err : Bytes)
  | works
  deriving DecidableEq

structure SpecFile where
  lastJSON : Bytes := []
  file : Option Bytes
  tmp : Option Bytes := none
  failed : Bool := false
  deriving DecidableEq

variable {δ : Type}

def content (data : Bytes) : Bytes := data ++ [newline]

def writeSpec (path data : Bytes) (disk : Disk) (s : SpecFile) : SpecFile × Option Bytes :=
  if path = [] then (s, none)
  else match disk with
    | .mkdirFails err => ({ s with failed := true }, some (ofString "create spec dir: " ++ err))
    | .writeFails err left => ({ s with tmp := left, failed := true }, some (ofString "write spec: " ++ err))
    | .renameFails err =>
      ({ s with tmp := some (content data), failed := true }, some (ofString "rename spec: " ++ err))
    | .works => ({ s with file := some (content data), tmp := none, failed := false }, none)

def persistLocked (docs : Marshalling δ) (path : Bytes) (document : δ) (disk : Disk) (s : SpecFile) :
    SpecFile × Option Bytes :=
  match docs.marshalIndent document with
  | .error err => (s, some (ofString "marshal spec: " ++ err))
  | .ok data => if data = s.lastJSON then (s, none) else writeSpec path data disk { s with lastJSON := data }

def persisting (docs : Marshalling δ) (path : Bytes) (file : Option Bytes) : Machine SpecFile (δ × Disk) where
  start := { file }
  step s call := some (persistLocked docs path call.1 call.2 s).1

/-- A call that returns nil leaves the document in the file. -/
def Truthful (docs : Marshalling δ) (path : Bytes) (s : SpecFile) (call : δ × Disk) : Prop :=
  (persistLocked docs path call.1 call.2 s).2 = none → path ≠ [] →
    ∃ data, docs.marshalIndent call.1 = .ok data ∧
      (persistLocked docs path call.1 call.2 s).1.file = some (content data)

/-- The call does not bring the document again that could not be written last, unless the file happens to hold it. -/
def NoRetry (docs : Marshalling δ) (path : Bytes) (s : SpecFile) (call : δ × Disk) : Prop :=
  path ≠ [] → s.failed = true → docs.marshalIndent call.1 = .ok s.lastJSON → s.file = some (content s.lastJSON)

def Remembered (path : Bytes) (s : SpecFile) : Prop :=
  path ≠ [] → s.failed = false → s.lastJSON = [] ∨ s.file = some (content s.lastJSON)

variable {docs : Marshalling δ} {path : Bytes} {s : SpecFile} {call : δ × Disk}

theorem remembered_writeSpec (data : Bytes) (disk : Disk) :
    Remembered path (writeSpec path data disk { s with lastJSON := data }).1 := by
  intro configured
  unfold writeSpec
  rw [if_neg configured]
  cases disk with
  | works => exact fun _ => .inr rfl
  | mkdirFails _ | writeFails _ _ | renameFails _ => exact fun worked => by cases worked

theorem persistLocked_skip (marshalled : docs.marshalIndent call.1 = .ok s.lastJSON) :
    persistLocked docs path call.1 call.2 s = (s, none) := by
  simp [persistLocked, marshalled]

variable {data : Bytes}

theorem persistLocked_write (marshalled : docs.marshalIndent call.1 = .ok data) (new : data ≠ s.lastJSON) :
    persistLocked docs path call.1 call.2 s = writeSpec path data call.2 { s with lastJSON := data } := by
  simp [persistLocked, marshalled, new]

theorem persistLocked_error {err : Bytes} (marshalled : docs.marshalIndent call.1 = .error err) :
    persistLocked docs path call.1 call.2 s = (s, some (ofString "marshal spec: " ++ err)) := by
  simp [persistLocked, marshalled]

theorem remembered_persistLocked (remembered : Remembered path s) :
    Remembered path (persistLocked docs path call.1 call.2 s).1 := by
  cases marshalled : docs.marshalIndent call.1 with
  | error err =>
    rw [persistLocked_error marshalled]
    exact remembered
  | ok data =>
    by_cases same : data = s.lastJSON
    · subst same
      rw [persistLocked_skip marshalled]
      exact remembered
    · rw [persistLocked_write marshalled same]
      exact remembered_writeSpec data call.2

theorem truthful_writeSpec {disk : Disk} (configured : path ≠ []) (success : (writeSpec path data disk s).2 = none) :
    (writeSpec path data disk s).1.file = some (content data) := by
  unfold writeSpec at success ⊢
  rw [if_neg configured] at success ⊢
  cases disk with
  | works => rfl
  | mkdirFails _ | writeFails _ _ | renameFails _ => cases success

theorem truthful_iff (remembered : Remembered path s) : Truthful docs path s call ↔ NoRetry docs path s call := by
  unfold Truthful NoRetry
  cases marshalled : docs.marshalIndent call.1 with
  | error err =>
    rw [persistLocked_error marshalled]
    simp
  | ok data =>
    by_cases same : data = s.lastJSON
    · subst same
      have nonempty : s.lastJSON ≠ [] := fun empty => docs.nonempty call.1 (by rw [marshalled, empty])
      rw [persistLocked_skip marshalled]
      constructor
      · intro truthful configured _ _
        obtain ⟨data, equal, held⟩ := truthful rfl configured
        cases equal
        exact held
      · intro retried _ configured
        refine ⟨_, rfl, ?_⟩
        cases failed : s.failed with
        | false => exact (remembered configured failed).resolve_left nonempty
        | true => exact retried configured failed rfl
    · rw [persistLocked_write marshalled same]
      refine iff_of_true (fun success configured => ⟨data, rfl, truthful_writeSpec configured success⟩) ?_
      intro _ _ equal
      exact absurd (Except.ok.inj equal) same

/-- In a sequence of calls each nil is true, exactly when no call brings a document again right after it could not be
written, unless the file held it anyway. -/
theorem persist_truthful_iff (docs : Marshalling δ) (path : Bytes) (file : Option Bytes) (calls : List (δ × Disk)) :
    (persisting docs path file).EachStep (Truthful docs path) (persisting docs path file).start calls ↔
      (persisting docs path file).EachStep (NoRetry docs path) (persisting docs path file).start calls := by
  refine Machine.eachStep_congr (P := Remembered path) ?_ (fun s call => truthful_iff) (fun _ _ => .inl rfl) calls
  rintro s call _ remembered ⟨⟩
  exact remembered_persistLocked remembered

def sampleDocs : Marshalling Bytes := ⟨fun title => .ok (ofString "\x7b" ++ title ++ ofString "\x7d"), fun title => by
  intro equal
  have empty := Except.ok.inj equal
  simp [ofString] at empty⟩

theorem persist_lies_after_failure :
    let s := (persistLocked sampleDocs (ofString "/specs/a.json") (ofString "\"title\":\"x\"")
      (.mkdirFails (ofString "permission denied")) { file := none }).1
    (persistLocked sampleDocs (ofString "/specs/a.json") (ofString "\"title\":\"x\"") .works s).2 = none ∧
      (persistLocked sampleDocs (ofString "/specs/a.json") (ofString "\"title\":\"x\"") .works s).1.file = none := by
  decide

section Filed

variable {ω : Type} (doc : SpecDocument δ ω) (docs : Marshalling δ) (path : Bytes) (failing : δ × SpecFile → Disk)
  (file : Option Bytes)

/-- The document of the tracker with the file that `persistLocked` keeps for it. -/
def SpecDocument.filed : SpecDocument (δ × SpecFile) ω :=
  { doc with
    start := (doc.start, { file })
    observeRequest s msg := (doc.observeRequest s.1 msg).map (·, s.2) id
    observeResponse s req msg := (doc.observeResponse s.1 req msg).map (·, s.2) id
    persist s writable :=
      (persistLocked docs path s.1 (if writable then .works else failing s) s.2).map (s.1, ·) Option.isNone
    snapshot s := doc.snapshot s.1 }

theorem observeMessage_file (s : SpecState (δ × SpecFile)) (msg : RpcMessage) :
    ((doc.filed docs path failing file).tracker.observeMessage s msg).1.document.2 = s.document.2 := by
  unfold SpecTracker.observeMessage
  split_ifs
  · rfl
  · show ((doc.filed docs path failing file).observeResponseLocked s msg).1.document.2 = _
    simp only [SpecDocument.observeResponseLocked]
    cases s.pending (trimSpace msg.id) <;> rfl
  · rfl

theorem observeLocked_file (s : SpecState (δ × SpecFile)) (ev : Event) (writable : Bool) :
    let t := ((doc.filed docs path failing file).tracker.observeLocked s ev writable).1
    t.document.2 = s.document.2 ∨ ∃ call, (persisting docs path file).step s.document.2 call = some t.document.2 := by
  unfold SpecTracker.observeLocked
  split_ifs
  · exact .inl rfl
  split
  · exact .inl rfl
  next msg _ =>
  have kept := observeMessage_file doc docs path failing file s msg
  split
  · next same => exact .inl (by rw [← kept, same])
  next t same =>
  rw [same] at kept
  refine .inr ⟨⟨t.document.1, if writable then .works else failing t.document⟩, ?_⟩
  rw [persisting, ← kept]
  cases err : (persistLocked docs path t.document.1
    (if writable then .works else failing t.document) t.document.2).2 with
  | none | some => simp [SpecDocument.tracker, SpecDocument.filed, err]

/-- Whatever the tracker observes, its file is one that a sequence of calls leaves. -/
theorem reachable_file {s : Session (δ × SpecFile)}
    (reachable : (doc.filed docs path failing file).session.Reachable s) :
    (persisting docs path file).Reachable s.tracker.document.2 := by
  refine reachable.invariant (P := fun s => (persisting docs path file).Reachable s.tracker.document.2) .start ?_
  rintro s input _ holds ⟨⟩
  obtain same | ⟨call, step⟩ := observeLocked_file doc docs path failing file s.tracker input.1 input.2
  · exact same ▸ holds
  · exact holds.next step

end Filed

end Mcp.Spy
