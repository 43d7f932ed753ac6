import Mcp.Lib.Bytes
import Mcp.Lib.Machine

namespace Mcp.Cancellation
open Mcp.Lib Bytes Function

-- A `context.CancelFunc`, by the context that it cancels.
abbrev CancelFunc := Nat

structure CancelManager where
  cancelled : Bytes → Option CancelFunc := fun _ => none
  reasons : Bytes → Option Bytes := fun _ => none

namespace CancelManager

variable (cm : CancelManager)

def registerCancellation (requestID : Bytes) (cancelFunc : CancelFunc) : CancelManager :=
  { cm with cancelled := update cm.cancelled requestID (some cancelFunc) }

def cancelRequest (requestID reason : Bytes) : CancelManager × Option CancelFunc :=
  match cm.cancelled requestID with
  | none => (cm, none)
  | some cancelFunc => ({ cm with reasons := update cm.reasons requestID (some reason) }, some cancelFunc)

def isCancelled (requestID : Bytes) : Bool × Bytes :=
  ((cm.reasons requestID).isSome, (cm.reasons requestID).getD [])

def unregisterCancellation (requestID : Bytes) : CancelManager where
  cancelled := update cm.cancelled requestID none
  reasons := update cm.reasons requestID none

end CancelManager

structure Operation where
  cancelFunc : CancelFunc
  reason : Option Bytes := none

abbrev Operations := Bytes → Option Operation

inductive Call where
  | register (requestID : Bytes) (cancelFunc : CancelFunc)
  | cancel (requestID reason : Bytes)
  | unregister (requestID : Bytes)

def Call.requestID : Call → Bytes
  | .register requestID _ | .cancel requestID _ | .unregister requestID => requestID

def Call.manage (cm : CancelManager) : Call → CancelManager
  | .register requestID cancelFunc => cm.registerCancellation requestID cancelFunc
  | .cancel requestID reason => (cm.cancelRequest requestID reason).1
  | .unregister requestID => cm.unregisterCancellation requestID

def Call.operate (operations : Operations) : Call → Operations
  | .register requestID cancelFunc => update operations requestID (some { cancelFunc := cancelFunc })
  | .cancel requestID reason =>
    update operations requestID ((operations requestID).map fun op => { op with reason := some reason })
  | .unregister requestID => update operations requestID none

structure State where
  manager : CancelManager := {}
  operations : Operations := fun _ => none
  called : List CancelFunc := []

def State.call (s : State) (c : Call) : State where
  manager := c.manage s.manager
  operations := c.operate s.operations
  called := s.called ++
    match c with
    | .cancel requestID reason => (s.manager.cancelRequest requestID reason).2.toList
    | _ => []

def cancellation : Machine State Call where
  start := {}
  step s c := some (s.call c)

namespace State

def Cancelled (s : State) (requestID : Bytes) : Prop := ∃ op, s.operations requestID = some op ∧ op.reason.isSome

/-- The manager reports the cancelled operations, and no others. -/
def Reports (s : State) : Prop := ∀ requestID, (s.manager.isCancelled requestID).1 = true ↔ s.Cancelled requestID

/-- Nothing is registered under an id whose operation has been cancelled. -/
def Renews (s : State) : Call → Prop
  | .register requestID _ => ¬ s.Cancelled requestID
  | _ => True

def Registered (s : State) : Prop :=
  ∀ requestID, s.manager.cancelled requestID = (s.operations requestID).map Operation.cancelFunc

variable {s : State} {c : Call} {other requestID : Bytes}

theorem registered_call (registered : s.Registered) (c : Call) : (s.call c).Registered := by
  intro other
  cases c with
  | register requestID cancelFunc =>
    by_cases same : other = requestID
    · subst same
      simp [call, Call.manage, Call.operate, CancelManager.registerCancellation]
    · simpa [call, Call.manage, Call.operate, CancelManager.registerCancellation, same] using registered other
  | cancel requestID reason =>
    have kept : (s.manager.cancelRequest requestID reason).1.cancelled = s.manager.cancelled := by
      unfold CancelManager.cancelRequest
      split <;> rfl
    simp only [call, Call.manage, kept, registered other, Call.operate]
    by_cases same : other = requestID
    · subst same
      simp [Option.map_map, comp_def]
    · simp [same]
  | unregister requestID =>
    by_cases same : other = requestID
    · subst same
      simp [call, Call.manage, Call.operate, CancelManager.unregisterCancellation]
    · simpa [call, Call.manage, Call.operate, CancelManager.unregisterCancellation, same] using registered other

theorem registered_of_reachable (reachable : cancellation.Reachable s) : s.Registered := by
  refine reachable.invariant (P := Registered) (fun _ => rfl) ?_
  rintro s c s' registered ⟨⟩
  exact registered_call registered c

theorem operations_of_ne (s : State) (ne : other ≠ c.requestID) : (s.call c).operations other = s.operations other := by
  cases c <;> exact update_of_ne ne _ _

theorem reasons_of_ne (s : State) (ne : other ≠ c.requestID) :
    (s.call c).manager.reasons other = s.manager.reasons other := by
  cases c with
  | register requestID cancelFunc => rfl
  | cancel requestID reason =>
    simp only [call, Call.manage, CancelManager.cancelRequest]
    split
    · rfl
    · exact update_of_ne ne _ _
  | unregister requestID => exact update_of_ne ne _ _

theorem reports_call_iff (reports : s.Reports) (c : Call) : (s.call c).Reports ↔
      (((s.call c).manager.reasons c.requestID).isSome = true ↔ (s.call c).Cancelled c.requestID) := by
  refine ⟨fun after => after c.requestID, fun own other => ?_⟩
  by_cases same : other = c.requestID
  · rw [same]
    exact own
  · have before := reports other
    rw [CancelManager.isCancelled, Cancelled] at before ⊢
    rwa [reasons_of_ne s same, operations_of_ne s same]

theorem reports_register {cancelFunc : CancelFunc} (reports : s.Reports) :
    (s.call (.register requestID cancelFunc)).Reports ↔ ¬ s.Cancelled requestID := by
  have fresh : ¬ (s.call (.register requestID cancelFunc)).Cancelled requestID := by
    rintro ⟨op, found, reason⟩
    obtain rfl : { cancelFunc := cancelFunc } = op := by
      simpa [call, Call.operate] using found
    cases reason
  have before : (s.manager.reasons requestID).isSome = true ↔ s.Cancelled requestID := reports requestID
  rw [reports_call_iff reports, ← before]
  exact iff_false_right fresh

theorem reports_cancel {reason : Bytes} (reports : s.Reports) (registered : s.Registered) :
    (s.call (.cancel requestID reason)).Reports := by
  have place := registered requestID
  rw [reports_call_iff reports]
  cases found : s.operations requestID with
  | none =>
    rw [found, Option.map_none] at place
    have before := reports requestID
    simpa [call, Call.manage, Call.operate, Call.requestID, CancelManager.cancelRequest, CancelManager.isCancelled,
      Cancelled, place, found] using before
  | some op =>
    rw [found, Option.map_some] at place
    simp [call, Call.manage, Call.operate, Call.requestID, CancelManager.cancelRequest, Cancelled, place, found]

theorem reports_unregister (reports : s.Reports) : (s.call (.unregister requestID)).Reports := by
  rw [reports_call_iff reports]
  simp [call, Call.manage, Call.operate, Call.requestID, CancelManager.unregisterCancellation, Cancelled]

end State

/-- Throughout a sequence of calls `IsCancelled` is true of the ids whose operation has been cancelled and of no
others, exactly when no call registers an id again whose operation has been cancelled. -/
theorem cancellation_current_iff (calls : List Call) :
    cancellation.Always State.Reports cancellation.start calls ↔
      cancellation.EachStep State.Renews cancellation.start calls := by
  obtain ⟨s, run⟩ : ∃ s, cancellation.run cancellation.start calls = some s := by
    generalize cancellation.start = s
    induction calls generalizing s with
    | nil => exact ⟨s, rfl⟩
    | cons c calls ih => exact ih (s.call c)
  have initial : cancellation.start.Reports := by
    intro requestID
    simp [cancellation, CancelManager.isCancelled, State.Cancelled]
  refine Machine.always_iff_eachStep ?_ .start initial run
  rintro s c s' reachable reports ⟨⟩
  cases c with
  | register requestID cancelFunc => exact State.reports_register reports
  | cancel requestID reason =>
    exact iff_of_true (State.reports_cancel reports (State.registered_of_reachable reachable)) trivial
  | unregister requestID => exact iff_of_true (State.reports_unregister reports) trivial

theorem cancellation_outlives_operation :
    let calls : List Call := [.register (ofString "7") 1, .cancel (ofString "7") (ofString "timeout"),
      .register (ofString "7") 2]
    (cancellation.run cancellation.start calls).map (fun s =>
      (s.manager.isCancelled (ofString "7"), (s.operations (ofString "7")).map fun op => (op.cancelFunc, op.reason),
        s.called)) =
      some ((true, ofString "timeout"), some (2, none), [1]) := by
  decide

end Mcp.Cancellation
