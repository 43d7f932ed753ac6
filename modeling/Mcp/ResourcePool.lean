import Mcp.Json
import Mcp.Lib.Bytes
import Mcp.Lib.Recycling

namespace Mcp.Resources
open Mcp.Lib Bytes

structure CallToolRequest where
  name : String := ""
  arguments : Option Bytes := none
  metadata : Option (List (String × Any)) := none

structure CallToolResult where
  content : Option (List Any) := none
  structuredContent : Any := .nil
  isError : Bool := false
  metadata : Option (List (String × Any)) := none

def requestPool : Recycler CallToolRequest where
  new := {}
  reset req := { req with name := "", arguments := none }
  reset_new := rfl

def responsePool : Recycler CallToolResult where
  new := {}
  reset resp := { resp with content := none, isError := false }
  reset_new := rfl

structure ResourcePool where
  requests : Recycler.State CallToolRequest
  responses : Recycler.State CallToolResult

inductive Label where
  | request (l : Recycler.Label CallToolRequest)
  | response (l : Recycler.Label CallToolResult)

def resourcePool : Machine ResourcePool Label where
  start := ⟨requestPool.start, responsePool.start⟩
  step
    | ⟨requests, responses⟩, .request l => (requestPool.step requests l).map fun requests => ⟨requests, responses⟩
    | ⟨requests, responses⟩, .response l => (responsePool.step responses l).map fun responses => ⟨requests, responses⟩

/-- Whatever `GetRequest` and `GetResponse` can return is zero in every field. -/
def HandsOutZero (s : ResourcePool) : Prop :=
  (∀ i req, requestPool.handedOut s.requests i = some req → req = {}) ∧
    ∀ i resp, responsePool.handedOut s.responses i = some resp → resp = {}

/-- An object is put back, or written to after that, without the fields that are not reset. -/
def Clears (s : ResourcePool) : Label → Prop
  | .request (.put p) => (s.requests.heap p).metadata = none
  | .request (.write p req) => p ∈ s.requests.idle → req.metadata = none
  | .response (.put p) =>
    (s.responses.heap p).structuredContent = .nil ∧ (s.responses.heap p).metadata = none
  | .response (.write p resp) => p ∈ s.responses.idle → resp.structuredContent = .nil ∧ resp.metadata = none
  | _ => True

instance (s : ResourcePool) (l : Label) : Decidable (Clears s l) := by
  unfold Clears
  split <;> infer_instance

theorem reset_request_iff (req : CallToolRequest) : requestPool.reset req = requestPool.new ↔ req.metadata = none := by
  simp [requestPool]

theorem reset_response_iff (resp : CallToolResult) :
    responsePool.reset resp = responsePool.new ↔ resp.structuredContent = .nil ∧ resp.metadata = none := by
  simp [responsePool]

theorem clears_request (s : ResourcePool) (l : Recycler.Label CallToolRequest) :
    requestPool.Clears s.requests l ↔ Clears s (.request l) := by
  cases l <;> simp [Recycler.Clears, Clears, reset_request_iff]

theorem clears_response (s : ResourcePool) (l : Recycler.Label CallToolResult) :
    responsePool.Clears s.responses l ↔ Clears s (.response l) := by
  cases l <;> simp [Recycler.Clears, Clears, reset_response_iff]

theorem bounded_of_reachable {s : ResourcePool} (reachable : resourcePool.Reachable s) :
    Recycler.Bounded s.requests ∧ Recycler.Bounded s.responses := by
  refine reachable.invariant (P := fun s => Recycler.Bounded s.requests ∧ Recycler.Bounded s.responses)
    ⟨Recycler.bounded_start, Recycler.bounded_start⟩ ?_
  rintro s l s' ⟨requests, responses⟩ step
  cases l with
  | request l =>
    obtain ⟨next, moved, rfl⟩ := Option.map_eq_some_iff.mp step
    exact ⟨Recycler.bounded_step requests moved, responses⟩
  | response l =>
    obtain ⟨next, moved, rfl⟩ := Option.map_eq_some_iff.mp step
    exact ⟨requests, Recycler.bounded_step responses moved⟩

/-- Throughout a run everything that is handed out is zero in every field, exactly when every object is put back
without `Meta` (and `StructuredContent`) and gets none while it is in the pool. -/
theorem resource_pool_zero_iff (labels : List Label) (s : ResourcePool)
    (run : resourcePool.run resourcePool.start labels = some s) :
    resourcePool.Always HandsOutZero resourcePool.start labels ↔
      resourcePool.EachStep Clears resourcePool.start labels := by
  refine Machine.always_iff_eachStep ?_ .start ⟨Recycler.handsOutNew_start, Recycler.handsOutNew_start⟩ run
  rintro s l s' reachable ⟨requests, responses⟩ step
  obtain ⟨bounded, bounded'⟩ := bounded_of_reachable reachable
  cases l with
  | request l =>
    obtain ⟨next, moved, rfl⟩ := Option.map_eq_some_iff.mp step
    rw [← clears_request, ← Recycler.handsOutNew_step_iff bounded requests moved]
    exact and_iff_left responses
  | response l =>
    obtain ⟨next, moved, rfl⟩ := Option.map_eq_some_iff.mp step
    rw [← clears_response, ← Recycler.handsOutNew_step_iff bounded' responses moved]
    exact and_iff_right requests

def usedRequest : CallToolRequest := { name := "search", arguments := some (ofString "\x7b\x7d") }

def taggedRequest : CallToolRequest := { usedRequest with metadata := some [("progressToken", .string "a")] }

theorem resource_pool_zero_used :
    resourcePool.Always HandsOutZero resourcePool.start
      [.request (.get none), .request (.write 0 usedRequest), .request (.put 0), .request (.get (some 0))] := by
  obtain ⟨s, run⟩ := Option.isSome_iff_exists.mp (show (resourcePool.run resourcePool.start
    [.request (.get none), .request (.write 0 usedRequest), .request (.put 0),
      .request (.get (some 0))]).isSome from rfl)
  exact (resource_pool_zero_iff _ s run).mpr (Machine.eachStep_of_checks (by decide))

theorem resource_pool_metadata_kept :
    (resourcePool.run resourcePool.start
      [.request (.get none), .request (.write 0 taggedRequest), .request (.put 0)]).bind (fun s =>
        requestPool.handedOut s.requests (some 0)) =
      some { metadata := some [("progressToken", .string "a")] } :=
  rfl

def objectPool {α : Type} (zero : α) : Recycler α where
  new := zero
  reset _ := zero
  reset_new := rfl

theorem objectPool_handsOutNew {α : Type} (zero : α) (s : Recycler.State α) : (objectPool zero).HandsOutNew s :=
  Recycler.handsOutNew_iff.mpr fun _ _ => rfl

end Mcp.Resources
