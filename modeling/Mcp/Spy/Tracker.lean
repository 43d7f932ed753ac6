import Mcp.Spy.Recorder

namespace Mcp.Spy
open Mcp.Lib Bytes Function

structure PendingRequest where
  method : Bytes
  toolName : Bytes := []
  resourceURI : Bytes := []
  promptName : Bytes := []

structure SpecDocument (δ ω : Type) where
  start : δ
  unmarshal : Bytes → Option RpcMessage
  toolsCallName : Bytes → Option Bytes
  resourcesReadURI : Bytes → Option Bytes
  promptsGetName : Bytes → Option Bytes
  observeRequest : δ → RpcMessage → δ × Bool
  observeResponse : δ → PendingRequest → RpcMessage → δ × Bool
  persist : δ → Bool → δ × Bool
  snapshot : δ → ω

structure Pending where
  request : PendingRequest
  -- the number of the request, which the source does not keep
  origin : Nat

structure SpecState (δ : Type) where
  pending : Bytes → Option Pending
  requests : Nat
  document : δ

namespace SpecDocument

variable {δ ω : Type} (doc : SpecDocument δ ω)

def pendingRequest (msg : RpcMessage) : PendingRequest :=
  if msg.method = ofString "tools/call" then
    { method := msg.method, toolName := (doc.toolsCallName msg.params).getD [] }
  else if msg.method = ofString "resources/read" then
    { method := msg.method, resourceURI := (doc.resourcesReadURI msg.params).getD [] }
  else if msg.method = ofString "prompts/get" then
    { method := msg.method, promptName := (doc.promptsGetName msg.params).getD [] }
  else { method := msg.method }

def observeRequestLocked (s : SpecState δ) (msg : RpcMessage) : SpecState δ × Bool :=
  let id := trimSpace msg.id
  let pending :=
    if id ≠ [] then update s.pending id (some ⟨doc.pendingRequest msg, s.requests⟩) else s.pending
  let (document, changed) := doc.observeRequest s.document msg
  ({ pending := pending, requests := s.requests + 1, document := document }, changed)

def observeResponseLocked (s : SpecState δ) (msg : RpcMessage) : SpecState δ × Bool :=
  let id := trimSpace msg.id
  match s.pending id with
  | none => (s, false)
  | some req =>
    let (document, changed) := doc.observeResponse s.document req.request msg
    ({ s with pending := update s.pending id none, document := document }, changed)

def tracker : SpecTracker (SpecState δ) ω where
  start := { pending := fun _ => none, requests := 0, document := doc.start }
  unmarshal := doc.unmarshal
  observeRequestLocked := doc.observeRequestLocked
  observeResponseLocked := doc.observeResponseLocked
  persistLocked s writable :=
    let (document, written) := doc.persist s.document writable
    ({ s with document := document }, written)
  snapshotLocked s := doc.snapshot s.document

end SpecDocument

inductive Traffic where
  | request (id : Bytes)
  | response (id : Bytes)
  | other
deriving DecidableEq

def opposite (dir : Bytes) : Bytes := if dir = ofString "send" then ofString "recv" else ofString "send"

structure Session (δ : Type) where
  tracker : SpecState δ
  own : Bytes × Bytes → Option Nat

def SpecState.origins {δ : Type} (s : SpecState δ) (id : Bytes) : Option Nat := (s.pending id).map Pending.origin

section Sessions

variable {δ ω : Type} (doc : SpecDocument δ ω)

def SpecDocument.traffic (ev : Event) : Traffic :=
  if ev.parsed.length = 0 then .other
  else match doc.unmarshal ev.parsed with
    | none => .other
    | some msg =>
      if msg.method ≠ [] then
        if trimSpace msg.id ≠ [] then .request (trimSpace msg.id) else .other
      else if 0 < msg.id.length then .response (trimSpace msg.id)
      else .other

def Session.observe (s : Session δ) (ev : Event) (writable : Bool) : Session δ where
  tracker := (doc.tracker.observeLocked s.tracker ev writable).1
  own :=
    match doc.traffic ev with
    | .request id => update s.own (ev.direction, id) (some s.tracker.requests)
    | .response id => update s.own (opposite ev.direction, id) none
    | .other => s.own

def SpecDocument.session : Machine (Session δ) (Event × Bool) where
  start := { tracker := doc.tracker.start, own := fun _ => none }
  step s input := some (s.observe doc input.1 input.2)

structure Attribution (origins : Bytes → Option Nat) (own : Bytes × Bytes → Option Nat) : Prop where
  kept : ∀ dir id origin, own (dir, id) = some origin → origins id = some origin
  owned : ∀ id origin, origins id = some origin → ∃ dir, own (dir, id) = some origin

def Session.Attributed (s : Session δ) : Prop := Attribution s.tracker.origins s.own

/-- A response finds the request of the other side. -/
def Session.Matches (s : Session δ) (input : Event × Bool) : Prop :=
  ∀ id, doc.traffic input.1 = .response id → s.tracker.origins id = s.own (opposite input.1.direction, id)

/-- No request that another side has sent is waiting under the id of a request, and none under the id of a
response that the response does not answer. -/
def Session.Clear (s : Session δ) (input : Event × Bool) : Prop :=
  (∀ id, doc.traffic input.1 = .request id → ∀ dir ≠ input.1.direction, s.own (dir, id) = none) ∧
    ∀ id, doc.traffic input.1 = .response id → ∀ dir ≠ opposite input.1.direction, s.own (dir, id) = none

variable {doc} {s : Session δ} {ev : Event} {writable : Bool}

inductive Observed (s : SpecState δ) : Traffic → SpecState δ → Prop
  | request {id : Bytes} {s' : SpecState δ} (origins : s'.origins = update s.origins id (some s.requests))
      (requests : s'.requests = s.requests + 1) : Observed s (.request id) s'
  | response {id : Bytes} {s' : SpecState δ} (origins : s'.origins = update s.origins id none)
      (requests : s'.requests = s.requests) : Observed s (.response id) s'
  | other {s' : SpecState δ} (origins : s'.origins = s.origins) (requests : s.requests ≤ s'.requests) :
      Observed s .other s'

theorem Observed.congr {s next last : SpecState δ} {traffic : Traffic} (h : Observed s traffic next)
    (origins : last.origins = next.origins) (requests : last.requests = next.requests) : Observed s traffic last := by
  cases h with
  | request h h' => exact .request (origins.trans h) (requests.trans h')
  | response h h' => exact .response (origins.trans h) (requests.trans h')
  | other h h' => exact .other (origins.trans h) (requests.symm ▸ h')

theorem origins_update (s : SpecState δ) (id : Bytes) (entry : Option Pending) :
    (fun id' => (update s.pending id entry id').map Pending.origin) =
      update s.origins id (entry.map Pending.origin) := by
  funext id'
  by_cases same : id' = id
  · rw [same, update_self, update_self]
  · rw [update_of_ne same, update_of_ne same]
    rfl

theorem observed_request (s : SpecState δ) (msg : RpcMessage) :
    Observed s (if trimSpace msg.id ≠ [] then .request (trimSpace msg.id) else .other)
      (doc.observeRequestLocked s msg).1 := by
  unfold SpecDocument.observeRequestLocked
  simp only
  split_ifs with given
  · exact .request (origins_update s _ _) rfl
  · exact .other rfl (Nat.le_succ _)

theorem observed_response (s : SpecState δ) (msg : RpcMessage) :
    Observed s (.response (trimSpace msg.id)) (doc.observeResponseLocked s msg).1 := by
  unfold SpecDocument.observeResponseLocked
  simp only
  cases found : s.pending (trimSpace msg.id) with
  | none =>
    refine .response ?_ rfl
    have absent : s.origins (trimSpace msg.id) = none := by simp [SpecState.origins, found]
    rw [← absent, update_eq_self]
  | some req => exact .response (origins_update s _ _) rfl

theorem observed_message (s : SpecState δ) (msg : RpcMessage) : Observed s
      (if msg.method ≠ [] then (if trimSpace msg.id ≠ [] then .request (trimSpace msg.id) else .other)
        else if 0 < msg.id.length then .response (trimSpace msg.id) else .other)
          (doc.tracker.observeMessage s msg).1 := by
  unfold SpecTracker.observeMessage
  by_cases called : msg.method ≠ []
  · rw [if_pos called, if_pos called]
    exact observed_request s msg
  · rw [if_neg called, if_neg called]
    split_ifs
    · exact observed_response s msg
    · exact .other rfl le_rfl

theorem observed (s : SpecState δ) (ev : Event) (writable : Bool) :
    Observed s (doc.traffic ev) (doc.tracker.observeLocked s ev writable).1 := by
  unfold SpecDocument.traffic SpecTracker.observeLocked
  by_cases empty : ev.parsed.length = 0
  · rw [if_pos empty, if_pos empty]
    exact .other rfl le_rfl
  rw [if_neg empty, if_neg empty]
  cases decoded : doc.unmarshal ev.parsed with
  | none =>
    simp only [SpecDocument.tracker, decoded]
    exact .other rfl le_rfl
  | some msg =>
    have message : Observed s _ (doc.tracker.observeMessage s msg).1 := observed_message s msg
    have decoded' : doc.tracker.unmarshal ev.parsed = some msg := decoded
    simp only [decoded']
    generalize doc.tracker.observeMessage s msg = outcome at message ⊢
    obtain ⟨next, changed⟩ := outcome
    cases changed with
    | false => exact message
    | true =>
      dsimp only at message ⊢
      have persisted : (doc.tracker.persistLocked next writable).1.origins = next.origins ∧
          (doc.tracker.persistLocked next writable).1.requests = next.requests := ⟨rfl, rfl⟩
      generalize doc.tracker.persistLocked next writable = file at persisted ⊢
      obtain ⟨last, written⟩ := file
      have final : Observed s _ last := message.congr persisted.1 persisted.2
      cases written with
      | false | true => exact final

theorem observe_tracker (doc : SpecDocument δ ω) (s : Session δ) (ev : Event) (writable : Bool) :
    Observed s.tracker (doc.traffic ev) (s.observe doc ev writable).tracker :=
  observed s.tracker ev writable

def Session.Numbered (s : Session δ) : Prop :=
  ∀ id origin, s.tracker.origins id = some origin → origin < s.tracker.requests

theorem numbered_observe (numbered : s.Numbered) : (s.observe doc ev writable).Numbered := by
  intro id origin found
  have effect := observe_tracker doc s ev writable
  generalize doc.traffic ev = traffic at effect
  cases effect with
  | @request key _ origins requests =>
    rw [origins] at found
    rw [requests]
    by_cases same : id = key
    · rw [same, update_self] at found
      cases found
      exact Nat.lt_succ_self _
    · rw [update_of_ne same] at found
      exact Nat.lt_succ_of_lt (numbered id origin found)
  | @response key _ origins requests =>
    rw [origins] at found
    rw [requests]
    by_cases same : id = key
    · rw [same, update_self] at found
      cases found
    · rw [update_of_ne same] at found
      exact numbered id origin found
  | other origins requests =>
    rw [origins] at found
    exact lt_of_lt_of_le (numbered id origin found) requests

theorem numbered_of_reachable (reachable : doc.session.Reachable s) : s.Numbered := by
  refine reachable.invariant (fun id origin found => by cases found) fun s input s' numbered step => ?_
  cases Option.some.inj step
  exact numbered_observe numbered

theorem Attribution.update_iff {origins : Bytes → Option Nat} {own : Bytes × Bytes → Option Nat} {dir id : Bytes}
    {entry : Option Nat} (h : Attribution origins own)
    (fresh : ∀ origin, origins id = some origin → entry ≠ some origin) :
    Attribution (update origins id entry) (update own (dir, id) entry) ↔
      ∀ dir' ≠ dir, own (dir', id) = none := by
  constructor
  · intro next dir' other
    rw [Option.eq_none_iff_forall_ne_some]
    intro origin waiting
    have ne : (dir', id) ≠ (dir, id) := fun same => other (congrArg Prod.fst same)
    -- the request that waited is no longer in the table
    have now := next.kept dir' id origin ((update_of_ne ne _ _).trans waiting)
    rw [update_self] at now
    exact fresh origin (h.kept dir' id origin waiting) now
  · intro clear
    refine ⟨fun dir' id' origin waiting => ?_, fun id' origin found => ?_⟩
    · by_cases same : (dir', id') = (dir, id)
      · cases same
        rw [update_self] at waiting ⊢
        exact waiting
      · rw [update_of_ne same] at waiting
        have ne : id' ≠ id := by
          rintro rfl
          have other : dir' ≠ dir := fun eq => same (by rw [eq])
          rw [clear dir' other] at waiting
          cases waiting
        rw [update_of_ne ne]
        exact h.kept dir' id' origin waiting
    · by_cases same : id' = id
      · subst same
        rw [update_self] at found
        exact ⟨dir, (update_self _ _ _).trans found⟩
      · rw [update_of_ne same] at found
        obtain ⟨dir', waiting⟩ := h.owned id' origin found
        have ne : (dir', id') ≠ (dir, id) := fun eq => same (congrArg Prod.snd eq)
        exact ⟨dir', (update_of_ne ne _ _).trans waiting⟩

theorem attributed_observe_iff (numbered : s.Numbered) (attributed : s.Attributed) :
    (s.observe doc ev writable).Attributed ↔ s.Clear doc (ev, writable) := by
  have effect := observe_tracker doc s ev writable
  unfold Session.Attributed Session.Clear
  generalize (s.observe doc ev writable).tracker = next at effect ⊢
  simp only [Session.observe]
  generalize doc.traffic ev = traffic at effect ⊢
  cases effect with
  | @request id _ origins requests =>
    have fresh : ∀ origin, s.tracker.origins id = some origin → some s.tracker.requests ≠ some origin :=
      fun origin found same => (numbered id origin found).ne (Option.some.inj same).symm
    rw [origins, attributed.update_iff fresh]
    simp
  | response origins requests =>
    rw [origins, attributed.update_iff fun _ _ same => by cases same]
    simp
  | other origins requests =>
    rw [origins]
    exact iff_of_true attributed ⟨nofun, nofun⟩

theorem matches_of_clear {input : Event × Bool} (attributed : s.Attributed) (clear : s.Clear doc input) :
    s.Matches doc input := by
  intro id response
  cases found : s.tracker.origins id with
  | none =>
    symm
    rw [Option.eq_none_iff_forall_ne_some]
    intro origin waiting
    rw [attributed.kept _ id origin waiting] at found
    cases found
  | some origin =>
    obtain ⟨dir, waiting⟩ := attributed.owned id origin found
    have same : dir = opposite input.1.direction := by
      by_contra other
      rw [clear.2 id response dir other] at waiting
      cases waiting
    rw [← same, waiting]

theorem session_run (doc : SpecDocument δ ω) (s : Session δ) (events : List (Event × Bool)) :
    ∃ t, doc.session.run s events = some t := by
  induction events generalizing s with
  | nil => exact ⟨s, rfl⟩
  | cons input events ih => exact ih (s.observe doc input.1 input.2)

theorem attributed_start (doc : SpecDocument δ ω) : doc.session.start.Attributed :=
  ⟨nofun, nofun⟩

/-- No request is erased or taken over, and every response is matched with the request that the other side
has sent, exactly when the two sides never have a request with the same id waiting at the same time. -/
theorem responses_matched_iff (doc : SpecDocument δ ω) (events : List (Event × Bool)) :
    (doc.session.Always Session.Attributed doc.session.start events ∧
        doc.session.EachStep (Session.Matches doc) doc.session.start events) ↔
      doc.session.EachStep (Session.Clear doc) doc.session.start events := by
  obtain ⟨t, run⟩ := session_run doc doc.session.start events
  have kept : ∀ s input s', doc.session.Reachable s → s.Attributed → doc.session.step s input = some s' →
      (s'.Attributed ↔ s.Clear doc input) := by
    intro s input s' reachable attributed step
    cases Option.some.inj step
    exact attributed_observe_iff (numbered_of_reachable reachable) attributed
  have always := Machine.always_iff_eachStep kept .start (attributed_start doc) run
  constructor
  · rintro ⟨attributed, -⟩
    exact always.mp attributed
  · intro clear
    refine ⟨always.mpr clear, ?_⟩
    refine clear.imp_of_kept (P := fun s => doc.session.Reachable s ∧ s.Attributed) ?_ ?_
      ⟨.start, attributed_start doc⟩
    · rintro s input s' ⟨reachable, attributed⟩ allowed step
      exact ⟨reachable.next step, (kept s input s' reachable attributed step).mpr allowed⟩
    · rintro s input ⟨-, attributed⟩ allowed
      exact matches_of_clear attributed allowed

def answeredMethods (unmarshal : Bytes → Option RpcMessage) : SpecDocument (List Bytes) (List Bytes) where
  start := []
  unmarshal := unmarshal
  toolsCallName _ := none
  resourcesReadURI _ := none
  promptsGetName _ := none
  observeRequest answered _ := (answered, false)
  observeResponse answered req _ := (answered ++ [req.method], true)
  persist answered writable := (answered, writable)
  snapshot := id

def callText : Bytes := ofString "\x7b\"id\":1,\"method\":\"tools/call\"\x7d"

def createText : Bytes := ofString "\x7b\"id\":1,\"method\":\"sampling/createMessage\"\x7d"

def resultText : Bytes := ofString "\x7b\"id\":1,\"result\":\x7b\x7d\x7d"

def unmarshalTexts (text : Bytes) : Option RpcMessage :=
  if text = callText then some { id := ofString "1", method := ofString "tools/call" }
  else if text = createText then some { id := ofString "1", method := ofString "sampling/createMessage" }
  else if text = resultText then some { id := ofString "1", result := ofString "\x7b\x7d" }
  else none

theorem not_matched_same_id :
    let doc := answeredMethods unmarshalTexts
    let events : List (Event × Bool) :=
      [({ direction := ofString "recv", parsed := callText }, true),
        ({ direction := ofString "send", parsed := createText }, true),
        ({ direction := ofString "send", parsed := resultText }, true)]
    ¬ doc.session.Always Session.Attributed doc.session.start events ∧
      ¬ doc.session.EachStep (Session.Matches doc) doc.session.start events ∧
      (doc.session.run doc.session.start events).map (fun s => s.tracker.document) =
        some [ofString "sampling/createMessage"] := by
  intro doc events
  refine ⟨?_, ?_, by decide +kernel⟩
  · intro always
    have attributed := ((always.2 _ rfl).2 _ rfl).1
    have lost := attributed.kept (ofString "recv") (ofString "1") 0 (by decide +kernel)
    exact absurd lost (by decide +kernel)
  · intro each
    have matched := ((each.2 _ rfl).2 _ rfl).1 (ofString "1") (by decide +kernel)
    exact absurd matched (by decide +kernel)

end Sessions

end Mcp.Spy
