import Mcp.Streamable.Transport

namespace Mcp.Streamable
open Mcp.Lib Function

namespace StreamableServerTransport

variable {t t' : StreamableServerTransport}

def InFlight (t : StreamableServerTransport) (sid : StreamID) : Prop :=
  ∃ k, t.clientRequestStreams k = some sid

/-- No client request id is received again while it is in flight. -/
def FreshRequest (t : StreamableServerTransport) : Op → Prop
  | .correlate msg _ => msg.IsRequest → ∀ k, msg.id.key? = some k → t.clientRequestStreams k = none
  | _ => True

def LastInFlight (t : StreamableServerTransport) : Prop :=
  t.lastRequestStream = 0 ∨ t.InFlight t.lastRequestStream

structure Anchored (t : StreamableServerTransport) : Prop where
  last : t.LastInFlight
  server : ∀ k sid, t.serverRequestStreams k = some sid → sid = 0 ∨ t.InFlight sid

variable {k : Key} {sid other : StreamID} {op : Op} {id : Any} {ops : List Op}

theorem InFlight.released (inFlight : t.InFlight other) (route : t.clientRequestStreams k = some sid)
    (different : other ≠ sid) : (t.released k sid).InFlight other := by
  obtain ⟨k', found⟩ := inFlight
  refine ⟨k', ?_⟩
  have distinct : k' ≠ k := by
    rintro rfl
    exact different (Option.some.inj (found.symm.trans route))
  exact (update_of_ne distinct _ _).trans found

theorem InFlight.received {last : StreamID} (inFlight : t.InFlight other) (fresh : t.clientRequestStreams k = none) :
    InFlight { t with
      clientRequestStreams := update t.clientRequestStreams k (some sid)
      lastRequestStream := last } other := by
  obtain ⟨k', found⟩ := inFlight
  refine ⟨k', ?_⟩
  have distinct : k' ≠ k := by
    rintro rfl
    rw [fresh] at found
    cases found
  exact (update_of_ne distinct _ _).trans found

theorem LastInFlight.released (anchored : t.LastInFlight)
    (route : t.clientRequestStreams k = some sid) : (t.released k sid).LastInFlight := by
  by_cases same : t.lastRequestStream = sid
  · exact Or.inl (if_pos same)
  · have kept : (t.released k sid).lastRequestStream = t.lastRequestStream := if_neg same
    rw [LastInFlight, kept]
    exact anchored.imp_right fun inFlight => inFlight.released route same

-- The register needs no assumption on the ids: a newer request takes it over before the older
-- entry goes away.
theorem LastInFlight.step (anchored : t.LastInFlight) (step : t.perform op = some t') : t'.LastInFlight := by
  obtain ⟨msg, sid, rfl, correlated⟩ | ⟨msg, sid, rfl, wrote⟩ | ⟨client, -, last, -⟩ :=
    perform_routes step
  · cases correlated with
    | request kind key => exact Or.inr ⟨_, update_self _ _ _⟩
    | response | notification => exact anchored
  · cases wrote with
    | response kind key route => exact LastInFlight.released (t := t.append sid msg) anchored route
    | notification | request | unmatched | blank => exact anchored
  · rw [LastInFlight, InFlight, client, last]
    exact anchored

theorem Anchored.step (anchored : t.Anchored) (fresh : t.FreshRequest op) (step : t.perform op = some t') :
    t'.Anchored := by
  refine ⟨anchored.last.step step, ?_⟩
  obtain ⟨msg, sid, rfl, correlated⟩ | ⟨msg, sid, rfl, wrote⟩ | ⟨client, server, -, -⟩ :=
    perform_routes step
  · cases correlated with
    | request kind key =>
      intro k' s pinned
      exact (anchored.server k' s pinned).imp_right fun inFlight =>
        inFlight.received (fresh kind _ key)
    | @response k kind key =>
      intro k' s pinned
      have kept : k' ≠ k := by
        rintro rfl
        simp at pinned
      exact anchored.server k' s ((update_of_ne kept _ _).symm.trans pinned)
    | notification kind => exact anchored.server
  · cases wrote with
    | @request k _ kind key route =>
      intro k' s pinned
      change update t.serverRequestStreams k (some sid) k' = some s at pinned
      rw [update_apply] at pinned
      split_ifs at pinned with same
      · obtain rfl := Option.some.inj pinned
        obtain existing | ⟨-, rfl⟩ := route
        · exact anchored.server k _ existing
        · exact anchored.last
      · exact anchored.server k' s pinned
    | @response k _ kind key route =>
      intro k' s pinned
      -- Entries on the released stream are dropped, so `s` is another stream.
      change (if t.serverRequestStreams k' = some sid then none else t.serverRequestStreams k') =
        some s at pinned
      split_ifs at pinned with dropped
      have different : s ≠ sid := fun same => dropped (same ▸ pinned)
      exact (anchored.server k' s pinned).imp_right fun inFlight =>
        InFlight.released (t := t.append sid msg) inFlight route different
    | notification | unmatched | blank => exact anchored.server
  · intro k s pinned
    rw [server] at pinned
    rw [InFlight, client]
    exact anchored.server k s pinned

theorem anchored_start : newStreamableServerTransport.Anchored := ⟨Or.inl rfl, nofun⟩

def cleanupRun : List Op :=
  [.correlate { id := .float64 1, method := "tools/call", jsonrpc := "2.0" } 7,
    .write { id := .float64 1, method := "sampling/createMessage", jsonrpc := "2.0" },
    .write { id := .float64 1, result := .object [], jsonrpc := "2.0" }]

def LeavesRequest (id : Any) : Op → Prop
  | .correlate msg _ => msg.IsRequest → msg.id ≠ id
  | .write msg => msg.IsResponse → msg.id ≠ id
  | _ => True

theorem clientRequest_kept (key : id.key? = some k) (found : t.clientRequestStreams k = some sid)
    (leaves : LeavesRequest id op) (step : t.perform op = some t') : t'.clientRequestStreams k = some sid := by
  have other {msg : JSONRPCMessage} {k' : Key} (key' : msg.id.key? = some k') (different : msg.id ≠ id) :
      k ≠ k' := by
    rintro rfl
    exact different (Any.key?_injective key' key)
  obtain ⟨msg, s, rfl, correlated⟩ | ⟨msg, s, rfl, wrote⟩ | ⟨client, -, -, -⟩ := perform_routes step
  · cases correlated with
    | request kind key' =>
      exact (update_of_ne (other key' (leaves kind)) _ _).trans found
    | response | notification => exact found
  · cases wrote with
    | response kind key' route =>
      exact (update_of_ne (other key' (leaves kind)) _ _).trans found
    | notification | request | unmatched | blank => exact found
  · rw [client]
    exact found

theorem clientRequest_kept_run (key : id.key? = some k) (found : t.clientRequestStreams k = some sid)
    (leaves : ∀ op ∈ ops, LeavesRequest id op) (run : transport.run t ops = some t') :
    t'.clientRequestStreams k = some sid :=
  Machine.run_invariant_of_eachStep (P := fun t => t.clientRequestStreams k = some sid)
    (fun _ _ _ found leaves step => clientRequest_kept key found leaves step) found
    (Machine.eachStep_of_forall leaves t) run

theorem locked_run (locked : t.mu = .locked) (run : transport.run t ops = some t') : t'.mu = .locked :=
  Machine.run_invariant (P := fun t => t.mu = .locked) (fun _ _ _ => perform_locked) locked run

theorem write_unhashable {msg : JSONRPCMessage} (key : msg.id.key? = none) : t.write msg ≠ .ok t' := by
  intro written
  obtain ⟨-, sid, -, wrote⟩ := write_eq_ok written
  cases wrote with
  | notification kind | blank kind => simp [kind.1, Any.key?] at key
  | request _ found | response _ found | unmatched _ found =>
    rw [key] at found
    cases found

theorem request_received {req : JSONRPCMessage} (request : req.IsRequest)
    (received : t.perform (.correlate req sid) = some t') :
    (∃ k, req.id.key? = some k ∧ t'.clientRequestStreams k = some sid) ∨ req.id.key? = none ∧ t'.mu = .locked := by
  simp only [perform] at received
  split_ifs at received
  cases key : req.id.key? with
  | none =>
    rw [correlate_unhashable sid key] at received
    cases received
    exact Or.inr ⟨rfl, rfl⟩
  | some k =>
    obtain ⟨t₁, done⟩ := correlate_of_key (t := t) sid key
    rw [done] at received
    cases received
    cases correlate_eq_ok done with
    | request kind key' =>
      obtain rfl := Option.some.inj (key.symm.trans key')
      exact Or.inl ⟨k, rfl, update_self _ _ _⟩
    | response kind key' => exact absurd kind.2 request.2
    | notification kind => exact absurd kind request.1

theorem write_response_route {resp : JSONRPCMessage} {s : StreamID} (response : resp.IsResponse)
    (key : resp.id.key? = some k)
    (route : t.clientRequestStreams k = some sid) (wrote : Wrote t resp s t') : s = sid := by
  cases wrote with
  | @response k' _ kind key' route' =>
    obtain rfl : k = k' := Option.some.inj (key.symm.trans key')
    exact Option.some.inj (route'.symm.trans route)
  | @unmatched k' kind key' route' =>
    obtain rfl : k = k' := Option.some.inj (key.symm.trans key')
    rw [route] at route'
    cases route'
  | notification kind | request kind => exact absurd response.2 kind.2
  | blank kind => exact absurd kind.1 response.1

/-- While the request `req`, which arrived on `sid`, has not been answered and its id has not been
received again, a `Write` of its response appends it to `sid` and to no other stream; and nothing
but a lost mutex, a closed transport or a full buffer keeps that `Write` from returning. -/
theorem response_follows_request {before between : List Op} {req resp : JSONRPCMessage}
    {sid : StreamID} {t : StreamableServerTransport} (request : req.IsRequest)
    (response : resp.IsResponse) (answers : resp.id = req.id)
    (run : transport.run transport.start (before ++ .correlate req sid :: between) = some t)
    (inFlight : ∀ op ∈ between, LeavesRequest req.id op) :
    (∀ t', t.write resp = .ok t' → t'.messages = update t.messages sid
      (t.messages sid ++ [⟨resp, formatEventID sid (t.messages sid).length⟩])) ∧
    (t.mu = .free → t.isDone = false → ((t.messages sid).length : Int) < maxInt →
      ∃ t', t.write resp = .ok t') := by
  obtain ⟨t₀, -, rest⟩ := transport.run_append.mp run
  obtain ⟨t₁, received, rest⟩ := transport.run_cons.mp rest
  obtain ⟨k, key, found⟩ | ⟨unhashable, locked⟩ := request_received request received
  · have route := clientRequest_kept_run key found inFlight rest
    rw [← answers] at key
    refine ⟨fun t' written => ?_, fun _ alive room =>
      write_ok_of_reply alive response.2 key (by rwa [route, Option.getD_some])⟩
    obtain ⟨-, s, -, wrote⟩ := write_eq_ok written
    obtain rfl := write_response_route response key route wrote
    exact wrote.messages
  · rw [← answers] at unhashable
    refine ⟨fun t' written => absurd written (write_unhashable unhashable), fun unlocked => ?_⟩
    rw [locked_run locked rest] at unlocked
    cases unlocked

def overlappingRun : List Op :=
  [.correlate { id := .float64 1, method := "tools/call" } 7,
    .write { id := .float64 1, method := "elicitation/create" },
    .correlate { id := .string "a", method := "ping" } 9,
    .write { method := "notifications/progress" },
    .correlate { id := .float64 1, result := .object [] } 10]

theorem overlappingRun_response_follows_request :
    ∃ t t', transport.run transport.start overlappingRun = some t ∧
      t.write { id := .float64 1, result := .object [] } = .ok t' ∧
      (t.messages 7).length = 1 ∧ (t'.messages 7).length = 2 ∧ t'.messages 9 = t.messages 9 := by
  have inFlight : ∀ op ∈ overlappingRun.tail, LeavesRequest (.float64 1) op := by
    simp [overlappingRun, LeavesRequest]
  obtain ⟨appended, returns⟩ := @response_follows_request [] overlappingRun.tail
    { id := .float64 1, method := "tools/call" } { id := .float64 1, result := .object [] } 7 _
    (by decide) (by decide) rfl rfl inFlight
  obtain ⟨t', written⟩ := returns rfl rfl (by decide)
  have messages := appended t' written
  refine ⟨_, t', rfl, written, rfl, ?_, ?_⟩
  · exact congrArg List.length (congrFun messages 7)
  · exact (congrFun messages 9).trans (update_of_ne (by decide) _ _)

end StreamableServerTransport

end Mcp.Streamable
