import Mcp.Lib.Machine
import Mcp.Sse.Events
import Mcp.Streamable.Message

namespace Mcp.Connect
open Mcp.Lib Bytes Streamable

structure Context where
  parseURL : Bytes → Option Bytes
  unmarshal : Bytes → Option JSONRPCMessage
  parseURL_nonempty : ∀ {endpoint url}, parseURL endpoint = some url → url ≠ []

inductive Yield where
  | event (evt : Sse.Event)
  | failed (err : String)

inductive EventsPC where
  | notStarted
  | scanning
  | handling (item : Yield)
  | sending (msg : JSONRPCMessage) (evt : Sse.Event)
  | ended

inductive Phase where
  | dialling
  | starting
  | returned
  | failed

inductive WriteError where
  | closedPipe
  | notYetAvailable
  deriving DecidableEq

structure Connection where
  postURL : Bytes := []
  closed : Bool := false
  lastEventID : Bytes := []
  incomingCh : List JSONRPCMessage := []
  errorCh : List String := []

structure State where
  phase : Phase := .dialling
  conn : Connection := {}
  ctxDone : Bool := false
  sent : List Yield := []
  processed : Nat := 0
  pc : EventsPC := .notStarted
  writes : List (Except WriteError Bytes) := []

inductive Label where
  | respond (ok : Bool)
  | ret
  | send (item : Yield)
  | scan
  | handle
  | push
  | stop
  | eof
  | write
  | read
  | readError
  | close
  | cancel

def Connection.write (c : Connection) : Except WriteError Bytes :=
  if c.closed then .error .closedPipe
  else if c.postURL = [] then .error .notYetAvailable
  else .ok c.postURL

def Connection.handleEndpointEvent (ctx : Context) (c : Connection) (evt : Sse.Event) : Connection :=
  match ctx.parseURL (trimSpace evt.data) with
  | some postURL => { c with postURL := postURL }
  | none => c

namespace State

variable (ctx : Context) (s : State)

def finish (id : Bytes) : State :=
  { s with
    conn := { s.conn with lastEventID := if id = [] then s.conn.lastEventID else id }
    processed := s.processed + 1
    pc := .scanning }

def handle : Option State :=
  match s.pc with
  | .handling (.failed err) =>
    if s.conn.errorCh.length < 10 then
      some ({ s with conn := { s.conn with errorCh := s.conn.errorCh ++ [err] } }.finish [])
    else none
  | .handling (.event evt) =>
    if evt.name = ofString "endpoint" then
      some ({ s with conn := s.conn.handleEndpointEvent ctx evt }.finish evt.id)
    else if evt.name = [] then
      match ctx.unmarshal evt.data with
      | some msg => some { s with pc := .sending msg evt }
      | none => some (s.finish evt.id)
    else some (s.finish evt.id)
  | _ => none

def push : Option State :=
  match s.pc with
  | .sending msg evt =>
    if s.conn.incomingCh.length < 100 then
      some ({ s with conn := { s.conn with incomingCh := s.conn.incomingCh ++ [msg] } }.finish evt.id)
    else none
  | _ => none

-- A message that is not taken is an error that is only logged; an error that is not taken ends the loop.
def stop : Option State :=
  if s.conn.closed ∨ s.ctxDone then
    match s.pc with
    | .sending _ evt => some (s.finish evt.id)
    | .handling (.failed _) => some { s with pc := .ended }
    | _ => none
  else none

def step : Label → Option State
  | .respond ok => match s.phase with
      | .dialling => some (if ok then { s with phase := .starting, pc := .scanning } else { s with phase := .failed })
      | _ => none
  | .ret => match s.phase with
      | .starting => some { s with phase := .returned }
      | _ => none
  | .send item => some { s with sent := s.sent ++ [item] }
  | .scan => match s.pc with
      | .scanning => s.sent[s.processed]?.map fun item => { s with pc := .handling item }
      | _ => none
  | .handle => s.handle ctx
  | .push => s.push
  | .stop => s.stop
  | .eof => match s.pc with
      | .scanning => if s.sent.length ≤ s.processed then some { s with pc := .ended } else none
      | _ => none
  | .write => match s.phase with
      | .returned => some { s with writes := s.writes ++ [s.conn.write] }
      | _ => none
  | .read => match s.conn.incomingCh with
      | _ :: rest => some { s with conn := { s.conn with incomingCh := rest } }
      | [] => none
  | .readError => match s.conn.errorCh with
      | _ :: rest => some { s with conn := { s.conn with errorCh := rest } }
      | [] => none
  | .close => match s.phase with
      | .returned => some { s with conn := { s.conn with closed := true } }
      | _ => none
  | .cancel => some { s with ctxDone := true }

end State

def client (ctx : Context) : Machine State Label where
  start := {}
  step := State.step ctx

variable {ctx : Context} {s s' : State}

def Yield.IsEndpoint (ctx : Context) (item : Yield) : Prop :=
  ∃ evt url, item = .event evt ∧ evt.name = ofString "endpoint" ∧ ctx.parseURL (trimSpace evt.data) = some url

/-- The first event of the server, if there is one yet, is a valid endpoint event. -/
def State.EndpointFirst (ctx : Context) (s : State) : Prop := ∀ item, s.sent[0]? = some item → item.IsEndpoint ctx

structure State.Ready (ctx : Context) (s : State) : Prop where
  handling : ∀ item, s.pc = .handling item → s.sent[s.processed]? = some item
  sending : ∀ msg evt, s.pc = .sending msg evt → s.sent[s.processed]? = some (.event evt) ∧ evt.name = []
  before : s.processed = 0 → s.conn.postURL = []
  after : 0 < s.processed → s.EndpointFirst ctx → s.conn.postURL ≠ []

namespace State

theorem Ready.frame (ready : s.Ready ctx) (sent : s'.sent = s.sent) (processed : s'.processed = s.processed)
    (postURL : s'.conn.postURL = s.conn.postURL) (pc : s'.pc = s.pc ∨ s'.pc = .scanning ∨ s'.pc = .ended) :
    s'.Ready ctx := by
  refine ⟨fun item here => ?_, fun msg evt here => ?_, fun none => ?_, fun some first => ?_⟩
  · obtain same | other | other := pc
    · rw [sent, processed]
      exact ready.handling item (same ▸ here)
    · cases other.symm.trans here
    · cases other.symm.trans here
  · obtain same | other | other := pc
    · rw [sent, processed]
      exact ready.sending msg evt (same ▸ here)
    · cases other.symm.trans here
    · cases other.symm.trans here
  · rw [postURL]
    exact ready.before (processed ▸ none)
  · rw [postURL]
    apply ready.after (processed ▸ some)
    rwa [EndpointFirst, sent] at first

theorem ready_finish {id : Bytes} (available : s.EndpointFirst ctx → s.conn.postURL ≠ []) :
    (s.finish id).Ready ctx := by
  refine ⟨fun item here => ?_, fun msg evt here => ?_, fun none => ?_, fun _ first => available first⟩
  · cases here
  · cases here
  · cases none

variable {item : Yield} {evt : Sse.Event}

theorem Ready.available (ready : s.Ready ctx) (here : s.sent[s.processed]? = some item)
    (other : ¬ item.IsEndpoint ctx) : s.EndpointFirst ctx → s.conn.postURL ≠ [] := by
  intro first
  obtain none | some := Nat.eq_zero_or_pos s.processed
  · rw [none] at here
    exact absurd (first item here) other
  · exact ready.after some first

theorem not_endpoint_of_name (other : evt.name ≠ ofString "endpoint") : ¬ (Yield.event evt).IsEndpoint ctx := by
  rintro ⟨evt', url, same, name, -⟩
  cases same
  exact other name

theorem not_endpoint_of_failed {err : String} : ¬ (Yield.failed err).IsEndpoint ctx := by
  rintro ⟨evt, url, same, -⟩
  cases same

theorem Ready.handleEndpointEvent (ready : s.Ready ctx) (here : s.sent[s.processed]? = some (.event evt))
    (first : s.EndpointFirst ctx) : (s.conn.handleEndpointEvent ctx evt).postURL ≠ [] := by
  unfold Connection.handleEndpointEvent
  cases parsed : ctx.parseURL (trimSpace evt.data) with
  | some url => exact ctx.parseURL_nonempty parsed
  | none =>
    apply ready.available here _ first
    rintro ⟨evt', url, same, -, valid⟩
    cases same
    cases parsed.symm.trans valid

theorem Ready.handle (ready : s.Ready ctx) (step : s.handle ctx = some s') : s'.Ready ctx := by
  cases pc : s.pc with
  | handling item =>
    have here := ready.handling item pc
    cases item with
    | failed err =>
      simp only [State.handle, pc] at step
      split_ifs at step
      cases step
      exact ready_finish (ready.available here not_endpoint_of_failed)
    | event evt =>
      simp only [State.handle, pc] at step
      split_ifs at step with endpoint unnamed
      · cases step
        exact ready_finish (ready.handleEndpointEvent here)
      · cases decoded : ctx.unmarshal evt.data with
        | none =>
          simp only [decoded] at step
          cases step
          exact ready_finish (ready.available here (not_endpoint_of_name endpoint))
        | some msg =>
          simp only [decoded] at step
          cases step
          refine ⟨fun item same => (by cases same), fun msg' evt' same => ?_, ready.before, ready.after⟩
          cases same
          exact ⟨here, unnamed⟩
      · cases step
        exact ready_finish (ready.available here (not_endpoint_of_name endpoint))
  | notStarted | scanning | sending msg evt | ended => simp [State.handle, pc] at step

theorem Ready.sent_available (ready : s.Ready ctx) {msg : JSONRPCMessage} (pc : s.pc = .sending msg evt) :
    s.EndpointFirst ctx → s.conn.postURL ≠ [] := by
  obtain ⟨here, unnamed⟩ := ready.sending msg evt pc
  apply ready.available here
  apply not_endpoint_of_name
  rw [unnamed]
  decide

theorem Ready.scan (ready : s.Ready ctx) (here : s.sent[s.processed]? = some item) :
    State.Ready ctx { s with pc := .handling item } := by
  refine ⟨fun item' same => ?_, fun msg evt same => (by cases same), ready.before, ready.after⟩
  cases same
  exact here

theorem Ready.push (ready : s.Ready ctx) (step : s.push = some s') : s'.Ready ctx := by
  cases pc : s.pc <;> simp only [State.push, pc, reduceCtorEq] at step
  split_ifs at step
  cases step
  exact ready_finish (ready.sent_available pc)

theorem Ready.stop (ready : s.Ready ctx) (step : s.stop = some s') : s'.Ready ctx := by
  simp only [State.stop] at step
  split_ifs at step
  cases pc : s.pc <;> simp only [pc, reduceCtorEq] at step
  case sending msg evt =>
    cases step
    exact ready_finish (ready.sent_available pc)
  case handling item =>
    cases item <;> cases step
    exact ready.frame rfl rfl rfl (.inr (.inr rfl))

theorem Ready.send (ready : s.Ready ctx) (item : Yield) : State.Ready ctx { s with sent := s.sent ++ [item] } := by
  have kept {k : Nat} {old : Yield} (here : s.sent[k]? = some old) : (s.sent ++ [item])[k]? = some old := by
    rw [List.getElem?_append_left (List.getElem?_eq_some_iff.mp here).1]
    exact here
  refine ⟨fun old here => kept (ready.handling old here), fun msg evt here => ?_, ready.before, fun some first => ?_⟩
  · obtain ⟨at', unnamed⟩ := ready.sending msg evt here
    exact ⟨kept at', unnamed⟩
  · exact ready.after some fun old here => first old (kept here)

theorem Ready.step {l : Label} (ready : s.Ready ctx) (step : s.step ctx l = some s') : s'.Ready ctx := by
  cases l with
  | respond ok =>
    cases phase : s.phase <;> simp only [State.step, phase, reduceCtorEq] at step
    cases ok <;> cases step
    · exact ready.frame rfl rfl rfl (.inl rfl)
    · exact ready.frame rfl rfl rfl (.inr (.inl rfl))
  | ret | write | close =>
    cases phase : s.phase <;> simp only [State.step, phase, reduceCtorEq] at step
    cases step
    exact ready.frame rfl rfl rfl (.inl rfl)
  | send item =>
    cases step
    exact ready.send item
  | scan =>
    cases pc : s.pc <;> simp only [State.step, pc, reduceCtorEq] at step
    obtain ⟨item, here, rfl⟩ := Option.map_eq_some_iff.mp step
    exact ready.scan here
  | handle => exact ready.handle step
  | push => exact ready.push step
  | stop => exact ready.stop step
  | eof =>
    cases pc : s.pc <;> simp only [State.step, pc, reduceCtorEq] at step
    split_ifs at step
    cases step
    exact ready.frame rfl rfl rfl (.inr (.inr rfl))
  | read | readError =>
    simp only [State.step] at step
    split at step
    · cases step
      exact ready.frame rfl rfl rfl (.inl rfl)
    · cases step
  | cancel =>
    cases step
    exact ready.frame rfl rfl rfl (.inl rfl)

end State

theorem ready (reachable : (client ctx).Reachable s) : s.Ready ctx := by
  apply Machine.Reachable.invariant (P := State.Ready ctx) _ (fun s l s' ready step => ready.step step) reachable
  exact ⟨fun item here => (by cases here), fun msg evt here => (by cases here), fun _ => rfl,
    fun some => (by cases some)⟩

theorem Connection.write_eq_iff {c : Connection} (isOpen : c.closed = false) :
    c.write = .error .notYetAvailable ↔ c.postURL = [] := by
  unfold write
  rw [isOpen, if_neg Bool.false_ne_true]
  by_cases absent : c.postURL = []
  · simp [absent]
  · simp [absent]

/-- On an open connection whose server begins with a valid endpoint event, `Write` finds an endpoint
if and only if `processEvents` has dealt with that event. -/
theorem write_available_iff (ctx : Context) {s s' : State} (reachable : (client ctx).Reachable s)
    (step : (client ctx).step s .write = some s') (isOpen : s.conn.closed = false) (first : s.EndpointFirst ctx) :
    ∃ result, s'.writes = s.writes ++ [result] ∧ (result ≠ .error .notYetAvailable ↔ 0 < s.processed) := by
  have ready := ready reachable
  refine ⟨s.conn.write, ?_, ?_⟩
  · simp only [client, State.step] at step
    split at step
    · cases step
      rfl
    · cases step
  · rw [Ne, Connection.write_eq_iff isOpen]
    constructor
    · intro available
      by_contra none
      exact available (ready.before (Nat.eq_zero_of_not_pos none))
    · intro some
      exact ready.after some first

def plainContext : Context where
  parseURL endpoint := some (ofString "http://localhost" ++ endpoint)
  unmarshal _ := none
  parseURL_nonempty parsed := by
    cases parsed
    simp [ofString]

def endpointEvent : Sse.Event := { name := ofString "endpoint", data := ofString "/message?session=a" }

def openingRun (processing : List Label) : List Label :=
  [.respond true, .ret, .send (.event endpointEvent)] ++ processing

theorem endpointFirst_of_sent (sent : s.sent = [.event endpointEvent]) : s.EndpointFirst plainContext := by
  intro item here
  rw [sent] at here
  cases here
  exact ⟨endpointEvent, _, rfl, rfl, rfl⟩

theorem write_available_processed :
    ∃ s s' result, (client plainContext).run (client plainContext).start (openingRun [.scan, .handle]) = some s ∧
      (client plainContext).step s .write = some s' ∧ s'.writes = s.writes ++ [result] ∧
      (result ≠ .error .notYetAvailable ↔ 0 < s.processed) ∧ 0 < s.processed := by
  obtain ⟨result, written, available⟩ := write_available_iff plainContext ⟨openingRun [.scan, .handle], rfl⟩ rfl rfl
    (endpointFirst_of_sent rfl)
  exact ⟨_, _, result, rfl, rfl, written, available, by decide⟩

theorem write_before_endpoint :
    ∃ s s', (client plainContext).run (client plainContext).start (openingRun [.scan]) = some s ∧
      s.EndpointFirst plainContext ∧ s.conn.closed = false ∧ (client plainContext).step s .write = some s' ∧
      s'.writes = [.error .notYetAvailable] :=
  ⟨_, _, rfl, endpointFirst_of_sent rfl, rfl, rfl, rfl⟩

end Mcp.Connect
