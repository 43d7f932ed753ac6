import Mcp.Server.Outbound

namespace Mcp.Serving
open Mcp.Lib

structure ValidationConfig where
  maxRequestSize : Int := 1024 * 1024
  validateRequired : Bool := true

structure InitializeRequest where
  protocolVersion : String
  clientName : String
  capabilities : ClientCapabilities

-- The request is `none` if `json.Unmarshal` fails.
structure InitializeParams where
  size : Nat
  request : Option InitializeRequest

def InitializeRequest.validate (config : ValidationConfig) (r : InitializeRequest) : Bool :=
  !config.validateRequired || (r.protocolVersion ≠ "" && r.clientName ≠ "")

def InitializeParams.accepted (config : ValidationConfig) (params : InitializeParams) :
    Option InitializeRequest :=
  if config.maxRequestSize < params.size then none
  else params.request.filter (·.validate config)

structure Hub where
  server : Server := {}
  -- The capabilities of every `initialize` request that was accepted, the latest first.
  declared : List (ConnID × ClientCapabilities) := []

namespace Hub

inductive Op where
  | server (op : Serving.Op)
  | declare (conn : ConnID) (caps : ClientCapabilities)

def perform (s : Hub) : Op → Option Hub
  | .server op => (s.server.perform op).map fun server => { s with server := server }
  | .declare conn caps => (s.server.perform (.setCapabilities caps)).map fun server =>
    { server := server, declared := (conn, caps) :: s.declared }

inductive Goroutine where
  | serve (v : ServeCall)
  | caller (h : Handler)
  | handshake (conn : ConnID) (params : Option InitializeParams)

inductive Start where
  | serve
  | call (conn : ConnID)
  | handshake (conn : ConnID) (params : InitializeParams)

def Goroutine.start (s : Hub) : Start → Option Op × Goroutine
  | .serve => (some (.server .dial), .serve { conn := s.server.dialled })
  | .call conn => (none, .caller { conn := conn })
  | .handshake conn params => (some (.server (.arrive conn)), .handshake conn (some params))

def Goroutine.act (config : ValidationConfig) (s : Hub) : Goroutine → Action → Option (Option Op × Goroutine)
  | .serve v, a => (v.serve s.server a).map fun moved => (some (.server moved.1), .serve moved.2)
  | .caller h, a => (h.act s.server a).map fun h => (none, .caller h)
  | .handshake conn (some params), .proceed =>
    some ((params.accepted config).map fun r => .declare conn r.capabilities, .handshake conn none)
  | .handshake _ _, _ => none

-- From outside only the handler of `logging/setLevel` acts.
def goroutines (config : ValidationConfig) : System Hub Op Goroutine Action Start Int where
  start := {}
  perform := perform
  env := fun level => .server (.setLevel level)
  spawn := Goroutine.start
  act := Goroutine.act config

abbrev State := Config Hub Goroutine

abbrev Event := Label Action Start Int

abbrev serving (config : ValidationConfig) : Machine State Event := (goroutines config).machine

end Hub

def ElicitationCapabilities.allows (caps : ElicitationCapabilities) (mode : String) : Bool :=
  mode = "form" ∧ (caps.form ∨ ¬ caps.url) ∨ mode = "url" ∧ caps.url

def ClientCapabilities.permits (caps : ClientCapabilities) : Outbound → Bool
  | .createMessage _ => caps.sampling
  | .elicit request => caps.elicitation.any (·.allows request.mode)
  | .listRoots => caps.roots
  | .progress .. | .logging .. => true

def Outbound.isRequest : Outbound → Bool
  | .createMessage _ | .elicit _ | .listRoots => true
  | .progress .. | .logging .. => false

def HandlerPC.readsCaps : HandlerPC → Bool
  | .createMessage _ | .elicit _ | .listRoots => true
  | _ => false

def HandlerPC.sends (conn : ConnID) : HandlerPC → Bool
  | .send target msg => target = conn ∧ msg.isRequest
  | _ => false

def Permitted (declared : List (ConnID × ClientCapabilities)) (conn : ConnID) (msg : Outbound) : Prop :=
  msg.isRequest → ∃ caps, declared.lookup conn = some caps ∧ caps.permits msg

variable {s : Server} {conn target : ConnID} {msg : Outbound}

theorem createMessage_permitted {request : CreateMessageRequest}
    (sent : s.createMessage request = .ok (conn, msg)) : s.conn = some conn ∧ s.clientCaps.permits msg := by
  cases registered : s.conn <;> simp only [Server.createMessage, registered, reduceCtorEq] at sent
  split_ifs at sent with sampling
  cases sent
  exact ⟨rfl, sampling⟩

theorem listRoots_permitted (sent : s.listRoots = .ok (conn, msg)) : s.conn = some conn ∧ s.clientCaps.permits msg := by
  cases registered : s.conn <;> simp only [Server.listRoots, registered, reduceCtorEq] at sent
  split_ifs at sent with roots
  cases sent
  exact ⟨rfl, roots⟩

theorem elicit_permitted {request : ElicitRequest} (sent : s.elicit request = .ok (conn, msg)) :
    s.conn = some conn ∧ s.clientCaps.permits msg := by
  unfold Server.elicit at sent
  cases registered : s.conn with
  | none => simp [registered] at sent
  | some target =>
    cases elicitation : s.clientCaps.elicitation with
    | none => simp [registered, elicitation] at sent
    | some caps =>
      simp only [registered, elicitation] at sent
      split_ifs at sent with form urlOnly url noUrl
      · cases sent
        have formAllowed : caps.form = true ∨ caps.url = false := by
          simpa [or_iff_not_imp_left] using urlOnly
        simp [ClientCapabilities.permits, ElicitationCapabilities.allows, elicitation, form, formAllowed]
      · cases sent
        simp_all [ClientCapabilities.permits, ElicitationCapabilities.allows]

structure Handler.Gated (declared : List (ConnID × ClientCapabilities)) (h : Handler) : Prop where
  notifies : ∀ msg, h.pc = .notify msg → msg.isRequest = false
  sends : ∀ conn msg, h.pc = .send conn msg → Permitted declared conn msg

variable {declared : List (ConnID × ClientCapabilities)} {h h' : Handler}

theorem Handler.gated_of_pc (notNotify : ∀ msg, h.pc ≠ .notify msg) (notSend : ∀ conn msg, h.pc ≠ .send conn msg) :
    h.Gated declared :=
  ⟨fun msg here => absurd here (notNotify msg), fun conn msg here => absurd here (notSend conn msg)⟩

theorem Handler.gated_record (declared : List (ConnID × ClientCapabilities)) (h : Handler) (outcome : Outcome) :
    (h.record outcome).Gated declared := by
  apply Handler.gated_of_pc
  · simp [Handler.record]
  · simp [Handler.record]

theorem Handler.gated_request (h : Handler) {result : Except CallError (ConnID × Outbound)}
    (read : ∀ conn msg, s.conn = some conn → s.clientCaps.permits msg → Permitted declared conn msg)
    (sent : ∀ conn msg, result = .ok (conn, msg) → s.conn = some conn ∧ s.clientCaps.permits msg) :
    (h.request result).Gated declared := by
  cases result with
  | error err => exact h.gated_record declared (.failed err)
  | ok call =>
    refine ⟨fun msg here => by simp [Handler.request] at here, fun conn msg here => ?_⟩
    cases here
    obtain ⟨registered, permits⟩ := sent _ _ rfl
    exact read _ _ registered permits

theorem Handler.gated_issue (declared : List (ConnID × ClientCapabilities)) (h : Handler) (call : ServerCall) :
    (h.issue call).Gated declared := by
  cases call with
  | notifyProgress token progress total =>
    refine ⟨fun msg here => ?_, fun conn msg here => by simp [Handler.issue] at here⟩
    cases here
    rfl
  | notifyLoggingMessage level logger data =>
    simp only [Handler.issue]
    split
    · apply Handler.gated_of_pc <;> simp
    · exact h.gated_record declared _
  | createMessage | elicit | listRoots => apply Handler.gated_of_pc <;> simp [Handler.issue]

theorem Handler.Gated.proceed (gated : h.Gated declared)
    (read : h.pc.readsCaps → ∀ conn msg, s.conn = some conn → s.clientCaps.permits msg → Permitted declared conn msg)
    (moved : h.proceed s = some h') : h'.Gated declared := by
  cases here : h.pc <;> simp only [Handler.proceed, here, reduceCtorEq] at moved
  case level value level logger data =>
    split at moved
    · cases moved
      exact h.gated_record declared _
    · split_ifs at moved
      · cases moved
        exact h.gated_record declared _
      · split at moved
        · cases moved
          refine ⟨fun msg same => ?_, fun conn msg same => by simp at same⟩
          cases same
          rfl
        · cases moved
          exact h.gated_record declared _
  case notify msg =>
    split at moved
    · cases moved
      refine ⟨fun msg same => by simp at same, fun conn msg same request => ?_⟩
      cases same
      rw [gated.notifies msg here] at request
      cases request
    · cases moved
      exact h.gated_record declared _
  case createMessage request =>
    cases moved
    exact h.gated_request (read (by simp [here, HandlerPC.readsCaps])) fun _ _ => createMessage_permitted
  case elicit request =>
    cases moved
    exact h.gated_request (read (by simp [here, HandlerPC.readsCaps])) fun _ _ => elicit_permitted
  case listRoots =>
    cases moved
    exact h.gated_request (read (by simp [here, HandlerPC.readsCaps])) fun _ _ => listRoots_permitted
  case send target msg =>
    cases moved
    exact h.gated_record declared _

theorem Handler.Gated.act {a : Action} (gated : h.Gated declared)
    (read : a = .proceed → h.pc.readsCaps → ∀ conn msg, s.conn = some conn → s.clientCaps.permits msg →
      Permitted declared conn msg) (moved : h.act s a = some h') : h'.Gated declared := by
  cases a with
  | proceed => exact gated.proceed (read rfl) moved
  | issue call =>
    simp only [Handler.act] at moved
    split at moved
    · cases moved
      exact h.gated_issue declared call
    · cases moved
  | finish =>
    simp only [Handler.act] at moved
    split at moved
    · cases moved
      apply Handler.gated_of_pc <;> simp
    · cases moved

theorem Handler.Gated.declare {caps : ClientCapabilities} (gated : h.Gated declared) (idle : h.pc.sends conn = false) :
    h.Gated ((conn, caps) :: declared) := by
  refine ⟨gated.notifies, fun target msg here request => ?_⟩
  obtain ⟨caps', latest, permits⟩ := gated.sends target msg here request
  have other : target ≠ conn := by
    rintro rfl
    simp [here, HandlerPC.sends, request] at idle
  refine ⟨caps', ?_, permits⟩
  rw [List.lookup_cons, beq_false_of_ne other]
  exact latest

namespace Hub

variable {config : ValidationConfig} {c c' : State} {l : Event}

theorem clientCaps_perform {s s' : Server} {op : Serving.Op} (other : ∀ caps, op ≠ .setCapabilities caps)
    (performed : s.perform op = some s') : s'.clientCaps = s.clientCaps := by
  cases op with
  | setCapabilities caps => exact absurd rfl (other caps)
  | arrive conn =>
    simp only [Server.perform] at performed
    split_ifs at performed
    cases performed
    rfl
  | clearConn conn =>
    cases performed
    split_ifs <;> rfl
  | dial | setConn conn | setLevel level =>
    cases performed
    rfl

theorem kept_of_server {s s' : Hub} (op : Serving.Op) (other : ∀ caps, op ≠ .setCapabilities caps)
    (performed : s.perform (.server op) = some s') :
    s'.declared = s.declared ∧ s'.server.clientCaps = s.server.clientCaps := by
  obtain ⟨server, performed', rfl⟩ := Option.map_eq_some_iff.mp performed
  exact ⟨rfl, clientCaps_perform other performed'⟩

theorem declared_stepped (step : (serving config).step c l = some c') :
    c'.shared.declared = c.shared.declared ∧ c'.shared.server.clientCaps = c.shared.server.clientCaps ∨
    ∃ i conn params caps, l = .act i .proceed ∧ c.threads[i]? = some (.handshake conn (some params)) ∧
      c'.shared.declared = (conn, caps) :: c.shared.declared ∧ c'.shared.server.clientCaps = caps := by
  cases System.stepped step with
  | @env level s performed => exact .inl (kept_of_server (.setLevel level) (by simp) performed)
  | @spawn start op g s started performed =>
    left
    cases start with
    | serve =>
      cases started
      exact kept_of_server .dial (by simp) performed
    | call conn =>
      cases started
      cases performed
      exact ⟨rfl, rfl⟩
    | handshake conn params =>
      cases started
      exact kept_of_server (.arrive conn) (by simp) performed
  | @act i a g g' op s found moved performed =>
    cases g with
    | serve v =>
      obtain ⟨⟨op', v'⟩, served', same⟩ := Option.map_eq_some_iff.mp moved
      cases same
      left
      cases served served' with
      | registered => exact kept_of_server (.setConn v.conn) (by simp) performed
      | ended => exact kept_of_server (.clearConn v.conn) (by simp) performed
    | caller h =>
      obtain ⟨h', -, same⟩ := Option.map_eq_some_iff.mp moved
      cases same
      cases performed
      exact .inl ⟨rfl, rfl⟩
    | handshake conn params =>
      cases params with
      | none => cases a <;> cases moved
      | some params =>
        cases a with
        | proceed =>
          cases accepted : params.accepted config with
          | none =>
            simp only [goroutines, Goroutine.act, accepted] at moved
            cases moved
            cases performed
            exact .inl ⟨rfl, rfl⟩
          | some r =>
            simp only [goroutines, Goroutine.act, accepted] at moved
            cases moved
            cases performed
            exact .inr ⟨i, conn, params, r.capabilities, rfl, found, rfl, rfl⟩
        | issue | finish => cases moved

/-- The field holds what the latest accepted request declared. -/
def Latest (s : Hub) : Prop := s.server.clientCaps = (s.declared.head?.map Prod.snd).getD {}

theorem Latest.stepped (latest : c.shared.Latest) (step : (serving config).step c l = some c') : c'.shared.Latest := by
  unfold Latest at latest ⊢
  obtain ⟨declared, caps⟩ | ⟨i, conn, params, caps, -, -, declared, same⟩ := declared_stepped step
  · rw [declared, caps, latest]
  · rw [declared, same]
    rfl

def ownCapabilities (c : State) : Event → Bool
  | .act i .proceed => match c.threads[i]? with
      | some (.caller h) =>
        !h.pc.readsCaps || c.shared.server.conn.all fun conn =>
          c.shared.declared.head?.map Prod.fst = some conn
      | some (.handshake conn _) => c.threads.all fun
          | .caller h => !h.pc.sends conn
          | _ => true
      | _ => true
  | _ => true

/-- A request that the step sends to the client is one its connection has declared support for. -/
def GatesSend (c : State) (l : Event) : Prop :=
  ∀ i h conn msg, l = .act i .proceed → c.threads[i]? = some (.caller h) → h.pc = .send conn msg →
    Permitted c.shared.declared conn msg

structure Gated (c : State) : Prop where
  latest : c.shared.Latest
  callers : ∀ (i : Nat) h, c.threads[i]? = some (.caller h) → h.Gated c.shared.declared

theorem permitted_of_head {s : Hub} (latest : s.Latest)
    (own : s.declared.head?.map Prod.fst = some conn) (permits : s.server.clientCaps.permits msg) :
    Permitted s.declared conn msg := by
  intro request
  obtain ⟨⟨conn', caps⟩, head, rfl⟩ := Option.map_eq_some_iff.mp own
  obtain ⟨rest, declared⟩ := List.head?_eq_some_iff.mp head
  have field : s.server.clientCaps = caps := by
    rw [latest, declared]
    rfl
  refine ⟨caps, ?_, field ▸ permits⟩
  rw [declared, List.lookup_cons_self]

variable {i : Nat} {h : Handler}

theorem read_of_ownCapabilities (own : ownCapabilities c (.act i .proceed))
    (found : c.threads[i]? = some (.caller h)) (reads : h.pc.readsCaps)
    (registered : c.shared.server.conn = some conn) : c.shared.declared.head?.map Prod.fst = some conn := by
  simpa [ownCapabilities, found, reads, registered] using own

theorem sends_of_ownCapabilities {j : Nat} {params : Option InitializeParams}
    (own : ownCapabilities c (.act i .proceed)) (found : c.threads[i]? = some (.handshake conn params))
    (found' : c.threads[j]? = some (.caller h)) : h.pc.sends conn = false := by
  simp only [ownCapabilities, found, List.all_eq_true] at own
  simpa using own _ (List.mem_of_getElem? found')

theorem Gated.stepped (gated : Gated c) (own : ownCapabilities c l) (step : (serving config).step c l = some c') :
    Gated c' := by
  refine ⟨gated.latest.stepped step, fun j h found => ?_⟩
  have waiting {h : Handler} (before : c.threads[j]? = some (.caller h)) : h.Gated c'.shared.declared := by
    obtain ⟨declared, -⟩ | ⟨i, conn, params, caps, rfl, handshake, declared, -⟩ := declared_stepped step
    · rw [declared]
      exact gated.callers j h before
    · rw [declared]
      exact (gated.callers j h before).declare (sends_of_ownCapabilities own handshake before)
  cases System.stepped step with
  | env => exact waiting found
  | @spawn start op g s started performed =>
    obtain ⟨-, rfl⟩ | ⟨-, before⟩ := System.getElem?_concat_cases found
    · cases start with
      | serve | handshake => cases started
      | call conn =>
        cases started
        apply Handler.gated_of_pc <;> simp
    · exact waiting before
  | @act i a g g' op s mine moved performed =>
    obtain ⟨rfl, rfl⟩ | ⟨-, before⟩ := System.getElem?_set_cases found
    · cases g with
      | serve v =>
        obtain ⟨v', -, same⟩ := Option.map_eq_some_iff.mp moved
        cases same
      | handshake conn params => cases params <;> cases a <;> cases moved
      | caller h₀ =>
        obtain ⟨h', acted, same⟩ := Option.map_eq_some_iff.mp moved
        cases same
        cases performed
        apply (gated.callers j h₀ mine).act _ acted
        rintro rfl reads conn msg registered permits
        exact permitted_of_head gated.latest (read_of_ownCapabilities own mine reads registered) permits
    · exact waiting before

theorem capability_gate (config : ValidationConfig) (events : List Event)
    (own : (serving config).EachStep (fun c l => ownCapabilities c l) (serving config).start events) :
    (serving config).EachStep GatesSend (serving config).start events := by
  apply Machine.EachStep.imp_of_invariant (P := Gated) (fun c l c' gated own step => gated.stepped own step)
    ?_ ?_ own
  · intro c l gated i h conn msg _ found here
    exact (gated.callers i h found).sends conn msg here
  · exact ⟨rfl, fun i h found => by simp [System.machine] at found⟩

def sampler : InitializeParams := ⟨100, some ⟨"2025-11-25", "client", { sampling := true }⟩⟩

def samplingRun (between : List Event) (i : Nat) (conn : ConnID) : List Event :=
  [.spawn .serve, .act 0 .proceed, .spawn (.handshake 0 sampler), .act 1 .proceed] ++ between ++
    [.spawn (.call conn), .act i (.issue (.createMessage {})), .act i .proceed, .act i .proceed]

theorem capability_gate_sampling :
    (∃ c h, (serving {}).run (serving {}).start (samplingRun [] 2 0) = some c ∧
      c.threads[2]? = some (.caller h) ∧ h.outcomes = [.sent 0 (.createMessage ⟨some []⟩)]) ∧
    (serving {}).EachStep GatesSend (serving {}).start (samplingRun [] 2 0) :=
  ⟨⟨_, _, rfl, rfl, rfl⟩, capability_gate {} (samplingRun [] 2 0) (Machine.eachStep_of_checks rfl)⟩

theorem uninitialised_connection_sampled :
    ∃ c c' h, (serving {}).run (serving {}).start
        (samplingRun [.act 0 .finish, .spawn .serve, .act 2 .proceed] 3 1).dropLast = some c ∧
      (serving {}).step c (.act 3 .proceed) = some c' ∧ c'.threads[3]? = some (.caller h) ∧
      h.outcomes = [.sent 1 (.createMessage ⟨some []⟩)] ∧ c.shared.declared.lookup 1 = none ∧
      ¬ GatesSend c (.act 3 .proceed) := by
  refine ⟨_, _, _, rfl, rfl, rfl, rfl, rfl, fun gates => ?_⟩
  obtain ⟨caps, declared, -⟩ := gates 3 _ 1 _ rfl rfl rfl rfl
  cases declared

end Hub

end Mcp.Serving
