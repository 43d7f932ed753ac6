import Mcp.Json
import Mcp.Lib.Threads

namespace Mcp.Serving
open Mcp.Lib

abbrev ConnID := Nat

structure ElicitationCapabilities where
  form : Bool := false
  url : Bool := false

structure ClientCapabilities where
  roots : Bool := false
  sampling : Bool := false
  elicitation : Option ElicitationCapabilities := none

structure Server where
  conn : Option ConnID := none
  clientCaps : ClientCapabilities := {}
  logLevel : Option Int := some 0
  dialled : ConnID := 0
  registrations : Nat := 0

def slogLevelForLoggingLevel : String → Option Int
  | "debug" => some (-4)
  | "info" => some 0
  | "notice" => some 2
  | "warning" => some 4
  | "error" => some 8
  | "critical" => some 12
  | "alert" => some 16
  | "emergency" => some 20
  | _ => none

structure ElicitRequest where
  mode : String := ""
  url : String := ""
  elicitationID : String := ""

structure CreateMessageRequest where
  messages : Option (List Any) := none

inductive ServerCall where
  | notifyProgress (token : Any) (progress : ℚ) (total : Option ℚ)
  -- The data is `none` if `json.Marshal` fails on it.
  | notifyLoggingMessage (level logger : String) (data : Option Json)
  | createMessage (request : CreateMessageRequest)
  | elicit (request : ElicitRequest)
  | listRoots

inductive Outbound where
  | progress (token : Any) (progress : ℚ) (total : Option ℚ)
  | logging (level logger : String) (data : Json)
  | createMessage (request : CreateMessageRequest)
  | elicit (request : ElicitRequest)
  | listRoots

inductive CallError where
  | notEstablished
  | unsupported (text : String)
  | parameter (method field text : String)
  | marshal

inductive Outcome where
  | sent (target : ConnID) (msg : Outbound)
  | dropped
  | filtered
  | failed (err : CallError)

def Server.createMessage (s : Server) (request : CreateMessageRequest) :
    Except CallError (ConnID × Outbound) :=
  match s.conn with
  | none => .error .notEstablished
  | some conn =>
    if s.clientCaps.sampling then
      .ok (conn, .createMessage { request with messages := some (request.messages.getD []) })
    else .error (.unsupported "client does not support sampling")

def ElicitRequest.withMode (request : ElicitRequest) : ElicitRequest :=
  if request.mode = "" then
    { request with mode := if request.url ≠ "" ∨ request.elicitationID ≠ "" then "url" else "form" }
  else request

def Server.elicit (s : Server) (request : ElicitRequest) : Except CallError (ConnID × Outbound) :=
  match s.conn, s.clientCaps.elicitation with
  | none, _ => .error .notEstablished
  | some _, none => .error (.unsupported "client does not support elicitation")
  | some conn, some caps =>
    let request := request.withMode
    if request.mode = "form" then
      if ¬caps.form ∧ caps.url then .error (.unsupported "client does not support form elicitation")
      else .ok (conn, .elicit request)
    else if request.mode = "url" then
      if ¬caps.url then .error (.unsupported "client does not support url elicitation")
      else .ok (conn, .elicit request)
    else .error (.parameter "elicitation/create" "mode" "unsupported elicitation mode")

def Server.listRoots (s : Server) : Except CallError (ConnID × Outbound) :=
  match s.conn with
  | none => .error .notEstablished
  | some conn =>
    if s.clientCaps.roots then .ok (conn, .listRoots)
    else .error (.unsupported "client does not support roots")

inductive HandlerPC where
  | idle
  | level (value : Int) (level logger : String) (data : Option Json)
  | notify (msg : Outbound)
  | createMessage (request : CreateMessageRequest)
  | elicit (request : ElicitRequest)
  | listRoots
  | send (target : ConnID) (msg : Outbound)
  | returned

structure Handler where
  conn : ConnID
  pc : HandlerPC := .idle
  outcomes : List Outcome := []

inductive ServePC where
  | dialled
  | serving
  | ended
  deriving DecidableEq

structure ServeCall where
  conn : ConnID
  order : Option Nat := none
  pc : ServePC := .dialled

inductive Action where
  | proceed
  | issue (call : ServerCall)
  | finish

inductive Op where
  | dial
  -- A request can arrive on a connection as soon as it is dialled.
  | arrive (conn : ConnID)
  | setConn (conn : ConnID)
  | clearConn (conn : ConnID)
  | setCapabilities (caps : ClientCapabilities)
  | setLevel (level : Int)

def Server.perform (s : Server) : Op → Option Server
  | .dial => some { s with dialled := s.dialled + 1 }
  | .arrive conn => if conn < s.dialled then some s else none
  | .setConn conn => some { s with conn := some conn, registrations := s.registrations + 1 }
  | .clearConn conn => some (if s.conn = some conn then { s with conn := none } else s)
  | .setCapabilities caps => some { s with clientCaps := caps }
  | .setLevel level => some { s with logLevel := some level }

namespace Handler

def record (h : Handler) (outcome : Outcome) : Handler :=
  { h with outcomes := h.outcomes ++ [outcome], pc := .idle }

def issue (h : Handler) : ServerCall → Handler
  | .notifyProgress token progress total => { h with pc := .notify (.progress token progress total) }
  | .notifyLoggingMessage level logger data =>
    match slogLevelForLoggingLevel level with
    | some value => { h with pc := .level value level logger data }
    | none =>
      h.record (.failed (.parameter "notifications/message" "level" "unsupported logging level"))
  | .createMessage request => { h with pc := .createMessage request }
  | .elicit request => { h with pc := .elicit request }
  | .listRoots => { h with pc := .listRoots }

def request (h : Handler) : Except CallError (ConnID × Outbound) → Handler
  | .ok (target, msg) => { h with pc := .send target msg }
  | .error err => h.record (.failed err)

def proceed (s : Server) (h : Handler) : Option Handler :=
  match h.pc with
  | .level value level logger data =>
    match s.logLevel with
    | none => some (h.record .filtered)
    | some minLevel =>
      if value < minLevel then some (h.record .filtered)
      else match data with
        | some data => some { h with pc := .notify (.logging level logger data) }
        | none => some (h.record (.failed .marshal))
  | .notify msg =>
    match s.conn with
    | some target => some { h with pc := .send target msg }
    | none => some (h.record .dropped)
  | .createMessage request => some (h.request (s.createMessage request))
  | .elicit request => some (h.request (s.elicit request))
  | .listRoots => some (h.request s.listRoots)
  | .send target msg => some (h.record (.sent target msg))
  | .idle | .returned => none

def act (s : Server) (h : Handler) : Action → Option Handler
  | .issue call => match h.pc with
      | .idle => some (h.issue call)
      | _ => none
  | .proceed => h.proceed s
  | .finish => match h.pc with
      | .idle => some { h with pc := .returned }
      | _ => none

end Handler

def ServeCall.serve (s : Server) (v : ServeCall) : Action → Option (Op × ServeCall)
  | .proceed =>
    if v.pc = .dialled then
      some (.setConn v.conn, { v with order := some s.registrations, pc := .serving })
    else none
  | .finish =>
    if v.pc = .serving then some (.clearConn v.conn, { v with pc := .ended }) else none
  | .issue _ => none

inductive Goroutine where
  | serve (v : ServeCall)
  | handler (h : Handler)

inductive Start where
  | serve
  | request (conn : ConnID)

inductive Setting where
  | capabilities (caps : ClientCapabilities)
  | level (value : Int)

def Goroutine.act (s : Server) : Goroutine → Action → Option (Option Op × Goroutine)
  | .serve v, a => (v.serve s a).map fun moved => (some moved.1, .serve moved.2)
  | .handler h, a => (h.act s a).map fun h => (none, .handler h)

def Goroutine.start (s : Server) : Start → Option Op × Goroutine
  | .serve => (some .dial, .serve { conn := s.dialled })
  | .request conn => (some (.arrive conn), .handler { conn := conn })

def Setting.op : Setting → Op
  | .capabilities caps => .setCapabilities caps
  | .level value => .setLevel value

def goroutines : System Server Op Goroutine Action Start Setting where
  start := {}
  perform := Server.perform
  env := Setting.op
  spawn := Goroutine.start
  act := Goroutine.act

abbrev State := Config Server Goroutine

abbrev Event := Label Action Start Setting

abbrev serving : Machine State Event := goroutines.machine

variable {c c' : State} {s s' : Server} {i : Nat}

def Goroutine.servedConn : Goroutine → Option ConnID
  | .serve v => some v.conn
  | .handler _ => none

def Goroutine.order : Goroutine → Option Nat
  | .serve v => v.order
  | .handler _ => none

inductive Served (s : Server) (v : ServeCall) : Op → ServeCall → Prop
  | registered (here : v.pc = .dialled) :
      Served s v (.setConn v.conn) { v with order := some s.registrations, pc := .serving }
  | ended (here : v.pc = .serving) : Served s v (.clearConn v.conn) { v with pc := .ended }

variable {v : ServeCall} {a : Action} {op : Op} {conn : ConnID} {n : Nat} {l : Event} {h h' : Handler}

theorem served {v' : ServeCall} (moved : v.serve s a = some (op, v')) : Served s v op v' := by
  cases a with
  | proceed =>
    simp only [ServeCall.serve] at moved
    split_ifs at moved with here
    cases moved
    exact .registered here
  | finish =>
    simp only [ServeCall.serve] at moved
    split_ifs at moved with here
    cases moved
    exact .ended here
  | issue call => cases moved

inductive Acted (s : Server) : Goroutine → Option Op → Goroutine → Prop
  | serve {v v' : ServeCall} {op : Op} (served : Served s v op v') : Acted s (.serve v) (some op) (.serve v')
  | handler {h h' : Handler} {a : Action} (moved : h.act s a = some h') :
      Acted s (.handler h) none (.handler h')

theorem acted {g g' : Goroutine} {op : Option Op} (moved : goroutines.act s g a = some (op, g')) : Acted s g op g' := by
  cases g with
  | serve v =>
    obtain ⟨⟨op, v'⟩, serving, same⟩ := Option.map_eq_some_iff.mp moved
    cases same
    exact .serve (served serving)
  | handler h =>
    obtain ⟨h', handling, same⟩ := Option.map_eq_some_iff.mp moved
    cases same
    exact .handler handling

theorem perform_counters (step : s.perform op = some s') :
    s.dialled ≤ s'.dialled ∧ s.registrations ≤ s'.registrations := by
  cases op with
  | dial =>
    cases step
    exact ⟨Nat.le_succ _, le_rfl⟩
  | setConn conn =>
    cases step
    exact ⟨le_rfl, Nat.le_succ _⟩
  | arrive conn =>
    simp only [Server.perform] at step
    split_ifs at step
    cases step
    exact ⟨le_rfl, le_rfl⟩
  | clearConn conn =>
    cases step
    split_ifs <;> exact ⟨le_rfl, le_rfl⟩
  | setCapabilities caps | setLevel level =>
    cases step
    exact ⟨le_rfl, le_rfl⟩

theorem servedConns_fresh (reachable : serving.Reachable c) :
    System.Fresh (System.names Goroutine.servedConn c) c.shared.dialled := by
  refine System.freshNames _ _ (fun s op s' step => (perform_counters step).1)
    (fun s start op g s' started performed => ?_) (fun s g a op g' s' moved performed => ?_) reachable
  · cases start <;> cases started
    · cases performed
      exact .inr ⟨rfl, Nat.lt_succ_self _⟩
    · exact .inl rfl
  · cases acted moved with
    | serve served => cases served <;> exact .inl rfl
    | handler => exact .inl rfl

theorem orders_fresh (reachable : serving.Reachable c) :
    System.Fresh (System.names Goroutine.order c) c.shared.registrations := by
  refine System.freshNames _ _ (fun s op s' step => (perform_counters step).2)
    (fun s start op g s' started performed => ?_) (fun s g a op g' s' moved performed => ?_) reachable
  · cases start <;> cases started <;> exact .inl rfl
  · cases acted moved with
    | serve served =>
      cases served with
      | registered =>
        cases performed
        exact .inr ⟨rfl, Nat.lt_succ_self _⟩
      | ended => exact .inl rfl
    | handler => exact .inl rfl

def Current (c : State) (conn : ConnID) : Prop :=
  ∃ (i : Nat) (v : ServeCall) (n : Nat), c.threads[i]? = some (.serve v) ∧ v.conn = conn ∧
    v.pc = .serving ∧ v.order = some n ∧ n + 1 = c.shared.registrations

def Registered (c : State) : Prop := ∀ conn, Current c conn → c.shared.conn = some conn

theorem perform_registrations (noSet : ∀ other, op ≠ .setConn other)
    (step : s.perform op = some s') : s'.registrations = s.registrations := by
  cases op with
  | setConn other => exact absurd rfl (noSet other)
  | clearConn other =>
    cases step
    split_ifs <;> rfl
  | arrive other =>
    simp only [Server.perform] at step
    split_ifs at step
    cases step
    rfl
  | dial | setCapabilities caps | setLevel level =>
    cases step
    rfl

theorem conn_kept (registered : s.conn = some conn) (noSet : ∀ other, op ≠ .setConn other)
    (noClear : op ≠ .clearConn conn) (step : s.perform op = some s') : s'.conn = some conn := by
  cases op with
  | setConn other => exact absurd rfl (noSet other)
  | clearConn other =>
    cases step
    have different : s.conn ≠ some other := fun same =>
      noClear (congrArg Op.clearConn (Option.some.inj (same.symm.trans registered)))
    rw [if_neg different]
    exact registered
  | arrive other =>
    simp only [Server.perform] at step
    split_ifs at step
    cases step
    exact registered
  | dial | setCapabilities caps | setLevel level =>
    cases step
    exact registered

theorem Registered.undisturbed (registered : Registered c) (op : Op)
    (found : c.threads[i]? = some (.serve v)) (here : v.pc = .serving) (order : v.order = some n)
    (last : n + 1 = s'.registrations) (noSet : ∀ other, op ≠ .setConn other)
    (noClear : op ≠ .clearConn v.conn) (step : c.shared.perform op = some s') : s'.conn = some v.conn := by
  rw [perform_registrations noSet step] at last
  exact conn_kept (registered v.conn ⟨i, v, n, found, rfl, here, order, last⟩) noSet noClear step

theorem Registered.served_other {j : Nat} {w w' : ServeCall} (reachable : serving.Reachable c)
    (registered : Registered c) (found : c.threads[i]? = some (.serve v))
    (other : c.threads[j]? = some (.serve w)) (different : i ≠ j) (here : v.pc = .serving)
    (order : v.order = some n) (last : n + 1 = s'.registrations) (served : Served c.shared w op w')
    (performed : c.shared.perform op = some s') : s'.conn = some v.conn := by
  cases served with
  | registered =>
    cases performed
    have bound := (orders_fresh reachable).lt found order
    change n + 1 = c.shared.registrations + 1 at last
    omega
  | ended =>
    have distinct : w.conn ≠ v.conn := by
      intro same
      exact different ((servedConns_fresh reachable).unique found other rfl (congrArg some same))
    exact registered.undisturbed (.clearConn w.conn) found here order last (by simp)
      (fun same => distinct (Op.clearConn.inj same)) performed

theorem Registered.step (reachable : serving.Reachable c) (registered : Registered c)
    (step : serving.step c l = some c') : Registered c' := by
  rintro - ⟨i, v, n, found, rfl, here, order, last⟩
  cases System.stepped step with
  | @env setting _ performed =>
    refine registered.undisturbed setting.op found here order last ?_ ?_ performed
    all_goals cases setting <;> simp [Setting.op]
  | @spawn start op g _ started performed =>
    obtain ⟨-, rfl⟩ | ⟨-, before⟩ := System.getElem?_concat_cases found
    · cases start <;> cases started
      cases here
    · cases start with
      | serve =>
        cases started
        exact registered.undisturbed .dial before here order last (by simp) (by simp) performed
      | request conn =>
        cases started
        exact registered.undisturbed (.arrive conn) before here order last (by simp) (by simp)
          performed
  | @act j a g g' op _ other moved performed =>
    obtain ⟨rfl, rfl⟩ | ⟨different, before⟩ := System.getElem?_set_cases found
    · cases acted moved with
      | serve served =>
        cases served with
        | registered =>
          cases performed
          rfl
        | ended => cases here
    · cases acted moved with
      | handler =>
        cases performed
        exact registered v.conn ⟨i, v, n, before, rfl, here, order, last⟩
      | serve served =>
        exact registered.served_other reachable before other different here order last served performed

theorem registered (reachable : serving.Reachable c) : Registered c := by
  refine Machine.Reachable.invariant' (P := Registered) ?_
    (fun c l c' reachable registered step => registered.step reachable step) reachable
  rintro conn ⟨i, v, n, found, -⟩
  simp [System.machine] at found

/-- The call went to the connection `conn`, unless its own arguments or what is known of the client
stopped it: it was neither lost for want of a connection nor sent on another one. -/
def Outcome.Confined (conn : ConnID) : Outcome → Prop
  | .sent target _ => target = conn
  | .dropped | .failed .notEstablished => False
  | .filtered | .failed _ => True

def HandlerPC.ReadsConn : HandlerPC → Prop
  | .notify _ | .createMessage _ | .elicit _ | .listRoots => True
  | _ => False

structure Handler.Confined (h : Handler) : Prop where
  outcomes : ∀ outcome ∈ h.outcomes, outcome.Confined h.conn
  sending : ∀ target msg, h.pc = .send target msg → target = h.conn

theorem Handler.Confined.record {outcome : Outcome} (confined : h.Confined)
    (new : outcome.Confined h.conn) : (h.record outcome).Confined := by
  refine ⟨fun o member => ?_, nofun⟩
  rcases List.mem_append.mp member with old | new'
  · exact confined.outcomes o old
  · obtain rfl := List.mem_singleton.mp new'
    exact new

theorem Handler.Confined.issue (confined : h.Confined) (call : ServerCall) : (h.issue call).Confined := by
  cases call with
  | notifyLoggingMessage level logger data =>
    simp only [Handler.issue]
    split
    · exact ⟨confined.outcomes, nofun⟩
    · exact confined.record trivial
  | notifyProgress | createMessage | elicit | listRoots => exact ⟨confined.outcomes, nofun⟩

def Addressed (conn : ConnID) (result : Except CallError (ConnID × Outbound)) : Prop :=
  result ≠ .error .notEstablished ∧ ∀ target msg, result = .ok (target, msg) → target = conn

theorem addressed_ok (conn : ConnID) (msg : Outbound) : Addressed conn (.ok (conn, msg)) :=
  ⟨nofun, fun _ _ same => by cases same; rfl⟩

theorem createMessage_addressed (registered : s.conn = some conn)
    (request : CreateMessageRequest) : Addressed conn (s.createMessage request) := by
  simp only [Server.createMessage, registered]
  split_ifs
  · exact addressed_ok _ _
  · exact ⟨nofun, nofun⟩

theorem elicit_addressed (registered : s.conn = some conn) (request : ElicitRequest) :
    Addressed conn (s.elicit request) := by
  cases caps : s.clientCaps.elicitation with
  | none =>
    simp only [Server.elicit, registered, caps]
    exact ⟨nofun, nofun⟩
  | some caps' =>
    simp only [Server.elicit, registered, caps]
    split_ifs
    all_goals first | exact addressed_ok _ _ | exact ⟨nofun, nofun⟩

theorem listRoots_addressed (registered : s.conn = some conn) : Addressed conn s.listRoots := by
  simp only [Server.listRoots, registered]
  split_ifs
  · exact addressed_ok _ _
  · exact ⟨nofun, nofun⟩

theorem Handler.Confined.request {result : Except CallError (ConnID × Outbound)}
    (confined : h.Confined) (addressed : Addressed h.conn result) : (h.request result).Confined := by
  cases result with
  | ok call => exact ⟨confined.outcomes, fun conn msg here => by cases here; exact addressed.2 _ _ rfl⟩
  | error err =>
    apply confined.record
    cases err with
    | notEstablished => exact absurd rfl addressed.1
    | unsupported | parameter | marshal => trivial

theorem Handler.Confined.proceed (confined : h.Confined)
    (registered : h.pc.ReadsConn → s.conn = some h.conn) (moved : h.proceed s = some h') : h'.Confined := by
  cases here : h.pc <;> simp only [Handler.proceed, here, reduceCtorEq] at moved
  case level value level logger data =>
    split at moved
    · cases moved
      exact confined.record trivial
    · split_ifs at moved
      · cases moved
        exact confined.record trivial
      · split at moved
        · cases moved
          exact ⟨confined.outcomes, nofun⟩
        · cases moved
          exact confined.record trivial
  case notify msg =>
    have own := registered (by simp [here, HandlerPC.ReadsConn])
    rw [own] at moved
    cases moved
    exact ⟨confined.outcomes, fun target msg sending => by cases sending; rfl⟩
  case createMessage request =>
    have own := registered (by simp [here, HandlerPC.ReadsConn])
    cases moved
    exact confined.request (createMessage_addressed own request)
  case elicit request =>
    have own := registered (by simp [here, HandlerPC.ReadsConn])
    cases moved
    exact confined.request (elicit_addressed own request)
  case listRoots =>
    have own := registered (by simp [here, HandlerPC.ReadsConn])
    cases moved
    exact confined.request (listRoots_addressed own)
  case send target msg =>
    cases moved
    exact confined.record (confined.sending target msg here)

theorem Handler.Confined.act (confined : h.Confined)
    (registered : h.pc.ReadsConn → s.conn = some h.conn) (moved : h.act s a = some h') : h'.Confined := by
  cases a with
  | proceed => exact confined.proceed registered moved
  | issue call =>
    simp only [Handler.act] at moved
    split at moved
    · cases moved
      exact confined.issue call
    · cases moved
  | finish =>
    simp only [Handler.act] at moved
    split at moved
    · cases moved
      exact ⟨confined.outcomes, nofun⟩
    · cases moved

def ReadsCurrent (c : State) : Event → Prop
  | .act i _ => ∀ h, c.threads[i]? = some (.handler h) → h.pc.ReadsConn → Current c h.conn
  | _ => True

def AllConfined (c : State) : Prop :=
  ∀ (i : Nat) h, c.threads[i]? = some (.handler h) → h.Confined

theorem AllConfined.step (reachable : serving.Reachable c) (confined : AllConfined c)
    (current : ReadsCurrent c l) (step : serving.step c l = some c') : AllConfined c' := by
  intro i h found
  cases System.stepped step with
  | env => exact confined i h found
  | @spawn start _ _ _ started =>
    obtain ⟨-, rfl⟩ | ⟨-, before⟩ := System.getElem?_concat_cases found
    · cases start <;> cases started
      exact ⟨nofun, nofun⟩
    · exact confined i h before
  | act own moved =>
    obtain ⟨rfl, rfl⟩ | ⟨-, before⟩ := System.getElem?_set_cases found
    · cases acted moved with
      | @handler h₀ _ _ handling =>
        exact (confined i h₀ own).act
          (fun reads => registered reachable h₀.conn (current h₀ own reads)) handling
    · exact confined i h before

/-- In every run in which the handlers read `conn` only while their own connection is the one that
was registered last and whose `Serve` has not ended, every call of a handler goes to the connection
its request arrived on, or to none because its arguments, the log level or the capabilities of the
client rule it out. -/
theorem handler_calls_confined {events : List Event} {h : Handler}
    (run : serving.run serving.start events = some c)
    (current : serving.EachStep ReadsCurrent serving.start events)
    (found : c.threads[i]? = some (.handler h)) : ∀ outcome ∈ h.outcomes, outcome.Confined h.conn := by
  have initial : AllConfined serving.start := fun i h found => by simp [System.machine] at found
  have confined : AllConfined c :=
    Machine.invariant_of_eachStep initial
      (fun _ _ _ reachable confined current step => confined.step reachable current step) current run
  exact (confined i h found).outcomes

def aloneRun : List Event :=
  [.spawn .serve, .act 0 .proceed, .spawn (.request 0),
    .act 1 (.issue (.notifyProgress (.string "a") 1 none)), .act 1 .proceed,
    .spawn .serve, .act 2 .proceed, .act 1 .proceed]

theorem readsCurrent_of_pc (found : c.threads[i]? = some (.handler h))
    (current : h.pc.ReadsConn → Current c h.conn) : ReadsCurrent c (.act i a) := by
  intro h' found'
  obtain rfl : h = h' := by simpa using found.symm.trans found'
  exact current

theorem readsCurrent_of_serve (found : c.threads[i]? = some (.serve v)) :
    ReadsCurrent c (.act i a) := fun h found' => by cases found.symm.trans found'

theorem aloneRun_readsCurrent : serving.EachStep ReadsCurrent serving.start aloneRun := by
  refine .cons trivial rfl ?_
  refine .cons (readsCurrent_of_serve rfl) rfl ?_
  refine .cons trivial rfl ?_
  refine .cons (readsCurrent_of_pc rfl nofun) rfl ?_
  refine .cons (readsCurrent_of_pc rfl fun _ => ⟨0, _, 0, rfl, rfl, rfl, rfl, rfl⟩) rfl ?_
  refine .cons trivial rfl ?_
  refine .cons (readsCurrent_of_serve rfl) rfl ?_
  exact .cons (readsCurrent_of_pc rfl nofun) rfl trivial

theorem aloneRun_confined :
    ∃ c h target msg, serving.run serving.start aloneRun = some c ∧
      c.threads[1]? = some (.handler h) ∧ h.outcomes = [.sent target msg] ∧ target = h.conn := by
  obtain ⟨c, h, target, msg, run, found, sent⟩ :
      ∃ c h target msg, serving.run serving.start aloneRun = some c ∧
        c.threads[1]? = some (.handler h) ∧ h.outcomes = [.sent target msg] :=
    ⟨_, _, _, _, rfl, rfl, rfl⟩
  have confined := handler_calls_confined run aloneRun_readsCurrent found (.sent target msg) (by simp [sent])
  exact ⟨c, h, target, msg, run, found, sent, confined⟩

def crossedRun : List Event :=
  [.spawn .serve, .act 0 .proceed, .spawn (.request 0), .spawn .serve, .act 2 .proceed,
    .act 1 (.issue (.notifyProgress (.string "a") 1 none)), .act 1 .proceed, .act 1 .proceed]

theorem crossedRun_not_confined :
    ∃ c h, serving.run serving.start crossedRun = some c ∧ c.threads[1]? = some (.handler h) ∧
      h.conn = 0 ∧ h.outcomes = [.sent 1 (.progress (.string "a") 1 none)] ∧
      ¬∀ outcome ∈ h.outcomes, outcome.Confined h.conn := by
  refine ⟨_, _, rfl, rfl, rfl, rfl, fun confined => ?_⟩
  have target : (1 : ConnID) = 0 := confined _ (List.mem_singleton.mpr rfl)
  cases target

end Mcp.Serving
