import Mcp.Lib.Machine
import Mcp.Streamable.EventID
import Mcp.Streamable.Message

namespace Mcp.Streamable
open Mcp.Lib Function

structure StreamableMsg where
  message : JSONRPCMessage
  eventID : String

inductive RWMutex where
  | free
  | rLocked
  | locked
  deriving DecidableEq

-- A `chan struct{}` of capacity one, numbered in the order of creation.
abbrev ChanID := Nat

structure StreamableServerTransport where
  nextStreamID : StreamID := 0
  incoming : List JSONRPCMessage := []
  mu : RWMutex := .free
  -- The `done` channel is closed in the section that sets the flag.
  isDone : Bool := false
  outgoingMessages : StreamID → Option (List StreamableMsg) := fun _ => none
  signals : StreamID → Option ChanID := fun _ => none
  clientRequestStreams : Key → Option StreamID := fun _ => none
  serverRequestStreams : Key → Option StreamID := fun _ => none
  lastRequestStream : StreamID := 0
  signalChans : ChanID := 0
  signalled : ChanID → Bool := fun _ => false

inductive Fault where
  | closed (op : String)
  | unhashable
  | sliceTooLong
  deriving DecidableEq

def newStreamableServerTransport : StreamableServerTransport := {}

namespace StreamableServerTransport

variable (t : StreamableServerTransport)

def messages (sid : StreamID) : List StreamableMsg := (t.outgoingMessages sid).getD []

def hash (id : Any) : Except Fault Key :=
  match id.key? with
  | some k => .ok k
  | none => .error .unhashable

def getStreamID (msg : JSONRPCMessage) : Except Fault (StreamID × StreamableServerTransport) :=
  if msg.method ≠ "" ∧ msg.id = .nil then .ok (t.lastRequestStream, t)
  else if msg.method ≠ "" then do
    let k ← hash msg.id
    match t.serverRequestStreams k with
    | some sid => .ok (sid, t)
    | none =>
      let sid := t.lastRequestStream
      .ok (sid, { t with serverRequestStreams := update t.serverRequestStreams k (some sid) })
  else do
    let k ← hash msg.id
    match t.clientRequestStreams k with
    | some sid => .ok (sid, t)
    | none => .ok (1, t)

-- The `append` to `t.outgoingMessages[sid]`. A slice cannot grow past the largest `int`.
def store (sid : StreamID) (msg : JSONRPCMessage) : Except Fault StreamableServerTransport :=
  let msgIndex := (t.messages sid).length
  if (msgIndex : Int) < maxInt then
    .ok { t with
      outgoingMessages := update t.outgoingMessages sid
        (some (t.messages sid ++ [⟨msg, formatEventID sid msgIndex⟩])) }
  else .error .sliceTooLong

def signal (sid : StreamID) : StreamableServerTransport :=
  { t with
    signalled :=
      match t.signals sid with
      | some ch => update t.signalled ch true
      | none => t.signalled }

def releaseClientRequest (id : Any) : Except Fault StreamableServerTransport := do
  let k ← hash id
  match t.clientRequestStreams k with
  | none => .ok t
  | some sid =>
    .ok { t with
      clientRequestStreams := update t.clientRequestStreams k none
      serverRequestStreams := fun srvID =>
        if t.serverRequestStreams srvID = some sid then none else t.serverRequestStreams srvID
      lastRequestStream := if t.lastRequestStream = sid then 0 else t.lastRequestStream }

def complete (msg : JSONRPCMessage) : Except Fault StreamableServerTransport :=
  if msg.method = "" ∧ msg.id ≠ .nil then t.releaseClientRequest msg.id else .ok t

def write (msg : JSONRPCMessage) : Except Fault StreamableServerTransport :=
  if t.isDone then .error (.closed "streamable write")
  else do
    let (sid, t) ← t.getStreamID msg
    let t ← t.store sid msg
    (t.signal sid).complete msg

def correlate (msg : JSONRPCMessage) (sid : StreamID) : Except Fault StreamableServerTransport :=
  if msg.id ≠ .nil ∧ msg.method ≠ "" then do
    let k ← hash msg.id
    .ok { t with
      clientRequestStreams := update t.clientRequestStreams k (some sid)
      lastRequestStream := sid }
  else if msg.id ≠ .nil ∧ msg.method = "" then do
    let k ← hash msg.id
    .ok { t with serverRequestStreams := update t.serverRequestStreams k none }
  else .ok t

def incomingCap : Nat := 100

inductive ReceiveCase where
  | ctxDone
  | done
  | incoming

inductive ReceiveError where
  | ctx
  | closed (op : String)

def offer (msg : JSONRPCMessage) :
    ReceiveCase → Option (StreamableServerTransport × Option ReceiveError)
  | .ctxDone => some (t, some .ctx)
  | .done => if t.isDone then some (t, some (.closed "streamable receive")) else none
  | .incoming =>
    if t.incoming.length < incomingCap then
      some ({ t with incoming := t.incoming ++ [msg] }, none)
    else none

inductive Received where
  | returned (t : StreamableServerTransport) (err : Option ReceiveError)
  | blocked (t : StreamableServerTransport)
  | panicked (t : StreamableServerTransport)

def receive (msg : JSONRPCMessage) (sid : StreamID) (ready : ReceiveCase) : Received :=
  match t.correlate msg sid with
  | .error _ => .panicked { t with mu := .locked }
  | .ok t =>
    match t.offer msg ready with
    | some (t, err) => .returned t err
    | none => .blocked t

def close : StreamableServerTransport := { t with isDone := true }

inductive Op where
  | allocate
  | correlate (msg : JSONRPCMessage) (sid : StreamID)
  | enqueue (msg : JSONRPCMessage)
  | write (msg : JSONRPCMessage)
  | read
  | close
  | register (sid : StreamID)
  | take (ch : ChanID)
  | delete (sid : StreamID)
  | deleteOwn (sid : StreamID) (ch : ChanID)
  | leakRead
  | leak

def perform : Op → Option StreamableServerTransport
  | .allocate =>
    -- A session sees fewer than 2^63 POSTs, so the counter does not wrap.
    if t.nextStreamID < maxInt then some { t with nextStreamID := t.nextStreamID + 1 } else none
  | .correlate msg sid =>
    -- A message without an id does not take the mutex.
    if t.mu = .free ∨ msg.id = .nil then
      match t.correlate msg sid with
      | .ok t => some t
      | .error _ => some { t with mu := .locked }
    else none
  | .enqueue msg =>
    if t.incoming.length < incomingCap then some { t with incoming := t.incoming ++ [msg] }
    else none
  | .write msg =>
    if t.mu = .free then
      match t.write msg with
      | .ok t => some t
      | .error (.closed _) => some t
      -- A panic in `Write` is not recovered: the process ends.
      | .error _ => none
    else none
  | .read =>
    match t.incoming with
    | [] => none
    | _ :: rest => some { t with incoming := rest }
  | .close => if t.mu = .free then some t.close else none
  | .register sid =>
    if t.mu = .free then
      some { t with
        signals := update t.signals sid (some t.signalChans)
        signalChans := t.signalChans + 1
        signalled := update t.signalled t.signalChans false }
    else none
  | .take ch =>
    if t.signalled ch then some { t with signalled := update t.signalled ch false }
    else none
  | .delete sid =>
    if t.mu = .free then some { t with signals := update t.signals sid none } else none
  | .deleteOwn sid ch =>
    if t.mu = .free then
      some (if t.signals sid = some ch then
        { t with signals := update t.signals sid none } else t)
    else none
  | .leakRead => if t.mu = .locked then none else some { t with mu := .rLocked }
  | .leak => if t.mu = .free then some { t with mu := .locked } else none

variable {t} {t' : StreamableServerTransport} {msg : JSONRPCMessage}

variable {α β : Type} {id : Any} {k : Key} {sid : StreamID} {t₁ : StreamableServerTransport} {op : Op}

theorem ok_bind (a : α) (f : α → Except Fault β) : (Except.ok a >>= f) = f a := rfl

theorem error_bind (fault : Fault) (f : α → Except Fault β) : (Except.error fault >>= f) = .error fault := rfl

theorem hash_eq_ok : hash id = .ok k ↔ id.key? = some k := by
  unfold hash
  split <;> simp_all

def append (t : StreamableServerTransport) (sid : StreamID) (msg : JSONRPCMessage) :
    StreamableServerTransport :=
  let entry : StreamableMsg := ⟨msg, formatEventID sid (t.messages sid).length⟩
  let outgoing := update t.outgoingMessages sid (some (t.messages sid ++ [entry]))
  { t with outgoingMessages := outgoing }.signal sid

def released (t : StreamableServerTransport) (k : Key) (sid : StreamID) : StreamableServerTransport :=
  { t with
    clientRequestStreams := update t.clientRequestStreams k none
    serverRequestStreams := fun srvID =>
      if t.serverRequestStreams srvID = some sid then none else t.serverRequestStreams srvID
    lastRequestStream := if t.lastRequestStream = sid then 0 else t.lastRequestStream }

inductive Wrote (t : StreamableServerTransport) (msg : JSONRPCMessage) :
    StreamID → StreamableServerTransport → Prop
  | notification (kind : msg.IsNotification) :
      Wrote t msg t.lastRequestStream (t.append t.lastRequestStream msg)
  | request {k : Key} {sid : StreamID} (kind : msg.IsRequest) (key : msg.id.key? = some k)
      (route : t.serverRequestStreams k = some sid ∨
        t.serverRequestStreams k = none ∧ sid = t.lastRequestStream) :
      Wrote t msg sid
        { t.append sid msg with
          serverRequestStreams := update t.serverRequestStreams k (some sid) }
  | response {k : Key} {sid : StreamID} (kind : msg.IsResponse) (key : msg.id.key? = some k)
      (route : t.clientRequestStreams k = some sid) : Wrote t msg sid ((t.append sid msg).released k sid)
  | unmatched {k : Key} (kind : msg.IsResponse) (key : msg.id.key? = some k)
      (route : t.clientRequestStreams k = none) : Wrote t msg 1 (t.append 1 msg)
  | blank {sid : StreamID} (kind : msg.id = .nil ∧ msg.method = "")
      (route : t.clientRequestStreams .nil = some sid ∨ t.clientRequestStreams .nil = none ∧ sid = 1) :
      Wrote t msg sid (t.append sid msg)

theorem store_eq_ok (stored : t.store sid msg = .ok t') :
    ((t.messages sid).length : Int) < maxInt ∧ t'.signal sid = t.append sid msg := by
  unfold store at stored
  dsimp only at stored
  split_ifs at stored with fits
  cases stored
  exact ⟨fits, rfl⟩

theorem hash_of_key (key : id.key? = some k) : hash id = .ok k :=
  hash_eq_ok.mpr key

theorem getStreamID_notification (kind : msg.IsNotification) : t.getStreamID msg = .ok (t.lastRequestStream, t) := by
  rw [getStreamID, if_pos ⟨kind.2, kind.1⟩]

theorem getStreamID_request (kind : msg.IsRequest) (key : msg.id.key? = some k) :
    t.getStreamID msg = .ok (match t.serverRequestStreams k with
      | some sid => (sid, t)
      | none => (t.lastRequestStream,
          { t with serverRequestStreams :=
              update t.serverRequestStreams k (some t.lastRequestStream) })) := by
  rw [getStreamID, if_neg (fun h => kind.1 h.2), if_pos kind.2, hash_of_key key]
  simp only [bind, Except.bind]
  split <;> simp_all

theorem getStreamID_reply (kind : msg.method = "") (key : msg.id.key? = some k) :
    t.getStreamID msg = .ok ((t.clientRequestStreams k).getD 1, t) := by
  rw [getStreamID, if_neg (fun h => h.1 kind), if_neg (not_not.mpr kind), hash_of_key key]
  simp only [bind, Except.bind]
  split <;> simp_all

theorem getStreamID_unhashable (key : msg.id.key? = none) : t.getStreamID msg = .error .unhashable := by
  have hashed : hash msg.id = .error .unhashable := by simp [hash, key]
  have present : msg.id ≠ .nil := by
    intro absent
    simp [absent, Any.key?] at key
  unfold getStreamID
  rw [if_neg (fun h => present h.2), hashed]
  split_ifs <;> rfl

theorem complete_of_not_response (other : ¬msg.IsResponse) : t.complete msg = .ok t :=
  if_neg fun h => other ⟨h.2, h.1⟩

theorem complete_of_response (kind : msg.IsResponse) (key : msg.id.key? = some k) :
    t.complete msg = .ok (match t.clientRequestStreams k with
      | none => t
      | some sid => t.released k sid) := by
  rw [complete, if_pos ⟨kind.2, kind.1⟩, releaseClientRequest, hash_of_key key]
  simp only [bind, Except.bind]
  split <;> simp_all [released]

theorem wrote_of_reply (method : msg.method = "") (key : msg.id.key? = some k)
    (routed : t.getStreamID msg = .ok (sid, t₁))
    (completed : (t₁.append sid msg).complete msg = .ok t') : t₁ = t ∧ Wrote t msg sid t' := by
  rw [getStreamID_reply method key] at routed
  cases routed
  refine ⟨rfl, ?_⟩
  by_cases id : msg.id = .nil
  · rw [complete_of_not_response fun kind => kind.1 id] at completed
    cases completed
    obtain rfl : Key.nil = k := Option.some.inj ((Any.key?_eq_nil.mpr id).symm.trans key)
    apply Wrote.blank ⟨id, method⟩
    cases t.clientRequestStreams .nil <;> simp
  · rw [complete_of_response ⟨id, method⟩ key] at completed
    change Except.ok (match t.clientRequestStreams k with
      | none => t.append _ msg
      | some sid => (t.append _ msg).released k sid) = _ at completed
    cases route : t.clientRequestStreams k with
    | none =>
      rw [route] at completed
      cases completed
      exact .unmatched ⟨id, method⟩ key route
    | some sid =>
      rw [route] at completed
      cases completed
      exact .response ⟨id, method⟩ key route

theorem wrote_of_call (method : msg.method ≠ "") (key : msg.id.key? = some k)
    (routed : t.getStreamID msg = .ok (sid, t₁))
    (completed : (t₁.append sid msg).complete msg = .ok t') : t₁.messages = t.messages ∧ Wrote t msg sid t' := by
  rw [complete_of_not_response fun kind => method kind.2] at completed
  cases completed
  by_cases id : msg.id = .nil
  · rw [getStreamID_notification ⟨id, method⟩] at routed
    cases routed
    exact ⟨rfl, .notification ⟨id, method⟩⟩
  · rw [getStreamID_request ⟨id, method⟩ key] at routed
    cases route : t.serverRequestStreams k with
    | some sid =>
      rw [route] at routed
      cases routed
      have same := Wrote.request ⟨id, method⟩ key (Or.inl route)
      rw [← route, update_eq_self] at same
      exact ⟨rfl, same⟩
    | none =>
      rw [route] at routed
      cases routed
      exact ⟨rfl, .request ⟨id, method⟩ key (Or.inr ⟨route, rfl⟩)⟩

theorem wrote_of_parts {t₂ : StreamableServerTransport}
    (routed : t.getStreamID msg = .ok (sid, t₁)) (stored : t₁.store sid msg = .ok t₂)
    (completed : (t₂.signal sid).complete msg = .ok t') :
    ((t.messages sid).length : Int) < maxInt ∧ Wrote t msg sid t' := by
  obtain ⟨fits, stored⟩ := store_eq_ok stored
  rw [stored] at completed
  cases key : msg.id.key? with
  | none =>
    rw [getStreamID_unhashable key] at routed
    cases routed
  | some k =>
    by_cases method : msg.method = ""
    · obtain ⟨rfl, wrote⟩ := wrote_of_reply method key routed completed
      exact ⟨fits, wrote⟩
    · obtain ⟨same, wrote⟩ := wrote_of_call method key routed completed
      rw [same] at fits
      exact ⟨fits, wrote⟩

theorem write_eq_ok (written : t.write msg = .ok t') :
    t.isDone = false ∧ ∃ sid, ((t.messages sid).length : Int) < maxInt ∧ Wrote t msg sid t' := by
  unfold write at written
  by_cases closed : t.isDone = true
  · rw [if_pos closed] at written
    cases written
  · rw [if_neg closed] at written
    obtain ⟨⟨sid, t₁⟩, routed, written⟩ := bind_eq_ok.mp written
    obtain ⟨t₂, stored, completed⟩ := bind_eq_ok.mp written
    exact ⟨by simpa using closed, sid, wrote_of_parts routed stored completed⟩

theorem complete_of_key (key : msg.id.key? = some k) : ∃ t', t.complete msg = .ok t' := by
  by_cases kind : msg.IsResponse
  · exact ⟨_, complete_of_response kind key⟩
  · exact ⟨_, complete_of_not_response kind⟩

theorem getStreamID_of_key (key : msg.id.key? = some k) : ∃ sid t', t.getStreamID msg = .ok (sid, t') := by
  by_cases method : msg.method = ""
  · exact ⟨_, _, getStreamID_reply method key⟩
  · by_cases id : msg.id = .nil
    · exact ⟨_, _, getStreamID_notification ⟨id, method⟩⟩
    · exact ⟨_, _, getStreamID_request ⟨id, method⟩ key⟩

theorem store_of_room (msg : JSONRPCMessage)
    (room : ((t.messages sid).length : Int) < maxInt) : ∃ t₁, t.store sid msg = .ok t₁ := by
  simp [store, room]

theorem store_of_full (msg : JSONRPCMessage)
    (full : ¬((t.messages sid).length : Int) < maxInt) : t.store sid msg = .error .sliceTooLong := by
  simp [store, full]

theorem write_eq_closed {op : String} (failed : t.write msg = .error (.closed op)) : t.isDone = true := by
  by_contra alive
  rw [write, if_neg alive] at failed
  cases key : msg.id.key? with
  | none =>
    rw [getStreamID_unhashable key, error_bind] at failed
    cases failed
  | some k =>
    obtain ⟨sid, t₁, routed⟩ := getStreamID_of_key (t := t) key
    rw [routed, ok_bind] at failed
    change (t₁.store sid msg >>= fun t => (t.signal sid).complete msg) = _ at failed
    by_cases room : ((t₁.messages sid).length : Int) < maxInt
    · obtain ⟨t₂, stored⟩ := store_of_room msg room
      obtain ⟨t₃, completed⟩ := complete_of_key (t := t₂.signal sid) key
      rw [stored, ok_bind, completed] at failed
      cases failed
    · rw [store_of_full msg room, error_bind] at failed
      cases failed

inductive Correlated (t : StreamableServerTransport) (msg : JSONRPCMessage) (sid : StreamID) :
    StreamableServerTransport → Prop
  | request {k : Key} (kind : msg.IsRequest) (key : msg.id.key? = some k) :
      Correlated t msg sid
        { t with
          clientRequestStreams := update t.clientRequestStreams k (some sid)
          lastRequestStream := sid }
  | response {k : Key} (kind : msg.IsResponse) (key : msg.id.key? = some k) :
      Correlated t msg sid
        { t with serverRequestStreams := update t.serverRequestStreams k none }
  | notification (kind : msg.id = .nil) : Correlated t msg sid t

theorem correlate_eq_ok (done : t.correlate msg sid = .ok t') : Correlated t msg sid t' := by
  unfold correlate at done
  by_cases id : msg.id = .nil
  · rw [if_neg (fun h => h.1 id), if_neg (fun h => h.1 id)] at done
    cases done
    exact .notification id
  · by_cases method : msg.method = ""
    · rw [if_neg (fun h => h.2 method), if_pos ⟨id, method⟩] at done
      obtain ⟨k, hashed, done⟩ := bind_eq_ok.mp done
      cases done
      exact .response ⟨id, method⟩ (hash_eq_ok.mp hashed)
    · rw [if_pos ⟨id, method⟩] at done
      obtain ⟨k, hashed, done⟩ := bind_eq_ok.mp done
      cases done
      exact .request ⟨id, method⟩ (hash_eq_ok.mp hashed)

theorem correlate_of_key (sid : StreamID) (key : msg.id.key? = some k) : ∃ t', t.correlate msg sid = .ok t' := by
  simp only [correlate, hash_of_key key, bind, Except.bind]
  split_ifs <;> exact ⟨_, rfl⟩

theorem correlate_unhashable (sid : StreamID) (key : msg.id.key? = none) :
    t.correlate msg sid = .error .unhashable := by
  have hashed : hash msg.id = .error .unhashable := by simp [hash, key]
  have present : msg.id ≠ .nil := by
    intro absent
    simp [absent, Any.key?] at key
  simp only [correlate, hashed, bind, Except.bind, ne_eq, present, not_false_eq_true, true_and]
  split_ifs <;> rfl

theorem append_messages (sid : StreamID) : (t.append sid msg).messages = update t.messages sid
      (t.messages sid ++ [⟨msg, formatEventID sid (t.messages sid).length⟩]) := by
  funext s
  by_cases same : s = sid
  · subst same
    simp [append, signal, messages]
  · simp [append, signal, messages, same]

theorem Wrote.append (wrote : Wrote t msg sid t') :
    t'.outgoingMessages = (t.append sid msg).outgoingMessages ∧ t'.signals = t.signals ∧
      t'.signalled = (t.append sid msg).signalled ∧ t'.signalChans = t.signalChans ∧
      t'.nextStreamID = t.nextStreamID ∧ t'.mu = t.mu ∧ t'.isDone = t.isDone := by
  cases wrote <;> exact ⟨rfl, rfl, rfl, rfl, rfl, rfl, rfl⟩

theorem Wrote.messages (wrote : Wrote t msg sid t') : t'.messages = update t.messages sid
      (t.messages sid ++ [⟨msg, formatEventID sid (t.messages sid).length⟩]) := by
  rw [← append_messages]
  funext s
  simp only [StreamableServerTransport.messages, wrote.append.1]

inductive Performed (t : StreamableServerTransport) : Op → StreamableServerTransport → Prop
  | allocate (room : t.nextStreamID < maxInt) :
      Performed t .allocate { t with nextStreamID := t.nextStreamID + 1 }
  | correlate {msg : JSONRPCMessage} {sid : StreamID} {t' : StreamableServerTransport}
      (unlocked : t.mu = .free ∨ msg.id = .nil) (correlated : Correlated t msg sid t') :
      Performed t (.correlate msg sid) t'
  | correlatePanic {msg : JSONRPCMessage} {sid : StreamID} :
      Performed t (.correlate msg sid) { t with mu := .locked }
  | enqueue {msg : JSONRPCMessage} :
      Performed t (.enqueue msg) { t with incoming := t.incoming ++ [msg] }
  | write {msg : JSONRPCMessage} {sid : StreamID} {t' : StreamableServerTransport}
      (unlocked : t.mu = .free) (alive : t.isDone = false)
      (room : ((t.messages sid).length : Int) < maxInt) (wrote : Wrote t msg sid t') :
      Performed t (.write msg) t'
  | writeClosed {msg : JSONRPCMessage} (closed : t.isDone = true) : Performed t (.write msg) t
  | read {rest : List JSONRPCMessage} : Performed t .read { t with incoming := rest }
  | close (unlocked : t.mu = .free) : Performed t .close t.close
  | register {sid : StreamID} (unlocked : t.mu = .free) :
      Performed t (.register sid) { t with
        signals := update t.signals sid (some t.signalChans)
        signalChans := t.signalChans + 1
        signalled := update t.signalled t.signalChans false }
  | take {ch : ChanID} (full : t.signalled ch = true) :
      Performed t (.take ch) { t with signalled := update t.signalled ch false }
  | delete {sid : StreamID} (unlocked : t.mu = .free) :
      Performed t (.delete sid) { t with signals := update t.signals sid none }
  | deleteOwn {sid : StreamID} {ch : ChanID} (unlocked : t.mu = .free)
      (own : t.signals sid = some ch) :
      Performed t (.deleteOwn sid ch) { t with signals := update t.signals sid none }
  | deleteOther {sid : StreamID} {ch : ChanID} (other : t.signals sid ≠ some ch) :
      Performed t (.deleteOwn sid ch) t
  | leakRead (unlocked : t.mu ≠ .locked) : Performed t .leakRead { t with mu := .rLocked }
  | leak (unlocked : t.mu = .free) : Performed t .leak { t with mu := .locked }

theorem performed (step : t.perform op = some t') : Performed t op t' := by
  cases op <;> simp only [perform] at step
  case correlate msg sid =>
    split_ifs at step with unlocked
    split at step
    · next done =>
        cases step
        exact .correlate unlocked (correlate_eq_ok done)
    · cases step
      exact .correlatePanic
  case write msg =>
    split_ifs at step with unlocked
    split at step
    · next written =>
        cases step
        obtain ⟨alive, sid, room, wrote⟩ := write_eq_ok written
        exact .write unlocked alive room wrote
    · next failed =>
        cases step
        exact .writeClosed (write_eq_closed failed)
    · cases step
  case read =>
    split at step
    · cases step
    · cases step
      exact .read
  case deleteOwn sid ch =>
    split_ifs at step with unlocked own
    · cases step
      exact .deleteOwn unlocked own
    · cases step
      exact .deleteOther own
  case leakRead =>
    split_ifs at step with locked
    cases step
    exact .leakRead locked
  case allocate | enqueue | close | register | take | delete | leak =>
    split_ifs at step with enabled
    cases step
    constructor <;> exact enabled

theorem perform_routes (step : t.perform op = some t') :
    (∃ msg sid, op = .correlate msg sid ∧ Correlated t msg sid t') ∨
    (∃ msg sid, op = .write msg ∧ Wrote t msg sid t') ∨ (t'.clientRequestStreams = t.clientRequestStreams ∧
      t'.serverRequestStreams = t.serverRequestStreams ∧ t'.lastRequestStream = t.lastRequestStream ∧
      t'.outgoingMessages = t.outgoingMessages) := by
  cases performed step with
  | correlate _ correlated => exact .inl ⟨_, _, rfl, correlated⟩
  | write _ _ _ wrote => exact .inr (.inl ⟨_, _, rfl, wrote⟩)
  | _ => exact .inr (.inr ⟨rfl, rfl, rfl, rfl⟩)

theorem perform_locked (locked : t.mu = .locked) (step : t.perform op = some t') : t'.mu = .locked := by
  have held : t.mu ≠ .free := by simp [locked]
  cases performed step with
  | correlate unlocked correlated =>
    cases correlated with
    | notification => exact locked
    | request kind | response kind => exact absurd (unlocked.resolve_left held) kind.1
  | correlatePanic | leak => rfl
  | leakRead unlocked => exact absurd locked unlocked
  | allocate | enqueue | writeClosed | read | take | deleteOther => exact locked
  | write unlocked | close unlocked | register unlocked | delete unlocked | deleteOwn unlocked =>
    exact absurd unlocked held

theorem Correlated.frame (correlated : Correlated t msg sid t') :
    t'.mu = t.mu ∧ t'.isDone = t.isDone ∧ t'.incoming = t.incoming ∧
      t'.nextStreamID = t.nextStreamID ∧ t'.signalChans = t.signalChans := by
  cases correlated <;> exact ⟨rfl, rfl, rfl, rfl, rfl⟩

theorem perform_counters (step : t.perform op = some t') :
    t.nextStreamID ≤ t'.nextStreamID ∧ t.signalChans ≤ t'.signalChans := by
  cases performed step with
  | correlate _ correlated =>
    obtain ⟨-, -, -, streams, chans⟩ := correlated.frame
    exact ⟨streams.ge, chans.ge⟩
  | write _ _ _ wrote =>
    obtain ⟨-, -, -, chans, streams, -⟩ := wrote.append
    exact ⟨streams.ge, chans.ge⟩
  | allocate => exact ⟨Int.le_add_one le_rfl, le_rfl⟩
  | register => exact ⟨le_rfl, Nat.le_succ _⟩
  | _ => exact ⟨le_rfl, le_rfl⟩

theorem perform_nextStreamID (other : op ≠ .allocate) (step : t.perform op = some t') :
    t'.nextStreamID = t.nextStreamID := by
  cases performed step with
  | allocate => exact absurd rfl other
  | correlate _ correlated => exact correlated.frame.2.2.2.1
  | write _ _ _ wrote => exact wrote.append.2.2.2.2.1
  | _ => rfl

theorem write_ok_of_reply (alive : t.isDone = false) (kind : msg.method = "") (key : msg.id.key? = some k)
    (room : ((t.messages ((t.clientRequestStreams k).getD 1)).length : Int) < maxInt) : ∃ t', t.write msg = .ok t' := by
  obtain ⟨t₁, stored⟩ := store_of_room msg room
  obtain ⟨t', completed⟩ :=
    complete_of_key (t := t₁.signal ((t.clientRequestStreams k).getD 1)) key
  refine ⟨t', ?_⟩
  rw [write, if_neg (by simp [alive])]
  exact bind_eq_ok.mpr ⟨_, getStreamID_reply kind key, bind_eq_ok.mpr ⟨t₁, stored, completed⟩⟩

end StreamableServerTransport

def transport : Machine StreamableServerTransport StreamableServerTransport.Op where
  start := newStreamableServerTransport
  step := StreamableServerTransport.perform

end Mcp.Streamable
