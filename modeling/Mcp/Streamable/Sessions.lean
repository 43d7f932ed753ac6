import Mathlib.Data.List.AList
import Mcp.Lib.Locks

namespace Mcp.Sessions
open Mcp.Lib

-- A session is named by its place in the list of all that were ever made.
abbrev Handle := Nat

structure StreamableServerTransport where
  id : String
  lastActive : Int := 0
  isDone : Bool := false
  cancelled : Bool := false

inductive CloseOnce where
  | unstarted
  | started
  | snapped
  | done
  deriving DecidableEq

structure StreamableHTTPHandler where
  maxSessions : Int
  sessionTimeout : Int
  sessions : AList fun _ : String => Handle := ∅
  transports : List StreamableServerTransport := []
  now : Int := 0
  done : Bool := false
  reaperOnce : Bool := false
  closeOnce : CloseOnce := .unstarted

def newStreamableHTTPHandler (maxSessions sessionTimeout : Int) : StreamableHTTPHandler where
  maxSessions := if maxSessions ≤ 0 then 1000 else maxSessions
  sessionTimeout := if sessionTimeout ≤ 0 then 5 * 60 * 1000000000 else sessionTimeout

inductive Registration where
  | existing (n : Handle)
  | full
  | inserted
  deriving DecidableEq

inductive Op where
  | make (sessionID : String)
  | register (sessionID : String) (n : Handle)
  | cancel (n : Handle)
  | touch (n : Handle)
  | startReaper
  | remove (sessionID : String)
  | close (n : Handle)
  | exit (sessionID : String) (n : Handle)
  | shutdown
  | snapshot
  | closed
  | tick (d : Nat)

def StreamableServerTransport.close (t : StreamableServerTransport) : StreamableServerTransport :=
  if t.isDone then t else { t with isDone := true, cancelled := true }

namespace StreamableHTTPHandler

variable (h : StreamableHTTPHandler)

def modify (n : Handle) (f : StreamableServerTransport → StreamableServerTransport) : StreamableHTTPHandler :=
  { h with transports := h.transports.modify n f }

def touch (n : Handle) : StreamableHTTPHandler := h.modify n fun t => { t with lastActive := h.now }

def cancel (n : Handle) : StreamableHTTPHandler := h.modify n fun t => { t with cancelled := true }

def registration (sessionID : String) : Registration :=
  match h.sessions.lookup sessionID with
  | some n => .existing n
  | none => if h.maxSessions ≤ h.sessions.entries.length then .full else .inserted

def register (sessionID : String) (n : Handle) : StreamableHTTPHandler :=
  match h.registration sessionID with
  | .inserted => { h.touch n with sessions := h.sessions.insert sessionID n }
  | _ => h

def remove (sessionID : String) : StreamableHTTPHandler := { h with sessions := h.sessions.erase sessionID }

def exit (sessionID : String) (n : Handle) : StreamableHTTPHandler :=
  if h.sessions.lookup sessionID = some n then h.remove sessionID else h

def perform : Op → StreamableHTTPHandler
  | .make sessionID => { h with transports := h.transports ++ [{ id := sessionID }] }
  | .register sessionID n => h.register sessionID n
  | .cancel n => h.cancel n
  | .touch n => h.touch n
  | .startReaper => { h with reaperOnce := true }
  | .remove sessionID => h.remove sessionID
  | .close n => h.modify n StreamableServerTransport.close
  | .exit sessionID n => h.exit sessionID n
  | .shutdown => { h with done := true, closeOnce := .started }
  | .snapshot => { h with closeOnce := .snapped }
  | .closed => { h with closeOnce := .done }
  | .tick d => { h with now := h.now + d }

end StreamableHTTPHandler

inductive Mutex where
  | sessionsMu
  | mu (n : Handle)
  deriving DecidableEq

inductive Place where
  | rlock
  | shared
  | lock
  | pending
  | exclusive
  deriving DecidableEq

namespace Place

def next : Place → Place
  | .rlock => .shared
  | .lock => .pending
  | .pending => .exclusive
  | p => p

def inside : Place → Bool
  | .shared | .exclusive => true
  | _ => false

def want : Place → Option Want
  | .rlock => some .read
  | .lock => some .announce
  | .pending => some .enter
  | _ => none

def hold : Place → Hold
  | .rlock | .lock => .free
  | .shared => .read
  | .pending => .announced
  | .exclusive => .write

end Place

inductive Posted where
  | request
  | response
  | notification
  deriving DecidableEq

inductive Method where
  | get
  | post (posted : Posted)
  deriving DecidableEq

structure Request where
  method : Method
  sessionID : String := ""
  randText : String
  hasServer : Bool := true

def Request.name (r : Request) : String := if r.sessionID = "" then r.randText else r.sessionID

-- Only a POST that names a session does not open one.
def Request.opens (r : Request) : Bool := r.method = .get ∨ r.sessionID = ""

inductive Flush where
  | replay
  | subscribe
  | drain

inductive StreamPC where
  | flush (f : Flush) (p : Place)
  | writing (f : Flush) (p : Place)
  | select
  | keepAlive
  | unsubscribe (p : Place)
  | leaked (p : Place)

inductive PostPC where
  | receive (p : Place)
  | offer
  | await (p : Place)
  | check (p : Place)
  | waiting
  | leave (out : Bool) (p : Place)
  | emit
  | leaked (p : Place)

inductive PC where
  | lookup (p : Place)
  | create
  | register (n : Handle) (p : Place)
  | discard (n : Handle) (found : Option Handle)
  | startReaper (n : Handle)
  | goServe (n : Handle)
  | touch (n : Handle)
  | stream (n : Handle) (pc : StreamPC)
  | post (n : Handle) (pc : PostPC)
  | finished (found : Option Handle)

structure Caller where
  request : Request
  pc : PC := .lookup .rlock
  own : Option Handle := none
  since : Option Int := none

inductive DeletePC where
  | enter (p : Place)
  | close (n : Handle) (p : Place)
  | finished

inductive ServePC where
  | running
  | exit (p : Place)
  | ended

inductive ReaperPC where
  | starting
  | waiting (next : Int)
  | collect (next cutoff : Int) (seen idle : List Handle) (p : Place)
  | cancelling (next : Int) (idle : List Handle)
  | stopped

inductive ClosePC where
  | once
  | snapshot (p : Place)
  | cancelling (rest : List Handle)
  | returned

inductive Goroutine where
  | caller (x : Caller)
  | delete (sessionID : String) (pc : DeletePC)
  | call (closes : Bool) (n : Handle) (p : Option Place)
  | serve (sessionID : String) (n : Handle) (pc : ServePC)
  | reaper (pc : ReaperPC)
  | close (pc : ClosePC)

inductive Action where
  | proceed
  | write
  | message
  | leave
  | panic
  | load (n : Handle)
  | call (closes : Bool)

inductive Arrival where
  | request (r : Request)
  | delete (sessionID : String)
  | close

def Flush.enter : Flush → Place
  | .replay | .drain => .rlock
  | .subscribe => .lock

def Flush.next : Flush → StreamPC
  | .replay => .flush .subscribe Flush.subscribe.enter
  | .subscribe | .drain => .select

def StreamPC.act : StreamPC → Action → Option (Option StreamPC)
  | .flush f p, .proceed => some (some (if p.inside then f.next else .flush f p.next))
  | .flush f p, .write => if p.inside then some (some (.writing f p)) else none
  | .flush _ p, .panic => if p.inside then some (some (.leaked p)) else none
  | .writing f p, .proceed => some (some (.flush f p))
  | .select, .write => some (some .keepAlive)
  | .select, .message => some (some (.flush .drain Flush.drain.enter))
  | .select, .leave => some (some (.unsubscribe .lock))
  | .keepAlive, .proceed => some (some .select)
  | .unsubscribe p, .proceed => some (if p.inside then none else some (.unsubscribe p.next))
  | _, _ => none

def StreamPC.place : StreamPC → Option Place
  | .flush _ p | .writing _ p | .unsubscribe p | .leaked p => some p
  | .select | .keepAlive => none

def PostPC.start : Posted → PostPC
  | .request | .response => .receive .lock
  | .notification => .offer

def PostPC.act (isDone : Bool) (posted : Posted) : PostPC → Action → Option (Option PostPC)
  | .receive p, .proceed => some (some (if p.inside then .offer else .receive p.next))
  | .receive p, .panic => if p.inside then some (some (.leaked p)) else none
  | .offer, .proceed => some (if posted = .request then some (.await .lock) else none)
  | .offer, .leave => some none
  | .await p, .proceed => some (some (if p.inside then .check .rlock else .await p.next))
  | .check p, .proceed =>
    some (some (if p.inside then (if isDone then .leave false .lock else .waiting) else .check p.next))
  | .check p, .message => if p.inside then some (some (.leave true .lock)) else none
  | .waiting, .message => some (some (.check .rlock))
  | .waiting, .leave => some (some (.leave false .lock))
  | .leave out p, .proceed =>
    some (if p.inside then (if out then some .emit else none) else some (.leave out p.next))
  | .emit, .proceed => some (some (.await .lock))
  | .emit, .leave => some none
  | _, _ => none

def PostPC.place : PostPC → Option Place
  | .receive p | .await p | .check p | .leave _ p | .leaked p => some p
  | .offer | .waiting | .emit => none

abbrev Moved (τ : Type) := Option (Option Op × τ × List Goroutine)

namespace Caller

def begin (x : Caller) (n : Handle) : PC :=
  match x.request.method with
  | .get => .stream n (.flush .replay Flush.replay.enter)
  | .post posted => .post n (.start posted)

def lookup (h : StreamableHTTPHandler) (x : Caller) : PC :=
  match h.sessions.lookup x.request.name with
  | some n => .touch n
  | none => if x.request.opens then .create else .finished none

def register (h : StreamableHTTPHandler) (x : Caller) (n : Handle) : Caller :=
  match h.registration x.request.name with
  | .existing m => { x with pc := .discard n (some m) }
  | .full => { x with pc := .discard n none }
  | .inserted => { x with pc := .startReaper n, since := some h.now }

def proceed (h : StreamableHTTPHandler) (x : Caller) : Moved Caller :=
  match x.pc with
  | .lookup p =>
    if p.inside then some (none, { x with pc := x.lookup h }, [])
    else some (none, { x with pc := .lookup p.next }, [])
  | .create =>
    if x.request.hasServer then
      let n := h.transports.length
      some (some (.make x.request.name), { x with own := some n, pc := .register n .lock }, [])
    else some (none, { x with pc := .finished none }, [])
  | .register n p =>
    if p.inside then some (some (.register x.request.name n), x.register h n, [])
    else some (none, { x with pc := .register n p.next }, [])
  | .discard n found =>
    some (some (.cancel n), { x with pc := match found with
      | some m => .touch m
      | none => .finished none }, [])
  | .startReaper n =>
    some (some .startReaper, { x with pc := .goServe n }, if h.reaperOnce then [] else [.reaper .starting])
  | .goServe n => some (none, { x with pc := .touch n }, [.serve x.request.name n .running])
  | .touch n => some (some (.touch n), { x with pc := x.begin n, since := some h.now }, [])
  | .stream .. | .post .. | .finished _ => none

def act (h : StreamableHTTPHandler) (x : Caller) (a : Action) : Moved Caller :=
  match x.pc with
  | .stream n pc => (pc.act a).map fun pc =>
    (none, { x with pc := pc.elim (.finished (some n)) (.stream n) }, [])
  | .post n pc =>
    let isDone := (h.transports[n]?.map (·.isDone)).getD false
    match x.request.method with
    | .post posted => (pc.act isDone posted a).map fun pc =>
      (none, { x with pc := pc.elim (.finished (some n)) (.post n) }, [])
    | .get => none
  | _ => match a with
      | .proceed => x.proceed h
      | _ => none

def locks (x : Caller) : List (Mutex × Place) :=
  match x.pc with
  | .lookup p | .register _ p => [(.sessionsMu, p)]
  | .stream n pc => pc.place.toList.map fun p => (.mu n, p)
  | .post n pc => pc.place.toList.map fun p => (.mu n, p)
  | _ => []

end Caller

namespace DeletePC

def act (h : StreamableHTTPHandler) (sessionID : String) : DeletePC → Action → Moved DeletePC
  | .enter p, .proceed =>
    if p = .exclusive then match h.sessions.lookup sessionID with
      | some n => some (some (.remove sessionID), .close n .lock, [])
      | none => some (none, .finished, [])
    else some (none, .enter p.next, [])
  | .close n p, .proceed =>
    if p.inside then some (some (.close n), .finished, []) else some (none, .close n p.next, [])
  | _, _ => none

-- The lock of the handler is held while that of the session is taken.
def locks : DeletePC → List (Mutex × Place)
  | .enter p => [(.sessionsMu, p)]
  | .close n p => [(.sessionsMu, .exclusive), (.mu n, p)]
  | .finished => []

end DeletePC

namespace ServePC

-- Handlers may still use the connection after `Serve` has returned. A panic is recovered by `safeGo`,
-- and the session stays in the table.
def act (sessionID : String) (n : Handle) : ServePC → Action → Moved ServePC
  | pc, .call closes => some (none, pc, [.call closes n (some .lock)])
  | .running, .leave => some (none, .exit .lock, [])
  | .running, .panic => some (none, .ended, [])
  | .exit p, .proceed =>
    if p.inside then some (some (.exit sessionID n), .ended, []) else some (none, .exit p.next, [])
  | _, _ => none

def locks : ServePC → List (Mutex × Place)
  | .exit p => [(.sessionsMu, p)]
  | .running | .ended => []

end ServePC

namespace ReaperPC

-- A tick that is not taken in time is dropped.
def nextTick (h : StreamableHTTPHandler) (next : Int) : Int :=
  next + h.sessionTimeout * ((h.now - next) / h.sessionTimeout + 1)

def act (h : StreamableHTTPHandler) : ReaperPC → Action → Moved ReaperPC
  | .starting, .proceed => some (none, .waiting (h.now + h.sessionTimeout), [])
  | .waiting next, .proceed =>
    if next ≤ h.now then
      some (none, .collect (nextTick h next) (h.now - h.sessionTimeout) [] [] .rlock, [])
    else none
  | .waiting _, .leave => if h.done then some (none, .stopped, []) else none
  | .collect next cutoff seen idle p, .proceed =>
    if p.inside then
      if ∀ entry ∈ h.sessions.entries, entry.2 ∈ seen then some (none, .cancelling next idle, []) else none
    else some (none, .collect next cutoff seen idle p.next, [])
  | .collect next cutoff seen idle p, .load n =>
    match h.transports[n]? with
    | some t =>
      if p.inside ∧ n ∉ seen ∧ ∃ entry ∈ h.sessions.entries, entry.2 = n then
        some (none, .collect next cutoff (n :: seen)
          (if t.lastActive < cutoff then idle ++ [n] else idle) p, [])
      else none
    | none => none
  | .cancelling next [], .proceed => some (none, .waiting next, [])
  | .cancelling next (n :: idle), .proceed => some (some (.cancel n), .cancelling next idle, [])
  | _, _ => none

def locks : ReaperPC → List (Mutex × Place)
  | .collect _ _ _ _ p => [(.sessionsMu, p)]
  | _ => []

end ReaperPC

namespace ClosePC

def act (h : StreamableHTTPHandler) : ClosePC → Action → Moved ClosePC
  | .once, .proceed => match h.closeOnce with
      | .unstarted => some (some .shutdown, .snapshot .rlock, [])
      | .started | .snapped => none
      | .done => some (none, .returned, [])
  | .snapshot p, .proceed =>
    if p.inside then some (some .snapshot, .cancelling (h.sessions.entries.map Sigma.snd), [])
    else some (none, .snapshot p.next, [])
  | .cancelling [], .proceed => some (some .closed, .returned, [])
  | .cancelling (n :: rest), .proceed => some (some (.cancel n), .cancelling rest, [])
  | _, _ => none

def locks : ClosePC → List (Mutex × Place)
  | .snapshot p => [(.sessionsMu, p)]
  | _ => []

end ClosePC

namespace Goroutine

def callAct (closes : Bool) (n : Handle) : Option Place → Action → Moved (Option Place)
  | some p, .proceed =>
    if p.inside then some (if closes then some (.close n) else none, none, [])
    else some (none, some p.next, [])
  | _, _ => none

def act (h : StreamableHTTPHandler) : Goroutine → Action → Moved Goroutine
  | .caller x, a => (x.act h a).map fun moved => (moved.1, .caller moved.2.1, moved.2.2)
  | .delete sessionID pc, a =>
    (pc.act h sessionID a).map fun moved => (moved.1, .delete sessionID moved.2.1, moved.2.2)
  | .call closes n p, a => (callAct closes n p a).map fun moved => (moved.1, .call closes n moved.2.1, moved.2.2)
  | .serve sessionID n pc, a =>
    (pc.act sessionID n a).map fun moved => (moved.1, .serve sessionID n moved.2.1, moved.2.2)
  | .reaper pc, a => (pc.act h a).map fun moved => (moved.1, .reaper moved.2.1, moved.2.2)
  | .close pc, a => (pc.act h a).map fun moved => (moved.1, .close moved.2.1, moved.2.2)

def locks : Goroutine → List (Mutex × Place)
  | .caller x => x.locks
  | .delete _ pc => pc.locks
  | .call _ n p => p.toList.map fun p => (.mu n, p)
  | .serve _ _ pc => pc.locks
  | .reaper pc => pc.locks
  | .close pc => pc.locks

def wants (g : Goroutine) : Option (Mutex × Want) :=
  g.locks.findSome? fun lock => lock.2.want.map fun want => (lock.1, want)

def holds (g : Goroutine) (m : Mutex) : Hold := (g.locks.lookup m).elim .free Place.hold

end Goroutine

def Arrival.start : Arrival → Goroutine
  | .request r => .caller { request := r }
  | .delete sessionID => .delete sessionID (if sessionID = "" then .finished else .enter .lock)
  | .close => .close .once

abbrev State := Config StreamableHTTPHandler Goroutine

abbrev Event := Label Action Arrival Nat

def goroutines (maxSessions sessionTimeout : Int) :
    Program StreamableHTTPHandler Op Goroutine Action Arrival Nat Mutex where
  start := newStreamableHTTPHandler maxSessions sessionTimeout
  perform := StreamableHTTPHandler.perform
  wants := Goroutine.wants
  holds := Goroutine.holds
  env := Op.tick
  spawn := Arrival.start
  act := Goroutine.act

abbrev handler (maxSessions sessionTimeout : Int) : Machine State Event :=
  (goroutines maxSessions sessionTimeout).machine

def StreamableHTTPHandler.effect (h : StreamableHTTPHandler) : Option Op → StreamableHTTPHandler
  | none => h
  | some op => h.perform op

variable {maxSessions sessionTimeout : Int} {h : StreamableHTTPHandler} {x x' : Caller} {op : Option Op}
  {new : List Goroutine} {a : Action} {g g' : Goroutine} {c c' : State} {l : Event} {i : Nat}

theorem effect_goroutines (h : StreamableHTTPHandler) (op : Option Op) :
    (goroutines maxSessions sessionTimeout).effect h op = h.effect op := by
  cases op <;> rfl

def PC.found : PC → Option Handle
  | .lookup _ | .create | .register _ _ => none
  | .discard _ found | .finished found => found
  | .startReaper n | .goServe n | .touch n | .stream n _ | .post n _ => some n

inductive Called (h : StreamableHTTPHandler) (x : Caller) : Action → Option Op → Caller → List Goroutine → Prop
  | lookingUp {p : Place} (here : x.pc = .lookup p) (outside : p.inside = false) :
      Called h x .proceed none { x with pc := .lookup p.next } []
  | found {p : Place} {n : Handle} (here : x.pc = .lookup p) (inside : p.inside = true)
      (present : h.sessions.lookup x.request.name = some n) :
      Called h x .proceed none { x with pc := .touch n } []
  | missing {p : Place} (here : x.pc = .lookup p) (inside : p.inside = true)
      (absent : h.sessions.lookup x.request.name = none) :
      Called h x .proceed none { x with pc := if x.request.opens then .create else .finished none } []
  | noServer (here : x.pc = .create) : Called h x .proceed none { x with pc := .finished none } []
  | made (here : x.pc = .create) :
      Called h x .proceed (some (.make x.request.name))
        { x with own := some h.transports.length, pc := .register h.transports.length .lock } []
  | registering {n : Handle} {p : Place} (here : x.pc = .register n p) (outside : p.inside = false) :
      Called h x .proceed none { x with pc := .register n p.next } []
  | registered {n : Handle} {p : Place} (here : x.pc = .register n p) (inside : p.inside = true) :
      Called h x .proceed (some (.register x.request.name n)) (x.register h n) []
  | discarded {n : Handle} {found : Option Handle} (here : x.pc = .discard n found) :
      Called h x .proceed (some (.cancel n)) { x with pc := found.elim (.finished none) .touch } []
  | reaperStarted {n : Handle} {new : List Goroutine} (here : x.pc = .startReaper n)
      (forked : new = [] ∨ new = [.reaper .starting]) :
      Called h x .proceed (some .startReaper) { x with pc := .goServe n } new
  | serving {n : Handle} (here : x.pc = .goServe n) :
      Called h x .proceed none { x with pc := .touch n } [.serve x.request.name n .running]
  | touched {n : Handle} (here : x.pc = .touch n) :
      Called h x .proceed (some (.touch n)) { x with pc := x.begin n, since := some h.now } []
  | streamed {n : Handle} {pc : StreamPC} {pc' : Option StreamPC} {a : Action} (here : x.pc = .stream n pc)
      (acted : pc.act a = some pc') :
      Called h x a none { x with pc := pc'.elim (.finished (some n)) (.stream n) } []
  | posted {n : Handle} {pc : PostPC} {pc' : Option PostPC} {a : Action} {isDone : Bool} {posted : Posted}
      (here : x.pc = .post n pc) (acted : pc.act isDone posted a = some pc') :
      Called h x a none { x with pc := pc'.elim (.finished (some n)) (.post n) } []

@[simp] theorem Caller.register_own (h : StreamableHTTPHandler) (x : Caller) (n : Handle) :
    (x.register h n).own = x.own := by
  unfold Caller.register
  split <;> rfl

@[simp] theorem Caller.register_request (h : StreamableHTTPHandler) (x : Caller) (n : Handle) :
    (x.register h n).request = x.request := by
  unfold Caller.register
  split <;> rfl

theorem Caller.proceeded (acted : x.proceed h = some (op, x', new)) : Called h x .proceed op x' new := by
  cases here : x.pc <;> simp only [proceed, here, reduceCtorEq] at acted
  case lookup p =>
    split_ifs at acted with inside
    · cases acted
      cases found : h.sessions.lookup x.request.name with
      | none =>
        simp only [lookup, found]
        exact .missing here inside found
      | some n =>
        simp only [lookup, found]
        exact .found here inside found
    · cases acted
      exact .lookingUp here (by simpa using inside)
  case create =>
    split_ifs at acted
    · cases acted
      exact .made here
    · cases acted
      exact .noServer here
  case register n p =>
    split_ifs at acted with inside
    · cases acted
      exact .registered here inside
    · cases acted
      exact .registering here (by simpa using inside)
  case discard n found =>
    cases found <;> cases acted <;> exact .discarded here
  case startReaper n =>
    cases acted
    apply Called.reaperStarted here
    cases h.reaperOnce with
    | true => exact .inl rfl
    | false => exact .inr rfl
  case goServe n =>
    cases acted
    exact .serving here
  case touch n =>
    cases acted
    exact .touched here

theorem Caller.called (acted : x.act h a = some (op, x', new)) : Called h x a op x' new := by
  unfold act at acted
  split at acted
  case h_1 n pc here =>
    obtain ⟨pc', moved, same⟩ := Option.map_eq_some_iff.mp acted
    cases same
    exact .streamed here moved
  case h_2 n pc here =>
    split at acted
    · obtain ⟨pc', moved, same⟩ := Option.map_eq_some_iff.mp acted
      cases same
      exact .posted here moved
    · cases acted
  case h_3 =>
    cases a with
    | proceed => exact proceeded acted
    | _ => cases acted

inductive Acted (h : StreamableHTTPHandler) : Goroutine → Action → Option Op → Goroutine → List Goroutine → Prop
  | caller {x x' : Caller} {a : Action} {op : Option Op} {new : List Goroutine} (called : Called h x a op x' new) :
      Acted h (.caller x) a op (.caller x') new
  | deleteLocking {sessionID : String} {p : Place} (outside : p ≠ .exclusive) :
      Acted h (.delete sessionID (.enter p)) .proceed none (.delete sessionID (.enter p.next)) []
  | deleteAbsent {sessionID : String} (absent : h.sessions.lookup sessionID = none) :
      Acted h (.delete sessionID (.enter .exclusive)) .proceed none (.delete sessionID .finished) []
  | deleteFound {sessionID : String} {n : Handle} (present : h.sessions.lookup sessionID = some n) :
      Acted h (.delete sessionID (.enter .exclusive)) .proceed (some (.remove sessionID))
        (.delete sessionID (.close n .lock)) []
  | closeLocking {sessionID : String} {n : Handle} {p : Place} (outside : p.inside = false) :
      Acted h (.delete sessionID (.close n p)) .proceed none (.delete sessionID (.close n p.next)) []
  | closeDone {sessionID : String} {n : Handle} {p : Place} (inside : p.inside = true) :
      Acted h (.delete sessionID (.close n p)) .proceed (some (.close n)) (.delete sessionID .finished) []
  | callLocking {closes : Bool} {n : Handle} {p : Place} (outside : p.inside = false) :
      Acted h (.call closes n (some p)) .proceed none (.call closes n (some p.next)) []
  | written {n : Handle} {p : Place} (inside : p.inside = true) :
      Acted h (.call false n (some p)) .proceed none (.call false n none) []
  | callClosed {n : Handle} {p : Place} (inside : p.inside = true) :
      Acted h (.call true n (some p)) .proceed (some (.close n)) (.call true n none) []
  | called {sessionID : String} {n : Handle} {pc : ServePC} {closes : Bool} :
      Acted h (.serve sessionID n pc) (.call closes) none (.serve sessionID n pc) [.call closes n (some .lock)]
  | serveReturned {sessionID : String} {n : Handle} :
      Acted h (.serve sessionID n .running) .leave none (.serve sessionID n (.exit .lock)) []
  | servePanicked {sessionID : String} {n : Handle} :
      Acted h (.serve sessionID n .running) .panic none (.serve sessionID n .ended) []
  | exitLocking {sessionID : String} {n : Handle} {p : Place} (outside : p.inside = false) :
      Acted h (.serve sessionID n (.exit p)) .proceed none (.serve sessionID n (.exit p.next)) []
  | exited {sessionID : String} {n : Handle} {p : Place} (inside : p.inside = true) :
      Acted h (.serve sessionID n (.exit p)) .proceed (some (.exit sessionID n)) (.serve sessionID n .ended) []
  | reaperReady : Acted h (.reaper .starting) .proceed none (.reaper (.waiting (h.now + h.sessionTimeout))) []
  | reaperStopped {next : Int} (closed : h.done = true) :
      Acted h (.reaper (.waiting next)) .leave none (.reaper .stopped) []
  | reapBegun {next : Int} (due : next ≤ h.now) :
      Acted h (.reaper (.waiting next)) .proceed none
        (.reaper (.collect (ReaperPC.nextTick h next) (h.now - h.sessionTimeout) [] [] .rlock)) []
  | collectLocking {next cutoff : Int} {seen idle : List Handle} {p : Place} (outside : p.inside = false) :
      Acted h (.reaper (.collect next cutoff seen idle p)) .proceed none
        (.reaper (.collect next cutoff seen idle p.next)) []
  | loaded {next cutoff : Int} {seen idle : List Handle} {p : Place} {n : Handle} {t : StreamableServerTransport}
      (made : h.transports[n]? = some t) (inside : p.inside = true) (unseen : n ∉ seen)
      (registered : ∃ entry ∈ h.sessions.entries, entry.2 = n) :
      Acted h (.reaper (.collect next cutoff seen idle p)) (.load n) none
        (.reaper (.collect next cutoff (n :: seen) (if t.lastActive < cutoff then idle ++ [n] else idle) p)) []
  | collected {next cutoff : Int} {seen idle : List Handle} {p : Place} (inside : p.inside = true)
      (all : ∀ entry ∈ h.sessions.entries, entry.2 ∈ seen) :
      Acted h (.reaper (.collect next cutoff seen idle p)) .proceed none (.reaper (.cancelling next idle)) []
  | reaped {next : Int} {n : Handle} {idle : List Handle} :
      Acted h (.reaper (.cancelling next (n :: idle))) .proceed (some (.cancel n))
        (.reaper (.cancelling next idle)) []
  | reapDone {next : Int} : Acted h (.reaper (.cancelling next [])) .proceed none (.reaper (.waiting next)) []
  | closing (first : h.closeOnce = .unstarted) :
      Acted h (.close .once) .proceed (some .shutdown) (.close (.snapshot .rlock)) []
  | closedBefore (closed : h.closeOnce = .done) : Acted h (.close .once) .proceed none (.close .returned) []
  | snapshotLocking {p : Place} (outside : p.inside = false) :
      Acted h (.close (.snapshot p)) .proceed none (.close (.snapshot p.next)) []
  | snapped {p : Place} (inside : p.inside = true) :
      Acted h (.close (.snapshot p)) .proceed (some .snapshot)
        (.close (.cancelling (h.sessions.entries.map Sigma.snd))) []
  | cancelled {n : Handle} {rest : List Handle} :
      Acted h (.close (.cancelling (n :: rest))) .proceed (some (.cancel n)) (.close (.cancelling rest)) []
  | closed : Acted h (.close (.cancelling [])) .proceed (some .closed) (.close .returned) []

namespace Goroutine

variable {h : StreamableHTTPHandler} {a : Action} {op : Option Op} {new : List Goroutine}

variable {sessionID : String} {n : Handle}

theorem delete_acted {pc pc' : DeletePC} (acted : pc.act h sessionID a = some (op, pc', new)) :
    Acted h (.delete sessionID pc) a op (.delete sessionID pc') new := by
  unfold DeletePC.act at acted
  split at acted
  case h_1 p =>
    split_ifs at acted with inside
    · subst inside
      split at acted
      · cases acted
        exact .deleteFound ‹_›
      · cases acted
        exact .deleteAbsent ‹_›
    · cases acted
      exact .deleteLocking inside
  case h_2 n p =>
    split_ifs at acted with inside
    · cases acted
      exact .closeDone inside
    · cases acted
      exact .closeLocking (by simpa using inside)
  case h_3 => cases acted

theorem call_acted {closes : Bool} {p p' : Option Place}
    (acted : callAct closes n p a = some (op, p', new)) : Acted h (.call closes n p) a op (.call closes n p') new := by
  unfold callAct at acted
  split at acted
  case h_1 p =>
    by_cases inside : p.inside = true
    · rw [if_pos inside] at acted
      cases closes with
      | false =>
        cases acted
        exact .written inside
      | true =>
        cases acted
        exact .callClosed inside
    · rw [if_neg inside] at acted
      cases acted
      exact .callLocking (by simpa using inside)
  case h_2 => cases acted

theorem serve_acted {pc pc' : ServePC} (acted : pc.act sessionID n a = some (op, pc', new)) :
    Acted h (.serve sessionID n pc) a op (.serve sessionID n pc') new := by
  unfold ServePC.act at acted
  split at acted
  case h_1 =>
    cases acted
    exact .called
  case h_2 =>
    cases acted
    exact .serveReturned
  case h_3 =>
    cases acted
    exact .servePanicked
  case h_4 p =>
    split_ifs at acted with inside
    · cases acted
      exact .exited inside
    · cases acted
      exact .exitLocking (by simpa using inside)
  case h_5 => cases acted

theorem reaper_acted {pc pc' : ReaperPC} (acted : pc.act h a = some (op, pc', new)) :
    Acted h (.reaper pc) a op (.reaper pc') new := by
  unfold ReaperPC.act at acted
  split at acted
  case h_1 =>
    cases acted
    exact .reaperReady
  case h_2 next =>
    split_ifs at acted with due
    cases acted
    exact .reapBegun due
  case h_3 next =>
    split_ifs at acted with closed
    cases acted
    exact .reaperStopped closed
  case h_4 next cutoff seen idle p =>
    split_ifs at acted with inside all
    · cases acted
      exact .collected inside all
    · cases acted
      exact .collectLocking (by simpa using inside)
  case h_5 next cutoff seen idle p n =>
    cases made : h.transports[n]? with
    | none =>
      rw [made] at acted
      cases acted
    | some t =>
      simp only [made, Option.ite_none_right_eq_some] at acted
      obtain ⟨⟨inside, unseen, registered⟩, same⟩ := acted
      cases same
      exact .loaded made inside unseen registered
  case h_6 next =>
    cases acted
    exact .reapDone
  case h_7 next n idle =>
    cases acted
    exact .reaped
  case h_8 => cases acted

theorem close_acted {pc pc' : ClosePC} (acted : pc.act h a = some (op, pc', new)) :
    Acted h (.close pc) a op (.close pc') new := by
  unfold ClosePC.act at acted
  split at acted
  case h_1 =>
    split at acted
    · cases acted
      exact .closing ‹_›
    · cases acted
    · cases acted
    · cases acted
      exact .closedBefore ‹_›
  case h_2 p =>
    split_ifs at acted with inside
    · cases acted
      exact .snapped inside
    · cases acted
      exact .snapshotLocking (by simpa using inside)
  case h_3 =>
    cases acted
    exact .closed
  case h_4 n rest =>
    cases acted
    exact .cancelled
  case h_5 => cases acted

theorem acted {g g' : Goroutine} (acted : g.act h a = some (op, g', new)) : Acted h g a op g' new := by
  cases g <;> obtain ⟨moved, own, ⟨⟩⟩ := Option.map_eq_some_iff.mp acted
  case caller x => exact .caller (Caller.called own)
  case delete sessionID pc => exact delete_acted own
  case call closes n p => exact call_acted own
  case serve sessionID n pc => exact serve_acted own
  case reaper pc => exact reaper_acted own
  case close pc => exact close_acted own

end Goroutine

theorem Called.request_eq (called : Called h x a op x' new) : x'.request = x.request := by
  cases called with
  | registered here => exact x.register_request h _
  | _ => rfl

theorem Called.forked (called : Called h x a op x' new) (member : g ∈ new) :
    g = .reaper .starting ∨ ∃ sessionID n, g = .serve sessionID n .running := by
  cases called with
  | reaperStarted here forked =>
    obtain rfl | rfl := forked
    · cases member
    · exact .inl (List.mem_singleton.mp member)
  | serving here => exact .inr ⟨_, _, List.mem_singleton.mp member⟩
  | _ => cases member

theorem Acted.forked (acted : Acted h g a op g' new) {f : Goroutine} (member : f ∈ new) :
    f = .reaper .starting ∨ (∃ sessionID n, f = .serve sessionID n .running) ∨
      ∃ closes n, f = .call closes n (some .lock) := by
  cases acted with
  | caller called =>
    obtain start | start := called.forked member
    · exact .inl start
    · exact .inr (.inl start)
  | called => exact .inr (.inr ⟨_, _, List.mem_singleton.mp member⟩)
  | _ => cases member

theorem Acted.forked_caller (acted : Acted h g a op g' new) (x : Caller) : .caller x ∉ new := by
  intro member
  obtain start | ⟨_, _, start⟩ | ⟨_, _, start⟩ := acted.forked member
  · cases start
  · cases start
  · cases start

theorem shared_stepped
    (step : (handler maxSessions sessionTimeout).step c l = some c') : ∃ op, c'.shared = c.shared.effect op := by
  cases Program.stepped step with
  | env d => exact ⟨some (.tick d), rfl⟩
  | spawn b => exact ⟨none, rfl⟩
  | act own unblocked acted => exact ⟨_, effect_goroutines _ _⟩

theorem caller_stepped {j : Nat} {y : Caller}
    (step : (handler maxSessions sessionTimeout).step c l = some c') (found : c'.threads[j]? = some (.caller y)) :
    c.threads[j]? = some (.caller y) ∨ (∃ r, y = { request := r } ∧ c'.shared = c.shared) ∨
      ∃ a x op new, l = .act j a ∧ c.threads[j]? = some (.caller x) ∧ Called c.shared x a op y new ∧
        c'.shared = c.shared.effect op := by
  cases Program.stepped step with
  | env d => exact .inl found
  | spawn b =>
    obtain ⟨-, start⟩ | ⟨-, stayed⟩ := System.getElem?_concat_cases found
    · cases b with
      | request r =>
        cases start
        exact .inr (.inl ⟨r, rfl, rfl⟩)
      | delete | close => cases start
    · exact .inl stayed
  | @act i a g g' op new own unblocked acted =>
    have moved := Goroutine.acted acted
    obtain ⟨rfl, rfl⟩ | ⟨-, stayed⟩ | member := Program.getElem?_forked_cases found
    · cases moved with
      | caller called => exact .inr (.inr ⟨a, _, op, new, rfl, own, called, effect_goroutines _ op⟩)
    · exact .inl stayed
    · exact absurd member (moved.forked_caller y)

theorem caller_acted (step : (handler maxSessions sessionTimeout).step c (.act i a) = some c')
    (found : c.threads[i]? = some (.caller x)) :
    ∃ op y new, Called c.shared x a op y new ∧ c'.shared = c.shared.effect op := by
  cases Program.stepped step with
  | @act _ _ g g' op new own unblocked acted =>
    obtain rfl := Option.some.inj (own.symm.trans found)
    have moved : Acted c.shared (.caller x) a op g' new := Goroutine.acted acted
    cases moved with
    | caller called => exact ⟨op, _, new, called, effect_goroutines _ op⟩

theorem caller_invariant {I : StreamableHTTPHandler → Prop} {P : StreamableHTTPHandler → Caller → Prop}
    (always : ∀ c, (handler maxSessions sessionTimeout).Reachable c → I c.shared)
    (spawned : ∀ h r, I h → P h { request := r })
    (acts : ∀ h x a op x' new, I h → P h x → Called h x a op x' new → P (h.effect op) x')
    (stable : ∀ h op x, I h → P h x → P (h.perform op) x) (reachable : (handler maxSessions sessionTimeout).Reachable c)
    (found : c.threads[i]? = some (.caller x)) : P c.shared x := by
  refine Program.thread_invariant (P := fun h g => ∀ x, g = Goroutine.caller x → P h x) always ?_ ?_
    (fun h op g sound holds x same => stable h op x sound (holds x same)) reachable found x rfl
  · intro h b sound x start
    cases b with
    | request r =>
      cases start
      exact spawned h r sound
    | delete | close => cases start
  · intro h g a op g' new sound holds acted
    have step := Goroutine.acted acted
    rw [effect_goroutines]
    constructor
    · rintro x rfl
      cases step with
      | caller called => exact acts h _ _ _ _ _ sound (holds _ rfl) called
    · rintro y member x rfl
      exact absurd member (step.forked_caller x)

end Mcp.Sessions
