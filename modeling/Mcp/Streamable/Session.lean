import Mcp.Lib.Threads
import Mcp.Streamable.Transport

namespace Mcp.Streamable
open Mcp.Lib StreamableServerTransport

inductive WaitCase where
  | ctxDone
  | done
  | signal

-- `proceed` executes the section at the program counter, the others take a case of a `select`.
inductive Action where
  | proceed
  | offer (ready : ReceiveCase)
  | select (ready : WaitCase)

inductive ReaderPC where
  | replay
  | register
  | select
  | drain
  | leave
  | ended
  | panicked
  deriving DecidableEq

structure Reader where
  lastEventID : String
  resumeStreamID : StreamID
  resumeIndex : Int
  signalCh : Option ChanID := none
  pc : ReaderPC := .replay
  written : List StreamableMsg := []

def handleSSEStream (lastEventID : String) : Reader where
  lastEventID := lastEventID
  resumeStreamID := (resumePoint lastEventID).1
  resumeIndex := (resumePoint lastEventID).2

namespace Reader

def flush (t : StreamableServerTransport) (r : Reader) : Option Reader :=
  match t.outgoingMessages r.resumeStreamID with
  | some messages =>
    (Streamable.flush messages r.resumeIndex).map fun out =>
      { r with written := r.written ++ out.1, resumeIndex := out.2 }
  | none => some r

def streamMessages (t : StreamableServerTransport) (r : Reader) : Action → Option (Option Op × Reader)
  | .proceed =>
    match r.pc with
    | .replay =>
      if t.mu = .locked then none
      else match r.flush t with
        | some r => some (none, { r with pc := .register })
        | none => some (some .leakRead, { r with pc := .panicked })
    | .register =>
      match r.flush t with
      | some r =>
        some (some (.register r.resumeStreamID),
          { r with signalCh := some t.signalChans, pc := .select })
      | none => some (some .leak, { r with pc := .panicked })
    | .drain =>
      if t.mu = .locked then none
      else match r.flush t with
        | some r => some (none, { r with pc := .select })
        -- The deferred delete waits for the read lock that this goroutine still holds.
        | none => some (some .leakRead, { r with pc := .panicked })
    | .leave => some (some (.delete r.resumeStreamID), { r with pc := .ended })
    | .select | .ended | .panicked => none
  | .select ready =>
    if r.pc = .select then
      match ready with
      | .ctxDone => some (none, { r with pc := .leave })
      | .done => if t.isDone then some (none, { r with pc := .leave }) else none
      | .signal => r.signalCh.map fun ch => (some (.take ch), { r with pc := .drain })
    else none
  | .offer _ => none

end Reader

inductive PostPC where
  | receive
  | offer
  | accepted
  | refused (err : ReceiveError)
  | register
  | check
  | select
  | unregister (out : Option StreamableMsg)
  | emit (out : StreamableMsg)
  | finished
  | abandoned
  | panicked

structure Post where
  msg : JSONRPCMessage
  sid : StreamID
  next : Nat := 0
  signalCh : Option ChanID := none
  pc : PostPC := .receive
  written : List StreamableMsg := []

namespace Post

def emit (p : Post) (out : StreamableMsg) : Post :=
  { p with
    written := p.written ++ [out]
    pc := match out.message.id.compare p.msg.id with
      | none => .panicked
      | some same => if same ∧ out.message.method = "" then .finished else .register }

def handleMessage (t : StreamableServerTransport) (p : Post) : Action → Option (Option Op × Post)
  | .proceed =>
    match p.pc with
    | .receive =>
      some (some (.correlate p.msg p.sid),
        { p with pc := if p.msg.id.key?.isSome then .offer else .panicked })
    | .register =>
      some (some (.register p.sid), { p with signalCh := some t.signalChans, pc := .check })
    | .check =>
      if t.mu = .locked then none
      else match (t.messages p.sid)[p.next]? with
        | some out => some (none, { p with pc := .unregister (some out) })
        | none => some (none, { p with pc := if t.isDone then .unregister none else .select })
    | .unregister out =>
      p.signalCh.map fun ch =>
        (some (.deleteOwn p.sid ch), match out with
          | some out => { p with next := p.next + 1, pc := .emit out }
          | none => { p with pc := .abandoned })
    | .emit out => some (none, p.emit out)
    | _ => none
  | .offer ready =>
    match p.pc, t.offer p.msg ready with
    | .offer, some (_, none) =>
      some (some (.enqueue p.msg),
        { p with pc := if p.msg.id = .nil ∨ p.msg.method = "" then .accepted else .register })
    | .offer, some (_, some err) => some (none, { p with pc := .refused err })
    | _, _ => none
  | .select ready =>
    match p.pc, ready with
    | .select, .ctxDone => some (none, { p with pc := .unregister none })
    | .select, .done => if t.isDone then some (none, { p with pc := .unregister none }) else none
    | .select, .signal => p.signalCh.map fun ch => (some (.take ch), { p with pc := .check })
    | _, _ => none

end Post

inductive Goroutine where
  | reader (r : Reader)
  | post (p : Post)

inductive Call where
  | write (msg : JSONRPCMessage)
  | read
  | close

inductive Request where
  | get (lastEventID : String)
  | post (msg : JSONRPCMessage)

abbrev Session := Config StreamableServerTransport Goroutine

abbrev Event := Label Action Request Call

namespace Goroutine

def act (t : StreamableServerTransport) : Goroutine → Action → Option (Option Op × Goroutine)
  | .reader r, a => (r.streamMessages t a).map fun moved => (moved.1, .reader moved.2)
  | .post p, a => (p.handleMessage t a).map fun moved => (moved.1, .post moved.2)

def start (t : StreamableServerTransport) : Request → Option Op × Goroutine
  | .get lastEventID => (none, .reader (handleSSEStream lastEventID))
  | .post msg => (some .allocate, .post { msg := msg, sid := t.nextStreamID + 1 })

end Goroutine

def Call.op : Call → Op
  | .write msg => .write msg
  | .read => .read
  | .close => .close

def goroutines : System StreamableServerTransport Op Goroutine Action Request Call where
  start := newStreamableServerTransport
  perform := perform
  env := Call.op
  spawn := Goroutine.start
  act := Goroutine.act

abbrev session : Machine Session Event := goroutines.machine

variable {t t' : StreamableServerTransport}

namespace Reader

variable {r r' : Reader}

def caughtUp (t : StreamableServerTransport) (r : Reader) : Reader :=
  let messages := t.messages r.resumeStreamID
  { r with
    written := r.written ++ messages.drop r.resumeIndex.toNat
    resumeIndex := if r.resumeIndex < 0 then r.resumeIndex else max r.resumeIndex messages.length }

def Overruns (t : StreamableServerTransport) (r : Reader) : Prop :=
  r.resumeIndex < 0 ∧ t.outgoingMessages r.resumeStreamID ≠ none

theorem flush_of_overruns (overruns : r.Overruns t) : r.flush t = none := by
  obtain ⟨messages, found⟩ := Option.ne_none_iff_exists'.mp overruns.2
  rw [flush, found]
  simp only [flush_of_neg messages overruns.1, Option.map_none]

theorem flush_of_not_overruns (bounded : ¬r.Overruns t) : r.flush t = some (r.caughtUp t) := by
  cases found : t.outgoingMessages r.resumeStreamID with
  | none =>
    have empty : t.messages r.resumeStreamID = [] := by rw [messages, found, Option.getD_none]
    have still : (if r.resumeIndex < 0 then r.resumeIndex else max r.resumeIndex 0) = r.resumeIndex := by
      split_ifs with negative
      · rfl
      · exact max_eq_left (not_lt.mp negative)
    simp [flush, found, caughtUp, empty, still]
  | some messages =>
    have low : ¬r.resumeIndex < 0 := fun negative => bounded ⟨negative, by simp [found]⟩
    have buffer : t.messages r.resumeStreamID = messages := by
      rw [StreamableServerTransport.messages, found, Option.getD_some]
    simp [flush, found, caughtUp, buffer, low, flush_of_nonneg messages (not_lt.mp low)]

inductive Streamed (t : StreamableServerTransport) (r : Reader) : Option Op → Reader → Prop
  | replayed (here : r.pc = .replay) (bounded : ¬r.Overruns t) :
      Streamed t r none { r.caughtUp t with pc := .register }
  | registered (here : r.pc = .register) (bounded : ¬r.Overruns t) :
      Streamed t r (some (.register r.resumeStreamID))
        { r.caughtUp t with signalCh := some t.signalChans, pc := .select }
  | drained (here : r.pc = .drain) (bounded : ¬r.Overruns t) :
      Streamed t r none { r.caughtUp t with pc := .select }
  | panicked {op : Op} (overruns : r.Overruns t) (lost : op = .leakRead ∨ op = .leak) :
      Streamed t r (some op) { r with pc := .panicked }
  | stopped (here : r.pc = .select) : Streamed t r none { r with pc := .leave }
  | woken {ch : ChanID} (here : r.pc = .select) (own : r.signalCh = some ch) :
      Streamed t r (some (.take ch)) { r with pc := .drain }
  | left (here : r.pc = .leave) :
      Streamed t r (some (.delete r.resumeStreamID)) { r with pc := .ended }

theorem streamed {a : Action} {op : Option Op} (moved : r.streamMessages t a = some (op, r')) : Streamed t r op r' := by
  cases a with
  | offer ready => cases moved
  | proceed =>
    by_cases bounded : r.Overruns t
    · cases here : r.pc <;> simp only [streamMessages, here, flush_of_overruns bounded, reduceCtorEq] at moved
      case replay | drain =>
        split_ifs at moved
        cases moved
        exact .panicked bounded (.inl rfl)
      case register =>
        cases moved
        exact .panicked bounded (.inr rfl)
      case leave =>
        cases moved
        exact .left here
    · cases here : r.pc <;> simp only [streamMessages, here, flush_of_not_overruns bounded, reduceCtorEq] at moved
      case replay =>
        split_ifs at moved
        cases moved
        exact .replayed here bounded
      case register =>
        cases moved
        exact .registered here bounded
      case drain =>
        split_ifs at moved
        cases moved
        exact .drained here bounded
      case leave =>
        cases moved
        exact .left here
  | select ready =>
    by_cases here : r.pc = .select
    · cases ready with
      | ctxDone =>
        rw [streamMessages, if_pos here] at moved
        cases moved
        exact .stopped here
      | done =>
        rw [streamMessages, if_pos here] at moved
        split_ifs at moved
        cases moved
        exact .stopped here
      | signal =>
        rw [streamMessages, if_pos here] at moved
        obtain ⟨ch, own, moved⟩ := Option.map_eq_some_iff.mp moved
        cases moved
        exact .woken here own
    · simp only [streamMessages, if_neg here] at moved
      cases moved

end Reader

namespace Post

variable {p p' : Post}

inductive Handled (t : StreamableServerTransport) (p : Post) : Option Op → Post → Prop
  | received (here : p.pc = .receive) :
      Handled t p (some (.correlate p.msg p.sid))
        { p with pc := if p.msg.id.key?.isSome then .offer else .panicked }
  | offered (here : p.pc = .offer) :
      Handled t p (some (.enqueue p.msg))
        { p with pc := if p.msg.id = .nil ∨ p.msg.method = "" then .accepted else .register }
  | refused {err : ReceiveError} (here : p.pc = .offer) : Handled t p none { p with pc := .refused err }
  | registered (here : p.pc = .register) :
      Handled t p (some (.register p.sid)) { p with signalCh := some t.signalChans, pc := .check }
  | found {out : StreamableMsg} (here : p.pc = .check)
      (found : (t.messages p.sid)[p.next]? = some out) :
      Handled t p none { p with pc := .unregister (some out) }
  | exhausted (here : p.pc = .check) : Handled t p none { p with pc := .unregister none }
  | blocked (here : p.pc = .check) (seen : (t.messages p.sid).length ≤ p.next) :
      Handled t p none { p with pc := .select }
  | stopped (here : p.pc = .select) : Handled t p none { p with pc := .unregister none }
  | woken {ch : ChanID} (here : p.pc = .select) (own : p.signalCh = some ch) :
      Handled t p (some (.take ch)) { p with pc := .check }
  | returned {ch : ChanID} {out : StreamableMsg} (here : p.pc = .unregister (some out))
      (own : p.signalCh = some ch) :
      Handled t p (some (.deleteOwn p.sid ch)) { p with next := p.next + 1, pc := .emit out }
  | failed {ch : ChanID} (here : p.pc = .unregister none) (own : p.signalCh = some ch) :
      Handled t p (some (.deleteOwn p.sid ch)) { p with pc := .abandoned }
  | emitted {out : StreamableMsg} (here : p.pc = .emit out) : Handled t p none (p.emit out)

theorem handled {a : Action} {op : Option Op} (moved : p.handleMessage t a = some (op, p')) : Handled t p op p' := by
  cases a with
  | proceed =>
    cases here : p.pc <;> simp only [handleMessage, here, reduceCtorEq] at moved
    case receive =>
      cases moved
      exact .received here
    case register =>
      cases moved
      exact .registered here
    case check =>
      cases found : (t.messages p.sid)[p.next]? with
      | some out =>
        simp only [found] at moved
        split_ifs at moved
        cases moved
        exact .found here found
      | none =>
        simp only [found] at moved
        split_ifs at moved
        · cases moved
          exact .exhausted here
        · cases moved
          exact .blocked here (List.getElem?_eq_none_iff.mp found)
    case unregister out =>
      obtain ⟨ch, own, moved⟩ := Option.map_eq_some_iff.mp moved
      cases out with
      | some out =>
        cases moved
        exact .returned here own
      | none =>
        cases moved
        exact .failed here own
    case emit out =>
      cases moved
      exact .emitted here
  | offer ready =>
    simp only [handleMessage] at moved
    split at moved
    · next here _ =>
        cases moved
        exact .offered here
    · next here _ =>
        cases moved
        exact .refused here
    · cases moved
  | select ready =>
    simp only [handleMessage] at moved
    split at moved
    · next here =>
        cases moved
        exact .stopped here
    · next here =>
        split_ifs at moved
        cases moved
        exact .stopped here
    · next here =>
        obtain ⟨ch, own, moved⟩ := Option.map_eq_some_iff.mp moved
        cases moved
        exact .woken here own
    · cases moved

end Post

namespace Goroutine

inductive Acted (t : StreamableServerTransport) : Goroutine → Option Op → Goroutine → Prop
  | reader {r r' : Reader} {op : Option Op} (streamed : r.Streamed t op r') :
      Acted t (.reader r) op (.reader r')
  | post {p p' : Post} {op : Option Op} (handled : p.Handled t op p') : Acted t (.post p) op (.post p')

variable {g g' : Goroutine} {op : Option Op}

theorem acted {a : Action} (moved : goroutines.act t g a = some (op, g')) : Acted t g op g' := by
  cases g with
  | reader r =>
    obtain ⟨⟨op, r'⟩, streaming, same⟩ := Option.map_eq_some_iff.mp moved
    cases same
    exact .reader (Reader.streamed streaming)
  | post p =>
    obtain ⟨⟨op, p'⟩, handling, same⟩ := Option.map_eq_some_iff.mp moved
    cases same
    exact .post (Post.handled handling)

def signalCh : Goroutine → Option ChanID
  | .reader r => r.signalCh
  | .post p => p.signalCh

def postStream : Goroutine → Option StreamID
  | .reader _ => none
  | .post p => some p.sid

theorem Acted.postStream (acted : Acted t g op g') : g'.postStream = g.postStream := by
  cases acted with
  | reader streamed => rfl
  | post handled => cases handled <;> rfl

theorem Acted.signalCh (acted : Acted t g op g') : g'.signalCh = g.signalCh ∨
      g'.signalCh = some t.signalChans ∧ ∃ sid, op = some (.register sid) := by
  cases acted with
  | reader streamed =>
    cases streamed with
    | registered => exact .inr ⟨rfl, _, rfl⟩
    | _ => exact .inl rfl
  | post handled =>
    cases handled with
    | registered => exact .inr ⟨rfl, _, rfl⟩
    | _ => exact .inl rfl

end Goroutine

variable {c : Session}

variable {op : Op} {g : Goroutine} {i : Nat}

theorem effect_performed (performed : goroutines.effect t (some op) = some t') : Performed t op t' :=
  StreamableServerTransport.performed performed

theorem nextStreamID_nonneg (c : Session) (reachable : session.Reachable c) : 0 ≤ c.shared.nextStreamID := by
  refine System.shared_invariant (P := fun t => 0 ≤ t.nextStreamID) le_rfl
    (fun t op t' low step => low.trans (perform_counters step).1) reachable

def Allocated (t : StreamableServerTransport) (g : Goroutine) : Prop :=
  ∀ sid, g.postStream = some sid → 1 ≤ sid ∧ sid ≤ t.nextStreamID

theorem Allocated.step (range : Allocated t g) (step : t.perform op = some t') : Allocated t' g :=
  fun sid owned => ⟨(range sid owned).1, (range sid owned).2.trans (perform_counters step).1⟩

theorem postStream_range {p : Post} (reachable : session.Reachable c)
    (found : c.threads[i]? = some (.post p)) : 1 ≤ p.sid ∧ p.sid ≤ c.shared.nextStreamID := by
  refine System.thread_invariant (I := fun t : StreamableServerTransport => 0 ≤ t.nextStreamID)
    (P := Allocated) nextStreamID_nonneg (fun t request op g t' low started performed => ?_)
    (fun t g a op g' low range moved => ?_)
    (fun t op t' g range step => range.step step) reachable found _ rfl
  · cases request <;> cases started
    · nofun
    · cases effect_performed performed
      rintro _ ⟨⟩
      exact ⟨Int.le_add_of_nonneg_left low, le_rfl⟩
  · rw [Allocated, (Goroutine.acted moved).postStream]
    exact range

theorem postStreams_fresh (reachable : session.Reachable c) :
    System.Fresh (System.names Goroutine.postStream c) (c.shared.nextStreamID + 1) := by
  refine System.freshNames _ (fun t => t.nextStreamID + 1)
    (fun t op t' step => Int.add_le_add_right (perform_counters step).1 1)
    (fun t request op g t' started performed => ?_) (fun t g a op g' t' moved performed => ?_) reachable
  · cases request <;> cases started
    · exact .inl rfl
    · cases effect_performed performed
      exact .inr ⟨rfl, Int.lt_succ _⟩
  · exact .inl (Goroutine.acted moved).postStream

theorem signalChs_fresh (reachable : session.Reachable c) :
    System.Fresh (System.names Goroutine.signalCh c) c.shared.signalChans := by
  refine System.freshNames _ _ (fun t op t' step => (perform_counters step).2)
    (fun t request op g t' started performed => ?_) (fun t g a op g' t' moved performed => ?_) reachable
  · cases request <;> cases started <;> exact .inl rfl
  · refine (Goroutine.acted moved).signalCh.imp_right fun taken => ⟨taken.1, ?_⟩
    obtain ⟨sid, rfl⟩ := taken.2
    cases effect_performed performed
    exact Nat.lt_succ_self _

def Admissible (t : StreamableServerTransport) : Op → Prop
  | .correlate _ sid => 1 ≤ sid ∧ sid ≤ t.nextStreamID
  | _ => True

inductive Affects (t : StreamableServerTransport) (t' : StreamableServerTransport) : Event → Prop
  | write {msg : JSONRPCMessage} (performed : t.perform (.write msg) = some t') :
      Affects t t' (.env (.write msg))
  | other {l : Event} (op : Op) (label : ∀ msg, l ≠ .env (.write msg))
      (notWrite : ∀ msg, op ≠ .write msg) (admissible : Admissible t op)
      (performed : t.perform op = some t') : Affects t t' l
  | idle {l : Event} (label : ∀ msg, l ≠ .env (.write msg)) (same : t' = t) : Affects t t' l

theorem Goroutine.Acted.admissible {g' : Goroutine} (reachable : session.Reachable c)
    (found : c.threads[i]? = some g) (acted : Acted c.shared g (some op) g') :
    (∀ msg, op ≠ .write msg) ∧ Admissible c.shared op := by
  cases acted with
  | reader streamed =>
    cases streamed with
    | panicked _ lost => rcases lost with rfl | rfl <;> exact ⟨nofun, trivial⟩
    | registered | woken | left => exact ⟨nofun, trivial⟩
  | post handled =>
    cases handled with
    | received here => exact ⟨nofun, postStream_range reachable found⟩
    | offered | registered | woken | returned | failed => exact ⟨nofun, trivial⟩

theorem affects {c' : Session} {l : Event} (reachable : session.Reachable c)
    (step : session.step c l = some c') : Affects c.shared c'.shared l := by
  cases System.stepped step with
  | @env call _ performed =>
    cases call with
    | write msg => exact .write performed
    | read => exact .other .read nofun nofun trivial performed
    | close => exact .other .close nofun nofun trivial performed
  | @spawn request op _ _ started performed =>
    cases op with
    | none => exact .idle nofun (Option.some.inj performed).symm
    | some op =>
      cases request <;> cases started
      exact .other .allocate nofun nofun trivial performed
  | @act i a g g' op _ found moved performed =>
    cases op with
    | none => exact .idle nofun (Option.some.inj performed).symm
    | some op =>
      obtain ⟨notWrite, admissible⟩ := (Goroutine.acted moved).admissible reachable found
      exact .other op nofun notWrite admissible performed

theorem transport_invariant {P : StreamableServerTransport → Prop} (initial : P newStreamableServerTransport)
    (kept : ∀ t op t', P t → Admissible t op → t.perform op = some t' → P t') (reachable : session.Reachable c) :
    P c.shared := by
  refine Machine.Reachable.invariant' (P := fun c : Session => P c.shared) initial
    (fun c l c' reachable holds step => ?_) reachable
  cases affects reachable step with
  | write performed => exact kept _ (.write _) _ holds trivial performed
  | other _ _ _ admissible performed => exact kept _ _ _ holds admissible performed
  | idle _ same => exact same ▸ holds

end Mcp.Streamable
