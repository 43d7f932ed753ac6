import Mathlib.Data.List.Infix
import Mcp.Lib.Bytes
import Mcp.Lib.Locks

namespace Mcp.WebSocket
open Mcp.Lib Bytes

inductive NetError where
  | closeError (code : Nat)
  | transportClosed
  | eof
  | closedPipe
  | netClosed
  | other (text : String)

inductive Error where
  | closed (op : String)
  | unexpectedMessageType (messageType : Nat)
  | net (err : NetError)

def textMessage : Nat := 1

-- CloseNormalClosure, CloseGoingAway, CloseNoStatusReceived and CloseAbnormalClosure.
def closeCodes : List Nat := [1000, 1001, 1005, 1006]

def closedText : String := "use of closed network connection"

def wrapTransportClosed (op : String) : Option NetError → Option Error
  | none => none
  | some .eof | some .closedPipe | some .netClosed => some (.closed op)
  | some (.other text) =>
    if closedText.toList <:+: text.toList then some (.closed op) else some (.net (.other text))
  | some err => some (.net err)

def wrapWebSocketTransportClosed (op : String) : Option NetError → Option Error
  | some (.closeError code) =>
    if code ∈ closeCodes then some (.closed op) else wrapTransportClosed op (some (.closeError code))
  | err => wrapTransportClosed op err

structure WebSocketConn where
  readBuffer : Bytes := []
  readPos : Nat := 0
  closed : Bool := false
  sent : List Bytes := []

namespace WebSocketConn

def readBuffered (c : WebSocketConn) (size : Nat) : WebSocketConn × Bytes :=
  let data := (c.readBuffer.drop c.readPos).take size
  if c.readBuffer.length ≤ c.readPos + data.length then ({ c with readBuffer := [], readPos := 0 }, data)
  else ({ c with readPos := c.readPos + data.length }, data)

def readMessage (c : WebSocketConn) (size : Nat) (message : Bytes) : WebSocketConn × Bytes :=
  let data := message.take size
  if data.length < message.length then
    ({ c with readBuffer := message.drop data.length, readPos := 0 }, data)
  else (c, data)

end WebSocketConn

inductive ReadPC where
  | lock
  | locked
  | waiting
  | returned (data : Bytes) (err : Option Error)

inductive PC where
  | lock
  | locked
  | returned (err : Option Error)

inductive Call where
  | read (size : Nat) (pc : ReadPC)
  | write (p : Bytes) (pc : PC)
  | close (pc : PC)

inductive Arrival where
  | read (size : Nat)
  | write (p : Bytes)
  | close

inductive Action where
  | proceed
  | received (messageType : Nat) (message : Bytes)
  | failed (err : NetError)

abbrev Moved := Option WebSocketConn × Call × List Call

def actRead (c : WebSocketConn) (size : Nat) : ReadPC → Action → Option Moved
  | .lock, .proceed => some (none, .read size .locked, [])
  | .locked, .proceed =>
    if c.readPos < c.readBuffer.length then
      let (c', data) := c.readBuffered size
      some (some c', .read size (.returned data none), [])
    else some (none, .read size .waiting, [])
  | .waiting, .received messageType message =>
    if messageType ≠ textMessage then
      some (none, .read size (.returned [] (some (.unexpectedMessageType messageType))), [])
    else
      let (c', data) := c.readMessage size message
      some (some c', .read size (.returned data none), [])
  | .waiting, .failed err =>
    some (none, .read size (.returned [] (wrapWebSocketTransportClosed "websocket read" (some err))), [])
  | _, _ => none

def actWrite (c : WebSocketConn) (p : Bytes) : PC → Action → Option Moved
  | .lock, .proceed => some (none, .write p .locked, [])
  | .locked, .proceed =>
    if c.closed then some (none, .write p (.returned (some (.closed "websocket write"))), [])
    else some (some { c with sent := c.sent ++ [p] }, .write p (.returned none), [])
  | .locked, .failed err =>
    if c.closed then none
    else some (none, .write p (.returned (wrapWebSocketTransportClosed "websocket write" (some err))), [])
  | _, _ => none

def actClose (c : WebSocketConn) : PC → Action → Option Moved
  | .lock, .proceed => some (none, .close .locked, [])
  | .locked, .proceed => some (some { c with closed := true }, .close (.returned none), [])
  | .locked, .failed err =>
    some (some { c with closed := true },
      .close (.returned (wrapWebSocketTransportClosed "websocket close" (some err))), [])
  | _, _ => none

namespace Call

def act (c : WebSocketConn) : Call → Action → Option Moved
  | .read size pc, a => actRead c size pc a
  | .write p pc, a => actWrite c p pc a
  | .close pc, a => actClose c pc a

def arrive : Arrival → Call
  | .read size => .read size .lock
  | .write p => .write p .lock
  | .close => .close .lock

-- Nobody reads under `mu`, so the announcement alone keeps everyone else out.
def wants : Call → Option (Unit × Want)
  | .read _ .lock | .write _ .lock | .close .lock => some ((), .announce)
  | _ => none

def holds (x : Call) (_ : Unit) : Hold :=
  match x with
  | .read _ .locked | .read _ .waiting | .write _ .locked | .close .locked => .announced
  | _ => .free

/-- A `Read` in `ReadMessage`. -/
def Waiting : Call → Prop
  | .read _ .waiting => True
  | _ => False

def Returned : Call → Prop
  | .read _ (.returned _ _) | .write _ (.returned _) | .close (.returned _) => True
  | _ => False

def IsRead : Call → Prop
  | .read _ _ => True
  | _ => False

end Call

def calls : Program WebSocketConn WebSocketConn Call Action Arrival Empty Unit where
  start := {}
  perform := fun _ c => c
  wants := Call.wants
  holds := Call.holds
  env := Empty.elim
  spawn := Call.arrive
  act := Call.act

abbrev State := Config WebSocketConn Call

abbrev Event := Label Action Arrival Empty

abbrev conn : Machine State Event := calls.machine

variable {c c' : State} {i j : Nat} {x y : Call}

/-- The call at `j` can return although the one at `i` makes no step. -/
def CompletesWithout (c : State) (i j : Nat) : Prop :=
  ∃ events c' x, conn.run c events = some c' ∧ (∀ l ∈ events, ∀ a, l ≠ .act i a) ∧
    c'.threads[j]? = some x ∧ x.Returned

def FullDuplex (c : State) : Prop :=
  ∀ (i j : Nat) x y, c.threads[i]? = some x → x.Waiting → c.threads[j]? = some y → ¬ y.IsRead → ¬ y.Returned →
    CompletesWithout c i j ∧ ¬ Relation.TransGen (calls.WaitsFor c) j i

inductive Moves (x x' : Call) : Prop
  | took (asked : x.wants = some ((), .announce)) (held : x'.holds () = .announced)
  | kept (same : x.holds () = x'.holds ())
  | released (free : x'.holds () = .free)

variable {s : WebSocketConn} {a : Action} {op : Option WebSocketConn} {new : List Call}

theorem moves_read {size : Nat} {pc : ReadPC} (acted : actRead s size pc a = some (op, y, new)) :
    new = [] ∧ Moves (.read size pc) y := by
  unfold actRead at acted
  split at acted
  · cases acted
    exact ⟨rfl, .took rfl rfl⟩
  · split_ifs at acted
    · cases acted
      exact ⟨rfl, .released rfl⟩
    · cases acted
      exact ⟨rfl, .kept rfl⟩
  · split_ifs at acted
    all_goals
      cases acted
      exact ⟨rfl, .released rfl⟩
  · cases acted
    exact ⟨rfl, .released rfl⟩
  · cases acted

theorem moves_write {p : Bytes} {pc : PC} (acted : actWrite s p pc a = some (op, y, new)) :
    new = [] ∧ Moves (.write p pc) y := by
  unfold actWrite at acted
  split at acted
  · cases acted
    exact ⟨rfl, .took rfl rfl⟩
  · split_ifs at acted
    all_goals
      cases acted
      exact ⟨rfl, .released rfl⟩
  · split_ifs at acted
    cases acted
    exact ⟨rfl, .released rfl⟩
  · cases acted

theorem moves_close {pc : PC} (acted : actClose s pc a = some (op, y, new)) : new = [] ∧ Moves (.close pc) y := by
  unfold actClose at acted
  split at acted
  · cases acted
    exact ⟨rfl, .took rfl rfl⟩
  · cases acted
    exact ⟨rfl, .released rfl⟩
  · cases acted
    exact ⟨rfl, .released rfl⟩
  · cases acted

theorem moves (acted : Call.act s x a = some (op, y, new)) : new = [] ∧ Moves x y := by
  cases x with
  | read size pc => exact moves_read acted
  | write p pc => exact moves_write acted
  | close pc => exact moves_close acted

theorem disciplined : calls.Disciplined where
  spawned b _ := by cases b <;> rfl
  forked acted y member := by
    rw [(moves acted).1] at member
    cases member
  acquired {s x a op x' new} acted m := by
    cases (moves acted).2 with
    | took asked held =>
      have taken : calls.holds x' m = .announced := held
      rw [taken]
      exact .announced _ asked
    | kept same =>
      have unchanged : calls.holds x m = calls.holds x' m := same
      rw [unchanged]
      exact .same _
    | released free =>
      have dropped : calls.holds x' m = .free := free
      rw [dropped]
      exact .released _

theorem wants_of_free (running : ¬ x.Returned) (free : x.holds () = .free) : x.wants = some ((), .announce) := by
  cases x with
  | read size pc =>
    cases pc with
    | lock => rfl
    | locked | waiting => cases free
    | returned data err => exact (running trivial).elim
  | write p pc | close pc =>
    cases pc with
    | lock => rfl
    | locked => cases free
    | returned err => exact (running trivial).elim

theorem Call.Waiting.holds (waiting : x.Waiting) : x.holds () = .announced := by
  cases x with
  | read size pc =>
    cases pc with
    | waiting => rfl
    | lock | locked | returned => exact waiting.elim
  | write | close => exact waiting.elim

theorem free_of_compatible {h : Hold} (compatible : Program.Compatible .announced h) (unread : h ≠ .read) :
    h = .free := by
  cases h with
  | free => rfl
  | read => exact (unread rfl).elim
  | announced | write => exact compatible.elim

theorem Call.holds_ne_read (x : Call) : x.holds () ≠ .read := by
  unfold Call.holds
  split <;> simp

theorem waitsFor_waiting (reachable : conn.Reachable c) (found : c.threads[i]? = some x) (waiting : x.Waiting)
    (found' : c.threads[j]? = some y) (other : j ≠ i) (running : ¬ y.Returned) : calls.WaitsFor c j i := by
  have compatible := Program.exclusive disciplined reachable (Ne.symm other) found found' ()
  change Program.Compatible (x.holds ()) (y.holds ()) at compatible
  rw [waiting.holds] at compatible
  have free : y.holds () = .free := free_of_compatible compatible y.holds_ne_read
  refine ⟨other, y, x, found', found, ?_⟩
  have wants : calls.wants y = some ((), .announce) := wants_of_free running free
  have holds : calls.holds x () = .announced := waiting.holds
  simp [Program.blocks, wants, holds]

theorem stays {events : List Event} (reachable : conn.Reachable c) (found : c.threads[i]? = some x)
    (waiting : x.Waiting) (found' : c.threads[j]? = some y) (other : j ≠ i) (running : ¬ y.Returned)
    (idle : ∀ l ∈ events, ∀ a, l ≠ .act i a) (run : conn.run c events = some c') : c'.threads[j]? = some y := by
  have holds : conn.Reachable c' ∧ c'.threads[i]? = some x ∧ c'.threads[j]? = some y := by
    refine Machine.run_invariant_of_eachStep
      (P := fun c => conn.Reachable c ∧ c.threads[i]? = some x ∧ c.threads[j]? = some y) ?_
      ⟨reachable, found, found'⟩ (Machine.eachStep_of_forall idle c) run
    rintro c l c' ⟨reachable, found, found'⟩ idle step
    refine ⟨reachable.next step, ?_, ?_⟩
    · obtain ⟨x', after, rfl | ⟨a, op, new, acts, -⟩⟩ := Program.thread_stepped step found
      · exact after
      · exact (idle a acts).elim
    · obtain ⟨y', after, rfl | ⟨a, op, new, rfl, -⟩⟩ := Program.thread_stepped step found'
      · exact after
      · cases Program.stepped step with
        | act own unblocked acted =>
          exact (unblocked i (waitsFor_waiting reachable found waiting found' other running)).elim
  exact holds.2.2

theorem Call.Waiting.isRead (waiting : x.Waiting) : x.IsRead := by
  cases x with
  | read => trivial
  | write | close => exact waiting.elim

/-- As long as a `Read` waits for the peer, no `Write` and no `Close` returns. -/
theorem waiting_read_blocks (c : State) (reachable : conn.Reachable c) (i j : Nat) (x y : Call)
    (found : c.threads[i]? = some x) (waiting : x.Waiting) (found' : c.threads[j]? = some y) (kind : ¬ y.IsRead)
    (running : ¬ y.Returned) :
    ¬ CompletesWithout c i j ∧ Relation.TransGen (calls.WaitsFor c) j i := by
  have other : j ≠ i := by
    rintro rfl
    cases found.symm.trans found'
    exact kind waiting.isRead
  constructor
  · rintro ⟨events, c', z, run, idle, after, returned⟩
    have stayed := stays reachable found waiting found' other running idle run
    cases stayed.symm.trans after
    exact running returned
  · exact .single (waitsFor_waiting reachable found waiting found' other running)

def pendingRun : List Event :=
  [.spawn (.read 512), .act 0 .proceed, .act 0 .proceed, .spawn (.write [123, 125]), .spawn .close]

theorem waiting_read_blocks_write : ∃ c, conn.run conn.start pendingRun = some c ∧
    ¬ CompletesWithout c 0 1 ∧ ¬ CompletesWithout c 0 2 := by
  refine ⟨_, rfl, ?_, ?_⟩
  · exact (waiting_read_blocks _ ⟨pendingRun, rfl⟩ 0 1 _ _ rfl trivial rfl id id).1
  · exact (waiting_read_blocks _ ⟨pendingRun, rfl⟩ 0 2 _ _ rfl trivial rfl id id).1

theorem pending_write_not_duplex : ∃ c, conn.run conn.start pendingRun = some c ∧ ¬ FullDuplex c := by
  refine ⟨_, rfl, fun duplex => ?_⟩
  apply (duplex 0 1 _ _ rfl trivial rfl id id).2
  exact .single ⟨by decide, _, _, rfl, rfl, rfl⟩

end Mcp.WebSocket
