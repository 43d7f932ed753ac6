import Mcp.Lib.Portions
import Mcp.WebSocket

namespace Mcp.WebSocket
open Mcp.Lib Bytes

namespace WebSocketConn

-- `none`: waits in `ReadMessage`
def read (c : WebSocketConn) (size : Nat) (messages : List Bytes) :
    Option (WebSocketConn × Bytes × List Bytes) :=
  if c.readPos < c.readBuffer.length then
    let (c', data) := c.readBuffered size
    some (c', data, messages)
  else
    match messages with
    | [] => none
    | message :: rest =>
      let (c', data) := c.readMessage size message
      some (c', data, rest)

def reads (c : WebSocketConn) (messages : List Bytes) : List Nat → List Bytes
  | [] => []
  | size :: sizes =>
    match c.read size messages with
    | none => []
    | some (c', data, rest) => data :: reads c' rest sizes

def ahead (c : WebSocketConn) (messages : List Bytes) : List Bytes :=
  if c.readPos < c.readBuffer.length then c.readBuffer.drop c.readPos :: messages else messages

variable {c c' : WebSocketConn} {size : Nat} {message data : Bytes} {messages rest : List Bytes}

theorem read_buffered (buffered : c.readPos < c.readBuffer.length) (size : Nat) (messages : List Bytes) :
    c.read size messages = some ((c.readBuffered size).1, (c.readBuffered size).2, messages) := if_pos buffered

theorem read_message (empty : ¬ c.readPos < c.readBuffer.length) (size : Nat) (message : Bytes) (rest : List Bytes) :
    c.read size (message :: rest) = some ((c.readMessage size message).1, (c.readMessage size message).2, rest) :=
  if_neg empty

theorem read_waits (empty : ¬ c.readPos < c.readBuffer.length) (size : Nat) : c.read size [] = none := if_neg empty

theorem ahead_readBuffered (buffered : c.readPos < c.readBuffer.length) : Portions.read size (c.ahead messages) =
      some ((c.readBuffered size).2, (c.readBuffered size).1.ahead messages) := by
  simp only [ahead, if_pos buffered, Portions.read, readBuffered, List.length_take, List.length_drop]
  by_cases more : size < c.readBuffer.length - c.readPos
  · have inside : c.readPos + size < c.readBuffer.length := by omega
    simp [more, Nat.min_eq_left (Nat.le_of_lt more), inside, Nat.not_le.mpr inside, List.drop_drop]
  · have all : c.readBuffer.length ≤ c.readPos + (c.readBuffer.length - c.readPos) := by omega
    simp [more, Nat.min_eq_right (Nat.not_lt.mp more), all]

theorem ahead_readMessage (empty : ¬ c.readPos < c.readBuffer.length) : Portions.read size (c.ahead (message :: rest)) =
      some ((c.readMessage size message).2, (c.readMessage size message).1.ahead rest) := by
  simp only [ahead, if_neg empty, Portions.read, readMessage, List.length_take]
  by_cases more : size < message.length
  · simp [more, Nat.min_eq_left (Nat.le_of_lt more), Nat.sub_pos_of_lt more]
  · simp [more, empty, Nat.min_eq_right (Nat.not_lt.mp more)]

theorem ahead_read (c : WebSocketConn) (size : Nat) (messages : List Bytes) : Portions.read size (c.ahead messages) =
      (c.read size messages).map fun next => (next.2.1, next.1.ahead next.2.2) := by
  by_cases buffered : c.readPos < c.readBuffer.length
  · rw [read_buffered buffered]
    exact ahead_readBuffered buffered
  · cases messages with
    | nil => simp [ahead, buffered, Portions.read, read_waits]
    | cons message rest =>
      rw [read_message buffered]
      exact ahead_readMessage buffered

theorem reads_eq (c : WebSocketConn) (messages : List Bytes) (sizes : List Nat) :
    c.reads messages sizes = Portions.reads sizes (c.ahead messages) := by
  induction sizes generalizing c messages with
  | nil => rfl
  | cons size sizes ih =>
    have next := ahead_read c size messages
    cases called : c.read size messages with
    | none =>
      rw [called] at next
      rw [reads, called, Portions.reads_cons_none next]
    | some result =>
      rw [called] at next
      rw [reads, called, Portions.reads_cons_some next, ← ih]

end WebSocketConn

variable {ts : List Call} {s s' : WebSocketConn} {x y : Call} {a : Action} {size : Nat} {data : Bytes}
  {messages rest : List Bytes}

theorem step_alone (idle : ∀ t ∈ ts, t.holds () = .free) {op : Option WebSocketConn}
    (acted : Call.act s x a = some (op, y, [])) :
    conn.step ⟨s, ts ++ [x]⟩ (.act ts.length a) = some ⟨op.getD s, ts ++ [y]⟩ := by
  have unblocked : calls.blocked ⟨s, ts ++ [x]⟩ ts.length x = false := by
    simp only [Program.blocked, List.eraseIdx_append_of_length_le (Nat.le_refl _), Nat.sub_self,
      List.eraseIdx_cons_zero, List.append_nil, List.any_eq_false]
    intro t member
    have free : calls.holds t () = .free := idle t member
    unfold Program.blocks
    split <;> simp [free]
  have effect : calls.effect s op = op.getD s := by cases op <;> rfl
  have act : calls.act s x a = some (op, y, []) := acted
  simp [conn, Program.machine, Program.step, unblocked, act, effect]

def messageOf : Event → Option Bytes
  | .act _ (.received _ message) => some message
  | _ => none

theorem read_runs (idle : ∀ t ∈ ts, t.holds () = .free) (called : s.read size messages = some (s', data, rest)) :
    ∃ events, conn.run ⟨s, ts⟩ events = some ⟨s', ts ++ [.read size (.returned data none)]⟩ ∧
      messages = events.filterMap messageOf ++ rest := by
  have spawn : conn.step ⟨s, ts⟩ (.spawn (.read size)) = some ⟨s, ts ++ [.read size .lock]⟩ := rfl
  have lock := step_alone (s := s) (x := .read size .lock) (a := .proceed) idle rfl
  by_cases buffered : s.readPos < s.readBuffer.length
  · rw [WebSocketConn.read_buffered buffered] at called
    obtain ⟨rfl, rfl, rfl⟩ := by simpa only [Option.some.injEq, Prod.mk.injEq] using called
    have acted : Call.act s (.read size .locked) .proceed =
        some (some (s.readBuffered size).1, .read size (.returned (s.readBuffered size).2 none), []) := by
      simp [Call.act, actRead, buffered]
    refine ⟨[.spawn (.read size), .act ts.length .proceed, .act ts.length .proceed], ?_, rfl⟩
    simp [Machine.run, spawn, lock, step_alone idle acted]
  · cases messages with
    | nil =>
      rw [WebSocketConn.read_waits buffered] at called
      cases called
    | cons message later =>
      rw [WebSocketConn.read_message buffered] at called
      obtain ⟨rfl, rfl, rfl⟩ := by simpa only [Option.some.injEq, Prod.mk.injEq] using called
      have waits : Call.act s (.read size .locked) .proceed = some (none, .read size .waiting, []) := by
        simp [Call.act, actRead, buffered]
      have acted : Call.act s (.read size .waiting) (.received textMessage message) =
          some (some (s.readMessage size message).1,
            .read size (.returned (s.readMessage size message).2 none), []) := rfl
      refine ⟨[.spawn (.read size), .act ts.length .proceed, .act ts.length .proceed,
        .act ts.length (.received textMessage message)], ?_, rfl⟩
      simp [Machine.run, spawn, lock, step_alone idle waits, step_alone idle acted]

/-- The calls return a prefix of the messages, none returns bytes of two messages, and they return all
bytes once there are as many calls as bytes, an empty message counted as one. -/
theorem reads_reassemble (messages : List Bytes) (sizes : List Nat) (positive : ∀ size ∈ sizes, 1 ≤ size) :
    (WebSocketConn.reads {} messages sizes).flatten <+: messages.flatten ∧
    (∀ before chunk after, WebSocketConn.reads {} messages sizes = before ++ chunk :: after →
      ∃ earlier message later front back, messages = earlier ++ message :: later ∧
        message = front ++ chunk ++ back ∧ before.flatten = earlier.flatten ++ front) ∧
    ((messages.map fun message => max 1 message.length).sum ≤ sizes.length →
      (WebSocketConn.reads {} messages sizes).flatten = messages.flatten) := by
  have calls : WebSocketConn.reads {} messages sizes = Portions.reads sizes messages :=
    WebSocketConn.reads_eq {} messages sizes
  rw [calls]
  refine ⟨?_, fun before chunk after parts => Portions.reads_inside sizes messages parts, ?_⟩
  · obtain ⟨left, same⟩ := Portions.reads_prefix sizes messages
    exact ⟨left, same.symm⟩
  · intro enough
    exact Portions.reads_complete positive enough

theorem reads_reassemble_three :
    (WebSocketConn.reads {} [[1, 2, 3], [], [4]] [2, 5, 1, 1, 1]).flatten = [1, 2, 3, 4] :=
  (reads_reassemble [[1, 2, 3], [], [4]] [2, 5, 1, 1, 1] (by decide)).2.2 (by decide)

end Mcp.WebSocket
