import Mcp.Lib.Machine
import Mcp.Sse.Events

namespace Mcp.Sse
open Mcp.Lib Bytes

def maxSSELine : Nat := 1 <<< 20

def scanBufferSize : Nat := 64 * 1024

def startsWith (start : String) (line : Bytes) : Bool := (ofString start).isPrefixOf line

inductive DialError where
  | noEndpoint
  | unexpectedEOF
  | expectedData (line : Bytes)
  | invalidURL (endpointPath : Bytes)
  | tooLong

def dialLoop {ρ : Type*} [Source ρ] (parseURL : Bytes → Option Bytes) (s : Scanner ρ) :
    Except DialError (Bytes × Scanner ρ) :=
  match scan : s.scan with
  | .line line t =>
    have := Scanner.length_content_lt scan
    if startsWith "event: endpoint" line then
      match t.scan with
      | .line dataLine u =>
        if startsWith "data: " dataLine then
          let endpointPath := trimSpace (dataLine.drop 6)
          match parseURL endpointPath with
          | some postURL => .ok (postURL, u)
          | none => .error (.invalidURL endpointPath)
        else .error (.expectedData dataLine)
      | .done | .tooLong => .error .unexpectedEOF
    else dialLoop parseURL t
  | .done => .error .noEndpoint
  | .tooLong => .error .tooLong
termination_by s.content.length

def dial {ρ : Type*} [Source ρ] (parseURL : Bytes → Option Bytes) (body : ρ) :
    Except DialError (Bytes × Scanner (Reader ρ)) :=
  dialLoop parseURL (Scanner.new { source := body } scanBufferSize maxSSELine)

structure Adapter where
  lines : List Bytes
  currentEventDataLines : List Bytes := []
  currentEventDataSize : Nat := 0
  failed : Bool := false
  readChan : List Bytes := []
  readBuf : Bytes := []
  received : List Bytes := []
  returned : Bytes := []

inductive Label where
  | line
  | read (n : Nat)

def readChanCap : Nat := 10

namespace Adapter

variable (s : Adapter)

def send (lines : List Bytes) : Adapter :=
  { s with
    lines := lines
    currentEventDataLines := []
    currentEventDataSize := 0
    readChan := s.readChan ++ [s.currentEventDataLines.flatten ++ [newline]] }

-- At a blank line the message waits for room in the channel; at an event line it is dropped if there is none.
def line : Option Adapter :=
  match s.failed, s.lines with
  | false, line :: lines =>
    if line = [] then
      if s.currentEventDataLines = [] then some { s with lines := lines }
      else if s.readChan.length < readChanCap then some (s.send lines)
      else none
    else if startsWith "data:" line then
      let data := trimSpace (line.drop 5)
      if maxSSELine < s.currentEventDataSize + data.length then some { s with failed := true }
      else some { s with
        lines := lines
        currentEventDataLines := s.currentEventDataLines ++ [data]
        currentEventDataSize := s.currentEventDataSize + data.length }
    else if startsWith "event:" line then
      if s.currentEventDataLines = [] then some { s with lines := lines }
      else if s.readChan.length < readChanCap then some (s.send lines)
      else some { s with lines := lines, currentEventDataLines := [], currentEventDataSize := 0 }
    else some { s with lines := lines }
  | _, _ => none

def read (n : Nat) : Option Adapter :=
  if s.readBuf = [] then
    match s.readChan with
    | data :: rest => some { s with
        readChan := rest
        received := s.received ++ [data]
        returned := s.returned ++ data.take n
        readBuf := data.drop n }
    | [] => none
  else some { s with returned := s.returned ++ s.readBuf.take n, readBuf := s.readBuf.drop n }

def step : Label → Option Adapter
  | .line => s.line
  | .read n => s.read n

def Final : Prop := s.lines = [] ∧ s.readChan = [] ∧ s.readBuf = []

end Adapter

def adapter (lines : List Bytes) : Machine Adapter Label where
  start := { lines := lines }
  step := Adapter.step

def loopLines {ρ : Type*} [Source ρ] (sseReader : ρ) : List Bytes :=
  (Scanner.new sseReader scanBufferSize maxSSELine).tokens.1

def Delivers (lines messages : List Bytes) : Prop :=
  (∃ labels s, (adapter lines).run (adapter lines).start labels = some s ∧ s.Final) ∧
  ∀ labels s, (adapter lines).run (adapter lines).start labels = some s → s.Final →
    s.received = messages.map (· ++ [newline]) ∧ s.returned = (messages.map (· ++ [newline])).flatten

def flush (acc : List Bytes) : Option Bytes := if acc = [] then none else some acc.flatten

def handle (acc : List Bytes) (line : Bytes) : Option Bytes × List Bytes :=
  if line = [] then (flush acc, [])
  else if startsWith "data:" line then (none, acc ++ [trimSpace (line.drop 5)])
  else if startsWith "event:" line then (flush acc, [])
  else (none, acc)

def collect (acc : List Bytes) : List Bytes → List Bytes × List Bytes
  | [] => ([], acc)
  | line :: lines =>
    let rest := collect (handle acc line).2 lines
    ((handle acc line).1.toList ++ rest.1, rest.2)

theorem collect_append (acc xs ys : List Bytes) : collect acc (xs ++ ys) =
      ((collect acc xs).1 ++ (collect (collect acc xs).2 ys).1, (collect (collect acc xs).2 ys).2) := by
  induction xs generalizing acc with
  | nil => rfl
  | cons x xs ih => simp [collect, ih]

namespace Adapter

variable {s s' : Adapter}

def sent (s : Adapter) : List Bytes := s.received ++ s.readChan

structure Sized (s : Adapter) : Prop where
  running : s.failed = false
  size : s.currentEventDataSize = s.currentEventDataLines.flatten.length

def Overflows (acc : List Bytes) (line : Bytes) : Prop :=
  startsWith "data:" line ∧ maxSSELine < acc.flatten.length + (trimSpace (line.drop 5)).length

inductive Queued (s : Adapter) (line : Bytes) (s' : Adapter) : Prop
  | kept (room : (handle s.currentEventDataLines line).1.isSome → s.readChan.length < readChanCap)
      (chan : s'.readChan = s.readChan ++ ((handle s.currentEventDataLines line).1.map (· ++ [newline])).toList)
  | dropped (event : startsWith "event:" line) (message : (handle s.currentEventDataLines line).1.isSome)
      (full : ¬ s.readChan.length < readChanCap) (chan : s'.readChan = s.readChan)

structure Handled (s : Adapter) (line : Bytes) (lines : List Bytes) (s' : Adapter) : Prop where
  lines : s'.lines = lines
  acc : s'.currentEventDataLines = (handle s.currentEventDataLines line).2
  received : s'.received = s.received
  readBuf : s'.readBuf = s.readBuf
  returned : s'.returned = s.returned
  sized : s'.Sized
  queued : Queued s line s'

theorem handled_flush {line : Bytes} (sized : s.Sized)
    (flushes : handle s.currentEventDataLines line = (flush s.currentEventDataLines, [])) (lines : List Bytes)
    (room : s.currentEventDataLines ≠ [] → s.readChan.length < readChanCap) :
    Handled s line lines (if s.currentEventDataLines = [] then { s with lines := lines } else s.send lines) := by
  by_cases empty : s.currentEventDataLines = []
  · rw [if_pos empty]
    have nothing : (handle s.currentEventDataLines line).1 = none := by
      rw [flushes]
      exact if_pos empty
    refine ⟨rfl, ?_, rfl, rfl, rfl, ⟨sized.running, sized.size⟩, .kept ?_ ?_⟩
    · rw [flushes]
      exact empty
    · simp [nothing]
    · simp [nothing]
  · rw [if_neg empty]
    refine ⟨rfl, ?_, rfl, rfl, rfl, ⟨sized.running, rfl⟩, .kept (fun _ => room empty) ?_⟩
    · rw [flushes]
      rfl
    · simp [flushes, flush, empty, send]

section Line

variable {line : Bytes} {lines : List Bytes}

theorem line_blank (sized : s.Sized) (here : s.lines = [] :: lines) : (∃ s', s.line = some s' ∧ Handled s [] lines s') ∨
      s.line = none ∧ (handle s.currentEventDataLines []).1.isSome ∧ ¬ s.readChan.length < readChanCap := by
  have flushes : handle s.currentEventDataLines [] = (flush s.currentEventDataLines, []) := by
    simp [handle]
  by_cases empty : s.currentEventDataLines = []
  · have handled := handled_flush sized flushes lines (absurd empty)
    rw [if_pos empty] at handled
    exact .inl ⟨_, by simp [Adapter.line, sized.running, here, empty], handled⟩
  by_cases room : s.readChan.length < readChanCap
  · have handled := handled_flush sized flushes lines (fun _ => room)
    rw [if_neg empty] at handled
    exact .inl ⟨_, by simp [Adapter.line, sized.running, here, empty, room], handled⟩
  · refine .inr ⟨?_, ?_, room⟩
    · simp [Adapter.line, sized.running, here, empty, room]
    · simp [flushes, flush, empty]

theorem line_data (sized : s.Sized) (here : s.lines = line :: lines) (text : line ≠ [])
    (data : startsWith "data:" line) (fits : ¬ Overflows s.currentEventDataLines line) :
    ∃ s', s.line = some s' ∧ Handled s line lines s' := by
  have size : ¬ maxSSELine < s.currentEventDataSize + (trimSpace (line.drop 5)).length := by
    rw [sized.size]
    exact fun large => fits ⟨data, large⟩
  have appends : handle s.currentEventDataLines line =
      (none, s.currentEventDataLines ++ [trimSpace (line.drop 5)]) := by
    simp [handle, text, data]
  have step : s.line = some { s with
      lines := lines
      currentEventDataLines := s.currentEventDataLines ++ [trimSpace (line.drop 5)]
      currentEventDataSize := s.currentEventDataSize + (trimSpace (line.drop 5)).length } := by
    simp only [Adapter.line, sized.running, here, if_neg text, if_pos data, if_neg size]
  refine ⟨_, step, rfl, ?_, rfl, rfl, rfl, ⟨sized.running, ?_⟩, .kept ?_ ?_⟩
  · rw [appends]
  · simp [sized.size]
  · simp [appends]
  · simp [appends]

theorem line_event (sized : s.Sized) (here : s.lines = line :: lines) (text : line ≠ [])
    (other : ¬ startsWith "data:" line) (event : startsWith "event:" line) :
    ∃ s', s.line = some s' ∧ Handled s line lines s' := by
  have flushes : handle s.currentEventDataLines line = (flush s.currentEventDataLines, []) := by
    simp [handle, text, other, event]
  by_cases empty : s.currentEventDataLines = []
  · have handled := handled_flush sized flushes lines (absurd empty)
    rw [if_pos empty] at handled
    exact ⟨_, by simp [Adapter.line, sized.running, here, text, other, event, empty], handled⟩
  by_cases room : s.readChan.length < readChanCap
  · have handled := handled_flush sized flushes lines (fun _ => room)
    rw [if_neg empty] at handled
    exact ⟨_, by simp [Adapter.line, sized.running, here, text, other, event, empty, room], handled⟩
  · have step : s.line = some { s with
        lines := lines, currentEventDataLines := [], currentEventDataSize := 0 } := by
      simp only [Adapter.line, sized.running, here, if_neg text, if_neg other, if_pos event, if_neg empty, if_neg room]
    refine ⟨_, step, rfl, ?_, rfl, rfl, rfl, ⟨sized.running, rfl⟩, .dropped event ?_ room rfl⟩
    · rw [flushes]
    · simp [flushes, flush, empty]

theorem line_other (sized : s.Sized) (here : s.lines = line :: lines) (text : line ≠ [])
    (noData : ¬ startsWith "data:" line) (noEvent : ¬ startsWith "event:" line) :
    ∃ s', s.line = some s' ∧ Handled s line lines s' := by
  have skips : handle s.currentEventDataLines line = (none, s.currentEventDataLines) := by
    simp [handle, text, noData, noEvent]
  have step : s.line = some { s with lines := lines } := by
    simp only [Adapter.line, sized.running, here, if_neg text, if_neg noData, if_neg noEvent]
  refine ⟨_, step, rfl, ?_, rfl, rfl, rfl, ⟨sized.running, sized.size⟩, .kept ?_ ?_⟩
  · rw [skips]
  · simp [skips]
  · simp [skips]

theorem line_cases (sized : s.Sized) (here : s.lines = line :: lines)
    (fits : ¬ Overflows s.currentEventDataLines line) : (∃ s', s.line = some s' ∧ Handled s line lines s') ∨
      s.line = none ∧ line = [] ∧ (handle s.currentEventDataLines line).1.isSome ∧
        ¬ s.readChan.length < readChanCap := by
  by_cases text : line = []
  · subst text
    exact (line_blank sized here).imp_right fun ⟨blocked, message, full⟩ => ⟨blocked, rfl, message, full⟩
  left
  by_cases data : startsWith "data:" line
  · exact line_data sized here text data fits
  by_cases event : startsWith "event:" line
  · exact line_event sized here text data event
  · exact line_other sized here text data event

end Line

end Adapter

/-- No event is too large. -/
def Fits (acc : List Bytes) : List Bytes → Prop
  | [] => True
  | line :: lines => ¬ Adapter.Overflows acc line ∧ Fits (handle acc line).2 lines

def Safe (acc : List Bytes) (count : Nat) : List Bytes → Prop
  | [] => True
  | line :: lines =>
    (startsWith "event:" line → (handle acc line).1.isSome → count < readChanCap) ∧
      Safe (handle acc line).2 (count + (handle acc line).1.toList.length) lines

variable {acc before after : List Bytes} {count : Nat}

theorem Fits.drop (fits : Fits acc (before ++ after)) : Fits (collect acc before).2 after := by
  induction before generalizing acc with
  | nil => exact fits
  | cons line before ih => exact ih fits.2

theorem Safe.drop (safe : Safe acc count (before ++ after)) :
    Safe (collect acc before).2 (count + (collect acc before).1.length) after := by
  induction before generalizing acc count with
  | nil => exact safe
  | cons line before ih =>
    have rest := ih safe.2
    rwa [Nat.add_assoc, ← List.length_append] at rest

theorem not_safe {lines : List Bytes} (late : ¬ Safe acc count lines) :
    ∃ before line after, lines = before ++ line :: after ∧ startsWith "event:" line ∧
      (handle (collect acc before).2 line).1.isSome ∧ ¬ count + (collect acc before).1.length < readChanCap := by
  induction lines generalizing acc count with
  | nil => exact absurd trivial late
  | cons line lines ih =>
    rw [Safe, not_and_or] at late
    obtain here | later := late
    · simp only [Classical.not_imp] at here
      exact ⟨[], line, lines, rfl, here.1, here.2.1, here.2.2⟩
    · obtain ⟨before, next, after, rfl, event, message, many⟩ := ih later
      refine ⟨line :: before, next, after, rfl, event, message, ?_⟩
      rwa [collect, List.length_append, ← Nat.add_assoc]

namespace Adapter

variable {all : List Bytes} {s s' : Adapter}

structure Along (all : List Bytes) (s : Adapter) (before : List Bytes) : Prop where
  lines : all = before ++ s.lines
  acc : s.currentEventDataLines = (collect [] before).2
  sent : s.sent = (collect [] before).1.map (· ++ [newline])
  sized : s.Sized
  bytes : s.received.flatten = s.returned ++ s.readBuf

theorem read_sent {n : Nat} (step : s.read n = some s') :
    s'.sent = s.sent ∧ s'.lines = s.lines ∧ s'.currentEventDataLines = s.currentEventDataLines ∧ (s.Sized → s'.Sized) ∧
      (s.received.flatten = s.returned ++ s.readBuf → s'.received.flatten = s'.returned ++ s'.readBuf) := by
  unfold read at step
  split_ifs at step with empty
  · split at step
    · next data rest chan =>
        cases step
        refine ⟨?_, rfl, rfl, fun sized => ⟨sized.running, sized.size⟩, fun bytes => ?_⟩
        · simp [sent, chan]
        · simp [bytes, empty]
    · cases step
  · cases step
    refine ⟨rfl, rfl, rfl, fun sized => ⟨sized.running, sized.size⟩, fun bytes => ?_⟩
    simp [bytes]

variable {before lines : List Bytes} {line : Bytes}

theorem Along.step {l : Label} (fits : Fits [] all) (safe : Safe [] 0 all)
    (along : Along all s before) (step : (adapter all).step s l = some s') : ∃ before', Along all s' before' := by
  cases l with
  | read n =>
    obtain ⟨sent, lines, acc, sized, bytes⟩ := read_sent step
    exact ⟨before, lines ▸ along.lines, acc.trans along.acc, sent.trans along.sent, sized along.sized,
      bytes along.bytes⟩
  | line =>
    cases here : s.lines with
    | nil =>
      change s.line = some s' at step
      simp [Adapter.line, along.sized.running, here] at step
    | cons line lines =>
      have split : all = before ++ line :: lines := here ▸ along.lines
      rw [split] at fits safe
      have small : ¬ Overflows s.currentEventDataLines line := along.acc ▸ fits.drop.1
      obtain ⟨s'', step', handled⟩ | ⟨blocked, -⟩ := line_cases along.sized here small
      · cases step.symm.trans step'
        refine ⟨before ++ [line], ?_, ?_, ?_, handled.sized, ?_⟩
        · rw [handled.lines, split, List.append_assoc]
          rfl
        · rw [handled.acc, along.acc, collect_append]
          rfl
        · cases handled.queued with
          | kept room chan =>
            rw [Adapter.sent, handled.received, chan, ← List.append_assoc, ← Adapter.sent, along.sent, along.acc,
              collect_append]
            cases message : (handle (collect [] before).2 line).1 <;> simp [collect, message]
          | dropped event message full chan =>
            have few := safe.drop.1 event (along.acc ▸ message)
            have total : s.sent.length = (collect [] before).1.length := by simp [along.sent]
            rw [Adapter.sent, List.length_append] at total
            omega
        · rw [handled.received, handled.returned, handled.readBuf]
          exact along.bytes
      · cases step.symm.trans blocked

structure CaughtUp (s : Adapter) (before after : List Bytes) (s' : Adapter) : Prop where
  lines : s'.lines = after
  acc : s'.currentEventDataLines = (collect s.currentEventDataLines before).2
  sent : s'.sent = s.sent ++ (collect s.currentEventDataLines before).1.map (· ++ [newline])
  chan : s'.readChan.length =
    min readChanCap (s.readChan.length + (collect s.currentEventDataLines before).1.length)
  readBuf : s'.readBuf = []
  sized : s'.Sized

theorem CaughtUp.trans {t u : Adapter} {after : List Bytes}
    (first : CaughtUp s [line] (before ++ after) t) (rest : CaughtUp t before after u) :
    CaughtUp s (line :: before) after u := by
  have acc : t.currentEventDataLines = (handle s.currentEventDataLines line).2 := first.acc
  have both : collect s.currentEventDataLines (line :: before) =
      ((collect s.currentEventDataLines [line]).1 ++ (collect t.currentEventDataLines before).1,
        (collect t.currentEventDataLines before).2) := by
    simp [collect, acc]
  refine ⟨rest.lines, ?_, ?_, ?_, rest.readBuf, rest.sized⟩
  · rw [rest.acc, both]
  · simp [rest.sent, first.sent, both]
  · rw [rest.chan, first.chan, both, List.length_append]
    omega

theorem read_one {msg : Bytes} {rest : List Bytes} (empty : s.readBuf = []) (chan : s.readChan = msg :: rest) :
    s.read msg.length = some { s with
      readChan := rest, received := s.received ++ [msg], returned := s.returned ++ msg, readBuf := [] } := by
  simp [read, empty, chan]

theorem caughtUp_line (sized : s.Sized) (here : s.lines = line :: lines)
    (fits : ¬ Overflows s.currentEventDataLines line) (empty : s.readBuf = [])
    (room : s.readChan.length + (handle s.currentEventDataLines line).1.toList.length ≤ readChanCap) :
    ∃ s', s.line = some s' ∧ CaughtUp s [line] lines s' := by
  have free : (handle s.currentEventDataLines line).1.isSome → s.readChan.length < readChanCap := by
    intro message
    obtain ⟨msg, same⟩ := Option.isSome_iff_exists.mp message
    simp only [same, Option.toList_some, List.length_singleton] at room
    omega
  obtain ⟨s', step, handled⟩ | ⟨-, -, message, full⟩ := line_cases sized here fits
  · refine ⟨s', step, ?_⟩
    cases handled.queued with
    | kept _ chan =>
      refine ⟨handled.lines, by simp [handled.acc, collect], ?_, ?_, handled.readBuf.trans empty, handled.sized⟩
      · rw [sent, handled.received, chan]
        cases same : (handle s.currentEventDataLines line).1 <;> simp [sent, collect, same]
      · rw [chan]
        cases same : (handle s.currentEventDataLines line).1 <;> simp [same, collect] at room ⊢ <;> omega
    | dropped event message full => exact absurd (free message) full
  · exact absurd (free message) full

theorem advance (all : List Bytes) (sized : s.Sized) (here : s.lines = line :: lines)
    (fits : ¬ Overflows s.currentEventDataLines line) (empty : s.readBuf = [])
    (bounded : s.readChan.length ≤ readChanCap) :
    ∃ labels s', (adapter all).run s labels = some s' ∧ CaughtUp s [line] lines s' := by
  by_cases room : s.readChan.length + (handle s.currentEventDataLines line).1.toList.length ≤ readChanCap
  · obtain ⟨s', step, caught⟩ := caughtUp_line sized here fits empty room
    exact ⟨[.line], s', Machine.run_cons _ |>.mpr ⟨s', step, rfl⟩, caught⟩
  · have single : (handle s.currentEventDataLines line).1.toList.length ≤ 1 := by
      cases (handle s.currentEventDataLines line).1 <;> simp
    cases chan : s.readChan with
    | nil =>
      simp only [chan, List.length_nil, readChanCap] at room
      omega
    | cons msg rest =>
      rw [chan, List.length_cons] at room bounded
      have first := read_one empty chan
      obtain ⟨s', step, caught⟩ := caughtUp_line
        (s := { s with
          readChan := rest, received := s.received ++ [msg], returned := s.returned ++ msg, readBuf := [] })
        ⟨sized.running, sized.size⟩ here fits rfl (by simp only; omega)
      refine ⟨[.read msg.length, .line], s', ?_, caught.lines, caught.acc, ?_, ?_, caught.readBuf, caught.sized⟩
      · exact Machine.run_cons _ |>.mpr ⟨_, first, Machine.run_cons _ |>.mpr ⟨s', step, rfl⟩⟩
      · rw [caught.sent]
        simp [sent, chan]
      · have length := caught.chan
        simp only [collect, List.append_nil, chan, List.length_cons] at length ⊢
        omega

theorem catch_up (all before after : List Bytes) (sized : s.Sized) (here : s.lines = before ++ after)
    (fits : Fits s.currentEventDataLines (before ++ after)) (empty : s.readBuf = [])
    (bounded : s.readChan.length ≤ readChanCap) :
    ∃ labels s', (adapter all).run s labels = some s' ∧ CaughtUp s before after s' := by
  induction before generalizing s with
  | nil => exact ⟨[], s, rfl, here, rfl, by simp [collect], by simp [collect]; omega, empty, sized⟩
  | cons line before ih =>
    obtain ⟨labels, t, run, first⟩ := advance all sized here fits.1 empty bounded
    have fits' : Fits t.currentEventDataLines (before ++ after) := first.acc ▸ fits.2
    have bounded' : t.readChan.length ≤ readChanCap := by
      rw [first.chan]
      exact Nat.min_le_left ..
    obtain ⟨labels', s', run', rest⟩ := ih first.sized first.lines fits' first.readBuf bounded'
    exact ⟨labels ++ labels', s', Machine.run_append _ |>.mpr ⟨t, run, run'⟩, first.trans rest⟩

theorem drain (all : List Bytes) (read : s.lines = []) (empty : s.readBuf = []) :
    ∃ labels s', (adapter all).run s labels = some s' ∧ s'.Final ∧ s'.received = s.sent := by
  generalize chan : s.readChan = msgs
  induction msgs generalizing s with
  | nil => exact ⟨[], s, rfl, ⟨read, chan, empty⟩, by simp [sent, chan]⟩
  | cons msg msgs ih =>
    obtain ⟨labels, s', run, final, received⟩ := ih
      (s := { s with readChan := msgs, received := s.received ++ [msg], returned := s.returned ++ msg, readBuf := [] })
      read rfl rfl
    refine ⟨.read msg.length :: labels, s', Machine.run_cons _ |>.mpr ⟨_, read_one empty chan, run⟩, final, ?_⟩
    simp [received, sent, chan]

theorem finish (all : List Bytes) (sized : s.Sized) (fits : Fits s.currentEventDataLines s.lines)
    (empty : s.readBuf = [])
    (bounded : s.readChan.length ≤ readChanCap) : ∃ labels s', (adapter all).run s labels = some s' ∧ s'.Final ∧
      s'.received = s.sent ++ (collect s.currentEventDataLines s.lines).1.map (· ++ [newline]) := by
  obtain ⟨labels, t, run, caught⟩ :=
    catch_up all s.lines [] sized (List.append_nil _).symm (by simpa using fits) empty bounded
  obtain ⟨labels', s', run', final, received⟩ := drain all caught.lines caught.readBuf
  exact ⟨labels ++ labels', s', Machine.run_append _ |>.mpr ⟨t, run, run'⟩, final, received.trans caught.sent⟩

end Adapter

variable {all : List Bytes}

theorem sized_start : (adapter all).start.Sized := ⟨rfl, rfl⟩

theorem received_of_safe (fits : Fits [] all) (safe : Safe [] 0 all) {labels : List Label} {s : Adapter}
    (run : (adapter all).run (adapter all).start labels = some s) (final : s.Final) :
    s.received = (collect [] all).1.map (· ++ [newline]) ∧
      s.returned = ((collect [] all).1.map (· ++ [newline])).flatten := by
  have along : ∃ before, Adapter.Along all s before :=
    Machine.run_invariant (P := fun s => ∃ before, Adapter.Along all s before)
      (fun _ _ _ ⟨_, along⟩ step => along.step fits safe step) ⟨[], rfl, rfl, rfl, sized_start, rfl⟩ run
  obtain ⟨before, along⟩ := along
  obtain ⟨read, chan, buffer⟩ := final
  obtain rfl : all = before := by simpa [read] using along.lines
  have received := along.sent
  have returned := along.bytes
  rw [Adapter.sent, chan, List.append_nil] at received
  rw [buffer, List.append_nil] at returned
  exact ⟨received, by rw [← returned, received]⟩

theorem dropped_of_not_safe (fits : Fits [] all) (late : ¬ Safe [] 0 all) :
    ∃ labels s, (adapter all).run (adapter all).start labels = some s ∧ s.Final ∧
      s.received.length < (collect [] all).1.length := by
  obtain ⟨before, line, after, split, event, message, many⟩ := not_safe late
  obtain ⟨labels, s, run, caught⟩ :=
    Adapter.catch_up all before (line :: after) (s := (adapter all).start) sized_start split (split ▸ fits) rfl
      (Nat.zero_le _)
  have acc : s.currentEventDataLines = (collect [] before).2 := caught.acc
  have full : ¬ s.readChan.length < readChanCap := by
    have length : s.readChan.length = min readChanCap (0 + (collect [] before).1.length) := caught.chan
    omega
  obtain ⟨t, step, handled⟩ | ⟨-, rfl, -⟩ :=
    Adapter.line_cases caught.sized caught.lines (acc ▸ (split ▸ fits).drop.1)
  · cases handled.queued with
    | kept room => exact absurd (room (acc ▸ message)) full
    | dropped _ _ _ chan =>
      have fits' : Fits t.currentEventDataLines t.lines := by
        rw [handled.acc, handled.lines, acc]
        rw [split] at fits
        exact fits.drop.2
      have bounded : t.readChan.length ≤ readChanCap := by
        rw [chan, caught.chan]
        exact Nat.min_le_left ..
      obtain ⟨labels', u, run', final, received⟩ :=
        Adapter.finish all handled.sized fits' (handled.readBuf.trans caught.readBuf) bounded
      refine ⟨labels ++ .line :: labels', u, ?_, final, ?_⟩
      · exact Machine.run_append _ |>.mpr ⟨s, run, Machine.run_cons _ |>.mpr ⟨t, step, run'⟩⟩
      · have sent : t.sent.length = (collect [] before).1.length := by
          rw [Adapter.sent, handled.received, chan, ← Adapter.sent, caught.sent]
          simp [adapter, Adapter.sent]
        have here : (handle (collect [] before).2 line).1.toList.length = 1 := by
          obtain ⟨msg, same⟩ := Option.isSome_iff_exists.mp message
          simp [same]
        rw [received, split, collect_append, List.length_append, List.length_append, List.length_map, sent,
          handled.acc, handled.lines, acc, collect, List.length_append, here]
        omega
  · cases event

theorem delivers_iff (fits : Fits [] all) (messages : List Bytes) :
    Delivers all messages ↔ (collect [] all).1 = messages ∧ Safe [] 0 all := by
  have injective {xs ys : List Bytes} (same : xs.map (· ++ [newline]) = ys.map (· ++ [newline])) : xs = ys :=
    List.map_injective_iff.mpr (fun _ _ => List.append_cancel_right) same
  constructor
  · rintro ⟨-, every⟩
    obtain ⟨labels, s, run, final, received⟩ :=
      Adapter.finish all (s := (adapter all).start) sized_start fits rfl (Nat.zero_le _)
    have complete : (collect [] all).1 = messages := injective (received.symm.trans (every labels s run final).1)
    refine ⟨complete, ?_⟩
    by_contra late
    obtain ⟨labels, s, run, final, fewer⟩ := dropped_of_not_safe fits late
    have length : s.received.length = messages.length := by simp [(every labels s run final).1]
    rw [length, complete] at fewer
    exact Nat.lt_irrefl _ fewer
  · rintro ⟨rfl, safe⟩
    refine ⟨?_, fun labels s run final => received_of_safe fits safe run final⟩
    obtain ⟨labels, s, run, final, -⟩ :=
      Adapter.finish all (s := (adapter all).start) sized_start fits rfl (Nat.zero_le _)
    exact ⟨labels, s, run, final⟩

end Mcp.Sse
