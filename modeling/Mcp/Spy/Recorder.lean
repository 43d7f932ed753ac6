import Mcp.Lib.Broadcast
import Mcp.Lib.JsonSyntax
import Mcp.Lib.Strconv

namespace Mcp.Spy
open Mcp.Lib Bytes JsonSyntax Broadcast

def defaultBufferSize : Nat := 4096

structure Options where
  prettyJSON : Bool := false
  passThrough : Bool := false
  bufferSize : Int := 0

-- Times are nanoseconds since 1970.
structure Event where
  seq : UInt64 := 0
  time : Int := 0
  direction : Bytes := []
  raw : Bytes := []
  formatted : Bytes := []
  parsed : Bytes := []
  source : Bytes := []
deriving DecidableEq

structure Recorder where
  seq : UInt64 := 0
  buf : List Event
  bufCap : Nat
  bufStart : Nat := 0
  bufLen : Nat := 0

def newRecorder (opts : Options) : Recorder :=
  let size := if opts.bufferSize ≤ 0 then defaultBufferSize else opts.bufferSize.toNat
  { buf := List.replicate size {}, bufCap := size }

section Format

variable (indent : Bytes → Option Bytes)

def formatJSON (raw : Bytes) (pretty : Bool) : Bytes :=
  if !pretty || !Valid raw then raw else (indent raw).getD raw

def unix (now : Int) : Int := now / 10 ^ 9

def unixMilli (now : Int) : Int := unix now * 1000 + now % 10 ^ 9 / 10 ^ 6

def padZero (width : Nat) (digits : List Char) : List Char :=
  List.replicate (width - digits.length) '0' ++ digits

-- The verb %03d: the sign counts for the width.
def formatMillis : Int → List Char
  | .ofNat n => padZero 3 (Nat.toDigits 10 n)
  | .negSucc n => '-' :: padZero 2 (Nat.toDigits 10 (n + 1))

def formatEntry (dir raw : Bytes) (now : Int) (opts : Options) : Bytes × Bytes :=
  let trimmed := trimSpace raw
  if trimmed = [] then ([], [])
  else
    let formatted := formatJSON indent trimmed opts.prettyJSON
    let parsed := if Valid trimmed then trimmed else []
    if opts.passThrough then (formatted, parsed)
    else
      (ofString "mcp-" ++ dir ++ ofString " " ++ formatted ++ ofString " # " ++
        ofString (String.ofList (formatInt (unix now))) ++ ofString "." ++
        ofString (String.ofList (formatMillis ((unixMilli now).tmod 1000))), parsed)

structure Capture where
  dir : Bytes
  raw : Bytes
  source : Bytes
  now : Int

def newEvent (opts : Options) (x : Capture) : Event :=
  let entry := formatEntry indent x.dir x.raw x.now opts
  { time := x.now, direction := x.dir, raw := trimSpace x.raw, formatted := entry.1, parsed := entry.2,
    source := x.source }

def Recorder.publishLocked (r : Recorder) (ev : Event) : Recorder × Event :=
  let r := { r with seq := r.seq + 1 }
  let ev := { ev with seq := r.seq }
  if r.bufLen < r.bufCap then
    ({ r with buf := r.buf.set ((r.bufStart + r.bufLen) % r.bufCap) ev, bufLen := r.bufLen + 1 }, ev)
  else ({ r with buf := r.buf.set r.bufStart ev, bufStart := (r.bufStart + 1) % r.bufCap }, ev)

def Recorder.hub (opts : Options) : Hub Recorder Capture Event where
  capacity := 128
  start := newRecorder opts
  locked r x :=
    let (r, ev) := r.publishLocked (newEvent indent opts x)
    (r, some ev)

end Format

structure RpcMessage where
  id : Bytes := []
  method : Bytes := []
  params : Bytes := []
  result : Bytes := []
  error : Bytes := []

-- The maps of the document and the file it is kept in do not matter to the subscribers. Whether the file
-- could be written is part of the input.
structure SpecTracker (δ ω : Type) where
  start : δ
  unmarshal : Bytes → Option RpcMessage
  observeRequestLocked : δ → RpcMessage → δ × Bool
  observeResponseLocked : δ → RpcMessage → δ × Bool
  persistLocked : δ → Bool → δ × Bool
  snapshotLocked : δ → ω

namespace SpecTracker

variable {δ ω : Type} (tracker : SpecTracker δ ω)

def observeMessage (s : δ) (msg : RpcMessage) : δ × Bool :=
  if msg.method ≠ [] then tracker.observeRequestLocked s msg
  else if 0 < msg.id.length then tracker.observeResponseLocked s msg
  else (s, false)

def observeLocked (s : δ) (ev : Event) (writable : Bool) : δ × Option ω :=
  if ev.parsed.length = 0 then (s, none)
  else match tracker.unmarshal ev.parsed with
    | none => (s, none)
    | some msg =>
      match tracker.observeMessage s msg with
      | (s, false) => (s, none)
      | (s, true) =>
        match tracker.persistLocked s writable with
        | (s, false) => (s, none)
        | (s, true) => (s, some (tracker.snapshotLocked s))

def hub : Hub δ (Event × Bool) ω where
  capacity := 16
  start := tracker.start
  locked s input := tracker.observeLocked s input.1 input.2

end SpecTracker

section Subscribers

variable (indent : Bytes → Option Bytes) (opts : Options)

abbrev Recorder.broadcast : Machine (State Recorder Capture Event) (Broadcast.Label Capture) :=
  (Recorder.hub indent opts).machine

abbrev SpecTracker.broadcast {δ ω : Type} (tracker : SpecTracker δ ω) :
    Machine (State δ (Event × Bool) ω) (Broadcast.Label (Event × Bool)) :=
  tracker.hub.machine

theorem broadcast_never_crashes :
    (∀ labels s, (Recorder.broadcast indent opts).EachStep (fun s l => quiet s l = true)
        (Recorder.broadcast indent opts).start labels →
      (Recorder.broadcast indent opts).run (Recorder.broadcast indent opts).start labels = some s →
        s.crashed = false) ∧
    ∀ {δ ω : Type} (tracker : SpecTracker δ ω) labels s,
      tracker.broadcast.EachStep (fun s l => quiet s l = true) tracker.broadcast.start labels →
      tracker.broadcast.run tracker.broadcast.start labels = some s → s.crashed = false := by
  constructor
  · intro labels s each run
    exact (intact_of_quiet each run).running
  · intro δ ω tracker labels s each run
    exact (intact_of_quiet each run).running

def capture (raw : String) : Capture := ⟨ofString "send", ofString raw, ofString "writer", 0⟩

def servedRun : List (Broadcast.Label Capture) :=
  [.subscribe, .call (capture "1"), .lock 0 [0], .send 0, .cancel 0, .call (capture "2"), .lock 1 []]

theorem broadcast_never_crashes_served :
    (((Recorder.broadcast some {}).run (Recorder.broadcast some {}).start servedRun).map State.crashed) =
      some false := by
  obtain ⟨s, run⟩ : ∃ s, (Recorder.broadcast some {}).run (Recorder.broadcast some {}).start servedRun = some s :=
    ⟨_, rfl⟩
  rw [run, Option.map_some,
    (broadcast_never_crashes some {}).1 servedRun s (Machine.eachStep_of_checks (by decide)) run]

theorem broadcast_crashes_cancelled :
    ((Recorder.broadcast some {}).run (Recorder.broadcast some {}).start
      [.subscribe, .call (capture "1"), .lock 0 [0], .cancel 0, .send 0]).map State.crashed = some true := by
  rfl

def Recorder.unfilled (r : Recorder) : Bool := r.seq.toNat + 1 < 2 ^ 64

theorem Recorder.publishLocked_seq (r : Recorder) (ev : Event) :
    (r.publishLocked ev).1.seq = r.seq + 1 ∧ (r.publishLocked ev).2.seq = r.seq + 1 := by
  unfold publishLocked
  simp only
  split_ifs
  · exact ⟨rfl, rfl⟩
  · exact ⟨rfl, rfl⟩

theorem Recorder.hub_grows (r : Recorder) (x : Capture) (fits : r.unfilled = true) :
    Grows (fun ev : Event => ev.seq.toNat) (fun r : Recorder => r.seq.toNat) (Recorder.hub indent opts) r x := by
  have next : (r.seq + 1).toNat = r.seq.toNat + 1 := by
    have bound : r.seq.toNat + 1 < 2 ^ 64 := of_decide_eq_true fits
    rw [UInt64.toNat_add]
    exact Nat.mod_eq_of_lt bound
  obtain ⟨after, sent⟩ := r.publishLocked_seq (newEvent indent opts x)
  simp only [Grows, Recorder.hub]
  rw [after, sent, next]
  exact ⟨Nat.lt_succ_self _, rfl⟩

/-- If every `publish` sends to a subscriber before those with a larger number do, and the numbers do not wrap,
each subscriber receives growing numbers; so the tracker, which observes what it receives, never observes an event
after one with a larger number. -/
theorem received_in_order (labels : List (Broadcast.Label Capture)) (s : State Recorder Capture Event)
    (each : (Recorder.broadcast indent opts).EachStep
      (fun s l => inTurn (fun ev : Event => ev.seq.toNat) Recorder.unfilled s l = true)
      (Recorder.broadcast indent opts).start labels)
    (run : (Recorder.broadcast indent opts).run (Recorder.broadcast indent opts).start labels = some s)
    (id : Nat) (c : Channel Event) (channel : s.channels[id]? = some c) :
    c.received.Pairwise (fun a b => a.seq < b.seq) ∧
      ∀ (i j : Nat) a b, c.received[i]? = some a → c.received[j]? = some b → a.seq < b.seq → i < j := by
  have ordered := ordered_of_inTurn (Recorder.hub_grows indent opts) each run
  have sorted : c.received.Pairwise fun a b => a.seq < b.seq :=
    ((List.pairwise_append.mp (ordered.sorted id c channel)).1).imp UInt64.lt_iff_toNat_lt.mpr
  refine ⟨sorted, ?_⟩
  intro i j a b atI atJ less
  obtain ⟨short, rfl⟩ := List.getElem?_eq_some_iff.mp atI
  obtain ⟨short', rfl⟩ := List.getElem?_eq_some_iff.mp atJ
  rcases Nat.lt_trichotomy i j with before | same | after
  · exact before
  · subst same
    exact absurd less (UInt64.lt_irrefl _)
  · exact absurd (UInt64.lt_trans less (List.pairwise_iff_getElem.mp sorted j i short' short after))
      (UInt64.lt_irrefl _)

def orderlyRun : List (Broadcast.Label Capture) :=
  [.subscribe, .call (capture "1"), .call (capture "2"), .lock 1 [0], .lock 0 [0], .send 1, .send 0, .receive 0,
    .receive 0]

theorem received_in_order_orderly : ∃ s c,
    (Recorder.broadcast some {}).run (Recorder.broadcast some {}).start orderlyRun = some s ∧
      s.channels[0]? = some c ∧ c.received.map Event.seq = [1, 2] ∧
      c.received.Pairwise (fun a b => a.seq < b.seq) := by
  refine ⟨_, _, rfl, rfl, by decide, ?_⟩
  exact (received_in_order some {} orderlyRun _ (Machine.eachStep_of_checks (by decide)) rfl 0 _ rfl).1

def overtakenRun : List (Broadcast.Label Capture) :=
  [.subscribe, .call (capture "1"), .call (capture "2"), .lock 0 [0], .lock 1 [0], .send 1, .send 0, .receive 0,
    .receive 0]

theorem received_overtaken : ∃ s c,
    (Recorder.broadcast some {}).run (Recorder.broadcast some {}).start overtakenRun = some s ∧
      s.channels[0]? = some c ∧ c.received.map Event.seq = [2, 1] ∧
      ¬ c.received.Pairwise (fun a b => a.seq < b.seq) :=
  ⟨_, _, rfl, rfl, by decide, by decide⟩

end Subscribers

end Mcp.Spy
