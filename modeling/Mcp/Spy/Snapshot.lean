import Mcp.Lib.Ring
import Mcp.Spy.Recorder

namespace Mcp.Spy
open Mcp.Lib Bytes Broadcast

-- An index outside the buffer would panic.
def Recorder.snapshot (r : Recorder) : Option (List Event) :=
  (List.range r.bufLen).mapM fun i => r.buf[(r.bufStart + i) % r.bufCap]?

structure Recorder.Buffers (r : Recorder) (published : List Event) : Prop where
  seq : r.seq = .ofNat published.length
  length : r.bufLen = min r.bufCap published.length
  ring : Ring.Holds r.buf r.bufStart r.bufCap (published.drop (published.length - r.bufCap))

namespace Recorder

variable {r : Recorder} {published : List Event}

theorem buffers_newRecorder (opts : Options) : (newRecorder opts).Buffers [] where
  seq := rfl
  length := (Nat.min_zero _).symm
  ring := by
    rw [List.drop_nil]
    refine Ring.holds_nil ?_ ?_
    · simp [newRecorder]
    · simp only [newRecorder]
      split_ifs with unset
      · decide
      · omega

theorem bufCap_publishLocked (ev : Event) : (r.publishLocked ev).1.bufCap = r.bufCap := by
  unfold publishLocked
  simp only
  split_ifs <;> rfl

theorem Buffers.publishLocked (buffers : r.Buffers published) (ev : Event) :
    (r.publishLocked ev).1.Buffers (published ++ [{ ev with seq := .ofNat (published.length + 1) }]) := by
  have next : r.seq + 1 = .ofNat (published.length + 1) := by
    rw [buffers.seq, UInt64.ofNat_add]
    rfl
  have length := buffers.length
  unfold Recorder.publishLocked
  simp only [next]
  split_ifs with room
  · -- nothing has been overwritten yet
    have short : published.length < r.bufCap := by omega
    have all : published.length - r.bufCap = 0 := by omega
    have all' : published.length + 1 - r.bufCap = 0 := by omega
    have ring := buffers.ring
    rw [all, List.drop_zero] at ring
    have count : r.bufLen = published.length := by omega
    refine ⟨by simp, by simp only [List.length_append, List.length_singleton]; omega, ?_⟩
    simp only [List.length_append, List.length_singleton, all', List.drop_zero, count]
    exact ring.fill short _
  · have long : r.bufCap ≤ published.length := by omega
    have full : (published.drop (published.length - r.bufCap)).length = r.bufCap := by
      rw [List.length_drop]
      omega
    refine ⟨by simp, by simp only [List.length_append, List.length_singleton]; omega, ?_⟩
    have shifted : published.length + 1 - r.bufCap = published.length - r.bufCap + 1 := by omega
    simp only [List.length_append, List.length_singleton, shifted]
    rw [List.drop_append_of_le_length (by have := buffers.ring.inside; omega), ← List.tail_drop]
    exact buffers.ring.overwrite full _

theorem Buffers.snapshot (buffers : r.Buffers published) :
    r.snapshot = some (published.drop (published.length - r.bufCap)) := by
  have count : r.bufLen = (published.drop (published.length - r.bufCap)).length := by
    rw [buffers.length, List.length_drop]
    omega
  rw [Recorder.snapshot, count]
  exact buffers.ring.read

end Recorder

section Runs

variable (indent : Bytes → Option Bytes) (opts : Options)

def published (captures : List Capture) : List Event :=
  captures.mapIdx fun k x => { newEvent indent opts x with seq := .ofNat (k + 1) }

theorem buffers_sections (captures : List Capture) :
    (captures.foldl (fun r x => ((Recorder.hub indent opts).locked r x).1) (newRecorder opts)).Buffers
      (published indent opts captures) := by
  induction captures using List.reverseRecOn with
  | nil => exact Recorder.buffers_newRecorder opts
  | append_singleton captures x ih =>
    have next := ih.publishLocked (newEvent indent opts x)
    rw [List.foldl_concat, published, List.mapIdx_concat]
    simpa [published, Recorder.hub] using next

theorem bufCap_sections (captures : List Capture) (r : Recorder) :
    (captures.foldl (fun r x => ((Recorder.hub indent opts).locked r x).1) r).bufCap = r.bufCap := by
  induction captures generalizing r with
  | nil => rfl
  | cons x captures ih =>
    rw [List.foldl_cons, ih]
    exact Recorder.bufCap_publishLocked _

/-- After `n` sections of `publish`, in whatever interleaving, `Snapshot` returns the last `min bufCap n` of
their events in order, numbered up to `n`. -/
theorem snapshot_eq_last (labels : List (Broadcast.Label Capture)) (s : State Recorder Capture Event)
    (run : (Recorder.broadcast indent opts).run (Recorder.broadcast indent opts).start labels = some s) :
    let captures := (Recorder.hub indent opts).sections (Recorder.broadcast indent opts).start labels
    let n := captures.length
    let kept := min (newRecorder opts).bufCap n
    ∃ events, s.object.snapshot = some events ∧ events.length = kept ∧
      events = (published indent opts captures).drop (n - kept) ∧
      events.map Event.seq = (List.range' (n - kept + 1) kept).map UInt64.ofNat := by
  intro captures n kept
  have object : s.object = captures.foldl (fun r x => ((Recorder.hub indent opts).locked r x).1) (newRecorder opts) :=
    object_of_run run
  have cap : s.object.bufCap = (newRecorder opts).bufCap := by rw [object, bufCap_sections]
  have buffers : s.object.Buffers (published indent opts captures) := by
    rw [object]
    exact buffers_sections indent opts captures
  have length : (published indent opts captures).length = n := by simp [published, n]
  have dropped : n - (newRecorder opts).bufCap = n - kept := by omega
  refine ⟨_, buffers.snapshot, ?_, by rw [length, cap, dropped], ?_⟩
  · rw [List.length_drop, length, cap]
    omega
  · rw [length, cap, dropped]
    apply List.ext_getElem
    · simp only [List.length_map, List.length_drop, length, List.length_range']
      omega
    · intro i _ _
      simp only [published, List.getElem_map, List.getElem_drop, List.getElem_mapIdx, List.getElem_range']
      congr 1
      omega

theorem snapshot_eq_last_two :
    let labels : List (Broadcast.Label Capture) :=
      [.call (capture "1"), .call (capture "2"), .call (capture "3"), .lock 1 [], .lock 2 [], .lock 0 []]
    ∃ s events, (Recorder.broadcast some { bufferSize := 2 }).run (Recorder.broadcast some { bufferSize := 2 }).start
        labels = some s ∧ s.object.snapshot = some events ∧ events.map Event.raw = [ofString "3", ofString "1"] ∧
      events.map Event.seq = [2, 3] := by
  intro labels
  have facts : ((Recorder.broadcast some { bufferSize := 2 }).run
      (Recorder.broadcast some { bufferSize := 2 }).start labels).isSome = true := by decide +kernel
  obtain ⟨s, run⟩ := Option.isSome_iff_exists.mp facts
  obtain ⟨events, snapshot, -, last, numbers⟩ := snapshot_eq_last some { bufferSize := 2 } labels s run
  refine ⟨s, events, run, snapshot, ?_, ?_⟩
  · rw [last]
    decide +kernel
  · rw [numbers]
    decide +kernel

end Runs

end Mcp.Spy
