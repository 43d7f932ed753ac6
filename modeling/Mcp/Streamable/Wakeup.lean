import Mcp.Streamable.Resume
import Mcp.Streamable.Signals

namespace Mcp.Streamable
open Mcp.Lib StreamableServerTransport

variable {c c' : Session} {t t' : StreamableServerTransport} {sid : StreamID} {i j : Nat}
  {r : Reader} {ch : ChanID}

structure Listens (c : Session) (sid : StreamID) (i : Nat) (r : Reader) (ch : ChanID) : Prop where
  found : c.threads[i]? = some (.reader r)
  stream : r.resumeStreamID = sid
  own : r.signalCh = some ch

-- Channels are numbered in the order of their registration.
structure Latest (c : Session) (sid : StreamID) (i : Nat) (r : Reader) (ch : ChanID) : Prop where
  listens : Listens c sid i r ch
  newest : ∀ {j q d}, Listens c sid j q d → d ≤ ch

def Reader.Live (r : Reader) : Prop := r.pc = .select ∨ r.pc = .drain

/-- No reader of `sid` runs its deferred delete while the reader of `sid` that registered last is
live, and no POST waits on `sid`. -/
def EndsInOrder (sid : StreamID) (c : Session) : Event → Prop
  | .act i _ =>
    (∀ r, c.threads[i]? = some (.reader r) → r.resumeStreamID = sid → r.pc = .leave →
      ∀ j q ch, Latest c sid j q ch → ¬q.Live) ∧
    ∀ p, c.threads[i]? = some (.post p) → p.pc = .register → p.sid ≠ sid
  | _ => True

structure Attends (t : StreamableServerTransport) (sid : StreamID) (ch : ChanID) (r : Reader) : Prop where
  asleep : r.pc = .select → t.board.Watched sid ch r.resumeIndex.toNat
  awake : r.pc = .drain → t.signals sid = some ch

theorem Attends.step {op : Op} (attends : Attends t sid ch r) (bound : ch < t.signalChans)
    (undisturbed : r.Live → Undisturbed sid ch op) (step : t.perform op = some t') : Attends t' sid ch r :=
  ⟨fun here => watched_perform (attends.asleep here) bound (undisturbed (.inl here)) step,
    fun here => registered_perform (attends.awake here) bound (undisturbed (.inr here)) step⟩

variable {op : Option Op} {g' g : Goroutine} {r' : Reader} {a : Action}

theorem Attends.effect (attends : Attends t sid ch r) (bound : ch < t.signalChans)
    (undisturbed : ∀ o, op = some o → r.Live → Undisturbed sid ch o)
    (performed : goroutines.effect t op = some t') : Attends t' sid ch r :=
  System.effect_invariant (P := fun t => Attends t sid ch r) attends
    (fun o _ asked step => attends.step bound (undisturbed o asked) step) performed

def Attended (sid : StreamID) (c : Session) : Prop :=
  ∀ i r ch, Latest c sid i r ch → Attends c.shared sid ch r

theorem Goroutine.Acted.listening {q : Reader}
    (acted : Acted t (.reader q) op g') : ∃ q', g' = .reader q' ∧ q'.resumeStreamID = q.resumeStreamID ∧
      (q'.signalCh = q.signalCh ∧ (∀ s, op ≠ some (.register s)) ∨ q'.signalCh = some t.signalChans) := by
  cases acted with
  | reader streamed =>
    cases streamed with
    | registered => exact ⟨_, rfl, rfl, .inr rfl⟩
    | panicked _ lost => rcases lost with rfl | rfl <;> exact ⟨_, rfl, rfl, .inl ⟨rfl, nofun⟩⟩
    | replayed | drained | stopped | woken | left => exact ⟨_, rfl, rfl, .inl ⟨rfl, nofun⟩⟩

theorem Listens.other {s : StreamableServerTransport} (different : i ≠ j) :
    Listens ⟨s, c.threads.set j g'⟩ sid i r ch ↔ Listens c sid i r ch := by
  have same : (c.threads.set j g')[i]? = c.threads[i]? := List.getElem?_set_ne (Ne.symm different)
  constructor
  · rintro ⟨found, stream, own⟩
    exact ⟨same.symm.trans found, stream, own⟩
  · rintro ⟨found, stream, own⟩
    exact ⟨same.trans found, stream, own⟩

theorem Latest.before (latest : Latest ⟨t', c.threads.set j g'⟩ sid i r ch) (different : i ≠ j)
    (found : c.threads[j]? = some g) (acted : g.Acted c.shared op g') (bound : ch < c.shared.signalChans) :
    Latest c sid i r ch ∧ ∀ q, g = .reader q → q.resumeStreamID = sid → ∀ s, op ≠ some (.register s) := by
  have inside : j < c.threads.length := (List.getElem?_eq_some_iff.mp found).1
  have kept {q : Reader} (reader : g = .reader q) (stream : q.resumeStreamID = sid) :
      ∃ q', g' = .reader q' ∧ q'.resumeStreamID = sid ∧ q'.signalCh = q.signalCh ∧
        ∀ s, op ≠ some (.register s) := by
    subst reader
    obtain ⟨q', rfl, stream', same | fresh⟩ := acted.listening
    · exact ⟨q', rfl, stream'.trans stream, same⟩
    · have newer : Listens ⟨t', c.threads.set j (.reader q')⟩ sid j q' c.shared.signalChans :=
        ⟨List.getElem?_set_self inside, stream'.trans stream, fresh⟩
      exact absurd (latest.newest newer) (not_le.mpr bound)
  refine ⟨⟨(Listens.other different).mp latest.listens, fun {k q d} listens => ?_⟩, fun q reader stream => ?_⟩
  · by_cases same : k = j
    · subst same
      have reader : g = .reader q := Option.some.inj (found.symm.trans listens.found)
      obtain ⟨q', rfl, stream, own, -⟩ := kept reader listens.stream
      exact latest.newest ⟨List.getElem?_set_self inside, stream, own.trans listens.own⟩
    · exact latest.newest ((Listens.other same).mpr listens)
  · obtain ⟨-, -, -, -, none⟩ := kept reader stream
    exact none

theorem Latest.own_before (latest : Latest ⟨t', c.threads.set i (.reader r')⟩ sid i r' ch)
    (found : c.threads[i]? = some (.reader r)) (stream : r'.resumeStreamID = r.resumeStreamID)
    (own : r'.signalCh = r.signalCh) : Latest c sid i r ch := by
  refine ⟨⟨found, stream.symm.trans latest.listens.stream, own.symm.trans latest.listens.own⟩,
    fun {k q d} listens => ?_⟩
  by_cases same : k = i
  · subst same
    obtain rfl : r = q := by simpa using found.symm.trans listens.found
    exact (Option.some.inj (listens.own.symm.trans (own.symm.trans latest.listens.own))).le
  · exact latest.newest ((Listens.other same).mpr listens)

theorem Latest.before_spawn (latest : Latest ⟨t', c.threads ++ [g]⟩ sid i r ch)
    (unregistered : g.signalCh = none) : Latest c sid i r ch := by
  have found : c.threads[i]? = some (.reader r) := by
    obtain ⟨-, rfl⟩ | ⟨-, found⟩ := System.getElem?_concat_cases latest.listens.found
    · cases unregistered.symm.trans latest.listens.own
    · exact found
  refine ⟨⟨found, latest.listens.stream, latest.listens.own⟩, fun {k q d} listens => ?_⟩
  have inside : k < c.threads.length := (List.getElem?_eq_some_iff.mp listens.found).1
  exact latest.newest
    ⟨(List.getElem?_append_left inside).trans listens.found, listens.stream, listens.own⟩

theorem Attended.act_own (attended : Attended sid c)
    (found : c.threads[i]? = some (.reader r)) (streamed : r.Streamed c.shared op r')
    (performed : goroutines.effect c.shared op = some t')
    (latest : Latest ⟨t', c.threads.set i (.reader r')⟩ sid i r' ch) : Attends t' sid ch r' := by
  cases streamed with
  | replayed | panicked | stopped | left => exact ⟨nofun, nofun⟩
  | registered here bounded =>
    cases effect_performed performed
    refine ⟨fun _ => ?_, nofun⟩
    obtain rfl : r.resumeStreamID = sid := latest.listens.stream
    obtain rfl : c.shared.signalChans = ch := Option.some.inj latest.listens.own
    apply Board.watched_register c.shared.board r.resumeStreamID c.shared.signalChans
    change (c.shared.messages r.resumeStreamID).length ≤ (r.caughtUp c.shared).resumeIndex.toNat
    rw [caughtUp_index bounded]
    exact le_max_right _ _
  | drained here bounded =>
    cases performed
    refine ⟨fun _ => ⟨(attended i r ch (latest.own_before found rfl rfl)).awake here, Or.inl ?_⟩, nofun⟩
    obtain rfl : r.resumeStreamID = sid := latest.listens.stream
    change (c.shared.messages r.resumeStreamID).length ≤ (r.caughtUp c.shared).resumeIndex.toNat
    rw [caughtUp_index bounded]
    exact le_max_right _ _
  | woken here own =>
    cases effect_performed performed
    exact ⟨nofun, fun _ => ((attended i r ch (latest.own_before found rfl rfl)).asleep here).1⟩

theorem Attended.act_other (reachable : session.Reachable c) (attended : Attended sid c)
    (ordered : EndsInOrder sid c (.act j a)) (found : c.threads[j]? = some g) (acted : g.Acted c.shared op g')
    (performed : goroutines.effect c.shared op = some t') (different : i ≠ j)
    (latest : Latest ⟨t', c.threads.set j g'⟩ sid i r ch) : Attends t' sid ch r := by
  have listens := (Listens.other different).mp latest.listens
  have bound := channel_bound reachable listens.found listens.own
  obtain ⟨before, noRegister⟩ := latest.before different found acted bound
  have other : g.signalCh ≠ some ch := fun own =>
    different (channel_owner reachable listens.found found listens.own own)
  refine (attended i r ch before).effect bound (fun o asked live => ?_) performed
  subst asked
  refine acted.undisturbed other ?_ ?_
  · rintro rfl
    cases acted with
    | reader streamed =>
      cases streamed with
      | registered => exact noRegister _ rfl rfl _ rfl
      | panicked _ lost => rcases lost with lost | lost <;> cases lost
    | post handled =>
      cases handled with
      | registered here => exact ordered.2 _ found here rfl
  · rintro rfl
    cases acted with
    | reader streamed =>
      cases streamed with
      | left here => exact ordered.1 _ found rfl here i r ch before live
      | panicked _ lost => rcases lost with lost | lost <;> cases lost
    | post handled => cases handled

theorem Attended.step {l : Event} (reachable : session.Reachable c) (attended : Attended sid c)
    (ordered : EndsInOrder sid c l) (step : session.step c l = some c') : Attended sid c' := by
  intro i r ch latest
  cases System.stepped step with
  | @env call _ performed =>
    have undisturbed : Undisturbed sid ch call.op := by cases call <;> trivial
    have before : Latest c sid i r ch := ⟨⟨latest.listens.found, latest.listens.stream,
      latest.listens.own⟩, fun listens => latest.newest ⟨listens.found, listens.stream, listens.own⟩⟩
    exact (attended i r ch before).step (channel_bound reachable before.listens.found before.listens.own)
      (fun _ => undisturbed) performed
  | @spawn request op g _ started performed =>
    have unregistered : g.signalCh = none := by cases request <;> cases started <;> rfl
    have before := latest.before_spawn unregistered
    refine (attended i r ch before).effect
      (channel_bound reachable before.listens.found before.listens.own) (fun o asked _ => ?_) performed
    subst asked
    cases request <;> cases started
    trivial
  | @act j a g g' op _ found moved performed =>
    have acted := Goroutine.acted moved
    by_cases same : i = j
    · subst same
      have inside : i < c.threads.length := (List.getElem?_eq_some_iff.mp found).1
      have reader : g' = .reader r :=
        Option.some.inj ((List.getElem?_set_self inside).symm.trans latest.listens.found)
      subst reader
      cases acted with
      | reader streamed => exact attended.act_own found streamed performed latest
    · exact attended.act_other reachable ordered found acted performed same latest

theorem attended_start : Attended sid session.start := by
  rintro i r ch ⟨⟨found, -, -⟩, -⟩
  simp [System.machine] at found

/-- No wake-up is lost: in every run in which no reader of `sid` deletes the registration while a
reader that registered later is live, the reader that registered last and is blocked on an empty
channel has written everything from its resume index on. -/
theorem latest_reader_served {events : List Event} (run : session.run session.start events = some c)
    (ordered : session.EachStep (EndsInOrder sid) session.start events) (latest : Latest c sid i r ch)
    (blocked : r.pc = .select) (silent : c.shared.signalled ch = false) :
    r.written = (c.shared.messages sid).drop (resumePoint r.lastEventID).2.toNat := by
  have reachable : session.Reachable c := ⟨events, run⟩
  have attended : Attended sid c :=
    Machine.invariant_of_eachStep attended_start
      (fun _ _ _ reachable attended ordered step => attended.step reachable ordered step) ordered run
  have seen := ((attended i r ch latest).asleep blocked).seen silent
  obtain rfl := latest.listens.stream
  exact (resumed reachable latest.listens.found).read.complete seen

theorem endsInOrder_of_pc (found : c.threads[i]? = some (.reader r)) (here : r.pc ≠ .leave) :
    EndsInOrder sid c (.act i a) := by
  refine ⟨fun q found' _ leaving => ?_, fun p found' => ?_⟩
  · obtain rfl : r = q := by simpa using found.symm.trans found'
    exact absurd leaving here
  · cases found.symm.trans found'

def wokenRun : List Event :=
  [.spawn (.get ""), .act 0 .proceed, .act 0 .proceed,
    .env (.write { method := "notifications/progress", jsonrpc := "2.0" }),
    .act 0 (.select .signal), .act 0 .proceed]

theorem wokenRun_ordered : session.EachStep (EndsInOrder 0) session.start wokenRun := by
  refine .cons trivial rfl ?_
  refine .cons (endsInOrder_of_pc rfl nofun) rfl ?_
  refine .cons (endsInOrder_of_pc rfl nofun) rfl ?_
  refine .cons trivial rfl ?_
  refine .cons (endsInOrder_of_pc rfl nofun) rfl ?_
  exact .cons (endsInOrder_of_pc rfl nofun) rfl trivial

theorem wokenRun_served :
    ∃ c r, session.run session.start wokenRun = some c ∧ c.threads[0]? = some (.reader r) ∧
      (c.shared.messages 0).length = 1 ∧ r.written = c.shared.messages 0 := by
  obtain ⟨c, r, run, all, pc, own, stream, index, silent, one⟩ :
      ∃ c r, session.run session.start wokenRun = some c ∧ c.threads = [.reader r] ∧ r.pc = .select ∧
        r.signalCh = some 0 ∧ r.resumeStreamID = 0 ∧ (resumePoint r.lastEventID).2 = 0 ∧
        c.shared.signalled 0 = false ∧ (c.shared.messages 0).length = 1 :=
    ⟨_, _, rfl, rfl, rfl, rfl, rfl, rfl, rfl, rfl⟩
  have found : c.threads[0]? = some (.reader r) := by simp [all]
  have latest : Latest c 0 0 r 0 := by
    refine ⟨⟨found, stream, own⟩, fun {j q d} listens => ?_⟩
    have same : q = r := by
      have member := List.mem_of_getElem? listens.found
      simpa [all] using member
    subst same
    exact (Option.some.inj (listens.own.symm.trans own)).le
  have served := latest_reader_served run wokenRun_ordered latest pc silent
  rw [index] at served
  exact ⟨c, r, run, found, one, served⟩

def replacedRun : List Event :=
  [.spawn (.get ""), .act 0 .proceed, .act 0 .proceed,
    .spawn (.get ""), .act 1 .proceed, .act 1 .proceed,
    .act 0 (.select .ctxDone), .act 0 .proceed,
    .env (.write { method := "notifications/progress", jsonrpc := "2.0" })]

theorem replacedRun_not_served :
    ∃ c r, session.run session.start replacedRun = some c ∧ Latest c 0 1 r 1 ∧ r.pc = .select ∧
      c.shared.signalled 1 = false ∧
      r.written ≠ (c.shared.messages 0).drop (resumePoint r.lastEventID).2.toNat := by
  obtain ⟨c, q, r, run, all, old, pc, own, stream, silent, missed⟩ :
      ∃ c q r, session.run session.start replacedRun = some c ∧
        c.threads = [.reader q, .reader r] ∧ q.signalCh = some 0 ∧ r.pc = .select ∧
        r.signalCh = some 1 ∧ r.resumeStreamID = 0 ∧ c.shared.signalled 1 = false ∧
        r.written ≠ (c.shared.messages 0).drop (resumePoint r.lastEventID).2.toNat :=
    ⟨_, _, _, rfl, rfl, rfl, rfl, rfl, rfl, rfl, nofun⟩
  refine ⟨c, r, run, ⟨⟨by simp [all], stream, own⟩, fun {j x d} listens => ?_⟩, pc, silent, missed⟩
  have member := List.mem_of_getElem? listens.found
  have either : x = q ∨ x = r := by simpa [all] using member
  rcases either with rfl | rfl
  · exact (Option.some.inj (listens.own.symm.trans old)).trans_le (Nat.zero_le 1)
  · exact (Option.some.inj (listens.own.symm.trans own)).le

end Mcp.Streamable
