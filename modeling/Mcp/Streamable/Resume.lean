import Mcp.Lib.Board
import Mcp.Streamable.Session

namespace Mcp.Streamable
open Mcp.Lib Function

namespace StreamableServerTransport

variable {t t' : StreamableServerTransport}

def FitsInt64 (sid : StreamID) : Prop := 0 ≤ sid ∧ sid ≤ maxInt

structure Bounded (t : StreamableServerTransport) : Prop where
  next : t.nextStreamID ≤ maxInt
  last : FitsInt64 t.lastRequestStream
  client : ∀ k sid, t.clientRequestStreams k = some sid → FitsInt64 sid
  server : ∀ k sid, t.serverRequestStreams k = some sid → FitsInt64 sid

theorem bounded_start : newStreamableServerTransport.Bounded :=
  ⟨by decide, ⟨le_rfl, by decide⟩, nofun, nofun⟩

theorem update_fits {routes : Key → Option StreamID} {k : Key} {new : Option StreamID}
    (fits : ∀ k sid, routes k = some sid → FitsInt64 sid) (newFits : ∀ sid, new = some sid → FitsInt64 sid) :
    ∀ k' sid, update routes k new k' = some sid → FitsInt64 sid := by
  intro k' sid found
  rw [update_apply] at found
  split_ifs at found
  · exact newFits sid found
  · exact fits k' sid found

variable {msg : JSONRPCMessage} {sid : StreamID} {op : Op}

theorem Wrote.fits (bounded : t.Bounded) (wrote : Wrote t msg sid t') : FitsInt64 sid := by
  have one : FitsInt64 1 := ⟨by decide, by decide⟩
  cases wrote with
  | notification => exact bounded.last
  | request _ _ route =>
    rcases route with existing | ⟨-, rfl⟩
    · exact bounded.server _ _ existing
    · exact bounded.last
  | response _ _ route => exact bounded.client _ _ route
  | unmatched => exact one
  | blank _ route =>
    rcases route with existing | ⟨-, rfl⟩
    · exact bounded.client _ _ existing
    · exact one

theorem Bounded.wrote (bounded : t.Bounded) (wrote : Wrote t msg sid t') : t'.Bounded := by
  have fits := wrote.fits bounded
  cases wrote with
  | notification | unmatched | blank => exact ⟨bounded.next, bounded.last, bounded.client, bounded.server⟩
  | request =>
    exact ⟨bounded.next, bounded.last, bounded.client,
      update_fits bounded.server fun s new => Option.some.inj new ▸ fits⟩
  | response =>
    refine ⟨bounded.next, ?_, update_fits bounded.client nofun, fun k s found => ?_⟩
    · change FitsInt64 (if t.lastRequestStream = sid then 0 else t.lastRequestStream)
      split_ifs
      · exact ⟨le_rfl, by decide⟩
      · exact bounded.last
    · change (if t.serverRequestStreams k = some sid then none else t.serverRequestStreams k) = some s
        at found
      split_ifs at found
      exact bounded.server k s found

theorem Bounded.step (bounded : t.Bounded) (admissible : Admissible t op) (step : t.perform op = some t') :
    t'.Bounded := by
  cases performed step with
  | allocate room => exact ⟨room, bounded.last, bounded.client, bounded.server⟩
  | correlate _ correlated =>
    cases correlated with
    | request =>
      have fits : FitsInt64 _ :=
        ⟨Int.le_of_lt (Int.lt_of_lt_of_le Int.zero_lt_one admissible.1), admissible.2.trans bounded.next⟩
      exact ⟨bounded.next, fits, update_fits bounded.client fun s new => Option.some.inj new ▸ fits,
        bounded.server⟩
    | response => exact ⟨bounded.next, bounded.last, bounded.client, update_fits bounded.server nofun⟩
    | notification => exact bounded
  | write _ _ _ wrote => exact bounded.wrote wrote
  | _ => exact ⟨bounded.next, bounded.last, bounded.client, bounded.server⟩

theorem perform_messages (step : t.perform op = some t') :
    t'.messages = t.messages ∨ ∃ msg sid, op = .write msg ∧ Wrote t msg sid t' ∧
      ((t.messages sid).length : Int) < maxInt := by
  cases performed step with
  | write _ _ room wrote => exact .inr ⟨_, _, rfl, wrote, room⟩
  | correlate _ correlated =>
    cases correlated <;> exact .inl rfl
  | _ => exact .inl rfl

def Indexed (t : StreamableServerTransport) : Prop :=
  ∀ sid (j : Nat) m, (t.messages sid)[j]? = some m →
    m.eventID = formatEventID sid j ∧ FitsInt64 sid ∧ (j : Int) < maxInt

theorem Indexed.step (bounded : t.Bounded) (indexed : t.Indexed) (step : t.perform op = some t') : t'.Indexed := by
  obtain same | ⟨msg, sid, rfl, wrote, room⟩ := perform_messages step
  · rw [Indexed, same]
    exact indexed
  · intro s j m found
    rw [wrote.messages] at found
    by_cases here : s = sid
    · subst here
      rw [update_self] at found
      obtain ⟨rfl, rfl⟩ | ⟨-, found⟩ := System.getElem?_concat_cases found
      · exact ⟨rfl, wrote.fits bounded, room⟩
      · exact indexed s j m found
    · rw [update_of_ne here] at found
      exact indexed s j m found

end StreamableServerTransport

open StreamableServerTransport

variable {c : Session} {t t' : StreamableServerTransport} {lastEventID : String}

theorem indexed (reachable : session.Reachable c) : c.shared.Indexed := by
  have both : c.shared.Bounded ∧ c.shared.Indexed :=
    transport_invariant (P := fun t => t.Bounded ∧ t.Indexed) ⟨bounded_start, nofun⟩
      (fun t op t' holds admissible step => ⟨holds.1.step admissible step, holds.2.step holds.1 step⟩)
      reachable
  exact both.2

def unacknowledged (t : StreamableServerTransport) (lastEventID : String) : List StreamableMsg :=
  match acknowledged lastEventID with
  | none => t.messages 0
  | some (sid, idx) => ((t.messages sid).zipIdx.filter fun entry => idx < entry.2).map (·.1)

def Overflows (t : StreamableServerTransport) (lastEventID : String) : Prop :=
  ∃ sid, acknowledged lastEventID = some (sid, maxInt) ∧ t.outgoingMessages sid ≠ none

theorem filter_zipIdx {α : Type*} (xs : List α) (n k : Nat) :
    ((xs.zipIdx k).filter fun entry => (n : Int) < entry.2).map (·.1) = xs.drop (n + 1 - k) := by
  induction xs generalizing k with
  | nil => simp
  | cons x xs ih =>
    rw [List.zipIdx_cons]
    by_cases later : n < k
    · have none : n + 1 - k = 0 := by omega
      have none' : n + 1 - (k + 1) = 0 := by omega
      rw [List.filter_cons_of_pos (by simpa using later), List.map_cons, ih, none, none']
      simp
    · have some : n + 1 - k = n + 1 - (k + 1) + 1 := by omega
      rw [List.filter_cons_of_neg (by simpa using later), ih, some, List.drop_succ_cons]

theorem unacknowledged_of_index {sid : StreamID} {n : Nat} (parsed : acknowledged lastEventID = some (sid, (n : Int))) :
    unacknowledged t lastEventID = (t.messages sid).drop (n + 1) := by
  rw [unacknowledged, parsed]
  exact filter_zipIdx (t.messages sid) n 0

theorem resumeIndex_neg_iff : (resumePoint lastEventID).2 < 0 ↔
      ∃ sid, acknowledged lastEventID = some (sid, maxInt) := by
  cases parsed : acknowledged lastEventID with
  | none =>
    rw [resumePoint_of_malformed parsed]
    simp
  | some point =>
    obtain ⟨sid, idx⟩ := point
    obtain ⟨-, low, high⟩ := parseEventID_eq_some parsed
    rw [resumePoint_of_acknowledged parsed]
    constructor
    · intro negative
      refine ⟨sid, ?_⟩
      by_contra other
      have below : idx ≠ maxInt := fun same => other (same ▸ rfl)
      rw [wrap_of_fits (by unfold minInt; omega) (by omega)] at negative
      dsimp only at negative
      omega
    · rintro ⟨-, ⟨⟩⟩
      rw [wrap_succ_maxInt]
      show minInt < 0
      decide

theorem unacknowledged_eq (bounded : ¬Overflows t lastEventID) : unacknowledged t lastEventID =
      (t.messages (resumePoint lastEventID).1).drop (resumePoint lastEventID).2.toNat := by
  cases parsed : acknowledged lastEventID with
  | none =>
    rw [resumePoint_of_malformed parsed, unacknowledged, parsed]
    rfl
  | some point =>
    obtain ⟨sid, idx⟩ := point
    obtain ⟨-, low, high⟩ := parseEventID_eq_some parsed
    obtain ⟨n, rfl⟩ := Int.eq_ofNat_of_zero_le low
    rw [unacknowledged_of_index parsed, resumePoint_of_acknowledged parsed]
    by_cases top : (n : Int) = maxInt
    · have absent : t.outgoingMessages sid = none := by
        by_contra present
        exact bounded ⟨sid, top ▸ parsed, present⟩
      simp [messages, absent]
    · rw [wrap_of_fits (by unfold minInt; omega) (by omega)]
      rfl

structure Resumed (t : StreamableServerTransport) (r : Reader) : Prop where
  stream : r.resumeStreamID = (resumePoint r.lastEventID).1
  sign : r.resumeIndex < 0 ↔ (resumePoint r.lastEventID).2 < 0
  read : HasRead (t.messages r.resumeStreamID) (resumePoint r.lastEventID).2.toNat r.resumeIndex.toNat
    r.written

theorem resumed_start (t : StreamableServerTransport) (lastEventID : String) :
    Resumed t (handleSSEStream lastEventID) :=
  ⟨rfl, Iff.rfl, hasRead_start _ _⟩

variable {r : Reader}

theorem Resumed.step {op : Op} (resumed : Resumed t r) (step : t.perform op = some t') : Resumed t' r := by
  refine ⟨resumed.stream, resumed.sign, ?_⟩
  obtain same | ⟨msg, sid, -, wrote, -⟩ := perform_messages step
  · rw [same]
    exact resumed.read
  · rw [wrote.messages]
    by_cases here : r.resumeStreamID = sid
    · subst here
      rw [update_self]
      exact resumed.read.append _
    · rw [update_of_ne here]
      exact resumed.read

theorem messages_of_not_overruns (bounded : ¬r.Overruns t) (negative : r.resumeIndex < 0) :
    t.messages r.resumeStreamID = [] := by
  have absent : t.outgoingMessages r.resumeStreamID = none := by
    by_contra present
    exact bounded ⟨negative, present⟩
  rw [messages, absent, Option.getD_none]

theorem caughtUp_index (bounded : ¬r.Overruns t) : (r.caughtUp t).resumeIndex.toNat =
      max r.resumeIndex.toNat (t.messages r.resumeStreamID).length := by
  change (if r.resumeIndex < 0 then r.resumeIndex else
    max r.resumeIndex (t.messages r.resumeStreamID).length).toNat = _
  split_ifs with negative
  · simp [messages_of_not_overruns bounded negative]
  · omega

theorem Resumed.caughtUp (resumed : Resumed t r) (bounded : ¬r.Overruns t) : Resumed t (r.caughtUp t) := by
  refine ⟨resumed.stream, ?_, ?_⟩
  · refine Iff.trans ?_ resumed.sign
    change (if r.resumeIndex < 0 then r.resumeIndex else
      max r.resumeIndex (t.messages r.resumeStreamID).length) < 0 ↔ _
    split_ifs with negative
    · rfl
    · omega
  · rw [caughtUp_index bounded]
    exact resumed.read.catchUp

theorem Resumed.streamed {r' : Reader} {op : Option Op} (resumed : Resumed t r)
    (streamed : r.Streamed t op r') : Resumed t r' := by
  cases streamed with
  | replayed _ bounded | registered _ bounded | drained _ bounded =>
    obtain ⟨stream, sign, read⟩ := resumed.caughtUp bounded
    exact ⟨stream, sign, read⟩
  | panicked | stopped | woken | left => exact ⟨resumed.stream, resumed.sign, resumed.read⟩

theorem resumed {i : Nat} (reachable : session.Reachable c) (found : c.threads[i]? = some (.reader r)) :
    Resumed c.shared r := by
  have holds := System.thread_invariant (I := fun _ => True)
    (P := fun t (g : Goroutine) => ∀ r, g = .reader r → Resumed t r) (fun _ _ => trivial)
    (fun t request op g t' _ started performed => ?_)
    (fun t g a op g' _ resumed moved => ?_)
    (fun t op t' g resumed step r same => (resumed r same).step step) reachable found
  · exact holds r rfl
  · cases request <;> cases started
    · rintro r ⟨⟩
      exact resumed_start t' _
    · nofun
  · cases Goroutine.acted moved with
    | post => nofun
    | @reader r r' _ streamed =>
      rintro _ ⟨⟩
      exact (resumed r rfl).streamed streamed

def Reader.AtFlush (r : Reader) : Prop := r.pc = .replay ∨ r.pc = .register ∨ r.pc = .drain

theorem Resumed.overruns_iff (resumed : Resumed t r) : r.Overruns t ↔ Overflows t r.lastEventID := by
  unfold Reader.Overruns Overflows
  rw [resumed.sign, resumed.stream, resumeIndex_neg_iff]
  constructor
  · rintro ⟨⟨sid, parsed⟩, present⟩
    rw [resumePoint_of_acknowledged parsed] at present
    exact ⟨sid, parsed, present⟩
  · rintro ⟨sid, parsed, present⟩
    refine ⟨⟨sid, parsed⟩, ?_⟩
    rw [resumePoint_of_acknowledged parsed]
    exact present

theorem Resumed.complete (resumed : Resumed t r) (bounded : ¬r.Overruns t) :
    (r.caughtUp t).written = unacknowledged t r.lastEventID := by
  rw [unacknowledged_eq fun overflows => bounded (resumed.overruns_iff.mpr overflows), ← resumed.stream]
  apply (resumed.caughtUp bounded).read.complete
  rw [caughtUp_index bounded]
  exact le_max_right _ _

theorem Reader.flush_enabled (here : r.AtFlush) (unlocked : t.mu = .free) :
    ∃ op r' t', r.streamMessages t .proceed = some (op, r') ∧ goroutines.effect t op = some t' ∧
      (r.Overruns t ∧ r'.pc = .panicked ∧ t'.mu ≠ .free ∨
        ¬r.Overruns t ∧ r'.pc ≠ .panicked ∧ r'.written = (r.caughtUp t).written) := by
  have readable : t.mu ≠ .locked := by simp [unlocked]
  by_cases overruns : r.Overruns t
  · have flushed := flush_of_overruns overruns
    rcases here with here | here | here
    case inr.inl =>
      refine ⟨some .leak, { r with pc := .panicked }, { t with mu := .locked }, ?_, ?_,
        .inl ⟨overruns, rfl, by simp⟩⟩
      · simp [streamMessages, here, flushed]
      · simp [System.effect, goroutines, perform, unlocked]
    all_goals
      refine ⟨some .leakRead, { r with pc := .panicked }, { t with mu := .rLocked }, ?_, ?_,
        .inl ⟨overruns, rfl, by simp⟩⟩
      · simp [streamMessages, here, readable, flushed]
      · simp [System.effect, goroutines, perform, readable]
  · have flushed := flush_of_not_overruns overruns
    rcases here with here | here | here
    · refine ⟨none, { r.caughtUp t with pc := .register }, t, ?_, rfl, .inr ⟨overruns, by simp, rfl⟩⟩
      simp [streamMessages, here, readable, flushed]
    · refine ⟨some (.register r.resumeStreamID),
        { r.caughtUp t with signalCh := some t.signalChans, pc := .select }, _, ?_,
        if_pos unlocked, .inr ⟨overruns, by simp, rfl⟩⟩
      simp [streamMessages, here, flushed]
      rfl
    · refine ⟨none, { r.caughtUp t with pc := .select }, t, ?_, rfl, .inr ⟨overruns, by simp, rfl⟩⟩
      simp [streamMessages, here, readable, flushed]

/-- In every reachable session, a GET stream that runs one of its loops over the buffer leaves it
without a panic and with exactly the unacknowledged messages written, unless its header acknowledges
the largest `int` on a stream that has a buffer. -/
theorem resumption_exact_iff (reachable : session.Reachable c) :
    (∀ (i : Nat) r, c.threads[i]? = some (.reader r) → r.AtFlush → c.shared.mu = .free →
      ∃ c' r', session.step c (.act i .proceed) = some c' ∧ c'.threads[i]? = some (.reader r') ∧
        (r'.pc ≠ .panicked ∧ r'.written = unacknowledged c.shared r.lastEventID ↔
          ¬Overflows c.shared r.lastEventID)) ∧
    ∀ sid (j : Nat) m, (c.shared.messages sid)[j]? = some m → ¬Overflows c.shared m.eventID ∧
      unacknowledged c.shared m.eventID = (c.shared.messages sid).drop (j + 1) := by
  constructor
  · intro i r found here unlocked
    have resumed := resumed reachable found
    obtain ⟨op, r', t', streaming, performed, outcome⟩ := Reader.flush_enabled here unlocked
    have acted : goroutines.act c.shared (.reader r) .proceed = some (op, .reader r') := by
      simp [goroutines, Goroutine.act, streaming]
    have inside : i < c.threads.length := (List.getElem?_eq_some_iff.mp found).1
    refine ⟨_, r', System.step_act found acted performed, List.getElem?_set_self inside, ?_⟩
    rw [← resumed.overruns_iff]
    rcases outcome with ⟨overruns, panicked, -⟩ | ⟨bounded, alive, written⟩
    · exact iff_of_false (fun exact => exact.1 panicked) (not_not.mpr overruns)
    · exact iff_of_true ⟨alive, written.trans (resumed.complete bounded)⟩ bounded
  · intro sid j m found
    obtain ⟨named, fits, below⟩ := indexed reachable sid j m found
    have parsed : acknowledged m.eventID = some (sid, (j : Int)) := by
      rw [named]
      exact parseEventID_formatEventID fits.1 fits.2 (Int.natCast_nonneg j) below.le
    refine ⟨?_, unacknowledged_of_index parsed⟩
    rintro ⟨s, top, -⟩
    obtain ⟨-, same⟩ := Prod.mk.inj (Option.some.inj (parsed.symm.trans top))
    exact below.ne same

def resumeRun (lastEventID : String) : List Event :=
  [.env (.write { method := "notifications/message", jsonrpc := "2.0" }),
    .env (.write { method := "notifications/progress", jsonrpc := "2.0" }),
    .spawn (.get lastEventID)]

theorem resumeRun_reader (lastEventID : String) : ∃ c, session.run session.start (resumeRun lastEventID) = some c ∧
      c.threads[0]? = some (.reader (handleSSEStream lastEventID)) ∧ c.shared.mu = .free ∧
      (c.shared.messages 0).length = 2 ∧ c.shared.outgoingMessages 0 ≠ none :=
  ⟨_, rfl, rfl, rfl, rfl, nofun⟩

theorem resumeRun_exact :
    ∃ c c' r', session.run session.start (resumeRun (formatEventID 0 0)) = some c ∧
      session.step c (.act 0 .proceed) = some c' ∧ c'.threads[0]? = some (.reader r') ∧
      (c.shared.messages 0).length = 2 ∧ r'.written = (c.shared.messages 0).drop 1 := by
  obtain ⟨c, run, found, unlocked, two, -⟩ := resumeRun_reader (formatEventID 0 0)
  obtain ⟨c', r', step, found', exact⟩ := (resumption_exact_iff ⟨_, run⟩).1 0 _ found (.inl rfl) unlocked
  have parsed : acknowledged (formatEventID 0 0) = some (0, ((0 : Nat) : Int)) :=
    parseEventID_formatEventID le_rfl (by decide) le_rfl (by decide)
  have bounded : ¬Overflows c.shared (formatEventID 0 0) := by
    rintro ⟨sid, top, -⟩
    cases parsed.symm.trans top
  refine ⟨c, c', r', run, step, found', two, (exact.mpr bounded).2.trans ?_⟩
  exact unacknowledged_of_index parsed

theorem resumeRun_overflows :
    ∃ c c' r', session.run session.start (resumeRun (formatEventID 0 maxInt)) = some c ∧
      session.step c (.act 0 .proceed) = some c' ∧ c'.threads[0]? = some (.reader r') ∧
      r'.pc = .panicked ∧ ∀ msg, c'.shared.perform (.write msg) = none := by
  obtain ⟨c, run, found, unlocked, -, present⟩ := resumeRun_reader (formatEventID 0 maxInt)
  have parsed : acknowledged (formatEventID 0 maxInt) = some (0, maxInt) :=
    parseEventID_formatEventID le_rfl (by decide) (by decide) le_rfl
  have overruns : (handleSSEStream (formatEventID 0 maxInt)).Overruns c.shared :=
    (resumed_start c.shared _).overruns_iff.mpr ⟨0, parsed, present⟩
  obtain ⟨op, r', t', streaming, performed, outcome⟩ :=
    Reader.flush_enabled (r := handleSSEStream (formatEventID 0 maxInt)) (.inl rfl) unlocked
  obtain ⟨-, panicked, lost⟩ := outcome.resolve_right fun survived => survived.1 overruns
  have acted : goroutines.act c.shared (.reader (handleSSEStream (formatEventID 0 maxInt))) .proceed =
      some (op, .reader r') := by
    simp [goroutines, Goroutine.act, streaming]
  have inside : 0 < c.threads.length := (List.getElem?_eq_some_iff.mp found).1
  refine ⟨c, _, r', run, System.step_act found acted performed, List.getElem?_set_self inside, panicked, ?_⟩
  exact fun msg => if_neg lost

/-- What a client has after any number of GETs, each with the id of the last message it has. -/
inductive Obtained (c : Session) (first : String) : List StreamableMsg → Prop
  | nothing : Obtained c first []
  | more {got part} {i : Nat} {r : Reader} (before : Obtained c first got) (found : c.threads[i]? = some (.reader r))
      (resumes : r.lastEventID = (got.getLast?.map (·.eventID)).getD first) (read : part <+: r.written) :
      Obtained c first (got ++ part)

variable {sid : StreamID} {start : Nat} {got : List StreamableMsg}

theorem resumePoint_last (reachable : session.Reachable c) (point : resumePoint lastEventID = (sid, ↑start))
    (read : got <+: (c.shared.messages sid).drop start) :
    resumePoint ((got.getLast?.map (·.eventID)).getD lastEventID) = (sid, ↑(start + got.length)) := by
  obtain rfl | ⟨got, m, rfl⟩ := got.eq_nil_or_concat
  · exact point
  · obtain ⟨later, split⟩ := read
    have last : (c.shared.messages sid)[start + got.length]? = some m := by
      rw [← List.getElem?_drop, ← split]
      simp
    obtain ⟨named, fits, below⟩ := indexed reachable sid _ m last
    have next := resumePoint_of_acknowledged
      (parseEventID_formatEventID fits.1 fits.2 (Int.natCast_nonneg _) below.le)
    rw [wrap_of_fits (by unfold minInt; omega) (by omega), ← named] at next
    simpa [Int.add_assoc] using next

/-- However often it reconnects, a client gets a stream in order, without gaps or repetitions. -/
theorem reconnects_in_order (reachable : session.Reachable c) (point : resumePoint lastEventID = (sid, ↑start))
    (obtained : Obtained c lastEventID got) : got <+: (c.shared.messages sid).drop start := by
  induction obtained with
  | nothing => exact List.nil_prefix
  | @more got part i r before found resumes read ih =>
    have reader := resumed reachable found
    have next : r.written <+: (c.shared.messages sid).drop (start + got.length) := by
      rw [reader.read.exact, reader.stream, resumes, resumePoint_last reachable point ih, List.drop_take]
      exact List.take_prefix ..
    obtain ⟨later, split⟩ := ih
    rw [← List.drop_drop, ← split, List.drop_left] at next
    rw [← split]
    exact (List.prefix_append_right_inj got).mpr (read.trans next)

theorem reconnects_in_order_twice : ∃ events c r r', session.run session.start events = some c ∧ r'.written.length = 1 ∧
    c.threads = [.reader r, .reader r'] ∧ r.written.take 1 ++ r'.written <+: (c.shared.messages 0).drop 0 :=
  have run : session.run session.start
      (resumeRun "" ++ [.act 0 .proceed, .spawn (.get (formatEventID 0 0)), .act 1 .proceed]) = some _ := rfl
  ⟨_, _, _, _, run, rfl, rfl, reconnects_in_order ⟨_, run⟩ rfl
    (.more (.more .nothing (i := 0) rfl rfl ⟨[_], rfl⟩) (i := 1) rfl rfl List.prefix_rfl)⟩

end Mcp.Streamable
