import Mcp.Streamable.Correlation
import Mcp.Streamable.Session

namespace Mcp.Streamable
open Mcp.Lib Function

namespace StreamableServerTransport

variable {t t' : StreamableServerTransport} {msg : JSONRPCMessage}

def Unrouted (t : StreamableServerTransport) (msg : JSONRPCMessage) : Prop :=
  msg.IsNotification ∨
    msg.IsRequest ∧ ∃ k, msg.id.key? = some k ∧ t.serverRequestStreams k = none

/-- Such a message goes to the stream of a request in flight, and to the standalone stream only if
there is none. -/
def Follows (t : StreamableServerTransport) : Prop :=
  ∀ msg sid t', t.Unrouted msg → t.getStreamID msg = .ok (sid, t') →
    ((∃ s, t.InFlight s) → t.InFlight sid) ∧ (sid = 0 → ∀ s, ¬t.InFlight s)

structure Tracked (t : StreamableServerTransport) : Prop where
  last : t.LastInFlight
  positive : ∀ k sid, t.clientRequestStreams k = some sid → 1 ≤ sid

theorem Tracked.step {op : Op} (tracked : t.Tracked) (admissible : Admissible t op)
    (step : t.perform op = some t') : t'.Tracked := by
  refine ⟨tracked.last.step step, ?_⟩
  obtain ⟨msg, sid, rfl, correlated⟩ | ⟨msg, sid, rfl, wrote⟩ | ⟨client, -, -, -⟩ := perform_routes step
  · cases correlated with
    | @request k kind key =>
      intro k' s found
      change update t.clientRequestStreams k (some sid) k' = some s at found
      rw [update_apply] at found
      split_ifs at found
      · exact Option.some.inj found ▸ admissible.1
      · exact tracked.positive k' s found
    | response | notification => exact tracked.positive
  · cases wrote with
    | @response k _ kind key route =>
      intro k' s found
      change update t.clientRequestStreams k none k' = some s at found
      rw [update_apply] at found
      split_ifs at found
      exact tracked.positive k' s found
    | notification | request | unmatched | blank => exact tracked.positive
  · rw [client]
    exact tracked.positive

theorem getStreamID_unrouted {sid : StreamID} (unrouted : t.Unrouted msg)
    (routed : t.getStreamID msg = .ok (sid, t')) : sid = t.lastRequestStream := by
  rcases unrouted with kind | ⟨kind, k, key, absent⟩
  · rw [getStreamID_notification kind] at routed
    cases routed
    rfl
  · rw [getStreamID_request kind key, absent] at routed
    cases routed
    rfl

theorem Tracked.follows_iff (tracked : t.Tracked) :
    t.Follows ↔ (t.lastRequestStream = 0 → ∀ k, t.clientRequestStreams k = none) := by
  constructor
  · intro follows unset k
    have notification : JSONRPCMessage.IsNotification { method := "notifications/progress" } := by decide
    have routed := getStreamID_notification (t := t) notification
    by_contra present
    obtain ⟨sid, found⟩ := Option.ne_none_iff_exists'.mp present
    exact (follows _ _ _ (.inl notification) routed).2 unset sid ⟨k, found⟩
  · intro early msg sid t' unrouted routed
    obtain rfl := getStreamID_unrouted unrouted routed
    have idle (unset : t.lastRequestStream = 0) (s : StreamID) : ¬t.InFlight s := by
      rintro ⟨k, found⟩
      rw [early unset k] at found
      cases found
    refine ⟨?_, idle⟩
    rintro ⟨s, inFlight⟩
    exact tracked.last.resolve_left fun unset => idle unset s inFlight

end StreamableServerTransport

open StreamableServerTransport

variable {c c' : Session} {l : Event}

theorem tracked (reachable : session.Reachable c) : c.shared.Tracked :=
  transport_invariant ⟨Or.inl rfl, nofun⟩ (fun _ _ _ tracked admissible step =>
    tracked.step admissible step) reachable

/-- A response to the request that `lastRequestStream` points at is written only when no other
request is in flight. -/
def AnswersLastAlone (c : Session) : Event → Prop
  | .env (.write msg) =>
    c.shared.isDone = false → msg.IsResponse → ∀ k, msg.id.key? = some k →
      c.shared.clientRequestStreams k = some c.shared.lastRequestStream →
      ∀ k', k' ≠ k → c.shared.clientRequestStreams k' = none
  | _ => True

theorem answersLastAlone_of_label (label : ∀ msg, l ≠ .env (.write msg)) : AnswersLastAlone c l := by
  cases l with
  | env call =>
    cases call with
    | write msg => exact absurd rfl (label msg)
    | read | close => trivial
  | spawn | act => trivial

theorem follows_wrote_iff {t t' : StreamableServerTransport} {msg : JSONRPCMessage} {sid : StreamID}
    (tracked : t.Tracked) (tracked' : t'.Tracked) (follows : t.Follows) (wrote : Wrote t msg sid t') :
    t'.Follows ↔ (msg.IsResponse → ∀ k, msg.id.key? = some k → t.clientRequestStreams k = some t.lastRequestStream →
      ∀ k', k' ≠ k → t.clientRequestStreams k' = none) := by
  rw [tracked.follows_iff] at follows
  rw [tracked'.follows_iff]
  cases wrote with
  | @response k _ kind key route =>
    have unique {k' : Key} (key' : msg.id.key? = some k') : k' = k :=
      Option.some.inj (key'.symm.trans key)
    change ((if t.lastRequestStream = sid then 0 else t.lastRequestStream) = 0 →
      ∀ k', update t.clientRequestStreams k none k' = none) ↔ _
    by_cases same : t.lastRequestStream = sid
    · rw [if_pos same, same]
      constructor
      · intro idle _ k' key' _ other different
        obtain rfl := unique key'
        exact (update_of_ne different _ _).symm.trans (idle rfl other)
      · intro alone _ k'
        rw [update_apply]
        split_ifs with different
        · rfl
        · exact alone kind k key route k' different
    · rw [if_neg same]
      -- The request is in flight, so the register was not 0 and is not touched.
      have set : t.lastRequestStream ≠ 0 := by
        intro unset
        rw [follows unset k] at route
        cases route
      refine iff_of_true (fun unset => absurd unset set) fun _ k' key' last => ?_
      obtain rfl := unique key'
      exact absurd (Option.some.inj (last.symm.trans route)) same
  | @unmatched k kind key route =>
    refine iff_of_true follows fun _ k' key' last => ?_
    obtain rfl := Option.some.inj (key'.symm.trans key)
    rw [route] at last
    cases last
  | notification kind | request kind => exact iff_of_true follows fun response => absurd response.2 kind.2
  | blank kind => exact iff_of_true follows fun response => absurd kind.1 response.1

theorem follows_write_iff {t t' : StreamableServerTransport} {msg : JSONRPCMessage}
    (tracked : t.Tracked) (follows : t.Follows) (step : t.perform (.write msg) = some t') :
    t'.Follows ↔ (t.isDone = false → msg.IsResponse → ∀ k, msg.id.key? = some k →
      t.clientRequestStreams k = some t.lastRequestStream → ∀ k', k' ≠ k → t.clientRequestStreams k' = none) := by
  have tracked' := tracked.step (show Admissible t (.write msg) from trivial) step
  cases performed step with
  | write _ alive _ wrote =>
    rw [follows_wrote_iff tracked tracked' follows wrote]
    exact ⟨fun alone _ => alone, fun alone => alone alive⟩
  | writeClosed closed =>
    refine iff_of_true follows fun alive => ?_
    rw [closed] at alive
    cases alive

theorem follows_perform {t t' : StreamableServerTransport} {op : Op} (tracked : t.Tracked)
    (admissible : Admissible t op) (notWrite : ∀ msg, op ≠ .write msg) (follows : t.Follows)
    (step : t.perform op = some t') : t'.Follows := by
  rw [tracked.follows_iff] at follows
  rw [(tracked.step admissible step).follows_iff]
  obtain ⟨msg, sid, rfl, correlated⟩ | ⟨msg, sid, rfl, -⟩ | ⟨client, -, last, -⟩ := perform_routes step
  · cases correlated with
    | request kind key =>
      intro unset
      have positive : 0 < sid := Int.lt_of_lt_of_le Int.zero_lt_one admissible.1
      exact absurd unset positive.ne'
    | response | notification => exact follows
  · exact absurd rfl (notWrite msg)
  · rw [client, last]
    exact follows

theorem follows_step_iff (reachable : session.Reachable c) (follows : c.shared.Follows)
    (step : session.step c l = some c') : c'.shared.Follows ↔ AnswersLastAlone c l := by
  have before := tracked reachable
  cases affects reachable step with
  | write performed => exact follows_write_iff before follows performed
  | other op label notWrite admissible performed =>
    exact iff_of_true (follows_perform before admissible notWrite follows performed)
      (answersLastAlone_of_label label)
  | idle label same =>
    rw [same]
    exact iff_of_true follows (answersLastAlone_of_label label)

theorem follows_start : session.start.shared.Follows :=
  (tracked .start).follows_iff.mpr fun _ _ => rfl

/-- Server messages follow the requests in flight throughout a run exactly if a response to the
request received last is written only when it is the only one in flight. -/
theorem notifications_follow_iff {events : List Event} (run : session.run session.start events = some c) :
    session.Always (fun c => c.shared.Follows) session.start events ↔
      session.EachStep AnswersLastAlone session.start events :=
  Machine.always_iff_eachStep (fun _ _ _ reachable follows step =>
    follows_step_iff reachable follows step) .start follows_start run

def answeredRun : List Event :=
  [.spawn (.post { id := .float64 1, method := "tools/call", jsonrpc := "2.0" }),
    .act 0 .proceed,
    .env (.write { id := .float64 1, result := .object [], jsonrpc := "2.0" })]

theorem answeredRun_follows :
    session.Always (fun c => c.shared.Follows) session.start answeredRun := by
  refine (@notifications_follow_iff _ answeredRun rfl).mpr
    (.cons trivial rfl (.cons trivial rfl (.cons ?_ rfl trivial)))
  rintro - - k ⟨⟩ - k' different
  exact update_of_ne different _ _

def overtakingRun : List Event :=
  [.spawn (.post { id := .float64 1, method := "tools/call", jsonrpc := "2.0" }),
    .act 0 .proceed,
    .spawn (.post { id := .float64 2, method := "ping", jsonrpc := "2.0" }),
    .act 1 .proceed,
    .env (.write { id := .float64 2, result := .object [], jsonrpc := "2.0" })]

theorem overtakingRun_forgets_request :
    ∃ c, session.run session.start overtakingRun = some c ∧ c.shared.InFlight 1 ∧
      c.shared.getStreamID { method := "notifications/progress" } = .ok (0, c.shared) ∧
      ¬c.shared.Follows := by
  have inFlight : update (update (update (fun _ => none) (Key.float64 1)
      (some (1 : StreamID))) (Key.float64 2) (some 2)) (Key.float64 2) none (.float64 1) = some 1 := by
    decide
  refine ⟨_, rfl, ⟨.float64 1, inFlight⟩, rfl, fun follows => ?_⟩
  have notification : JSONRPCMessage.IsNotification { method := "notifications/progress" } := by decide
  exact (follows _ _ _ (.inl notification) rfl).2 rfl 1 ⟨.float64 1, inFlight⟩

def firstPost : List Event → Option JSONRPCMessage
  | [] => none
  | .spawn (.post msg) :: _ => some msg
  | _ :: events => firstPost events

theorem firstPost_append (before : List Event) (l : Event) :
    firstPost (before ++ [l]) = (firstPost before).or (firstPost [l]) := by
  induction before with
  | nil => simp [firstPost]
  | cons event before ih =>
    rw [List.cons_append]
    cases event with
    | spawn request => cases request <;> simp [firstPost, ih]
    | env | act => simp [firstPost, ih]

def Owns (c : Session) (sid : StreamID) (first : JSONRPCMessage) : Prop :=
  ∃ (i : Nat) (p : Post), c.threads[i]? = some (.post p) ∧ p.sid = sid ∧ p.msg = first

theorem Goroutine.Acted.msg {t : StreamableServerTransport} {p : Post} {op : Option Op} {g' : Goroutine}
    (acted : Acted t (.post p) op g') : ∃ p', g' = .post p' ∧ p'.sid = p.sid ∧ p'.msg = p.msg := by
  cases acted with
  | post handled => cases handled <;> exact ⟨_, rfl, rfl, rfl⟩

theorem Owns.step {sid : StreamID} {first : JSONRPCMessage} (owns : Owns c sid first)
    (step : session.step c l = some c') : Owns c' sid first := by
  obtain ⟨i, p, found, owned, brought⟩ := owns
  obtain ⟨g, found', rfl | ⟨a, op, moved⟩⟩ := System.thread_stepped step found
  · exact ⟨i, p, found', owned, brought⟩
  · obtain ⟨p', rfl, sid', msg'⟩ := (Goroutine.acted moved).msg
    exact ⟨i, p', found', sid'.trans owned, msg'.trans brought⟩

def FirstStream (before : List Event) (c : Session) : Prop :=
  match firstPost before with
  | none => c.shared.nextStreamID = 0
  | some first => Owns c 1 first

theorem Goroutine.Acted.not_allocate {t : StreamableServerTransport} {g g' : Goroutine} {op : Op}
    (acted : Acted t g (some op) g') : op ≠ .allocate := by
  cases acted with
  | reader streamed =>
    cases streamed with
    | panicked _ lost => rcases lost with rfl | rfl <;> nofun
    | registered | woken | left => nofun
  | post handled =>
    cases handled with
    | received | offered | registered | woken | returned | failed => nofun

theorem FirstStream.step {before : List Event} (first : FirstStream before c)
    (step : session.step c l = some c') : FirstStream (before ++ [l]) c' := by
  unfold FirstStream at first ⊢
  rw [firstPost_append]
  cases known : firstPost before with
  | some msg =>
    rw [known] at first
    exact first.step step
  | none =>
    rw [known] at first
    rw [Option.none_or]
    cases System.stepped step with
    | @env call _ performed =>
      have other : call.op ≠ .allocate := by cases call <;> nofun
      exact (perform_nextStreamID other performed).trans first
    | @spawn request op g t' started performed =>
      cases request <;> cases started
      · cases performed
        exact first
      · cases effect_performed performed
        refine ⟨c.threads.length, _, List.getElem?_concat_length, ?_, rfl⟩
        change c.shared.nextStreamID + 1 = 1
        rw [first]
        rfl
    | act found moved performed =>
      exact System.effect_invariant (P := fun t => t.nextStreamID = 0) first
        (fun op t' asked performed => (perform_nextStreamID
          (Goroutine.acted (asked ▸ moved)).not_allocate performed).trans first) performed

theorem firstStream {events : List Event} (run : session.run session.start events = some c) : FirstStream events c := by
  have initial : FirstStream [] session.start := rfl
  exact Machine.run_history (P := FirstStream) (fun _ _ _ _ first step => first.step step) initial run

theorem owns_first {events : List Event} {i : Nat} {p : Post}
    (run : session.run session.start events = some c) (found : c.threads[i]? = some (.post p))
    (owned : p.sid = 1) : firstPost events = some p.msg := by
  have reachable : session.Reachable c := ⟨events, run⟩
  have first := firstStream run
  unfold FirstStream at first
  cases known : firstPost events with
  | none =>
    rw [known] at first
    change c.shared.nextStreamID = 0 at first
    have range := postStream_range reachable found
    rw [owned, first] at range
    exact absurd range.2 (by decide)
  | some msg =>
    rw [known] at first
    obtain ⟨j, q, found', owned', rfl⟩ := first
    obtain rfl := (postStreams_fresh reachable).unique found found' (congrArg some owned)
      (congrArg some owned')
    obtain rfl : p = q := by simpa using found.symm.trans found'
    rfl

theorem write_unmatched {t t' : StreamableServerTransport} {msg : JSONRPCMessage} {k : Key}
    (response : msg.IsResponse) (key : msg.id.key? = some k) (unmatched : t.clientRequestStreams k = none)
    (written : t.write msg = .ok t') : t'.messages = update t.messages 1
      (t.messages 1 ++ [⟨msg, formatEventID 1 (t.messages 1).length⟩]) := by
  obtain ⟨-, sid, -, wrote⟩ := write_eq_ok written
  have stored := wrote.messages
  cases wrote with
  | unmatched => exact stored
  | response _ key' route =>
    obtain rfl := Option.some.inj (key.symm.trans key')
    rw [unmatched] at route
    cases route
  | notification kind | request kind => exact absurd response.2 kind.2
  | blank kind => exact absurd kind.1 response.1

/-- The streams that grew belong to no POST of a client request with another id. -/
def Isolated (c : Session) (msg : JSONRPCMessage) (t' : StreamableServerTransport) : Prop :=
  ∀ (sid : StreamID) (i : Nat) (p : Post), t'.messages sid ≠ c.shared.messages sid →
    c.threads[i]? = some (.post p) → p.sid = sid → p.msg.IsRequest → p.msg.id = msg.id

/-- A response that answers no request in flight is kept away from the streams of other requests
exactly if the first POST of the session did not bring a request with another id. -/
theorem unmatched_isolated_iff {events : List Event} {msg : JSONRPCMessage} {k : Key}
    {t' : StreamableServerTransport} (run : session.run session.start events = some c)
    (response : msg.IsResponse) (key : msg.id.key? = some k)
    (unmatched : c.shared.clientRequestStreams k = none) (written : c.shared.write msg = .ok t') :
    Isolated c msg t' ↔
      ∀ first, firstPost events = some first → first.IsRequest → first.id = msg.id := by
  have stored := write_unmatched response key unmatched written
  constructor
  · intro isolated first known request
    have owner := firstStream run
    rw [FirstStream, known] at owner
    obtain ⟨i, p, found, owned, rfl⟩ := owner
    refine isolated 1 i p ?_ found owned request
    rw [stored, update_self]
    simp
  · intro condition sid i p grown found owned request
    have same : sid = 1 := by
      by_contra other
      rw [stored, update_of_ne other] at grown
      exact grown rfl
    exact condition p.msg (owns_first run found (owned.trans same)) request

def answer (n : ℚ) : JSONRPCMessage := { id := .float64 n, result := .object [], jsonrpc := "2.0" }

theorem answeredRun_duplicate_isolated :
    let events : List Event :=
      answeredRun ++ [.spawn (.post { id := .float64 2, method := "ping", jsonrpc := "2.0" }), .act 1 .proceed]
    ∃ c t', session.run session.start events = some c ∧ c.shared.clientRequestStreams (.float64 2) = some 2 ∧
      c.shared.write (answer 1) = .ok t' ∧ Isolated c (answer 1) t' := by
  intro events
  obtain ⟨c, run, alive, absent, other, room⟩ : ∃ c, session.run session.start events = some c ∧
      c.shared.isDone = false ∧ c.shared.clientRequestStreams (.float64 1) = none ∧
      c.shared.clientRequestStreams (.float64 2) = some 2 ∧ ((c.shared.messages 1).length : Int) < maxInt :=
    ⟨_, rfl, rfl, by decide, by decide, by decide⟩
  obtain ⟨t', written⟩ : ∃ t', c.shared.write (answer 1) = .ok t' :=
    write_ok_of_reply alive rfl rfl (by rwa [absent, Option.getD_none])
  refine ⟨c, t', run, other, written, ?_⟩
  apply (unmatched_isolated_iff run (by decide) rfl absent written).mpr
  rintro first ⟨⟩ -
  rfl

theorem overtakingRun_duplicate_strays : ∃ c t', session.run session.start overtakingRun = some c ∧
    c.shared.clientRequestStreams (.float64 2) = none ∧ c.shared.write (answer 2) = .ok t' ∧
    ¬Isolated c (answer 2) t' := by
  obtain ⟨c, run, alive, absent, room, p, found, owned, id⟩ :
      ∃ c, session.run session.start overtakingRun = some c ∧
      c.shared.isDone = false ∧ c.shared.clientRequestStreams (.float64 2) = none ∧
      ((c.shared.messages 1).length : Int) < maxInt ∧
      ∃ p, c.threads[0]? = some (.post p) ∧ p.sid = 1 ∧
        p.msg = { id := .float64 1, method := "tools/call", jsonrpc := "2.0" } :=
    ⟨_, rfl, rfl, rfl, by decide, _, rfl, rfl, rfl⟩
  obtain ⟨t', written⟩ : ∃ t', c.shared.write (answer 2) = .ok t' :=
    write_ok_of_reply alive rfl rfl (by rwa [absent, Option.getD_none])
  refine ⟨c, t', run, absent, written, fun isolated => ?_⟩
  have grown : t'.messages 1 ≠ c.shared.messages 1 := by
    rw [write_unmatched (by decide) rfl absent written, update_self]
    simp
  have stray := isolated 1 0 p grown found owned (by rw [id]; decide)
  rw [id] at stray
  exact absurd stray (by simp [answer])

end Mcp.Streamable
