import Mcp.Streamable.Client
import Mcp.Streamable.Resume
import Mcp.Streamable.Routing

namespace Mcp.Streamable
open Mcp.Lib StreamableServerTransport

variable {s : Session} {h h' : StreamableHTTPHandler} {c c' : StreamableClientConnection} {w w' : World}

def Unsolicited (t : StreamableServerTransport) : Prop := ∀ m ∈ t.messages 0, m.message.method ≠ ""

variable {t t' : StreamableServerTransport} {r : Reader} {k : Nat}

theorem wrote_standalone {msg : JSONRPCMessage} (tracked : t.Tracked) (wrote : Wrote t msg 0 t') : msg.method ≠ "" := by
  have elsewhere {k : Key} (route : t.clientRequestStreams k = some 0) : False :=
    absurd (tracked.positive k 0 route) (by decide)
  generalize standalone : (0 : StreamID) = sid at wrote
  cases wrote with
  | notification kind | request kind => exact kind.2
  | response _ _ route =>
    subst standalone
    exact (elsewhere route).elim
  | unmatched => exact absurd standalone (by decide)
  | blank _ route =>
    subst standalone
    rcases route with route | ⟨-, other⟩
    · exact (elsewhere route).elim
    · exact absurd other (by decide)

theorem Unsolicited.step {op : Op} (tracked : t.Tracked)
    (unsolicited : Unsolicited t) (step : t.perform op = some t') : Unsolicited t' := by
  obtain same | ⟨msg, sid, -, wrote, -⟩ := perform_messages step
  · rw [Unsolicited, same]
    exact unsolicited
  · rw [Unsolicited, wrote.messages]
    by_cases here : 0 = sid
    · subst here
      rw [Function.update_self]
      intro m member
      rcases List.mem_append.mp member with old | new
      · exact unsolicited m old
      · obtain rfl := List.mem_singleton.mp new
        exact wrote_standalone tracked wrote
    · rw [Function.update_of_ne here]
      exact unsolicited

theorem unsolicited (reachable : session.Reachable s) : Unsolicited s.shared := by
  have both : s.shared.Tracked ∧ Unsolicited s.shared :=
    transport_invariant (P := fun t => t.Tracked ∧ Unsolicited t) ⟨⟨Or.inl rfl, nofun⟩, nofun⟩
      (fun t op t' holds admissible step => ⟨holds.1.step admissible step, holds.2.step holds.1 step⟩)
      reachable
  exact both.2

theorem reader_unsolicited {i : Nat} (reachable : session.Reachable s)
    (found : s.threads[i]? = some (.reader r)) (first : r.lastEventID = "") :
    ∀ m ∈ r.written, m.message.method ≠ "" := by
  have resumed := resumed reachable found
  have standalone : r.resumeStreamID = 0 := by
    rw [resumed.stream, first]
    decide
  intro m member
  rw [resumed.read.exact, standalone] at member
  exact unsolicited reachable m (List.mem_of_mem_take (List.mem_of_mem_drop member))

structure Attached (h : StreamableHTTPHandler) (c : StreamableClientConnection) : Prop where
  stream : ∃ r, h.goroutine c.eventSource.place = some (.reader r) ∧ r.lastEventID = ""
  sending : ∀ msg id, c.pc = .sending msg id → msg.method ≠ ""
  delivered : ∀ msg ∈ c.delivered, msg.method ≠ ""

theorem Attached.keeps (attached : Attached h c) (kept : h.KeepsStreams h') : Attached h' c := by
  obtain ⟨r, found, first⟩ := attached.stream
  obtain ⟨r', found', same⟩ := kept _ r found
  exact ⟨⟨r', found', same.trans first⟩, attached.sending, attached.delivered⟩

theorem body_unsolicited {source : EventSource} {out : StreamableMsg} (sound : h.Sound)
    (found : h.goroutine source.place = some (.reader r)) (first : r.lastEventID = "")
    (member : .message out ∈ source.body h) : out.message.method ≠ "" := by
  obtain ⟨s, here, thread⟩ := Option.bind_eq_some_iff.mp found
  simp only [EventSource.body, found, List.mem_cons, List.mem_map, reduceCtorEq, false_or,
    SSEEvent.message.injEq, exists_eq_right] at member
  exact reader_unsolicited (sound _ s here) thread first out member

theorem Attached.processEvents (sound : h.Sound) (attached : Attached h c)
    (moved : c.processEvents h = some c') : Attached h c' := by
  obtain ⟨r, found, first⟩ := attached.stream
  unfold StreamableClientConnection.processEvents at moved
  split at moved
  · next here =>
      obtain ⟨evt, next, rfl⟩ := Option.map_eq_some_iff.mp moved
      cases evt with
      | endpoint sessionID => exact ⟨⟨r, found, first⟩, attached.sending, attached.delivered⟩
      | message out =>
        have solicited := body_unsolicited sound found first (List.mem_of_getElem? next)
        simp only [StreamableClientConnection.handleMessageEvent, unmarshal_marshal]
        refine ⟨⟨r, found, first⟩, ?_, attached.delivered⟩
        rintro msg id ⟨⟩
        exact solicited
  · cases moved

theorem Attached.push (attached : Attached h c) (moved : c.push = some c') : Attached h c' := by
  unfold StreamableClientConnection.push at moved
  split at moved
  · next msg id here =>
      split_ifs at moved
      cases moved
      refine ⟨attached.stream, nofun, fun m member => ?_⟩
      rcases List.mem_append.mp member with old | new
      · exact attached.delivered m old
      · obtain rfl := List.mem_singleton.mp new
        exact attached.sending m id here
  · cases moved

theorem Attached.frame (attached : Attached h c) (source : c'.eventSource = c.eventSource)
    (pc : c'.pc = c.pc ∨ c'.pc = .scanning ∨ c'.pc = .ended) (delivered : c'.delivered = c.delivered) :
    Attached h c' := by
  refine ⟨source ▸ attached.stream, fun msg id here => ?_, delivered ▸ attached.delivered⟩
  rcases pc with same | other | other
  · exact attached.sending msg id (same ▸ here)
  · rw [other] at here
    cases here
  · rw [other] at here
    cases here

theorem Attached.setWrite (attached : Attached h c) (k : Nat) (call : WriteCall) : Attached h (c.setWrite k call) :=
  attached.frame rfl (.inl rfl) rfl

theorem Attached.post {randText : String} {hasServer : Bool} (sound : h.Sound)
    (attached : Attached h c) (moved : c.post h k randText hasServer = some (h', c')) : h'.Sound ∧ Attached h' c' := by
  obtain ⟨call, -, moved⟩ := Option.bind_eq_some_iff.mp moved
  cases here : call.pc with
  | posting sessionID =>
    simp only [here, unmarshal_marshal] at moved
    split at moved
    · cases moved
      exact ⟨sound, attached.setWrite k _⟩
    · next n h₁ found =>
        obtain ⟨⟨place, h₂⟩, served, same⟩ := Option.map_eq_some_iff.mp moved
        cases same
        obtain ⟨sound₁, kept₁⟩ := StreamableHTTPHandler.findSession_sound sound found
        obtain ⟨sound₂, kept₂⟩ := StreamableHTTPHandler.serve_sound sound₁ served
        exact ⟨sound₂, (attached.keeps (kept₁.trans kept₂)).setWrite k _⟩
  | waiting | returned => simp [here] at moved

theorem Attached.respond (attached : Attached h c) (moved : c.respond h k = some c') : Attached h c' := by
  obtain ⟨call, -, moved⟩ := Option.bind_eq_some_iff.mp moved
  split at moved
  · split at moved
    · obtain ⟨status, -, rfl⟩ := Option.map_eq_some_iff.mp moved
      exact attached.setWrite k _
    · cases moved
  · cases moved

theorem Attached.abort (attached : Attached h c) (moved : c.abort k = some c') : Attached h c' := by
  obtain ⟨call, -, moved⟩ := Option.bind_eq_some_iff.mp moved
  split at moved
  · cases moved
  · cases moved
    exact attached.setWrite k _

theorem Attached.drop (attached : Attached h c) (moved : c.drop = some c') : Attached h c' := by
  unfold StreamableClientConnection.drop at moved
  split at moved
  · split_ifs at moved
    cases moved
    exact attached.frame rfl (.inr (.inl rfl)) rfl
  · cases moved

theorem Attached.ends (attached : Attached h c)
    (moved : c.eof h = some c' ∨ (∃ err, c.scanError err = some c') ∨ c.stop = some c') : Attached h c' := by
  unfold StreamableClientConnection.eof StreamableClientConnection.scanError StreamableClientConnection.stop at moved
  rcases moved with moved | ⟨err, moved⟩ | moved
  all_goals
    split at moved
    · split_ifs at moved
      cases moved
      exact attached.frame rfl (.inr (.inr rfl)) rfl
    · cases moved

theorem Attached.read (attached : Attached h c) (moved : c.read = some c' ∨ c.readError = some c') : Attached h c' := by
  rcases moved with moved | moved
  · unfold StreamableClientConnection.read at moved
    split at moved <;> cases moved
    exact attached.frame rfl (.inl rfl) rfl
  · unfold StreamableClientConnection.readError at moved
    split at moved <;> cases moved
    exact attached.frame rfl (.inl rfl) rfl

theorem attached_alone {moved : Option StreamableClientConnection} (sound : h.Sound)
    (attached : ∀ c', moved = some c' → Attached h c')
    (acted : moved.map (fun c => (h, c)) = some (h', c')) : h'.Sound ∧ Attached h' c' := by
  obtain ⟨c₁, here, same⟩ := Option.map_eq_some_iff.mp acted
  cases same
  exact ⟨sound, attached _ here⟩

theorem Attached.act {a : ClientAction} (sound : h.Sound) (attached : Attached h c)
    (moved : c.act h a = some (h', c')) : h'.Sound ∧ Attached h' c' := by
  cases a with
  | scan => exact attached_alone sound (fun _ => attached.processEvents sound) moved
  | push => exact attached_alone sound (fun _ => attached.push) moved
  | drop => exact attached_alone sound (fun _ => attached.drop) moved
  | eof => exact attached_alone sound (fun _ moved => attached.ends (.inl moved)) moved
  | scanError err => exact attached_alone sound (fun _ moved => attached.ends (.inr (.inl ⟨err, moved⟩))) moved
  | stop => exact attached_alone sound (fun _ moved => attached.ends (.inr (.inr moved))) moved
  | respond k => exact attached_alone sound (fun _ => attached.respond) moved
  | abort k => exact attached_alone sound (fun _ => attached.abort) moved
  | read => exact attached_alone sound (fun _ taken => attached.read (.inl taken)) moved
  | readError => exact attached_alone sound (fun _ taken => attached.read (.inr taken)) moved
  | post k randText hasServer => exact attached.post sound moved
  | write | close | cancel =>
    cases moved
    exact ⟨sound, attached.frame rfl (.inl rfl) rfl⟩

structure World.Wired (w : World) : Prop where
  handler : w.handler.Sound
  client : ∀ c, w.client = some c → Attached w.handler c

theorem World.Wired.step {e : WorldEvent} (wired : w.Wired) (step : w.step e = some w') : w'.Wired := by
  cases e with
  | server e =>
    obtain ⟨h, moved, rfl⟩ := Option.map_eq_some_iff.mp step
    obtain ⟨sound, kept⟩ := StreamableHTTPHandler.step_sound wired.handler moved
    exact ⟨sound, fun c connected => (wired.client c connected).keeps kept⟩
  | connect randText hasServer =>
    simp only [World.step] at step
    split at step
    · cases step
    · obtain ⟨⟨h₂, c⟩, made, rfl⟩ := Option.map_eq_some_iff.mp step
      obtain ⟨⟨n, h₁⟩, found, made⟩ := Option.bind_eq_some_iff.mp made
      obtain ⟨⟨place, h₂⟩, served, same⟩ := Option.map_eq_some_iff.mp made
      cases same
      have sound₁ := (StreamableHTTPHandler.findSession_sound wired.handler found).1
      refine ⟨(StreamableHTTPHandler.serve_sound sound₁ served).1, ?_⟩
      rintro _ ⟨⟩
      exact ⟨⟨_, StreamableHTTPHandler.serve_get served, rfl⟩, nofun, nofun⟩
  | client a =>
    obtain ⟨c, connected, step⟩ := Option.bind_eq_some_iff.mp step
    obtain ⟨⟨h, c'⟩, moved, rfl⟩ := Option.map_eq_some_iff.mp step
    obtain ⟨sound, attached⟩ := (wired.client c connected).act wired.handler moved
    refine ⟨sound, ?_⟩
    rintro _ ⟨⟩
    exact attached

theorem wired {maxSessions : Nat} (reachable : (world maxSessions).Reachable w) : w.Wired :=
  reachable.invariant (P := World.Wired)
    ⟨fun n s found => by simp [world] at found, fun c connected => by simp [world] at connected⟩
    fun _ _ _ wired step => wired.step step

def JSONRPCMessage.answers (msg request : JSONRPCMessage) : Bool :=
  msg.method == "" && msg.id.key? == request.id.key?

/-- After the request of the `k`-th `Write` had reached its session, the server wrote a response to
it there. -/
def Answered (maxSessions : Nat) (events : List WorldEvent) (k : Nat) : Prop :=
  ∃ before after w c call place s response,
    events = before ++ .server (.call place.session (.write response)) :: after ∧
    (world maxSessions).run (world maxSessions).start before = some w ∧ w.client = some c ∧
    c.writes[k]? = some call ∧ call.handledBy = some place ∧
    w.handler.transports[place.session]? = some s ∧ s.shared.isDone = false ∧
    response.IsResponse ∧ response.answers call.msg

/-- Whatever the interleaving, a request that a `Write` of the client posted with the result nil and
that the server then answered has no response among the messages put on `incomingCh`. -/
theorem answered_never_delivered {maxSessions : Nat} {events : List WorldEvent}
    (run : (world maxSessions).run (world maxSessions).start events = some w) :
    ∀ (k : Nat) c call, w.client = some c → c.writes[k]? = some call → call.msg.IsRequest →
      call.pc = .returned none → Answered maxSessions events k →
      c.delivered.countP (·.answers call.msg) ≠ 1 := by
  intro k c call connected _ _ _ _
  have attached := (wired ⟨events, run⟩).client c connected
  have none : c.delivered.countP (·.answers call.msg) = 0 := by
    refine List.countP_eq_zero.mpr fun msg member answers => ?_
    have method : msg.method = "" := by
      simp only [JSONRPCMessage.answers, Bool.and_eq_true, beq_iff_eq] at answers
      exact answers.1
    exact attached.delivered msg member method
  rw [none]
  exact Nat.zero_ne_one

def WorldEvent.Internal : WorldEvent → Prop
  | .server (.act _ (.offer .ctxDone)) | .server (.act _ (.select .ctxDone)) => False
  | .server (.act _ _) => True
  | .client .scan | .client .push | .client .drop | .client .eof | .client .stop => True
  | .client (.post _ _ _) | .client (.respond _) => True
  | _ => False

def World.Quiescent (w : World) : Prop := ∀ e : WorldEvent, e.Internal → w.step e = none

def toolCall : JSONRPCMessage := { id := .float64 1, method := "tools/call", jsonrpc := "2.0" }

def progressReport : JSONRPCMessage := { method := "notifications/progress", jsonrpc := "2.0" }

def postedRun : List WorldEvent :=
  [.connect "A" true, .client .scan,
    .server (.act ⟨0, 0⟩ .proceed), .server (.act ⟨0, 0⟩ .proceed),
    .client (.write toolCall), .client (.post 0 "B" true),
    .server (.act ⟨0, 1⟩ .proceed), .server (.act ⟨0, 1⟩ (.offer .incoming)), .server (.call 0 .read),
    .server (.act ⟨0, 1⟩ .proceed), .server (.act ⟨0, 1⟩ .proceed),
    .server (.call 0 (.write progressReport)),
    .server (.act ⟨0, 1⟩ (.select .signal)), .server (.act ⟨0, 1⟩ .proceed),
    .server (.act ⟨0, 1⟩ .proceed), .server (.act ⟨0, 1⟩ .proceed),
    .client (.respond 0), .server (.act ⟨0, 1⟩ .proceed), .server (.act ⟨0, 1⟩ .proceed)]

def repliedRun : List WorldEvent :=
  postedRun ++ [.server (.call 0 (.write (answer 1))),
    .server (.act ⟨0, 1⟩ (.select .signal)), .server (.act ⟨0, 1⟩ .proceed),
    .server (.act ⟨0, 1⟩ .proceed), .server (.act ⟨0, 1⟩ .proceed)]

theorem repliedRun_answered : Answered 1000 repliedRun 0 := by
  obtain ⟨w, c, call, s, run, connected, made, handled, found, alive, same⟩ :
      ∃ w c written s, (world 1000).run (world 1000).start postedRun = some w ∧ w.client = some c ∧
        c.writes[0]? = some written ∧ written.handledBy = some ⟨0, 1⟩ ∧
        w.handler.transports[0]? = some s ∧ s.shared.isDone = false ∧ written.msg = toolCall :=
    ⟨_, _, _, _, rfl, rfl, rfl, rfl, rfl, rfl, rfl⟩
  refine ⟨postedRun, _, w, c, call, ⟨0, 1⟩, s, answer 1, rfl, run, connected, made, handled, found, alive,
    by decide, ?_⟩
  rw [same]
  rfl

theorem repliedRun_not_delivered :
    ∃ w c written, (world 1000).run (world 1000).start repliedRun = some w ∧ w.Quiescent ∧
      w.client = some c ∧ c.writes[0]? = some written ∧ written.msg = toolCall ∧ written.pc = .returned none ∧
      Answered 1000 repliedRun 0 ∧ ¬c.delivered.countP (·.answers written.msg) = 1 := by
  refine ⟨_, _, _, rfl, ?_, rfl, rfl, rfl, rfl, repliedRun_answered, Nat.zero_ne_one⟩
  intro e internal
  cases e with
  | connect => cases internal
  | server e =>
    cases e with
    | act place a =>
      rcases place with ⟨_ | n, _ | _ | i⟩
      · cases a with
        | proceed | offer => rfl
        | select ready => cases ready <;> first | rfl | cases internal
      · cases a with
        | proceed => rfl
        | offer ready | select ready => cases ready <;> rfl
      all_goals rfl
    | request | call | delete | served => cases internal
  | client a =>
    cases a with
    | scan | push | drop | eof | stop => rfl
    | post k randText hasServer | respond k => rcases k with _ | k <;> rfl
    | scanError | write | abort | read | readError | close | cancel => cases internal

theorem repliedRun_never_delivered :
    ∃ w c written, (world 1000).run (world 1000).start repliedRun = some w ∧ w.client = some c ∧
      c.writes[0]? = some written ∧ c.delivered.countP (·.answers written.msg) ≠ 1 := by
  obtain ⟨w, c, written, run, connected, made, request, returned⟩ :
      ∃ w c written, (world 1000).run (world 1000).start repliedRun = some w ∧ w.client = some c ∧
        c.writes[0]? = some written ∧ written.msg = toolCall ∧ written.pc = .returned none :=
    ⟨_, _, _, rfl, rfl, rfl, rfl, rfl⟩
  refine ⟨w, c, written, run, connected, made, ?_⟩
  exact answered_never_delivered run 0 c written connected made (by rw [request]; decide) returned
    repliedRun_answered

end Mcp.Streamable
