import Mcp.Streamable.Resume
import Mcp.Streamable.Signals

namespace Mcp.Streamable
open Mcp.Lib StreamableServerTransport

variable {c c' : Session} {t t' : StreamableServerTransport} {p p' : Post} {op : Option Op}

def Post.Final (p : Post) (m : StreamableMsg) : Prop :=
  m.message.id = p.msg.id ∧ m.message.method = ""

def Post.FirstReply (p : Post) (ms : List StreamableMsg) (k : Nat) : Prop :=
  (∃ m, ms[k]? = some m ∧ p.Final m) ∧ ∀ (j : Nat) m, j < k → ms[j]? = some m → ¬p.Final m

def PostPC.Registered : PostPC → Prop
  | .check | .select | .unregister _ => True
  | _ => False

structure Replying (t : StreamableServerTransport) (p : Post) : Prop where
  read : HasRead (t.messages p.sid) 0 p.written.length p.written
  next : (∀ out, p.pc ≠ .emit out) → p.next = p.written.length
  emitting : ∀ out, p.pc = .emit out → p.next = p.written.length + 1
  pending : ∀ out, p.pc = .unregister (some out) ∨ p.pc = .emit out →
    (t.messages p.sid)[p.written.length]? = some out
  hashable : p.pc = .receive ∨ p.pc = .panicked ∨ p.msg.id.key?.isSome
  registered : p.pc.Registered → p.signalCh ≠ none
  unanswered : p.pc ≠ .finished → ∀ (j : Nat) m, p.written[j]? = some m → ¬p.Final m
  answered : p.pc = .finished → ∃ k, p.written.length = k + 1 ∧ p.FirstReply p.written k

theorem replying_start (t : StreamableServerTransport) (msg : JSONRPCMessage) (sid : StreamID) :
    Replying t { msg := msg, sid := sid } where
  read := hasRead_start _ _
  next _ := rfl
  emitting := nofun
  pending := nofun
  hashable := .inl rfl
  registered := nofun
  unanswered _ := nofun
  answered := nofun

theorem Replying.step {op : Op} (replying : Replying t p) (step : t.perform op = some t') : Replying t' p := by
  obtain same | ⟨msg, sid, -, wrote, -⟩ := perform_messages step
  · exact { replying with read := same ▸ replying.read, pending := same ▸ replying.pending }
  · have stored := wrote.messages
    by_cases here : p.sid = sid
    · subst here
      have appended : t'.messages p.sid = t.messages p.sid ++
          [⟨msg, formatEventID p.sid (t.messages p.sid).length⟩] := by
        rw [stored, Function.update_self]
      refine { replying with read := ?_, pending := fun out here => ?_ }
      · rw [appended]
        exact replying.read.append _
      · have found := replying.pending out here
        have inside := (List.getElem?_eq_some_iff.mp found).1
        rw [appended, List.getElem?_append_left inside]
        exact found
    · have same : t'.messages p.sid = t.messages p.sid := by
        rw [stored, Function.update_of_ne here]
      exact { replying with read := same ▸ replying.read, pending := same ▸ replying.pending }

def PostPC.Idle : PostPC → Prop
  | .unregister (some _) | .emit _ | .finished => False
  | _ => True

theorem Replying.moved {pc : PostPC} {ch : Option ChanID} (replying : Replying t p) (before : p.pc.Idle)
    (after : pc.Idle) (hashable : pc = .receive ∨ pc = .panicked ∨ p.msg.id.key?.isSome)
    (registered : pc.Registered → ch ≠ none) : Replying t { p with pc := pc, signalCh := ch } where
  read := replying.read
  next _ := replying.next fun out emitting => by simp [emitting, PostPC.Idle] at before
  emitting out emitting := by
    obtain rfl : pc = .emit out := emitting
    exact after.elim
  pending out pending := by
    rcases pending with unregistering | emitting
    · obtain rfl : pc = .unregister (some out) := unregistering
      exact after.elim
    · obtain rfl : pc = .emit out := emitting
      exact after.elim
  hashable := hashable
  registered := registered
  unanswered _ := replying.unanswered fun finished => by simp [finished, PostPC.Idle] at before
  answered finished := by
    obtain rfl : pc = .finished := finished
    exact after.elim

theorem Replying.emit {out : StreamableMsg} (replying : Replying t p) (here : p.pc = .emit out) :
    Replying t (p.emit out) := by
  have pending := replying.pending out (.inr here)
  have hashable : p.msg.id.key?.isSome := by simpa [here] using replying.hashable
  have going : p.pc ≠ .finished := by simp [here]
  have unanswered := replying.unanswered going
  obtain ⟨same, compared⟩ := Option.isSome_iff_exists.mp (Any.compare_isSome (v := out.message.id) hashable)
  have last : (p.written ++ [out])[p.written.length]? = some out := List.getElem?_concat_length
  have earlier {j : Nat} {m : StreamableMsg} (before : j < p.written.length)
      (found : (p.written ++ [out])[j]? = some m) : ¬p.Final m :=
    unanswered j m ((List.getElem?_append_left before).symm.trans found)
  have pc : (p.emit out).pc = if same ∧ out.message.method = "" then .finished else .register := by
    simp [Post.emit, compared]
  have final : same = true ∧ out.message.method = "" ↔ p.Final out := by
    rw [Post.Final, ← Any.compare_eq_true hashable, compared, Option.some.injEq]
  constructor
  · change HasRead (t.messages p.sid) 0 (p.written ++ [out]).length (p.written ++ [out])
    rw [List.length_append, List.length_singleton]
    exact replying.read.next pending
  · intro _
    change p.next = (p.written ++ [out]).length
    rw [List.length_append, List.length_singleton]
    exact replying.emitting out here
  · intro o emitting
    rw [pc] at emitting
    split_ifs at emitting
  · intro o pending
    rw [pc] at pending
    split_ifs at pending <;> simp at pending
  · exact .inr (.inr hashable)
  · intro registered
    rw [pc] at registered
    split_ifs at registered <;> exact registered.elim
  · intro open' j m found finalM
    rw [pc] at open'
    obtain ⟨-, rfl⟩ | ⟨before, found'⟩ := System.getElem?_concat_cases found
    · exact open' (if_pos (final.mpr finalM))
    · exact unanswered j m found' finalM
  · intro finished
    rw [pc] at finished
    split_ifs at finished with done
    refine ⟨p.written.length, by simp [Post.emit], ⟨out, last, final.mp done⟩, ?_⟩
    exact fun j m before found => earlier before found

theorem Replying.key_of_pc (replying : Replying t p) (received : p.pc ≠ .receive) (alive : p.pc ≠ .panicked) :
    p.msg.id.key?.isSome :=
  (replying.hashable.resolve_left received).resolve_left alive

theorem Replying.handled (replying : Replying t p) (handled : p.Handled t op p') : Replying t p' := by
  cases handled with
  | received here =>
    refine replying.moved (by simp [here, PostPC.Idle]) ?_ ?_ ?_
    · split_ifs <;> trivial
    · split_ifs with hashable
      · exact .inr (.inr hashable)
      · exact .inr (.inl rfl)
    · split_ifs <;> nofun
  | offered here =>
    refine replying.moved (by simp [here, PostPC.Idle]) ?_
      (.inr (.inr (replying.key_of_pc (by simp [here]) (by simp [here])))) ?_
    · split_ifs <;> trivial
    · split_ifs <;> nofun
  | refused here | failed here =>
    exact replying.moved (by simp [here, PostPC.Idle]) trivial
      (.inr (.inr (replying.key_of_pc (by simp [here]) (by simp [here])))) nofun
  | registered here =>
    exact replying.moved (by simp [here, PostPC.Idle]) trivial
      (.inr (.inr (replying.key_of_pc (by simp [here]) (by simp [here])))) (fun _ => nofun)
  | exhausted here | blocked here | stopped here | woken here =>
    exact replying.moved (by simp [here, PostPC.Idle]) trivial
      (.inr (.inr (replying.key_of_pc (by simp [here]) (by simp [here]))))
      (fun _ => replying.registered (by simp [here, PostPC.Registered]))
  | @found out here found =>
    have next : p.next = p.written.length := replying.next (by simp [here])
    exact { replying with
      next := fun _ => next
      emitting := nofun
      pending := fun out' pending => by
        simp only [PostPC.unregister.injEq, Option.some.injEq, reduceCtorEq, or_false] at pending
        rw [← pending, ← next]
        exact found
      hashable := .inr (.inr (replying.key_of_pc (by simp [here]) (by simp [here])))
      registered := fun _ => replying.registered (by simp [here, PostPC.Registered])
      unanswered := fun _ => replying.unanswered (by simp [here])
      answered := nofun }
  | @returned ch out here own =>
    have next : p.next = p.written.length := replying.next (by simp [here])
    exact { replying with
      next := fun idle => absurd rfl (idle out)
      emitting := fun _ _ => congrArg (· + 1) next
      pending := fun out' pending => by
        simp only [PostPC.emit.injEq, reduceCtorEq, false_or] at pending
        rw [← pending]
        exact replying.pending out (.inl here)
      hashable := .inr (.inr (replying.key_of_pc (by simp [here]) (by simp [here])))
      registered := nofun
      unanswered := fun _ => replying.unanswered (by simp [here])
      answered := nofun }
  | emitted here => exact replying.emit here

variable {i j k : Nat} {g g' : Goroutine} {m : StreamableMsg}

theorem replying (reachable : session.Reachable c) (found : c.threads[i]? = some (.post p)) : Replying c.shared p := by
  have holds := System.thread_invariant (I := fun _ => True)
    (P := fun t (g : Goroutine) => ∀ p, g = .post p → Replying t p) (fun _ _ => trivial)
    (fun t request op g t' _ started performed => ?_)
    (fun t g a op g' _ replying moved => ?_)
    (fun t op t' g replying step p same => (replying p same).step step) reachable found
  · exact holds p rfl
  · cases request <;> cases started
    · nofun
    · rintro p ⟨⟩
      exact replying_start t' _ _
  · cases Goroutine.acted moved with
    | reader => nofun
    | @post p p' _ handled =>
      rintro _ ⟨⟩
      exact (replying p rfl).handled handled

structure Waiting (t : StreamableServerTransport) (p : Post) : Prop where
  check : p.pc = .check → ∃ ch, p.signalCh = some ch ∧ t.signals p.sid = some ch
  select : p.pc = .select → ∃ ch, p.signalCh = some ch ∧ t.board.Watched p.sid ch p.next

theorem Waiting.step {op : Op} (waiting : Waiting t p)
    (undisturbed : ∀ ch, p.signalCh = some ch → ch < t.signalChans ∧ Undisturbed p.sid ch op)
    (step : t.perform op = some t') : Waiting t' p := by
  constructor
  · intro here
    obtain ⟨ch, own, registered⟩ := waiting.check here
    obtain ⟨bound, undisturbed⟩ := undisturbed ch own
    exact ⟨ch, own, registered_perform registered bound undisturbed step⟩
  · intro here
    obtain ⟨ch, own, watched⟩ := waiting.select here
    obtain ⟨bound, undisturbed⟩ := undisturbed ch own
    exact ⟨ch, own, watched_perform watched bound undisturbed step⟩

theorem Waiting.effect (waiting : Waiting t p)
    (undisturbed : ∀ o ch, op = some o → p.signalCh = some ch → ch < t.signalChans ∧ Undisturbed p.sid ch o)
    (performed : goroutines.effect t op = some t') : Waiting t' p :=
  System.effect_invariant (P := fun t => Waiting t p) waiting
    (fun o _ asked step => waiting.step (fun ch => undisturbed o ch asked) step) performed

theorem Waiting.handled (waiting : Waiting t p) (handled : p.Handled t op p')
    (performed : goroutines.effect t op = some t') : Waiting t' p' := by
  cases handled with
  | received | offered =>
    constructor
    all_goals
      intro here
      dsimp only at here
      split_ifs at here
  | refused | found | exhausted | stopped | returned | failed => exact ⟨nofun, nofun⟩
  | registered =>
    cases effect_performed performed
    exact ⟨fun _ => ⟨_, rfl, Function.update_self _ _ _⟩, nofun⟩
  | blocked here seen =>
    cases performed
    obtain ⟨ch, own, registered⟩ := waiting.check here
    exact ⟨nofun, fun _ => ⟨ch, own, registered, Or.inl seen⟩⟩
  | woken here own =>
    cases effect_performed performed
    obtain ⟨ch, own, watched⟩ := waiting.select here
    exact ⟨fun _ => ⟨ch, own, watched.1⟩, nofun⟩
  | @emitted out here =>
    constructor
    all_goals
      intro here
      simp only [Post.emit] at here
      split at here
      · cases here
      · split_ifs at here

def Goroutine.stream : Goroutine → StreamID
  | .reader r => r.resumeStreamID
  | .post p => p.sid

theorem Goroutine.Acted.stream (acted : g.Acted t op g') : g'.stream = g.stream := by
  cases acted with
  | reader streamed => cases streamed <;> rfl
  | post handled => cases handled <;> rfl

theorem Goroutine.Acted.elsewhere {op : Op} {sid : StreamID}
    (acted : g.Acted t (some op) g') (other : g.stream ≠ sid) : op ≠ .register sid ∧ op ≠ .delete sid := by
  cases acted with
  | reader streamed =>
    cases streamed with
    | panicked _ lost => rcases lost with rfl | rfl <;> exact ⟨nofun, nofun⟩
    | registered => exact ⟨fun same => other (Op.register.inj same), nofun⟩
    | woken => exact ⟨nofun, nofun⟩
    | left => exact ⟨nofun, fun same => other (Op.delete.inj same)⟩
  | post handled =>
    cases handled with
    | registered => exact ⟨fun same => other (Op.register.inj same), nofun⟩
    | received | offered | woken | returned | failed => exact ⟨nofun, nofun⟩

structure Reserved (sid : StreamID) (c : Session) : Prop where
  noReader : ∀ (j : Nat) r, c.threads[j]? = some (.reader r) → r.resumeStreamID ≠ sid
  waiting : ∀ (i : Nat) p, c.threads[i]? = some (.post p) → p.sid = sid → Waiting c.shared p

def OpensElsewhere (sid : StreamID) : Event → Prop
  | .spawn (.get lastEventID) => (resumePoint lastEventID).1 ≠ sid
  | _ => True

variable {sid : StreamID} {l : Event}

theorem Reserved.alone (reachable : session.Reachable c)
    (reserved : Reserved sid c) (found : c.threads[i]? = some (.post p)) (owned : p.sid = sid)
    (other : c.threads[j]? = some g) (different : i ≠ j) : g.stream ≠ sid := by
  intro same
  cases g with
  | reader r => exact reserved.noReader j r other same
  | post q =>
    exact different ((postStreams_fresh reachable).unique found other (congrArg some owned)
      (congrArg some same))

theorem Reserved.noReader_step (reserved : Reserved sid c) (elsewhere : OpensElsewhere sid l)
    (step : session.step c l = some c') :
    ∀ (j : Nat) r, c'.threads[j]? = some (.reader r) → r.resumeStreamID ≠ sid := by
  cases System.stepped step with
  | env => exact reserved.noReader
  | @spawn request _ g _ started performed =>
    intro j r found
    obtain ⟨-, same⟩ | ⟨-, found⟩ := System.getElem?_concat_cases found
    · cases request <;> cases started <;> cases same
      exact elsewhere
    · exact reserved.noReader j r found
  | act found moved performed =>
    intro j r reader
    obtain ⟨-, rfl⟩ | ⟨-, reader⟩ := System.getElem?_set_cases reader
    · have acted := Goroutine.acted moved
      cases acted with
      | @reader r₀ _ _ streamed =>
        have stream : r.resumeStreamID = r₀.resumeStreamID := (Goroutine.Acted.reader streamed).stream
        rw [stream]
        exact reserved.noReader _ _ found
    · exact reserved.noReader j r reader

theorem Reserved.step (reachable : session.Reachable c) (reserved : Reserved sid c)
    (elsewhere : OpensElsewhere sid l) (step : session.step c l = some c') : Reserved sid c' := by
  refine ⟨reserved.noReader_step elsewhere step, ?_⟩
  cases System.stepped step with
  | @env call _ performed =>
    intro i p found owned
    refine (reserved.waiting i p found owned).step (fun ch own => ?_) performed
    exact ⟨channel_bound reachable found own, by cases call <;> trivial⟩
  | @spawn request op g _ started performed =>
    intro i p found owned
    obtain ⟨-, same⟩ | ⟨-, found⟩ := System.getElem?_concat_cases found
    · cases request <;> cases started <;> cases same
      exact ⟨nofun, nofun⟩
    · refine (reserved.waiting i p found owned).effect (fun o ch asked own => ?_) performed
      refine ⟨channel_bound reachable found own, ?_⟩
      subst asked
      cases request <;> cases started
      trivial
  | @act j a g g' op _ found moved performed =>
    intro i p post owned
    have acted := Goroutine.acted moved
    obtain ⟨rfl, rfl⟩ | ⟨different, post⟩ := System.getElem?_set_cases post
    · cases acted with
      | @post p₀ _ _ handled =>
        have stream : p.sid = p₀.sid := (Goroutine.Acted.post handled).stream
        exact (reserved.waiting _ p₀ found (stream.symm.trans owned)).handled handled performed
    · refine (reserved.waiting i p post owned).effect (fun o ch asked own => ?_) performed
      subst asked
      have other : g.signalCh ≠ some ch := fun own' =>
        different (channel_owner reachable post found own own')
      obtain ⟨noRegister, noDelete⟩ :=
        acted.elsewhere (reserved.alone reachable post owned found different)
      rw [← owned] at noRegister noDelete
      exact ⟨channel_bound reachable post own, acted.undisturbed other noRegister noDelete⟩

theorem reserved {events : List Event} (run : session.run session.start events = some c)
    (elsewhere : ∀ l ∈ events, OpensElsewhere sid l) : Reserved sid c := by
  have initial : Reserved sid session.start :=
    ⟨fun j r found => by simp [System.machine] at found, fun i p found => by simp [System.machine] at found⟩
  exact Machine.invariant_of_eachStep initial
    (fun _ _ _ reachable reserved elsewhere step => reserved.step reachable elsewhere step)
    (Machine.eachStep_of_forall elsewhere _) run

theorem Replying.written_of_found (replying : Replying t p)
    (before : j < p.written.length) (found : (t.messages p.sid)[j]? = some m) : p.written[j]? = some m := by
  have exact := replying.read.exact
  rw [List.drop_zero] at exact
  rw [exact, List.getElem?_take_of_lt before]
  exact found

theorem Replying.found_of_written (replying : Replying t p)
    (found : p.written[j]? = some m) : (t.messages p.sid)[j]? = some m := by
  have before := (List.getElem?_eq_some_iff.mp found).1
  have exact := replying.read.exact
  rw [List.drop_zero] at exact
  rw [exact, List.getElem?_take_of_lt before] at found
  exact found

theorem Replying.firstReply (replying : Replying t p) (finished : p.pc = .finished) :
    ∃ k, p.written.length = k + 1 ∧ p.FirstReply (t.messages p.sid) k := by
  obtain ⟨k, length, ⟨m, found, final⟩, earlier⟩ := replying.answered finished
  refine ⟨k, length, ⟨m, replying.found_of_written found, final⟩, fun j m' before found' => ?_⟩
  exact earlier j m' before (replying.written_of_found (by omega) found')

theorem Post.FirstReply.unique {ms : List StreamableMsg} {k' : Nat} (first : p.FirstReply ms k)
    (first' : p.FirstReply ms k') : k = k' := by
  obtain ⟨⟨m, found, final⟩, earlier⟩ := first
  obtain ⟨⟨m', found', final'⟩, earlier'⟩ := first'
  rcases Nat.lt_trichotomy k k' with less | same | more
  · exact absurd final (earlier' k m less found)
  · exact same
  · exact absurd final' (earlier k' m' more found')

theorem Replying.finished_iff (replying : Replying t p) (first : p.FirstReply (t.messages p.sid) k) :
    p.written.length ≤ k + 1 ∧ (p.pc = .finished ↔ p.written = (t.messages p.sid).take (k + 1)) := by
  by_cases finished : p.pc = .finished
  · obtain ⟨k', length, first'⟩ := replying.firstReply finished
    obtain rfl := first.unique first'
    refine ⟨length.le, iff_of_true finished ?_⟩
    have exact := replying.read.exact
    rwa [length, List.drop_zero] at exact
  · obtain ⟨m, found, final⟩ := first.1
    have unanswered := replying.unanswered finished
    have short : p.written.length ≤ k := by
      by_contra long
      exact unanswered k m (replying.written_of_found (not_le.mp long) found) final
    refine ⟨Nat.le_succ_of_le short, iff_of_false finished fun written => ?_⟩
    have length := congrArg List.length written
    have inside := (List.getElem?_eq_some_iff.mp found).1
    rw [List.length_take, min_eq_left (Nat.succ_le_of_lt inside)] at length
    omega

def PostPC.Running : PostPC → Prop
  | .register | .check | .unregister _ | .emit _ => True
  | _ => False

theorem Replying.proceeds (replying : Replying t p) (running : p.pc.Running) (unlocked : t.mu = .free) :
    ∃ op p' t', p.handleMessage t .proceed = some (op, p') ∧ goroutines.effect t op = some t' := by
  have readable : t.mu ≠ .locked := by simp [unlocked]
  cases here : p.pc with
  | register =>
    refine ⟨some (.register p.sid), { p with signalCh := some t.signalChans, pc := .check }, _, ?_,
      if_pos unlocked⟩
    simp only [Post.handleMessage, here]
  | check =>
    cases found : (t.messages p.sid)[p.next]? with
    | some out =>
      refine ⟨none, { p with pc := .unregister (some out) }, t, ?_, rfl⟩
      simp [Post.handleMessage, here, readable, found]
    | none =>
      refine ⟨none, { p with pc := if t.isDone then .unregister none else .select }, t, ?_, rfl⟩
      simp [Post.handleMessage, here, readable, found]
  | unregister out =>
    have registered := replying.registered (by simp [here, PostPC.Registered])
    obtain ⟨ch, own⟩ := Option.ne_none_iff_exists'.mp registered
    obtain ⟨p', handling⟩ :
        ∃ p', p.handleMessage t .proceed = some (some (.deleteOwn p.sid ch), p') := by
      simp [Post.handleMessage, here, own]
    exact ⟨_, _, _, handling, if_pos unlocked⟩
  | emit out =>
    refine ⟨none, p.emit out, t, ?_, rfl⟩
    simp only [Post.handleMessage, here]
  | receive | offer | accepted | refused | select | finished | abandoned | panicked =>
    rw [here] at running
    exact running.elim

theorem step_post {a : Action} (found : c.threads[i]? = some (.post p))
    (handling : p.handleMessage c.shared a = some (op, p')) (performed : goroutines.effect c.shared op = some t') :
    session.step c (.act i a) = some ⟨t', c.threads.set i (.post p')⟩ := by
  refine System.step_act found ?_ performed
  simp [goroutines, Goroutine.act, handling]

/-- In every run without a GET stream on `p.sid`, the reply of the POST is the buffer of its stream
in order, up to the first message with the id of the request and no method and no further. -/
theorem post_reply_complete {events : List Event} {i : Nat}
    (run : session.run session.start events = some c) (found : c.threads[i]? = some (.post p))
    (elsewhere : ∀ l ∈ events, OpensElsewhere p.sid l) :
    p.written = (c.shared.messages p.sid).take p.written.length ∧
    (p.pc = .finished → ∃ k, p.FirstReply (c.shared.messages p.sid) k) ∧
    (∀ k, p.FirstReply (c.shared.messages p.sid) k → p.written.length ≤ k + 1 ∧
      (p.pc = .finished ↔ p.written = (c.shared.messages p.sid).take (k + 1))) ∧
    (p.pc.Running → c.shared.mu = .free → ∃ c', session.step c (.act i .proceed) = some c') ∧
    (p.pc = .select → ∃ ch, p.signalCh = some ch ∧
      (c.shared.signalled ch = true → ∃ c', session.step c (.act i (.select .signal)) = some c') ∧
      (c.shared.signalled ch = false → p.written = c.shared.messages p.sid)) := by
  have replying := replying ⟨events, run⟩ found
  have exact := replying.read.exact
  rw [List.drop_zero] at exact
  refine ⟨exact, fun finished => ?_, fun k first => replying.finished_iff first, fun running unlocked => ?_,
    fun blocked => ?_⟩
  · obtain ⟨k, -, first⟩ := replying.firstReply finished
    exact ⟨k, first⟩
  · obtain ⟨op, p', t', handling, performed⟩ := replying.proceeds running unlocked
    exact ⟨_, step_post found handling performed⟩
  · obtain ⟨ch, own, watched⟩ := ((reserved run elsewhere).waiting i p found rfl).select blocked
    refine ⟨ch, own, fun full => ?_, fun silent => ?_⟩
    · have handling : p.handleMessage c.shared (.select .signal) =
          some (some (.take ch), { p with pc := .check }) := by
        simp only [Post.handleMessage, blocked, own, Option.map_some]
      exact ⟨_, step_post found handling (if_pos full)⟩
    · have seen := watched.seen silent
      rw [replying.next (by simp [blocked])] at seen
      exact replying.read.complete seen

def replyRun : List Event :=
  [.spawn (.post { id := .float64 1, method := "tools/call", jsonrpc := "2.0" }),
    .act 0 .proceed, .act 0 (.offer .incoming), .act 0 .proceed, .act 0 .proceed,
    .env (.write { method := "notifications/progress", jsonrpc := "2.0" }),
    .act 0 (.select .signal), .act 0 .proceed, .act 0 .proceed, .act 0 .proceed,
    .env (.write { id := .float64 1, result := .object [], jsonrpc := "2.0" }),
    .act 0 .proceed, .act 0 .proceed, .act 0 .proceed, .act 0 .proceed]

theorem replyRun_complete :
    ∃ c p, session.run session.start replyRun = some c ∧ c.threads[0]? = some (.post p) ∧
      p.pc = .finished ∧ (c.shared.messages 1).length = 2 ∧ p.written = c.shared.messages 1 := by
  obtain ⟨c, p, run, found, finished, sid, length, two⟩ :
      ∃ c p, session.run session.start replyRun = some c ∧ c.threads[0]? = some (.post p) ∧
        p.pc = .finished ∧ p.sid = 1 ∧ p.written.length = 2 ∧ (c.shared.messages 1).length = 2 :=
    ⟨_, _, rfl, rfl, rfl, rfl, rfl, rfl⟩
  have elsewhere : ∀ l ∈ replyRun, OpensElsewhere p.sid l := by simp [replyRun, OpensElsewhere]
  have written := (post_reply_complete run found elsewhere).1
  rw [sid, length, ← two, List.take_length] at written
  exact ⟨c, p, run, found, finished, two, written⟩

end Mcp.Streamable
