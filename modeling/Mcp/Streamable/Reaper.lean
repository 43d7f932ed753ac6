import Mcp.Streamable.SessionTable

namespace Mcp.Sessions
open Mcp.Lib

variable {h : StreamableHTTPHandler} {c c' : State} {maxSessions sessionTimeout : Int}

def PC.serving : PC → Option Handle
  | .finished _ => none
  | pc => pc.found

def Goroutine.idle : Goroutine → List Handle
  | .reaper (.collect _ _ _ idle _) | .reaper (.cancelling _ idle) => idle
  | _ => []

def Goroutine.serves (n : Handle) : Goroutine → Bool
  | .caller x => x.pc.serving = some n
  | _ => false

-- The request may have been answered.
def Goroutine.recent (n : Handle) (cutoff : Int) : Goroutine → Bool
  | .caller x => x.pc.found = some n && x.since.any (cutoff ≤ ·)
  | _ => false

def Caller.looksUp (x : Caller) : Bool :=
  match x.pc with
  | .lookup p | .register _ p => p.inside
  | _ => false

/-- Of the requests on a session that is looked at while one is being served, some recorded its activity since the
cutoff; and no request takes up a session that is about to be cancelled. -/
def timely (c : State) : Event → Bool
  | .act j (.load n) => match c.threads[j]? with
      | some (.reaper (.collect _ cutoff _ _ _)) => !c.threads.any (·.serves n) || c.threads.any (·.recent n cutoff)
      | _ => true
  | .act i .proceed => match c.threads[i]? with
      | some (.caller x) =>
        !x.looksUp || (c.shared.sessions.lookup x.request.name).all fun n => c.threads.all fun g => n ∉ g.idle
      | _ => true
  | _ => true

/-- The reaper cancels no session that a request is being served on. -/
def SparesOpen (c : State) (l : Event) : Prop :=
  ∀ (i j : Nat) x next n idle, l = .act j .proceed → c.threads[j]? = some (.reaper (.cancelling next (n :: idle))) →
    c.threads[i]? = some (.caller x) → x.pc.serving ≠ some n

variable {n : Handle} {i j : Nat} {x x' y : Caller} {a : Action} {op : Option Op} {new : List Goroutine} {g : Goroutine}
  {l : Event}

theorem PC.found_of_serving {pc : PC} (serving : pc.serving = some n) : pc.found = some n := by
  cases pc with
  | finished found => cases serving
  | _ => exact serving

theorem found_known (reachable : (handler maxSessions sessionTimeout).Reachable c)
    (found : c.threads[i]? = some (.caller x)) (mine : x.pc.found = some n) : n < c.shared.transports.length := by
  refine Machine.Reachable.invariant'
    (P := fun c => ∀ (i : Nat) x n, c.threads[i]? = some (.caller x) → x.pc.found = some n →
      n < c.shared.transports.length)
    (by intro i x n found; simp [Program.machine] at found) (fun c l c' reachable holds step => ?_)
    reachable i x n found mine
  intro i y n found mine
  have grows := length_stepped step
  obtain before | ⟨r, rfl, -⟩ | ⟨a, x, op, new, rfl, before, called, performed⟩ := caller_stepped step found
  · exact (holds i y n before mine).trans_le grows
  · cases mine
  · obtain same | ⟨m, mine', -, present⟩ := called.found_cases
    · exact (holds i x n before (same.symm.trans mine)).trans_le grows
    · obtain rfl := Option.some.inj (mine.symm.trans mine')
      rw [← performed] at present
      exact (owned (reachable.next step)).known present

namespace StreamableHTTPHandler

variable {n : Handle} {t : StreamableServerTransport}

theorem lastActive_touch (known : n < h.transports.length) :
    ∃ t, (h.touch n).transports[n]? = some t ∧ t.lastActive = h.now := by
  refine ⟨{ h.transports[n] with lastActive := h.now }, ?_, rfl⟩
  simp [touch, modify, known]

theorem lastActive_modify {m : Handle} {f : StreamableServerTransport → StreamableServerTransport}
    (made : h.transports[n]? = some t) (kept : (f t).lastActive = t.lastActive ∨ (f t).lastActive = h.now) :
    ∃ t', (h.modify m f).transports[n]? = some t' ∧ (t'.lastActive = t.lastActive ∨ t'.lastActive = h.now) := by
  by_cases same : m = n
  · exact ⟨f t, by simp [modify, made, same], kept⟩
  · exact ⟨t, by simp [modify, made, same], .inl rfl⟩

theorem lastActive_perform (made : h.transports[n]? = some t) (op : Op) :
    ∃ t', (h.perform op).transports[n]? = some t' ∧ (t'.lastActive = t.lastActive ∨ t'.lastActive = h.now) := by
  cases op with
  | make name =>
    have inside := (List.getElem?_eq_some_iff.mp made).1
    exact ⟨t, (List.getElem?_append_left inside).trans made, .inl rfl⟩
  | register name m =>
    rw [perform]
    obtain same | ⟨-, -, -, inserted⟩ := h.register_cases name m
    · exact ⟨t, by rw [same]; exact made, .inl rfl⟩
    · rw [inserted]
      exact lastActive_modify made (.inr rfl)
  | cancel m => exact lastActive_modify made (.inl rfl)
  | touch m => exact lastActive_modify made (.inr rfl)
  | close m =>
    refine lastActive_modify made (.inl ?_)
    unfold StreamableServerTransport.close
    split_ifs <;> rfl
  | exit name m =>
    rw [perform]
    obtain same | ⟨-, removed⟩ := h.exit_cases name m
    · exact ⟨t, by rw [same]; exact made, .inl rfl⟩
    · exact ⟨t, by rw [removed]; exact made, .inl rfl⟩
  | _ => exact ⟨t, made, .inl rfl⟩

theorem now_perform (h : StreamableHTTPHandler) (op : Op) : h.now ≤ (h.perform op).now := by
  cases op with
  | register name m => exact Int.le_of_eq (h.framed_register name m).now.symm
  | exit name m => exact Int.le_of_eq (h.framed_exit name m).now.symm
  | tick d =>
    simp only [perform]
    omega
  | _ => exact Int.le_refl _

end StreamableHTTPHandler

theorem Called.since_cases (called : Called h x a op x' new) :
    x'.since = x.since ∨ x'.since = some h.now ∧ ∃ n, x'.pc.found = some n ∧
      (op = some (.touch n) ∧ x.pc.found = some n ∨
        op = some (.register x.request.name n) ∧ h.registration x.request.name = .inserted ∧ x.pc.making = some n) := by
  cases called with
  | @registered n p here =>
    obtain ⟨m, existing, -⟩ | ⟨-, full | ⟨inserted, -⟩⟩ := h.registration_cases x.request.name
    · exact .inl (by simp only [Caller.register, existing])
    · exact .inl (by simp only [Caller.register, full])
    · have won : x.register h n = { x with pc := .startReaper n, since := some h.now } := by
        simp only [Caller.register, inserted]
      rw [won]
      exact .inr ⟨rfl, n, rfl, .inr ⟨rfl, inserted, by rw [here]; rfl⟩⟩
  | @touched n here =>
    refine .inr ⟨rfl, n, ?_, .inl ⟨rfl, by rw [here]; rfl⟩⟩
    unfold Caller.begin
    split <;> rfl
  | _ => exact .inl rfl

/-- Once a request has recorded its activity, that of its session is no older. -/
def Recorded (h : StreamableHTTPHandler) (x : Caller) : Prop :=
  ∀ time, x.since = some time → time ≤ h.now ∧ ∃ n t, x.pc.found = some n ∧ h.transports[n]? = some t ∧
    time ≤ t.lastActive

theorem Recorded.perform (recorded : Recorded h x) (op : Op) : Recorded (h.perform op) x := by
  intro time since
  obtain ⟨past, n, t, mine, made, later⟩ := recorded time since
  obtain ⟨t', made', same | now⟩ := StreamableHTTPHandler.lastActive_perform made op
  · exact ⟨Int.le_trans past (h.now_perform op), n, t', mine, made', same.symm ▸ later⟩
  · exact ⟨Int.le_trans past (h.now_perform op), n, t', mine, made', now.symm ▸ past⟩

theorem Recorded.effect (recorded : Recorded h x) (op : Option Op) : Recorded (h.effect op) x := by
  cases op with
  | none => exact recorded
  | some op => exact recorded.perform op

theorem Recorded.moved (recorded : Recorded h x) (since : y.since = x.since)
    (mine : ∀ n, x.pc.found = some n → y.pc.found = some n) : Recorded h y := by
  intro time now
  obtain ⟨past, n, t, found, made, later⟩ := recorded time (since.symm.trans now)
  exact ⟨past, n, t, mine n found, made, later⟩

theorem recorded (reachable : (handler maxSessions sessionTimeout).Reachable c)
    (found : c.threads[i]? = some (.caller x)) : Recorded c.shared x := by
  refine Machine.Reachable.invariant'
    (P := fun c => ∀ (i : Nat) x, c.threads[i]? = some (.caller x) → Recorded c.shared x)
    (by intro i x found; simp [Program.machine] at found) (fun c l c' reachable holds step => ?_)
    reachable i x found
  intro i y found
  obtain before | ⟨r, rfl, -⟩ | ⟨a, x, op, new, rfl, before, called, performed⟩ := caller_stepped step found
  · obtain ⟨op, performed⟩ := shared_stepped step
    rw [performed]
    exact (holds i y before).effect op
  · intro time since
    cases since
  · rw [performed]
    obtain same | ⟨now, n, mine, touched⟩ := called.since_cases
    · refine ((holds i x before).effect op).moved same fun n mine => ?_
      obtain kept | ⟨m, -, none, -⟩ := called.found_cases
      · exact kept.trans mine
      · cases none.symm.trans mine
    · intro time since
      obtain rfl := Option.some.inj (now.symm.trans since)
      obtain ⟨rfl, before'⟩ | ⟨rfl, inserted, making⟩ := touched
      · obtain ⟨t, made, last⟩ := StreamableHTTPHandler.lastActive_touch (found_known reachable before before')
        exact ⟨Int.le_refl _, n, t, mine, made, last.symm ▸ Int.le_refl _⟩
      · have known := (owned reachable).bound before (own_of_making reachable before making)
        obtain ⟨t, made, last⟩ := StreamableHTTPHandler.lastActive_touch known
        have put : c.shared.perform (.register x.request.name n) =
            { c.shared.touch n with sessions := c.shared.sessions.insert x.request.name n } := by
          simp only [StreamableHTTPHandler.perform, StreamableHTTPHandler.register, inserted]
        simp only [StreamableHTTPHandler.effect, put]
        exact ⟨Int.le_refl _, n, t, mine, made, last.symm ▸ Int.le_refl _⟩

theorem Goroutine.mentions_of_idle (idle : n ∈ g.idle) : n ∈ g.mentions := by
  cases g with
  | reaper pc => cases pc <;> exact idle
  | _ => cases idle

theorem Acted.idle_cases {g' : Goroutine} (acted : Acted h g a op g' new) (idle : n ∈ g'.idle) :
    n ∈ g.idle ∨ a = .load n ∧ ∃ next cutoff seen idle p t, g = .reaper (.collect next cutoff seen idle p) ∧
      h.transports[n]? = some t ∧ t.lastActive < cutoff := by
  cases acted with
  | collectLocking | collected => exact .inl idle
  | reaped => exact .inl (List.mem_cons_of_mem _ idle)
  | loaded made inside unseen registered =>
    simp only [Goroutine.idle] at idle
    split_ifs at idle with old
    · obtain before | same := List.mem_append.mp idle
      · exact .inl before
      · obtain rfl := List.mem_singleton.mp same
        exact .inr ⟨rfl, _, _, _, _, _, _, rfl, made, old⟩
    · exact .inl idle
  | _ => cases idle

theorem idle_stepped (step : (handler maxSessions sessionTimeout).step c l = some c')
    (found : c'.threads[j]? = some g) (idle : n ∈ g.idle) :
    (∃ (k : Nat) (g : Goroutine), c.threads[k]? = some g ∧ n ∈ g.idle) ∨
      ∃ k next cutoff seen idle p t, l = .act k (.load n) ∧
        c.threads[k]? = some (.reaper (.collect next cutoff seen idle p)) ∧
        c.shared.transports[n]? = some t ∧ t.lastActive < cutoff := by
  cases Program.stepped step with
  | env d => exact .inl ⟨j, g, found, idle⟩
  | spawn b =>
    obtain ⟨-, rfl⟩ | ⟨-, stayed⟩ := System.getElem?_concat_cases found
    · cases b <;> cases idle
    · exact .inl ⟨j, g, stayed, idle⟩
  | @act i a g₀ g₁ op new own unblocked acted =>
    have moved : Acted c.shared g₀ a op g₁ new := Goroutine.acted acted
    obtain ⟨rfl, rfl⟩ | ⟨-, stayed⟩ | member := Program.getElem?_forked_cases found
    · obtain before | ⟨rfl, next, cutoff, seen, old, p, t, rfl, made, late⟩ := moved.idle_cases idle
      · exact .inl ⟨_, _, own, before⟩
      · exact .inr ⟨_, next, cutoff, seen, old, p, t, rfl, own, made, late⟩
    · exact .inl ⟨j, g, stayed, idle⟩
    · obtain rfl | ⟨_, _, rfl⟩ | ⟨_, _, rfl⟩ := moved.forked member
      · cases idle
      · cases idle
      · cases idle

theorem Called.serving_eq (called : Called h x a op x' new) : x.pc.serving = x.pc.found := by
  cases called with
  | _ here => rw [here]; rfl

theorem Called.takes_up
    (called : Called h x a op x' new) {m : Handle} (before : x.pc.found = none) (after : x'.pc.found = some m) :
    a = .proceed ∧ x.looksUp ∧ (h.sessions.lookup x.request.name = some m ∨ x.pc.making = some m) := by
  cases called with
  | found here inside present =>
    cases after
    exact ⟨rfl, by simpa [Caller.looksUp, here] using inside, .inl present⟩
  | registered here inside =>
    refine ⟨rfl, by simpa [Caller.looksUp, here] using inside, ?_⟩
    obtain ⟨m, existing, present⟩ | ⟨-, full | ⟨inserted, -⟩⟩ := h.registration_cases x.request.name
    · simp only [Caller.register, existing] at after
      cases after
      exact .inl present
    · simp only [Caller.register, full] at after
      cases after
    · simp only [Caller.register, inserted] at after
      cases after
      exact .inr (by rw [here]; rfl)
  | missing here =>
    simp only at after
    split_ifs at after <;> cases after
  | @discarded n found here =>
    rw [here] at before
    cases before
    cases after
  | reaperStarted here | serving here | touched here | streamed here | posted here => simp [here, PC.found] at before
  | _ => cases after

theorem serving_stepped (step : (handler maxSessions sessionTimeout).step c l = some c')
    (found : c'.threads[i]? = some (.caller y)) (serving : y.pc.serving = some n) :
    ∃ x, c.threads[i]? = some (.caller x) ∧ y.request = x.request ∧ (x.pc.serving = some n ∨
      x.pc.found = none ∧ l = .act i .proceed ∧ x.looksUp ∧
        (c.shared.sessions.lookup x.request.name = some n ∨ x.pc.making = some n)) := by
  obtain before | ⟨r, rfl, -⟩ | ⟨a, x, op, new, rfl, before, called, -⟩ := caller_stepped step found
  · exact ⟨y, before, rfl, .inl serving⟩
  · cases serving
  · have mine := PC.found_of_serving serving
    obtain same | ⟨m, after, none, -⟩ := called.found_cases
    · exact ⟨x, before, called.request_eq, .inl (called.serving_eq.trans (same.symm.trans mine))⟩
    · obtain ⟨rfl, looks, taken⟩ := called.takes_up none mine
      exact ⟨x, before, called.request_eq, .inr ⟨none, rfl, looks, taken⟩⟩

def Spared (c : State) : Prop :=
  ∀ (i j : Nat) x g n, c.threads[j]? = some g → n ∈ g.idle → c.threads[i]? = some (.caller x) →
    x.pc.serving ≠ some n

theorem recent_of_timely {next cutoff : Int} {seen idle : List Handle} {p : Place}
    (reads : c.threads[j]? = some (.reaper (.collect next cutoff seen idle p))) (ok : timely c (.act j (.load n)))
    (found : c.threads[i]? = some (.caller x)) (serving : x.pc.serving = some n) :
    ∃ (k : Nat) (y : Caller) (time : Int),
      c.threads[k]? = some (.caller y) ∧ y.pc.found = some n ∧ y.since = some time ∧ cutoff ≤ time := by
  have served : c.threads.any (·.serves n) = true :=
    List.any_eq_true.mpr ⟨_, List.mem_of_getElem? found, decide_eq_true serving⟩
  simp only [timely, reads, served, Bool.not_true, Bool.false_or, List.any_eq_true] at ok
  obtain ⟨g, member, recent⟩ := ok
  obtain ⟨k, found⟩ := List.getElem?_of_mem member
  cases g with
  | caller y =>
    simp only [Goroutine.recent, Bool.and_eq_true, decide_eq_true_eq, Option.any_eq_true] at recent
    obtain ⟨mine, time, since, recent⟩ := recent
    exact ⟨k, y, time, found, mine, since, recent⟩
  | _ => cases recent

theorem not_idle_of_timely (found : c.threads[i]? = some (.caller x))
    (looks : x.looksUp) (ok : timely c (.act i .proceed)) (present : c.shared.sessions.lookup x.request.name = some n)
    (other : c.threads[j]? = some g) : n ∉ g.idle := by
  simp only [timely, found, looks, present, Bool.not_true, Bool.false_or, Option.all_some, List.all_eq_true] at ok
  simpa using ok g (List.mem_of_getElem? other)

theorem Spared.stepped (reachable : (handler maxSessions sessionTimeout).Reachable c)
    (spared : Spared c) (ok : timely c l) (step : (handler maxSessions sessionTimeout).step c l = some c') :
    Spared c' := by
  intro i j y g n found idle found' serving
  obtain ⟨x, before, -, same | ⟨none, rfl, looks, taken⟩⟩ := serving_stepped step found' serving
  · obtain ⟨k, g, stayed, idle⟩ | ⟨k, next, cutoff, seen, old, p, t, rfl, reads, made, late⟩ :=
      idle_stepped step found idle
    · exact spared i k x g n stayed idle before same
    · obtain ⟨k, y, time, other, named, since, recent⟩ := recent_of_timely reads ok before same
      obtain ⟨-, m, t', mine, made', later⟩ := recorded reachable other time since
      obtain rfl := Option.some.inj (mine.symm.trans named)
      obtain rfl := Option.some.inj (made.symm.trans made')
      omega
  · obtain ⟨k, g, stayed, idle⟩ | ⟨k, _, _, _, _, _, _, other, -⟩ := idle_stepped step found idle
    · obtain present | making := taken
      · exact not_idle_of_timely before looks ok present stayed idle
      · have mine := (owned reachable).mentioned stayed (Goroutine.mentions_of_idle idle) before
          (own_of_making reachable before making)
        cases none.symm.trans mine
    · cases other

theorem reaper_spares_open (maxSessions sessionTimeout : Int) (events : List Event)
    (each : (handler maxSessions sessionTimeout).EachStep (fun c l => timely c l)
      (handler maxSessions sessionTimeout).start events) :
    (handler maxSessions sessionTimeout).EachStep SparesOpen (handler maxSessions sessionTimeout).start events := by
  refine Machine.EachStep.imp_of_invariant
    (P := fun c => (handler maxSessions sessionTimeout).Reachable c ∧ Spared c)
    (fun c l c' holds ok step => ⟨holds.1.next step, holds.2.stepped holds.1 ok step⟩) ?_ ⟨.start, ?_⟩ each
  · rintro c l ⟨-, spared⟩ i j x next n idle - reaper found
    exact spared i j x _ n reaper (List.mem_cons_self) found
  · intro i j x g n found
    simp [Program.machine] at found

def watchedRun (waits : List Event) : List Event :=
  .spawn (.request ⟨.get, "a", "", true⟩) :: List.replicate 14 (.act 0 .proceed) ++ .act 1 .proceed :: waits ++
    [.act 1 .proceed, .act 1 .proceed, .act 1 (.load 0), .act 1 .proceed, .act 1 .proceed]

-- the GET is older than the timeout, but a notification was posted to its session
theorem reaper_spares_open_posted :
    let events := watchedRun (.env 9 :: .spawn (.request ⟨.post .notification, "a", "", true⟩) ::
      List.replicate 4 (.act 3 .proceed) ++ [.env 2])
    (∃ c x, (handler 5 10).run (handler 5 10).start events = some c ∧ c.shared.now = 11 ∧
      c.threads[0]? = some (.caller x) ∧ x.pc = .stream 0 .select ∧ x.since = some 0) ∧
      (handler 5 10).EachStep SparesOpen (handler 5 10).start events :=
  ⟨⟨_, _, rfl, rfl, rfl, rfl, rfl⟩, reaper_spares_open 5 10 _ (Machine.eachStep_of_checks rfl)⟩

theorem open_stream_reaped :
    ∃ c c' x, (handler 5 10).run (handler 5 10).start (watchedRun [.env 11]).dropLast = some c ∧
      c.threads[0]? = some (.caller x) ∧ x.request.method = .get ∧ x.pc = .stream 0 .select ∧
      c.threads[1]? = some (.reaper (.cancelling 20 [0])) ∧
      (handler 5 10).step c (.act 1 .proceed) = some c' ∧
      c'.shared.transports = [⟨"a", 0, false, true⟩] ∧ ¬ SparesOpen c (.act 1 .proceed) :=
  ⟨_, _, _, rfl, rfl, rfl, rfl, rfl, rfl, rfl, fun spares => spares 0 1 _ 20 0 [] rfl rfl rfl rfl⟩

end Mcp.Sessions
