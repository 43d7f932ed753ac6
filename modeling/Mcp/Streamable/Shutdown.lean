import Mcp.Streamable.SessionTable

namespace Mcp.Sessions
open Mcp.Lib

variable {h : StreamableHTTPHandler} {c c' : State} {maxSessions sessionTimeout : Int}

namespace StreamableHTTPHandler

def Cancelled (h : StreamableHTTPHandler) (n : Handle) : Prop :=
  ∃ t, h.transports[n]? = some t ∧ t.cancelled = true

def Left (h : StreamableHTTPHandler) (rest : List Handle) : Prop :=
  ∀ sessionID n, h.sessions.lookup sessionID = some n → h.Cancelled n ∨ n ∈ rest

variable {m n : Handle} {f : StreamableServerTransport → StreamableServerTransport}

theorem Cancelled.modify (cancelled : h.Cancelled n) (kept : ∀ t, t.cancelled = true → (f t).cancelled = true) :
    (h.modify m f).Cancelled n := by
  obtain ⟨t, made, done⟩ := cancelled
  by_cases same : m = n
  · refine ⟨f t, ?_, kept t done⟩
    simp [StreamableHTTPHandler.modify, made, same]
  · refine ⟨t, ?_, done⟩
    simp [StreamableHTTPHandler.modify, made, same]

theorem Cancelled.perform (cancelled : h.Cancelled n) (op : Op) : (h.perform op).Cancelled n := by
  cases op with
  | make name =>
    obtain ⟨t, made, done⟩ := cancelled
    have inside := (List.getElem?_eq_some_iff.mp made).1
    exact ⟨t, (List.getElem?_append_left inside).trans made, done⟩
  | register name m =>
    rw [StreamableHTTPHandler.perform]
    obtain same | ⟨-, -, -, inserted⟩ := h.register_cases name m
    · rwa [same]
    · rw [inserted]
      exact cancelled.modify fun t done => done
  | cancel m => exact cancelled.modify fun t done => rfl
  | touch m => exact cancelled.modify fun t done => done
  | close m =>
    refine cancelled.modify fun t done => ?_
    unfold StreamableServerTransport.close
    split_ifs
    · exact done
    · rfl
  | exit name m =>
    rw [StreamableHTTPHandler.perform]
    obtain same | ⟨-, removed⟩ := h.exit_cases name m
    · rwa [same]
    · rwa [removed]
  | _ => exact cancelled

theorem Cancelled.of_modify
    (cancelled : (h.modify m f).Cancelled n) (kept : m = n → ∀ t, (f t).cancelled = true → t.cancelled = true) :
    h.Cancelled n := by
  obtain ⟨t, made, done⟩ := cancelled
  simp only [StreamableHTTPHandler.modify, List.getElem?_modify, Option.map_eq_map,
    Option.map_eq_some_iff] at made
  obtain ⟨t₀, made, rfl⟩ := made
  by_cases same : m = n
  · rw [if_pos same] at done
    exact ⟨t₀, made, kept same t₀ done⟩
  · rw [if_neg same] at done
    exact ⟨t₀, made, done⟩

theorem Cancelled.of_perform {op : Op} (cancelled : (h.perform op).Cancelled n) :
    h.Cancelled n ∨ op = .cancel n ∨ op = .close n := by
  cases op with
  | make name =>
    obtain ⟨t, made, done⟩ := cancelled
    obtain ⟨-, rfl⟩ | ⟨-, before⟩ := System.getElem?_concat_cases made
    · cases done
    · exact .inl ⟨t, before, done⟩
  | register name m =>
    rw [StreamableHTTPHandler.perform] at cancelled
    obtain same | ⟨-, -, -, inserted⟩ := h.register_cases name m
    · rw [same] at cancelled
      exact .inl cancelled
    · rw [inserted] at cancelled
      exact .inl (Cancelled.of_modify cancelled fun _ t done => done)
  | cancel m =>
    by_cases same : m = n
    · exact .inr (.inl (by rw [same]))
    · exact .inl (Cancelled.of_modify cancelled fun same' => absurd same' same)
  | touch m => exact .inl (Cancelled.of_modify cancelled fun _ t done => done)
  | close m =>
    by_cases same : m = n
    · exact .inr (.inr (by rw [same]))
    · exact .inl (Cancelled.of_modify cancelled fun same' => absurd same' same)
  | exit name m =>
    rw [StreamableHTTPHandler.perform] at cancelled
    obtain same | ⟨-, removed⟩ := h.exit_cases name m
    · rw [same] at cancelled
      exact .inl cancelled
    · rw [removed] at cancelled
      exact .inl cancelled
  | _ => exact .inl cancelled

theorem cancelled_cancel (made : n < h.transports.length) : (h.cancel n).Cancelled n := by
  refine ⟨{ h.transports[n] with cancelled := true }, ?_, rfl⟩
  simp [cancel, modify, made]

theorem Left.perform {rest : List Handle} (left : h.Left rest) (op : Op)
    (old : ∀ sessionID n, op = .register sessionID n → h.registration sessionID ≠ .inserted) :
    (h.perform op).Left rest := by
  intro sessionID n present
  obtain before | ⟨rfl, inserted⟩ := lookup_of_perform present
  · obtain cancelled | member := left sessionID n before
    · exact .inl (cancelled.perform op)
    · exact .inr member
  · exact absurd inserted (old sessionID n rfl)

theorem closeOnce_perform (h : StreamableHTTPHandler) (op : Op) :
    (h.perform op).closeOnce = h.closeOnce ∨ op = .shutdown ∨ op = .snapshot ∧ (h.perform op).closeOnce = .snapped ∨
      op = .closed ∧ (h.perform op).closeOnce = .done := by
  cases op with
  | register name m => exact .inl (h.framed_register name m).closeOnce
  | exit name m => exact .inl (h.framed_exit name m).closeOnce
  | shutdown => exact .inr (.inl rfl)
  | snapshot => exact .inr (.inr (.inl ⟨rfl, rfl⟩))
  | closed => exact .inr (.inr (.inr ⟨rfl, rfl⟩))
  | _ => exact .inl rfl

end StreamableHTTPHandler

def CloseOnce.snapshotTaken : CloseOnce → Bool
  | .snapped | .done => true
  | .unstarted | .started => false

def Caller.inserts (h : StreamableHTTPHandler) (x : Caller) : Bool :=
  match x.pc with
  | .register _ p => p.inside && h.registration x.request.name = .inserted
  | _ => false

def lateInsert (c : State) : Event → Bool
  | .act i _ => match c.threads[i]? with
      | some (.caller x) => x.inserts c.shared && c.shared.closeOnce.snapshotTaken
      | _ => false
  | _ => false

variable {x : Caller} {i : Nat} {a : Action} {l : Event} {op : Option Op} {new : List Goroutine} {rest : List Handle}
  {n : Handle} {p : Place}

theorem Caller.inserts_iff : x.inserts h ↔
    ∃ n p, x.pc = .register n p ∧ p.inside ∧ h.registration x.request.name = .inserted := by
  unfold Caller.inserts
  split
  · rename_i n p here
    simp [here]
  · rename_i other
    simp only [Bool.false_eq_true, false_iff]
    rintro ⟨n, p, here, -⟩
    exact other n p here

theorem lateInsert_act (found : c.threads[i]? = some (.caller x)) :
    lateInsert c (.act i a) ↔ x.inserts c.shared ∧ c.shared.closeOnce.snapshotTaken := by
  simp [lateInsert, found]

theorem caller_of_lateInsert (late : lateInsert c l) :
    ∃ i a x, l = .act i a ∧ c.threads[i]? = some (.caller x) ∧ x.inserts c.shared := by
  unfold lateInsert at late
  split at late
  · split at late
    · exact ⟨_, _, _, rfl, ‹_›, (Bool.and_eq_true_iff.mp late).1⟩
    · cases late
  · cases late

def ClosePC.pending : ClosePC → Option (List Handle)
  | .cancelling rest => some rest
  | .returned => some []
  | .once | .snapshot _ => none

structure Shut (c : State) : Prop where
  pending : ∀ {i : Nat} {pc rest}, c.threads[i]? = some (.close pc) → pc.pending = some rest →
    c.shared.closeOnce.snapshotTaken ∧ c.shared.Left rest
  done : c.shared.closeOnce = .done → c.shared.Left []

theorem effect_left {g g' : Goroutine} (own : c.threads[i]? = some g) (moved : Acted c.shared g a op g' new)
    (early : ¬ lateInsert c (.act i a)) (snapped : c.shared.closeOnce.snapshotTaken) (left : c.shared.Left rest) :
    (c.shared.effect op).closeOnce.snapshotTaken ∧ (c.shared.effect op).Left rest := by
  cases op with
  | none => exact ⟨snapped, left⟩
  | some op =>
    constructor
    · obtain same | rfl | ⟨-, now⟩ | ⟨-, now⟩ := c.shared.closeOnce_perform op
      · exact same.symm ▸ snapped
      · have first : c.shared.closeOnce = .unstarted := moved.by
        rw [first] at snapped
        cases snapped
      · exact now.symm ▸ rfl
      · exact now.symm ▸ rfl
    · refine left.perform op ?_
      rintro sessionID n rfl inserted
      obtain ⟨x, p, rfl, here, inside, rfl⟩ := moved.by
      have inserts := Caller.inserts_iff.mpr ⟨n, p, here, inside, inserted⟩
      exact early ((lateInsert_act own).mpr ⟨inserts, snapped⟩)

theorem Shut.closing {pc pc' : ClosePC} (reachable : (handler maxSessions sessionTimeout).Reachable c) (shut : Shut c)
    (own : c.threads[i]? = some (.close pc)) (moved : Acted c.shared (.close pc) a op (.close pc') new)
    (pending : pc'.pending = some rest) :
    (c.shared.effect op).closeOnce.snapshotTaken ∧ (c.shared.effect op).Left rest := by
  cases moved with
  | closing | snapshotLocking => cases pending
  | closedBefore closed =>
    cases pending
    exact ⟨closed.symm ▸ rfl, shut.done closed⟩
  | snapped inside =>
    cases pending
    refine ⟨rfl, fun sessionID n present => .inr ?_⟩
    exact List.mem_map.mpr ⟨⟨sessionID, n⟩, AList.mem_lookup_iff.mp present, rfl⟩
  | @cancelled n _ =>
    cases pending
    obtain ⟨snapped, left⟩ := shut.pending own rfl
    refine ⟨snapped, fun sessionID m present => ?_⟩
    obtain cancelled | member := left sessionID m present
    · exact .inl (cancelled.perform (.cancel n))
    · obtain rfl | member := List.mem_cons.mp member
      · exact .inl (StreamableHTTPHandler.cancelled_cancel ((owned reachable).known present))
      · exact .inr member
  | closed =>
    cases pending
    exact ⟨rfl, (shut.pending own rfl).2⟩

theorem Shut.stepped (reachable : (handler maxSessions sessionTimeout).Reachable c) (shut : Shut c)
    (early : ¬ lateInsert c l) (step : (handler maxSessions sessionTimeout).step c l = some c') : Shut c' := by
  cases Program.stepped step with
  | env d => exact ⟨shut.pending, shut.done⟩
  | spawn b =>
    refine ⟨fun {i pc rest} found pending => ?_, shut.done⟩
    obtain ⟨-, start⟩ | ⟨-, stayed⟩ := System.getElem?_concat_cases found
    · cases b with
      | request | delete => cases start
      | close =>
        cases start
        cases pending
    · exact shut.pending stayed pending
  | @act i a g g' op new own unblocked acted =>
    have moved : Acted c.shared g a op g' new := Goroutine.acted acted
    rw [effect_goroutines]
    constructor
    · intro j pc rest found pending
      obtain ⟨rfl, rfl⟩ | ⟨-, stayed⟩ | member := Program.getElem?_forked_cases found
      · cases g with
        | close pc₀ => exact shut.closing reachable own moved pending
        | _ => cases moved
      · obtain ⟨snapped, left⟩ := shut.pending stayed pending
        exact effect_left own moved early snapped left
      · obtain start | ⟨_, _, start⟩ | ⟨_, _, start⟩ := moved.forked member
        · cases start
        · cases start
        · cases start
    · intro done
      cases op with
      | none => exact shut.done done
      | some op =>
        obtain same | rfl | ⟨-, now⟩ | ⟨rfl, -⟩ := c.shared.closeOnce_perform op
        · have before : c.shared.closeOnce = .done := same.symm.trans done
          exact (effect_left own moved early (before.symm ▸ rfl) (shut.done before)).2
        · cases done
        · cases now.symm.trans done
        · obtain rfl : g = .close (.cancelling []) := moved.by
          exact (shut.pending own rfl).2

theorem shut_initial : Shut (handler maxSessions sessionTimeout).start :=
  ⟨fun found => by simp [Program.machine] at found, fun done => by cases done⟩

theorem Called.register_cases {x' : Caller} (called : Called h x a op x' new) (here' : x'.pc = .register n p) :
    op = some (.make x.request.name) ∧ n = h.transports.length ∨ op = none ∧ ∃ q, x.pc = .register n q := by
  cases called with
  | made here =>
    cases here'
    exact .inl ⟨rfl, rfl⟩
  | registering here =>
    cases here'
    exact .inr ⟨rfl, _, here⟩
  | missing here =>
    simp only at here'
    split_ifs at here'
  | registered here =>
    simp only [Caller.register] at here'
    split at here' <;> cases here'
  | @discarded m found here => cases found <;> cases here'
  | touched here =>
    simp only [Caller.begin] at here'
    split at here' <;> cases here'
  | @streamed m pc pc' a here | @posted m pc pc' a isDone posted here => cases pc' <;> cases here'
  | _ => cases here'

theorem cancelled_stepped (step : (handler maxSessions sessionTimeout).step c l = some c')
    (cancelled : c'.shared.Cancelled n) : c.shared.Cancelled n ∨ ∃ (i : Nat) (g : Goroutine), c.threads[i]? = some g ∧
      ((∃ x found, g = .caller x ∧ x.pc = .discard n found) ∨ n ∈ g.mentions) := by
  cases Program.stepped step with
  | env | spawn => exact .inl cancelled
  | @act i a g g' op new own unblocked acted =>
    have moved : Acted c.shared g a op g' new := Goroutine.acted acted
    cases op with
    | none => exact .inl cancelled
    | some op =>
      obtain before | rfl | rfl := StreamableHTTPHandler.Cancelled.of_perform cancelled
      · exact .inl before
      · exact .inr ⟨i, g, own, moved.by⟩
      · exact .inr ⟨i, g, own, .inr moved.by⟩

theorem not_cancelled_of_register (reachable : (handler maxSessions sessionTimeout).Reachable c)
    (found : c.threads[i]? = some (.caller x)) (here : x.pc = .register n p) : ¬ c.shared.Cancelled n := by
  refine Machine.Reachable.invariant'
    (P := fun c => ∀ (i : Nat) x n p, c.threads[i]? = some (.caller x) → x.pc = .register n p →
      ¬ c.shared.Cancelled n)
    (by intro i x n p found; simp [Program.machine] at found)
    (fun c l c' reachable holds step => ?_) reachable i x n p found here
  intro i y n p found here cancelled
  obtain before | ⟨r, rfl, -⟩ | ⟨a, x, op, new, rfl, before, called, performed⟩ := caller_stepped step found
  · have own := own_of_making reachable before (n := n) (by rw [here]; rfl)
    obtain earlier | ⟨k, g, mover, ⟨x, gone, rfl, there⟩ | mentioned⟩ := cancelled_stepped step cancelled
    · exact holds i y n p before here earlier
    · obtain rfl := (owned reachable).unique mover before (own_of_making reachable mover (by rw [there]; rfl)) own
      cases mover.symm.trans before
      cases here.symm.trans there
    · have mine := (owned reachable).mentioned mover mentioned before own
      rw [here] at mine
      cases mine
  · cases here
  · rw [performed] at cancelled
    obtain ⟨rfl, rfl⟩ | ⟨rfl, q, there⟩ := called.register_cases here
    · obtain ⟨t, made, -⟩ | made | made := StreamableHTTPHandler.Cancelled.of_perform cancelled
      · exact absurd (List.getElem?_eq_some_iff.mp made).1 (lt_irrefl _)
      · cases made
      · cases made
    · exact holds i x n q before there cancelled

theorem inserted_running (reachable : (handler maxSessions sessionTimeout).Reachable c)
    (step : (handler maxSessions sessionTimeout).step c (.act i a) = some c')
    (found : c.threads[i]? = some (.caller x)) (here : x.pc = .register n p) (inside : p.inside = true)
    (inserted : c.shared.registration x.request.name = .inserted) :
    c'.shared.sessions.lookup x.request.name = some n ∧ ¬ c'.shared.Cancelled n := by
  obtain ⟨op, y, new, called, performed⟩ := caller_acted step found
  have running := not_cancelled_of_register reachable found here
  cases called with
  | @registered m q here' inside' =>
    cases here.symm.trans here'
    rw [performed]
    constructor
    · show (c.shared.register x.request.name n).sessions.lookup x.request.name = some n
      simp [StreamableHTTPHandler.register, inserted]
    · intro cancelled
      obtain before | other | other := StreamableHTTPHandler.Cancelled.of_perform cancelled
      · exact running before
      · cases other
      · cases other
  | registering here' outside =>
    cases here.symm.trans here'
    rw [inside] at outside
    cases outside
  | _ here' => cases here.symm.trans here'

theorem close_cancels_every_session (maxSessions sessionTimeout : Int) :
    (∀ events c, (handler maxSessions sessionTimeout).run (handler maxSessions sessionTimeout).start events = some c →
      (handler maxSessions sessionTimeout).EachStep (fun c l => ¬ lateInsert c l)
        (handler maxSessions sessionTimeout).start events →
      ∀ i : Nat, c.threads[i]? = some (.close .returned) →
      ∀ sessionID n, c.shared.sessions.lookup sessionID = some n → c.shared.Cancelled n) ∧
    (∀ c l c', (handler maxSessions sessionTimeout).Reachable c →
      (handler maxSessions sessionTimeout).step c l = some c' → lateInsert c l →
      ∃ sessionID n, c'.shared.sessions.lookup sessionID = some n ∧ ¬ c'.shared.Cancelled n) := by
  constructor
  · intro events c run each i found sessionID n present
    have shut : Shut c :=
      Machine.invariant_of_eachStep shut_initial
        (fun _ _ _ reachable shut early step => shut.stepped reachable early step) each run
    obtain cancelled | member := (shut.pending found rfl).2 sessionID n present
    · exact cancelled
    · cases member
  · intro c l c' reachable step late
    obtain ⟨i, a, x, rfl, found, inserts⟩ := caller_of_lateInsert late
    obtain ⟨n, p, here, inside, inserted⟩ := Caller.inserts_iff.mp inserts
    exact ⟨x.request.name, n, inserted_running reachable step found here inside inserted⟩

def openingRun (i : Nat) : List Event :=
  .spawn (.request ⟨.get, "a", "", true⟩) :: List.replicate 6 (.act i .proceed)

def closingRun (i rest : Nat) : List Event := .spawn .close :: List.replicate (4 + rest) (.act i .proceed)

theorem close_cancels_every_session_opened :
    ∃ c, (handler 5 10).run (handler 5 10).start (openingRun 0 ++ closingRun 1 1) = some c ∧
      c.shared.sessions.lookup "a" = some 0 ∧ c.shared.Cancelled 0 :=
  ⟨_, rfl, rfl, (close_cancels_every_session 5 10).1 (openingRun 0 ++ closingRun 1 1) _ rfl
    (Machine.eachStep_of_checks rfl) 1 rfl "a" 0 rfl⟩

theorem closed_before_opened :
    ∃ c, (handler 5 10).run (handler 5 10).start (closingRun 0 0 ++ openingRun 1) = some c ∧
      c.threads[0]? = some (.close .returned) ∧ c.shared.sessions.lookup "a" = some 0 ∧
      ¬ c.shared.Cancelled 0 := by
  refine ⟨_, rfl, rfl, rfl, ?_⟩
  rintro ⟨t, made, cancelled⟩
  cases made
  cases cancelled

end Mcp.Sessions
