import Mcp.Streamable.Reaper

namespace Mcp.Sessions
open Mcp.Lib

variable {h : StreamableHTTPHandler} {c c' : State} {maxSessions sessionTimeout : Int}

variable {g g' : Goroutine} {m k : Mutex} {w : Want} {p : Place} {a : Action} {x : Caller} {op : Option Op}
  {new : List Goroutine} {n : Handle} {i j : Nat} {l : Event} {sessionID : String}

theorem lock_of_holds (held : g.holds m ≠ .free) : ∃ p, (m, p) ∈ g.locks ∧ p.hold ≠ .free := by
  unfold Goroutine.holds at held
  cases found : g.locks.lookup m with
  | none =>
    rw [found] at held
    exact absurd rfl held
  | some p =>
    rw [found] at held
    obtain ⟨before, after, locks, -⟩ := List.lookup_eq_some_iff.mp found
    exact ⟨p, by simp [locks], held⟩

theorem lock_of_wants (wants : g.wants = some (m, w)) : ∃ p, (m, p) ∈ g.locks ∧ p.want = some w := by
  obtain ⟨⟨m', p⟩, member, wanted⟩ := List.exists_of_findSome?_eq_some wants
  obtain ⟨w', want, same⟩ := Option.map_eq_some_iff.mp wanted
  cases same
  exact ⟨p, member, want⟩

theorem delete_wants (sessionID : String) (n : Handle) (p : Place) :
    (Goroutine.delete sessionID (.close n p)).wants = p.want.map fun want => (.mu n, want) := by
  cases p <;> rfl

def Goroutine.session : Goroutine → Option Handle
  | .caller x => x.pc.found
  | .delete _ (.close n _) => some n
  | _ => none

def Goroutine.IsRequest : Goroutine → Prop
  | .caller _ | .delete _ _ => True
  | _ => False

/-- A GET is in a network write on the stream of session `n`. -/
def Caller.Stuck (x : Caller) (n : Handle) : Prop :=
  x.request.method = .get ∧ ((∃ f p, x.pc = .stream n (.writing f p)) ∨ x.pc = .stream n .keepAlive)

theorem Caller.locks_cases (x : Caller) :
    (∀ lock ∈ x.locks, lock.1 = .sessionsMu) ∨ ∃ n, x.pc.found = some n ∧ ∀ lock ∈ x.locks, lock.1 = .mu n := by
  cases here : x.pc with
  | lookup | register =>
    left
    simp [Caller.locks, here]
  | stream n pc | post n pc =>
    right
    refine ⟨n, rfl, fun lock member => ?_⟩
    simp only [Caller.locks, here] at member
    obtain ⟨p, -, rfl⟩ := List.mem_map.mp member
    rfl
  | _ =>
    left
    simp [Caller.locks, here]

theorem Goroutine.locks_cases (g : Goroutine) :
    (∃ m, ∀ lock ∈ g.locks, lock.1 = m) ∨ ∃ sessionID n p, g = .delete sessionID (.close n p) := by
  cases g with
  | caller x =>
    obtain one | ⟨n, -, one⟩ := x.locks_cases
    · exact .inl ⟨_, one⟩
    · exact .inl ⟨_, one⟩
  | delete sessionID pc =>
    cases pc with
    | close n p => exact .inr ⟨sessionID, n, p, rfl⟩
    | enter | finished => exact .inl ⟨.sessionsMu, by simp [Goroutine.locks, DeletePC.locks]⟩
  | call closes n p => exact .inl ⟨.mu n, by cases p <;> simp [Goroutine.locks]⟩
  | serve sessionID n pc => exact .inl ⟨.sessionsMu, by cases pc <;> simp [Goroutine.locks, ServePC.locks]⟩
  | reaper pc => exact .inl ⟨.sessionsMu, by cases pc <;> simp [Goroutine.locks, ReaperPC.locks]⟩
  | close pc => exact .inl ⟨.sessionsMu, by cases pc <;> simp [Goroutine.locks, ClosePC.locks]⟩

theorem mutex_of_holds (wants : g.wants = some (k, w)) (holds : g.holds m ≠ .free) :
    m = k ∨ ∃ sessionID n p, g = .delete sessionID (.close n p) ∧ k = .mu n := by
  obtain ⟨p₀, wanted, -⟩ := lock_of_wants wants
  obtain ⟨p₁, held, -⟩ := lock_of_holds holds
  obtain ⟨m, one⟩ | ⟨sessionID, n, p, rfl⟩ := g.locks_cases
  · exact .inl ((one _ held).trans (one _ wanted).symm)
  · rw [delete_wants] at wants
    obtain ⟨w', -, same⟩ := Option.map_eq_some_iff.mp wants
    cases same
    exact .inr ⟨sessionID, n, p, rfl, rfl⟩

theorem session_of_wants (request : g.IsRequest) (wants : g.wants = some (.mu n, w)) : g.session = some n := by
  obtain ⟨p, member, -⟩ := lock_of_wants wants
  cases g with
  | caller x =>
    obtain one | ⟨k, found, one⟩ := x.locks_cases
    · cases one _ member
    · cases one _ member
      exact found
  | delete sessionID pc =>
    cases pc with
    | enter q => simp [Goroutine.locks, DeletePC.locks] at member
    | close k q =>
      simp only [Goroutine.locks, DeletePC.locks, List.mem_cons, Prod.mk.injEq, reduceCtorEq, false_and,
        Mutex.mu.injEq, List.not_mem_nil, or_false, false_or] at member
      rw [member.1]
      rfl
    | finished => cases member
  | _ => exact request.elim

theorem Caller.Stuck.holds (stuck : x.Stuck n) (holds : (Goroutine.caller x).holds m ≠ .free) :
    m = .mu n ∧ ∃ f q, x.pc = .stream n (.writing f q) := by
  obtain ⟨p, member, -⟩ := lock_of_holds holds
  obtain ⟨-, ⟨f, q, here⟩ | here⟩ := stuck
  · simp only [Goroutine.locks, Caller.locks, here, StreamPC.place] at member
    exact ⟨congrArg Prod.fst (List.mem_singleton.mp member), f, q, here⟩
  · simp [Goroutine.locks, Caller.locks, here, StreamPC.place] at member

def Goroutine.writes (n : Handle) : Goroutine → Bool
  | .caller ⟨_, .stream m (.writing _ _), _, _⟩ => m = n
  | _ => false

def Goroutine.closes (n : Handle) : Goroutine → Bool
  | .delete _ (.close m _) => m = n
  | _ => false

/-- A DELETE does not begin to close a session while a GET writes under its lock, and no GET begins to while the
session is being closed. -/
def quietDelete (c : State) : Event → Bool
  | .act i .proceed => match c.threads[i]? with
      | some (.delete sessionID (.enter .exclusive)) =>
        (c.shared.sessions.lookup sessionID).all fun n => c.threads.all fun g => !g.writes n
      | _ => true
  | .act j .write => match c.threads[j]? with
      | some (.caller ⟨_, .stream n (.flush _ _), _, _⟩) => c.threads.all fun g => !g.closes n
      | _ => true
  | _ => true

def Apart (c : State) : Prop :=
  ∀ (i j : Nat) sessionID n p x f q, c.threads[i]? = some (.delete sessionID (.close n p)) →
    c.threads[j]? = some (.caller x) → x.pc ≠ .stream n (.writing f q)

theorem mutex_of_waitsFor (waits : (goroutines maxSessions sessionTimeout).WaitsFor c i j) :
    ∃ x y m w, c.threads[i]? = some x ∧ c.threads[j]? = some y ∧ x.wants = some (m, w) ∧ y.holds m ≠ .free := by
  obtain ⟨-, x, y, found, found', blocks⟩ := waits
  refine ⟨x, y, ?_⟩
  unfold Program.blocks at blocks
  split at blocks
  · cases blocks
  · rename_i m wants
    refine ⟨m, .enter, found, found', wants, fun free => ?_⟩
    have held : y.holds m = .read := of_decide_eq_true blocks
    cases free.symm.trans held
  · rename_i m w _ wants
    refine ⟨m, w, found, found', wants, fun free => ?_⟩
    have held : y.holds m = .announced ∨ y.holds m = .write := of_decide_eq_true blocks
    obtain held | held := held
    · cases free.symm.trans held
    · cases free.symm.trans held

theorem wants_of_chain (apart : Apart c) (found : c.threads[j]? = some (.caller x)) (stuck : x.Stuck n)
    (chain : Relation.TransGen ((goroutines maxSessions sessionTimeout).WaitsFor c) i j) :
    ∃ g w, c.threads[i]? = some g ∧ g.wants = some (.mu n, w) := by
  induction chain using Relation.TransGen.head_induction_on with
  | single waits =>
    obtain ⟨g, y, m, w, here, there, wants, held⟩ := mutex_of_waitsFor waits
    cases found.symm.trans there
    cases (stuck.holds held).1
    exact ⟨g, w, here, wants⟩
  | head waits chain ih =>
    obtain ⟨g, y, m, w, here, there, wants, held⟩ := mutex_of_waitsFor waits
    obtain ⟨y', w', there', wants'⟩ := ih
    obtain rfl := Option.some.inj (there.symm.trans there')
    obtain rfl | ⟨sessionID, k, p, rfl, same⟩ := mutex_of_holds wants' held
    · exact ⟨g, w, here, wants⟩
    · cases same
      obtain ⟨b, -, last⟩ := Relation.TransGen.tail'_iff.mp chain
      obtain ⟨-, y, m, -, -, found', -, held⟩ := mutex_of_waitsFor last
      cases found.symm.trans found'
      obtain ⟨-, f, q, writing⟩ := stuck.holds held
      exact absurd writing (apart _ _ sessionID n p x f q there found)

theorem delete_stepped (step : (handler maxSessions sessionTimeout).step c l = some c')
    (found : c'.threads[i]? = some (.delete sessionID (.close n p))) :
    (∃ q, c.threads[i]? = some (.delete sessionID (.close n q))) ∨ l = .act i .proceed ∧
      c.threads[i]? = some (.delete sessionID (.enter .exclusive)) ∧ c.shared.sessions.lookup sessionID = some n := by
  cases Program.stepped step with
  | env d => exact .inl ⟨p, found⟩
  | spawn b =>
    obtain ⟨-, start⟩ | ⟨-, stayed⟩ := System.getElem?_concat_cases found
    · cases b with
      | request | close => cases start
      | delete name =>
        simp only [goroutines, Arrival.start] at start
        split_ifs at start
        · cases start
        · cases start
    · exact .inl ⟨p, stayed⟩
  | @act k a g g' op new own unblocked acted =>
    have moved : Acted c.shared g a op g' new := Goroutine.acted acted
    obtain ⟨rfl, rfl⟩ | ⟨-, stayed⟩ | member := Program.getElem?_forked_cases found
    · cases moved with
      | deleteFound present => exact .inr ⟨rfl, own, present⟩
      | closeLocking outside => exact .inl ⟨_, own⟩
    · exact .inl ⟨p, stayed⟩
    · obtain start | ⟨_, _, start⟩ | ⟨_, _, start⟩ := moved.forked member
      · cases start
      · cases start
      · cases start

theorem StreamPC.begins_writing {pc : StreamPC} {f : Flush} (acted : pc.act a = some (some (.writing f p))) :
    a = .write ∧ pc = .flush f p := by
  unfold StreamPC.act at acted
  split at acted
  case h_1 f' _ =>
    cases f' <;> split_ifs at acted <;> cases acted
  case h_2 =>
    split_ifs at acted
    cases acted
    exact ⟨rfl, rfl⟩
  case h_3 | h_9 => split_ifs at acted <;> cases acted
  all_goals cases acted

theorem Called.begins_writing {x' : Caller} {f : Flush} (called : Called h x a op x' new)
    (writing : x'.pc = .stream n (.writing f p)) : a = .write ∧ x.pc = .stream n (.flush f p) := by
  cases called with
  | @streamed m pc pc' a here acted =>
    cases pc' with
    | none => cases writing
    | some pc' =>
      cases writing
      obtain ⟨rfl, rfl⟩ := StreamPC.begins_writing acted
      exact ⟨rfl, here⟩
  | touched here =>
    simp only [Caller.begin] at writing
    split at writing <;> cases writing
  | missing here =>
    simp only at writing
    split_ifs at writing
  | registered here =>
    simp only [Caller.register] at writing
    split at writing <;> cases writing
  | @discarded m found here => cases found <;> cases writing
  | @posted m pc pc' a isDone posted here => cases pc' <;> cases writing
  | _ => cases writing

theorem Apart.stepped (apart : Apart c) (quiet : quietDelete c l)
    (step : (handler maxSessions sessionTimeout).step c l = some c') : Apart c' := by
  intro i j sessionID n p y f q found found' writing
  obtain before | ⟨r, rfl, -⟩ | ⟨a, x, op, new, rfl, before, called, -⟩ := caller_stepped step found'
  · obtain ⟨q', closing⟩ | ⟨rfl, entered, present⟩ := delete_stepped step found
    · exact apart i j sessionID n q' y f q closing before writing
    · simp only [quietDelete, entered, present, Option.all_some, List.all_eq_true] at quiet
      have idle := quiet _ (List.mem_of_getElem? before)
      obtain ⟨request, pc, own, since⟩ := y
      cases writing
      simp [Goroutine.writes] at idle
  · cases writing
  · obtain ⟨rfl, here⟩ := called.begins_writing writing
    obtain ⟨q', closing⟩ | ⟨same, -, -⟩ := delete_stepped step found
    · obtain ⟨request, pc, own, since⟩ := x
      cases here
      simp only [quietDelete, before, List.all_eq_true] at quiet
      have open' := quiet _ (List.mem_of_getElem? closing)
      simp [Goroutine.closes] at open'
    · cases same

theorem stalled_stream_isolated (maxSessions sessionTimeout : Int) (events : List Event) {c : State}
    (run : (handler maxSessions sessionTimeout).run (handler maxSessions sessionTimeout).start events = some c)
    (quiet : (handler maxSessions sessionTimeout).EachStep (fun c l => quietDelete c l)
      (handler maxSessions sessionTimeout).start events) (i j : Nat) (g : Goroutine) (x : Caller) (n : Handle)
    (stream : c.threads[j]? = some (.caller x)) (stuck : x.Stuck n) (other : c.threads[i]? = some g)
    (request : g.IsRequest) (apart : g.session ≠ some n) :
    ¬ Relation.TransGen ((goroutines maxSessions sessionTimeout).WaitsFor c) i j := by
  have initial : Apart (handler maxSessions sessionTimeout).start :=
    fun i j sessionID n p x f q found => by simp [Program.machine] at found
  have disjoint : Apart c :=
    Machine.invariant_of_eachStep initial
      (fun _ _ _ _ disjoint quiet step => disjoint.stepped quiet step) quiet run
  intro chain
  obtain ⟨g', w, here, wants⟩ := wants_of_chain disjoint stream stuck chain
  obtain rfl := Option.some.inj (other.symm.trans here)
  exact apart (session_of_wants request wants)

def stalledRun (rest : List Event) : List Event :=
  .spawn (.request ⟨.get, "a", "", true⟩) :: List.replicate 10 (.act 0 .proceed) ++ .act 0 .write :: rest

-- a DELETE closes a session whose GET waits for messages, and another request waits for the DELETE
theorem stalled_stream_isolated_open :
    let events := stalledRun (.spawn (.request ⟨.get, "c", "", true⟩) :: List.replicate 14 (.act 3 .proceed) ++
      .spawn (.delete "c") :: List.replicate 4 (.act 5 .proceed) ++ [.spawn (.request ⟨.get, "b", "", true⟩)])
    ∃ c x y g, (handler 5 10).run (handler 5 10).start events = some c ∧ c.threads[0]? = some (.caller x) ∧ x.Stuck 0 ∧
      c.threads[3]? = some (.caller y) ∧ y.pc = .stream 1 .select ∧
        c.threads[5]? = some (.delete "c" (.close 1 .pending)) ∧
      c.threads[6]? = some g ∧ g.session ≠ some 0 ∧ ¬ Relation.TransGen ((goroutines 5 10).WaitsFor c) 6 0 := by
  intro events
  have apart : (Goroutine.caller { request := ⟨.get, "b", "", true⟩ }).session ≠ some 0 := by
    intro same
    cases same
  refine ⟨_, _, _, _, rfl, rfl, ⟨rfl, .inl ⟨.replay, .shared, rfl⟩⟩, rfl, rfl, rfl, rfl, apart, ?_⟩
  exact stalled_stream_isolated 5 10 events rfl
    (Machine.eachStep_of_checks rfl) 6 0 _ _ 0 rfl ⟨rfl, .inl ⟨.replay, .shared, rfl⟩⟩ rfl trivial apart

theorem deleted_stream_blocks_other :
    ∃ c x g, (handler 5 10).run (handler 5 10).start (stalledRun (.spawn (.delete "a") ::
        List.replicate 4 (.act 3 .proceed) ++ [.spawn (.request ⟨.get, "b", "", true⟩)])) = some c ∧
      c.threads[0]? = some (.caller x) ∧ x.Stuck 0 ∧ c.threads[4]? = some g ∧ g.IsRequest ∧ g.session ≠ some 0 ∧
      (handler 5 10).step c (.act 4 .proceed) = none ∧
      Relation.TransGen ((goroutines 5 10).WaitsFor c) 4 0 := by
  refine ⟨_, _, _, rfl, rfl, ⟨rfl, .inl ⟨.replay, .shared, rfl⟩⟩, rfl, trivial, ?_, rfl, ?_⟩
  · intro same
    cases same
  · apply Relation.TransGen.tail (b := 3)
    · exact .single ⟨by decide, _, _, rfl, rfl, rfl⟩
    · exact ⟨by decide, _, _, rfl, rfl, rfl⟩

end Mcp.Sessions
