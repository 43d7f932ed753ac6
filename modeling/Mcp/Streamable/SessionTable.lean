import Mcp.Lib.Table
import Mcp.Streamable.Handler
import Mcp.Streamable.Sessions

namespace Mcp.Sessions
open Mcp.Lib

variable {h : StreamableHTTPHandler} {c c' : State} {maxSessions sessionTimeout : Int}

namespace StreamableHTTPHandler

theorem registration_cases (h : StreamableHTTPHandler) (sessionID : String) :
    (∃ n, h.registration sessionID = .existing n ∧ h.sessions.lookup sessionID = some n) ∨
      h.sessions.lookup sessionID = none ∧
        (h.registration sessionID = .full ∨
          h.registration sessionID = .inserted ∧ h.sessions.entries.length < h.maxSessions) := by
  unfold registration
  cases h.sessions.lookup sessionID with
  | some n => exact .inl ⟨n, rfl, rfl⟩
  | none =>
    by_cases full : h.maxSessions ≤ h.sessions.entries.length
    · exact .inr ⟨rfl, .inl (if_pos full)⟩
    · exact .inr ⟨rfl, .inr ⟨if_neg full, Int.not_le.mp full⟩⟩

theorem register_cases (h : StreamableHTTPHandler) (sessionID : String) (n : Handle) : h.register sessionID n = h ∨
      h.registration sessionID = .inserted ∧ h.sessions.lookup sessionID = none ∧
        h.sessions.entries.length < h.maxSessions ∧
        h.register sessionID n = { h.touch n with sessions := h.sessions.insert sessionID n } := by
  unfold register
  obtain ⟨m, existing, -⟩ | ⟨absent, full | ⟨inserted, room⟩⟩ := h.registration_cases sessionID
  · exact .inl (by rw [existing])
  · exact .inl (by rw [full])
  · exact .inr ⟨inserted, absent, room, by rw [inserted]⟩

theorem exit_cases (h : StreamableHTTPHandler) (sessionID : String) (n : Handle) :
    h.exit sessionID n = h ∨ h.sessions.lookup sessionID = some n ∧ h.exit sessionID n = h.remove sessionID := by
  unfold exit
  by_cases own : h.sessions.lookup sessionID = some n
  · exact .inr ⟨own, if_pos own⟩
  · exact .inl (if_neg own)

structure Framed (h h' : StreamableHTTPHandler) : Prop where
  maxSessions : h'.maxSessions = h.maxSessions
  now : h'.now = h.now
  closeOnce : h'.closeOnce = h.closeOnce
  length : h'.transports.length = h.transports.length

theorem framed_register (h : StreamableHTTPHandler) (sessionID : String) (n : Handle) :
    h.Framed (h.register sessionID n) := by
  obtain same | ⟨-, -, -, inserted⟩ := h.register_cases sessionID n
  · rw [same]
    exact ⟨rfl, rfl, rfl, rfl⟩
  · rw [inserted]
    exact ⟨rfl, rfl, rfl, by simp [touch, modify]⟩

theorem framed_exit (h : StreamableHTTPHandler) (sessionID : String) (n : Handle) : h.Framed (h.exit sessionID n) := by
  obtain same | ⟨-, removed⟩ := h.exit_cases sessionID n
  · rw [same]
    exact ⟨rfl, rfl, rfl, rfl⟩
  · rw [removed]
    exact ⟨rfl, rfl, rfl, rfl⟩

variable {sessionID name : String} {n : Handle}

theorem lookup_of_remove
    (present : (h.remove name).sessions.lookup sessionID = some n) : h.sessions.lookup sessionID = some n := by
  by_cases same : sessionID = name
  · subst same
    simp [remove] at present
  · rwa [remove, AList.lookup_erase_ne same] at present

theorem lookup_of_perform {op : Op} (present : (h.perform op).sessions.lookup sessionID = some n) :
    h.sessions.lookup sessionID = some n ∨ op = .register sessionID n ∧ h.registration sessionID = .inserted := by
  cases op with
  | register name m =>
    rw [perform] at present
    obtain same | ⟨free, -, -, inserted⟩ := h.register_cases name m
    · rw [same] at present
      exact .inl present
    rw [inserted] at present
    by_cases same : sessionID = name
    · subst same
      rw [AList.lookup_insert] at present
      exact .inr ⟨by rw [Option.some.inj present], free⟩
    · rw [AList.lookup_insert_ne same] at present
      exact .inl present
  | remove name => exact .inl (lookup_of_remove present)
  | exit name m =>
    rw [perform] at present
    obtain same | ⟨-, removed⟩ := h.exit_cases name m
    · rw [same] at present
      exact .inl present
    · rw [removed] at present
      exact .inl (lookup_of_remove present)
  | _ => exact .inl present

theorem length_perform (h : StreamableHTTPHandler) (op : Op) :
    h.transports.length ≤ (h.perform op).transports.length := by
  cases op with
  | register name m => exact (h.framed_register name m).length.ge
  | exit name m => exact (h.framed_exit name m).length.ge
  | _ => simp [perform, touch, cancel, modify, remove]

theorem maxSessions_perform (h : StreamableHTTPHandler) (op : Op) : (h.perform op).maxSessions = h.maxSessions := by
  cases op with
  | register name m => exact (h.framed_register name m).maxSessions
  | exit name m => exact (h.framed_exit name m).maxSessions
  | _ => rfl

theorem entries_perform (op : Op) (bounded : h.sessions.entries.length ≤ h.maxSessions) :
    (h.perform op).sessions.entries.length ≤ h.maxSessions := by
  have removed (name : String) : ((h.remove name).sessions.entries.length : Int) ≤ h.maxSessions := by
    have shorter := (List.kerase_sublist name h.sessions.entries).length_le
    exact Int.le_trans (Int.ofNat_le.mpr shorter) bounded
  cases op with
  | register name m =>
    rw [perform]
    obtain same | ⟨-, absent, room, inserted⟩ := h.register_cases name m
    · rw [same]
      exact bounded
    · rw [inserted]
      have one := AList.entries_insert_of_notMem (b := m) (AList.lookup_eq_none.mp absent)
      simp only [one, List.length_cons]
      push_cast
      omega
  | remove name => exact removed name
  | exit name m =>
    rw [perform]
    obtain same | ⟨-, gone⟩ := h.exit_cases name m
    · rw [same]
      exact bounded
    · rw [gone]
      exact removed name
  | _ => exact bounded

theorem lookup_exit {m : Handle} (newer : m ≠ n)
    (present : h.sessions.lookup name = some m) : (h.exit sessionID n).sessions.lookup name = some m := by
  obtain same | ⟨own, removed⟩ := h.exit_cases sessionID n
  · rw [same]
    exact present
  · have other : name ≠ sessionID := by
      rintro rfl
      exact newer (Option.some.inj (present.symm.trans own))
    rw [removed, remove, AList.lookup_erase_ne other]
    exact present

end StreamableHTTPHandler

theorem maxSessions_nonneg : 0 ≤ (newStreamableHTTPHandler maxSessions sessionTimeout).maxSessions := by
  simp only [newStreamableHTTPHandler]
  split_ifs with unset
  · decide
  · omega

theorem entries_bounded (reachable : (handler maxSessions sessionTimeout).Reachable c) :
    c.shared.sessions.entries.length ≤ (newStreamableHTTPHandler maxSessions sessionTimeout).maxSessions := by
  have both : c.shared.maxSessions = (newStreamableHTTPHandler maxSessions sessionTimeout).maxSessions ∧
      (c.shared.sessions.entries.length : Int) ≤ c.shared.maxSessions := by
    apply Program.shared_invariant
      (P := fun h => h.maxSessions = (newStreamableHTTPHandler maxSessions sessionTimeout).maxSessions ∧
        (h.sessions.entries.length : Int) ≤ h.maxSessions) ⟨rfl, maxSessions_nonneg⟩ _ reachable
    rintro h op ⟨same, bounded⟩
    refine ⟨(h.maxSessions_perform op).trans same, ?_⟩
    have kept := StreamableHTTPHandler.entries_perform op bounded
    rwa [← h.maxSessions_perform op] at kept
  exact both.1 ▸ both.2

variable {x x' : Caller} {a : Action} {op : Option Op} {new : List Goroutine} {n : Handle} {i j : Nat}
  {g g' : Goroutine} {l : Event} {sessionID : String}

theorem Called.found_cases (called : Called h x a op x' new) :
    x'.pc.found = x.pc.found ∨ ∃ m, x'.pc.found = some m ∧ x.pc.found = none ∧
      (h.effect op).sessions.lookup x.request.name = some m := by
  cases called with
  | lookingUp here | noServer here | made here | registering here | reaperStarted here | serving here =>
    exact .inl (by rw [here]; rfl)
  | @found p n here inside present => exact .inr ⟨n, rfl, by rw [here]; rfl, present⟩
  | missing here =>
    left
    rw [here]
    cases x.request.opens <;> rfl
  | @registered n p here =>
    have fresh : x.pc.found = none := by rw [here]; rfl
    obtain ⟨m, existing, present⟩ | ⟨-, full | ⟨inserted, -⟩⟩ := h.registration_cases x.request.name
    · refine .inr ⟨m, by simp [Caller.register, existing, PC.found], fresh, ?_⟩
      show (h.register x.request.name n).sessions.lookup x.request.name = some m
      simp [StreamableHTTPHandler.register, existing, present]
    · left
      rw [fresh]
      simp [Caller.register, full, PC.found]
    · refine .inr ⟨n, by simp [Caller.register, inserted, PC.found], fresh, ?_⟩
      show (h.register x.request.name n).sessions.lookup x.request.name = some n
      simp [StreamableHTTPHandler.register, inserted]
  | @discarded n found here =>
    left
    rw [here]
    cases found <;> rfl
  | @touched n here =>
    left
    rw [here]
    unfold Caller.begin
    split <;> rfl
  | @streamed n pc pc' a here | @posted n pc pc' a isDone posted here =>
    left
    rw [here]
    cases pc' <;> rfl

def PC.making : PC → Option Handle
  | .register n _ | .discard n _ | .startReaper n | .goServe n => some n
  | _ => none

theorem Called.making_cases (called : Called h x a op x' new) (making : x'.pc.making = some n) :
    x'.own = some n ∨ x'.own = x.own ∧ x.pc.making = some n := by
  cases called with
  | made here => exact .inl making
  | registering here | reaperStarted here => exact .inr ⟨rfl, by rw [here]; exact making⟩
  | registered here =>
    refine .inr ⟨x.register_own h _, ?_⟩
    simp only [Caller.register] at making
    rw [here]
    split at making <;> exact making
  | missing here =>
    simp only at making
    split_ifs at making <;> cases making
  | @discarded m found here => cases found <;> cases making
  | touched here =>
    simp only [Caller.begin] at making
    split at making <;> cases making
  | @streamed m pc pc' a here | @posted m pc pc' a isDone posted here => cases pc' <;> cases making
  | _ => cases making

theorem own_of_making (reachable : (handler maxSessions sessionTimeout).Reachable c)
    (found : c.threads[i]? = some (.caller x)) (making : x.pc.making = some n) : x.own = some n := by
  refine caller_invariant (I := fun _ => True) (P := fun _ x => ∀ n, x.pc.making = some n → x.own = some n)
    (fun _ _ => trivial) ?_ ?_ (fun _ _ _ _ holds => holds) reachable found n making
  · intro h r _ n making
    cases making
  · intro h x a op x' new _ holds called n making
    obtain made | ⟨same, making⟩ := called.making_cases making
    · exact made
    · exact same.trans (holds n making)

theorem Called.own_cases (called : Called h x a op x' new) :
    x'.own = x.own ∨ x.pc = .create ∧ x'.own = some h.transports.length ∧ op = some (.make x.request.name) := by
  cases called with
  | made here => exact .inr ⟨here, rfl, rfl⟩
  | registered here => exact .inl (x.register_own h _)
  | _ => exact .inl rfl

def Goroutine.mentions : Goroutine → List Handle
  | .delete _ (.close n _) | .call _ n _ | .serve _ n _ => [n]
  | .reaper (.collect _ _ _ idle _) | .reaper (.cancelling _ idle) => idle
  | .close (.cancelling rest) => rest
  | _ => []

def Op.By (h : StreamableHTTPHandler) (g : Goroutine) : Op → Prop
  | .register sessionID n => ∃ x p, g = .caller x ∧ x.pc = .register n p ∧ p.inside ∧ sessionID = x.request.name
  | .cancel n => (∃ x found, g = .caller x ∧ x.pc = .discard n found) ∨ n ∈ g.mentions
  | .close n => n ∈ g.mentions
  | .shutdown => h.closeOnce = .unstarted
  | .closed => g = .close (.cancelling [])
  | _ => True

theorem Acted.by {op : Op} (acted : Acted h g a (some op) g' new) : op.By h g := by
  cases acted with
  | caller called =>
    cases called with
    | registered here inside => exact ⟨_, _, rfl, here, inside, rfl⟩
    | discarded here => exact .inl ⟨_, _, rfl, here⟩
    | _ => trivial
  | closeDone | callClosed => exact List.mem_singleton_self _
  | reaped | cancelled => exact .inr List.mem_cons_self
  | closing first => exact first
  | closed => rfl
  | _ => trivial

theorem lookup_of_entry {entry : (_ : String) × Handle} (member : entry ∈ h.sessions.entries) :
    h.sessions.lookup entry.1 = some entry.2 :=
  AList.mem_lookup_iff.mpr member

theorem Acted.mentions (acted : Acted h g a op g' new) (mentioned : n ∈ g'.mentions) :
    n ∈ g.mentions ∨ ∃ sessionID, h.sessions.lookup sessionID = some n := by
  cases acted with
  | deleteFound present =>
    obtain rfl := List.mem_singleton.mp mentioned
    exact .inr ⟨_, present⟩
  | loaded made inside unseen registered =>
    simp only [Goroutine.mentions] at mentioned
    split_ifs at mentioned
    · obtain before | same := List.mem_append.mp mentioned
      · exact .inl before
      · obtain rfl := List.mem_singleton.mp same
        obtain ⟨entry, member, rfl⟩ := registered
        exact .inr ⟨_, lookup_of_entry member⟩
    · exact .inl mentioned
  | snapped inside =>
    obtain ⟨entry, member, rfl⟩ := List.mem_map.mp mentioned
    exact .inr ⟨_, lookup_of_entry member⟩
  | reaped | cancelled => exact .inl (List.mem_cons_of_mem _ mentioned)
  | caller | deleteLocking | deleteAbsent | closeDone | reaperReady | reaperStopped | reapBegun | reapDone
  | closing | closedBefore | snapshotLocking | closed => cases mentioned
  | _ => exact .inl mentioned

theorem Acted.forked_mentions {f : Goroutine} (acted : Acted h g a op g' new) (member : f ∈ new)
    (mentioned : n ∈ f.mentions) : n ∈ g.mentions ∨ ∃ x, g = .caller x ∧ x.pc = .goServe n := by
  cases acted with
  | caller called =>
    cases called with
    | reaperStarted here forked =>
      obtain rfl | rfl := forked
      · cases member
      · obtain rfl := List.mem_singleton.mp member
        cases mentioned
    | serving here =>
      obtain rfl := List.mem_singleton.mp member
      obtain rfl := List.mem_singleton.mp mentioned
      exact .inr ⟨_, rfl, here⟩
    | _ => cases member
  | called =>
    obtain rfl := List.mem_singleton.mp member
    exact .inl mentioned
  | _ => cases member

theorem mention_stepped (step : (handler maxSessions sessionTimeout).step c l = some c')
    (found : c'.threads[j]? = some g) (mentioned : n ∈ g.mentions) :
    (∃ (k : Nat) (g : Goroutine), c.threads[k]? = some g ∧ n ∈ g.mentions) ∨
      (∃ sessionID, c.shared.sessions.lookup sessionID = some n) ∨
      ∃ (k : Nat) (x : Caller), c.threads[k]? = some (.caller x) ∧ x.pc = .goServe n := by
  cases Program.stepped step with
  | env d => exact .inl ⟨j, g, found, mentioned⟩
  | spawn b =>
    obtain ⟨-, rfl⟩ | ⟨-, stayed⟩ := System.getElem?_concat_cases found
    · cases b with
      | request | close => cases mentioned
      | delete sessionID =>
        simp only [goroutines, Arrival.start] at mentioned
        split_ifs at mentioned <;> cases mentioned
    · exact .inl ⟨j, g, stayed, mentioned⟩
  | @act i a g₀ g₁ op new own unblocked acted =>
    have moved : Acted c.shared g₀ a op g₁ new := Goroutine.acted acted
    obtain ⟨rfl, rfl⟩ | ⟨-, stayed⟩ | member := Program.getElem?_forked_cases found
    · obtain before | present := moved.mentions mentioned
      · exact .inl ⟨_, _, own, before⟩
      · exact .inr (.inl present)
    · exact .inl ⟨j, g, stayed, mentioned⟩
    · obtain before | ⟨x, rfl, here⟩ := moved.forked_mentions member mentioned
      · exact .inl ⟨_, _, own, before⟩
      · exact .inr (.inr ⟨i, x, own, here⟩)

structure Owned (c : State) : Prop where
  known : ∀ {sessionID n}, c.shared.sessions.lookup sessionID = some n → n < c.shared.transports.length
  bound : ∀ {i : Nat} {x n}, c.threads[i]? = some (.caller x) → x.own = some n → n < c.shared.transports.length
  unique : ∀ {i j : Nat} {x y n}, c.threads[i]? = some (.caller x) → c.threads[j]? = some (.caller y) →
    x.own = some n → y.own = some n → i = j
  spare : ∀ {i : Nat} {x n}, c.threads[i]? = some (.caller x) → x.own = some n → x.pc.found ≠ some n →
    ∀ sessionID, c.shared.sessions.lookup sessionID ≠ some n
  mentionedKnown : ∀ {j : Nat} {g n}, c.threads[j]? = some g → n ∈ g.mentions → n < c.shared.transports.length
  mentioned : ∀ {i j : Nat} {x g n}, c.threads[j]? = some g → n ∈ g.mentions →
    c.threads[i]? = some (.caller x) → x.own = some n → x.pc.found = some n

theorem lookup_stepped (step : (handler maxSessions sessionTimeout).step c l = some c')
    (present : c'.shared.sessions.lookup sessionID = some n) :
    c.shared.sessions.lookup sessionID = some n ∨ ∃ i a x p, l = .act i a ∧ c.threads[i]? = some (.caller x) ∧
      x.pc = .register n p ∧ ∃ y, c'.threads[i]? = some (.caller y) ∧ y.pc = .startReaper n := by
  cases Program.stepped step with
  | env | spawn => exact .inl present
  | @act i a g g' op new own unblocked acted =>
    cases op with
    | none => exact .inl present
    | some op =>
      obtain before | ⟨rfl, inserted⟩ := StreamableHTTPHandler.lookup_of_perform present
      · exact .inl before
      · have moved : Acted c.shared g a (some (.register sessionID n)) g' new := Goroutine.acted acted
        have inside : i < c.threads.length := (List.getElem?_eq_some_iff.mp own).1
        cases moved with
        | @caller x _ _ _ _ called =>
          cases called with
          | registered here =>
            refine .inr ⟨i, _, x, _, rfl, own, here, x.register c.shared n, ?_, ?_⟩
            · exact Program.getElem?_forked_self inside
            · simp only [Caller.register, inserted]

theorem length_stepped (step : (handler maxSessions sessionTimeout).step c l = some c') :
    c.shared.transports.length ≤ c'.shared.transports.length := by
  cases Program.stepped step with
  | env | spawn => exact le_rfl
  | @act i a g g' op new own unblocked acted =>
    cases op with
    | none => exact le_rfl
    | some op => exact c.shared.length_perform op

theorem own_stepped (step : (handler maxSessions sessionTimeout).step c l = some c')
    {y : Caller} (found : c'.threads[j]? = some (.caller y)) (own : y.own = some n) :
    (∃ x, c.threads[j]? = some (.caller x) ∧ x.own = some n ∧ (x.pc.found = some n → y.pc.found = some n)) ∨
      n = c.shared.transports.length ∧ n < c'.shared.transports.length ∧ ∃ a, l = .act j a := by
  obtain before | ⟨r, rfl, -⟩ | ⟨a, x, op, new, rfl, before, called, performed⟩ := caller_stepped step found
  · exact .inl ⟨y, before, own, id⟩
  · cases own
  · obtain same | ⟨-, made, rfl⟩ := called.own_cases
    · refine .inl ⟨x, before, same.symm.trans own, fun mine => ?_⟩
      obtain kept | ⟨m, -, none, -⟩ := called.found_cases
      · exact kept.trans mine
      · rw [mine] at none
        cases none
    · obtain rfl := Option.some.inj (made.symm.trans own)
      rw [performed]
      exact .inr ⟨rfl, by simp [StreamableHTTPHandler.effect, StreamableHTTPHandler.perform], a, rfl⟩

theorem owned_start : Owned (handler maxSessions sessionTimeout).start := by
  constructor
  · intro sessionID n present
    cases present
  all_goals
    intro i
    intros
    simp_all [Program.machine]

section Step

variable {l : Event} {n : Handle} (reachable : (handler maxSessions sessionTimeout).Reachable c) (holds : Owned c)
    (step : (handler maxSessions sessionTimeout).step c l = some c')

include reachable holds step

theorem Owned.known_stepped {sessionID : String} (present : c'.shared.sessions.lookup sessionID = some n) :
    n < c'.shared.transports.length := by
  apply lt_of_lt_of_le _ (length_stepped step)
  obtain before | ⟨i, a, x, p, rfl, found, here, -⟩ := lookup_stepped step present
  · exact holds.known before
  · exact holds.bound found (own_of_making reachable found (by rw [here]; rfl))

variable {j : Nat} {g : Goroutine} {y : Caller}

theorem Owned.mentioned_before (found : c'.threads[j]? = some g)
    (mentioned : n ∈ g.mentions) : n < c.shared.transports.length := by
  obtain ⟨k, g, taken, mentioned⟩ | ⟨sessionID, present⟩ | ⟨k, x, won, here⟩ := mention_stepped step found mentioned
  · exact holds.mentionedKnown taken mentioned
  · exact holds.known present
  · exact holds.bound won (own_of_making reachable won (by rw [here]; rfl))

omit reachable in
theorem Owned.unique_stepped {i j : Nat} {x y : Caller} (found : c'.threads[i]? = some (.caller x))
    (found' : c'.threads[j]? = some (.caller y)) (own : x.own = some n) (own' : y.own = some n) : i = j := by
  obtain ⟨x, before, own, -⟩ | ⟨newest, -, a, rfl⟩ := own_stepped step found own
  · obtain ⟨y, before', own', -⟩ | ⟨newest, -, -⟩ := own_stepped step found' own'
    · exact holds.unique before before' own own'
    · exact absurd newest (holds.bound before own).ne
  · obtain ⟨y, before', own', -⟩ | ⟨-, -, b, same⟩ := own_stepped step found' own'
    · exact absurd newest (holds.bound before' own').ne
    · cases same
      rfl

theorem Owned.spare_stepped (found : c'.threads[j]? = some (.caller y))
    (own : y.own = some n) (other : y.pc.found ≠ some n) (sessionID : String) :
    c'.shared.sessions.lookup sessionID ≠ some n := by
  intro present
  obtain before | ⟨i, a, x, p, rfl, mine, here, z, after, won⟩ := lookup_stepped step present
  · obtain ⟨x, found, own, kept⟩ | ⟨newest, -, -⟩ := own_stepped step found own
    · exact holds.spare found own (fun mine => other (kept mine)) sessionID before
    · exact absurd newest (holds.known before).ne
  · have made := own_of_making reachable mine (by rw [here]; rfl)
    obtain ⟨x', found', own', -⟩ | ⟨newest, -, -⟩ := own_stepped step found own
    · obtain rfl := holds.unique mine found' made own'
      cases after.symm.trans found
      exact other (by rw [won]; rfl)
    · exact absurd newest (holds.bound mine made).ne

theorem Owned.mentioned_stepped {i : Nat} (found : c'.threads[i]? = some g)
    (mentioned : n ∈ g.mentions) (found' : c'.threads[j]? = some (.caller y)) (own : y.own = some n) :
    y.pc.found = some n := by
  obtain ⟨x, before, own, kept⟩ | ⟨newest, -, -⟩ := own_stepped step found' own
  · apply kept
    obtain ⟨k, g, taken, mentioned⟩ | ⟨sessionID, present⟩ | ⟨k, z, won, here⟩ := mention_stepped step found mentioned
    · exact holds.mentioned taken mentioned before own
    · by_contra other
      exact holds.spare before own other sessionID present
    · obtain rfl := holds.unique won before (own_of_making reachable won (by rw [here]; rfl)) own
      cases won.symm.trans before
      rw [here]
      rfl
  · exact absurd newest (holds.mentioned_before reachable step found mentioned).ne

theorem Owned.stepped : Owned c' where
  known present := holds.known_stepped reachable step present
  bound found own := by
    obtain ⟨x, before, own, -⟩ | ⟨-, less, -⟩ := own_stepped step found own
    · exact (holds.bound before own).trans_le (length_stepped step)
    · exact less
  unique found found' own own' := holds.unique_stepped step found found' own own'
  spare found own other sessionID := holds.spare_stepped reachable step found own other sessionID
  mentionedKnown found mentioned :=
    (holds.mentioned_before reachable step found mentioned).trans_le (length_stepped step)
  mentioned found mentioned found' own := holds.mentioned_stepped reachable step found mentioned found' own

end Step

theorem owned (reachable : (handler maxSessions sessionTimeout).Reachable c) : Owned c :=
  Machine.Reachable.invariant' owned_start (fun _ _ _ reachable holds step => holds.stepped reachable step) reachable

def PC.decided : PC → Bool
  | .lookup _ | .create | .register _ _ => false
  | _ => true

/-- The call is past its second section and its own session is not the one it goes on with. -/
def Caller.Lost (x : Caller) (n : Handle) : Prop := x.own = some n ∧ x.pc.decided ∧ x.pc.found ≠ some n

theorem Called.decided (called : Called h x a op x' new) (decided : x.pc.decided) :
    x'.own = x.own ∧ x'.pc.decided ∧ x'.pc.found = x.pc.found := by
  cases called with
  | @discarded n found here =>
    rw [here]
    cases found <;> exact ⟨rfl, rfl, rfl⟩
  | reaperStarted here | serving here => exact ⟨rfl, rfl, by rw [here]; rfl⟩
  | touched here =>
    rw [here]
    unfold Caller.begin
    split <;> exact ⟨rfl, rfl, rfl⟩
  | @streamed n pc pc' a here | @posted n pc pc' a isDone posted here =>
    rw [here]
    cases pc' <;> exact ⟨rfl, rfl, rfl⟩
  | _ here => simp [here, PC.decided] at decided

theorem Caller.Lost.stepped (step : (handler maxSessions sessionTimeout).step c l = some c')
    (lost : ∃ x, c.threads[i]? = some (.caller x) ∧ x.Lost n) : ∃ x, c'.threads[i]? = some (.caller x) ∧ x.Lost n := by
  obtain ⟨x, found, own, decided, other⟩ := lost
  obtain ⟨g, found', rfl | ⟨a, op, new, -, acted⟩⟩ := Program.thread_stepped step found
  · exact ⟨x, found', own, decided, other⟩
  · have moved : Acted c.shared (.caller x) a op g new := Goroutine.acted acted
    cases moved with
    | caller called =>
      obtain ⟨sameOwn, decided', sameFound⟩ := called.decided decided
      exact ⟨_, found', sameOwn.trans own, decided', sameFound ▸ other⟩

theorem Caller.Lost.ran {events : List Event} (lost : ∃ x, c.threads[i]? = some (.caller x) ∧ x.Lost n)
    (run : (handler maxSessions sessionTimeout).run c events = some c') :
    ∃ x, c'.threads[i]? = some (.caller x) ∧ x.Lost n :=
  Machine.run_invariant (P := fun c => ∃ x, c.threads[i]? = some (.caller x) ∧ x.Lost n)
    (fun _ _ _ lost step => Caller.Lost.stepped step lost) lost run

theorem lookup_of_found (step : (handler maxSessions sessionTimeout).step c l = some c')
    (found : c.threads[i]? = some (.caller x))
    (found' : c'.threads[i]? = some (.caller x')) (before : x.pc.found = none) (after : x'.pc.found = some n) :
    c'.shared.sessions.lookup x.request.name = some n := by
  obtain same | ⟨r, rfl, -⟩ | ⟨b, y, op, new, -, mine, called, performed⟩ := caller_stepped step found'
  · cases found.symm.trans same
    cases before.symm.trans after
  · cases after
  · cases found.symm.trans mine
    rw [performed]
    obtain same | ⟨m, after', -, present⟩ := called.found_cases
    · cases before.symm.trans (same.symm.trans after)
    · cases after'.symm.trans after
      exact present

theorem lookup_exit_stepped {name : String} {m : Handle} {p : Place}
    (step : (handler maxSessions sessionTimeout).step c (.act i a) = some c')
    (found : c.threads[i]? = some (.serve sessionID n (.exit p))) (newer : m ≠ n)
    (present : c.shared.sessions.lookup name = some m) : c'.shared.sessions.lookup name = some m := by
  cases Program.stepped step with
  | @act _ _ _ g' op new own unblocked acted =>
    obtain rfl := Option.some.inj (own.symm.trans found)
    have moved : Acted c.shared (.serve sessionID n (.exit p)) a op g' new := Goroutine.acted acted
    cases moved with
    | called | exitLocking => exact present
    | exited inside => exact StreamableHTTPHandler.lookup_exit newer present

theorem session_table_safe (maxSessions sessionTimeout : Int) {c : State}
    (reachable : (handler maxSessions sessionTimeout).Reachable c) :
    c.shared.sessions.entries.length ≤ (newStreamableHTTPHandler maxSessions sessionTimeout).maxSessions ∧
    (∀ i a c' x x' n, (handler maxSessions sessionTimeout).step c (.act i a) = some c' →
      c.threads[i]? = some (.caller x) → c'.threads[i]? = some (.caller x') → x.pc.found = none →
      x'.pc.found = some n → c'.shared.sessions.lookup x.request.name = some n) ∧
    (∀ (i : Nat) x n, c.threads[i]? = some (.caller x) → x.own = some n → x.pc.found ≠ some n →
      ∀ sessionID, c.shared.sessions.lookup sessionID ≠ some n) ∧
    (∀ (i : Nat) x n events c', c.threads[i]? = some (.caller x) → x.Lost n →
      (handler maxSessions sessionTimeout).run c events = some c' →
      ∀ sessionID, c'.shared.sessions.lookup sessionID ≠ some n) ∧
    (∀ i a c' sessionID n p, (handler maxSessions sessionTimeout).step c (.act i a) = some c' →
      c.threads[i]? = some (.serve sessionID n (.exit p)) → ∀ name m, m ≠ n →
      c.shared.sessions.lookup name = some m → c'.shared.sessions.lookup name = some m) := by
  refine ⟨entries_bounded reachable, ?_, fun i x n => (owned reachable).spare, ?_, ?_⟩
  · intro i a c' x x' n step found found' before after
    exact lookup_of_found step found found' before after
  · intro i x n events c' found lost run
    obtain ⟨y, found', own, -, other⟩ := Caller.Lost.ran ⟨x, found, lost⟩ run
    have reachable' : (handler maxSessions sessionTimeout).Reachable c' := Machine.Reachable.run reachable run
    exact (owned reachable').spare found' own other
  · intro i a c' sessionID n p step found name m newer present
    exact lookup_exit_stepped step found newer present

def raceRun : List Event :=
  [.spawn (.request ⟨.get, "a", "", true⟩), .spawn (.request ⟨.post .request, "", "a", true⟩),
    .act 0 .proceed, .act 1 .proceed, .act 0 .proceed, .act 1 .proceed, .act 0 .proceed, .act 1 .proceed,
    .act 0 .proceed, .act 0 .proceed, .act 0 .proceed, .act 1 .proceed, .act 1 .proceed, .act 1 .proceed]

theorem session_table_safe_race : ∃ c, (handler 1 10).run (handler 1 10).start raceRun = some c ∧
    c.shared.sessions.lookup "a" = some 0 ∧ ∀ sessionID, c.shared.sessions.lookup sessionID ≠ some 1 :=
  ⟨_, rfl, rfl, (session_table_safe 1 10 ⟨raceRun, rfl⟩).2.2.1 1 _ 1 rfl rfl (by decide)⟩

/-- The table has the names of that of a handler which finds or makes a session in one step, and its sessions have
the given numbers there. -/
structure Tabled (number : Handle → Nat) (h : StreamableHTTPHandler) (t : Streamable.StreamableHTTPHandler) : Prop where
  maxSessions : t.maxSessions = h.maxSessions
  sessions : t.sessions = Table.pairs number h.sessions

/-- What requests and deletions do to the table in one step. -/
inductive Turn (t : Streamable.StreamableHTTPHandler) : Streamable.StreamableHTTPHandler → Prop
  | request {name : String} {n : Nat} {t' : Streamable.StreamableHTTPHandler}
      (found : t.getOrCreateSession true name = some (n, t')) : Turn t t'
  | forget (name : String) : Turn t (t.forget name)

section Tabled
variable {number : Handle → Nat} {t : Streamable.StreamableHTTPHandler}

theorem Tabled.getSession (tabled : Tabled number h t) (name : String) :
    t.getSession name = (h.sessions.lookup name).map number := by
  rw [Streamable.StreamableHTTPHandler.getSession, tabled.sessions, Table.lookup_pairs]

theorem Tabled.forget (tabled : Tabled number h t) (name : String) : Tabled number (h.remove name) (t.forget name) :=
  ⟨tabled.maxSessions, by rw [Streamable.StreamableHTTPHandler.forget, tabled.sessions, ← Table.pairs_erase]; rfl⟩

/-- In the section in which it may insert one, a call finds or makes its session as the one step does. -/
theorem Tabled.register (tabled : Tabled number h t) (x : Caller) (fresh : ∀ name, h.sessions.lookup name ≠ some n) :
    ∃ number' t', Tabled number' (h.register x.request.name n) t' ∧
      (∀ name m, h.sessions.lookup name = some m → number' m = number m) ∧
      t.getOrCreateSession true x.request.name = (x.register h n).pc.found.map (fun m => (number' m, t')) ∧
      ((x.register h n).pc.found = none → t' = t) := by
  have length : t.sessions.length = h.sessions.entries.length := by rw [tabled.sessions, Table.pairs, List.length_map]
  have most := tabled.maxSessions
  have found := tabled.getSession x.request.name
  unfold Streamable.StreamableHTTPHandler.getOrCreateSession StreamableHTTPHandler.register Caller.register
  obtain ⟨m, existing, present⟩ | ⟨absent, full | ⟨inserted, room⟩⟩ := h.registration_cases x.request.name
  · rw [found, existing, present]
    exact ⟨number, t, tabled, fun _ _ _ => rfl, rfl, fun _ => rfl⟩
  · have filled : ¬ (true ∧ t.sessions.length < t.maxSessions) := by
      unfold StreamableHTTPHandler.registration at full
      rw [absent] at full
      simp only [ite_eq_left_iff, reduceCtorEq, imp_false, not_not] at full
      omega
    rw [found, full, absent]
    exact ⟨number, t, tabled, fun _ _ _ => rfl, if_neg filled, fun _ => rfl⟩
  · have other : ∀ name m, h.sessions.lookup name = some m →
        Function.update number n t.transports.length m = number m := by
      intro name m present
      refine Function.update_of_ne ?_ ..
      rintro rfl
      exact fresh name present
    have room : t.sessions.length < t.maxSessions := by omega
    rw [found, inserted, absent]
    refine ⟨Function.update number n t.transports.length, { t with
        sessions := (x.request.name, t.transports.length) :: t.sessions
        transports := t.transports ++ [Streamable.session.start] }, ⟨most, ?_⟩, other, ?_, by simp [PC.found]⟩
    · simp only
      rw [Table.pairs_insert _ absent, Function.update_self, Table.pairs_congr other, tabled.sessions]
    · simp [room, PC.found]

/-- The step in which a call gets its session is the step of `getOrCreateSession`. -/
theorem Called.tabled (called : Called h x a op x' new) (tabled : Tabled number h t)
    (fresh : ∀ n p, x.pc = .register n p → ∀ name, h.sessions.lookup name ≠ some n) :
    ∃ number' t', Tabled number' (h.effect op) t' ∧ (∀ name m, h.sessions.lookup name = some m → number' m = number m) ∧
      (t' = t ∧ x'.pc.found = x.pc.found ∨
        ∃ m, x'.pc.found = some m ∧ t.getOrCreateSession true x.request.name = some (number' m, t')) := by
  have outcome := called.found_cases
  cases called with
  | @registered n p here =>
    obtain ⟨number', t', tabled, kept, found, same⟩ := tabled.register x (fresh _ _ here)
    refine ⟨number', t', tabled, kept, ?_⟩
    cases mine : (x.register h n).pc.found with
    | none => exact .inl ⟨same mine, by rw [here]; rfl⟩
    | some m => exact .inr ⟨m, rfl, by rw [found, mine]; rfl⟩
  | _ =>
    refine ⟨number, t, ⟨tabled.maxSessions, tabled.sessions⟩, fun _ _ _ => rfl,
      outcome.imp (fun same => ⟨rfl, same⟩) ?_⟩
    rintro ⟨m, after, -, present⟩
    have found := tabled.getSession x.request.name
    rw [show h.sessions.lookup x.request.name = some m from present] at found
    exact ⟨m, after, by simp only [Streamable.StreamableHTTPHandler.getOrCreateSession, found, Option.map_some]⟩

theorem tabled_stepped (reachable : (handler maxSessions sessionTimeout).Reachable c)
    (tabled : Tabled number c.shared t) (step : (handler maxSessions sessionTimeout).step c l = some c') :
    ∃ number' t', Tabled number' c'.shared t' ∧ (t' = t ∨ Turn t t') := by
  have same {h : StreamableHTTPHandler} (most : h.maxSessions = c.shared.maxSessions)
      (sessions : h.sessions = c.shared.sessions) :
      ∃ number' t', Tabled number' h t' ∧ (t' = t ∨ Turn t t') :=
    ⟨number, t, ⟨tabled.maxSessions.trans most.symm, by rw [sessions, tabled.sessions]⟩, .inl rfl⟩
  cases Program.stepped step with
  | env | spawn => exact same rfl rfl
  | @act i a g g' op new own unblocked acted =>
    have moved : Acted c.shared g a op g' new := Goroutine.acted acted
    rw [effect_goroutines]
    cases moved with
    | @caller x x' _ _ _ called =>
      have fresh : ∀ n p, x.pc = .register n p → ∀ name, c.shared.sessions.lookup name ≠ some n := fun n p here =>
        (owned reachable).spare own (own_of_making reachable own (by rw [here]; rfl)) (by rw [here]; nofun)
      obtain ⟨number', t', tabled', -, ⟨same, -⟩ | ⟨m, -, found⟩⟩ := called.tabled tabled fresh
      · exact ⟨number', t', tabled', .inl same⟩
      · exact ⟨number', t', tabled', .inr (.request found)⟩
    | deleteFound => exact ⟨number, _, tabled.forget _, .inr (.forget _)⟩
    | @exited sessionID n =>
      obtain kept | ⟨-, removed⟩ := c.shared.exit_cases sessionID n
      · exact ⟨number, t, by rw [StreamableHTTPHandler.effect, StreamableHTTPHandler.perform, kept]; exact tabled,
          .inl rfl⟩
      · refine ⟨number, _, ?_, .inr (.forget sessionID)⟩
        rw [StreamableHTTPHandler.effect, StreamableHTTPHandler.perform, removed]
        exact tabled.forget sessionID
    | _ => exact same rfl rfl

/-- However the sections of the requests are interleaved, the table is that of requests and deletions taken one at a
time. -/
theorem sessions_in_turn (reachable : (handler maxSessions sessionTimeout).Reachable c) :
    ∃ number t, Relation.ReflTransGen Turn
        { maxSessions := (newStreamableHTTPHandler maxSessions sessionTimeout).maxSessions.toNat } t ∧
      Tabled number c.shared t := by
  refine Machine.Reachable.invariant' (P := fun c => ∃ number t, Relation.ReflTransGen Turn
    { maxSessions := (newStreamableHTTPHandler maxSessions sessionTimeout).maxSessions.toNat } t ∧
      Tabled number c.shared t) ⟨id, _, .refl, Int.toNat_of_nonneg ?_, rfl⟩ ?_ reachable
  · exact maxSessions_nonneg
  · rintro c l c' reachable ⟨number, t, turns, tabled⟩ step
    obtain ⟨number', t', tabled', rfl | turn⟩ := tabled_stepped reachable tabled step
    · exact ⟨number', t', turns, tabled'⟩
    · exact ⟨number', t', turns.tail turn, tabled'⟩

end Tabled

end Mcp.Sessions
