import Mcp.ConnectionPool

namespace Mcp.Pooling
open Mcp.Lib Bytes Lending

def ConnectionPool.usable (cfg : ConnectionPoolConfig) (p : ConnectionPool) (ping : Nat → Bool) (ptr : Nat) : Bool :=
  let c := p.heap ptr
  !c.inUse && c.healthy && !(cfg.enableHealthChecks && !p.isConnectionHealthy cfg ping c)

def exhausted (cfg : ConnectionPoolConfig) : Bytes :=
  ofString "connection pool exhausted (max: " ++ ofString (String.ofList (formatInt cfg.maxConnections)) ++ ofString ")"

def State.held (s : State) : List Nat :=
  s.pool.connections.filter fun ptr => s.wrappers.any fun w => !w.closed && w.conn == ptr

def ExhaustedHeld (cfg : ConnectionPoolConfig) (s : State) : Action → Prop
  | .get ping dial => s.pool.closed = false → (s.pool.get cfg ping dial).2 = .error (exhausted cfg) →
      s.held.length = cfg.maxConnections
  | _ => True

/-- If the pool is full and no connection is usable, then that is not because of an idle one, nor while a wrapper
that has set its flag is about to return its connection. -/
def NoneStuck (cfg : ConnectionPoolConfig) (s : State) : Action → Prop
  | .get ping _ => s.pool.closed = false → cfg.maxConnections ≤ s.pool.connections.length →
      (∃ ptr ∈ s.pool.connections, s.pool.usable cfg ping ptr = true) ∨
        (∀ ptr ∈ s.pool.connections, (s.pool.heap ptr).inUse = true) ∧
          ∀ w ∈ s.wrappers, w.closed = true → w.returned = true
  | _ => True

variable {cfg : ConnectionPoolConfig} {s : State}

namespace ConnectionPool

variable {p : ConnectionPool} {ping : Nat → Bool}

theorem usable_markUnhealthy {ptr : Nat} (unusable : p.usable cfg ping ptr = false) (other : Nat) :
    (p.markUnhealthy ptr).usable cfg ping other = p.usable cfg ping other := by
  by_cases same : other = ptr
  · subst same
    rw [unusable]
    simp [usable, markUnhealthy, put]
  · simp [usable, markUnhealthy, put, isConnectionHealthy, Function.update_of_ne same]

theorem available_eq_none_iff {ptrs : List Nat} :
    (p.available cfg ping ptrs).2 = none ↔ ∀ ptr ∈ ptrs, p.usable cfg ping ptr = false := by
  induction ptrs generalizing p with
  | nil => simp [available]
  | cons ptr rest ih =>
    rw [List.forall_mem_cons]
    unfold available
    simp only
    split_ifs with idle failed
    · have unusable : p.usable cfg ping ptr = false := by simp [usable, idle, failed]
      show ((p.markUnhealthy ptr).available cfg ping rest).2 = none ↔ _
      rw [ih]
      simp only [usable_markUnhealthy unusable, unusable, true_and]
    · have usable : p.usable cfg ping ptr = true := by simp [usable, idle, failed]
      simp [usable]
    · have unusable : p.usable cfg ping ptr = false := by simp [usable, idle]
      rw [ih]
      simp only [unusable, true_and]

theorem available_connections (ptrs : List Nat) : (p.available cfg ping ptrs).1.connections = p.connections := by
  have found := ledger_available cfg ping p ptrs
  generalize p.available cfg ping ptrs = outcome at found ⊢
  obtain ⟨p', _ | ptr⟩ := outcome
  · exact congrArg Ledger.items found
  · exact congrArg Ledger.items found.2.2

theorem get_exhausted_iff {dial : Except Bytes Nat} (opened : p.closed = false) :
    (p.get cfg ping dial).2 = .error (exhausted cfg) ↔
      cfg.maxConnections ≤ p.connections.length ∧ ∀ ptr ∈ p.connections, p.usable cfg ping ptr = false := by
  rw [← available_eq_none_iff]
  have connections : (p.available cfg ping p.connections).1.connections = p.connections := available_connections _
  unfold get
  simp only [opened, Bool.false_eq_true, if_false]
  generalize p.available cfg ping p.connections = outcome at connections ⊢
  obtain ⟨p', _ | ptr⟩ := outcome
  · simp only at connections ⊢
    rw [connections]
    split_ifs with room
    · refine iff_of_false ?_ fun full => Nat.not_le_of_lt room full.1
      cases dial with
      | error e =>
        intro same
        have first : (exhausted cfg).head? = some 99 := rfl
        have first' : (ofString "failed to create new connection: " ++ e).head? = some 102 := rfl
        rw [← Except.error.inj same, first'] at first
        cases first
      | ok raw => simp
    · exact iff_of_true rfl ⟨Nat.le_of_not_lt room, trivial⟩
  · simp

end ConnectionPool

theorem borrowed_of_reachable (reachable : (pooling cfg).Reachable s) : s.ledger.Borrowed :=
  reachable.invariant (P := fun s => s.ledger.Borrowed) nofun
    fun _ _ _ borrowed step => Ledger.borrowed_step borrowed (simulates step)

theorem held_length_iff (owned : Ledger.Owned cfg.maxConnections s.ledger) (borrowed : s.ledger.Borrowed)
    (opened : s.pool.closed = false) (full : cfg.maxConnections ≤ s.pool.connections.length) :
    s.held.length = cfg.maxConnections ↔ (∀ ptr ∈ s.pool.connections, (s.pool.heap ptr).inUse = true) ∧
        ∀ w ∈ s.wrappers, w.closed = true → w.returned = true := by
  have whole : s.pool.connections.length = cfg.maxConnections := Nat.le_antisymm owned.stocked.bound full
  rw [← whole, State.held, List.length_filter_eq_length_iff]
  simp only [List.any_eq_true, Bool.and_eq_true, Bool.not_eq_true', beq_iff_eq]
  constructor
  · refine fun held => ⟨fun ptr member => ?_, fun w member closed => ?_⟩
    · obtain ⟨w, place, running, rfl⟩ := held ptr member
      exact inUse_of_open owned place running
    · by_contra pending
      have active : w.loan.phase ≠ .ended := by simp [Wrapper.loan, closed, pending]
      obtain ⟨i, found⟩ := List.mem_iff_getElem?.mp member
      have lent := owned.holding.held i w.loan (loan_found found) active
      -- the connection has an open wrapper too, which cannot be another one
      obtain ⟨w', member', running, same⟩ := held w.conn (owned.stocked.kept opened _ lent)
      obtain ⟨j, found'⟩ := List.mem_iff_getElem?.mp member'
      obtain rfl := owned.holding.distinct j i w'.loan w.loan (loan_found found') (loan_found found)
        (loan_open running) active same
      obtain rfl := Option.some.inj (found'.symm.trans found)
      simp [running] at closed
  · rintro ⟨used, finished⟩ ptr member
    obtain ⟨loan, place, same, active⟩ := borrowed ptr (used ptr member)
    obtain ⟨w, member', rfl⟩ := List.mem_map.mp place
    refine ⟨w, member', Bool.of_not_eq_true fun closed => active ?_, same⟩
    simp [Wrapper.loan, closed, finished w member' closed]

theorem exhaustedHeld_iff (reachable : (pooling cfg).Reachable s) (a : Action) :
    ExhaustedHeld cfg s a ↔ NoneStuck cfg s a := by
  cases a with
  | get ping dial =>
    refine forall_congr' fun opened => ?_
    have counted := held_length_iff (owned_of_reachable reachable) (borrowed_of_reachable reachable) opened
    rw [ConnectionPool.get_exhausted_iff opened, and_imp]
    refine forall_congr' fun full => ?_
    rw [counted full, imp_iff_not_or]
    simp
  | _ => exact Iff.rfl

theorem exhaustion_held_iff (cfg : ConnectionPoolConfig) (actions : List Action) :
    (pooling cfg).EachStep (ExhaustedHeld cfg) (pooling cfg).start actions ↔
      (pooling cfg).EachStep (NoneStuck cfg) (pooling cfg).start actions :=
  Machine.eachStep_congr (P := (pooling cfg).Reachable) (fun _ _ _ reachable step => reachable.next step)
    (fun _ a reachable => exhaustedHeld_iff reachable a) .start actions

theorem exhaustion_nothing_held :
    let cfg : ConnectionPoolConfig := { maxConnections := 1 }
    let actions : List Action := [.get (fun _ => true) (.ok 7), .write 0, .failWrite 0, .close 0, .giveBack 0]
    ∃ s, (pooling cfg).run (pooling cfg).start actions = some s ∧ s.pool.closed = false ∧ s.held = [] ∧
      (s.pool.get cfg (fun _ => true) (.ok 8)).2 = .error (exhausted cfg) ∧
      ¬ ExhaustedHeld cfg s (.get (fun _ => true) (.ok 8)) := by
  intro cfg actions
  have facts : ((pooling cfg).run (pooling cfg).start actions).map (fun s => (s.pool.closed, s.held,
      s.pool.connections.length, s.pool.connections.all fun ptr => !s.pool.usable cfg (fun _ => true) ptr)) =
        some (false, [], 1, true) := by decide +kernel
  obtain ⟨s, run, shown⟩ := Option.map_eq_some_iff.mp facts
  obtain ⟨opened, held, full, unusable⟩ : _ ∧ _ ∧ _ ∧ _ := by simpa only [Prod.mk.injEq] using shown
  have report : (s.pool.get cfg (fun _ => true) (.ok 8)).2 = .error (exhausted cfg) :=
    (ConnectionPool.get_exhausted_iff opened).mpr ⟨Nat.le_of_eq full.symm, by simpa using unusable⟩
  refine ⟨s, run, opened, held, report, fun holds => ?_⟩
  have length := holds opened report
  rw [held] at length
  cases length

end Mcp.Pooling
