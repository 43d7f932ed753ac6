import Mcp.Lib.Bytes
import Mcp.Lib.Lending
import Mcp.Lib.Strconv

namespace Mcp.Pooling
open Mcp.Lib Bytes Function

structure ConnectionPoolConfig where
  -- `NewConnectionPool` panics if it is negative.
  maxConnections : Nat := 10
  maxIdleTime : Int := 300000000000
  maxConnectionAge : Int := 3600000000000
  cleanupInterval : Int := 60000000000
  enableHealthChecks : Bool := true

structure PooledConnection where
  conn : Nat := 0
  lastUsed : Int := 0
  inUse : Bool := false
  healthy : Bool := false
  createdAt : Int := 0

structure ConnectionPool where
  now : Int := 0
  heap : Nat → PooledConnection := fun _ => {}
  allocated : Nat := 0
  connections : List Nat := []
  activeCount : Int := 0
  closed : Bool := false

namespace ConnectionPool

def put (p : ConnectionPool) (ptr : Nat) (c : PooledConnection) : ConnectionPool :=
  { p with heap := update p.heap ptr c }

-- `ping` is true for a connection that has no `Ping`.
def isConnectionHealthy (cfg : ConnectionPoolConfig) (p : ConnectionPool) (ping : Nat → Bool) (c : PooledConnection) :
    Bool :=
  if cfg.maxIdleTime < p.now - c.lastUsed then false
  else if cfg.maxConnectionAge < p.now - c.createdAt then false
  else ping c.conn

def available (cfg : ConnectionPoolConfig) (ping : Nat → Bool) :
    ConnectionPool → List Nat → ConnectionPool × Option Nat
  | p, [] => (p, none)
  | p, ptr :: rest =>
    let c := p.heap ptr
    if !c.inUse && c.healthy then
      if cfg.enableHealthChecks && !p.isConnectionHealthy cfg ping c then
        available cfg ping (p.put ptr { c with healthy := false }) rest
      else
        ({ p.put ptr { c with inUse := true, lastUsed := p.now } with activeCount := p.activeCount + 1 }, some ptr)
    else available cfg ping p rest

def append (p : ConnectionPool) (raw : Nat) : ConnectionPool :=
  let c := { conn := raw, lastUsed := p.now, inUse := true, healthy := true, createdAt := p.now }
  { p.put p.allocated c with
    allocated := p.allocated + 1
    connections := p.connections ++ [p.allocated]
    activeCount := p.activeCount + 1 }

def get (cfg : ConnectionPoolConfig) (p : ConnectionPool) (ping : Nat → Bool) (dial : Except Bytes Nat) :
    ConnectionPool × Except Bytes Nat :=
  if p.closed then (p, .error (ofString "mcp: transport closed"))
  else match p.available cfg ping p.connections with
    | (p, some ptr) => (p, .ok ptr)
    | (p, none) =>
      if p.connections.length < cfg.maxConnections then
        match dial with
        | .error e => (p, .error (ofString "failed to create new connection: " ++ e))
        | .ok raw => (p.append raw, .ok p.allocated)
      else
        (p, .error (ofString "connection pool exhausted (max: " ++
          ofString (String.ofList (formatInt cfg.maxConnections)) ++ ofString ")"))

def giveBack (p : ConnectionPool) (ptr : Nat) : ConnectionPool :=
  let c := p.heap ptr
  if c.inUse then
    { p.put ptr { c with inUse := false, lastUsed := p.now } with activeCount := p.activeCount - 1 }
  else p

def markUnhealthy (p : ConnectionPool) (ptr : Nat) : ConnectionPool :=
  p.put ptr { p.heap ptr with healthy := false }

def close (p : ConnectionPool) : ConnectionPool :=
  if p.closed then p else { p with closed := true, connections := [], activeCount := 0 }

def shouldRemove (cfg : ConnectionPoolConfig) (p : ConnectionPool) (ptr : Nat) : Bool :=
  let c := p.heap ptr
  !c.healthy || (!c.inUse && cfg.maxIdleTime < p.now - c.lastUsed)

def removed (cfg : ConnectionPoolConfig) (p : ConnectionPool) (ptr : Nat) : Bool :=
  p.shouldRemove cfg ptr && !(p.heap ptr).inUse

def cleanup (cfg : ConnectionPoolConfig) (p : ConnectionPool) : ConnectionPool × List Nat :=
  if p.closed then (p, [])
  else ({ p with connections := p.connections.filter fun ptr => !p.removed cfg ptr },
    (p.connections.filter (p.removed cfg)).map fun ptr => (p.heap ptr).conn)

end ConnectionPool

structure Wrapper where
  conn : Nat
  closed : Bool := false
  returned : Bool := false
  order : returned = true → closed = true := by nofun

def Wrapper.close (w : Wrapper) : Wrapper := { w with closed := true, order := fun _ => rfl }

def Wrapper.finish (w : Wrapper) : Wrapper := { w with closed := true, returned := true, order := fun _ => rfl }

inductive Shutdown where
  | waiting
  | closing
  | done
deriving DecidableEq

def Shutdown.poll (p : ConnectionPool) : Shutdown :=
  if p.closed then .done else if p.activeCount = 0 then .closing else .waiting

structure State where
  pool : ConnectionPool := {}
  wrappers : List Wrapper := []
  writes : List (Option Nat) := []
  shutdowns : List Shutdown := []
  cleaned : List Nat := []

inductive Action where
  | wait (d : Nat)
  | get (ping : Nat → Bool) (dial : Except Bytes Nat)
  | close (w : Nat)
  | giveBack (w : Nat)
  | write (w : Nat)
  | failWrite (i : Nat)
  | cleanup
  | closePool
  | shutdown
  | poll (i : Nat)
  | timeout (i : Nat)
  | finish (i : Nat)

def State.afterGet (s : State) : ConnectionPool × Except Bytes Nat → State
  | (p, .error _) => { s with pool := p }
  | (p, .ok ptr) => { s with pool := p, wrappers := s.wrappers ++ [{ conn := ptr }] }

def State.step (cfg : ConnectionPoolConfig) (s : State) : Action → Option State
  | .wait d => some { s with pool := { s.pool with now := s.pool.now + d } }
  | .get ping dial => some (s.afterGet (s.pool.get cfg ping dial))
  | .close w => s.wrappers[w]?.map fun x =>
    if x.closed then s else { s with wrappers := s.wrappers.set w x.close }
  | .giveBack w => s.wrappers[w]?.bind fun x =>
    if x.closed && !x.returned then
      some { s with pool := s.pool.giveBack x.conn, wrappers := s.wrappers.set w x.finish }
    else none
  -- A write that finds the wrapper closed does nothing.
  | .write w => s.wrappers[w]?.map fun x => if x.closed then s else { s with writes := s.writes ++ [some x.conn] }
  | .failWrite i => s.writes[i]?.join.map fun ptr =>
    { s with pool := s.pool.markUnhealthy ptr, writes := s.writes.set i none }
  | .cleanup =>
    if 0 < cfg.cleanupInterval then
      some { s with pool := (s.pool.cleanup cfg).1, cleaned := s.cleaned ++ (s.pool.cleanup cfg).2 }
    else none
  | .closePool => some { s with pool := s.pool.close }
  | .shutdown => some { s with shutdowns := s.shutdowns ++ [.waiting] }
  | .poll i =>
    if s.shutdowns[i]? = some .waiting then
      some { s with shutdowns := s.shutdowns.set i (Shutdown.poll s.pool) }
    else none
  | .timeout i =>
    if s.shutdowns[i]? = some .waiting then some { s with shutdowns := s.shutdowns.set i .closing } else none
  | .finish i =>
    if s.shutdowns[i]? = some .closing then
      some { s with pool := s.pool.close, shutdowns := s.shutdowns.set i .done }
    else none

def pooling (cfg : ConnectionPoolConfig) : Machine State Action where
  start := {}
  step := State.step cfg

open Lending (Ledger Op Loan)

def ConnectionPool.ledger (p : ConnectionPool) : Ledger Nat where
  value ptr := (p.heap ptr).conn
  lent ptr := (p.heap ptr).inUse
  made := p.allocated
  items := p.connections
  count := p.activeCount
  shut := p.closed

def Wrapper.loan (w : Wrapper) : Loan where
  item := w.conn
  phase := if w.closed then if w.returned then .ended else .ending else .current

def State.ledger (s : State) : Ledger Nat :=
  { s.pool.ledger with loans := s.wrappers.map Wrapper.loan, retired := s.cleaned }

def State.op (cfg : ConnectionPoolConfig) (s : State) : Action → Op Nat
  | .get ping dial =>
    if s.pool.closed then .idle
    else match (s.pool.available cfg ping s.pool.connections).2 with
      | some ptr => .lend ptr
      | none =>
        if s.pool.connections.length < cfg.maxConnections then
          match dial with
          | .error _ => .idle
          | .ok raw => .make raw
        else .idle
  | .close w => if (s.wrappers[w]?.any fun x => x.closed) then .idle else .giveUp w
  | .giveBack w => .takeBack w
  | .cleanup => if s.pool.closed then .idle else .retire fun ptr => !s.pool.removed cfg ptr
  | .closePool => if s.pool.closed then .idle else .shut
  | .finish _ => if s.pool.closed then .idle else .shut
  | _ => .idle

namespace ConnectionPool

variable {cfg : ConnectionPoolConfig} {p : ConnectionPool} {ping : Nat → Bool} {ptr : Nat}

theorem ledger_put (p : ConnectionPool) (ptr : Nat) (c : PooledConnection) : (p.put ptr c).ledger = { p.ledger with
        value := update p.ledger.value ptr c.conn
        lent := update p.ledger.lent ptr c.inUse } := by
  have value : (p.put ptr c).ledger.value = update p.ledger.value ptr c.conn := by
    funext other
    simp only [ledger, put, update_apply]
    split_ifs <;> rfl
  have lent : (p.put ptr c).ledger.lent = update p.ledger.lent ptr c.inUse := by
    funext other
    simp only [ledger, put, update_apply]
    split_ifs <;> rfl
  rw [← value, ← lent]
  rfl

theorem ledger_markUnhealthy (p : ConnectionPool) (ptr : Nat) : (p.markUnhealthy ptr).ledger = p.ledger := by
  rw [markUnhealthy, ledger_put]
  have value : update p.ledger.value ptr (p.heap ptr).conn = p.ledger.value := update_eq_self _ _
  have lent : update p.ledger.lent ptr (p.heap ptr).inUse = p.ledger.lent := update_eq_self _ _
  simp only [value, lent]

theorem ledger_use (p : ConnectionPool) (ptr : Nat) (used : Bool) :
    (p.put ptr { p.heap ptr with inUse := used, lastUsed := p.now }).ledger =
      { p.ledger with lent := update p.ledger.lent ptr used } := by
  rw [ledger_put]
  have value : update p.ledger.value ptr (p.heap ptr).conn = p.ledger.value := update_eq_self _ _
  simp only [value]

theorem ledger_available (cfg : ConnectionPoolConfig) (ping : Nat → Bool) (p : ConnectionPool) (ptrs : List Nat) :
    match p.available cfg ping ptrs with
    | (p', none) => p'.ledger = p.ledger
    | (p', some ptr) => ptr ∈ ptrs ∧ p.ledger.lent ptr = false ∧
        p'.ledger = { p.ledger with lent := update p.ledger.lent ptr true, count := p.ledger.count + 1 } := by
  induction ptrs generalizing p with
  | nil => rfl
  | cons ptr rest ih =>
    have skip {q : ConnectionPool} (same : q.ledger = p.ledger) :
        match q.available cfg ping rest with
        | (p', none) => p'.ledger = p.ledger
        | (p', some ptr') => ptr' ∈ ptr :: rest ∧ p.ledger.lent ptr' = false ∧
            p'.ledger =
              { p.ledger with lent := update p.ledger.lent ptr' true, count := p.ledger.count + 1 } := by
      have tail := ih q
      rw [same] at tail
      generalize q.available cfg ping rest = outcome at tail ⊢
      obtain ⟨p', _ | ptr'⟩ := outcome
      · exact tail
      · exact ⟨List.mem_cons_of_mem _ tail.1, tail.2⟩
    unfold available
    simp only
    split_ifs with usable ill
    · exact skip (ledger_markUnhealthy p ptr)
    · refine ⟨List.mem_cons_self, ?_, ?_⟩
      · simpa [ledger] using (Bool.and_eq_true_iff.mp usable).1
      · show { (p.put ptr _).ledger with count := p.activeCount + 1 } = _
        rw [ledger_use]
        rfl
    · exact skip rfl

theorem ledger_append (p : ConnectionPool) (raw : Nat) :
    (p.append raw).ledger = { p.ledger.make raw with loans := [] } := by
  have put := ledger_put p p.allocated
    { conn := raw, lastUsed := p.now, inUse := true, healthy := true, createdAt := p.now }
  show { (p.put p.allocated _).ledger with
    made := p.allocated + 1, items := p.connections ++ [p.allocated], count := p.activeCount + 1 } = _
  rw [put]
  rfl

theorem ledger_giveBack (p : ConnectionPool) (ptr : Nat) : (p.giveBack ptr).ledger = p.ledger.takeBack ptr := by
  unfold giveBack Ledger.takeBack
  have same : p.ledger.lent ptr = (p.heap ptr).inUse := rfl
  simp only [same]
  split_ifs
  · show { (p.put ptr _).ledger with count := p.activeCount - 1 } = _
    rw [ledger_use]
    rfl
  · rfl

end ConnectionPool

variable {cfg : ConnectionPoolConfig} {s s' : State} {a : Action}

theorem ledger_of_pool {p : ConnectionPool} (same : p.ledger = s.pool.ledger) :
    State.ledger { s with pool := p } = s.ledger := by
  simp only [State.ledger, same]

theorem simulates_get (ping : Nat → Bool) (dial : Except Bytes Nat) :
    s.ledger.step cfg.maxConnections (s.op cfg (.get ping dial)) =
      some (s.afterGet (s.pool.get cfg ping dial)).ledger := by
  simp only [State.op, ConnectionPool.get]
  by_cases closed : s.pool.closed = true
  · simp only [closed, if_true]
    rfl
  simp only [closed, Bool.false_eq_true, if_false]
  have opened : s.ledger.shut = false := Bool.of_not_eq_true closed
  have found := ConnectionPool.ledger_available cfg ping s.pool s.pool.connections
  generalize s.pool.available cfg ping s.pool.connections = outcome at found ⊢
  obtain ⟨p, _ | ptr⟩ := outcome
  · simp only at found ⊢
    have connections : p.connections = s.pool.connections := congrArg Ledger.items found
    have allocated : p.allocated = s.pool.allocated := congrArg Ledger.made found
    rw [connections]
    split_ifs with room
    · cases dial with
      | error e => exact congrArg some (ledger_of_pool found).symm
      | ok raw =>
        refine (if_pos ⟨opened, room⟩).trans (congrArg some ?_)
        simp only [State.afterGet, State.ledger, ConnectionPool.ledger_append, found, List.map_append, allocated]
        rfl
    · exact congrArg some (ledger_of_pool found).symm
  · obtain ⟨member, idle, found⟩ := found
    refine (if_pos ⟨opened, member, idle⟩).trans (congrArg some ?_)
    simp only [State.afterGet, State.ledger, found, List.map_append]
    rfl

variable {w : Nat}

theorem loan_found {x : Wrapper} (found : s.wrappers[w]? = some x) : s.ledger.loans[w]? = some x.loan := by
  simp only [State.ledger, List.getElem?_map, found, Option.map_some]

theorem simulates_close (step : s.step cfg (.close w) = some s') :
    s.ledger.step cfg.maxConnections (s.op cfg (.close w)) = some s'.ledger := by
  obtain ⟨x, found, rfl⟩ := Option.map_eq_some_iff.mp step
  have loan := loan_found found
  by_cases closed : x.closed = true
  · simp [State.op, found, closed, Ledger.step]
  · have unreturned : x.returned = false := Bool.of_not_eq_true fun returned => closed (x.order returned)
    have current : x.loan.phase = .current := if_neg closed
    have ending : x.close.loan = { x.loan with phase := .ending } := by
      simp [Wrapper.loan, Wrapper.close, unreturned]
    simp only [State.op, found, Option.any_some, closed, Bool.false_eq_true, if_false, Ledger.step, loan,
      Option.bind_some, current, if_true, ← ending, Option.some_inj]
    simp only [State.ledger, List.map_set]

theorem simulates_giveBack (step : s.step cfg (.giveBack w) = some s') :
    s.ledger.step cfg.maxConnections (s.op cfg (.giveBack w)) = some s'.ledger := by
  obtain ⟨x, found, step⟩ := Option.bind_eq_some_iff.mp step
  obtain ⟨waiting, ⟨⟩⟩ := Option.ite_none_right_eq_some.mp step
  have loan := loan_found found
  obtain ⟨closed, unreturned⟩ : x.closed = true ∧ x.returned = false := by simpa using waiting
  have ending : x.loan.phase = .ending := by simp [Wrapper.loan, closed, unreturned]
  have ended : x.finish.loan = { x.loan with phase := .ended } := rfl
  simp only [State.op, Ledger.step, loan, Option.bind_some, ending, if_true, ← ended, Option.some_inj]
  simp only [State.ledger, List.map_set, ConnectionPool.ledger_giveBack, Ledger.takeBack]
  have item : x.loan.item = x.conn := rfl
  cases used : s.pool.ledger.lent x.conn <;>
    simp only [item, used, Bool.false_eq_true, if_false, if_true]

theorem simulates_cleanup (step : s.step cfg .cleanup = some s') :
    s.ledger.step cfg.maxConnections (s.op cfg .cleanup) = some s'.ledger := by
  obtain ⟨-, ⟨⟩⟩ := Option.ite_none_right_eq_some.mp step
  simp only [State.op, ConnectionPool.cleanup]
  by_cases closed : s.pool.closed = true
  · simp only [if_pos closed, List.append_nil]
    rfl
  simp only [if_neg closed]
  -- what is in use stays, also if it is unhealthy
  have idle : ∀ ptr ∈ s.ledger.items, (!s.pool.removed cfg ptr) = false → s.ledger.lent ptr = false := by
    intro ptr _ dropped
    have removed : s.pool.removed cfg ptr = true := by simpa using dropped
    have idle := (Bool.and_eq_true_iff.mp removed).2
    rwa [Bool.not_eq_true'] at idle
  refine (if_pos ⟨Bool.of_not_eq_true closed, idle⟩).trans (congrArg some ?_)
  simp only [Ledger.retire, Bool.not_not]
  rfl

theorem simulates_closePool (s : State) (cfg : ConnectionPoolConfig) :
    s.ledger.step cfg.maxConnections (s.op cfg .closePool) = some (State.ledger { s with pool := s.pool.close }) := by
  simp only [State.op, ConnectionPool.close]
  split_ifs with closed
  · rfl
  · exact if_pos (Bool.of_not_eq_true closed)

theorem simulates (step : s.step cfg a = some s') : s.ledger.step cfg.maxConnections (s.op cfg a) = some s'.ledger := by
  cases a with
  | wait | shutdown =>
    cases step
    rfl
  | get ping dial =>
    cases step
    exact simulates_get ping dial
  | close w => exact simulates_close step
  | giveBack w => exact simulates_giveBack step
  | write w =>
    obtain ⟨x, -, rfl⟩ := Option.map_eq_some_iff.mp step
    split_ifs <;> rfl
  | failWrite i =>
    obtain ⟨ptr, -, rfl⟩ := Option.map_eq_some_iff.mp step
    exact congrArg some (ledger_of_pool (s.pool.ledger_markUnhealthy ptr)).symm
  | cleanup => exact simulates_cleanup step
  | closePool =>
    cases step
    exact simulates_closePool s cfg
  | poll | timeout =>
    obtain ⟨-, ⟨⟩⟩ := Option.ite_none_right_eq_some.mp step
    rfl
  | finish i =>
    obtain ⟨-, ⟨⟩⟩ := Option.ite_none_right_eq_some.mp step
    exact simulates_closePool s cfg

theorem owned_start (cfg : ConnectionPoolConfig) : Ledger.Owned cfg.maxConnections (pooling cfg).start.ledger where
  stocked := ⟨Nat.zero_le _, List.nodup_nil, nofun, fun _ _ => rfl, nofun, fun _ => rfl⟩
  holding := ⟨nofun, nofun⟩

theorem owned_of_reachable (reachable : (pooling cfg).Reachable s) : Ledger.Owned cfg.maxConnections s.ledger :=
  reachable.invariant (P := fun s => Ledger.Owned cfg.maxConnections s.ledger) (owned_start cfg)
    fun _ _ _ owned step => Ledger.owned_step owned (simulates step)

def State.underlying (s : State) (w : Wrapper) : Nat := (s.pool.heap w.conn).conn

/-- `Dial` returns a connection that no earlier call has returned. -/
def DialsNew (s : State) : Action → Prop
  | .get _ (.ok raw) => ∀ ptr < s.pool.allocated, (s.pool.heap ptr).conn ≠ raw
  | _ => True

instance (s : State) (a : Action) : Decidable (DialsNew s a) := by
  unfold DialsNew
  split <;> infer_instance

def SparesOpen (cfg : ConnectionPoolConfig) (s : State) (a : Action) : Prop :=
  a = .cleanup → ∀ raw ∈ (s.pool.cleanup cfg).2, ∀ w ∈ s.wrappers, w.closed = false → s.underlying w ≠ raw

theorem new_of_dialsNew (new : DialsNew s a) : s.ledger.New (s.op cfg a) := by
  cases a with
  | get ping dial =>
    simp only [State.op]
    repeat' split
    all_goals first | exact new | trivial
  | close | cleanup | closePool | finish =>
    simp only [State.op]
    split_ifs <;> trivial
  | _ => trivial

structure Exclusive (cfg : ConnectionPoolConfig) (s : State) : Prop where
  owned : Ledger.Owned cfg.maxConnections s.ledger
  separate : Ledger.Separate s.ledger

theorem exclusive_step (s : State) (a : Action) (s' : State) (exclusive : Exclusive cfg s) (new : DialsNew s a)
    (step : (pooling cfg).step s a = some s') : Exclusive cfg s' :=
  ⟨Ledger.owned_step exclusive.owned (simulates step),
    Ledger.separate_step exclusive.owned.stocked exclusive.separate (new_of_dialsNew new) (simulates step)⟩

theorem exclusive_start (cfg : ConnectionPoolConfig) : Exclusive cfg (pooling cfg).start :=
  ⟨owned_start cfg, nofun, nofun, List.nodup_nil⟩

theorem loan_open {w : Wrapper} (opened : w.closed = false) : w.loan.phase ≠ .ended := by
  simp [Wrapper.loan, opened]

theorem inUse_of_open {w : Wrapper} (owned : Ledger.Owned cfg.maxConnections s.ledger) (member : w ∈ s.wrappers)
    (opened : w.closed = false) : (s.pool.heap w.conn).inUse = true := by
  obtain ⟨i, found⟩ := List.mem_iff_getElem?.mp member
  exact owned.holding.held i w.loan (loan_found found) (loan_open opened)

theorem sparesOpen (exclusive : Exclusive cfg s) (a : Action) : SparesOpen cfg s a := by
  rintro rfl raw closes w member opened same
  have inUse := inUse_of_open exclusive.owned member opened
  unfold ConnectionPool.cleanup at closes
  split_ifs at closes
  · cases closes
  obtain ⟨ptr, place, rfl⟩ := List.mem_map.mp closes
  obtain ⟨place, removed⟩ := List.mem_filter.mp place
  have stocked := exclusive.owned.stocked
  have eq : w.conn = ptr :=
    exclusive.separate.value w.conn (stocked.lt inUse) ptr (stocked.made ptr place) same
  simp [ConnectionPool.removed, ← eq, inUse] at removed

/-- With a transport whose `Dial` always returns a new connection, no two open wrappers have the same underlying
connection, `cleanup` closes none that an open wrapper has and none twice, and the pool never has more than
`MaxConnections`. -/
theorem underlying_exclusive (cfg : ConnectionPoolConfig) (actions : List Action) (s : State)
    (each : (pooling cfg).EachStep DialsNew (pooling cfg).start actions)
    (run : (pooling cfg).run (pooling cfg).start actions = some s) :
    (∀ (i j : Nat) a b, s.wrappers[i]? = some a → s.wrappers[j]? = some b → a.closed = false → b.closed = false →
        s.underlying a = s.underlying b → i = j) ∧
      (pooling cfg).EachStep (SparesOpen cfg) (pooling cfg).start actions ∧
      s.cleaned.Nodup ∧ s.pool.connections.length ≤ cfg.maxConnections := by
  have exclusive : Exclusive cfg s := Machine.run_invariant_of_eachStep exclusive_step (exclusive_start cfg) each run
  have stocked := exclusive.owned.stocked
  refine ⟨?_, ?_, exclusive.separate.once, stocked.bound⟩
  · intro i j a b found found' opened opened' same
    have inUse := inUse_of_open exclusive.owned (List.mem_of_getElem? found) opened
    have inUse' := inUse_of_open exclusive.owned (List.mem_of_getElem? found') opened'
    have conn : a.conn = b.conn :=
      exclusive.separate.value a.conn (stocked.lt inUse) b.conn (stocked.lt inUse') same
    exact exclusive.owned.holding.distinct i j a.loan b.loan (loan_found found) (loan_found found')
      (loan_open opened) (loan_open opened') conn
  · exact each.imp_of_invariant exclusive_step (fun s a exclusive => sparesOpen exclusive a) (exclusive_start cfg)

theorem underlying_exclusive_two :
    let actions : List Action := [.get (fun _ => true) (.ok 7), .get (fun _ => true) (.ok 8), .close 0, .giveBack 0,
      .get (fun _ => true) (.ok 9), .wait 400000000000, .cleanup]
    ∃ s, (pooling {}).run (pooling {}).start actions = some s ∧
      s.wrappers.map (fun w => (s.underlying w, w.closed)) = [(7, true), (8, false), (7, false)] ∧
      ∀ (i j : Nat) a b, s.wrappers[i]? = some a → s.wrappers[j]? = some b → a.closed = false → b.closed = false →
        s.underlying a = s.underlying b → i = j := by
  intro actions
  have facts : ((pooling {}).run (pooling {}).start actions).map
      (fun s => s.wrappers.map fun w => (s.underlying w, w.closed)) =
        some [(7, true), (8, false), (7, false)] := by decide +kernel
  obtain ⟨s, run, shown⟩ := Option.map_eq_some_iff.mp facts
  exact ⟨s, run, shown,
    (underlying_exclusive {} actions s (Machine.eachStep_of_checks (by decide +kernel)) run).1⟩

theorem underlying_shared :
    let actions : List Action := [.get (fun _ => true) (.ok 7), .get (fun _ => true) (.ok 7), .close 0, .giveBack 0,
      .wait 400000000000]
    ∃ s, (pooling {}).run (pooling {}).start actions = some s ∧
      ((pooling {}).run (pooling {}).start (actions.take 2)).map (fun s => s.wrappers.map fun w =>
        (s.underlying w, w.closed)) = some [(7, false), (7, false)] ∧
      ¬ SparesOpen {} s .cleanup := by
  intro actions
  have facts : ((pooling {}).run (pooling {}).start actions).map (fun s =>
      ((s.pool.cleanup {}).2, s.wrappers.map fun w => (s.underlying w, w.closed))) =
        some ([7], [(7, true), (7, false)]) := by decide +kernel
  obtain ⟨s, run, shown⟩ := Option.map_eq_some_iff.mp facts
  obtain ⟨closes, wrappers⟩ : _ ∧ _ := by simpa only [Prod.mk.injEq] using shown
  refine ⟨s, run, by decide +kernel, fun spares => ?_⟩
  have second : (7, false) ∈ s.wrappers.map fun w => (s.underlying w, w.closed) := by simp [wrappers]
  obtain ⟨w, member, eq⟩ := List.mem_map.mp second
  obtain ⟨underlying, opened⟩ : _ ∧ _ := by simpa only [Prod.mk.injEq] using eq
  exact spares rfl 7 (by simp [closes]) w member opened underlying

def State.Accounted (s : State) : Prop :=
  s.pool.activeCount = s.pool.connections.countP (fun ptr => (s.pool.heap ptr).inUse) ∧ 0 ≤ s.pool.activeCount

/-- A connection is returned only while the pool is open. -/
def ReturnsOpen (s : State) : Action → Prop
  | .giveBack _ => s.pool.closed = false
  | _ => True

instance (s : State) (a : Action) : Decidable (ReturnsOpen s a) := by
  unfold ReturnsOpen
  split <;> infer_instance

theorem accounted_iff_ledger (s : State) : s.Accounted ↔ s.ledger.Accounted := by
  refine ⟨And.left, fun accounted => ⟨accounted, ?_⟩⟩
  have count : s.pool.activeCount = _ := accounted
  rw [count]
  exact Int.natCast_nonneg _

theorem takesBack_iff (a : Action) : (∀ i, s.op cfg a = .takeBack i → s.ledger.shut = false) ↔ ReturnsOpen s a := by
  cases a with
  | giveBack w => exact ⟨fun h => h w rfl, fun h _ _ => h⟩
  | get ping dial =>
    refine iff_of_true ?_ trivial
    intro i same
    simp only [State.op] at same
    repeat' split at same
    all_goals cases same
  | _ =>
    refine iff_of_true ?_ trivial
    intro i same
    simp only [State.op] at same
    first | cases same | split_ifs at same

theorem connections_accounted_iff (cfg : ConnectionPoolConfig) (actions : List Action) (s : State)
    (run : (pooling cfg).run (pooling cfg).start actions = some s) :
    (pooling cfg).Always State.Accounted (pooling cfg).start actions ↔
      (pooling cfg).EachStep ReturnsOpen (pooling cfg).start actions := by
  refine Machine.always_iff_eachStep ?_ .start ⟨rfl, Int.le_refl _⟩ run
  intro s a s' reachable accounted step
  rw [accounted_iff_ledger] at accounted ⊢
  exact (Ledger.accounted_step_iff (owned_of_reachable reachable) accounted (simulates step)).trans (takesBack_iff a)

theorem accounted_shutdown :
    let actions : List Action := [.get (fun _ => true) (.ok 7), .shutdown, .poll 0, .close 0, .giveBack 0, .poll 0,
      .finish 0]
    (pooling {}).Always State.Accounted (pooling {}).start actions := by
  intro actions
  have runs : ((pooling {}).run (pooling {}).start actions).isSome = true := by decide +kernel
  obtain ⟨s, run⟩ := Option.isSome_iff_exists.mp runs
  exact (connections_accounted_iff {} actions s run).mpr (Machine.eachStep_of_checks (by decide +kernel))

theorem activeCount_negative :
    let actions : List Action := [.get (fun _ => true) (.ok 7), .closePool, .close 0, .giveBack 0]
    ((pooling {}).run (pooling {}).start actions).map (fun s => (s.pool.connections, s.pool.activeCount)) =
      some ([], -1) := by
  decide +kernel

end Mcp.Pooling
