import Mcp.Auth.Provider
import Mcp.Lib.Machine
import Mcp.Lib.Table

namespace Mcp.Middleware
open Mcp.Lib Mcp.Auth

structure CacheItem where
  pointer : Nat
  value : Bytes
  expiresAt : Int
  size : Int

def CacheItem.expired (now : Int) (item : CacheItem) : Bool := item.expiresAt < now

structure InMemoryCache where
  items : Table Bytes CacheItem
  size : Int
  maxSize : Int

def newInMemoryCache (maxSize : Int) : InMemoryCache := { items := ∅, size := 0, maxSize := maxSize }

namespace InMemoryCache

variable (c : InMemoryCache)

-- the value, or the expired item for the goroutine that cleans up
def get (key : Bytes) (now : Int) : Option Bytes × Option CacheItem :=
  match c.items.lookup key with
  | none => (none, none)
  | some item => if item.expired now then (none, some item) else (some item.value, none)

def cleanup (key : Bytes) (item : CacheItem) : InMemoryCache :=
  { c with items := c.items.erase key, size := c.size - item.size }

def evictLRU (now : Int) : InMemoryCache :=
  { c with
    items := Table.keep (fun item => !item.expired now) c.items
    size := c.size - Table.total CacheItem.size (Table.keep (CacheItem.expired now) c.items) }

def makeSpace (itemSize now : Int) : InMemoryCache := if c.maxSize < c.size + itemSize then c.evictLRU now else c

def removeExisting (key : Bytes) : Int :=
  match c.items.lookup key with
  | some existing => c.size - existing.size
  | none => c.size

def set (pointer : Nat) (key value : Bytes) (ttl now : Int) : InMemoryCache :=
  let itemSize : Int := value.length
  let space := c.makeSpace itemSize now
  let item := { pointer := pointer, value := value, expiresAt := now + ttl, size := itemSize }
  { space with items := space.items.insert key item, size := space.removeExisting key + itemSize }

def delete (key : Bytes) : InMemoryCache :=
  match c.items.lookup key with
  | some item => { c with items := c.items.erase key, size := c.size - item.size }
  | none => c

def clear : InMemoryCache := { c with items := ∅, size := 0 }

end InMemoryCache

structure CacheState where
  cache : InMemoryCache
  now : Int
  due : Int
  fresh : Nat
  pending : List (Bytes × CacheItem)

inductive CacheLabel
  | wait (d : Nat)
  | get (key : Bytes)
  | set (key value : Bytes) (ttl : Int)
  | delete (key : Bytes)
  | clear
  | evict
  | cleanup (i : Nat)

def cacheCleanupInterval : Int := 600 * second

namespace CacheState

def step (s : CacheState) : CacheLabel → Option CacheState
  | .wait d => some { s with now := s.now + d }
  | .get key => some { s with pending := s.pending ++ ((s.cache.get key s.now).2.map (key, ·)).toList }
  | .set key value ttl => some { s with cache := s.cache.set s.fresh key value ttl s.now, fresh := s.fresh + 1 }
  | .delete key => some { s with cache := s.cache.delete key }
  | .clear => some { s with cache := s.cache.clear }
  | .evict =>
    if s.due ≤ s.now then
      some { s with cache := s.cache.evictLRU s.now, due := s.now + cacheCleanupInterval }
    else none
  | .cleanup i =>
    (s.pending[i]?).map fun task =>
      { s with cache := s.cache.cleanup task.1 task.2, pending := s.pending.eraseIdx i }

end CacheState

def caching (maxSize begin : Int) : Machine CacheState CacheLabel where
  start :=
    { cache := newInMemoryCache maxSize, now := begin, due := begin + cacheCleanupInterval,
      fresh := 0, pending := [] }
  step := CacheState.step

namespace InMemoryCache

def slack (c : InMemoryCache) : Int := c.size - Table.total CacheItem.size c.items

def sizeAt (c : InMemoryCache) (key : Bytes) : Int := Table.weightAt CacheItem.size key c.items

variable (c : InMemoryCache)

theorem slack_cleanup (key : Bytes) (item : CacheItem) :
    (c.cleanup key item).slack = c.slack + (c.sizeAt key - item.size) := by
  simp only [slack, cleanup, sizeAt, Table.total_erase]
  omega

theorem slack_evictLRU (now : Int) : (c.evictLRU now).slack = c.slack := by
  have parts := Table.total_keep_add CacheItem.size (CacheItem.expired now) c.items
  simp only [slack, evictLRU]
  omega

theorem slack_makeSpace (itemSize now : Int) : (c.makeSpace itemSize now).slack = c.slack := by
  unfold makeSpace
  split_ifs
  · exact c.slack_evictLRU now
  · rfl

theorem removeExisting_eq (key : Bytes) : c.removeExisting key = c.size - c.sizeAt key := by
  unfold removeExisting sizeAt Table.weightAt
  cases c.items.lookup key with
  | none => simp
  | some existing => rfl

theorem slack_set (pointer : Nat) (key value : Bytes) (ttl now : Int) :
    (c.set pointer key value ttl now).slack = c.slack := by
  have space := c.slack_makeSpace value.length now
  simp only [slack, set, Table.total_insert, Table.total_erase, removeExisting_eq, sizeAt] at space ⊢
  omega

theorem slack_delete (key : Bytes) : (c.delete key).slack = c.slack := by
  unfold delete
  cases found : c.items.lookup key with
  | none => rfl
  | some item =>
    simp only [slack, Table.total_erase, Table.weightAt, found, Option.map_some, Option.getD_some]
    omega

theorem slack_clear : c.clear.slack = 0 := rfl

def Sized : Prop := ∀ key item, c.items.lookup key = some item → item.size = item.value.length

variable {c} {key key' : Bytes} {item : CacheItem} {now : Int}

theorem lookup_erase_eq_some (found : (c.items.erase key').lookup key = some item) :
    key ≠ key' ∧ c.items.lookup key = some item := by
  by_cases same : key = key'
  · rw [same, AList.lookup_erase] at found
    cases found
  · exact ⟨same, (AList.lookup_erase_ne same).symm.trans found⟩

theorem lookup_evictLRU (c : InMemoryCache) (now : Int) (key : Bytes) :
    (c.evictLRU now).items.lookup key = (c.items.lookup key).filter fun item => !item.expired now :=
  Table.lookup_keep _ key c.items

theorem lookup_makeSpace (fresh : item.expired now = false) (found : c.items.lookup key = some item)
    (itemSize : Int) : (c.makeSpace itemSize now).items.lookup key = some item := by
  unfold makeSpace
  split_ifs
  · rw [lookup_evictLRU, found]
    simp [fresh]
  · exact found

theorem Sized.evictLRU (sized : c.Sized) (now : Int) : (c.evictLRU now).Sized := by
  intro key item found
  rw [lookup_evictLRU] at found
  exact sized key item (Option.filter_eq_some_iff.mp found).1

theorem Sized.erase (sized : c.Sized) (key' : Bytes) (size : Int) :
    ({ c with items := c.items.erase key', size := size } : InMemoryCache).Sized :=
  fun key item found => sized key item (lookup_erase_eq_some found).2

theorem Sized.set (sized : c.Sized) (pointer : Nat) (key value : Bytes) (ttl now : Int) :
    (c.set pointer key value ttl now).Sized := by
  have space : (c.makeSpace value.length now).Sized := by
    unfold makeSpace
    split_ifs
    · exact sized.evictLRU now
    · exact sized
  intro key' item found
  by_cases same : key' = key
  · subst same
    simp only [InMemoryCache.set, AList.lookup_insert] at found
    cases found
    rfl
  · simp only [InMemoryCache.set, AList.lookup_insert_ne same] at found
    exact space key' item found

theorem Sized.delete (sized : c.Sized) (key : Bytes) : (c.delete key).Sized := by
  unfold InMemoryCache.delete
  split
  · exact sized.erase key _
  · exact sized

theorem Sized.size_eq (sized : c.Sized) : ∀ entry ∈ c.items.entries, entry.2.size = entry.2.value.length :=
  fun entry stored => sized entry.1 entry.2 (AList.mem_lookup_iff.mpr stored)

theorem Sized.total_nonneg (sized : c.Sized) : 0 ≤ Table.total CacheItem.size c.items :=
  Table.total_nonneg fun entry stored => by
    rw [sized.size_eq entry stored]
    exact Int.natCast_nonneg _

end InMemoryCache

namespace CacheState

variable {maxSize begin : Int} {s s' t : CacheState} {l : CacheLabel}

theorem sized (reachable : (caching maxSize begin).Reachable s) : s.cache.Sized := by
  refine reachable.invariant (P := fun s => s.cache.Sized) ?_ ?_
  · intro key item found
    cases found
  · intro s l s' sized step
    cases l with
    | wait | get => cases step; exact sized
    | set key value ttl => cases step; exact sized.set _ _ _ _ _
    | delete key => cases step; exact sized.delete key
    | clear =>
      cases step
      intro key item found
      cases found
    | evict =>
      obtain ⟨-, ⟨⟩⟩ := Option.ite_none_right_eq_some.mp step
      exact sized.evictLRU s.now
    | cleanup i =>
      obtain ⟨task, -, rfl⟩ := Option.map_eq_some_iff.mp step
      exact sized.erase task.1 _

def Accounted (s : CacheState) : Prop :=
  s.cache.size = Table.total CacheItem.size s.cache.items ∧ 0 ≤ s.cache.size

theorem accounted_iff_slack (reachable : (caching maxSize begin).Reachable s) : s.Accounted ↔ s.cache.slack = 0 := by
  have nonneg := (sized reachable).total_nonneg
  unfold Accounted InMemoryCache.slack
  omega

/-- A clean-up finds an item of the size that it subtracts, or nothing if it subtracts 0. -/
def CleansStored (s : CacheState) : CacheLabel → Prop
  | .cleanup i => ∀ task ∈ s.pending[i]?, s.cache.sizeAt task.1 = task.2.size
  | _ => True

instance (s : CacheState) (l : CacheLabel) : Decidable (s.CleansStored l) := by
  cases l <;> unfold CleansStored <;> infer_instance

theorem slack_step (balanced : s.cache.slack = 0) (step : s.step l = some s') :
    s'.cache.slack = 0 ↔ s.CleansStored l := by
  cases l with
  | wait | get => cases step; exact iff_of_true balanced trivial
  | set key value ttl => cases step; exact iff_of_true ((s.cache.slack_set _ _ _ _ _).trans balanced) trivial
  | delete key => cases step; exact iff_of_true ((s.cache.slack_delete key).trans balanced) trivial
  | clear => cases step; exact iff_of_true s.cache.slack_clear trivial
  | evict =>
    obtain ⟨-, ⟨⟩⟩ := Option.ite_none_right_eq_some.mp step
    exact iff_of_true ((s.cache.slack_evictLRU s.now).trans balanced) trivial
  | cleanup i =>
    obtain ⟨task, found, rfl⟩ := Option.map_eq_some_iff.mp step
    simp only [CleansStored, found, Option.mem_some_iff, forall_eq', InMemoryCache.slack_cleanup, balanced]
    omega

theorem accounted_iff (maxSize begin : Int) {ls : List CacheLabel}
    (run : (caching maxSize begin).run (caching maxSize begin).start ls = some t) :
    (caching maxSize begin).Always Accounted (caching maxSize begin).start ls ↔
      (caching maxSize begin).EachStep CleansStored (caching maxSize begin).start ls := by
  refine Machine.always_iff_eachStep (fun s l s' reachable accounted step => ?_) .start ⟨rfl, le_rfl⟩ run
  rw [accounted_iff_slack (reachable.next step)]
  exact slack_step ((accounted_iff_slack reachable).mp accounted) step

theorem accounted_cleaned :
    ∃ (ls : List CacheLabel) (t : CacheState),
      (caching 100 0).run (caching 100 0).start ls = some t ∧ t.cache.size = 2 ∧
      (caching 100 0).Always Accounted (caching 100 0).start ls := by
  let ls : List CacheLabel := [.set [107] [1, 2, 3] 5, .wait 6, .get [107], .cleanup 0, .set [107] [4, 5] 5]
  have facts : ((caching 100 0).run (caching 100 0).start ls).map (fun t => t.cache.size) = some 2 := by
    decide +kernel
  obtain ⟨t, run, size⟩ := Option.map_eq_some_iff.mp facts
  have each : (caching 100 0).EachStep CleansStored (caching 100 0).start ls :=
    Machine.eachStep_of_checks (by decide +kernel)
  exact ⟨ls, t, run, size, (accounted_iff 100 0 run).mpr each⟩

theorem not_accounted_two_reads :
    ∃ (ls : List CacheLabel) (t : CacheState),
      (caching 100 0).run (caching 100 0).start ls = some t ∧ t.cache.size = -3 ∧ ¬ t.Accounted := by
  let ls : List CacheLabel := [.set [107] [1, 2, 3] 5, .wait 6, .get [107], .get [107], .cleanup 0, .cleanup 0]
  have facts : ((caching 100 0).run (caching 100 0).start ls).map (fun t => t.cache.size) = some (-3) := by
    decide +kernel
  obtain ⟨t, run, size⟩ := Option.map_eq_some_iff.mp facts
  refine ⟨ls, t, run, size, fun accounted => ?_⟩
  have nonneg := accounted.2
  omega

end CacheState

def CacheLabel.affects (key : Bytes) : CacheLabel → Bool
  | .set key' _ _ => key' = key
  | .delete key' => key' = key
  | .clear => true
  | _ => false

namespace InMemoryCache

variable {c : InMemoryCache} {key key' : Bytes} {item : CacheItem} {now : Int}

theorem lookup_set_of_ne (fresh : item.expired now = false) (found : c.items.lookup key = some item)
    (other : key ≠ key') (pointer : Nat) (value : Bytes) (ttl : Int) :
    (c.set pointer key' value ttl now).items.lookup key = some item := by
  simp only [set, AList.lookup_insert_ne other]
  exact lookup_makeSpace fresh found _

theorem lookup_delete_of_ne (found : c.items.lookup key = some item) (other : key ≠ key') :
    (c.delete key').items.lookup key = some item := by
  unfold delete
  split
  · exact (AList.lookup_erase_ne other).trans found
  · exact found

theorem get_of_fresh (fresh : item.expired now = false) (found : c.items.lookup key = some item) :
    c.get key now = (some item.value, none) := by
  simp [get, found, fresh]

end InMemoryCache

namespace CacheState

variable {maxSize begin : Int} {s s' t : CacheState} {l : CacheLabel} {key value : Bytes} {ttl : Int}

/-- A clean-up of the key runs only when nothing unexpired is stored under it. -/
def CleansExpired (key : Bytes) (s : CacheState) : CacheLabel → Prop
  | .cleanup i => ∀ task ∈ s.pending[i]?, task.1 = key → ∀ item ∈ s.cache.items.lookup key, item.expired s.now
  | _ => True

instance (key : Bytes) (s : CacheState) (l : CacheLabel) : Decidable (CleansExpired key s l) := by
  cases l <;> unfold CleansExpired <;> infer_instance

def Keeps (key : Bytes) (item : CacheItem) (s : CacheState) : Prop :=
  item.expired s.now = false → s.cache.items.lookup key = some item

theorem Keeps.step {item : CacheItem} (keeps : Keeps key item s) (unaffected : l.affects key = false)
    (cleans : CleansExpired key s l) (step : s.step l = some s') : Keeps key item s' := by
  cases l with
  | wait d =>
    cases step
    intro fresh
    apply keeps
    simp only [CacheItem.expired, decide_eq_false_iff_not] at fresh ⊢
    omega
  | get key' => cases step; exact keeps
  | set key' value ttl =>
    cases step
    intro fresh
    have other : key ≠ key' := fun same => by simp [CacheLabel.affects, same] at unaffected
    exact InMemoryCache.lookup_set_of_ne fresh (keeps fresh) other _ _ _
  | delete key' =>
    cases step
    intro fresh
    have other : key ≠ key' := fun same => by simp [CacheLabel.affects, same] at unaffected
    exact InMemoryCache.lookup_delete_of_ne (keeps fresh) other
  | clear => cases unaffected
  | evict =>
    obtain ⟨-, ⟨⟩⟩ := Option.ite_none_right_eq_some.mp step
    intro fresh
    have found := keeps fresh
    simp only [InMemoryCache.lookup_evictLRU, found]
    simpa using fresh
  | cleanup i =>
    obtain ⟨task, found, rfl⟩ := Option.map_eq_some_iff.mp step
    intro fresh
    have stored : s.cache.items.lookup key = some item := keeps fresh
    have other : key ≠ task.1 := by
      intro same
      have old := cleans task found same.symm item stored
      rw [fresh] at old
      cases old
    exact (AList.lookup_erase_ne other).trans stored

theorem get_eq_some (maxSize begin : Int) (key value : Bytes) (ttl : Int) {between : List CacheLabel}
    (set : (caching maxSize begin).step s (.set key value ttl) = some s')
    (unaffected : ∀ l ∈ between, l.affects key = false)
    (each : (caching maxSize begin).EachStep (CleansExpired key) s' between)
    (run : (caching maxSize begin).run s' between = some t) (inTime : t.now ≤ s.now + ttl) :
    (t.cache.get key t.now).1 = some value := by
  cases set
  let item : CacheItem := { pointer := s.fresh, value := value, expiresAt := s.now + ttl, size := value.length }
  have keeps : Keeps key item t :=
    Machine.run_invariant_of_eachStep (P := Keeps key item)
      (fun _ _ _ keeps meets step => keeps.step meets.2 meets.1 step)
      (fun _ => AList.lookup_insert _) (each.and (Machine.eachStep_of_forall unaffected _)) run
  have fresh : item.expired t.now = false := by simpa [CacheItem.expired, item] using inTime
  rw [InMemoryCache.get_of_fresh fresh (keeps fresh)]

theorem get_eq_some_cleaned :
    ∃ s s' t between, (caching 4 0).step s (.set [107] [4, 5] 5) = some s' ∧
      (caching 4 0).run s' between = some t ∧ t.now = s.now + 5 ∧ (t.cache.get [107] t.now).1 = some [4, 5] := by
  let before : List CacheLabel := [.set [107] [1] 3, .set [106] [2] 3, .wait 4, .get [107], .get [106], .cleanup 0]
  let between : List CacheLabel := [.set [105] [7, 8, 9] 1, .cleanup 0, .wait 5]
  have facts : (((caching 4 0).run (caching 4 0).start before).bind fun s =>
      ((caching 4 0).step s (.set [107] [4, 5] 5)).bind fun s' => ((caching 4 0).run s' between).map fun t =>
        (t.now - s.now, (caching 4 0).checks (fun s l => decide (CleansExpired [107] s l)) s' between)) =
      some (5, true) := by decide +kernel
  obtain ⟨s, -, facts⟩ := Option.bind_eq_some_iff.mp facts
  obtain ⟨s', set, facts⟩ := Option.bind_eq_some_iff.mp facts
  obtain ⟨t, run, values⟩ := Option.map_eq_some_iff.mp facts
  obtain ⟨elapsed, checked⟩ := Prod.mk.inj values
  have each : (caching 4 0).EachStep (CleansExpired [107]) s' between := Machine.eachStep_of_checks checked
  have unaffected : ∀ l ∈ between, l.affects [107] = false := by simp [between, CacheLabel.affects]
  exact ⟨s, s', t, between, set, run, by omega,
    get_eq_some 4 0 [107] [4, 5] 5 set unaffected each run (by omega)⟩

theorem get_eq_none_late_cleanup :
    ∃ before s s' t between, (caching 100 0).run (caching 100 0).start before = some s ∧
      (caching 100 0).step s (.set [107] [4, 5] 50) = some s' ∧ (∀ l ∈ between, l.affects [107] = false) ∧
      (caching 100 0).run s' between = some t ∧ t.now ≤ s.now + 50 ∧ (t.cache.get [107] t.now).1 = none := by
  let before : List CacheLabel := [.set [107] [1] 3, .wait 4, .get [107]]
  let between : List CacheLabel := [.cleanup 0]
  have facts : (((caching 100 0).run (caching 100 0).start before).bind fun s =>
      ((caching 100 0).step s (.set [107] [4, 5] 50)).bind fun s' => ((caching 100 0).run s' between).map fun t =>
        (t.now - s.now, (t.cache.get [107] t.now).1)) = some (0, none) := by decide +kernel
  obtain ⟨s, first, facts⟩ := Option.bind_eq_some_iff.mp facts
  obtain ⟨s', set, facts⟩ := Option.bind_eq_some_iff.mp facts
  obtain ⟨t, run, values⟩ := Option.map_eq_some_iff.mp facts
  obtain ⟨elapsed, gone⟩ := Prod.mk.inj values
  exact ⟨before, s, s', t, between, first, set, by simp [between, CacheLabel.affects], run, by omega, gone⟩

end CacheState

namespace InMemoryCache

def stored (items : Table Bytes CacheItem) : Int := Table.total (fun item => (item.value.length : Int)) items

theorem Sized.stored_eq {c : InMemoryCache} (sized : c.Sized) : stored c.items = Table.total CacheItem.size c.items :=
  (congrArg List.sum (List.map_congr_left sized.size_eq)).symm

theorem stored_erase_le (items : Table Bytes CacheItem) (key : Bytes) : stored (items.erase key) ≤ stored items := by
  have taken : 0 ≤ Table.weightAt (fun item : CacheItem => (item.value.length : Int)) key items := by
    unfold Table.weightAt
    cases items.lookup key with
    | none => exact le_rfl
    | some item => exact Int.natCast_nonneg _
  simp only [stored, Table.total_erase]
  omega

theorem stored_set (c : InMemoryCache) (pointer : Nat) (key value : Bytes) (ttl now : Int) :
    stored (c.set pointer key value ttl now).items =
      value.length + stored ((c.makeSpace value.length now).items.erase key) := by
  simp only [stored, set, Table.total_insert]

-- an honest recorded size that leaves room bounds the values; only where it leaves none does eviction matter
theorem stored_set_le {c : InMemoryCache} {key value : Bytes} {now : Int} (sized : c.Sized) (balanced : c.slack = 0)
    (room : c.maxSize < c.size + value.length →
      stored ((Table.keep (fun item => !item.expired now) c.items).erase key) + value.length ≤ c.maxSize)
    (pointer : Nat) (ttl : Int) : stored (c.set pointer key value ttl now).items ≤ c.maxSize := by
  rw [stored_set]
  unfold makeSpace
  split_ifs with full
  · have left := room full
    simp only [evictLRU]
    omega
  · have erased := stored_erase_le c.items key
    have recorded := sized.stored_eq
    unfold slack at balanced
    omega

theorem set_maxSize (c : InMemoryCache) (pointer : Nat) (key value : Bytes) (ttl now : Int) :
    (c.set pointer key value ttl now).maxSize = c.maxSize := by
  simp only [set, makeSpace]
  split_ifs <;> rfl

theorem delete_maxSize (c : InMemoryCache) (key : Bytes) : (c.delete key).maxSize = c.maxSize := by
  unfold delete
  split <;> rfl

end InMemoryCache

namespace CacheState

variable {maxSize begin : Int} {s t : CacheState} {l : CacheLabel}

theorem maxSize_eq (reachable : (caching maxSize begin).Reachable s) :
    s.cache.maxSize = maxSize := by
  refine reachable.invariant (P := fun s => s.cache.maxSize = maxSize) rfl ?_
  intro s l s' same step
  cases l with
  | wait | get | clear => cases step; exact same
  | set key value ttl => cases step; exact (s.cache.set_maxSize ..).trans same
  | delete key => cases step; exact (s.cache.delete_maxSize key).trans same
  | evict =>
    obtain ⟨-, ⟨⟩⟩ := Option.ite_none_right_eq_some.mp step
    exact same
  | cleanup i =>
    obtain ⟨task, -, rfl⟩ := Option.map_eq_some_iff.mp step
    exact same

/-- Where the recorded size leaves no room for the value, the unexpired items under other keys do; and clean-ups
find what they subtract. -/
def MakesRoom (s : CacheState) : CacheLabel → Prop
  | .set key value _ =>
    s.cache.maxSize < s.cache.size + value.length →
      InMemoryCache.stored ((Table.keep (fun item => !item.expired s.now) s.cache.items).erase key) + value.length ≤
        s.cache.maxSize
  | l => s.CleansStored l

instance (s : CacheState) (l : CacheLabel) : Decidable (s.MakesRoom l) := by
  cases l <;> unfold MakesRoom <;> infer_instance

theorem MakesRoom.cleansStored (room : s.MakesRoom l) : s.CleansStored l := by
  cases l with
  | set => trivial
  | _ => exact room

theorem within_limit (maxSize begin : Int) {ls before after : List CacheLabel} {key value : Bytes} {ttl : Int}
    (each : (caching maxSize begin).EachStep MakesRoom (caching maxSize begin).start ls)
    (parts : ls = before ++ .set key value ttl :: after)
    (run : (caching maxSize begin).run (caching maxSize begin).start (before ++ [.set key value ttl]) = some t) :
    InMemoryCache.stored t.cache.items ≤ maxSize := by
  obtain ⟨s, first, last⟩ := (Machine.run_append _).mp run
  obtain ⟨t', step, ⟨⟩⟩ := (Machine.run_cons _).mp last
  cases step
  rw [parts, Machine.eachStep_append] at each
  have balanced : s.cache.slack = 0 :=
    Machine.run_invariant_of_eachStep (P := fun s => s.cache.slack = 0)
      (fun _ _ _ balanced room step => (slack_step balanced step).mpr room.cleansStored) rfl each.1 first
  have room := (each.2 s first).1
  have bound := InMemoryCache.stored_set_le (sized ⟨before, first⟩) balanced room s.fresh ttl
  rwa [maxSize_eq ⟨before, first⟩] at bound

-- the second value needs the room of the first one, which has expired; the third one replaces the second
theorem within_limit_evicting :
    ∃ t, (caching 4 0).run (caching 4 0).start
        [.set [106] [1, 2, 3] 5, .wait 6, .set [107] [4, 5, 6] 5, .get [107], .set [107] [7, 8, 9, 9] 5] = some t ∧
      t.cache.items.lookup [106] = none ∧ InMemoryCache.stored t.cache.items ≤ 4 := by
  let before : List CacheLabel := [.set [106] [1, 2, 3] 5, .wait 6, .set [107] [4, 5, 6] 5, .get [107]]
  have facts : ((caching 4 0).run (caching 4 0).start (before ++ [.set [107] [7, 8, 9, 9] 5])).map
      (fun t => (t.cache.items.lookup [106]).isNone) = some true := by decide +kernel
  obtain ⟨t, run, gone⟩ := Option.map_eq_some_iff.mp facts
  have each : (caching 4 0).EachStep MakesRoom (caching 4 0).start (before ++ [.set [107] [7, 8, 9, 9] 5]) :=
    Machine.eachStep_of_checks (by decide +kernel)
  exact ⟨t, run, Option.isNone_iff_eq_none.mp gone, within_limit 4 0 each rfl run⟩

theorem over_limit_two_values :
    ∃ t, (caching 4 0).run (caching 4 0).start [.set [106] [1, 2, 3] 5, .set [107] [4, 5, 6] 5] = some t ∧
      InMemoryCache.stored t.cache.items = 6 := by
  have facts : ((caching 4 0).run (caching 4 0).start
      [.set [106] [1, 2, 3] 5, .set [107] [4, 5, 6] 5]).map (fun t => InMemoryCache.stored t.cache.items) =
        some 6 := by decide +kernel
  exact Option.map_eq_some_iff.mp facts

end CacheState

end Mcp.Middleware
