import Mcp.Lib.Machine
import Mathlib.Order.Lattice

/-! # Pools of objects -/

namespace Mcp.Lib
open Function

structure Pool (κ ο σ γ δ ρ : Type*) where
  start : Int → δ
  configure : σ → γ → σ
  fresh : σ → κ → Int → ο
  prepare : σ → κ → δ → Option δ
  spend : ο → δ → Int → Option (ο × Bool)
  record : δ → Int → List ρ
  lastSeen : ο → Int
  interval : Int

namespace Pool

inductive Call (κ δ : Type*)
  | arrived (key : κ) (data : δ)
  | holding (key : κ) (id : Nat) (data : δ)
  | done (key : κ) (allowed : Bool)

inductive Sweep (κ : Type*)
  | asleep
  | walking (cutoff : Int) (visited : List κ)
  | loaded (cutoff : Int) (visited : List κ) (key : κ) (id : Nat)
  | doomed (cutoff : Int) (visited : List κ) (key : κ)

structure State (κ ο σ δ ρ : Type*) where
  settings : σ
  heap : κ → List ο
  table : κ → Option Nat
  calls : List (Call κ δ)
  now : Int
  due : Int
  sweep : Sweep κ
  log : κ → List ρ

inductive Label (κ γ : Type*)
  | wait (d : Nat)
  | configure (change : γ)
  | call (key : κ) (n : Int)
  | fetch (i : Nat)
  | prepare (i : Nat)
  | spend (i : Nat)
  | wake
  | visit (key : κ)
  | look
  | remove
  | rest

variable {κ ο σ γ δ ρ : Type*} (pool : Pool κ ο σ γ δ ρ)

section Steps

variable [DecidableEq κ]

def step (c : State κ ο σ δ ρ) : Label κ γ → Option (State κ ο σ δ ρ)
  | .wait d => some { c with now := c.now + d }
  | .configure change => some { c with settings := pool.configure c.settings change }
  | .call key n => some { c with calls := c.calls ++ [.arrived key (pool.start n)] }
  | .fetch i =>
    match c.calls[i]? with
    | some (.arrived key data) =>
      match c.table key with
      | some id => some { c with calls := c.calls.set i (.holding key id data) }
      | none => some { c with
          heap := update c.heap key (c.heap key ++ [pool.fresh c.settings key c.now])
          table := update c.table key (some (c.heap key).length)
          calls := c.calls.set i (.holding key (c.heap key).length data) }
    | _ => none
  | .prepare i =>
    match c.calls[i]? with
    | some (.holding key id data) =>
      (pool.prepare c.settings key data).map fun data' =>
        { c with calls := c.calls.set i (.holding key id data') }
    | _ => none
  | .spend i =>
    match c.calls[i]? with
    | some (.holding key id data) =>
      match pool.prepare c.settings key data, (c.heap key)[id]? with
      | none, some object =>
        (pool.spend object data c.now).map fun result => { c with
          heap := update c.heap key ((c.heap key).set id result.1)
          calls := c.calls.set i (.done key result.2)
          log := if result.2 then update c.log key (c.log key ++ pool.record data c.now) else c.log }
      | _, _ => none
    | _ => none
  | .wake =>
    match c.sweep with
    | .asleep =>
      if c.due ≤ c.now then some { c with sweep := .walking (c.now - pool.interval) [] } else none
    | _ => none
  | .visit key =>
    match c.sweep with
    | .walking cutoff visited =>
      -- a walk visits a key once
      if visited.any (· = key) then none
      else (c.table key).map fun id => { c with sweep := .loaded cutoff (key :: visited) key id }
    | _ => none
  | .look =>
    match c.sweep with
    | .loaded cutoff visited key id =>
      ((c.heap key)[id]?).map fun object => { c with
        sweep :=
          if pool.lastSeen object < cutoff then .doomed cutoff visited key else .walking cutoff visited }
    | _ => none
  | .remove =>
    match c.sweep with
    | .doomed cutoff visited key =>
      some { c with table := update c.table key none, sweep := .walking cutoff visited }
    | _ => none
  | .rest =>
    match c.sweep with
    | .walking _ _ => some { c with sweep := .asleep, due := c.now + pool.interval }
    | _ => none

def machine (settings : σ) (now : Int) : Machine (State κ ο σ δ ρ) (Label κ γ) where
  start :=
    { settings := settings, heap := fun _ => [], table := fun _ => none, calls := [], now := now,
      due := now + pool.interval, sweep := .asleep, log := fun _ => [] }
  step := pool.step

variable {c c' : State κ ο σ δ ρ} {l : Label κ γ}

inductive Stepped (c : State κ ο σ δ ρ) : Label κ γ → State κ ο σ δ ρ → Prop
  | wait (d : Nat) : Stepped c (.wait d) { c with now := c.now + d }
  | configure (change : γ) : Stepped c (.configure change) { c with settings := pool.configure c.settings change }
  | call (key : κ) (n : Int) :
      Stepped c (.call key n) { c with calls := c.calls ++ [.arrived key (pool.start n)] }
  | found {i : Nat} {key : κ} {data : δ} {id : Nat} (call : c.calls[i]? = some (.arrived key data))
      (entry : c.table key = some id) :
      Stepped c (.fetch i) { c with calls := c.calls.set i (.holding key id data) }
  | made {i : Nat} {key : κ} {data : δ} (call : c.calls[i]? = some (.arrived key data))
      (entry : c.table key = none) :
      Stepped c (.fetch i) { c with
        heap := update c.heap key (c.heap key ++ [pool.fresh c.settings key c.now])
        table := update c.table key (some (c.heap key).length)
        calls := c.calls.set i (.holding key (c.heap key).length data) }
  | prepare {i : Nat} {key : κ} {id : Nat} {data data' : δ} (call : c.calls[i]? = some (.holding key id data))
      (next : pool.prepare c.settings key data = some data') :
      Stepped c (.prepare i) { c with calls := c.calls.set i (.holding key id data') }
  | spend {i : Nat} {key : κ} {id : Nat} {data : δ} {object object' : ο} {allowed : Bool}
      (call : c.calls[i]? = some (.holding key id data)) (ready : pool.prepare c.settings key data = none)
      (found : (c.heap key)[id]? = some object) (spent : pool.spend object data c.now = some (object', allowed)) :
      Stepped c (.spend i) { c with
        heap := update c.heap key ((c.heap key).set id object')
        calls := c.calls.set i (.done key allowed)
        log := if allowed then update c.log key (c.log key ++ pool.record data c.now) else c.log }
  | sweep {l : Label κ γ} (due : Int) (sweep : Sweep κ) : Stepped c l { c with due := due, sweep := sweep }
  | remove {cutoff : Int} {visited : List κ} {key : κ} (doomed : c.sweep = .doomed cutoff visited key) :
      Stepped c .remove { c with table := update c.table key none, sweep := .walking cutoff visited }

theorem stepped (step : pool.step c l = some c') : pool.Stepped c l c' := by
  cases l <;> simp only [Pool.step] at step
  case wait d => cases step; exact .wait d
  case configure change => cases step; exact .configure change
  case call key n => cases step; exact .call key n
  case fetch i =>
    split at step
    · rename_i key data call
      split at step
      · rename_i id entry
        cases step
        exact .found call entry
      · rename_i entry
        cases step
        exact .made call entry
    · cases step
  case prepare i =>
    split at step
    · rename_i key id data call
      obtain ⟨data', next, rfl⟩ := Option.map_eq_some_iff.mp step
      exact .prepare call next
    · cases step
  case spend i =>
    split at step
    · rename_i key id data call
      split at step
      · rename_i object ready found
        obtain ⟨result, spent, rfl⟩ := Option.map_eq_some_iff.mp step
        exact .spend call ready found spent
      · cases step
    · cases step
  case wake =>
    split at step
    · split at step
      · cases step
        exact .sweep c.due _
      · cases step
    · cases step
  case visit key =>
    split at step
    · split at step
      · cases step
      · obtain ⟨id, -, rfl⟩ := Option.map_eq_some_iff.mp step
        exact .sweep c.due _
    · cases step
  case look =>
    split at step
    · obtain ⟨object, -, rfl⟩ := Option.map_eq_some_iff.mp step
      exact .sweep c.due _
    · cases step
  case remove =>
    split at step
    · rename_i doomed
      cases step
      exact .remove doomed
    · cases step
  case rest =>
    split at step
    · cases step
      exact .sweep _ _
    · cases step

def Call.holds (key : κ) (id : Nat) : Call κ δ → Bool
  | .holding key' id' _ => key' = key ∧ id' = id
  | _ => false

def Call.pending (key : κ) : Call κ δ → Bool
  | .arrived key' _ => key' = key
  | .holding key' _ _ => key' = key
  | .done _ _ => false

def Sweep.removes (key : κ) : Sweep κ → Bool
  | .doomed _ _ key' => key' = key
  | _ => false

def State.held (c : State κ ο σ δ ρ) (key : κ) : Bool :=
  (c.table key).any fun id => c.calls.any (Call.holds key id)

def State.current (c : State κ ο σ δ ρ) (key : κ) : Option ο :=
  (c.table key).bind fun id => (c.heap key)[id]?

def Guarded (key : κ) (finished : σ → Int → ο → Prop) (allowed : State κ ο σ δ ρ → γ → Prop)
    (c : State κ ο σ δ ρ) : Label κ γ → Prop
  | .configure change => allowed c change
  | .remove =>
    c.sweep.removes key → c.held key = false ∧ ∀ object ∈ c.current key, finished c.settings c.now object
  | _ => True

instance (key : κ) (finished : σ → Int → ο → Prop) (allowed : State κ ο σ δ ρ → γ → Prop)
    [∀ s now object, Decidable (finished s now object)] [∀ c change, Decidable (allowed c change)]
    (c : State κ ο σ δ ρ) (l : Label κ γ) : Decidable (Guarded key finished allowed c l) := by
  cases l <;> unfold Guarded <;> infer_instance

end Steps

structure Upkeep (pool : Pool κ ο σ γ δ ρ) (key : κ) (finished : σ → Int → ο → Prop)
    (allowed : State κ ο σ δ ρ → γ → Prop) where
  Live : σ → List ρ → Int → ο → Prop
  Gone : σ → List ρ → Int → Prop
  Fits : σ → δ → Prop
  starts : ∀ s n, Fits s (pool.start n)
  prepares : ∀ {s data data'}, Fits s data → pool.prepare s key data = some data' → Fits s data'
  makes : ∀ {s log now}, Gone s log now → Live s log now (pool.fresh s key now)
  spends : ∀ {s log now object data object' granted}, Live s log now object → Fits s data →
    pool.spend object data now = some (object', granted) →
    Live s (if granted then log ++ pool.record data now else log) now object'
  waits : ∀ {s log now now' object}, Live s log now object → now ≤ now' → Live s log now' object
  stays : ∀ {s log now now'}, Gone s log now → now ≤ now' → Gone s log now'
  forgets : ∀ {s log now object}, Live s log now object → finished s now object → Gone s log now
  configuresLive : ∀ {c change object}, allowed c change → Live c.settings (c.log key) c.now object →
    Live (pool.configure c.settings change) (c.log key) c.now object
  configuresGone : ∀ {c change}, allowed c change → Gone c.settings (c.log key) c.now →
    Gone (pool.configure c.settings change) (c.log key) c.now
  configuresFits : ∀ {c change data}, allowed c change →
    (.arrived key data ∈ c.calls ∨ ∃ id, .holding key id data ∈ c.calls) → Fits c.settings data →
    Fits (pool.configure c.settings change) data

namespace Upkeep

variable {pool} {key : κ} {finished : σ → Int → ο → Prop} {allowed : State κ ο σ δ ρ → γ → Prop}
  (upkeep : Upkeep pool key finished allowed) {c c' : State κ ο σ δ ρ} {l : Label κ γ}

def Suits (s : σ) (entry : Option Nat) : Call κ δ → Prop
  | .arrived key' data => key' = key → upkeep.Fits s data
  | .holding key' id data => key' = key → entry = some id ∧ upkeep.Fits s data
  | .done _ _ => True

def Kept (s : σ) (objects : List ο) (log : List ρ) (now : Int) : Option Nat → Prop
  | some id => ∃ object, objects[id]? = some object ∧ upkeep.Live s log now object
  | none => upkeep.Gone s log now

structure Holds (c : State κ ο σ δ ρ) : Prop where
  calls : ∀ call ∈ c.calls, upkeep.Suits c.settings (c.table key) call
  kept : upkeep.Kept c.settings (c.heap key) (c.log key) c.now (c.table key)

variable {s : σ} {objects : List ο} {log : List ρ} {now : Int} {entry : Option Nat} {i : Nat} {key' : κ} {data : δ}

theorem Kept.elim {p : Prop} (kept : upkeep.Kept s objects log now entry) (gone : upkeep.Gone s log now → p)
    (live : ∀ object, upkeep.Live s log now object → p) : p := by
  cases entry with
  | none => exact gone kept
  | some id =>
    obtain ⟨object, -, known⟩ := kept
    exact live object known

theorem Kept.imp {s' : σ} {now' : Int}
    (kept : upkeep.Kept s objects log now entry) (gone : upkeep.Gone s log now → upkeep.Gone s' log now')
    (live : ∀ object, upkeep.Live s log now object → upkeep.Live s' log now' object) :
    upkeep.Kept s' objects log now' entry := by
  cases entry with
  | none => exact gone kept
  | some id =>
    obtain ⟨object, found, known⟩ := kept
    exact ⟨object, found, live object known⟩

theorem suits_set {calls : List (Call κ δ)} {new : Call κ δ}
    (suits : ∀ call ∈ calls, upkeep.Suits s entry call) (fits : upkeep.Suits s entry new) (i : Nat) :
    ∀ call ∈ calls.set i new, upkeep.Suits s entry call := by
  intro call member
  rcases List.mem_or_eq_of_mem_set member with old | rfl
  · exact suits call old
  · exact fits

theorem Holds.wait (holds : upkeep.Holds c) (d : Nat) : upkeep.Holds { c with now := c.now + d } := by
  have later : c.now ≤ c.now + d := by omega
  refine ⟨holds.calls, Kept.imp upkeep holds.kept ?_ ?_⟩
  · exact fun gone => upkeep.stays gone later
  · exact fun object live => upkeep.waits live later

theorem Holds.configure (holds : upkeep.Holds c) {change : γ} (fine : allowed c change) :
    upkeep.Holds { c with settings := pool.configure c.settings change } := by
  refine ⟨fun call member => ?_, Kept.imp upkeep holds.kept ?_ ?_⟩
  · have suits := holds.calls call member
    cases call with
    | arrived key' data =>
      rintro rfl
      exact upkeep.configuresFits fine (.inl member) (suits rfl)
    | holding key' id data =>
      rintro rfl
      exact ⟨(suits rfl).1, upkeep.configuresFits fine (.inr ⟨id, member⟩) (suits rfl).2⟩
    | done key' granted => trivial
  · exact fun gone => upkeep.configuresGone fine gone
  · exact fun object live => upkeep.configuresLive fine live

variable [DecidableEq κ]

theorem Holds.made (holds : upkeep.Holds c) (call : c.calls[i]? = some (.arrived key' data))
    (entry : c.table key' = none) : upkeep.Holds { c with
      heap := update c.heap key' (c.heap key' ++ [pool.fresh c.settings key' c.now])
      table := update c.table key' (some (c.heap key').length)
      calls := c.calls.set i (.holding key' (c.heap key').length data) } := by
  have fits := holds.calls _ (List.mem_of_getElem? call)
  by_cases same : key' = key
  · subst same
    have kept := holds.kept
    rw [entry] at kept
    refine ⟨?_, ?_⟩
    · simp only [update_self]
      apply upkeep.suits_set
      · -- nobody holds an object of the key, for it has none
        intro other member
        have suits := holds.calls other member
        cases other with
        | arrived key₁ data₁ => exact suits
        | holding key₁ id₁ data₁ =>
          rintro rfl
          have impossible := (suits rfl).1
          rw [entry] at impossible
          cases impossible
        | done key₁ granted => trivial
      · exact fun _ => ⟨rfl, fits rfl⟩
    · simp only [update_self]
      exact ⟨_, by simp, upkeep.makes kept⟩
  · refine ⟨?_, ?_⟩
    · simp only [update_of_ne (Ne.symm same)]
      apply upkeep.suits_set holds.calls
      exact fun equal => absurd equal same
    · simp only [update_of_ne (Ne.symm same)]
      exact holds.kept

theorem Holds.spend (holds : upkeep.Holds c) {id : Nat} {object object' : ο}
    {granted : Bool} (call : c.calls[i]? = some (.holding key' id data)) (found : (c.heap key')[id]? = some object)
    (spent : pool.spend object data c.now = some (object', granted)) : upkeep.Holds { c with
      heap := update c.heap key' ((c.heap key').set id object')
      calls := c.calls.set i (.done key' granted)
      log := if granted then update c.log key' (c.log key' ++ pool.record data c.now) else c.log } := by
  refine ⟨?_, ?_⟩
  · apply upkeep.suits_set holds.calls
    trivial
  have suits := holds.calls _ (List.mem_of_getElem? call)
  have kept := holds.kept
  by_cases same : key' = key
  · subst same
    obtain ⟨entry, fits⟩ := suits rfl
    show upkeep.Kept c.settings (update c.heap key' _ key') _ c.now (c.table key')
    rw [entry] at kept ⊢
    obtain ⟨old, stored, live⟩ := kept
    cases found.symm.trans stored
    have next := upkeep.spends live fits spent
    have inside : id < (c.heap key').length := (List.getElem?_eq_some_iff.mp found).1
    refine ⟨object', by simp [inside], ?_⟩
    cases granted with
    | true | false => simpa using next
  · have others : update c.heap key' ((c.heap key').set id object') key = c.heap key :=
      update_of_ne (Ne.symm same) _ _
    have log : (if granted then update c.log key' (c.log key' ++ pool.record data c.now) else c.log) key =
        c.log key := by
      cases granted with
      | true => exact update_of_ne (Ne.symm same) _ _
      | false => rfl
    simp only [others, log]
    exact kept

theorem Holds.remove (holds : upkeep.Holds c) {cutoff : Int} {visited : List κ}
    (doomed : c.sweep = .doomed cutoff visited key') (guarded : Guarded (γ := γ) key finished allowed c .remove) :
    upkeep.Holds { c with table := update c.table key' none, sweep := .walking cutoff visited } := by
  by_cases same : key' = key
  · subst same
    obtain ⟨free, finish⟩ := guarded (by simp [doomed, Sweep.removes])
    have kept := holds.kept
    refine ⟨fun call member => ?_, ?_⟩
    · have suits := holds.calls call member
      cases call with
      | arrived key₁ data => exact suits
      | holding key₁ id data =>
        rintro rfl
        have entry := (suits rfl).1
        simp only [State.held, entry, Option.any_some, List.any_eq_false] at free
        exact absurd (free _ member) (by simp [Call.holds])
      | done key₁ granted => trivial
    · simp only [update_self]
      cases entry : c.table key' with
      | none =>
        rw [entry] at kept
        exact kept
      | some id =>
        rw [entry] at kept
        obtain ⟨object, found, live⟩ := kept
        exact upkeep.forgets live (finish object (by simp [State.current, entry, found]))
  · refine ⟨?_, ?_⟩
    · simp only [update_of_ne (Ne.symm same)]
      exact holds.calls
    · simp only [update_of_ne (Ne.symm same)]
      exact holds.kept

theorem Holds.step (holds : upkeep.Holds c) (guarded : Guarded key finished allowed c l)
    (step : pool.step c l = some c') : upkeep.Holds c' := by
  cases pool.stepped step with
  | wait d => exact holds.wait upkeep d
  | configure change => exact holds.configure upkeep guarded
  | call key' n =>
    refine ⟨fun call member => ?_, holds.kept⟩
    rcases List.mem_append.mp member with old | new
    · exact holds.calls call old
    · rw [List.mem_singleton.mp new]
      exact fun _ => upkeep.starts _ n
  | found call entry =>
    have fits := holds.calls _ (List.mem_of_getElem? call)
    refine ⟨upkeep.suits_set holds.calls ?_ _, holds.kept⟩
    rintro rfl
    exact ⟨entry, fits rfl⟩
  | made call entry => exact holds.made upkeep call entry
  | prepare call next =>
    have fits := holds.calls _ (List.mem_of_getElem? call)
    refine ⟨upkeep.suits_set holds.calls ?_ _, holds.kept⟩
    rintro rfl
    exact ⟨(fits rfl).1, upkeep.prepares (fits rfl).2 next⟩
  | spend call ready found spent => exact holds.spend upkeep call found spent
  | sweep due sweep => exact ⟨holds.calls, holds.kept⟩
  | remove doomed => exact holds.remove upkeep doomed guarded

theorem log_invariant {P : σ → List ρ → Prop} (live : ∀ {s log now object}, upkeep.Live s log now object → P s log)
    (gone : ∀ {s log now}, upkeep.Gone s log now → P s log) {settings : σ}
    (initial : upkeep.Gone settings [] now) {ls : List (Label κ γ)}
    (each : (pool.machine settings now).EachStep (Guarded key finished allowed) (pool.machine settings now).start ls)
    (run : (pool.machine settings now).run (pool.machine settings now).start ls = some c) :
    P c.settings (c.log key) := by
  have start : upkeep.Holds (pool.machine settings now).start := ⟨by simp [machine], initial⟩
  have kept := (Machine.run_invariant_of_eachStep (P := upkeep.Holds)
    (fun _ _ _ holds guarded step => holds.step upkeep guarded step) start each run).kept
  exact Kept.elim upkeep kept gone fun object known => live known

end Upkeep

end Pool

end Mcp.Lib
