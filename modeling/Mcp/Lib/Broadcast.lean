import Mcp.Lib.Threads
import Mathlib.Data.List.Nodup
import Mathlib.Data.List.Perm.Basic
import Mathlib.Order.Lattice

/-! # Broadcasting to channels that may be closed -/

namespace Mcp.Lib.Broadcast

structure Channel (ε : Type*) where
  buffer : List ε := []
  closed : Bool := false
  received : List ε := []

inductive Call (ι ε : Type*) where
  | entered (input : ι)
  | sending (event : ε) (rest : List Nat)
  | returned

structure Hub (σ ι ε : Type*) where
  capacity : Nat
  start : σ
  locked : σ → ι → σ × Option ε

structure State (σ ι ε : Type*) where
  object : σ
  subs : List Nat := []
  channels : List (Channel ε) := []
  calls : List (Call ι ε) := []
  crashed : Bool := false

-- The order in which a map is gone through is not determined.
inductive Label (ι : Type*) where
  | subscribe
  | cancel (id : Nat)
  | call (input : ι)
  | lock (i : Nat) (order : List Nat)
  | send (i : Nat)
  | receive (id : Nat)

variable {σ ι ε : Type*}

def Channel.take : Channel ε → Option (Channel ε)
  | ⟨[], _, _⟩ => none
  | ⟨event :: buffer, closed, received⟩ => some ⟨buffer, closed, received ++ [event]⟩

def Channel.all (c : Channel ε) : List ε := c.received ++ c.buffer

namespace Hub

variable (hub : Hub σ ι ε)

def put (c : Channel ε) (event : ε) : Channel ε :=
  if c.buffer.length < hub.capacity then { c with buffer := c.buffer ++ [event] } else c

def lock (s : State σ ι ε) (i : Nat) (order : List Nat) : Option (State σ ι ε) :=
  match s.calls[i]? with
  | some (.entered input) =>
    if order.Perm s.subs then
      match hub.locked s.object input with
      | (object, some event) => some { s with object := object, calls := s.calls.set i (.sending event order) }
      | (object, none) => some { s with object := object, calls := s.calls.set i .returned }
    else none
  | _ => none

def send (s : State σ ι ε) (i : Nat) : Option (State σ ι ε) :=
  match s.calls[i]? with
  | some (.sending event (id :: rest)) =>
    match s.channels[id]? with
    | some c =>
      if c.closed then some { s with crashed := true }
      else some { s with channels := s.channels.set id (hub.put c event), calls := s.calls.set i (.sending event rest) }
    | none => none
  | _ => none

def step (s : State σ ι ε) (l : Label ι) : Option (State σ ι ε) :=
  if s.crashed then none
  else match l with
    | .subscribe => some { s with subs := s.subs ++ [s.channels.length], channels := s.channels ++ [{}] }
    | .cancel id =>
      if id ∈ s.subs then
        some { s with
          subs := s.subs.erase id
          channels := s.channels.modify id fun c => { c with closed := true } }
      else some s
    | .call input => some { s with calls := s.calls ++ [.entered input] }
    | .lock i order => hub.lock s i order
    | .send i => hub.send s i
    | .receive id => s.channels[id]?.bind fun c => c.take.map fun c => { s with channels := s.channels.set id c }

def machine : Machine (State σ ι ε) (Label ι) where
  start := { object := hub.start }
  step := hub.step

end Hub

inductive Stepped (hub : Hub σ ι ε) (s : State σ ι ε) : Label ι → State σ ι ε → Prop
  | subscribe :
      Stepped hub s .subscribe { s with subs := s.subs ++ [s.channels.length], channels := s.channels ++ [{}] }
  | cancelled {id : Nat} (subscribed : id ∈ s.subs) :
      Stepped hub s (.cancel id)
        { s with
          subs := s.subs.erase id
          channels := s.channels.modify id fun c => { c with closed := true } }
  | absent {id : Nat} (absent : id ∉ s.subs) : Stepped hub s (.cancel id) s
  | call {input : ι} : Stepped hub s (.call input) { s with calls := s.calls ++ [.entered input] }
  | published {i : Nat} {order : List Nat} {input : ι} {object : σ} {event : ε}
      (found : s.calls[i]? = some (.entered input)) (perm : order.Perm s.subs)
      (locked : hub.locked s.object input = (object, some event)) :
      Stepped hub s (.lock i order) { s with object := object, calls := s.calls.set i (.sending event order) }
  | ignored {i : Nat} {order : List Nat} {input : ι} {object : σ} (found : s.calls[i]? = some (.entered input))
      (locked : hub.locked s.object input = (object, none)) :
      Stepped hub s (.lock i order) { s with object := object, calls := s.calls.set i .returned }
  | crashed {i id : Nat} {event : ε} {rest : List Nat} {c : Channel ε}
      (found : s.calls[i]? = some (.sending event (id :: rest))) (channel : s.channels[id]? = some c)
      (closed : c.closed = true) : Stepped hub s (.send i) { s with crashed := true }
  | sent {i id : Nat} {event : ε} {rest : List Nat} {c : Channel ε}
      (found : s.calls[i]? = some (.sending event (id :: rest))) (channel : s.channels[id]? = some c)
      (isOpen : c.closed = false) :
      Stepped hub s (.send i)
        { s with channels := s.channels.set id (hub.put c event), calls := s.calls.set i (.sending event rest) }
  | received {id : Nat} {c c' : Channel ε} (channel : s.channels[id]? = some c) (took : c.take = some c') :
      Stepped hub s (.receive id) { s with channels := s.channels.set id c' }

variable {hub : Hub σ ι ε} {s s' : State σ ι ε} {l : Label ι}

variable {i : Nat}

theorem stepped_lock {order : List Nat} (step : hub.lock s i order = some s') : Stepped hub s (.lock i order) s' := by
  unfold Hub.lock at step
  cases found : s.calls[i]? with
  | none => simp [found] at step
  | some call =>
    cases call with
    | entered input =>
      simp only [found] at step
      split_ifs at step with perm
      cases locked : hub.locked s.object input with
      | mk object event =>
        cases event with
        | none =>
          simp only [locked, Option.some.injEq] at step
          exact step ▸ .ignored found locked
        | some event =>
          simp only [locked, Option.some.injEq] at step
          exact step ▸ .published found perm locked
    | sending | returned => simp [found] at step

theorem stepped_send (step : hub.send s i = some s') : Stepped hub s (.send i) s' := by
  unfold Hub.send at step
  cases found : s.calls[i]? with
  | none => simp [found] at step
  | some call =>
    cases call with
    | sending event rest =>
      cases rest with
      | nil => simp [found] at step
      | cons id rest =>
        cases channel : s.channels[id]? with
        | none => simp [found, channel] at step
        | some c =>
          simp only [found, channel] at step
          cases closed : c.closed with
          | true =>
            simp only [closed, if_true, Option.some.injEq] at step
            exact step ▸ .crashed found channel closed
          | false =>
            simp only [closed, Bool.false_eq_true, if_false, Option.some.injEq] at step
            exact step ▸ .sent found channel closed
    | entered | returned => simp [found] at step

theorem stepped (step : hub.machine.step s l = some s') : s.crashed = false ∧ Stepped hub s l s' := by
  change hub.step s l = some s' at step
  unfold Hub.step at step
  split_ifs at step with crashed
  refine ⟨by simpa using crashed, ?_⟩
  cases l with
  | subscribe =>
    cases step
    exact .subscribe
  | cancel id =>
    simp only at step
    split_ifs at step with subscribed
    · cases step
      exact .cancelled subscribed
    · cases step
      exact .absent subscribed
  | call input =>
    cases step
    exact .call
  | lock i order => exact stepped_lock step
  | send i => exact stepped_send step
  | receive id =>
    obtain ⟨c, channel, step⟩ := Option.bind_eq_some_iff.mp step
    obtain ⟨c', took, rfl⟩ := Option.map_eq_some_iff.mp step
    exact .received channel took

def State.input (s : State σ ι ε) : Label ι → Option ι
  | .lock i _ =>
    match s.calls[i]? with
    | some (.entered input) => some input
    | _ => none
  | _ => none

def Hub.sections (hub : Hub σ ι ε) : State σ ι ε → List (Label ι) → List ι
  | _, [] => []
  | s, l :: ls => (s.input l).toList ++ ((hub.machine.step s l).map fun s' => hub.sections s' ls).getD []

theorem object_of_step (step : hub.machine.step s l = some s') :
    s'.object = (s.input l).toList.foldl (fun object input => (hub.locked object input).1) s.object := by
  obtain ⟨-, stepped⟩ := stepped step
  cases stepped with
  | published found perm locked | ignored found locked => simp [State.input, found, locked]
  | _ => rfl

theorem object_of_run {t : State σ ι ε} {ls : List (Label ι)} (run : hub.machine.run s ls = some t) :
    t.object = (hub.sections s ls).foldl (fun object input => (hub.locked object input).1) s.object := by
  induction ls generalizing s with
  | nil =>
    cases run
    rfl
  | cons l ls ih =>
    obtain ⟨s', step, rest⟩ := Machine.run_cons _ |>.mp run
    rw [ih rest, object_of_step step, Hub.sections, step, Option.map_some, Option.getD_some, List.foldl_append]

def Call.pending : Call ι ε → List Nat
  | .sending _ rest => rest
  | _ => []

def quiet (s : State σ ι ε) : Label ι → Bool
  | .cancel id => id ∉ s.subs ∨ ∀ call ∈ s.calls, id ∉ call.pending
  | _ => true

def IsOpen (channels : List (Channel ε)) (id : Nat) : Prop := ∃ c, channels[id]? = some c ∧ c.closed = false

structure Intact (s : State σ ι ε) : Prop where
  running : s.crashed = false
  nodup : s.subs.Nodup
  subscribed : ∀ id ∈ s.subs, IsOpen s.channels id
  pending : ∀ call ∈ s.calls, ∀ id ∈ call.pending, IsOpen s.channels id

variable {channels : List (Channel ε)} {id k : Nat} {c c' : Channel ε}

theorem isOpen_set (channel : channels[id]? = some c) (same : c'.closed = c.closed) (held : IsOpen channels k) :
    IsOpen (channels.set id c') k := by
  obtain ⟨d, channel', isOpen⟩ := held
  by_cases eq : id = k
  · subst eq
    cases channel.symm.trans channel'
    have short := (List.getElem?_eq_some_iff.mp channel).1
    exact ⟨c', by simp [short], same.trans isOpen⟩
  · exact ⟨d, by simp [eq, channel'], isOpen⟩

theorem isOpen_modify (other : k ≠ id) {f : Channel ε → Channel ε} (held : IsOpen channels k) :
    IsOpen (channels.modify id f) k := by
  obtain ⟨c, channel, isOpen⟩ := held
  exact ⟨c, by simp [channel, Ne.symm other], isOpen⟩

theorem isOpen_append (held : IsOpen channels k) : IsOpen (channels ++ [c]) k := by
  obtain ⟨c', channel, isOpen⟩ := held
  have short := (List.getElem?_eq_some_iff.mp channel).1
  exact ⟨c', by simp [List.getElem?_append_left short, channel], isOpen⟩

theorem IsOpen.lt_length (held : IsOpen channels k) : k < channels.length := by
  obtain ⟨c, channel, -⟩ := held
  exact (List.getElem?_eq_some_iff.mp channel).1

theorem nodup_concat {ids : List Nat} {n : Nat} (nodup : ids.Nodup) (inside : ∀ id ∈ ids, id < n) :
    (ids ++ [n]).Nodup := by
  refine List.nodup_append.mpr ⟨nodup, List.nodup_singleton _, ?_⟩
  intro a member b last eq
  rw [eq, List.mem_singleton.mp last] at member
  exact Nat.lt_irrefl _ (inside n member)

theorem Hub.put_closed (hub : Hub σ ι ε) (c : Channel ε) (event : ε) : (hub.put c event).closed = c.closed := by
  unfold Hub.put
  split_ifs <;> rfl

theorem take_closed (took : c.take = some c') : c'.closed = c.closed := by
  obtain ⟨buffer, closed, received⟩ := c
  cases buffer with
  | nil => simp [Channel.take] at took
  | cons event buffer =>
    cases took
    rfl

theorem pending_set {calls : List (Call ι ε)} {call : Call ι ε}
    (pending : ∀ call ∈ calls, ∀ id ∈ call.pending, IsOpen channels id)
    (new : ∀ id ∈ call.pending, IsOpen channels id) :
    ∀ call' ∈ calls.set i call, ∀ id ∈ call'.pending, IsOpen channels id := by
  intro call' member
  rcases List.mem_or_eq_of_mem_set member with old | rfl
  · exact pending call' old
  · exact new

theorem Intact.step (intact : Intact s) (allowed : quiet s l = true) (stepped : Stepped hub s l s') : Intact s' := by
  obtain ⟨running, nodup, subscribed, pending⟩ := intact
  cases stepped with
  | subscribe =>
    refine ⟨running, ?_, ?_, fun call member id waits => isOpen_append (pending call member id waits)⟩
    · exact nodup_concat nodup fun id member => (subscribed id member).lt_length
    · intro id member
      rcases List.mem_append.mp member with old | new
      · exact isOpen_append (subscribed id old)
      · cases List.mem_singleton.mp new
        exact ⟨{}, by simp, rfl⟩
  | @cancelled id member =>
    have free : ∀ call ∈ s.calls, id ∉ call.pending := by simpa [quiet, member] using allowed
    refine ⟨running, nodup.erase _, ?_, ?_⟩
    · intro k left
      obtain ⟨other, old⟩ := (nodup.mem_erase_iff).mp left
      exact isOpen_modify other (subscribed k old)
    · intro call found k waits
      exact isOpen_modify (by rintro rfl; exact free call found waits) (pending call found k waits)
  | absent => exact ⟨running, nodup, subscribed, pending⟩
  | call =>
    refine ⟨running, nodup, subscribed, ?_⟩
    intro call member id waits
    rcases List.mem_append.mp member with old | new
    · exact pending call old id waits
    · cases List.mem_singleton.mp new
      cases waits
  | published found perm =>
    exact ⟨running, nodup, subscribed, pending_set pending fun id waits => subscribed id (perm.mem_iff.mp waits)⟩
  | ignored => exact ⟨running, nodup, subscribed, pending_set pending (List.forall_mem_nil _)⟩
  | crashed found channel closed =>
    obtain ⟨c, channel', isOpen⟩ := pending _ (List.mem_of_getElem? found) _ (List.mem_cons_self ..)
    cases channel.symm.trans channel'
    cases closed.symm.trans isOpen
  | @sent _ _ event _ _ found channel isOpen =>
    have keeps {k : Nat} := isOpen_set (k := k) channel (hub.put_closed _ event)
    refine ⟨running, nodup, fun id member => keeps (subscribed id member), ?_⟩
    have waiting := pending _ (List.mem_of_getElem? found)
    exact pending_set (fun call member id waits => keeps (pending call member id waits))
      fun id waits => keeps (waiting id (List.mem_cons_of_mem _ waits))
  | received channel took =>
    have keeps {k : Nat} := isOpen_set (k := k) channel (take_closed took)
    exact ⟨running, nodup, fun id member => keeps (subscribed id member),
      fun call member id waits => keeps (pending call member id waits)⟩

theorem intact_start : Intact hub.machine.start :=
  ⟨rfl, List.nodup_nil, List.forall_mem_nil _, List.forall_mem_nil _⟩

theorem intact_of_quiet {labels : List (Label ι)}
    (each : hub.machine.EachStep (fun s l => quiet s l = true) hub.machine.start labels)
    (run : hub.machine.run hub.machine.start labels = some s) : Intact s :=
  Machine.run_invariant_of_eachStep (fun _ _ _ intact allowed step => intact.step allowed (stepped step).2)
    intact_start each run

/-! # Order of delivery -/

section Order

variable {κ : Type*} [LinearOrder κ] (key : ε → κ) (last : σ → κ)

def Grows (hub : Hub σ ι ε) (object : σ) (input : ι) : Prop :=
  match hub.locked object input with
  | (after, some event) => last object < key event ∧ key event = last after
  | (after, none) => last object ≤ last after

def Call.yields (id : Nat) (event : ε) : Call ι ε → Bool
  | .sending other rest => id ∉ rest ∨ key event ≤ key other
  | _ => true

def inTurn (fit : σ → Bool) (s : State σ ι ε) : Label ι → Bool
  | .send i =>
    match s.calls[i]? with
    | some (.sending event (id :: _)) => s.calls.all (Call.yields key id event)
    | _ => true
  | .lock _ _ => fit s.object
  | _ => true

structure Ordered (s : State σ ι ε) : Prop where
  nodup : s.subs.Nodup
  inside : ∀ id ∈ s.subs, id < s.channels.length
  sorted : ∀ (id : Nat) c, s.channels[id]? = some c → c.all.Pairwise fun a b => key a < key b
  bounded : ∀ (id : Nat) c, s.channels[id]? = some c → ∀ a ∈ c.all, key a ≤ last s.object
  copied : ∀ (i : Nat) event rest, s.calls[i]? = some (.sending event rest) → rest.Nodup ∧ key event ≤ last s.object
  ahead : ∀ (i : Nat) event rest, s.calls[i]? = some (.sending event rest) →
    ∀ id ∈ rest, ∀ c, s.channels[id]? = some c →
    ∀ a ∈ c.all, key a < key event
  distinct : ∀ (i j : Nat) event event' rest rest', s.calls[i]? = some (.sending event rest) →
    s.calls[j]? = some (.sending event' rest') → i ≠ j → key event ≠ key event'

variable {key last}

theorem Ordered.frame (ordered : Ordered key last s) (nodup : s'.subs.Nodup)
    (inside : ∀ id ∈ s'.subs, id < s'.channels.length)
    (content : ∀ (id : Nat) c', s'.channels[id]? = some c' →
      c'.all = [] ∨ ∃ c, s.channels[id]? = some c ∧ c'.all = c.all)
    (calls : ∀ (i : Nat) event rest,
      s'.calls[i]? = some (.sending event rest) → s.calls[i]? = some (.sending event rest))
    (grows : last s.object ≤ last s'.object) : Ordered key last s' := by
  refine ⟨nodup, inside, ?_, ?_, ?_, ?_, ?_⟩
  · intro id c' found
    obtain empty | ⟨c, before, same⟩ := content id c' found
    · rw [empty]
      exact .nil
    · rw [same]
      exact ordered.sorted id c before
  · intro id c' found a member
    obtain empty | ⟨c, before, same⟩ := content id c' found
    · rw [empty] at member
      cases member
    · rw [same] at member
      exact (ordered.bounded id c before a member).trans grows
  · intro i event rest found
    obtain ⟨rest, bound⟩ := ordered.copied i event rest (calls i event rest found)
    exact ⟨rest, bound.trans grows⟩
  · intro i event rest found id waits c' channel a member
    obtain empty | ⟨c, before, same⟩ := content id c' channel
    · rw [empty] at member
      cases member
    · rw [same] at member
      exact ordered.ahead i event rest (calls i event rest found) id waits c before a member
  · intro i j event event' rest rest' found found' other
    exact ordered.distinct i j event event' rest rest' (calls _ _ _ found) (calls _ _ _ found') other

theorem Hub.put_all (hub : Hub σ ι ε) (c : Channel ε) (event : ε) :
    (hub.put c event).all = c.all ∨ (hub.put c event).all = c.all ++ [event] := by
  unfold Hub.put
  split_ifs
  · exact .inr (List.append_assoc ..).symm
  · exact .inl rfl

variable {event : ε} {i : Nat} {rest : List Nat} {fit : σ → Bool}

theorem Hub.mem_put {a : ε} (held : a ∈ (hub.put c event).all) : a ∈ c.all ∨ a = event := by
  obtain same | longer := hub.put_all c event
  · exact .inl (same ▸ held)
  · rw [longer] at held
    exact (List.mem_append.mp held).imp_right List.mem_singleton.mp

theorem Hub.put_sorted (sorted : c.all.Pairwise fun a b => key a < key b)
    (smaller : ∀ a ∈ c.all, key a < key event) : (hub.put c event).all.Pairwise fun a b => key a < key b := by
  obtain same | longer := hub.put_all c event
  · rw [same]
    exact sorted
  · rw [longer]
    refine List.pairwise_append.mpr ⟨sorted, List.pairwise_singleton _ _, ?_⟩
    intro a held b last
    rw [List.mem_singleton.mp last]
    exact smaller a held

theorem take_all (took : c.take = some c') : c'.all = c.all := by
  obtain ⟨buffer, closed, received⟩ := c
  cases buffer with
  | nil => simp [Channel.take] at took
  | cons event buffer =>
    cases took
    exact List.append_assoc ..

open Mcp.Lib.System (getElem?_set_cases getElem?_concat_cases)

theorem Ordered.publish (ordered : Ordered key last s) {order : List Nat} {object : σ}
    (perm : order.Perm s.subs) (larger : last s.object < key event) (next : key event = last object) :
    Ordered key last { s with object := object, calls := s.calls.set i (.sending event order) } := by
  have grows : last s.object ≤ last object := next ▸ larger.le
  refine ⟨ordered.nodup, ordered.inside, ordered.sorted, ?_, ?_, ?_, ?_⟩
  · intro id c found a member
    exact (ordered.bounded id c found a member).trans grows
  · intro j event' rest found
    obtain ⟨-, same⟩ | ⟨-, old⟩ := getElem?_set_cases found
    · cases same
      exact ⟨perm.nodup_iff.mpr ordered.nodup, next.le⟩
    · obtain ⟨nodup, bound⟩ := ordered.copied j event' rest old
      exact ⟨nodup, bound.trans grows⟩
  · intro j event' rest found id waits c channel a member
    obtain ⟨-, same⟩ | ⟨-, old⟩ := getElem?_set_cases found
    · cases same
      exact (ordered.bounded id c channel a member).trans_lt larger
    · exact ordered.ahead j event' rest old id waits c channel a member
  · intro j k event' event'' rest rest' found found' other
    have below {j : Nat} {event' : ε} {rest : List Nat} (old : s.calls[j]? = some (.sending event' rest)) :
        key event' < key event := (ordered.copied j event' rest old).2.trans_lt larger
    obtain ⟨at_i, same⟩ | ⟨-, old⟩ := getElem?_set_cases found
    · obtain ⟨at_i', -⟩ | ⟨-, old'⟩ := getElem?_set_cases found'
      · exact absurd (at_i.trans at_i'.symm) other
      · cases same
        exact (below old').ne'
    · obtain ⟨-, same'⟩ | ⟨-, old'⟩ := getElem?_set_cases found'
      · cases same'
        exact (below old).ne
      · exact ordered.distinct j k event' event'' rest rest' old old' other

theorem sending_before {calls : List (Call ι ε)} {j : Nat} {event' : ε} {rest' : List Nat}
    (found : calls[i]? = some (.sending event (id :: rest))) (nodup : (id :: rest).Nodup)
    (after : (calls.set i (.sending event rest))[j]? = some (.sending event' rest')) :
    ∃ all, calls[j]? = some (.sending event' all) ∧ rest'.Sublist all ∧ (j = i → id ∉ rest') := by
  obtain ⟨at_i, same⟩ | ⟨other, old⟩ := getElem?_set_cases after
  · cases same
    subst at_i
    exact ⟨id :: rest, found, List.sublist_cons_self .., fun _ => (List.nodup_cons.mp nodup).1⟩
  · exact ⟨rest', old, .refl _, fun at_i => absurd at_i other⟩

theorem Ordered.send (ordered : Ordered key last s)
    (found : s.calls[i]? = some (.sending event (id :: rest))) (channel : s.channels[id]? = some c)
    (turn : ∀ (j : Nat) other rest', s.calls[j]? = some (.sending other rest') → id ∈ rest' → key event ≤ key other) :
    Ordered key last
      { s with channels := s.channels.set id (hub.put c event), calls := s.calls.set i (.sending event rest) } := by
  obtain ⟨nodup, bound⟩ := ordered.copied i event _ found
  have smaller := ordered.ahead i event _ found id (List.mem_cons_self ..) c channel
  refine ⟨ordered.nodup, ?_, ?_, ?_, ?_, ?_, ?_⟩
  · intro k member
    simpa using ordered.inside k member
  · intro k c' after
    obtain ⟨-, rfl⟩ | ⟨-, old⟩ := getElem?_set_cases after
    · exact Hub.put_sorted (ordered.sorted id c channel) smaller
    · exact ordered.sorted k c' old
  · intro k c' after a held
    obtain ⟨-, rfl⟩ | ⟨-, old⟩ := getElem?_set_cases after
    · obtain old | rfl := Hub.mem_put held
      · exact ordered.bounded id c channel a old
      · exact bound
    · exact ordered.bounded k c' old a held
  · intro j event' rest' after
    obtain ⟨all, old, sub, -⟩ := sending_before found nodup after
    obtain ⟨nodup', bound'⟩ := ordered.copied j event' all old
    exact ⟨nodup'.sublist sub, bound'⟩
  · intro j event' rest' after k waits c' channel' a held
    obtain ⟨all, old, sub, own⟩ := sending_before found nodup after
    obtain ⟨rfl, rfl⟩ | ⟨-, old'⟩ := getElem?_set_cases channel'
    · have other : i ≠ j := fun eq => own eq.symm waits
      obtain earlier | rfl := Hub.mem_put held
      · exact ordered.ahead j event' all old k (sub.subset waits) c channel a earlier
      · exact lt_of_le_of_ne (turn j event' all old (sub.subset waits)) (ordered.distinct i j _ _ _ _ found old other)
    · exact ordered.ahead j event' all old k (sub.subset waits) c' old' a held
  · intro j k event' event'' rest' rest'' after after' other
    obtain ⟨all, old, -⟩ := sending_before found nodup after
    obtain ⟨all', old', -⟩ := sending_before found nodup after'
    exact ordered.distinct j k event' event'' all all' old old' other

theorem getElem?_modify_cases {xs : List (Channel ε)} {f : Channel ε → Channel ε}
    (found : (xs.modify id f)[k]? = some c') : ∃ c, xs[k]? = some c ∧ (c' = c ∨ c' = f c) := by
  rw [List.getElem?_modify] at found
  cases old : xs[k]? with
  | none => simp [old] at found
  | some c =>
    refine ⟨c, rfl, ?_⟩
    by_cases eq : id = k
    · simp only [old, eq, if_true] at found
      exact .inr (Option.some.inj found).symm
    · simp only [old, eq, if_false] at found
      exact .inl (Option.some.inj found).symm

theorem Ordered.step (fits : ∀ object input, fit object = true → Grows key last hub object input)
    (ordered : Ordered key last s) (allowed : inTurn key fit s l = true) (stepped : Stepped hub s l s') :
    Ordered key last s' := by
  have same : ∀ (id : Nat) c, s.channels[id]? = some c →
      c.all = [] ∨ ∃ c', s.channels[id]? = some c' ∧ c.all = c'.all := fun _ c found => .inr ⟨c, found, rfl⟩
  cases stepped with
  | subscribe =>
    refine ordered.frame ?_ ?_ ?_ (fun _ _ _ found => found) le_rfl
    · exact nodup_concat ordered.nodup ordered.inside
    · intro id member
      rw [List.length_append]
      rcases List.mem_append.mp member with old | new
      · exact Nat.lt_add_right 1 (ordered.inside id old)
      · rw [List.mem_singleton.mp new]
        exact Nat.lt_succ_self _
    · intro id c found
      obtain ⟨-, rfl⟩ | ⟨-, found⟩ := getElem?_concat_cases found
      · exact .inl rfl
      · exact same id c found
  | cancelled member =>
    refine ordered.frame (ordered.nodup.erase _) ?_ ?_ (fun _ _ _ found => found) le_rfl
    · intro k left
      rw [List.length_modify]
      exact ordered.inside k (List.mem_of_mem_erase left)
    · intro k c' found
      obtain ⟨c, old, rfl | rfl⟩ := getElem?_modify_cases found
      · exact same k c' old
      · exact .inr ⟨c, old, rfl⟩
  | absent => exact ordered
  | call =>
    refine ordered.frame ordered.nodup ordered.inside same ?_ le_rfl
    intro i event rest found
    obtain ⟨-, new⟩ | ⟨-, old⟩ := getElem?_concat_cases found
    · cases new
    · exact old
  | @published i order input object event found perm locked =>
    have grows := fits s.object input allowed
    simp only [Grows, locked] at grows
    exact ordered.publish perm grows.1 grows.2
  | @ignored i order input object found locked =>
    have grows := fits s.object input allowed
    simp only [Grows, locked] at grows
    refine ordered.frame ordered.nodup ordered.inside same ?_ grows
    intro i event rest found
    obtain ⟨-, new⟩ | ⟨-, old⟩ := getElem?_set_cases found
    · cases new
    · exact old
  | crashed => exact ordered.frame ordered.nodup ordered.inside same (fun _ _ _ found => found) le_rfl
  | @sent i id event rest c found channel =>
    refine ordered.send found channel ?_
    intro j other rest' found' waits
    simp only [inTurn, found, List.all_eq_true] at allowed
    simpa [Call.yields, waits] using allowed _ (List.mem_of_getElem? found')
  | received channel took =>
    refine ordered.frame ordered.nodup ?_ ?_ (fun _ _ _ found => found) le_rfl
    · intro k member
      simpa using ordered.inside k member
    · intro k c' found
      obtain ⟨rfl, rfl⟩ | ⟨-, found⟩ := getElem?_set_cases found
      · exact .inr ⟨_, channel, take_all took⟩
      · exact same k c' found

theorem ordered_of_inTurn (fits : ∀ object input, fit object = true → Grows key last hub object input)
    {labels : List (Label ι)}
    (each : hub.machine.EachStep (fun s l => inTurn key fit s l = true) hub.machine.start labels)
    (run : hub.machine.run hub.machine.start labels = some s) : Ordered key last s := by
  refine Machine.run_invariant_of_eachStep (fun _ _ _ ordered allowed step =>
    ordered.step fits allowed (stepped step).2)
    ?_ each run
  constructor <;> simp [Hub.machine]

end Order

end Mcp.Lib.Broadcast
