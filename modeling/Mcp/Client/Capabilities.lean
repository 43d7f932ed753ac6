import Mcp.Lib.Bytes
import Mcp.Lib.Threads

namespace Mcp.Registration
open Mcp.Lib Bytes Function
open Mcp.Lib.System (getElem?_set_cases getElem?_concat_cases)

abbrev RequestHandlerFunc (ρ : Type) := Bytes → Except Bytes ρ

structure ElicitationCapabilities where
  form : Bool := false
  url : Bool := false
deriving DecidableEq

structure ClientCapabilities where
  roots : Option Bool := none
  sampling : Option Unit := none
  elicitation : Option ElicitationCapabilities := none
deriving DecidableEq

structure Client (ρ : Type) where
  requestHandlers : Bytes → Option (RequestHandlerFunc ρ) := fun _ => none
  advertise : ClientCapabilities := {}

structure Request where
  -- `none` if the id is not valid
  id : Option Bytes
  method : Bytes
  params : Bytes

variable {ρ : Type}

-- What a notification handler does changes neither the table nor the answer.
def Client.handleMessage (c : Client ρ) (req : Request) : Except Bytes (Option ρ) :=
  match req.id with
  | none => .ok none
  | some _ =>
    match c.requestHandlers req.method with
    | none => .error (ofString "method not implemented on client")
    | some handler => (handler req.params).map some

def Client.initialCapabilities (c : Client ρ) (caps : ClientCapabilities) : ClientCapabilities where
  sampling := if caps.sampling.isNone then c.advertise.sampling else caps.sampling
  elicitation := if caps.elicitation.isNone then c.advertise.elicitation else caps.elicitation
  roots := if caps.roots.isNone then c.advertise.roots else caps.roots

inductive Kind where
  | sampling
  | elicitation
  | roots
deriving DecidableEq

instance (P : Kind → Prop) [DecidablePred P] : Decidable (∀ kind, P kind) :=
  decidable_of_iff (P .sampling ∧ P .elicitation ∧ P .roots)
    ⟨fun h kind => by cases kind <;> simp [h], fun h => ⟨h _, h _, h _⟩⟩

def Kind.method : Kind → Bytes
  | .sampling => ofString "sampling/createMessage"
  | .elicitation => ofString "elicitation/create"
  | .roots => ofString "roots/list"

def ClientCapabilities.has (caps : ClientCapabilities) : Kind → Bool
  | .sampling => caps.sampling.isSome
  | .elicitation => caps.elicitation.isSome
  | .roots => caps.roots.isSome

inductive Change where
  | sampling (value : Option Unit)
  | elicitation (value : Option ElicitationCapabilities)
  | roots (value : Option Bool)

namespace Change

def kind : Change → Kind
  | .sampling _ => .sampling
  | .elicitation _ => .elicitation
  | .roots _ => .roots

def sets : Change → Bool
  | .sampling value => value.isSome
  | .elicitation value => value.isSome
  | .roots value => value.isSome

def apply (caps : ClientCapabilities) : Change → ClientCapabilities
  | .sampling value => { caps with sampling := value }
  | .elicitation value => { caps with elicitation := value }
  | .roots value => { caps with roots := value }

end Change

inductive Section (ρ : Type) where
  | onRequest (method : Bytes) (handler : Option (RequestHandlerFunc ρ))
  | setAdvertise (change : Change)

def Client.perform (c : Client ρ) : Section ρ → Client ρ
  | .onRequest method handler => { c with requestHandlers := update c.requestHandlers method handler }
  | .setAdvertise change => { c with advertise := change.apply c.advertise }

def typed {α : Type} (name : String) (unmarshal : Bytes → Except Bytes α) (zero : α) (handler : α → Except Bytes ρ) :
    RequestHandlerFunc ρ := fun params =>
  if 0 < params.length then
    match unmarshal params with
    | .error e => .error (ofString name ++ ofString " params: " ++ e)
    | .ok req => handler req
  else handler zero

def elicitationCapabilities (modes : List Bytes) : ElicitationCapabilities :=
  let modes := if modes.length = 0 then [ofString "form"] else modes
  modes.foldl (fun ec m =>
    if m = ofString "form" then { ec with form := true }
    else if m = ofString "url" then { ec with url := true }
    else ec) {}

structure Params (α β : Type) where
  createMessage : Bytes → Except Bytes α
  createMessageZero : α
  elicit : Bytes → Except Bytes β
  elicitZero : β

inductive Call (α β ρ : Type) where
  | onRequest (method : Bytes) (handler : Option (RequestHandlerFunc ρ))
  | onSampling (handler : Option (α → Except Bytes ρ))
  | onElicit (handler : Option (β → Except Bytes ρ)) (modes : List Bytes)
  | onListRoots (handler : Option (Unit → Except Bytes ρ))

variable {α β : Type}

def Call.sections (p : Params α β) : Call α β ρ → List (Section ρ)
  | .onRequest method handler => [.onRequest method handler]
  | .onSampling none => [.onRequest Kind.sampling.method none, .setAdvertise (.sampling none)]
  | .onSampling (some handler) =>
    [.onRequest Kind.sampling.method
      (some (typed "sampling/createMessage" p.createMessage p.createMessageZero handler)),
      .setAdvertise (.sampling (some ()))]
  | .onElicit none _ => [.onRequest Kind.elicitation.method none, .setAdvertise (.elicitation none)]
  | .onElicit (some handler) modes =>
    [.onRequest Kind.elicitation.method (some (typed "elicitation/create" p.elicit p.elicitZero handler)),
      .setAdvertise (.elicitation (some (elicitationCapabilities modes)))]
  | .onListRoots none => [.onRequest Kind.roots.method none, .setAdvertise (.roots none)]
  | .onListRoots (some handler) =>
    [.onRequest Kind.roots.method (some fun _ => handler ()), .setAdvertise (.roots (some false))]

def registration (p : Params α β) : System (Client ρ) (Section ρ) (List (Section ρ)) Unit (Call α β ρ) Empty where
  start := {}
  perform c section' := some (c.perform section')
  env := nofun
  spawn _ call := (none, call.sections p)
  act _ left _ :=
    match left with
    | [] => none
    | next :: rest => some (some next, rest)

abbrev State (ρ : Type) := Config (Client ρ) (List (Section ρ))

def Quiet (c : State ρ) : Prop := ∀ left ∈ c.threads, left = []

def removes (kind : Kind) : List (Section ρ) → Bool
  | .onRequest method none :: _ => method = kind.method
  | _ => false

def advertises (kind : Kind) : List (Section ρ) → Bool
  | [.setAdvertise change] => change.kind = kind && change.sets
  | _ => false

/-- A handler of a kind is removed only when no call is about to advertise the kind, and by `OnRequest` only
when the kind is not advertised. -/
def Careful (c : State ρ) : Label Unit (Call α β ρ) Empty → Prop
  | .act i _ => ∀ left ∈ c.threads[i]?, ∀ kind, removes kind left = true →
      (∀ other ∈ c.threads, advertises kind other = false) ∧
        (left.length = 1 → c.shared.advertise.has kind = false)
  | _ => True

inductive Shape : List (Section ρ) → Prop
  | done : Shape []
  | single (method : Bytes) (handler : Option (RequestHandlerFunc ρ)) : Shape [.onRequest method handler]
  | whole {change : Change} {handler : Option (RequestHandlerFunc ρ)} (agree : handler.isSome = change.sets) :
      Shape [.onRequest change.kind.method handler, .setAdvertise change]
  | half (change : Change) : Shape [.setAdvertise change]

theorem shape_sections (p : Params α β) (call : Call α β ρ) : Shape (call.sections p) := by
  cases call with
  | onRequest method handler => exact .single method handler
  | onSampling handler => cases handler <;> exact @Shape.whole _ (.sampling _) _ rfl
  | onElicit handler modes => cases handler <;> exact @Shape.whole _ (.elicitation _) _ rfl
  | onListRoots handler => cases handler <;> exact @Shape.whole _ (.roots _) _ rfl

def Client.handles (c : Client ρ) (kind : Kind) : Prop := (c.requestHandlers kind.method).isSome = true

def Removing (c : State ρ) (kind : Kind) : Prop :=
  ∃ (i : Nat) (change : Change), c.threads[i]? = some [Section.setAdvertise change] ∧ change.kind = kind ∧
    change.sets = false

structure Backed (c : State ρ) : Prop where
  shape : ∀ left ∈ c.threads, Shape left
  stored : ∀ left ∈ c.threads, ∀ kind, advertises kind left = true → c.shared.handles kind
  handled : ∀ kind, c.shared.advertise.has kind = true → c.shared.handles kind ∨ Removing c kind

theorem has_apply (caps : ClientCapabilities) (change : Change) (kind : Kind) :
    (change.apply caps).has kind = if change.kind = kind then change.sets else caps.has kind := by
  cases change <;> cases kind <;> rfl

theorem method_injective {k k' : Kind} (same : k.method = k'.method) : k = k' := by
  cases k <;> cases k' <;> first | rfl | exact absurd same (by decide)

variable {c : State ρ} {kind : Kind} {method : Bytes} {i : Nat} {handler : Option (RequestHandlerFunc ρ)}
  {rest : List (Section ρ)} {change : Change}

theorem handles_store {c : Client ρ} (method : Bytes) (handler : RequestHandlerFunc ρ)
    (handles : c.handles kind) : (c.perform (.onRequest method (some handler))).handles kind := by
  show (update c.requestHandlers method (some handler) kind.method).isSome = true
  rw [update_apply]
  split_ifs
  · rfl
  · exact handles

theorem handles_remove {c : Client ρ} (other : kind.method ≠ method)
    (handles : c.handles kind) : (c.perform (.onRequest method none)).handles kind := by
  show (update c.requestHandlers method none kind.method).isSome = true
  rw [update_of_ne other]
  exact handles

theorem removing_set {left left' : List (Section ρ)} {client : Client ρ}
    (found : c.threads[i]? = some left) (removing : Removing c kind)
    (self : ∀ change, left = [.setAdvertise change] → change.kind = kind → change.sets = true) :
    Removing ⟨client, c.threads.set i left'⟩ kind := by
  obtain ⟨j, change, waiting, same, unset⟩ := removing
  have ne : i ≠ j := by
    rintro rfl
    have own := self change (Option.some.inj (found.symm.trans waiting)) same
    rw [own] at unset
    cases unset
  exact ⟨j, change, (List.getElem?_set_ne ne).trans waiting, same, unset⟩

theorem backed_spawn (p : Params α β) (call : Call α β ρ) (backed : Backed c) :
    Backed ⟨c.shared, c.threads ++ [call.sections p]⟩ := by
  constructor
  · intro left member
    rcases List.mem_append.mp member with old | new
    · exact backed.shape left old
    · rw [List.mem_singleton.mp new]
      exact shape_sections p call
  · intro left member kind ready
    rcases List.mem_append.mp member with old | new
    · exact backed.stored left old kind ready
    · rw [List.mem_singleton.mp new] at ready
      rcases call with _ | (_ | _) | ⟨_ | _, _⟩ | (_ | _) <;> cases ready
  · intro kind set
    refine (backed.handled kind set).imp_right ?_
    rintro ⟨i, change, waiting, rest⟩
    have inside := (List.getElem?_eq_some_iff.mp waiting).1
    exact ⟨i, change, (List.getElem?_append_left inside).trans waiting, rest⟩

theorem backed_onRequest (backed : Backed c) (found : c.threads[i]? = some (.onRequest method handler :: rest))
    (shape : Shape rest) (stored : ∀ kind, (∃ left ∈ c.threads, advertises kind left = true) →
      c.shared.handles kind → (c.shared.perform (.onRequest method handler)).handles kind)
    (own : ∀ kind, advertises kind rest = true → (c.shared.perform (.onRequest method handler)).handles kind)
    (handled : ∀ kind, c.shared.advertise.has kind = true → c.shared.handles kind →
      (c.shared.perform (.onRequest method handler)).handles kind ∨
        ∃ change, rest = [.setAdvertise change] ∧ change.kind = kind ∧ change.sets = false) :
    Backed ⟨c.shared.perform (.onRequest method handler), c.threads.set i rest⟩ := by
  have inside := (List.getElem?_eq_some_iff.mp found).1
  constructor
  · intro left member
    rcases List.mem_or_eq_of_mem_set member with old | rfl
    · exact backed.shape left old
    · exact shape
  · intro left member kind ready
    rcases List.mem_or_eq_of_mem_set member with old | rfl
    · exact stored kind ⟨left, old, ready⟩ (backed.stored left old kind ready)
    · exact own kind ready
  · intro kind set
    rcases backed.handled kind set with handles | removing
    · refine (handled kind set handles).imp_right ?_
      rintro ⟨change, rfl, same, unset⟩
      exact ⟨i, change, List.getElem?_set_self inside, same, unset⟩
    · exact .inr (removing_set found removing fun change eq => by cases eq)

theorem backed_setAdvertise (backed : Backed c) (found : c.threads[i]? = some [.setAdvertise change]) :
    Backed ⟨c.shared.perform (.setAdvertise change), c.threads.set i []⟩ := by
  constructor
  · intro left member
    rcases List.mem_or_eq_of_mem_set member with old | rfl
    · exact backed.shape left old
    · exact .done
  · intro left member kind ready
    rcases List.mem_or_eq_of_mem_set member with old | rfl
    · exact backed.stored left old kind ready
    · cases ready
  · intro kind set
    have after : (change.apply c.shared.advertise).has kind = true := set
    rw [has_apply] at after
    split_ifs at after with same
    · -- the capability is set: the handler was stored by the same call and nobody has removed it
      left
      refine backed.stored _ (List.mem_of_getElem? found) kind ?_
      simp [advertises, same, after]
    · refine (backed.handled kind after).imp_right fun removing => ?_
      refine removing_set found removing fun change' eq same' => ?_
      cases eq
      exact absurd same' same

theorem removes_iff : removes kind (.onRequest method none :: rest) = true ↔ method = kind.method := by
  simp [removes]

theorem stored_remove (unused : ∀ kind, kind.method = method → ∀ other ∈ c.threads, advertises kind other = false)
    (kind : Kind) (ready : ∃ left ∈ c.threads, advertises kind left = true) (handles : c.shared.handles kind) :
    (c.shared.perform (.onRequest method none)).handles kind := by
  obtain ⟨left, place, ready⟩ := ready
  refine handles_remove (fun same => ?_) handles
  rw [unused kind same left place] at ready
  cases ready

theorem handles_stored (c : Client ρ) (kind : Kind) (handler : RequestHandlerFunc ρ) :
    (c.perform (.onRequest kind.method (some handler))).handles kind := by
  show (update c.requestHandlers kind.method (some handler) kind.method).isSome = true
  rw [update_self]
  rfl

theorem backed_single (backed : Backed c) (found : c.threads[i]? = some [.onRequest method handler])
    (unused : handler = none → ∀ kind, kind.method = method →
      (∀ other ∈ c.threads, advertises kind other = false) ∧ c.shared.advertise.has kind = false) :
    Backed ⟨c.shared.perform (.onRequest method handler), c.threads.set i []⟩ := by
  have nothing (kind : Kind) : advertises kind ([] : List (Section ρ)) ≠ true := by simp [advertises]
  cases handler with
  | some handler =>
    refine backed_onRequest backed found .done (fun kind _ => handles_store method handler)
      (fun kind ready => absurd ready (nothing kind)) fun kind _ handles => .inl (handles_store method handler handles)
  | none =>
    refine backed_onRequest backed found .done (stored_remove fun kind same => (unused rfl kind same).1)
      (fun kind ready => absurd ready (nothing kind)) fun kind set handles => ?_
    refine .inl (handles_remove (fun same => ?_) handles)
    rw [(unused rfl kind same).2] at set
    cases set

theorem backed_whole
    (backed : Backed c) (found : c.threads[i]? = some [.onRequest change.kind.method handler, .setAdvertise change])
    (agree : handler.isSome = change.sets)
    (unused : handler = none → ∀ other ∈ c.threads, advertises change.kind other = false) :
    Backed ⟨c.shared.perform (.onRequest change.kind.method handler), c.threads.set i [.setAdvertise change]⟩ := by
  cases handler with
  | some handler =>
    refine backed_onRequest backed found (.half change) (fun kind _ => handles_store _ handler) (fun kind ready => ?_)
      fun kind _ handles => .inl (handles_store _ handler handles)
    have same : change.kind = kind := by
      simp only [advertises, Bool.and_eq_true, decide_eq_true_eq] at ready
      exact ready.1
    rw [← same]
    exact handles_stored c.shared change.kind handler
  | none =>
    have unset : change.sets = false := agree.symm
    refine backed_onRequest backed found (.half change) (stored_remove fun kind same => ?_) (fun kind ready => ?_)
      fun kind set handles => ?_
    · rw [method_injective same]
      exact unused rfl
    · simp [advertises, unset] at ready
    · by_cases same : kind.method = change.kind.method
      · exact .inr ⟨change, rfl, (method_injective same).symm, unset⟩
      · exact .inl (handles_remove same handles)

variable {p : Params α β}

theorem backed_step (c : State ρ) (l : Label Unit (Call α β ρ) Empty) (c' : State ρ) (backed : Backed c)
    (careful : Careful c l) (step : (registration p).machine.step c l = some c') : Backed c' := by
  cases System.stepped step with
  | @env e => cases e
  | spawn spawned performed =>
    cases spawned
    cases performed
    exact backed_spawn p _ backed
  | @act i a left rest _ _ found acted performed =>
    cases backed.shape left (List.mem_of_getElem? found) with
    | done => cases acted
    | half change =>
      cases acted
      cases performed
      exact backed_setAdvertise backed found
    | single method handler =>
      cases acted
      cases performed
      refine backed_single backed found fun removed kind same => ?_
      subst removed
      obtain ⟨others, unset⟩ := careful _ found kind (removes_iff.mpr same.symm)
      exact ⟨others, unset rfl⟩
    | @whole change handler agree =>
      cases acted
      cases performed
      refine backed_whole backed found agree fun removed => ?_
      subst removed
      exact (careful _ found change.kind (removes_iff.mpr rfl)).1

theorem has_initialCapabilities (c : Client ρ) (caps : ClientCapabilities) (kind : Kind) :
    (c.initialCapabilities caps).has kind = if caps.has kind = true then true else c.advertise.has kind := by
  cases kind with
  | sampling => cases h : caps.sampling <;> simp [Client.initialCapabilities, ClientCapabilities.has, h]
  | elicitation => cases h : caps.elicitation <;> simp [Client.initialCapabilities, ClientCapabilities.has, h]
  | roots => cases h : caps.roots <;> simp [Client.initialCapabilities, ClientCapabilities.has, h]

theorem backed_start : Backed (registration (ρ := ρ) p).machine.start :=
  ⟨nofun, nofun, fun kind set => by cases kind <;> cases set⟩

theorem handles_of_quiet (backed : Backed c) (quiet : Quiet c)
    (set : c.shared.advertise.has kind = true) : c.shared.handles kind := by
  rcases backed.handled kind set with handles | ⟨i, change, waiting, -⟩
  · exact handles
  · cases quiet _ (List.mem_of_getElem? waiting)

theorem added_capability_handled (p : Params α β) (labels : List (Label Unit (Call α β ρ) Empty)) (c : State ρ)
    (each : (registration p).machine.EachStep Careful (registration p).machine.start labels)
    (run : (registration p).machine.run (registration p).machine.start labels = some c) (quiet : Quiet c)
    (caps : ClientCapabilities) (kind : Kind) (unset : caps.has kind = false)
    (added : (c.shared.initialCapabilities caps).has kind = true) (id params : Bytes) :
    ∃ handler, c.shared.requestHandlers kind.method = some handler ∧
      c.shared.handleMessage ⟨some id, kind.method, params⟩ = (handler params).map some := by
  have backed : Backed c := Machine.run_invariant_of_eachStep backed_step backed_start each run
  have set : c.shared.advertise.has kind = true := by
    rw [has_initialCapabilities, unset] at added
    simpa using added
  obtain ⟨handler, found⟩ := Option.isSome_iff_exists.mp (handles_of_quiet backed quiet set)
  refine ⟨handler, found, ?_⟩
  simp only [Client.handleMessage, found]

def unitParams : Params Unit Unit where
  createMessage _ := .ok ()
  createMessageZero := ()
  elicit _ := .ok ()
  elicitZero := ()

def acknowledge : Unit → Except Bytes Unit := fun _ => .ok ()

instance (c : State ρ) (l : Label Unit (Call α β ρ) Empty) : Decidable (Careful c l) := by
  unfold Careful
  split <;> infer_instance

theorem added_capability_handled_elicit :
    let labels : List (Label Unit (Call Unit Unit Unit) Empty) :=
      [.spawn (.onElicit (some acknowledge) []), .act 0 (), .spawn (.onSampling none), .act 1 (), .act 0 (), .act 1 ()]
    ∃ c, (registration unitParams).machine.run (registration unitParams).machine.start labels = some c ∧
      (c.shared.initialCapabilities {}).elicitation = some { form := true } ∧
      ∃ handler, c.shared.requestHandlers Kind.elicitation.method = some handler ∧
        c.shared.handleMessage ⟨some (ofString "1"), Kind.elicitation.method, []⟩ = (handler []).map some := by
  intro labels
  have facts : ((registration unitParams).machine.run (registration unitParams).machine.start labels).map
      (fun c => (c.threads.all List.isEmpty, (c.shared.initialCapabilities {}).elicitation)) =
        some (true, some { form := true }) := by decide +kernel
  obtain ⟨c, run, shown⟩ := Option.map_eq_some_iff.mp facts
  obtain ⟨empty, elicitation⟩ : _ ∧ _ := by simpa only [Prod.mk.injEq] using shown
  have quiet : Quiet c := fun left member => List.isEmpty_iff.mp (List.all_eq_true.mp empty left member)
  refine ⟨c, run, elicitation, ?_⟩
  exact added_capability_handled unitParams labels c (Machine.eachStep_of_checks (by decide +kernel)) run quiet {}
    .elicitation rfl (by simp [ClientCapabilities.has, elicitation]) _ _

theorem sampling_not_implemented :
    let interleaved : List (Label Unit (Call Unit Unit Unit) Empty) :=
      [.spawn (.onSampling (some acknowledge)), .spawn (.onSampling none), .act 0 (), .act 1 (), .act 1 (), .act 0 ()]
    let removed : List (Label Unit (Call Unit Unit Unit) Empty) :=
      [.spawn (.onSampling (some acknowledge)), .act 0 (), .act 0 (),
        .spawn (.onRequest Kind.sampling.method none), .act 1 ()]
    ∀ labels ∈ [interleaved, removed], ∃ c,
      (registration unitParams).machine.run (registration unitParams).machine.start labels = some c ∧ Quiet c ∧
        (c.shared.initialCapabilities {}).sampling = some () ∧
        c.shared.handleMessage ⟨some (ofString "1"), Kind.sampling.method, []⟩ =
          .error (ofString "method not implemented on client") := by
  intro interleaved removed labels member
  have facts : ∀ labels ∈ [interleaved, removed],
      ((registration unitParams).machine.run (registration unitParams).machine.start labels).map
        (fun c => (c.threads.all List.isEmpty, (c.shared.initialCapabilities {}).sampling,
          (c.shared.requestHandlers Kind.sampling.method).isNone)) = some (true, some (), true) := by decide +kernel
  obtain ⟨c, run, shown⟩ := Option.map_eq_some_iff.mp (facts labels member)
  obtain ⟨empty, sampling, absent⟩ : _ ∧ _ ∧ _ := by simpa only [Prod.mk.injEq] using shown
  refine ⟨c, run, fun left member => List.isEmpty_iff.mp (List.all_eq_true.mp empty left member), sampling, ?_⟩
  simp only [Client.handleMessage, Option.isNone_iff_eq_none.mp absent]

end Mcp.Registration
