import Mcp.Streamable.Session

namespace Mcp.Streamable
open Mcp.Lib

structure StreamableHTTPHandler where
  maxSessions : Nat
  -- The table refers to the transports by their place in the list of all that were ever made.
  sessions : List (String × Nat) := []
  transports : List Session := []

structure Place where
  session : Nat
  goroutine : Nat

structure HTTPRequest where
  sessionID : String := ""
  randText : String
  hasServer : Bool := true
  request : Request

def HTTPRequest.name (r : HTTPRequest) : String := if r.sessionID = "" then r.randText else r.sessionID

namespace StreamableHTTPHandler

variable (h : StreamableHTTPHandler)

def getSession (sessionID : String) : Option Nat := h.sessions.lookup sessionID

-- In one step. The module `SessionTable` takes its sections apart and shows that they have the same effect.
def getOrCreateSession (hasServer : Bool) (sessionID : String) : Option (Nat × StreamableHTTPHandler) :=
  match h.getSession sessionID with
  | some n => some (n, h)
  | none =>
    if hasServer ∧ h.sessions.length < h.maxSessions then
      some (h.transports.length,
        { h with
          sessions := (sessionID, h.transports.length) :: h.sessions
          transports := h.transports ++ [session.start] })
    else none

def findSession (r : HTTPRequest) : Option (Nat × StreamableHTTPHandler) :=
  match r.request with
  | .get _ => h.getOrCreateSession r.hasServer r.name
  | .post _ =>
    if r.sessionID = "" then h.getOrCreateSession r.hasServer r.name
    else (h.getSession r.sessionID).map fun n => (n, h)

def stepSession (n : Nat) (e : Event) : Option StreamableHTTPHandler :=
  h.transports[n]?.bind fun s => (session.step s e).map fun s => { h with transports := h.transports.set n s }

def forget (sessionID : String) : StreamableHTTPHandler :=
  { h with sessions := h.sessions.filter fun entry => entry.1 ≠ sessionID }

def serve (n : Nat) (request : Request) : Option (Place × StreamableHTTPHandler) :=
  h.transports[n]?.bind fun s => (h.stepSession n (.spawn request)).map fun h => (⟨n, s.threads.length⟩, h)

def goroutine (place : Place) : Option Goroutine :=
  h.transports[place.session]?.bind fun s => s.threads[place.goroutine]?

end StreamableHTTPHandler

inductive HandlerEvent where
  | request (r : HTTPRequest)
  | call (n : Nat) (call : Call)
  | act (place : Place) (a : Action)
  | delete (sessionID : String)
  | served (sessionID : String) (n : Nat)

namespace StreamableHTTPHandler

def step (h : StreamableHTTPHandler) : HandlerEvent → Option StreamableHTTPHandler
  | .request r => (h.findSession r).bind fun found => (found.2.serve found.1 r.request).map Prod.snd
  | .call n call => h.stepSession n (.env call)
  | .act place a => h.stepSession place.session (.act place.goroutine a)
  | .delete sessionID =>
    (h.getSession sessionID).bind fun n => (h.stepSession n (.env .close)).map fun h => h.forget sessionID
  | .served sessionID n => some (if h.getSession sessionID = some n then h.forget sessionID else h)

variable {h h' : StreamableHTTPHandler}

def Sound (h : StreamableHTTPHandler) : Prop :=
  ∀ (n : Nat) s, h.transports[n]? = some s → session.Reachable s

def KeepsStreams (h h' : StreamableHTTPHandler) : Prop :=
  ∀ place r, h.goroutine place = some (.reader r) →
    ∃ r', h'.goroutine place = some (.reader r') ∧ r'.lastEventID = r.lastEventID

theorem KeepsStreams.refl (h : StreamableHTTPHandler) : h.KeepsStreams h := fun _ r found => ⟨r, found, rfl⟩

theorem KeepsStreams.trans {h₁ h₂ h₃ : StreamableHTTPHandler} (first : h₁.KeepsStreams h₂)
    (second : h₂.KeepsStreams h₃) : h₁.KeepsStreams h₃ := by
  intro place r found
  obtain ⟨r₂, found₂, same₂⟩ := first place r found
  obtain ⟨r₃, found₃, same₃⟩ := second place r₂ found₂
  exact ⟨r₃, found₃, same₃.trans same₂⟩

theorem reader_acted {t : StreamableServerTransport} {r : Reader} {g : Goroutine} {a : Action}
    {op : Option StreamableServerTransport.Op} (moved : goroutines.act t (.reader r) a = some (op, g)) :
    ∃ r', g = .reader r' ∧ r'.lastEventID = r.lastEventID := by
  cases Goroutine.acted moved with
  | reader streamed => cases streamed <;> exact ⟨_, rfl, rfl⟩

variable {n : Nat} {place : Place}

theorem getOrCreateSession_sound {hasServer : Bool} {sessionID : String} (sound : h.Sound)
    (found : h.getOrCreateSession hasServer sessionID = some (n, h')) : h'.Sound ∧ h.KeepsStreams h' := by
  unfold getOrCreateSession at found
  split at found
  · cases found
    exact ⟨sound, .refl h⟩
  · split_ifs at found
    cases found
    constructor
    · intro n s found
      obtain ⟨-, rfl⟩ | ⟨-, before⟩ := System.getElem?_concat_cases found
      · exact .start
      · exact sound n s before
    · intro place r found
      obtain ⟨s, before, -⟩ := Option.bind_eq_some_iff.mp found
      have inside := (List.getElem?_eq_some_iff.mp before).1
      refine ⟨r, ?_, rfl⟩
      simp only [goroutine, List.getElem?_append_left inside]
      exact found

theorem findSession_sound {r : HTTPRequest} (sound : h.Sound)
    (found : h.findSession r = some (n, h')) : h'.Sound ∧ h.KeepsStreams h' := by
  cases asked : r.request with
  | get lastEventID =>
    simp only [findSession, asked] at found
    exact getOrCreateSession_sound sound found
  | post msg =>
    simp only [findSession, asked] at found
    split_ifs at found
    · exact getOrCreateSession_sound sound found
    · obtain ⟨n, -, same⟩ := Option.map_eq_some_iff.mp found
      cases same
      exact ⟨sound, .refl h⟩

theorem stepSession_sound {e : Event} (sound : h.Sound) (step : h.stepSession n e = some h') :
    h'.Sound ∧ h.KeepsStreams h' := by
  obtain ⟨s, here, step⟩ := Option.bind_eq_some_iff.mp step
  obtain ⟨s', moved, rfl⟩ := Option.map_eq_some_iff.mp step
  have inside := (List.getElem?_eq_some_iff.mp here).1
  constructor
  · intro m u found
    obtain ⟨rfl, rfl⟩ | ⟨-, before⟩ := System.getElem?_set_cases found
    · exact (sound m s here).next moved
    · exact sound m u before
  · intro place r found
    by_cases same : n = place.session
    · subst same
      simp only [goroutine, here, Option.bind_some] at found
      simp only [goroutine, List.getElem?_set_self inside, Option.bind_some]
      obtain ⟨g, found', rfl | ⟨a, op, acted⟩⟩ := System.thread_stepped moved found
      · exact ⟨r, found', rfl⟩
      · obtain ⟨r', rfl, header⟩ := reader_acted acted
        exact ⟨r', found', header⟩
    · refine ⟨r, ?_, rfl⟩
      simp only [goroutine, List.getElem?_set_ne same]
      exact found

theorem serve_sound {request : Request} (sound : h.Sound)
    (served : h.serve n request = some (place, h')) : h'.Sound ∧ h.KeepsStreams h' := by
  obtain ⟨s, -, served⟩ := Option.bind_eq_some_iff.mp served
  obtain ⟨h', step, same⟩ := Option.map_eq_some_iff.mp served
  cases same
  exact stepSession_sound sound step

theorem serve_get {lastEventID : String} (served : h.serve n (.get lastEventID) = some (place, h')) :
    h'.goroutine place = some (.reader (handleSSEStream lastEventID)) := by
  obtain ⟨s, here, served⟩ := Option.bind_eq_some_iff.mp served
  obtain ⟨h', step, same⟩ := Option.map_eq_some_iff.mp served
  cases same
  obtain ⟨s', here', step⟩ := Option.bind_eq_some_iff.mp step
  obtain rfl := Option.some.inj (here.symm.trans here')
  obtain ⟨s', spawned, rfl⟩ := Option.map_eq_some_iff.mp step
  cases spawned
  have inside := (List.getElem?_eq_some_iff.mp here).1
  simp only [goroutine, List.getElem?_set_self inside, Option.bind_some]
  exact List.getElem?_concat_length

theorem step_sound {e : HandlerEvent} (sound : h.Sound) (step : h.step e = some h') : h'.Sound ∧ h.KeepsStreams h' := by
  cases e with
  | request r =>
    obtain ⟨⟨n, h₁⟩, found, step⟩ := Option.bind_eq_some_iff.mp step
    obtain ⟨⟨place, h₂⟩, served, rfl⟩ := Option.map_eq_some_iff.mp step
    obtain ⟨sound₁, kept₁⟩ := findSession_sound sound found
    obtain ⟨sound₂, kept₂⟩ := serve_sound sound₁ served
    exact ⟨sound₂, kept₁.trans kept₂⟩
  | call | act => exact stepSession_sound sound step
  | delete sessionID =>
    obtain ⟨n, -, step⟩ := Option.bind_eq_some_iff.mp step
    obtain ⟨h₁, closed, rfl⟩ := Option.map_eq_some_iff.mp step
    obtain ⟨sound₁, kept₁⟩ := stepSession_sound sound closed
    exact ⟨sound₁, kept₁⟩
  | served sessionID n =>
    obtain rfl := Option.some.inj step
    split_ifs
    · exact ⟨sound, .refl h⟩
    · exact ⟨sound, .refl h⟩

end StreamableHTTPHandler

end Mcp.Streamable
