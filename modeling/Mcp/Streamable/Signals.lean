import Mcp.Lib.Board
import Mcp.Streamable.Session

namespace Mcp.Streamable
open Mcp.Lib

namespace StreamableServerTransport

variable {t t' : StreamableServerTransport} {sid : StreamID} {ch : ChanID} {n : Nat}

def board (t : StreamableServerTransport) : Board StreamID StreamableMsg :=
  ⟨t.messages, t.signals, t.signalled⟩

theorem Wrote.board {msg : JSONRPCMessage} (wrote : Wrote t msg sid t') :
    t'.board = t.board.publish sid ⟨msg, formatEventID sid (t.messages sid).length⟩ := by
  obtain ⟨-, signals, signalled, -⟩ := wrote.append
  simp only [StreamableServerTransport.board, Board.publish, wrote.messages, signals, signalled,
    StreamableServerTransport.append, signal]
  congr 1
  funext d
  cases t.signals sid with
  | none => simp
  | some ch =>
    by_cases same : d = ch
    · simp [same]
    · simp [same, Ne.symm same]

def Undisturbed (sid : StreamID) (ch : ChanID) : Op → Prop
  | .register s => s ≠ sid
  | .delete s => s ≠ sid
  | .take d => d ≠ ch
  | .deleteOwn s d => s ≠ sid ∨ d ≠ ch
  | _ => True

theorem watched_perform {op : Op} (watched : t.board.Watched sid ch n) (bound : ch < t.signalChans)
    (undisturbed : Undisturbed sid ch op) (step : t.perform op = some t') : t'.board.Watched sid ch n := by
  cases performed step with
  | write _ _ _ wrote =>
    rw [wrote.board]
    exact watched.publish _ _
  | correlate _ correlated => cases correlated <;> exact watched
  | register => exact watched.register_other undisturbed (Nat.ne_of_gt bound)
  | take => exact watched.take_other undisturbed
  | delete => exact watched.delete_other undisturbed
  | @deleteOwn s d _ own =>
    have other : s ≠ sid := by
      rintro rfl
      have same : d = ch := Option.some.inj (own.symm.trans watched.1)
      exact undisturbed.elim (fun different => different rfl) fun different => different same
    exact watched.delete_other other
  | _ => exact watched

theorem registered_perform {op : Op} (registered : t.signals sid = some ch) (bound : ch < t.signalChans)
    (undisturbed : Undisturbed sid ch op) (step : t.perform op = some t') : t'.signals sid = some ch := by
  have watched : t.board.Watched sid ch (t.messages sid).length := ⟨registered, Or.inl le_rfl⟩
  exact (watched_perform watched bound undisturbed step).1

end StreamableServerTransport

open StreamableServerTransport

variable {t : StreamableServerTransport} {c : Session} {i j : Nat} {g g' : Goroutine} {ch : ChanID}

theorem Goroutine.Acted.undisturbed {op : Op} {sid : StreamID} (acted : Acted t g (some op) g')
    (other : g.signalCh ≠ some ch) (noRegister : op ≠ .register sid) (noDelete : op ≠ .delete sid) :
    Undisturbed sid ch op := by
  cases acted with
  | reader streamed =>
    cases streamed with
    | registered => exact fun same => noRegister (same ▸ rfl)
    | panicked _ lost => rcases lost with rfl | rfl <;> trivial
    | woken _ own => exact fun same => other (same ▸ own)
    | left => exact fun same => noDelete (same ▸ rfl)
  | post handled =>
    cases handled with
    | registered => exact fun same => noRegister (same ▸ rfl)
    | woken _ own => exact fun same => other (same ▸ own)
    | returned _ own | failed _ own => exact .inr fun same => other (same ▸ own)
    | received | offered => trivial

theorem channel_bound (reachable : session.Reachable c) (found : c.threads[i]? = some g)
    (own : g.signalCh = some ch) : ch < c.shared.signalChans :=
  (signalChs_fresh reachable).lt found own

theorem channel_owner (reachable : session.Reachable c) (found : c.threads[i]? = some g)
    (found' : c.threads[j]? = some g') (own : g.signalCh = some ch) (own' : g'.signalCh = some ch) : i = j :=
  (signalChs_fresh reachable).unique found found' own own'

end Mcp.Streamable
