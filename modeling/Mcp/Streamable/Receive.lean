import Mcp.Streamable.Transport

namespace Mcp.Streamable

namespace StreamableServerTransport

variable {t : StreamableServerTransport} {msg : JSONRPCMessage} {sid : StreamID}

def Usable (t : StreamableServerTransport) : Prop :=
  t.mu = .free ∧ (∀ msg sid, (t.perform (.correlate msg sid)).isSome) ∧
    ∀ msg t', t.write msg = .ok t' → t.perform (.write msg) = some t'

theorem usable_of_free (unlocked : t.mu = .free) : t.Usable := by
  refine ⟨unlocked, fun msg sid => ?_, fun msg t' written => ?_⟩
  · simp only [perform, unlocked, true_or, if_true]
    split <;> rfl
  · simp [perform, unlocked, written]

structure Survives (t : StreamableServerTransport) (msg : JSONRPCMessage) (sid : StreamID) : Prop where
  noPanic : ∀ ready t', t.receive msg sid ready ≠ .panicked t'
  blocked : ∀ ready t', t.receive msg sid ready = .blocked t' → t'.Usable
  ctxDone : ∃ t', t.receive msg sid .ctxDone = .returned t' (some .ctx) ∧ t'.Usable
  done : t.isDone = true → ∃ t',
    t.receive msg sid .done = .returned t' (some (.closed "streamable receive")) ∧ t'.Usable
  incoming : t.incoming.length < incomingCap → ∃ t',
    t.receive msg sid .incoming = .returned t' none ∧ t'.incoming = t.incoming ++ [msg] ∧ t'.Usable

theorem receive_of_correlate {t₁ : StreamableServerTransport} (done : t.correlate msg sid = .ok t₁)
    (ready : ReceiveCase) : t.receive msg sid ready =
      match t₁.offer msg ready with
      | some (t, err) => .returned t err
      | none => .blocked t₁ := by
  rcases offered : t₁.offer msg ready with _ | ⟨t₂, err⟩ <;> simp [receive, done, offered]

theorem survives_of_key {k : Key} (unlocked : t.mu = .free) (key : msg.id.key? = some k) : t.Survives msg sid := by
  obtain ⟨t₁, done⟩ := correlate_of_key (t := t) sid key
  obtain ⟨mu, isDone, incoming, -⟩ := (correlate_eq_ok done).frame
  have usable : t₁.Usable := usable_of_free (mu.trans unlocked)
  have call := receive_of_correlate done
  constructor
  · intro ready t' panicked
    rw [call] at panicked
    split at panicked <;> cases panicked
  · intro ready t' blocked
    rw [call] at blocked
    split at blocked
    · cases blocked
    · cases blocked
      exact usable
  · exact ⟨t₁, by rw [call, offer], usable⟩
  · intro closed
    refine ⟨t₁, ?_, usable⟩
    rw [call, offer, isDone, if_pos closed]
  · intro room
    refine ⟨{ t₁ with incoming := t₁.incoming ++ [msg] }, ?_, by rw [incoming], usable_of_free usable.1⟩
    rw [call, offer, if_pos (by rw [incoming]; exact room)]

theorem receive_survives_iff {body : Json} (decoded : unmarshal body = some msg)
    (unlocked : t.mu = .free) : t.Survives msg sid ↔ ¬(idMember body).Composite := by
  rw [← Json.key?_decode, ← unmarshal_id decoded]
  constructor
  · intro survives unhashable
    apply survives.noPanic .ctxDone { t with mu := .locked }
    rw [receive, correlate_unhashable sid unhashable]
  · intro hashable
    obtain ⟨k, key⟩ := Option.ne_none_iff_exists'.mp hashable
    exact survives_of_key unlocked key

def pingBody : Json :=
  .object [("jsonrpc", .string "2.0"), ("id", .number 7), ("method", .string "ping")]

theorem pingBody_survives : newStreamableServerTransport.Survives
    { id := .float64 7, method := "ping", jsonrpc := "2.0" } 1 :=
  (@receive_survives_iff newStreamableServerTransport _ 1 pingBody rfl rfl).mpr (by decide)

def arrayIdBody : Json :=
  .object [("jsonrpc", .string "2.0"), ("id", .array [.number 7]), ("method", .string "ping")]

theorem arrayIdBody_wedges :
    ∃ msg t, unmarshal arrayIdBody = some msg ∧
      newStreamableServerTransport.receive msg 1 .incoming = .panicked t ∧
      ¬newStreamableServerTransport.Survives msg 1 ∧
      (∀ msg sid, msg.id ≠ .nil → t.perform (.correlate msg sid) = none) ∧
      ∀ msg, t.perform (.write msg) = none := by
  refine ⟨_, _, rfl, rfl, ?_, fun msg sid present => ?_, fun _ => rfl⟩
  · intro survives
    exact survives.noPanic .incoming _ rfl
  · exact if_neg fun free => present (free.resolve_left nofun)

variable {t' : StreamableServerTransport} {ready : ReceiveCase} {err : ReceiveError}

theorem offer_failed (offered : t.offer msg ready = some (t', some err)) : t' = t := by
  cases ready with
  | ctxDone =>
    cases offered
    rfl
  | done =>
    simp only [offer] at offered
    split_ifs at offered
    cases offered
    rfl
  | incoming =>
    simp only [offer] at offered
    split_ifs at offered
    cases offered

theorem correlated_of_failed (failed : t.receive msg sid ready = .returned t' (some err)) :
    Correlated t msg sid t' := by
  cases done : t.correlate msg sid with
  | error fault =>
    simp only [receive, done] at failed
    cases failed
  | ok t₁ =>
    rw [receive_of_correlate done] at failed
    split at failed
    · rename_i offered
      cases failed
      rw [offer_failed offered]
      exact correlate_eq_ok done
    · cases failed

/-- What `receive` writes down about the message is written down already. -/
def Recorded (t : StreamableServerTransport) (msg : JSONRPCMessage) (sid : StreamID) : Prop :=
  ∀ k ∈ msg.id.key?, (msg.IsRequest → t.clientRequestStreams k = some sid ∧ t.lastRequestStream = sid) ∧
    (msg.IsResponse → t.serverRequestStreams k = none)

/-- A call of `receive` that returns an error leaves the correlation of streams as it was exactly if its
message is recorded already; it does not undo what it has recorded. -/
theorem receive_failed_unchanged_iff {t' : StreamableServerTransport} {ready : ReceiveCase} {err : ReceiveError}
    (failed : t.receive msg sid ready = .returned t' (some err)) :
    (t'.clientRequestStreams = t.clientRequestStreams ∧ t'.serverRequestStreams = t.serverRequestStreams ∧
      t'.lastRequestStream = t.lastRequestStream) ↔ t.Recorded msg sid := by
  cases correlated_of_failed failed with
  | @request k kind key =>
    have other : ¬msg.IsResponse := fun response => kind.2 response.2
    simp [Recorded, key, kind, other, eq_comm]
  | @response k kind key =>
    have other : ¬msg.IsRequest := fun request => request.2 kind.2
    simp [Recorded, key, kind, other, eq_comm]
  | notification kind =>
    refine iff_of_true ⟨rfl, rfl, rfl⟩ fun k key => ⟨fun request => ?_, fun response => ?_⟩
    · exact (request.1 kind).elim
    · exact (response.1 kind).elim

theorem receive_failed_again :
    let ping : JSONRPCMessage := { id := .float64 7, method := "ping", jsonrpc := "2.0" }
    ∃ t t', newStreamableServerTransport.receive ping 3 .incoming = .returned t none ∧
      t.clientRequestStreams (.float64 7) = some 3 ∧ t.receive ping 3 .ctxDone = .returned t' (some .ctx) ∧
      t'.clientRequestStreams = t.clientRequestStreams ∧ t'.serverRequestStreams = t.serverRequestStreams ∧
      t'.lastRequestStream = t.lastRequestStream := by
  intro ping
  obtain ⟨t, t', first, recorded, last, failed⟩ : ∃ t t',
      newStreamableServerTransport.receive ping 3 .incoming = .returned t none ∧
      t.clientRequestStreams (.float64 7) = some 3 ∧ t.lastRequestStream = 3 ∧
      t.receive ping 3 .ctxDone = .returned t' (some .ctx) := ⟨_, _, rfl, by decide, rfl, rfl⟩
  refine ⟨t, t', first, recorded, failed, (receive_failed_unchanged_iff failed).mpr ?_⟩
  rintro _ ⟨⟩
  exact ⟨fun _ => ⟨recorded, last⟩, fun response => absurd response (by decide)⟩

/-- The transport after a message has been put into its queue. -/
def accept (t : StreamableServerTransport) (msg : JSONRPCMessage) : Option StreamableServerTransport :=
  match t.receive msg 2 .incoming with
  | .returned t none => some t
  | _ => none

theorem foldlM_accept {n : Nat} (quiet : msg.id = .nil) (room : t.incoming.length + n ≤ incomingCap) :
    (List.replicate n msg).foldlM accept t = some { t with incoming := t.incoming ++ List.replicate n msg } := by
  induction n generalizing t with
  | zero => simp
  | succ n ih =>
    have first : t.accept msg = some { t with incoming := t.incoming ++ [msg] } := by
      have less : t.incoming.length < incomingCap := by omega
      simp [accept, receive, correlate, quiet, offer, less]
    rw [List.replicate_succ, List.foldlM_cons, first]
    have rest := ih (t := { t with incoming := t.incoming ++ [msg] }) (by simp; omega)
    simpa using rest

theorem receive_failed_pins_stream :
    let ping : JSONRPCMessage := { id := .float64 7, method := "ping", jsonrpc := "2.0" }
    let notice : JSONRPCMessage := { id := .nil, method := "notifications/message", jsonrpc := "2.0" }
    ∃ full t k, (List.replicate incomingCap notice).foldlM accept newStreamableServerTransport = some full ∧
      full.receive ping 3 .ctxDone = .returned t (some .ctx) ∧ full.receive ping 3 .incoming = .blocked t ∧
      full.clientRequestStreams k = none ∧ t.clientRequestStreams k = some 3 ∧
      full.getStreamID notice = .ok (0, full) ∧ t.getStreamID notice = .ok (3, t) := by
  intro ping notice
  refine ⟨_, _, .float64 7, foldlM_accept rfl (Nat.le_refl _), rfl, rfl, rfl, ?_, rfl, rfl⟩
  exact Function.update_self (Key.float64 7) (some 3) newStreamableServerTransport.clientRequestStreams

end StreamableServerTransport

end Mcp.Streamable
