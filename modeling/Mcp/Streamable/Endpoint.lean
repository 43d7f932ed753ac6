import Mathlib.Data.Bool.AllAny
import Mcp.Lib.Url
import Mcp.Streamable.Connect

namespace Mcp.Endpoint
open Mcp.Lib Bytes Url Sse Connect Streamable

def endpointEvent (sessionID : Bytes) : Bytes :=
  ofString "event: endpoint\n" ++ (ofString "data: /message?session=" ++ sessionID ++ ofString "\n\n")

def session : Bytes := ofString "session"

def streamableSessionID (header : Bytes) (query : Values) : Bytes :=
  if header ≠ [] then header else query.get session

structure Client {Loc : Type*} (L : Locator Loc) where
  base : URL Loc
  unmarshal : Bytes → Option JSONRPCMessage
  message : Loc
  posted : Loc
  absolute : ∀ l, L.write (L.resolve base.location l) ≠ []
  read_message : L.read (ofString "/message") = some message
  nonempty : L.empty message = false
  read_posted : L.read (L.write (L.resolve base.location message)) = some posted
  accepted : L.accepts (L.target posted)
  solid : space ∉ L.target posted

namespace Client

variable {Loc : Type*} {L : Locator Loc} (c : Client L)

def parseURL (endpoint : Bytes) : Option Bytes :=
  (L.parse endpoint).map fun ref => L.string (L.resolveReference c.base ref)

theorem location_resolveReference (base ref : URL Loc) :
    (L.resolveReference base ref).location = L.resolve base.location ref.location := by
  unfold Locator.resolveReference
  split <;> rfl

theorem parseURL_nonempty {endpoint url : Bytes} (parsed : c.parseURL endpoint = some url) : url ≠ [] := by
  obtain ⟨ref, -, rfl⟩ := Option.map_eq_some_iff.mp parsed
  have written := c.absolute ref.location
  rw [← location_resolveReference] at written
  simp [Locator.string, written]

def context : Context where
  parseURL := c.parseURL
  unmarshal := c.unmarshal
  parseURL_nonempty := c.parseURL_nonempty

def processEvent (conn : Connection) (evt : Event) : Connection :=
  if evt.name = ofString "endpoint" then conn.handleEndpointEvent c.context evt else conn

def processEvents {ρ : Type*} [Source ρ] (body : ρ) : Connection := (scanEvents body).1.foldl c.processEvent {}

end Client

def postSession {Loc : Type*} (L : Locator Loc) (proto : Proto) (conn : Connection) : Option Bytes :=
  match conn.write with
  | .ok postURL => (L.request proto (ofString "POST") postURL).map (streamableSessionID [])
  | .error _ => none

def endpointURL (sessionID : Bytes) : Bytes := ofString "/message" ++ question :: (session ++ equals :: sessionID)

def eventLine : Bytes := ofString "event: endpoint"

def dataLine (sessionID : Bytes) : Bytes := ofString "data: " ++ endpointURL sessionID

theorem endpointEvent_eq (sessionID : Bytes) :
    endpointEvent sessionID = eventLine ++ newline :: (dataLine sessionID ++ newline :: [newline]) := by
  have data : ofString "data: /message?session=" =
      ofString "data: " ++ ofString "/message" ++ question :: (session ++ [equals]) := by decide
  have event : ofString "event: endpoint\n" = eventLine ++ [newline] := by decide
  have blank : ofString "\n\n" = [newline, newline] := by decide
  simp [endpointEvent, dataLine, endpointURL, data, event, blank]

theorem length_endpointURL (sessionID : Bytes) : (endpointURL sessionID).length = sessionID.length + 17 := by
  simp only [endpointURL, List.length_append, List.length_cons, show (ofString "/message").length = 8 from rfl,
    show session.length = 7 from rfl]
  omega

theorem length_dataLine (sessionID : Bytes) : (dataLine sessionID).length = sessionID.length + 23 := by
  rw [dataLine, List.length_append, length_endpointURL, show (ofString "data: ").length = 6 from rfl]
  omega

theorem not_mem_endpointURL {b : UInt8} {sessionID : Bytes} (known : b ∉ endpointURL []) (absent : b ∉ sessionID) :
    b ∉ endpointURL sessionID := by
  have whole : endpointURL sessionID = endpointURL [] ++ sessionID := by simp [endpointURL]
  rw [whole, List.mem_append]
  exact not_or.mpr ⟨known, absent⟩

theorem bounded_field {n : Nat} {p : Collected} {before after : Bytes} (bounded : Bounded n after)
    (collected : ∀ buf, p.dataBuf = some buf → Bounded n buf) :
    ∀ buf, (p.field before after).dataBuf = some buf → Bounded n buf := by
  have value : Bounded n (trimSpace after) := bounded.part (infix_trimSpace after)
  intro buf joined
  unfold Collected.field at joined
  split_ifs at joined
  · exact collected buf joined
  · exact collected buf joined
  · cases earlier : p.dataBuf with
    | none =>
      simp only [earlier, Option.some.injEq] at joined
      exact joined ▸ value
    | some old =>
      simp only [earlier, Option.some.injEq] at joined
      exact joined ▸ (collected old earlier).append value (by decide)
  · exact collected buf joined

theorem data_field (p : Collected) (before after : Bytes) : (p.field before after).evt.data = p.evt.data := by
  unfold Collected.field
  split_ifs <;> rfl

theorem bounded_finish {n : Nat} {p : Collected} {evt : Event} (blank : p.evt.data = [])
    (collected : ∀ buf, p.dataBuf = some buf → Bounded n buf) (yielded : p.finish = some evt) : Bounded n evt.data := by
  unfold Collected.finish at yielded
  split at yielded
  · cases yielded
  · cases yielded
    cases buffer : p.dataBuf with
    | none => exact blank ▸ Bounded.of_length (Nat.zero_le n)
    | some buf => exact collected buf buffer

theorem bounded_scanLines {n : Nat} {texts : List Bytes} (bounded : ∀ text ∈ texts, Bounded n text) {p : Collected}
    (blank : p.evt.data = []) (collected : ∀ buf, p.dataBuf = some buf → Bounded n buf) :
    ∀ evt ∈ (scanLines p texts).1, Bounded n evt.data := by
  induction texts generalizing p with
  | nil => simp [scanLines]
  | cons text texts ih =>
    rw [List.forall_mem_cons] at bounded
    intro evt member
    unfold scanLines at member
    split_ifs at member with empty
    · obtain here | later := List.mem_append.mp member
      · exact bounded_finish blank collected (Option.mem_toList.mp here)
      · exact ih bounded.2 rfl (by simp) evt later
    · split at member
      · cases member
      · next before after split =>
          obtain ⟨whole, -⟩ := cut_eq_some.mp split
          have value : Bounded n after := bounded.1.part ⟨before ++ [colon], [], by simp [whole]⟩
          exact ih bounded.2 (by rw [data_field, blank]) (bounded_field value collected) evt member

namespace Client

variable {Loc : Type*} {L : Locator Loc} (c : Client L)

def Leads (n : Nat) (conn : Connection) : Prop :=
  conn.postURL = [] ∨
    ∃ u : URL Loc, conn.postURL = L.string u ∧ (u.rawQuery = c.base.rawQuery ∨ u.rawQuery.length < n)

variable {c}

theorem leads_processEvent {n : Nat} (positive : 0 < n) {conn : Connection} (leads : c.Leads n conn) {evt : Event}
    (bounded : Bounded n (beforeHash (trimSpace evt.data))) : c.Leads n (c.processEvent conn evt) := by
  unfold processEvent
  split
  · cases parsed : L.parse (trimSpace evt.data) with
    | none => simpa [Connection.handleEndpointEvent, context, parseURL, parsed] using leads
    | some ref =>
      right
      have posts : (conn.handleEndpointEvent c.context evt).postURL = L.string (L.resolveReference c.base ref) := by
        simp [Connection.handleEndpointEvent, context, parseURL, parsed]
      refine ⟨L.resolveReference c.base ref, posts, ?_⟩
      unfold Locator.resolveReference
      split
      · exact .inl rfl
      · obtain empty | short := bounded.rawQuery parsed
        · exact .inr (by simpa [empty] using positive)
        · exact .inr short
  · exact leads

theorem leads_foldl {n : Nat} (positive : 0 < n) {events : List Event}
    (bounded : ∀ evt ∈ events, Bounded n (beforeHash (trimSpace evt.data))) {conn : Connection}
    (leads : c.Leads n conn) : c.Leads n (events.foldl c.processEvent conn) := by
  induction events generalizing conn with
  | nil => exact leads
  | cons evt events ih =>
    rw [List.forall_mem_cons] at bounded
    exact ih bounded.2 (leads_processEvent positive leads bounded.1)

end Client

variable {Loc : Type*} {L : Locator Loc} {proto : Proto} {conn : Connection}

theorem postSession_eq_some {u : URL Loc} (posts : conn.postURL = L.string u) {sessionID : Bytes}
    (resolved : postSession L proto conn = some sessionID) :
    sessionID = (parseQuery u.rawQuery).get session ∧ Passes proto u.rawQuery := by
  unfold postSession Connection.write at resolved
  split_ifs at resolved
  simp only [posts] at resolved
  obtain ⟨values, answered, rfl⟩ := Option.map_eq_some_iff.mp resolved
  obtain ⟨rfl, passes⟩ := Locator.request_string_eq_some (by decide) answered
  exact ⟨rfl, passes⟩

theorem postSession_of_empty (unknown : conn.postURL = []) : postSession L proto conn = none := by
  unfold postSession Connection.write
  split_ifs <;> rfl

theorem postSession_of_answer {postURL : Bytes} {values : Values} (known : postURL ≠ [])
    (answered : L.request proto (ofString "POST") postURL = some values) :
    postSession L proto { postURL := postURL } = some (values.get session) := by
  simp [postSession, Connection.write, known, answered, streamableSessionID]

theorem postSession_ne_of_leads {c : Client L} {sessionID : Bytes} (accepted : sessionID ≠ [])
    (other : (parseQuery c.base.rawQuery).get session ≠ sessionID) (leads : c.Leads (sessionID.length + 8) conn) :
    postSession L proto conn ≠ some sessionID := by
  intro resolved
  obtain unknown | ⟨u, posts, query⟩ := leads
  · cases (postSession_of_empty unknown).symm.trans resolved
  · obtain ⟨same, -⟩ := postSession_eq_some posts resolved
    obtain own | short := query
    · rw [own] at same
      exact other same.symm
    · have longer := get_parseQuery_length (same ▸ accepted)
      rw [← same, show session.length = 7 from rfl] at longer
      omega

structure Plain (proto : Proto) (sessionID : Bytes) : Prop where
  unreserved : ∀ b ∈ sessionID, b ∉ reserved
  printable : PlainQuery sessionID
  passes : Passes proto sessionID
  trimmed : ∀ space ∈ spaces, ¬ space <:+ sessionID
  short : sessionID.length + 23 < maxTokenSize

instance : DecidablePred PlainQuery := fun _ => decidable_of_iff _ List.all_iff_forall_prop

theorem newline_not_mem_dataLine {sessionID : Bytes} (single : newline ∉ sessionID) : newline ∉ dataLine sessionID := by
  rw [dataLine, List.mem_append, not_or]
  exact ⟨by decide, not_mem_endpointURL (by decide) single⟩

theorem starts_endpointURL (sessionID : Bytes) : ∀ space ∈ spaces, ¬ space <+: endpointURL sessionID := by
  intro space known starts
  have head : (endpointURL sessionID).head? = some 47 := rfl
  have solid : ∀ space ∈ spaces, space ≠ [] ∧ space.head? ≠ some 47 := by decide
  obtain ⟨rest, same⟩ := starts
  rw [← same, List.head?_append_of_ne_nil _ (solid space known).1] at head
  exact (solid space known).2 head

theorem trimmed_endpointURL {sessionID : Bytes} (trimmed : ∀ space ∈ spaces, ¬ space <:+ sessionID) :
    Trimmed (endpointURL sessionID) := by
  refine fun space known => ⟨starts_endpointURL sessionID space known, fun ends => ?_⟩
  have parts : equals :: sessionID <:+ endpointURL sessionID :=
    ⟨ofString "/message" ++ question :: session, by simp [endpointURL]⟩
  have solid : ∀ space ∈ spaces, equals ∉ space := by decide
  -- The white space cannot begin before the id, since the byte there is `=`.
  obtain within | around := List.suffix_or_suffix_of_suffix ends parts
  · obtain rfl | within := List.suffix_cons_iff.mp within
    · exact solid _ known List.mem_cons_self
    · exact trimmed space known within
  · exact solid space known (around.subset List.mem_cons_self)

theorem bounded_endpointURL {text sessionID : Bytes} (starts : text <+: endpointURL sessionID)
    (cut : text ≠ endpointURL sessionID) : Bounded (sessionID.length + 8) text := by
  have parts : endpointURL sessionID = ofString "/message" ++ question :: (session ++ equals :: sessionID) := rfl
  obtain within | ⟨rest, rfl⟩ := List.prefix_or_prefix_of_prefix starts ⟨_, parts.symm⟩
  · have length : text.length ≤ 8 := within.length_le
    exact .of_length (by omega)
  · refine .of_clean (by decide) ?_
    have shorter : (ofString "/message" ++ rest).length < (endpointURL sessionID).length := by
      apply Nat.lt_of_le_of_ne starts.length_le
      exact fun same => cut (starts.eq_of_length same)
    rw [length_endpointURL, List.length_append, show (ofString "/message").length = 8 from rfl] at shorter
    omega

theorem locationOf_endpointURL (sessionID : Bytes) : locationOf (endpointURL sessionID) = ofString "/message" :=
  locationOf_append (by decide) _

theorem queryOf_endpointURL (sessionID : Bytes) : queryOf (endpointURL sessionID) = session ++ equals :: sessionID :=
  queryOf_append (by decide) _

theorem plainQuery_endpointURL {sessionID : Bytes} (plain : PlainQuery sessionID) :
    PlainQuery (endpointURL sessionID) := by
  intro b member
  have known : PlainQuery (endpointURL []) := by decide
  have whole : endpointURL sessionID = endpointURL [] ++ sessionID := by simp [endpointURL]
  rw [whole] at member
  obtain fixed | chosen := List.mem_append.mp member
  · exact known b fixed
  · exact plain b chosen

theorem get_session_iff {sessionID : Bytes} (accepted : sessionID ≠ []) :
    (parseQuery (session ++ equals :: sessionID)).get session = sessionID ↔ ∀ b ∈ sessionID, b ∉ reserved :=
  get_parseQuery_iff (List.all_iff_forall_prop.mp (by decide)) accepted

theorem trimSpace_endpointURL (sessionID : Bytes) :
    trimSpace (dropCR (endpointURL sessionID)) <+: endpointURL sessionID := by
  have dropped := dropCR_leading (endpointURL sessionID)
  refine (trimSpace_leading fun space known starts => ?_).trans dropped
  exact starts_endpointURL sessionID space known (starts.trans dropped)

theorem plain_of_parsed {c : Client L} {sessionID : Bytes} {ref : URL Loc} (accepted : sessionID ≠ [])
    (whole : beforeHash (endpointURL sessionID) = endpointURL sessionID) (trimmed : Trimmed (endpointURL sessionID))
    (short : (dataLine sessionID).length < maxTokenSize) (parsed : L.parse (endpointURL sessionID) = some ref)
    (resolved : postSession L proto { postURL := L.string (L.resolveReference c.base ref) } = some sessionID) :
    Plain proto sessionID := by
  obtain ⟨printable, -, query⟩ := Locator.parse_eq_some parsed
  have unmarked := hash_not_mem_beforeHash (endpointURL sessionID)
  rw [whole] at printable query unmarked
  rw [queryOf_endpointURL] at query
  have kept : (L.resolveReference c.base ref).rawQuery = session ++ equals :: sessionID := by
    simp [Locator.resolveReference, query]
  obtain ⟨same, passes⟩ := postSession_eq_some rfl resolved
  rw [kept] at same passes
  have within {b : UInt8} (member : b ∈ sessionID) : b ∈ endpointURL sessionID := by
    simp [endpointURL, member]
  refine ⟨(get_session_iff accepted).mp same.symm, fun b member => ⟨printable b (within member), ?_⟩,
    fun old member => passes old (by simp [member]), fun space known ends => ?_, length_dataLine sessionID ▸ short⟩
  · rintro rfl
    exact unmarked (within member)
  · exact (trimmed space known).2 (ends.trans ⟨endpointURL [], by simp [endpointURL]⟩)

section Sent

variable {ρ : Type*} [Source ρ] {body : ρ} {sessionID : Bytes} (sent : Source.rest body = endpointEvent sessionID)

include sent

theorem scanEvents_newline (several : newline ∈ sessionID) :
    ∀ evt ∈ (scanEvents body).1, Bounded (sessionID.length + 8) evt.data := by
  have content : Bounded (sessionID.length + 8) (endpointEvent sessionID) := by
    obtain ⟨first, more, rfl⟩ := List.append_of_mem several
    have parts : endpointEvent (first ++ newline :: more) =
        (eventLine ++ newline :: (ofString "data: " ++ ofString "/message") ++
          (question :: (session ++ equals :: first))) ++ newline :: (more ++ newline :: [newline]) := by
      simp [endpointEvent_eq, dataLine, endpointURL]
    rw [parts]
    simp only [List.length_append, List.length_cons]
    refine .append (.of_clean (by decide) ?_) (.append (.of_length (by omega)) (.of_length ?_) (by decide)) (by decide)
    · simp only [List.length_append, List.length_cons, show session.length = 7 from rfl]
      omega
    · simp
  apply bounded_scanLines _ rfl (by simp)
  intro text member
  have inside := Scanner.infix_of_mem_tokens member
  have same : (Scanner.new body 0 maxTokenSize).content = endpointEvent sessionID := sent
  exact content.part (same ▸ inside)

theorem scanEvents_tooLong (single : newline ∉ sessionID)
    (long : maxTokenSize ≤ (dataLine sessionID).length) : (scanEvents body).1 = [] := by
  have whole := newline_not_mem_dataLine single
  have content : (Scanner.new body 0 maxTokenSize).content =
      [eventLine].flatMap (· ++ [newline]) ++ (dataLine sessionID ++ newline :: [newline]) := by
    have same : (Scanner.new body 0 maxTokenSize).content = endpointEvent sessionID := sent
    rw [same, endpointEvent_eq]
    simp
  have first : newline ∉ eventLine ∧ eventLine.length < maxTokenSize := by decide
  have tokens := Scanner.tokens_tooLong whole (s := Scanner.new body 0 maxTokenSize) (Nat.zero_le _)
    (List.forall_mem_singleton.mpr first) long content
  simp only [scanEvents, tokens]
  decide

theorem scanEvents_single (single : newline ∉ sessionID)
    (short : (dataLine sessionID).length < maxTokenSize) :
    (scanEvents body).1 = [⟨ofString "endpoint", [], trimSpace (dropCR (endpointURL sessionID))⟩] := by
  have whole : newline ∉ dataLine sessionID := newline_not_mem_dataLine single
  have content : (Scanner.new body 0 maxTokenSize).content =
      eventLine ++ newline :: (dataLine sessionID ++ newline :: ([] ++ newline :: [])) :=
    sent.trans (endpointEvent_eq sessionID)
  have shortLines : Scanner.ShortLines maxTokenSize (Scanner.new body 0 maxTokenSize).content := by
    rw [content]
    have blank : Scanner.ShortLines maxTokenSize ([] ++ newline :: []) :=
      .line (by decide) (by decide) (.last (by decide) (by decide))
    exact .line (by decide) (by decide) (.line whole short blank)
  have tokens := (Scanner.new body 0 maxTokenSize).tokens_eq shortLines
  have event : cut colon (dropCR eventLine) = some (ofString "event", ofString " endpoint") := by decide
  have data : cut colon (dropCR (dataLine sessionID)) =
      some (ofString "data", 32 :: dropCR (endpointURL sessionID)) := by
    have nonempty : endpointURL sessionID ≠ [] := by simp [endpointURL]
    have absent : colon ∉ ofString "data" := by decide
    rw [dataLine, dropCR_append _ nonempty]
    exact cut_append absent _
  rw [content, lines_append (by decide), lines_append whole, lines_append (by decide), lines_nil] at tokens
  have named : dropCR eventLine ≠ [] := by decide
  have filled : dropCR (dataLine sessionID) ≠ [] := by
    intro empty
    rw [empty] at data
    cases data
  have header : Collected.field {} (ofString "event") (ofString " endpoint") =
      { evt := { name := ofString "endpoint" } } := by
    have trimmed : trimSpace (ofString " endpoint") = ofString "endpoint" := by decide
    simp [Collected.field, trimmed]
  simp only [scanEvents, tokens, scanLines, if_neg named, if_neg filled, event, data, header]
  rfl

theorem processEvents_single (c : Client L) (single : newline ∉ sessionID)
    (short : (dataLine sessionID).length < maxTokenSize) : c.processEvents body =
      { postURL := (c.parseURL (trimSpace (dropCR (endpointURL sessionID)))).getD [] } := by
  have again := trimSpace_of_trimmed (trimmed_trimSpace (dropCR (endpointURL sessionID)))
  rw [Client.processEvents, scanEvents_single sent single short]
  simp only [List.foldl_cons, List.foldl_nil, Client.processEvent, if_true, Connection.handleEndpointEvent,
    Client.context, again]
  cases c.parseURL (trimSpace (dropCR (endpointURL sessionID))) <;> rfl

theorem postSession_plain (c : Client L) (accepted : sessionID ≠ []) (plain : Plain proto sessionID) :
    postSession L proto (c.processEvents body) = some sessionID := by
  have single : newline ∉ sessionID := fun member => absurd (plain.printable _ member).1 (by decide)
  have trimmed := trimmed_endpointURL plain.trimmed
  have ending : (endpointURL sessionID).getLast? ≠ some carriageReturn := by
    intro last
    apply (trimmed [carriageReturn] (by decide)).2
    obtain ⟨before, whole⟩ := List.getLast?_eq_some_iff.mp last
    exact ⟨before, whole.symm⟩
  have url : trimSpace (dropCR (endpointURL sessionID)) = endpointURL sessionID := by
    rw [dropCR_of_getLast ending, trimSpace_of_trimmed trimmed]
  obtain ⟨ref, parsed, location, query, whole⟩ := Locator.parse_of_read (plainQuery_endpointURL plain.printable)
    (locationOf_endpointURL sessionID ▸ c.read_message)
  rw [queryOf_endpointURL] at query
  have posts : c.parseURL (endpointURL sessionID) = some (L.string (L.resolveReference c.base ref)) := by
    rw [Client.parseURL, parsed, Option.map_some]
  have known := c.parseURL_nonempty posts
  have resolved : L.resolveReference c.base ref = { ref with location := L.resolve c.base.location c.message } := by
    simp [Locator.resolveReference, location, c.nonempty]
  rw [resolved] at posts known
  have passes : Passes proto ref.rawQuery := by
    rw [query]
    intro old member
    obtain key | value := List.mem_append.mp member
    · exact absurd key (by decide)
    · exact plain.passes old ((List.mem_cons.mp value).resolve_left (by decide))
  have answered : L.request proto (ofString "POST") _ = some (parseQuery ref.rawQuery) :=
    Locator.request_string (u := { ref with location := L.resolve c.base.location c.message }) (by decide)
      c.read_posted whole c.accepted c.solid passes
  rw [processEvents_single sent c single (length_dataLine sessionID ▸ plain.short), url, posts, Option.getD_some,
    postSession_of_answer known answered, query, (get_session_iff accepted).mpr plain.unreserved]

theorem plain_of_postSession (c : Client L) (accepted : sessionID ≠ [])
    (other : (parseQuery c.base.rawQuery).get session ≠ sessionID)
    (resolved : postSession L proto (c.processEvents body) = some sessionID) : Plain proto sessionID := by
  have unresolved (events : List Event)
      (bounded : ∀ evt ∈ events, Bounded (sessionID.length + 8) (beforeHash (trimSpace evt.data))) :
      postSession L proto (events.foldl c.processEvent {}) ≠ some sessionID :=
    postSession_ne_of_leads accepted other (Client.leads_foldl (by omega) bounded (.inl rfl))
  have single : newline ∉ sessionID := by
    intro several
    refine unresolved _ (fun evt member => ?_) resolved
    exact ((scanEvents_newline sent several evt member).part (infix_trimSpace _)).part
      (beforeHash_leading _).isInfix
  have short : (dataLine sessionID).length < maxTokenSize := by
    by_contra long
    refine unresolved (scanEvents body).1 ?_ resolved
    simp [scanEvents_tooLong sent single (Nat.le_of_not_lt long)]
  have trimmed := trimSpace_endpointURL sessionID
  have whole : beforeHash (trimSpace (dropCR (endpointURL sessionID))) = endpointURL sessionID := by
    by_contra cut
    refine unresolved (scanEvents body).1 ?_ resolved
    rw [scanEvents_single sent single short, List.forall_mem_singleton, trimSpace_of_trimmed (trimmed_trimSpace _)]
    exact bounded_endpointURL ((beforeHash_leading _).trans trimmed) cut
  have url : trimSpace (dropCR (endpointURL sessionID)) = endpointURL sessionID := by
    apply trimmed.eq_of_length_le
    have longer := (beforeHash_leading (trimSpace (dropCR (endpointURL sessionID)))).length_le
    rwa [whole] at longer
  have clean := trimmed_trimSpace (dropCR (endpointURL sessionID))
  rw [url] at whole clean
  rw [processEvents_single sent c single short, url] at resolved
  cases parsed : L.parse (endpointURL sessionID) with
  | none =>
    rw [Client.parseURL, parsed] at resolved
    cases (postSession_of_empty rfl).symm.trans resolved
  | some ref =>
    rw [Client.parseURL, parsed] at resolved
    exact plain_of_parsed accepted whole clean short parsed resolved

end Sent

theorem endpoint_names_session_iff {ρ : Type*} [Source ρ] (c : Client L) (proto : Proto) (body : ρ) (sessionID : Bytes)
    (accepted : sessionID ≠ []) (sent : Source.rest body = endpointEvent sessionID) :
    (Plain proto sessionID → postSession L proto (c.processEvents body) = some sessionID) ∧
      ((parseQuery c.base.rawQuery).get session ≠ sessionID →
        (postSession L proto (c.processEvents body) = some sessionID ↔ Plain proto sessionID)) := by
  have enough : Plain proto sessionID → postSession L proto (c.processEvents body) = some sessionID :=
    postSession_plain sent c accepted
  exact ⟨enough, fun other => ⟨plain_of_postSession sent c accepted other, enough⟩⟩

def isPlain (b : UInt8) : Bool := !isControl b && b ≠ hash && b ≠ question

theorem isPlain_iff {b : UInt8} : isPlain b ↔ isControl b = false ∧ b ≠ hash ∧ b ≠ question := by
  simp [isPlain, and_assoc]

def localhost : Locator { text : Bytes // text.all isPlain } where
  read text :=
    let path := if (ofString "http://localhost").isPrefixOf text then text.drop 16 else text
    if plain : path.all isPlain then some ⟨path, plain⟩ else none
  resolve base ref := if ref.1 = [] then base else ref
  write l := ofString "http://localhost" ++ l.1
  empty l := l.1 = []
  target l := ofString "/" ++ l.1.tail
  accepts text := text.head? = some 47
  escapeFragment fragment := some fragment
  write_plain l b member := by
    have plain : (ofString "http://localhost" ++ l.1).all isPlain := by
      rw [List.all_append, l.2]
      decide
    exact isPlain_iff.mp (List.all_eq_true.mp plain b member)
  target_plain l b member := by
    obtain slash | own := List.mem_append.mp member
    · obtain rfl := List.mem_singleton.mp slash
      decide
    · have plain := isPlain_iff.mp (List.all_eq_true.mp l.2 b (List.mem_of_mem_tail own))
      exact ⟨plain.1, plain.2.2⟩

def localClient : Client localhost where
  base := { location := ⟨ofString "/sse", by decide⟩, rawQuery := ofString "session=old", plain := by decide }
  unmarshal _ := none
  message := ⟨ofString "/message", by decide⟩
  posted := ⟨ofString "/message", by decide⟩
  absolute l := by simp [localhost, ofString]
  read_message := by decide
  nonempty := by decide
  read_posted := by decide
  accepted := by decide
  solid := by decide

theorem endpoint_names_session_plain :
    (parseQuery localClient.base.rawQuery).get session = ofString "old" ∧
      postSession localhost .http1 (localClient.processEvents (⟨[endpointEvent (ofString "a-1")]⟩ : Chunks)) =
        some (ofString "a-1") ∧
      postSession localhost .http1 (localClient.processEvents (⟨[endpointEvent (ofString "a+1")]⟩ : Chunks)) ≠
        some (ofString "a+1") := by
  have plain : Plain .http1 (ofString "a-1") :=
    ⟨List.all_iff_forall_prop.mp (by decide), by decide, fun _ => by decide, by decide, by decide⟩
  have reserved : ¬ Plain .http1 (ofString "a+1") := fun plain => absurd plain.unreserved (by decide)
  have old : (parseQuery localClient.base.rawQuery).get session = ofString "old" := by decide +kernel
  have names := endpoint_names_session_iff localClient .http1 (⟨[endpointEvent (ofString "a-1")]⟩ : Chunks)
    (ofString "a-1") (by decide) (by decide)
  have names' := endpoint_names_session_iff localClient .http1 (⟨[endpointEvent (ofString "a+1")]⟩ : Chunks)
    (ofString "a+1") (by decide) (by decide)
  rw [old] at names names'
  exact ⟨old, (names.2 (by decide)).mpr plain, mt (names'.2 (by decide)).mp reserved⟩

theorem endpoint_names_other_session :
    postSession localhost .http1 (localClient.processEvents (⟨[endpointEvent (ofString "a&b")]⟩ : Chunks)) =
      some (ofString "a") := by
  have sent : Source.rest (⟨[endpointEvent (ofString "a&b")]⟩ : Chunks) = endpointEvent (ofString "a&b") := by decide
  rw [processEvents_single sent localClient (by decide) (by decide)]
  decide +kernel

end Mcp.Endpoint
