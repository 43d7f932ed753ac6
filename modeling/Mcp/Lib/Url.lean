import Mcp.Lib.Bytes
import Mathlib.Data.List.Infix

/-! # URLs and queries -/

namespace Mcp.Lib.Url
open Bytes List

def space : UInt8 := 32

def hash : UInt8 := 35

def percent : UInt8 := 37

def ampersand : UInt8 := 38

def plus : UInt8 := 43

def semicolon : UInt8 := 59

def equals : UInt8 := 61

def question : UInt8 := 63

def isControl (b : UInt8) : Bool := b < 0x20 || b = 0x7f

def unhex (b : UInt8) : Option UInt8 :=
  if 48 ≤ b ∧ b ≤ 57 then some (b - 48)
  else if 97 ≤ b ∧ b ≤ 102 then some (b - 97 + 10)
  else if 65 ≤ b ∧ b ≤ 70 then some (b - 65 + 10)
  else none

def queryUnescape : Bytes → Option Bytes
  | [] => some []
  | b :: rest =>
    if b = percent then
      match rest with
      | high :: low :: rest =>
        match unhex high, unhex low with
        | some h, some l => (queryUnescape rest).map ((h * 16 + l) :: ·)
        | _, _ => none
      | _ => none
    else (queryUnescape rest).map ((if b = plus then space else b) :: ·)

variable {b : UInt8} {rest out bs piece key value text before method : Bytes} {n : Nat}

theorem queryUnescape_cons (literal : b ≠ percent) (rest : Bytes) :
    queryUnescape (b :: rest) = (queryUnescape rest).map ((if b = plus then space else b) :: ·) := by
  rw [queryUnescape.eq_def]
  simp [literal]

theorem queryUnescape_percent (decoded : queryUnescape (percent :: rest) = some out) :
    ∃ high low rest' b out', rest = high :: low :: rest' ∧ queryUnescape rest' = some out' ∧ out = b :: out' := by
  rw [queryUnescape.eq_def] at decoded
  simp only [if_true] at decoded
  split at decoded
  · split at decoded
    · obtain ⟨out', tail, rfl⟩ := Option.map_eq_some_iff.mp decoded
      exact ⟨_, _, _, _, out', rfl, tail, rfl⟩
    · cases decoded
  · cases decoded

theorem length_queryUnescape_le (decoded : queryUnescape bs = some out) : out.length ≤ bs.length := by
  fun_induction queryUnescape bs generalizing out with
  | case1 =>
    cases decoded
    exact Nat.le_refl _
  | case2 high low rest h l _ _ ih =>
    obtain ⟨out', tail, rfl⟩ := Option.map_eq_some_iff.mp decoded
    have shorter := ih tail
    simp only [length_cons]
    omega
  | case3 | case4 => cases decoded
  | case5 b rest _ ih =>
    obtain ⟨out', tail, rfl⟩ := Option.map_eq_some_iff.mp decoded
    exact Nat.succ_le_succ (ih tail)

theorem queryUnescape_self_iff : queryUnescape bs = some bs ↔ percent ∉ bs ∧ plus ∉ bs := by
  induction bs with
  | nil => simp [queryUnescape]
  | cons b rest ih =>
    by_cases escape : b = percent
    · subst escape
      simp only [mem_cons, true_or, not_true_eq_false, false_and, iff_false]
      intro decoded
      obtain ⟨high, low, rest', b, out', rfl, tail, same⟩ := queryUnescape_percent decoded
      have shorter := length_queryUnescape_le tail
      have length := congrArg List.length same
      simp only [length_cons] at length
      omega
    rw [queryUnescape_cons escape]
    by_cases blank : b = plus
    · subst blank
      have other : space ≠ plus := by decide
      simp [other]
    · simp [blank, ih, Ne.symm escape, Ne.symm blank]

abbrev Values := List (Bytes × Bytes)

-- A piece that cannot be read is left out; the error it gives is dropped by `URL.Query`.
def pair (piece : Bytes) : Option (Bytes × Bytes) :=
  if semicolon ∈ piece ∨ piece = [] then none
  else
    let parts := (cut equals piece).getD (piece, [])
    match queryUnescape parts.1, queryUnescape parts.2 with
    | some key, some value => some (key, value)
    | _, _ => none

def parseQuery (query : Bytes) : Values := (query.splitOn ampersand).filterMap pair

def Values.get (values : Values) (key : Bytes) : Bytes := ((values.find? (·.1 = key)).map Prod.snd).getD []

theorem pair_eq_some (read : pair piece = some (key, value)) :
    semicolon ∉ piece ∧ queryUnescape ((cut equals piece).getD (piece, [])).1 = some key ∧
      queryUnescape ((cut equals piece).getD (piece, [])).2 = some value := by
  unfold pair at read
  split at read
  · cases read
  · next sound =>
      simp only at read
      split at read
      · next first second =>
          cases read
          exact ⟨fun member => sound (.inl member), first, second⟩
      · cases read

theorem pair_length (read : pair piece = some (key, value)) (nonempty : value ≠ []) :
    key.length + 1 + value.length ≤ piece.length := by
  obtain ⟨-, first, second⟩ := pair_eq_some read
  cases split : cut equals piece with
  | none =>
    rw [split] at second
    cases second
    exact absurd rfl nonempty
  | some parts =>
    rw [split] at first second
    obtain ⟨whole, -⟩ := cut_eq_some.mp split
    have before := length_queryUnescape_le first
    have after := length_queryUnescape_le second
    rw [whole, length_append, length_cons]
    simp only [Option.getD_some] at before after
    omega

def reserved : List UInt8 := [percent, ampersand, plus, semicolon]

theorem queryUnescape_plain (plain : ∀ b ∈ key, b ∉ equals :: reserved) : queryUnescape key = some key := by
  apply queryUnescape_self_iff.mpr
  exact ⟨fun member => plain _ member (by simp [reserved]), fun member => plain _ member (by simp [reserved])⟩

theorem pair_self_iff (plain : ∀ b ∈ key, b ∉ equals :: reserved) :
    pair (key ++ equals :: value) = some (key, value) ↔ percent ∉ value ∧ plus ∉ value ∧ semicolon ∉ value := by
  have split : cut equals (key ++ equals :: value) = some (key, value) :=
    cut_append (fun member => plain _ member (by simp)) value
  have keySelf : queryUnescape key = some key := queryUnescape_plain plain
  constructor
  · intro read
    obtain ⟨sound, -, second⟩ := pair_eq_some read
    rw [split] at second
    obtain ⟨unescaped, unspaced⟩ := queryUnescape_self_iff.mp second
    exact ⟨unescaped, unspaced, fun member => sound (by simp [member])⟩
  · rintro ⟨unescaped, unspaced, sound⟩
    have valueSelf := queryUnescape_self_iff.mpr ⟨unescaped, unspaced⟩
    have keySound : semicolon ∉ key := fun member => plain _ member (by simp [reserved])
    have other : semicolon ≠ equals := by decide
    simp [pair, split, keySelf, valueSelf, keySound, sound, other]

theorem length_of_mem_splitOn {a : UInt8} (member : piece ∈ bs.splitOn a) : piece.length + bs.count a ≤ bs.length := by
  induction bs generalizing piece with
  | nil =>
    obtain rfl : piece = [] := by simpa using member
    simp
  | cons b bs ih =>
    rw [splitOn_cons_eq_if_modifyHead] at member
    by_cases separator : b = a
    · subst separator
      simp only [beq_self_eq_true, if_true, mem_cons] at member
      obtain rfl | later := member
      · simpa using count_le_length
      · have shorter := ih later
        simp only [count_cons_self, length_cons]
        omega
    · simp only [beq_iff_eq, separator, if_false] at member
      rw [count_cons_of_ne separator, length_cons]
      cases pieces : bs.splitOn a with
      | nil => exact absurd pieces (splitOn_ne_nil a bs)
      | cons first others =>
        rw [pieces, modifyHead_cons, mem_cons] at member
        obtain rfl | later := member
        · have shorter := ih (pieces ▸ mem_cons_self)
          rw [length_cons]
          omega
        · have shorter := ih (pieces ▸ mem_cons_of_mem first later)
          omega

theorem get_parseQuery_length {query : Bytes} (nonempty : (parseQuery query).get key ≠ []) :
    key.length + 1 + ((parseQuery query).get key).length + query.count ampersand ≤ query.length := by
  unfold Values.get at nonempty ⊢
  cases found : (parseQuery query).find? (·.1 = key) with
  | none => simp [found] at nonempty
  | some entry =>
    obtain ⟨key', value⟩ := entry
    obtain rfl : key' = key := by simpa using List.find?_some found
    obtain ⟨piece, member, read⟩ := mem_filterMap.mp (mem_of_find?_eq_some found)
    rw [found] at nonempty
    have within := length_of_mem_splitOn member
    have longer := pair_length read nonempty
    simp only [Option.map_some, Option.getD_some]
    omega

theorem get_parseQuery_iff (plain : ∀ b ∈ key, b ∉ equals :: reserved) (nonempty : value ≠ []) :
    (parseQuery (key ++ equals :: value)).get key = value ↔ ∀ b ∈ value, b ∉ reserved := by
  have keyWhole : ampersand ∉ key := fun member => plain _ member (by simp [reserved])
  have keySelf : queryUnescape key = some key := queryUnescape_plain plain
  have other : ampersand ≠ equals := by decide
  by_cases several : ampersand ∈ value
  · constructor
    · intro same
      have shorter := get_parseQuery_length (same ▸ nonempty)
      have separators : 0 < (key ++ equals :: value).count ampersand := count_pos_iff.mpr (by simp [several])
      rw [same, length_append, length_cons] at shorter
      omega
    · exact fun clean => absurd (by simp [reserved]) (clean _ several)
  · have single : parseQuery (key ++ equals :: value) = (pair (key ++ equals :: value)).toList := by
      rw [parseQuery, splitOn_eq_singleton (by simp [keyWhole, several, other])]
      cases read : pair (key ++ equals :: value) <;> simp [read]
    have found : (parseQuery (key ++ equals :: value)).get key = value ↔
        pair (key ++ equals :: value) = some (key, value) := by
      rw [single]
      cases read : pair (key ++ equals :: value) with
      | none => simp [Values.get, Ne.symm nonempty]
      | some entry =>
        obtain ⟨key', value'⟩ := entry
        obtain ⟨-, first, -⟩ := pair_eq_some read
        rw [cut_append (fun member => plain _ member (by simp)) value] at first
        obtain rfl : key = key' := by simpa [keySelf] using first
        simp [Values.get]
    rw [found, pair_self_iff plain]
    constructor
    · rintro ⟨unescaped, unspaced, sound⟩ b member known
      simp only [reserved, mem_cons, not_mem_nil, or_false] at known
      obtain rfl | rfl | rfl | rfl := known
      · exact unescaped member
      · exact several member
      · exact unspaced member
      · exact sound member
    · intro clean
      exact ⟨fun member => clean _ member (by simp [reserved]), fun member => clean _ member (by simp [reserved]),
        fun member => clean _ member (by simp [reserved])⟩

structure Locator (Loc : Type*) where
  read : Bytes → Option Loc
  resolve : Loc → Loc → Loc
  write : Loc → Bytes
  empty : Loc → Bool
  target : Loc → Bytes
  accepts : Bytes → Bool
  escapeFragment : Bytes → Option Bytes
  write_plain : ∀ l, ∀ b ∈ write l, isControl b = false ∧ b ≠ hash ∧ b ≠ question
  target_plain : ∀ l, ∀ b ∈ target l, isControl b = false ∧ b ≠ question

def PlainQuery (query : Bytes) : Prop := ∀ b ∈ query, isControl b = false ∧ b ≠ hash

structure URL (Loc : Type*) where
  location : Loc
  forceQuery : Bool := false
  rawQuery : Bytes := []
  fragment : Bytes := []
  plain : PlainQuery rawQuery

def beforeHash (text : Bytes) : Bytes := ((cut hash text).getD (text, [])).1

def afterHash (text : Bytes) : Bytes := ((cut hash text).getD (text, [])).2

theorem beforeHash_leading (text : Bytes) : beforeHash text <+: text := by
  unfold beforeHash
  cases split : cut hash text with
  | none => exact prefix_rfl
  | some parts =>
    obtain ⟨whole, -⟩ := cut_eq_some.mp split
    rw [whole]
    exact prefix_append _ _

theorem hash_not_mem_beforeHash (text : Bytes) : hash ∉ beforeHash text := by
  unfold beforeHash
  cases split : cut hash text with
  | none => exact cut_eq_none.mp split
  | some parts => exact (cut_eq_some.mp split).2

def locationOf (text : Bytes) : Bytes := ((cut question text).getD (text, [])).1

def queryOf (text : Bytes) : Bytes := ((cut question text).getD (text, [])).2

theorem infix_queryOf (nonempty : queryOf text ≠ []) : question :: queryOf text <:+: text := by
  unfold queryOf at nonempty ⊢
  cases split : cut question text with
  | none => simp [split] at nonempty
  | some parts =>
    obtain ⟨whole, -⟩ := cut_eq_some.mp split
    exact ⟨parts.1, [], by simp [whole]⟩

theorem mem_of_mem_queryOf (member : b ∈ queryOf text) : b ∈ text :=
  (infix_queryOf (ne_nil_of_mem member)).subset (mem_cons_of_mem _ member)

theorem queryOf_append (absent : question ∉ before) (query : Bytes) :
    queryOf (before ++ question :: query) = query := by
  rw [queryOf, cut_append absent, Option.getD_some]

theorem queryOf_of_absent (absent : question ∉ text) : queryOf text = [] := by
  rw [queryOf, cut_eq_none.mpr absent, Option.getD_none]

theorem beforeHash_append (absent : hash ∉ text) (fragment : Bytes) :
    beforeHash (text ++ if fragment = [] then [] else hash :: fragment) = text := by
  unfold beforeHash
  by_cases empty : fragment = []
  · simp [empty, cut_eq_none.mpr absent]
  · simp [empty, cut_append absent]

theorem beforeHash_of_absent (absent : hash ∉ text) : beforeHash text = text := by
  rw [beforeHash, cut_eq_none.mpr absent, Option.getD_none]

theorem afterHash_of_absent (absent : hash ∉ text) : afterHash text = [] := by
  rw [afterHash, cut_eq_none.mpr absent, Option.getD_none]

theorem locationOf_append (absent : question ∉ before) (query : Bytes) :
    locationOf (before ++ question :: query) = before := by
  rw [locationOf, cut_append absent, Option.getD_some]

theorem locationOf_of_absent (absent : question ∉ text) : locationOf text = text := by
  rw [locationOf, cut_eq_none.mpr absent, Option.getD_none]

namespace URL

variable {Loc : Type*}

def queryText (u : URL Loc) : Bytes := if u.forceQuery ∨ u.rawQuery ≠ [] then question :: u.rawQuery else []

theorem queryText_plain {u : URL Loc} {b : UInt8} (member : b ∈ u.queryText) : isControl b = false ∧ b ≠ hash := by
  unfold queryText at member
  split at member
  · obtain rfl | within := mem_cons.mp member
    · decide
    · exact u.plain b within
  · cases member

theorem split_queryText (u : URL Loc) {before : Bytes} (absent : question ∉ before) :
    locationOf (before ++ u.queryText) = before ∧ queryOf (before ++ u.queryText) = u.rawQuery := by
  unfold queryText
  split
  · exact ⟨locationOf_append absent _, queryOf_append absent _⟩
  · next unwritten =>
      have none : u.rawQuery = [] := by simpa using fun written => unwritten (.inr written)
      rw [append_nil, locationOf_of_absent absent, queryOf_of_absent absent, none]
      exact ⟨rfl, rfl⟩

end URL

namespace Locator

variable {Loc : Type*} (L : Locator Loc)

variable {text : Bytes} {u : URL Loc} {location : Loc}

theorem plainQuery_of_parse (printable : ¬ (beforeHash text).any isControl) :
    PlainQuery (queryOf (beforeHash text)) := by
  intro b member
  have within := mem_of_mem_queryOf member
  constructor
  · exact Bool.eq_false_iff.mpr fun control => printable (any_eq_true.mpr ⟨b, within, control⟩)
  · rintro rfl
    exact hash_not_mem_beforeHash text within

def parse (text : Bytes) : Option (URL Loc) :=
  if printable : (beforeHash text).any isControl then none
  else
    match L.read (locationOf (beforeHash text)),
        if afterHash text = [] then some [] else L.escapeFragment (afterHash text) with
    | some location, some fragment => some
        { location := location
          forceQuery := decide (cut question (beforeHash text) = some (locationOf (beforeHash text), []))
          rawQuery := queryOf (beforeHash text)
          fragment := fragment
          plain := plainQuery_of_parse printable }
    | _, _ => none

def resolveReference (base ref : URL Loc) : URL Loc :=
  if L.empty ref.location ∧ ¬ ref.forceQuery ∧ ref.rawQuery = [] then
    { base with
      location := L.resolve base.location ref.location
      forceQuery := false
      fragment := if ref.fragment = [] then base.fragment else ref.fragment }
  else { ref with location := L.resolve base.location ref.location }

def string (u : URL Loc) : Bytes :=
  L.write u.location ++ u.queryText ++ if u.fragment = [] then [] else hash :: u.fragment

def requestURI (u : URL Loc) : Bytes := L.target u.location ++ u.queryText

def parseRequestURI (text : Bytes) : Option Bytes :=
  if text.any isControl ∨ ¬ L.accepts (locationOf text) then none else some (queryOf text)

variable {L}

theorem parse_eq_some (parsed : L.parse text = some u) :
    (∀ b ∈ beforeHash text, isControl b = false) ∧ L.read (locationOf (beforeHash text)) = some u.location ∧
      u.rawQuery = queryOf (beforeHash text) := by
  unfold parse at parsed
  split at parsed
  · cases parsed
  · next printable =>
      split at parsed
      · next read _ =>
          cases parsed
          exact ⟨by simpa using printable, read, rfl⟩
      · cases parsed

theorem parse_of_read (plain : PlainQuery text) (read : L.read (locationOf text) = some location) :
    ∃ u, L.parse text = some u ∧ u.location = location ∧ u.rawQuery = queryOf text ∧ u.fragment = [] := by
  have absent : hash ∉ text := fun member => (plain _ member).2 rfl
  have printable : ¬ text.any isControl := by simpa using fun b member => (plain b member).1
  unfold parse
  simp [beforeHash_of_absent absent, afterHash_of_absent absent, printable, read]

theorem beforeHash_string (u : URL Loc) : beforeHash (L.string u) = L.write u.location ++ u.queryText := by
  apply beforeHash_append
  intro member
  obtain location | query := mem_append.mp member
  · exact (L.write_plain _ _ location).2.1 rfl
  · exact (URL.queryText_plain query).2 rfl

theorem split_string (u : URL Loc) :
    locationOf (beforeHash (L.string u)) = L.write u.location ∧ queryOf (beforeHash (L.string u)) = u.rawQuery := by
  rw [beforeHash_string]
  exact u.split_queryText fun member => (L.write_plain _ _ member).2.2 rfl

theorem rawQuery_of_parse_string {v : URL Loc} (parsed : L.parse (L.string u) = some v) : v.rawQuery = u.rawQuery := by
  rw [(parse_eq_some parsed).2.2, (split_string u).2]

theorem parse_string (read : L.read (L.write u.location) = some location) (whole : u.fragment = []) :
    ∃ v, L.parse (L.string u) = some v ∧ v.location = location ∧ v.rawQuery = u.rawQuery := by
  have unmarked : L.string u = L.write u.location ++ u.queryText := by simp [string, whole]
  have plain : PlainQuery (L.string u) := by
    intro b member
    rw [unmarked] at member
    obtain within | query := mem_append.mp member
    · exact ⟨(L.write_plain _ _ within).1, (L.write_plain _ _ within).2.1⟩
    · exact URL.queryText_plain query
  have split := split_string (L := L) u
  rw [beforeHash_of_absent fun member => (plain _ member).2 rfl] at split
  obtain ⟨v, parsed, same, query, -⟩ := parse_of_read plain (split.1.symm ▸ read)
  exact ⟨v, parsed, same, query.trans split.2⟩

theorem parseRequestURI_requestURI (u : URL Loc) :
    L.parseRequestURI (L.requestURI u) = if L.accepts (L.target u.location) then some u.rawQuery else none := by
  have split := u.split_queryText fun member => (L.target_plain u.location _ member).2 rfl
  have printable : ¬ (L.requestURI u).any isControl := by
    rw [any_eq_true]
    rintro ⟨b, member, control⟩
    obtain within | query := mem_append.mp member
    · rw [(L.target_plain _ _ within).1] at control
      cases control
    · rw [(URL.queryText_plain query).1] at control
      cases control
  unfold parseRequestURI
  rw [requestURI] at printable ⊢
  by_cases accepted : L.accepts (L.target u.location)
  · simp [printable, split, accepted]
  · simp [split, accepted]

end Locator

inductive Proto where
  | http1
  | http2
  deriving DecidableEq

def isDigit (b : UInt8) : Bool := 48 ≤ b && b ≤ 57

def parseHTTPVersion (proto : Bytes) : Bool :=
  match proto with
  | [h, t, t', p, slash, major, dot, minor] =>
    [h, t, t', p, slash] = ofString "HTTP/" ∧ isDigit major ∧ dot = 46 ∧ isDigit minor
  | _ => false

def requestLine (method target : Bytes) : Bytes := method ++ space :: (target ++ space :: ofString "HTTP/1.1")

def parseRequestLine (line : Bytes) : Option Bytes :=
  match cut space line with
  | none => none
  | some (_, rest) => match cut space rest with
      | none => none
      | some (target, proto) => if parseHTTPVersion proto then some target else none

theorem length_of_parseHTTPVersion {proto : Bytes} (read : parseHTTPVersion proto) : proto.length = 8 := by
  unfold parseHTTPVersion at read
  split at read
  · rfl
  · cases read

theorem parseRequestLine_requestLine (word : space ∉ method) (target : Bytes) :
    parseRequestLine (requestLine method target) = if space ∈ target then none else some target := by
  unfold parseRequestLine requestLine
  rw [cut_append word]
  by_cases several : space ∈ target
  · obtain ⟨first, more, rfl, whole⟩ := eq_append_cons_of_mem several
    have split : cut space (first ++ space :: (more ++ space :: ofString "HTTP/1.1")) =
        some (first, more ++ space :: ofString "HTTP/1.1") := cut_append whole _
    have long : ¬ parseHTTPVersion (more ++ space :: ofString "HTTP/1.1") := by
      intro read
      have length := length_of_parseHTTPVersion read
      simp only [length_append, length_cons, show (ofString "HTTP/1.1").length = 8 from rfl] at length
      omega
    simp [split, long]
  · have version : parseHTTPVersion (ofString "HTTP/1.1") := by decide
    simp [cut_append several, several, version]

def Proto.deliver (proto : Proto) (method target : Bytes) : Option Bytes :=
  match proto with
  | .http1 => parseRequestLine (requestLine method target)
  | .http2 => some target

def Passes (proto : Proto) (text : Bytes) : Prop := proto = .http1 → space ∉ text

theorem Proto.deliver_eq_some_iff {proto : Proto} {target received : Bytes} (word : space ∉ method) :
    proto.deliver method target = some received ↔ received = target ∧ Passes proto target := by
  cases proto with
  | http1 =>
    rw [deliver, parseRequestLine_requestLine word]
    by_cases several : space ∈ target
    · simp [Passes, several]
    · simp [Passes, several, eq_comm]
  | http2 => simp [deliver, Passes, eq_comm]

namespace Locator

variable {Loc : Type*} (L : Locator Loc)

def request (proto : Proto) (method url : Bytes) : Option Values :=
  (L.parse url).bind fun u =>
    ((proto.deliver method (L.requestURI u)).bind L.parseRequestURI).map parseQuery

variable {L} {proto : Proto} {method : Bytes}

variable {u : URL Loc}

theorem request_string_eq_some {values : Values} (word : space ∉ method)
    (answered : L.request proto method (L.string u) = some values) :
    values = parseQuery u.rawQuery ∧ Passes proto u.rawQuery := by
  simp only [request, Option.bind_eq_some_iff, Option.map_eq_some_iff] at answered
  obtain ⟨v, parsed, query, ⟨target, delivered, read⟩, rfl⟩ := answered
  obtain ⟨rfl, passes⟩ := (Proto.deliver_eq_some_iff word).mp delivered
  rw [parseRequestURI_requestURI] at read
  have same : v.rawQuery = u.rawQuery := rawQuery_of_parse_string parsed
  split at read
  · cases read
    refine ⟨by rw [same], fun old member => passes old ?_⟩
    rw [← same] at member
    have written : v.rawQuery ≠ [] := ne_nil_of_mem member
    simp [requestURI, URL.queryText, written, member]
  · cases read

theorem request_string {location : Loc} (word : space ∉ method)
    (read : L.read (L.write u.location) = some location) (whole : u.fragment = [])
    (accepted : L.accepts (L.target location)) (solid : space ∉ L.target location) (passes : Passes proto u.rawQuery) :
    L.request proto method (L.string u) = some (parseQuery u.rawQuery) := by
  obtain ⟨v, parsed, rfl, query⟩ := parse_string read whole
  have delivered : proto.deliver method (L.requestURI v) = some (L.requestURI v) := by
    refine (Proto.deliver_eq_some_iff word).mpr ⟨rfl, fun old member => ?_⟩
    obtain target | written := mem_append.mp member
    · exact solid target
    · unfold URL.queryText at written
      split at written
      · obtain blank | within := mem_cons.mp written
        · exact absurd blank (by decide)
        · exact passes old (query ▸ within)
      · cases written
  simp [request, parsed, delivered, parseRequestURI_requestURI, accepted, query]

end Locator

def Bounded (n : Nat) (text : Bytes) : Prop :=
  ∀ query, question :: query <:+: text → (∀ b ∈ query, isControl b = false) → query.length < n

theorem Bounded.part {part : Bytes} (bounded : Bounded n text) (within : part <:+: text) : Bounded n part :=
  fun query inside printable => bounded query (inside.trans within) printable

theorem Bounded.append {left right : Bytes} (first : Bounded n left) (second : Bounded n right)
    (control : isControl b) : Bounded n (left ++ b :: right) := by
  intro query inside printable
  obtain within | within | ⟨front, back, split, ends, starts⟩ := infix_append_iff.mp inside
  · exact first query within printable
  · obtain starts | within := infix_cons_iff.mp within
    · obtain rfl := (cons_prefix_cons.mp starts).1
      exact absurd control (by decide)
    · exact second query within printable
  · cases back with
    | nil =>
      rw [append_nil] at split
      exact first query (split ▸ ends.isInfix) printable
    | cons c back =>
      obtain ⟨rfl, -⟩ := cons_prefix_cons.mp starts
      cases front with
      | nil =>
        obtain rfl : question = c := (List.cons.inj split).1
        exact absurd control (by decide)
      | cons d front =>
        have member : c ∈ query := by
          rw [(List.cons.inj split).2]
          simp
        rw [printable c member] at control
        cases control

theorem Bounded.of_length (short : text.length ≤ n) : Bounded n text := by
  intro query inside _
  have length := inside.length_le
  rw [length_cons] at length
  omega

theorem Bounded.of_clean (clean : question ∉ before) (short : rest.length ≤ n) : Bounded n (before ++ rest) := by
  intro query inside _
  obtain within | within | ⟨front, back, split, ends, starts⟩ := infix_append_iff.mp inside
  · exact absurd (within.subset mem_cons_self) clean
  · have length := within.length_le
    rw [length_cons] at length
    omega
  · cases front with
    | nil =>
      have length := starts.length_le
      rw [nil_append] at split
      rw [← split, length_cons] at length
      omega
    | cons c front =>
      obtain rfl : question = c := (List.cons.inj split).1
      exact absurd (ends.subset mem_cons_self) clean

theorem Bounded.rawQuery {Loc : Type*} {L : Locator Loc} {u : URL Loc}
    (bounded : Bounded n (beforeHash text)) (parsed : L.parse text = some u) :
    u.rawQuery = [] ∨ u.rawQuery.length < n := by
  obtain ⟨printable, -, query⟩ := Locator.parse_eq_some parsed
  rw [query]
  by_cases empty : queryOf (beforeHash text) = []
  · exact .inl empty
  · right
    apply bounded
    · exact infix_queryOf empty
    · exact fun b member => printable b (mem_of_mem_queryOf member)

end Mcp.Lib.Url
