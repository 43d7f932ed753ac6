import Mcp.Sse.Stream

namespace Mcp.Sse
open Mcp.Lib Bytes List

section Dial

variable {ρ : Type*} [Source ρ] {s t : Scanner ρ} {rest : Bytes} (parseURL : Bytes → Option Bytes)

theorem scan_raw (r : Raw) (max : s.max = maxSSELine) (content : s.content = r.bytes ++ rest) :
    ∃ t, s.scan = .line r.text t ∧ t.content = rest ∧ t.max = maxSSELine := by
  have short : r.text.length + r.crlf.toNat < s.max := max ▸ r.short
  rw [Raw.bytes] at content
  cases crlf : r.crlf with
  | false =>
    simp only [crlf, ending, Bool.toNat_false, Bool.false_eq_true, if_false, append_assoc,
      singleton_append] at content short
    obtain ⟨t, scan, content', max'⟩ := Scanner.scan_line r.whole short content
    rw [dropCR_of_getLast r.plain] at scan
    exact ⟨t, scan, content', max'.trans max⟩
  | true =>
    have whole : newline ∉ r.text ++ [carriageReturn] := by
      simp [r.whole]
    have content' : s.content = (r.text ++ [carriageReturn]) ++ newline :: rest := by
      simp [content, crlf, ending]
    obtain ⟨t, scan, content', max'⟩ := Scanner.scan_line whole (by simpa [crlf] using short) content'
    rw [dropCR_concat] at scan
    exact ⟨t, scan, content', max'.trans max⟩

theorem scan_end (max : s.max = maxSSELine) (content : s.content = []) : s.scan = .done := by
  have scanned := Scanner.scanned s
  cases scan : s.scan with
  | done => rfl
  | line text t =>
    rw [scan] at scanned
    cases scanned with
    | line whole same => simp [content] at same
    | last whole nonempty same => exact absurd (same.symm.trans content) nonempty
  | tooLong =>
    rw [scan] at scanned
    cases scanned with
    | tooLong whole starts long =>
      rw [content, prefix_nil] at starts
      rw [starts, max] at long
      cases long

theorem dialLoop_line {line : Bytes} (scan : s.scan = .line line t) :
    dialLoop parseURL s =
      if startsWith "event: endpoint" line then
        match t.scan with
        | .line dataLine u =>
          if startsWith "data: " dataLine then
            match parseURL (trimSpace (dataLine.drop 6)) with
            | some postURL => .ok (postURL, u)
            | none => .error (.invalidURL (trimSpace (dataLine.drop 6)))
          else .error (.expectedData dataLine)
        | .done | .tooLong => .error .unexpectedEOF
      else dialLoop parseURL t := by
  rw [dialLoop]
  split
  · next line' t' scan' =>
      cases scan.symm.trans scan'
      rfl
  · next scan' => cases scan.symm.trans scan'
  · next scan' => cases scan.symm.trans scan'

theorem dialLoop_skip {raws : List Raw} (other : ∀ r ∈ raws, ¬ startsWith "event: endpoint" r.text)
    (max : s.max = maxSSELine) (content : s.content = raws.flatMap Raw.bytes ++ rest) :
    dialLoop parseURL s = dialLoop parseURL (s.after raws.length) ∧ (s.after raws.length).content = rest ∧
      (s.after raws.length).max = maxSSELine := by
  induction raws generalizing s with
  | nil => exact ⟨rfl, content, max⟩
  | cons r raws ih =>
    rw [forall_mem_cons] at other
    rw [flatMap_cons, append_assoc] at content
    obtain ⟨t, scan, content', max'⟩ := scan_raw r max content
    rw [dialLoop_line parseURL scan, if_neg other.1, length_cons, Scanner.after_succ scan]
    exact ih other.2 max' content'

theorem dialLoop_end (max : s.max = maxSSELine) (content : s.content = []) :
    dialLoop parseURL s = .error .noEndpoint := by
  have done := scan_end max content
  rw [dialLoop]
  split
  · next scan => cases done.symm.trans scan
  · rfl
  · next scan => cases done.symm.trans scan

theorem dialLoop_found {event data : Raw} (starts : startsWith "event: endpoint" event.text)
    (max : s.max = maxSSELine) (content : s.content = event.bytes ++ (data.bytes ++ rest)) :
    dialLoop parseURL s = (if startsWith "data: " data.text then
        match parseURL (trimSpace (data.text.drop 6)) with
        | some postURL => .ok (postURL, s.after 2)
        | none => .error (.invalidURL (trimSpace (data.text.drop 6)))
      else .error (.expectedData data.text)) ∧
      (s.after 2).content = rest := by
  obtain ⟨t, scan, content', max'⟩ := scan_raw event max content
  obtain ⟨u, scan', content'', -⟩ := scan_raw data max' content'
  have second : s.after 2 = u := by
    rw [Scanner.after_succ scan, Scanner.after_succ scan']
    rfl
  rw [dialLoop_line parseURL scan, if_pos starts, scan', second]
  exact ⟨rfl, content''⟩

end Dial

theorem Message.not_endpoint (messages : List Message) :
    ∀ r ∈ Message.raws messages, ¬ startsWith "event: endpoint" r.text := by
  intro r member starts
  obtain ⟨m, -, member⟩ := mem_flatMap.mp member
  rw [Block.raws, mem_append, mem_map, mem_singleton] at member
  obtain ⟨l, within, rfl⟩ | rfl := member
  · obtain ⟨rest, text⟩ := isPrefixOf_iff_prefix.mp starts
    have split : cut colon l.text = some (ofString "event", ofString " endpoint" ++ rest) :=
      cut_eq_some.mpr ⟨text.symm, by decide⟩
    rw [cut_of_mem l.field, Option.some.injEq, Prod.mk.injEq] at split
    have value : l.value = trimRight (ofString "endpoint" ++ rest) := by
      rw [Line.value, Line.rest, split.2]
      rfl
    have name : l.name = ofString "event" := split.1
    have named : l.value = ofString "message" := by
      apply m.named
      exact mem_map_of_mem (mem_filter.mpr ⟨within, by simp [name]⟩)
    have starts := trimRight_leading (ofString "endpoint" ++ rest)
    rw [← value, named] at starts
    cases cons_prefix_cons.mp starts |>.1
  · cases starts

variable {ρ : Type*} [Source ρ] (parseURL : Bytes → Option Bytes) (body : ρ)

def dialScanner : Scanner (Reader ρ) := Scanner.new { source := body } scanBufferSize maxSSELine

/-- How much `Dial` has read beyond the first lines. -/
def readAhead (n : Nat) : Nat := ((dialScanner body).after n).pending.length

/-- `Dial` succeeds and the messages come out of `Read`. -/
def HandsOver (messages : List Bytes) : Prop :=
  ∃ url first, dial parseURL body = .ok (url, first) ∧ Delivers (loopLines first.source) messages

variable {endpoint : Endpoint} {messages : List Message}

theorem content_dialScanner {body : ρ}
    (stream : Source.rest body = endpoint.block.bytes ++ messages.flatMap (·.block.bytes)) :
    (dialScanner body).content = endpoint.block.raws.flatMap Raw.bytes ++
      (Message.raws messages).flatMap Raw.bytes := by
  have content : (dialScanner body).content = Source.rest body := rfl
  rw [content, stream, Message.raws, flatMap_assoc]
  simp only [Block.raws_bytes]

structure Found (endpoint : Endpoint) (before : List Line) (event data : Line) (after : List Line) : Prop where
  lines : endpoint.block.lines = before ++ event :: data :: after
  first : ∀ l ∈ before, ¬ startsWith "event: endpoint" l.text
  event : startsWith "event: endpoint" event.text
  data : startsWith "data: " data.text

namespace Found

variable {parseURL body} {endpoint : Endpoint} {messages : List Message} {before after : List Line} {event data : Line}

theorem split (found : Found endpoint before event data after) : ∃ rest, data.rest = 32 :: rest ∧
    data.text.drop 6 = rest ∧ data.name = ofString "data" := by
  obtain ⟨rest, text⟩ := isPrefixOf_iff_prefix.mp found.data
  have split : cut colon data.text = some (ofString "data", 32 :: rest) :=
    cut_eq_some.mpr ⟨text.symm, by decide⟩
  rw [cut_of_mem data.field, Option.some.injEq, Prod.mk.injEq] at split
  refine ⟨rest, split.2, ?_, split.1⟩
  rw [← text]
  rfl

theorem only (found : Found endpoint before event data after) :
    data.value = endpoint.path ∧ ∀ l ∈ after, dataOf l.text = none := by
  obtain ⟨rest, -, -, name⟩ := found.split
  have values := endpoint.data
  have here : dataOf data.text = some data.value := by rw [data.dataOf_text, if_pos name]
  rw [← Block.filterMap_dataOf, found.lines, ← singleton_append, ← append_assoc, List.map_append,
    filterMap_append, List.map_cons, filterMap_cons, here, append_eq_cons_iff] at values
  obtain ⟨-, same⟩ | ⟨others, -, same⟩ := values
  · rw [List.cons.injEq, filterMap_eq_nil_iff] at same
    exact ⟨same.1, by simpa using same.2⟩
  · simp at same

variable {url : Bytes} (found : Found endpoint before event data after) (valid : parseURL endpoint.path = some url)
  (stream : Source.rest body = endpoint.block.bytes ++ messages.flatMap (·.block.bytes))

include found valid stream

theorem dial :
    Sse.dial parseURL body = .ok (url, (dialScanner body).after (before.length + 2)) ∧
      ((dialScanner body).after (before.length + 2)).content =
        (following after endpoint.block.crlf messages).flatMap Raw.bytes := by
  obtain ⟨rest, rest', text, -⟩ := found.split
  have path : trimSpace (data.text.drop 6) = endpoint.path := by
    rw [text, ← trimSpace_cons, ← rest']
    exact found.only.1
  have content : (dialScanner body).content = (before.map Line.raw).flatMap Raw.bytes ++
      (event.raw.bytes ++ (data.raw.bytes ++ (following after endpoint.block.crlf messages).flatMap Raw.bytes)) := by
    rw [content_dialScanner stream, Block.raws, found.lines]
    simp [following]
  have other : ∀ r ∈ before.map Line.raw, ¬ startsWith "event: endpoint" r.text := by
    simpa [Line.raw] using found.first
  obtain ⟨skipped, content', max⟩ := dialLoop_skip parseURL other rfl content
  obtain ⟨dialled, content''⟩ := dialLoop_found parseURL found.event max content'
  rw [data.raw_text, if_pos found.data, path, valid] at dialled
  rw [length_map] at skipped dialled content''
  rw [Scanner.after_add]
  exact ⟨skipped.trans dialled, content''⟩

theorem loopLines : Sse.loopLines ((dialScanner body).after (before.length + 2)).source =
    Bytes.lines (((following after endpoint.block.crlf messages).flatMap Raw.bytes).drop
        (readAhead body (before.length + 2))) := by
  have rest : Source.rest ((dialScanner body).after (before.length + 2)).source =
      ((following after endpoint.block.crlf messages).flatMap Raw.bytes).drop (readAhead body (before.length + 2)) := by
    rw [← (found.dial valid stream).2, Scanner.content, readAhead, drop_left]
  rw [Sse.loopLines, Scanner.tokens_eq]
  · exact congrArg Bytes.lines rest
  · have short := (shortLines_raws (following after endpoint.block.crlf messages)).drop
      (readAhead body (before.length + 2))
    rw [← rest] at short
    exact short

end Found

theorem found_of_dial (stream : Source.rest body = endpoint.block.bytes ++ messages.flatMap (·.block.bytes))
    {result : Bytes × Scanner (Reader ρ)} (dialled : dial parseURL body = .ok result) :
    ∃ before event data after, Found endpoint before event data after := by
  have content := content_dialScanner stream
  rw [Block.raws, flatMap_append, append_assoc] at content
  cases search : endpoint.block.lines.find? (startsWith "event: endpoint" ·.text) with
  | none =>
    have other : ∀ r ∈ endpoint.block.raws ++ Message.raws messages, ¬ startsWith "event: endpoint" r.text := by
      rw [List.find?_eq_none] at search
      rw [Block.raws, forall_mem_append, forall_mem_append]
      refine ⟨⟨by simpa [Line.raw] using search, ?_⟩, Message.not_endpoint messages⟩
      simp only [mem_singleton, forall_eq]
      rintro ⟨⟩
    have all : (dialScanner body).content =
        (endpoint.block.raws ++ Message.raws messages).flatMap Raw.bytes ++ [] := by
      rw [flatMap_append, append_nil, content_dialScanner stream]
    obtain ⟨skipped, content', max⟩ := dialLoop_skip parseURL other rfl all
    cases dialled.symm.trans (skipped.trans (dialLoop_end parseURL max content'))
  | some event =>
    obtain ⟨starts, before, rest, lines, other⟩ := List.find?_eq_some_iff_append.mp search
    have other' : ∀ r ∈ before.map Line.raw, ¬ startsWith "event: endpoint" r.text := by
      simpa [Line.raw] using other
    rw [lines, List.map_append, flatMap_append, append_assoc, List.map_cons, flatMap_cons,
      append_assoc] at content
    obtain ⟨skipped, content', max⟩ := dialLoop_skip parseURL other' rfl content
    have dialled' := skipped.symm.trans dialled
    cases rest with
    | nil =>
      rw [List.map_nil, flatMap_nil, nil_append, flatMap_singleton] at content'
      rw [(dialLoop_found parseURL starts max content').1] at dialled'
      cases dialled'
    | cons data after =>
      rw [List.map_cons, flatMap_cons, append_assoc] at content'
      rw [(dialLoop_found parseURL starts max content').1] at dialled'
      refine ⟨before, event, data, after, lines, by simpa using other, starts, ?_⟩
      by_contra unexpected
      rw [data.raw_text, if_neg unexpected] at dialled'
      cases dialled'

/-- What follows the endpoint event comes out of `Read` if and only if `Dial` recognises the endpoint
event and what it has read ahead holds no data, every event has one data line, and from the eleventh on
no event line comes after the data line. -/
theorem handsOver_iff (endpoint : Endpoint) (messages : List Message) (url : Bytes)
    (valid : parseURL endpoint.path = some url)
    (stream : Source.rest body = endpoint.block.bytes ++ messages.flatMap (·.block.bytes)) :
    HandsOver parseURL body (messages.map (·.block.event.data)) ↔
      (∀ m ∈ messages, m.Single) ∧ (∀ i m, messages[i]? = some m → m.block.late → i < readChanCap) ∧
        ∃ before event data after, Found endpoint before event data after ∧
          (cutAt (readAhead body (before.length + 2)) (following after endpoint.block.crlf messages)).Harmless := by
  constructor
  · rintro ⟨url', first, dialled, delivered⟩
    obtain ⟨before, event, data, after, found⟩ := found_of_dial parseURL body stream dialled
    cases (found.dial valid stream).1.symm.trans dialled
    rw [found.loopLines valid stream, delivers_left_iff _ _ found.only.2] at delivered
    exact ⟨delivered.1, delivered.2.1, before, event, data, after, found, delivered.2.2⟩
  · rintro ⟨single, inTime, before, event, data, after, found, harmless⟩
    refine ⟨url, _, (found.dial valid stream).1, ?_⟩
    rw [found.loopLines valid stream, delivers_left_iff _ _ found.only.2]
    exact ⟨single, inTime, harmless⟩

/-- As long as the buffer has room for them, `Dial` makes the reads that bring the lines, and what they bring beyond the
lines is read ahead. -/
theorem readAhead_eq (texts chunks more : List Bytes) (rest : Bytes) (whole : ∀ text ∈ texts, newline ∉ text)
    (nonempty : ∀ chunk ∈ chunks, chunk ≠ []) (bytes : chunks.flatten = texts.flatMap (· ++ [newline]) ++ rest)
    (needed : ∀ last ∈ chunks.getLast?, rest.length < last.length)
    (room : chunks.flatten.length + 4096 ≤ scanBufferSize) :
    readAhead (⟨chunks ++ more⟩ : Chunks) texts.length = rest.length := by
  have fed : Scanner.Fed 4096 (dialScanner (⟨chunks ++ more⟩ : Chunks)) chunks
      (texts.flatMap (· ++ [newline]) ++ rest) :=
    ⟨Reader.yields (Chunks.yields nonempty more 4096), by simpa [dialScanner, Scanner.new] using room, bytes⟩
  obtain ⟨left, fed', before, rfl⟩ := fed.after whole
  obtain rfl | ⟨left, last, rfl⟩ := eq_nil_or_concat left
  · simpa [readAhead] using congrArg List.length fed'.bytes
  · have less := needed last (by simp)
    have length := congrArg List.length fed'.bytes
    simp only [concat_eq_append, flatten_append, flatten_singleton, length_append] at length
    omega

def endpointEvent : Endpoint where
  block := ⟨[⟨ofString "event: endpoint", false, by decide, by decide, by decide, by decide⟩,
    ⟨ofString "data: /m", false, by decide, by decide, by decide, by decide⟩], false⟩
  named := by decide
  path := ofString "/m"
  data := by decide

def messageEvent : Message where
  block := ⟨[{ dataLine with crlf := false, short := by decide }], false⟩
  named := forall_mem_nil _
  data := by decide
  small := by decide

def separateReads : Chunks := ⟨[ofString "event: endpoint\ndata: /m\n\n", ofString "data: 7\n\n"]⟩

def oneRead : Chunks := ⟨[ofString "event: endpoint\ndata: /m\n\ndata: 7\n\n"]⟩

theorem found_endpointEvent : ∃ event data, Found endpointEvent [] event data [] :=
  ⟨_, _, rfl, by decide, by decide, by decide⟩

theorem handsOver_separate_read : HandsOver some separateReads [ofString "7"] := by
  have ahead : readAhead separateReads 2 = 1 :=
    readAhead_eq [ofString "event: endpoint", ofString "data: /m"] [ofString "event: endpoint\ndata: /m\n\n"] _
      [newline]
      (by decide) (by decide) (by decide) (by decide) (by decide)
  obtain ⟨event, data, found⟩ := found_endpointEvent
  refine (handsOver_iff some _ endpointEvent [messageEvent] _ rfl (by decide)).mpr
    ⟨?_, ?_, [], event, data, [], found, ?_⟩
  · simp only [mem_singleton, forall_eq]
    exact rfl
  · intro i m member _
    exact Nat.lt_of_lt_of_le (List.getElem?_eq_some_iff.mp member).1 (by decide)
  · rw [length_nil, ahead]
    decide

theorem handsOver_one_read_fails :
    (∃ first, dial some oneRead = .ok (ofString "/m", first) ∧ loopLines first.source = []) ∧
      ¬ HandsOver some oneRead [ofString "7"] := by
  have stream : Source.rest oneRead = endpointEvent.block.bytes ++ [messageEvent].flatMap (·.block.bytes) := by decide
  have ahead : readAhead oneRead 2 = 10 :=
    readAhead_eq [ofString "event: endpoint", ofString "data: /m"] oneRead.chunks [] (ofString "\ndata: 7\n\n")
      (by decide) (by decide) (by decide) (by decide) (by decide)
  obtain ⟨event, data, found⟩ := found_endpointEvent
  have valid : some endpointEvent.path = some (ofString "/m") := rfl
  have dialled := (found.dial valid stream).1
  have nothing : loopLines ((dialScanner oneRead).after 2).source = [] := by
    have left := found.loopLines valid stream
    rw [length_nil, ahead] at left
    exact left
  refine ⟨⟨_, dialled, nothing⟩, ?_⟩
  rintro ⟨url, first, dialled', delivered⟩
  cases dialled.symm.trans dialled'
  rw [length_nil, nothing] at delivered
  have fits : Fits [] [] := trivial
  cases ((delivers_iff fits _).mp delivered).1

end Mcp.Sse
