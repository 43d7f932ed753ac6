import Mcp.Lib.Bufio

namespace Mcp.Sse
open Mcp.Lib Bytes

structure Event where
  name : Bytes := []
  id : Bytes := []
  data : Bytes := []
  deriving DecidableEq

def Event.empty (e : Event) : Bool := e.name = [] ∧ e.id = [] ∧ e.data = []

inductive ScanError where
  | malformed (line : Bytes)
  | tooLong
  deriving DecidableEq

def colon : UInt8 := 58

structure Collected where
  evt : Event := {}
  dataBuf : Option Bytes := none

namespace Collected

def field (p : Collected) (before after : Bytes) : Collected :=
  if before = ofString "event" then { p with evt := { p.evt with name := trimSpace after } }
  else if before = ofString "id" then { p with evt := { p.evt with id := trimSpace after } }
  else if before = ofString "data" then
    { p with dataBuf := some (match p.dataBuf with
        | some buf => buf ++ newline :: trimSpace after
        | none => trimSpace after) }
  else p

-- The data is attached after the event has been found not to be empty.
def finish (p : Collected) : Option Event :=
  if p.evt.empty then none
  else some (match p.dataBuf with
    | some buf => { p.evt with data := buf }
    | none => p.evt)

end Collected

def scanLines (p : Collected) : List Bytes → List Event × Option ScanError
  | [] => ([], none)
  | line :: lines =>
    if line = [] then
      let rest := scanLines {} lines
      (p.finish.toList ++ rest.1, rest.2)
    else match cut colon line with
      | none => ([], some (.malformed line))
      | some (before, after) => scanLines (p.field before after) lines

def maxTokenSize : Nat := 1 * 1024 * 1024

def scanEvents {ρ : Type*} [Source ρ] (r : ρ) : List Event × Option ScanError :=
  let scanned := (Scanner.new r 0 maxTokenSize).tokens
  let result := scanLines {} scanned.1
  (result.1, result.2.or (if scanned.2 then some .tooLong else none))

structure Line where
  text : Bytes
  crlf : Bool := false
  whole : newline ∉ text
  plain : text.getLast? ≠ some carriageReturn
  field : colon ∈ text
  short : text.length + crlf.toNat < maxTokenSize

def ending (crlf : Bool) : Bytes := if crlf then [carriageReturn, newline] else [newline]

namespace Line

def bytes (l : Line) : Bytes := l.text ++ ending l.crlf

def name (l : Line) : Bytes := l.text.takeWhile (· ≠ colon)

def rest (l : Line) : Bytes := (l.text.dropWhile (· ≠ colon)).tail

def value (l : Line) : Bytes := trimSpace l.rest

end Line

structure Block where
  lines : List Line
  crlf : Bool := false

namespace Block

def bytes (b : Block) : Bytes := b.lines.flatMap Line.bytes ++ ending b.crlf

def values (lines : List Line) (name : String) : List Bytes :=
  (lines.filter (·.name = ofString name)).map Line.value

def event (b : Block) : Event where
  name := (values b.lines "event").getLast?.getD []
  id := (values b.lines "id").getLast?.getD []
  data := [newline].intercalate (values b.lines "data")

def dispatched (b : Block) : Bool :=
  (values b.lines "data" ++ values b.lines "event" ++ values b.lines "id").any (· ≠ [])

end Block

variable {text rest : Bytes}

theorem lines_ending (whole : newline ∉ text) (plain : text.getLast? ≠ some carriageReturn)
    (crlf : Bool) (rest : Bytes) : lines (text ++ ending crlf ++ rest) = text :: lines rest := by
  cases crlf with
  | false => simpa [ending, dropCR_of_getLast plain] using lines_append whole rest
  | true =>
    have whole' : newline ∉ text ++ [carriageReturn] := by
      simp [whole]
    simpa [ending] using lines_append whole' rest

theorem shortLines_ending {max : Nat} (whole : newline ∉ text) (crlf : Bool)
    (short : text.length + crlf.toNat < max) (others : Scanner.ShortLines max rest) :
    Scanner.ShortLines max (text ++ ending crlf ++ rest) := by
  cases crlf with
  | false => simpa [ending] using Scanner.ShortLines.line whole short others
  | true =>
    have whole' : newline ∉ text ++ [carriageReturn] := by
      simp [whole]
    simpa [ending] using Scanner.ShortLines.line whole' (by simpa using short) others

def Block.texts (b : Block) : List Bytes := b.lines.map Line.text ++ [[]]

theorem lines_block (b : Block) (rest : Bytes) : lines (b.bytes ++ rest) = b.texts ++ lines rest := by
  obtain ⟨ls, crlf⟩ := b
  induction ls with
  | nil =>
    simpa [Block.bytes, Block.texts] using lines_ending (List.not_mem_nil) (by simp) crlf rest
  | cons l ls ih =>
    have first := lines_ending l.whole l.plain l.crlf ((Block.mk ls crlf).bytes ++ rest)
    rw [ih] at first
    simpa [Block.bytes, Block.texts, Line.bytes] using first

theorem shortLines_block (b : Block) (others : Scanner.ShortLines maxTokenSize rest) :
    Scanner.ShortLines maxTokenSize (b.bytes ++ rest) := by
  obtain ⟨ls, crlf⟩ := b
  induction ls with
  | nil =>
    have short : ([] : Bytes).length + crlf.toNat < maxTokenSize := by
      cases crlf <;> decide
    simpa [Block.bytes] using shortLines_ending (by simp) crlf short others
  | cons l ls ih =>
    have first := shortLines_ending l.whole l.crlf l.short ih
    simpa [Block.bytes, Line.bytes] using first

theorem lines_blocks (blocks : List Block) : lines (blocks.flatMap Block.bytes) = blocks.flatMap Block.texts := by
  induction blocks with
  | nil => rfl
  | cons b blocks ih => rw [List.flatMap_cons, lines_block, ih, List.flatMap_cons]

theorem shortLines_blocks (blocks : List Block) : Scanner.ShortLines maxTokenSize (blocks.flatMap Block.bytes) := by
  induction blocks with
  | nil => exact .last (by simp) (by decide)
  | cons b blocks ih => exact shortLines_block b ih

theorem scanEvents_eq {ρ : Type*} [Source ρ] {r : ρ} {blocks : List Block}
    (stream : Source.rest r = blocks.flatMap Block.bytes) :
    scanEvents r = scanLines {} (blocks.flatMap Block.texts) := by
  have content : (Scanner.new r 0 maxTokenSize).content = blocks.flatMap Block.bytes := stream
  have tokens := (Scanner.new r 0 maxTokenSize).tokens_eq (content ▸ shortLines_blocks blocks)
  rw [content, lines_blocks] at tokens
  simp [scanEvents, tokens]

theorem intercalate_concat (sep x : Bytes) {xs : List Bytes} (nonempty : xs ≠ []) :
    sep.intercalate (xs ++ [x]) = sep.intercalate xs ++ sep ++ x := by
  induction xs with
  | nil => exact absurd rfl nonempty
  | cons y xs ih =>
    cases xs with
    | nil => simp [List.intercalate]
    | cons z xs =>
      have tail := ih (by simp)
      simp only [List.intercalate, List.cons_append, List.intersperse_cons_cons, List.flatten_cons] at tail ⊢
      simp [tail]

def joined (values : List Bytes) : Option Bytes :=
  if values = [] then none else some ([newline].intercalate values)

theorem joined_concat (values : List Bytes) (value : Bytes) :
    joined (values ++ [value]) = some (match joined values with
      | some buf => buf ++ newline :: value
      | none => value) := by
  by_cases empty : values = []
  · simp [joined, empty, List.intercalate]
  · simp [joined, empty, intercalate_concat [newline] value empty]

theorem values_concat (ls : List Line) (l : Line) (name : String) : Block.values (ls ++ [l]) name =
      Block.values ls name ++ if l.name = ofString name then [l.value] else [] := by
  by_cases same : l.name = ofString name
  · simp [Block.values, same]
  · simp [Block.values, same]

def Collected.feed (p : Collected) (ls : List Line) : Collected := ls.foldl (fun p l => p.field l.name l.rest) p

def Collected.ofLines (ls : List Line) : Collected where
  evt := { name := (Block.values ls "event").getLast?.getD [], id := (Block.values ls "id").getLast?.getD [] }
  dataBuf := joined (Block.values ls "data")

theorem fields_ne : ofString "id" ≠ ofString "event" ∧ ofString "data" ≠ ofString "event" ∧
      ofString "data" ≠ ofString "id" := by
  decide

theorem Collected.field_ofLines (ls : List Line) (l : Line) :
    (Collected.ofLines ls).field l.name l.rest = Collected.ofLines (ls ++ [l]) := by
  obtain ⟨idOther, dataOther, dataOther'⟩ := fields_ne
  by_cases event : l.name = ofString "event"
  · simp [Collected.field, Collected.ofLines, values_concat, event, idOther.symm, dataOther.symm, Line.value]
  by_cases id : l.name = ofString "id"
  · simp [Collected.field, Collected.ofLines, values_concat, id, idOther, dataOther'.symm, Line.value]
  by_cases data : l.name = ofString "data"
  · simp [Collected.field, Collected.ofLines, values_concat, data, dataOther, dataOther', Line.value, joined_concat]
  · simp [Collected.field, Collected.ofLines, values_concat, event, id, data]

theorem Collected.feed_ofLines (before ls : List Line) :
    (Collected.ofLines before).feed ls = Collected.ofLines (before ++ ls) := by
  induction ls generalizing before with
  | nil => simp [Collected.feed]
  | cons l ls ih =>
    have first := ih (before ++ [l])
    rw [← Collected.field_ofLines] at first
    simpa [Collected.feed] using first

theorem scanLines_feed (p : Collected) (ls : List Line) (rest : List Bytes) :
    scanLines p (ls.map Line.text ++ rest) = scanLines (p.feed ls) rest := by
  induction ls generalizing p with
  | nil => rfl
  | cons l ls ih =>
    have nonempty : l.text ≠ [] := List.ne_nil_of_mem l.field
    have split : cut colon l.text = some (l.name, l.rest) := cut_of_mem l.field
    simp only [List.map_cons, List.cons_append, scanLines, if_neg nonempty, split]
    exact ih _

namespace Block

def yielded (b : Block) : Option Event :=
  if b.event.name = [] ∧ b.event.id = [] then none else some b.event

theorem finish_feed (b : Block) : (Collected.feed {} b.lines).finish = b.yielded := by
  have fed : Collected.feed {} b.lines = Collected.ofLines b.lines := Collected.feed_ofLines [] b.lines
  rw [fed]
  unfold Collected.finish yielded Collected.ofLines Event.empty event
  by_cases unnamed : (values b.lines "event").getLast?.getD [] = [] ∧ (values b.lines "id").getLast?.getD [] = []
  · simp [unnamed]
  · by_cases noData : values b.lines "data" = []
    · simp [unnamed, joined, noData, List.intercalate]
    · simp [unnamed, joined, noData]

theorem scanLines_block (b : Block) (rest : List Bytes) :
    scanLines {} (b.texts ++ rest) = (b.yielded.toList ++ (scanLines {} rest).1, (scanLines {} rest).2) := by
  rw [texts, List.append_assoc, scanLines_feed]
  simp [scanLines, finish_feed]

end Block

theorem scanLines_blocks (blocks : List Block) :
    scanLines {} (blocks.flatMap Block.texts) = (blocks.filterMap Block.yielded, none) := by
  induction blocks with
  | nil => rfl
  | cons b blocks ih =>
    rw [List.flatMap_cons, Block.scanLines_block, ih]
    cases here : b.yielded <;> simp [here]

theorem filterMap_eq_filterMap_iff {α β : Type*} {f g : α → Option β} {xs : List α}
    (weaker : ∀ x, f x = none ∨ f x = g x) : xs.filterMap f = xs.filterMap g ↔ ∀ x ∈ xs, f x = g x := by
  have fewer (xs : List α) : (xs.filterMap f).length ≤ (xs.filterMap g).length := by
    induction xs with
    | nil => simp
    | cons x xs ih =>
      obtain absent | same := weaker x
      · cases other : g x with
        | none => simpa [absent, other] using ih
        | some y =>
          simp only [List.filterMap_cons, absent, other, List.length_cons]
          omega
      · cases other : g x with
        | none | some => simpa [same, other] using ih
  induction xs with
  | nil => simp
  | cons x xs ih =>
    rw [List.forall_mem_cons]
    obtain absent | same := weaker x
    · cases other : g x with
      | none => simpa [absent, other] using ih
      | some y =>
        have shorter := fewer xs
        simp only [List.filterMap_cons, absent, other, reduceCtorEq, false_and, iff_false]
        intro equal
        rw [equal, List.length_cons] at shorter
        omega
    · cases other : g x with
      | none | some => simpa [same, other] using ih

namespace Block

def expected (b : Block) : Option Event := if b.dispatched then some b.event else none

theorem dispatched_of_named {b : Block} (named : ¬ (b.event.name = [] ∧ b.event.id = [])) : b.dispatched := by
  have last {values : List Bytes} (nonempty : values.getLast?.getD [] ≠ []) : ∃ value ∈ values, value ≠ [] := by
    cases latest : values.getLast? with
    | none => simp [latest] at nonempty
    | some value =>
      rw [latest] at nonempty
      exact ⟨value, List.mem_of_getLast? latest, nonempty⟩
  simp only [dispatched, List.any_append, Bool.or_eq_true, List.any_eq_true, decide_eq_true_eq]
  rw [not_and_or] at named
  obtain name | id := named
  · exact .inl (.inr (last name))
  · exact .inr (last id)

theorem yielded_eq_expected_iff (b : Block) :
    b.yielded = b.expected ↔ (b.dispatched → b.event.name ≠ [] ∨ b.event.id ≠ []) := by
  by_cases named : b.event.name = [] ∧ b.event.id = []
  · by_cases dispatched : b.dispatched
    · simp [yielded, expected, named, dispatched]
    · simp [yielded, expected, named, dispatched]
  · have dispatched := dispatched_of_named named
    have condition : b.event.name ≠ [] ∨ b.event.id ≠ [] := by
      rwa [not_and_or] at named
    simp [yielded, expected, named, dispatched, condition]

theorem yielded_weaker (b : Block) : b.yielded = none ∨ b.yielded = b.expected := by
  by_cases named : b.event.name = [] ∧ b.event.id = []
  · exact .inl (if_pos named)
  · right
    rw [yielded_eq_expected_iff]
    intro _
    rwa [not_and_or] at named

end Block

/-- Every block with data, a name or an id is dispatched if and only if each of them has a last event
or id line that is not empty: data alone is lost. -/
theorem scanEvents_dispatches_iff {ρ : Type*} [Source ρ] (r : ρ) (blocks : List Block)
    (stream : Source.rest r = blocks.flatMap Block.bytes) :
    scanEvents r = (blocks.filterMap Block.expected, none) ↔
      ∀ b ∈ blocks, b.dispatched → b.event.name ≠ [] ∨ b.event.id ≠ [] := by
  rw [scanEvents_eq stream, scanLines_blocks, Prod.mk.injEq, and_iff_left rfl,
    filterMap_eq_filterMap_iff Block.yielded_weaker]
  simp only [Block.yielded_eq_expected_iff]

def idLine : Line := ⟨ofString "id: 0_7", false, by decide, by decide, by decide, by decide⟩

def dataLine : Line := ⟨ofString "data: 7", true, by decide, by decide, by decide, by decide⟩

theorem scanEvents_dispatches_message :
    scanEvents (⟨[ofString "id: 0_7\nda", ofString "ta: 7\r\n\n"]⟩ : Chunks) =
      ([⟨[], ofString "0_7", ofString "7"⟩], none) :=
  (scanEvents_dispatches_iff _ [⟨[idLine, dataLine], false⟩] (by decide)).mpr (by decide)

theorem data_block_dropped :
    scanEvents (⟨[ofString "data: 7\r\n\n"]⟩ : Chunks) = ([], none) ∧
      [Block.mk [dataLine] false].filterMap Block.expected = [⟨[], [], ofString "7"⟩] := by
  refine ⟨?_, by decide⟩
  have stream : Source.rest (⟨[ofString "data: 7\r\n\n"]⟩ : Chunks) =
      [Block.mk [dataLine] false].flatMap Block.bytes := by decide
  rw [scanEvents_eq stream, scanLines_blocks]
  decide

end Mcp.Sse
