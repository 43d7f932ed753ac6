import Mcp.Sse.Messages

namespace Mcp.Sse
open Mcp.Lib Bytes List

structure Raw where
  text : Bytes
  crlf : Bool
  whole : newline ∉ text
  plain : text.getLast? ≠ some carriageReturn
  short : text.length + crlf.toNat < maxTokenSize

namespace Raw

def bytes (r : Raw) : Bytes := r.text ++ ending r.crlf

def blank (crlf : Bool) : Raw := ⟨[], crlf, by simp, by simp, by cases crlf <;> decide⟩

end Raw

def Line.raw (l : Line) : Raw := ⟨l.text, l.crlf, l.whole, l.plain, l.short⟩

@[simp] theorem Line.raw_text (l : Line) : l.raw.text = l.text := rfl

def Block.raws (b : Block) : List Raw := b.lines.map Line.raw ++ [Raw.blank b.crlf]

structure Cut where
  lost : List Raw
  torn : Option Bytes
  kept : List Raw

def cutAt (k : Nat) : List Raw → Cut
  | [] => ⟨[], none, []⟩
  | r :: raws =>
    if k = 0 then ⟨[], none, r :: raws⟩
    else if k < r.bytes.length then ⟨[r], some (r.text.drop k), raws⟩
    else { cutAt (k - r.bytes.length) raws with lost := r :: (cutAt (k - r.bytes.length) raws).lost }

theorem lines_raws (raws : List Raw) (rest : Bytes) :
    lines (raws.flatMap Raw.bytes ++ rest) = raws.map Raw.text ++ lines rest := by
  induction raws with
  | nil => rfl
  | cons r raws ih =>
    have first := lines_ending r.whole r.plain r.crlf (raws.flatMap Raw.bytes ++ rest)
    rw [ih] at first
    simpa [Raw.bytes] using first

theorem shortLines_raws (raws : List Raw) : Scanner.ShortLines maxSSELine (raws.flatMap Raw.bytes) := by
  induction raws with
  | nil => exact .last (by simp) (by decide)
  | cons r raws ih => exact shortLines_ending r.whole r.crlf r.short ih

variable {k : Nat} {before after : List Bytes} {data : Bytes}

theorem lines_drop_ending (r : Raw) (within : k < r.bytes.length) (rest : Bytes) :
    lines (r.bytes.drop k ++ rest) = r.text.drop k :: lines rest := by
  rw [Raw.bytes, drop_append]
  by_cases inside : k ≤ r.text.length
  · have plain : (r.text.drop k).getLast? ≠ some carriageReturn := by
      rw [List.getLast?_drop]
      split_ifs
      · simp
      · exact r.plain
    rw [Nat.sub_eq_zero_of_le inside, drop_zero]
    exact lines_ending (fun member => r.whole (mem_of_mem_drop member)) plain r.crlf rest
  · have crlf : r.crlf = true ∧ k = r.text.length + 1 := by
      cases crlf : r.crlf <;> simp [Raw.bytes, ending, crlf] at within ⊢ <;> omega
    rw [crlf.1, crlf.2, drop_eq_nil_of_le (Nat.le_succ _)]
    simpa [ending, dropCR] using lines_append (not_mem_nil) rest

theorem cutAt_append (k : Nat) (raws : List Raw) : (cutAt k raws).lost ++ (cutAt k raws).kept = raws := by
  induction raws generalizing k with
  | nil => rfl
  | cons r raws ih =>
    unfold cutAt
    split_ifs
    · rfl
    · rfl
    · simp [ih]

theorem lines_drop (k : Nat) (raws : List Raw) :
    lines ((raws.flatMap Raw.bytes).drop k) = (cutAt k raws).torn.toList ++ (cutAt k raws).kept.map Raw.text := by
  have whole (raws : List Raw) : lines (raws.flatMap Raw.bytes) = raws.map Raw.text := by
    simpa using lines_raws raws []
  induction raws generalizing k with
  | nil => simp [cutAt]
  | cons r raws ih =>
    unfold cutAt
    split_ifs with start within
    · rw [start]
      exact whole (r :: raws)
    · rw [flatMap_cons, drop_append_of_le_length (Nat.le_of_lt within), lines_drop_ending r within, whole]
      rfl
    · rw [flatMap_cons, drop_append, drop_eq_nil_of_le (Nat.not_lt.mp within), nil_append]
      exact ih _

theorem cutAt_torn {raws : List Raw} {part : Bytes} (torn : (cutAt k raws).torn = some part) :
    ∃ before r, (cutAt k raws).lost = before ++ [r] ∧ part <:+ r.text := by
  induction raws generalizing k with
  | nil => cases torn
  | cons r raws ih =>
    unfold cutAt at torn ⊢
    split_ifs at torn ⊢
    · cases torn
      exact ⟨[], r, rfl, drop_suffix _ _⟩
    · obtain ⟨before, last, lost, suffix⟩ := ih torn
      exact ⟨r :: before, last, by simp [lost], suffix⟩

theorem Line.text_eq (l : Line) : l.text = l.name ++ colon :: l.rest :=
  (cut_eq_some.mp (cut_of_mem l.field)).1

theorem Line.name_eq_iff (l : Line) {name : Bytes} (plain : colon ∉ name) :
    l.name = name ↔ name ++ [colon] <+: l.text := by
  constructor
  · rintro rfl
    rw [l.text_eq]
    simp
  · rintro ⟨rest, same⟩
    have split : cut colon l.text = some (name, rest) := cut_eq_some.mpr ⟨by simp [← same], plain⟩
    rw [cut_of_mem l.field] at split
    exact congrArg Prod.fst (Option.some.inj split)

theorem Line.startsWith_data (l : Line) : startsWith "data:" l.text ↔ l.name = ofString "data" := by
  rw [l.name_eq_iff (by decide), startsWith, isPrefixOf_iff_prefix]
  rfl

theorem Line.dataOf_text (l : Line) : dataOf l.text = if l.name = ofString "data" then some l.value else none := by
  by_cases data : l.name = ofString "data"
  · have rest : l.text.drop 5 = l.rest := by
      rw [l.text_eq, data]
      rfl
    rw [if_pos data, dataOf, if_pos (l.startsWith_data.mpr data), rest]
    rfl
  · rw [if_neg data, dataOf, if_neg fun starts => data (l.startsWith_data.mp starts)]

theorem Line.text_ne_nil (l : Line) : l.text ≠ [] := ne_nil_of_mem l.field

namespace Block

theorem filterMap_dataOf (ls : List Line) : (ls.map Line.text).filterMap dataOf = values ls "data" := by
  induction ls with
  | nil => rfl
  | cons l ls ih =>
    by_cases data : l.name = ofString "data"
    · simp only [List.map_cons, filterMap_cons, l.dataOf_text, if_pos data, ih]
      simp [values, data]
    · simp only [List.map_cons, filterMap_cons, l.dataOf_text, if_neg data, ih]
      simp [values, data]

theorem raws_bytes (b : Block) : b.raws.flatMap Raw.bytes = b.bytes := by
  simp only [raws, bytes, flatMap_append, flatMap_map, flatMap_singleton]
  rfl

theorem raws_text (b : Block) : b.raws.map Raw.text = b.lines.map Line.text ++ [[]] := by
  simp [raws, Raw.blank, Line.raw, Function.comp_def]

theorem length_texts_le (b : Block) : (b.lines.map Line.text).flatten.length ≤ b.bytes.length := by
  have part (ls : List Line) : (ls.map Line.text).flatten.length ≤ (ls.flatMap Line.bytes).length := by
    induction ls with
    | nil => exact Nat.le_refl _
    | cons l ls ih =>
      simp only [List.map_cons, flatten_cons, flatMap_cons, length_append, Line.bytes]
      omega
  rw [bytes, length_append]
  exact Nat.le_add_right_of_le (part b.lines)

def late (b : Block) : Bool := ((b.lines.map Line.text).dropWhile (dataOf · = none)).tail.any (startsWith "event:")

end Block

theorem closed_append (absent : ∀ line ∈ before, dataOf line = none) (after : List Bytes) :
    closed (before ++ [] :: after) := by
  induction before with
  | nil => rfl
  | cons line before ih =>
    rw [forall_mem_cons] at absent
    simp [closed, absent.1, ih absent.2]

theorem separated_skip (absent : ∀ line ∈ before, dataOf line = none)
    (separated : Separated after) : Separated (before ++ after) := by
  induction before with
  | nil => exact separated
  | cons line before ih =>
    rw [forall_mem_cons] at absent
    exact ⟨fun data => absurd absent.1 data, ih absent.2⟩

theorem separated_event {event : List Bytes} (single : event.filterMap dataOf = [data])
    (separated : Separated after) : Separated (event ++ [] :: after) := by
  obtain ⟨before, line, rest, rfl, absent, -, absent'⟩ := filterMap_eq_cons_iff.mp single
  rw [filterMap_eq_nil_iff] at absent'
  have blank : Separated ([] :: after) := ⟨fun data => absurd rfl data, separated⟩
  rw [append_assoc]
  exact separated_skip absent ⟨fun _ => closed_append absent' after, separated_skip absent' blank⟩

theorem safe_until {acc : List Bytes} (begun : acc ≠ []) (absent : ∀ line ∈ before, dataOf line = none)
    (nonempty : ∀ line ∈ before, line ≠ []) (count : Nat) (after : List Bytes) :
    Safe acc count (before ++ [] :: after) ↔
      (before.any (startsWith "event:") → count < readChanCap) ∧ Safe [] (count + 1) after := by
  induction before with
  | nil =>
    have stop : handle acc [] = (flush acc, []) := handle_ends rfl rfl acc
    have noEvent : startsWith "event:" [] = false := by decide
    simp [Safe, stop, flush_of_ne_nil begun, noEvent]
  | cons line before ih =>
    rw [forall_mem_cons] at absent nonempty
    by_cases event : startsWith "event:" line
    · have absent' : ∀ line ∈ before ++ [[]], dataOf line = none := by
        simpa [or_imp, forall_and] using ⟨absent.2, rfl⟩
      have skip := safe_skip absent' (count + 1) after
      have stop : ends line := by simp [ends, event]
      simpa [Safe, handle_ends absent.1 stop, flush_of_ne_nil begun, event] using fun _ => skip
    · have stop : ¬ ends line := by simp [ends, event, nonempty.1]
      simpa [Safe, handle_other absent.1 stop, event] using ih absent.2 nonempty.2

theorem safe_event {b : Block} (single : Block.values b.lines "data" = [data]) (count : Nat) (after : List Bytes) :
    Safe [] count (b.lines.map Line.text ++ [] :: after) ↔
      (b.late → count < readChanCap) ∧ Safe [] (count + 1) after := by
  have nonempty : ∀ line ∈ b.lines.map Line.text, line ≠ [] := by
    simpa using fun l _ => Line.text_ne_nil l
  unfold Block.late
  rw [← Block.filterMap_dataOf] at single
  generalize b.lines.map Line.text = texts at single nonempty
  obtain ⟨before, line, rest, rfl, absent, here, absent'⟩ := filterMap_eq_cons_iff.mp single
  rw [filterMap_eq_nil_iff] at absent'
  have begun : Safe [] count (line :: (rest ++ [] :: after)) ↔ Safe [data] count (rest ++ [] :: after) := by
    simp [Safe, handle_data here]
  have later : (before ++ line :: rest).dropWhile (dataOf · = none) = line :: rest := by
    rw [dropWhile_append_of_pos (by simpa using absent), dropWhile_cons_of_neg (by simp [here])]
  rw [later, append_assoc, cons_append, safe_skip absent, begun,
    safe_until (by simp) absent' (fun line member => nonempty line (by simp [member]))]
  rfl

structure Endpoint where
  block : Block
  named : block.event.name = ofString "endpoint"
  path : Bytes
  data : Block.values block.lines "data" = [path]

structure Message where
  block : Block
  named : ∀ name ∈ Block.values block.lines "event", name = ofString "message"
  data : Block.values block.lines "data" ≠ []
  small : block.bytes.length < maxSSELine

namespace Message

def raws (messages : List Message) : List Raw := messages.flatMap (·.block.raws)

def texts (messages : List Message) : List Bytes := (raws messages).map Raw.text

def Single (m : Message) : Prop := (Block.values m.block.lines "data").length = 1

theorem texts_cons (m : Message) (messages : List Message) :
    texts (m :: messages) = m.block.lines.map Line.text ++ [] :: texts messages := by
  simp [texts, raws, Block.raws_text]

variable {m : Message} {messages : List Message}

theorem Single.values (single : m.Single) : Block.values m.block.lines "data" = [m.block.event.data] := by
  obtain ⟨data, values⟩ := length_eq_one_iff.mp single
  rw [Block.event, values]
  simp [List.intercalate]

theorem single_of_newline_not_mem (absent : newline ∉ m.block.event.data) : m.Single := by
  unfold Single
  rw [Block.event] at absent
  cases values : Block.values m.block.lines "data" with
  | nil => exact absurd values m.data
  | cons first others =>
    cases others with
    | nil => rfl
    | cons second others => simp [values, List.intercalate] at absent

theorem separated (single : ∀ m ∈ messages, m.Single) : Separated (texts messages) := by
  induction messages with
  | nil => trivial
  | cons m messages ih =>
    rw [forall_mem_cons] at single
    rw [texts_cons]
    exact separated_event (by rw [Block.filterMap_dataOf, single.1.values]) (ih single.2)

theorem filterMap_dataOf (single : ∀ m ∈ messages, m.Single) :
    (texts messages).filterMap dataOf = messages.map (·.block.event.data) := by
  induction messages with
  | nil => rfl
  | cons m messages ih =>
    rw [forall_mem_cons] at single
    have blank : dataOf [] = none := rfl
    rw [texts_cons, filterMap_append, Block.filterMap_dataOf, single.1.values, filterMap_cons, blank,
      ih single.2]
    rfl

theorem safe_iff (single : ∀ m ∈ messages, m.Single) (count : Nat) :
    Safe [] count (texts messages) ↔ ∀ i m, messages[i]? = some m → m.block.late → count + i < readChanCap := by
  induction messages generalizing count with
  | nil => simp [texts, raws, Safe]
  | cons m messages ih =>
    rw [forall_mem_cons] at single
    rw [texts_cons, safe_event single.1.values, ih single.2]
    constructor
    · rintro ⟨first, rest⟩ i m' member late
      cases i with
      | zero =>
        cases member
        exact first late
      | succ i =>
        have later := rest i m' member late
        omega
    · intro each
      refine ⟨fun late => each 0 m rfl late, fun i m' member late => ?_⟩
      have later := each (i + 1) m' member late
      omega

theorem small_texts (messages : List Message) : Small 0 (texts messages) := by
  induction messages with
  | nil => trivial
  | cons m messages ih =>
    rw [texts_cons]
    apply small_append
    · simpa using fun l _ => Line.text_ne_nil l
    · have short := m.small
      have part := m.block.length_texts_le
      omega
    · exact ih

end Message

section Left

variable {after : List Line} {messages : List Message} (crlf : Bool) (k : Nat)

def following (after : List Line) (crlf : Bool) (messages : List Message) : List Raw :=
  after.map Line.raw ++ Raw.blank crlf :: Message.raws messages

def followingTexts (after : List Line) (messages : List Message) : List Bytes :=
  after.map Line.text ++ [] :: Message.texts messages

theorem following_text : (following after crlf messages).map Raw.text = followingTexts after messages := by
  simp [following, followingTexts, Message.texts, Line.raw, Raw.blank, Function.comp_def]

def Cut.Harmless (c : Cut) : Prop := Sse.Harmless (c.lost.map Raw.text) c.torn (c.kept.map Raw.text)

instance (c : Cut) : Decidable c.Harmless := by
  unfold Cut.Harmless
  infer_instance

theorem closed_of_last {lost kept : List Bytes} {part : Bytes} {data : Bytes}
    (last : (lost ++ kept).getLast? = some []) (torn : ∃ before line, lost = before ++ [line] ∧ part <:+ line)
    (here : dataOf part = some data) (absent : kept.filterMap dataOf = []) : closed kept := by
  obtain ⟨before, line, rfl, suffix⟩ := torn
  rw [filterMap_eq_nil_iff] at absent
  obtain rfl | ⟨init, final, rfl⟩ := eq_nil_or_concat' kept
  · obtain rfl : line = [] := by simpa using last
    obtain rfl : part = [] := by simpa using suffix
    cases here
  · obtain rfl : final = [] := by simpa [← append_assoc] using last
    exact closed_append (fun line member => absent line (by simp [member])) []

theorem small_following (absent : ∀ l ∈ after, dataOf l.text = none) : Small 0 (followingTexts after messages) := by
  have skip (size : Nat) : Small size (followingTexts after messages) := by
    induction after generalizing size with
    | nil => exact ⟨Nat.zero_le _, fun data => absurd rfl data, Message.small_texts messages⟩
    | cons l after ih =>
      rw [forall_mem_cons] at absent
      have short : l.text.length ≤ maxSSELine := Nat.le_trans (Nat.le_add_right ..) (Nat.le_of_lt l.short)
      exact ⟨short, fun data => absurd absent.1 data, ih absent.2 _⟩
  exact skip 0

theorem getLast_following (after : List Line) (messages : List Message) :
    (followingTexts after messages).getLast? = some [] := by
  have last (before : List Bytes) : (before ++ [] :: Message.texts messages).getLast? = some [] := by
    induction messages generalizing before with
    | nil => simp [Message.texts, Message.raws]
    | cons m messages ih =>
      have rest := ih (before ++ [] :: m.block.lines.map Line.text)
      rwa [append_assoc, cons_append, ← Message.texts_cons] at rest
  exact last _

theorem separated_following (absent : ∀ l ∈ after, dataOf l.text = none) (single : ∀ m ∈ messages, m.Single) :
    Separated (followingTexts after messages) := by
  have blank : Separated ([] :: Message.texts messages) := ⟨fun data => absurd rfl data, Message.separated single⟩
  exact separated_skip (by simpa using absent) blank

theorem filterMap_following (absent : ∀ l ∈ after, dataOf l.text = none) (single : ∀ m ∈ messages, m.Single) :
    (followingTexts after messages).filterMap dataOf = messages.map (·.block.event.data) := by
  have blank : dataOf [] = none := rfl
  have before : (after.map Line.text).filterMap dataOf = [] := by
    rw [filterMap_eq_nil_iff]
    simpa using absent
  rw [followingTexts, filterMap_append, before, nil_append, filterMap_cons, blank,
    Message.filterMap_dataOf single]

theorem safe_following (absent : ∀ l ∈ after, dataOf l.text = none) (single : ∀ m ∈ messages, m.Single) :
    Safe [] 0 (followingTexts after messages) ↔ ∀ i m, messages[i]? = some m → m.block.late → i < readChanCap := by
  have skip : ∀ line ∈ after.map Line.text ++ [[]], dataOf line = none := by
    simpa [or_imp, forall_and] using ⟨absent, rfl⟩
  have rest := safe_skip skip 0 (Message.texts messages)
  rw [append_assoc, singleton_append] at rest
  rw [followingTexts, rest, Message.safe_iff single]
  simp

theorem fits_left {raws : List Raw} (small : Small 0 (raws.map Raw.text)) :
    Fits [] ((cutAt k raws).torn.toList ++ (cutAt k raws).kept.map Raw.text) := by
  rw [← cutAt_append k raws, List.map_append] at small
  have small' : Small 0 ((cutAt k raws).torn.toList ++ (cutAt k raws).kept.map Raw.text) := by
    cases torn : (cutAt k raws).torn with
    | none => exact small.drop
    | some part =>
      obtain ⟨before, r, lost, suffix⟩ := cutAt_torn torn
      rw [lost, List.map_append, append_assoc] at small
      exact small.drop.of_suffix suffix
  exact small'.fits (Nat.le_refl 0)

theorem newline_not_mem_left (raws : List Raw) :
    ∀ line ∈ (cutAt k raws).torn.toList ++ (cutAt k raws).kept.map Raw.text, newline ∉ line := by
  rw [forall_mem_append]
  constructor
  · intro part member
    obtain ⟨before, r, -, suffix⟩ := cutAt_torn (Option.mem_toList.mp member)
    exact fun within => r.whole (suffix.subset within)
  · simpa using fun r _ => Raw.whole r

theorem delivers_left_iff (absent : ∀ l ∈ after, dataOf l.text = none) :
    Delivers (lines (((following after crlf messages).flatMap Raw.bytes).drop k)) (messages.map (·.block.event.data)) ↔
      (∀ m ∈ messages, m.Single) ∧ (∀ i m, messages[i]? = some m → m.block.late → i < readChanCap) ∧
        (cutAt k (following after crlf messages)).Harmless := by
  have fits : Fits [] ((cutAt k (following after crlf messages)).torn.toList ++
      (cutAt k (following after crlf messages)).kept.map Raw.text) :=
    fits_left k (following_text crlf ▸ small_following absent)
  have whole := newline_not_mem_left k (following after crlf messages)
  have torn {part : Bytes} (torn : (cutAt k (following after crlf messages)).torn = some part) := cutAt_torn torn
  have all : (cutAt k (following after crlf messages)).lost.map Raw.text ++
      (cutAt k (following after crlf messages)).kept.map Raw.text = followingTexts after messages := by
    rw [← List.map_append, cutAt_append, following_text]
  rw [lines_drop, delivers_iff fits, Cut.Harmless]
  generalize cutAt k (following after crlf messages) = c at *
  by_cases single : ∀ m ∈ messages, m.Single
  · have separated := separated_following absent single
    rw [← all] at separated
    rw [and_iff_right single, ← safe_following absent single, ← filterMap_following absent single, ← all,
      collect_left_iff separated, and_comm]
    · exact and_congr_left fun harmless => safe_left_iff separated harmless
    · intro data here continued absent'
      obtain ⟨part, torn', here⟩ := Option.bind_eq_some_iff.mp here
      obtain ⟨before, r, lost, suffix⟩ := torn torn'
      have last := getLast_following after messages
      rw [← all] at last
      exact continued (closed_of_last last ⟨before.map Raw.text, r.text, by simp [lost], suffix⟩ here absent')
  · refine iff_of_false (fun delivered => single ?_) (fun conditions => single conditions.1)
    intro m member
    apply Message.single_of_newline_not_mem
    apply newline_not_mem_collect (fun _ member => absurd member not_mem_nil) whole
    rw [delivered.1]
    exact mem_map_of_mem member

end Left

end Mcp.Sse
