import Mcp.Lib.Bufio
import Mcp.Lib.Fraction
import Mcp.Lib.Regexp
import Mcp.Spy.Recorder
import Mcp.Spy.Scanner

namespace Mcp.Trace
open Mcp.Lib Bytes Regexp Spy
open JsonSyntax (isDigit)

def openBrace : UInt8 := 123

def closeBrace : UInt8 := 125

def sharp : UInt8 := 35

def dot : UInt8 := 46

def minus : UInt8 := 45

def isWord (b : UInt8) : Bool := isDigit b || 65 ≤ b && b ≤ 90 || b = 95 || 97 ≤ b && b ≤ 122

def isBlank (b : UInt8) : Bool := b = 9 || b = 10 || b = 12 || b = 13 || b = 32

def objectRegex : Regexp := .seq (.text [openBrace]) (.seq (.many (· ≠ newline)) (.text [closeBrace]))

def millisRegex : Regexp := .opt (.seq (.text [dot]) (.group 4 (.plus isDigit)))

def recordRegex : Regexp :=
  .seq (.text (ofString "mcp-")) <|
  .seq (.group 1 (.plus isWord)) <|
  .seq (.plus isBlank) <|
  .seq (.group 2 objectRegex) <|
  .seq (.plus isBlank) <|
  .seq (.text [sharp]) <|
  .seq (.plus isBlank) <|
  .seq (.group 3 (.plus isDigit)) millisRegex

-- The timestamp is a `float64`, in units of 2⁻⁶² seconds.
structure MCPRecord (M : Type*) where
  direction : Bytes
  rawContent : Bytes
  json : M
  timestamp : Nat
  lineNum : Nat

-- The error of `ParseInt` is dropped: what does not fit is the largest integer.
def parseNumber (digits : Bytes) : Nat :=
  ((parseInt (digits.map fun b => Char.ofNat b.toNat)).getD maxInt).toNat

def parseMillis (ms : Bytes) : Nat :=
  if ms = [] then 0 else parseNumber ((ms ++ List.replicate (3 - ms.length) 48).take 3)

section Parsing

-- `json.Unmarshal` into a map, and the map that stands for one that cannot be read.
variable {M : Type*} (unmarshal : Bytes → Option M) (noValue : M)

def parseMatch (lineNum : Nat) (c : Captures) : MCPRecord M where
  direction := submatch c 1
  rawContent := submatch c 2
  json := (unmarshal (submatch c 2)).getD noValue
  timestamp := Float64.seconds (parseNumber (submatch c 3)) (parseMillis (submatch c 4))
  lineNum := lineNum

def parseLine (lineNum : Nat) (line : Bytes) : Option (MCPRecord M) :=
  if line = [] ∨ ¬ (ofString "mcp-").isPrefixOf line then none
  else (recordRegex.findSubmatch line).map (parseMatch unmarshal noValue lineNum)

def maxScanTokenSize : Nat := 64 * 1024

def parseFile {ρ : Type*} [Source ρ] (file : ρ) : Option (List (MCPRecord M)) :=
  let scanned := (Scanner.new file 0 maxScanTokenSize).tokens
  if scanned.2 then none
  else some ((scanned.1.zipIdx 1).filterMap fun x => parseLine unmarshal noValue x.2 x.1)

end Parsing

structure Parts where
  direction : Bytes
  gap : Bytes
  body : Bytes
  gap' : Bytes
  gap'' : Bytes
  seconds : Bytes
  millis : Option Bytes
  words : Run isWord direction
  blanks : Run isBlank gap
  whole : ∀ b ∈ body, decide (b ≠ newline)
  blanks' : Run isBlank gap'
  blanks'' : Run isBlank gap''
  digits : Run isDigit seconds
  digits' : ∀ ms ∈ millis, Run isDigit ms

namespace Parts

def content (p : Parts) : Bytes := openBrace :: (p.body ++ [closeBrace])

def fraction (p : Parts) : Bytes := match p.millis with
  | none => []
  | some ms => dot :: ms

def stamp (p : Parts) : Bytes := p.gap'' ++ (p.seconds ++ p.fraction)

def line (p : Parts) : Bytes :=
  ofString "mcp-" ++ (p.direction ++ (p.gap ++ (p.content ++ (p.gap' ++ sharp :: p.stamp))))

def captures (p : Parts) : Captures :=
  [(1, p.direction), (2, p.content), (3, p.seconds)] ++ match p.millis with
    | none => []
    | some ms => [(4, ms)]

end Parts

variable {t : Bytes} {c : Captures} {b : UInt8} {m : Nat} {now : Int} {p : Parts}

theorem matches_object_iff : objectRegex.Matches t c ↔
      ∃ body, t = openBrace :: (body ++ [closeBrace]) ∧ (∀ b ∈ body, decide (b ≠ newline)) ∧ c = [] := by
  rw [objectRegex, matches_text_seq]
  constructor
  · rintro ⟨_, rfl, body, _, _, _, rfl, rfl, ⟨whole, rfl⟩, rfl, rfl⟩
    exact ⟨body, rfl, whole, rfl⟩
  · rintro ⟨body, rfl, whole, rfl⟩
    exact ⟨body ++ [closeBrace], rfl, body, [closeBrace], [], [], rfl, rfl, ⟨whole, rfl⟩, rfl, rfl⟩

theorem matches_millis_iff : millisRegex.Matches t c ↔
      (∃ ms, t = dot :: ms ∧ Run isDigit ms ∧ c = [(4, ms)]) ∨ t = [] ∧ c = [] := by
  rw [millisRegex, Matches, matches_text_seq]
  constructor
  · rintro (⟨ms, rfl, _, rfl, run, rfl⟩ | none)
    · exact .inl ⟨ms, rfl, run, rfl⟩
    · exact .inr none
  · rintro (⟨ms, rfl, run, rfl⟩ | none)
    · exact .inl ⟨ms, rfl, [], rfl, run, rfl⟩
    · exact .inr none

theorem exists_parts {line : Bytes} (matched : recordRegex.Matches line c) :
    ∃ p : Parts, p.line = line ∧ p.captures = c := by
  simp only [recordRegex, matches_text_seq, matches_group_seq, matches_plus_seq, matches_object_iff,
    matches_millis_iff] at matched
  obtain ⟨_, rfl, direction, _, _, _, rfl, rfl, ⟨words, rfl⟩, gap, _, rfl, blanks, _, _, _, _, rfl, rfl,
    ⟨body, rfl, whole, rfl⟩, gap', _, rfl, blanks', _, rfl, gap'', _, rfl, blanks'', seconds, fraction, _, _, rfl, rfl,
    ⟨digits, rfl⟩, written | omitted⟩ := matched
  · obtain ⟨ms, rfl, digits', rfl⟩ := written
    exact ⟨⟨direction, gap, body, gap', gap'', seconds, some ms, words, blanks, whole, blanks', blanks'', digits,
      by simpa using digits'⟩, rfl, rfl⟩
  · obtain ⟨rfl, rfl⟩ := omitted
    exact ⟨⟨direction, gap, body, gap', gap'', seconds, none, words, blanks, whole, blanks', blanks'', digits,
      by simp⟩, rfl, rfl⟩

theorem Parts.matches (p : Parts) : recordRegex.Matches p.line p.captures := by
  simp only [recordRegex, matches_text_seq, matches_group_seq, matches_plus_seq, matches_object_iff, matches_millis_iff]
  refine ⟨_, rfl, p.direction, _, [], _, rfl, rfl, ⟨p.words, rfl⟩, p.gap, _, rfl, p.blanks, p.content, _, [], _, rfl,
    rfl, ⟨p.body, rfl, p.whole, rfl⟩, p.gap', _, rfl, p.blanks', _, rfl, p.gap'', _, rfl, p.blanks'', p.seconds,
    p.fraction, [], _, rfl, rfl, ⟨p.digits, rfl⟩, ?_⟩
  obtain ⟨_, _, _, _, _, _, millis, _, _, _, _, _, _, digits'⟩ := p
  cases millis with
  | none => exact .inr ⟨rfl, rfl⟩
  | some ms => exact .inl ⟨ms, rfl, digits' ms rfl, rfl⟩

theorem not_word_of_blank (blank : isBlank b) : ¬ isWord b := by
  simp only [isBlank, Bool.or_eq_true, decide_eq_true_eq] at blank
  obtain (((rfl | rfl) | rfl) | rfl) | rfl := blank <;> decide

theorem not_blank_of_digit (digit : isDigit b) : ¬ isBlank b := by
  intro blank
  apply not_word_of_blank blank
  simp [isWord, digit]

namespace Parts

variable {p : Parts} {b : UInt8}

theorem mem_fraction (member : b ∈ p.fraction) : isDigit b ∨ b = dot := by
  obtain ⟨_, _, _, _, _, _, millis, _, _, _, _, _, _, digits'⟩ := p
  cases millis with
  | none => cases member
  | some ms =>
    obtain rfl | digit := List.mem_cons.mp member
    · exact .inr rfl
    · exact .inl ((digits' ms rfl).2 b digit)

theorem mem_stamp (member : b ∈ p.stamp) : isBlank b ∨ isDigit b ∨ b = dot := by
  obtain blank | later := List.mem_append.mp member
  · exact .inl (p.blanks''.2 b blank)
  obtain digit | fraction := List.mem_append.mp later
  · exact .inr (.inl (p.digits.2 b digit))
  · exact .inr (mem_fraction fraction)

theorem not_mem_stamp (other : ¬ (isBlank b ∨ isDigit b ∨ b = dot)) : b ∉ p.stamp :=
  fun member => other (mem_stamp member)

theorem closeBrace_not_mem (p : Parts) : closeBrace ∉ p.gap' ++ sharp :: p.stamp := by
  intro member
  obtain blank | later := List.mem_append.mp member
  · exact absurd (p.blanks'.2 closeBrace blank) (by decide)
  · exact absurd ((List.mem_cons.mp later).resolve_left (by decide)) (not_mem_stamp (by decide))

theorem fraction_stops (p : Parts) : ∀ b ∈ p.fraction.head?, ¬ isDigit b := by
  obtain ⟨_, _, _, _, _, _, millis, _, _, _, _, _, _, _⟩ := p
  cases millis with
  | none => simp [fraction]
  | some ms =>
    rintro b ⟨⟩
    decide

theorem captures_unique {q : Parts} (same : p.line = q.line) : p.captures = q.captures := by
  have opens (p : Parts) (rest : Bytes) : ∀ b ∈ (p.content ++ rest).head?, ¬ isBlank b := by
    rintro b ⟨⟩
    decide
  have marks (rest : Bytes) : ∀ b ∈ (sharp :: rest).head?, ¬ isBlank b := by
    rintro b ⟨⟩
    decide
  have closes (p : Parts) (rest : Bytes) : p.content ++ rest = (openBrace :: p.body) ++ closeBrace :: rest := by
    simp [content]
  obtain ⟨directions, same⟩ := span_unique p.words.2 q.words.2 (p.blanks.stops (fun _ => not_word_of_blank) _)
    (q.blanks.stops (fun _ => not_word_of_blank) _) (List.append_cancel_left same)
  obtain ⟨-, same⟩ := span_unique p.blanks.2 q.blanks.2 (opens p _) (opens q _) same
  rw [closes, closes] at same
  obtain ⟨bodies, same⟩ := last_unique p.closeBrace_not_mem q.closeBrace_not_mem same
  obtain ⟨-, same⟩ := span_unique p.blanks'.2 q.blanks'.2 (marks _) (marks _) same
  obtain ⟨-, same⟩ := span_unique p.blanks''.2 q.blanks''.2 (p.digits.stops (fun _ => not_blank_of_digit) _)
    (q.digits.stops (fun _ => not_blank_of_digit) _) (List.cons.inj same).2
  obtain ⟨seconds, fractions⟩ := span_unique p.digits.2 q.digits.2 p.fraction_stops q.fraction_stops same
  have millis : p.millis = q.millis := by
    unfold fraction at fractions
    cases first : p.millis <;> cases second : q.millis <;> simp_all
  have contents : p.content = q.content := by
    rw [content, content, (List.cons.inj bodies).2]
  rw [captures, captures, directions, contents, seconds, millis]

end Parts

theorem findSubmatch_line (p : Parts) : recordRegex.findSubmatch p.line = some p.captures := by
  apply findSubmatch_of_unique p.matches
  intro c matched
  obtain ⟨q, same, rfl⟩ := exists_parts matched
  exact Parts.captures_unique same

def decimal (chars : List Char) : Bytes := ofString (String.ofList chars)

theorem toNat_digit {c : Char} (digit : c.isDigit) : (UInt8.ofNat c.val.toNat).toNat = c.val.toNat := by
  have range := digit_range digit
  exact UInt8.toNat_ofNat_of_lt' (Nat.lt_of_le_of_lt range.2 (by decide))

section Decimal

variable {chars : List Char} (digits : ∀ c ∈ chars, c.isDigit)

include digits

theorem decimal_eq : decimal chars = chars.map fun c => UInt8.ofNat c.val.toNat := by
  apply ofString_ofList
  intro c member
  exact Nat.le_trans (digit_range (digits c member)).2 (by decide)

theorem isDigit_decimal : ∀ b ∈ decimal chars, isDigit b := by
  rw [decimal_eq digits, List.forall_mem_map]
  intro c member
  have range := digit_range (digits c member)
  simp only [isDigit, Bool.and_eq_true, decide_eq_true_eq, UInt8.le_iff_toNat_le, toNat_digit (digits c member)]
  exact range

theorem chars_decimal : (decimal chars).map (fun b => Char.ofNat b.toNat) = chars := by
  rw [decimal_eq digits, List.map_map]
  nth_rewrite 2 [← List.map_id chars]
  apply List.map_congr_left
  intro c member
  simp only [Function.comp_apply, toNat_digit (digits c member)]
  exact Char.ofNat_toNat c

theorem parseNumber_decimal {n : Nat} (value : parseDigits chars = some n) (fits : (n : Int) ≤ maxInt) :
    parseNumber (decimal chars) = n := by
  have low : minInt ≤ (n : Int) := Int.le_trans (by decide) (Int.natCast_nonneg n)
  rw [parseNumber, chars_decimal digits, parseInt_of_digits digits, value, Option.bind_some,
    fit_eq_some.mpr ⟨rfl, low, fits⟩]
  rfl

theorem length_decimal : (decimal chars).length = chars.length := by
  rw [decimal_eq digits, List.length_map]

theorem run_decimal (nonempty : chars ≠ []) : Run isDigit (decimal chars) := by
  refine ⟨fun empty => nonempty ?_, isDigit_decimal digits⟩
  rw [← List.length_eq_zero_iff, ← length_decimal digits, empty, List.length_nil]

end Decimal

theorem digits_toDigits (n : Nat) : ∀ c ∈ Nat.toDigits 10 n, c.isDigit :=
  fun _ member => Nat.isDigit_of_mem_toDigits (by decide) (by decide) member

theorem digits_padZero (width n : Nat) : ∀ c ∈ padZero width (Nat.toDigits 10 n), c.isDigit := by
  intro c member
  obtain zero | digit := List.mem_append.mp member
  · rw [List.eq_of_mem_replicate zero]
    decide
  · exact digits_toDigits n c digit

theorem digits_formatMillis (m : Nat) : ∀ c ∈ formatMillis m, c.isDigit := digits_padZero 3 m

theorem length_formatMillis (below : m < 1000) : (formatMillis m).length = 3 := by
  have short : (Nat.toDigits 10 m).length ≤ 3 := (Nat.length_toDigits_le_iff (by decide) (by decide)).mpr below
  show (padZero 3 (Nat.toDigits 10 m)).length = 3
  rw [padZero, List.length_append, List.length_replicate]
  omega

theorem formatMillis_ne_nil (m : Nat) : formatMillis m ≠ [] := by
  show padZero 3 (Nat.toDigits 10 m) ≠ []
  simp [padZero, Nat.toDigits_ne_nil]

theorem parseDigits_formatMillis (m : Nat) : parseDigits (formatMillis m) = some m := by
  have digits := digits_formatMillis m
  have value : Nat.ofDigitChars 10 (formatMillis m) 0 = m := by
    show Nat.ofDigitChars 10 (padZero 3 (Nat.toDigits 10 m)) 0 = m
    rw [padZero, Nat.ofDigitChars_append, Nat.ofDigitChars_replicate_zero, Nat.mul_zero, Nat.ofDigitChars_ten_toDigits]
  rw [parseDigits, if_pos ⟨formatMillis_ne_nil m, List.all_eq_true.mpr digits⟩, value]

theorem parseMillis_formatMillis (below : m < 1000) : parseMillis (decimal (formatMillis m)) = m := by
  have length : (decimal (formatMillis m)).length = 3 := by
    rw [length_decimal (digits_formatMillis m), length_formatMillis below]
  have nonempty := (run_decimal (digits_formatMillis m) (formatMillis_ne_nil m)).1
  have fits : (m : Int) ≤ maxInt := by
    unfold maxInt
    omega
  rw [parseMillis, if_neg nonempty, length, Nat.sub_self, List.replicate_zero, List.append_nil, ← length,
    List.take_length]
  exact parseNumber_decimal (digits_formatMillis m) (parseDigits_formatMillis m) fits

def logLine (indent : Bytes → Option Bytes) (opts : Options) (x : Capture) : Bytes :=
  (newEvent indent opts x).formatted ++ [newline]

def stampText (now : Int) : Bytes :=
  32 :: (decimal (formatInt (unix now)) ++ dot :: decimal (formatMillis ((unixMilli now).tmod 1000)))

variable {indent : Bytes → Option Bytes} {opts : Options} {x : Capture}

/-- Messages are written on one line each, with their markers. -/
structure Plain (opts : Options) : Prop where
  compact : opts.prettyJSON = false
  marked : opts.passThrough = false

theorem formatted_eq (plain : Plain opts) (message : trimSpace x.raw ≠ []) :
    (newEvent indent opts x).formatted =
      ofString "mcp-" ++ (x.dir ++ (32 :: (trimSpace x.raw ++ 32 :: sharp :: stampText x.now))) := by
  have blank : ofString " " = [32] := by decide
  have mark : ofString " # " = [32, sharp, 32] := by decide
  have point : ofString "." = [dot] := by decide
  simp [newEvent, formatEntry, message, plain.marked, formatJSON, plain.compact, stampText, decimal, blank, mark, point]

theorem mem_decimal {chars : List Char} (signed : ∀ c ∈ chars, c = '-' ∨ c.isDigit)
    (member : b ∈ decimal chars) : b = minus ∨ isDigit b := by
  induction chars with
  | nil => cases member
  | cons c chars ih =>
    rw [List.forall_mem_cons] at signed
    have split : decimal (c :: chars) = decimal [c] ++ decimal chars := by simp [decimal, ofString]
    rw [split] at member
    obtain first | later := List.mem_append.mp member
    · obtain rfl | digit := signed.1
      · exact .inl (by simpa using (show b ∈ [minus] from first))
      · exact .inr (isDigit_decimal (by simpa using digit) b first)
    · exact ih signed.2 later

theorem signed_formatInt (n : Int) : ∀ c ∈ formatInt n, c = '-' ∨ c.isDigit := by
  intro c member
  cases n with
  | ofNat n => exact .inr (digits_toDigits n c member)
  | negSucc n =>
    obtain sign | digit := List.mem_cons.mp member
    · exact .inl sign
    · exact .inr (digits_toDigits (n + 1) c digit)

theorem signed_formatMillis (n : Int) : ∀ c ∈ formatMillis n, c = '-' ∨ c.isDigit := by
  intro c member
  cases n with
  | ofNat n => exact .inr (digits_formatMillis n c member)
  | negSucc n =>
    obtain sign | later := List.mem_cons.mp member
    · exact .inl sign
    · exact .inr (digits_padZero 2 (n + 1) c later)

theorem mem_decimals {seconds millis : Int}
    (member : b ∈ decimal (formatInt seconds) ++ dot :: decimal (formatMillis millis)) :
    b = minus ∨ isDigit b ∨ b = dot := by
  obtain before | fraction := List.mem_append.mp member
  · obtain sign | digit := mem_decimal (signed_formatInt _) before
    · exact .inl sign
    · exact .inr (.inl digit)
  obtain point | after := List.mem_cons.mp fraction
  · exact .inr (.inr point)
  · obtain sign | digit := mem_decimal (signed_formatMillis _) after
    · exact .inl sign
    · exact .inr (.inl digit)

theorem mem_stampText (member : b ∈ stampText now) : b = 32 ∨ b = minus ∨ isDigit b ∨ b = dot := by
  obtain blank | later := List.mem_cons.mp member
  · exact .inl blank
  · exact .inr (mem_decimals later)

theorem minus_mem_stampText (before : unix now < 0) : minus ∈ stampText now := by
  obtain ⟨n, negative⟩ := Int.eq_negSucc_of_lt_zero before
  have sign : minus ∈ decimal (formatInt (unix now)) := by
    rw [negative]
    exact List.mem_flatMap.mpr ⟨'-', by simp [formatInt], by decide⟩
  exact List.mem_cons_of_mem _ (List.mem_append_left _ sign)

theorem time_parts (after : 0 ≤ unix now) :
    ∃ s m : Nat, unix now = s ∧ m < 1000 ∧ unixMilli now = (1000 * s + m : Nat) ∧
      stampText now = 32 :: (decimal (Nat.toDigits 10 s) ++ dot :: decimal (formatMillis m)) := by
  obtain ⟨s, seconds⟩ := Int.eq_ofNat_of_zero_le after
  have low : 0 ≤ now % 10 ^ 9 / 10 ^ 6 := by omega
  obtain ⟨m, millis⟩ := Int.eq_ofNat_of_zero_le low
  have below : m < 1000 := by omega
  have total : unixMilli now = (1000 * s + m : Nat) := by
    rw [unixMilli, seconds, millis]
    omega
  have rest : (unixMilli now).tmod 1000 = m := by
    rw [total, Int.tmod_eq_emod_of_nonneg (Int.natCast_nonneg _)]
    omega
  exact ⟨s, m, seconds, below, total, by rw [stampText, rest, seconds]; rfl⟩

section Reading

variable {M : Type*} {unmarshal : Bytes → Option M} {noValue : M} {ρ : Type*} [Source ρ] {file : ρ}

theorem parseLine_line (p : Parts) (lineNum : Nat) :
    parseLine unmarshal noValue lineNum p.line = some (parseMatch unmarshal noValue lineNum p.captures) := by
  have starts : (ofString "mcp-").isPrefixOf p.line := List.isPrefixOf_iff_prefix.mpr (List.prefix_append _ _)
  have nonempty : p.line ≠ [] := List.append_ne_nil_of_left_ne_nil (by decide) _
  simp [parseLine, nonempty, starts, findSubmatch_line]

variable {lineNum : Nat} {line : Bytes}

theorem exists_parts_of_parseLine {r : MCPRecord M} (parsed : parseLine unmarshal noValue lineNum line = some r) :
    ∃ p : Parts, p.line = line ∧ r = parseMatch unmarshal noValue lineNum p.captures := by
  unfold parseLine at parsed
  split_ifs at parsed
  obtain ⟨c, found, rfl⟩ := Option.map_eq_some_iff.mp parsed
  obtain ⟨p, same, rfl⟩ := exists_parts (matches_of_findSubmatch found)
  exact ⟨p, same, rfl⟩

theorem parseFile_single (whole : newline ∉ line) (plain : line.getLast? ≠ some carriageReturn)
    (short : line.length < maxScanTokenSize) (logged : Source.rest file = line ++ [newline]) :
    parseFile unmarshal noValue file = some (parseLine unmarshal noValue 1 line).toList := by
  have content : (Scanner.new file 0 maxScanTokenSize).content = line ++ newline :: [] := logged
  have shortLines : Scanner.ShortLines maxScanTokenSize (Scanner.new file 0 maxScanTokenSize).content := by
    rw [content]
    exact .line whole short (.last (by simp) (by decide))
  have tokens := (Scanner.new file 0 maxScanTokenSize).tokens_eq shortLines
  rw [content, lines_append whole, lines_nil, dropCR_of_getLast plain] at tokens
  simp only [parseFile, tokens, Bool.false_eq_true, if_false, List.zipIdx_cons, List.zipIdx_nil]
  cases parsed : parseLine unmarshal noValue 1 line with
  | none | some => simp [parsed]

theorem parseFile_tooLong (whole : newline ∉ line) (long : maxScanTokenSize ≤ line.length)
    (logged : Source.rest file = line ++ [newline]) : parseFile unmarshal noValue file = none := by
  have content : (Scanner.new file 0 maxScanTokenSize).content =
      ([] : List Bytes).flatMap (· ++ [newline]) ++ (line ++ newline :: []) := logged
  have tokens := Scanner.tokens_tooLong whole (s := Scanner.new file 0 maxScanTokenSize) (Nat.zero_le _)
    (by simp) long content
  simp [parseFile, tokens]

theorem timestamp_parseMatch {p : Parts} {s m : Nat} (fits : (s : Int) ≤ maxInt) (below : m < 1000)
    (seconds : p.seconds = decimal (Nat.toDigits 10 s)) (millis : p.millis = some (decimal (formatMillis m))) :
    (parseMatch unmarshal noValue lineNum p.captures).timestamp = Float64.seconds s m := by
  have first : submatch p.captures 3 = p.seconds := rfl
  have second : submatch p.captures 4 = decimal (formatMillis m) := by
    simp [submatch, Parts.captures, millis]
  rw [parseMatch, first, second, seconds, parseMillis_formatMillis below,
    parseNumber_decimal (digits_toDigits s) (parseDigits_toDigits s) fits]

end Reading

theorem plain_formatted (plain : Plain opts)
    (message : trimSpace x.raw ≠ []) : (newEvent indent opts x).formatted.getLast? ≠ some carriageReturn := by
  have parts : (newEvent indent opts x).formatted =
      (ofString "mcp-" ++ (x.dir ++ (32 :: (trimSpace x.raw ++ [32, sharp])))) ++ stampText x.now := by
    simp [formatted_eq plain message]
  rw [parts, List.getLast?_append_of_ne_nil _ (by simp [stampText])]
  intro last
  have member := mem_stampText (List.mem_of_getLast? last)
  exact absurd member (by decide)

theorem blank_mem_spaces (blank : isBlank b) : [b] ∈ spaces := by
  simp only [isBlank, Bool.or_eq_true, decide_eq_true_eq] at blank
  obtain (((rfl | rfl) | rfl) | rfl) | rfl := blank <;> decide

theorem content_eq {text : Bytes} (trimmed : Trimmed text)
    (same : p.gap ++ (p.content ++ p.gap') = 32 :: (text ++ [32])) : p.content = text := by
  obtain ⟨b, front, before⟩ := List.exists_cons_of_ne_nil p.blanks.1
  obtain ⟨back, b', after⟩ := (List.eq_nil_or_concat p.gap').resolve_left p.blanks'.1
  have inner : front ++ p.content ++ back = text := by
    rw [before, after, List.concat_eq_append, List.cons_append, List.cons.injEq, ← List.append_assoc,
      ← List.append_assoc] at same
    exact (List.append_inj' same.2 rfl).1
  obtain rfl : front = [] := by
    cases front with
    | nil => rfl
    | cons c front =>
      have blank := p.blanks.2 c (by simp [before])
      exact absurd ⟨_, by rw [← inner]; rfl⟩ (trimmed [c] (blank_mem_spaces blank)).1
  obtain rfl : back = [] := by
    obtain empty | ⟨back, c, rfl⟩ := List.eq_nil_or_concat back
    · exact empty
    · have blank := p.blanks'.2 c (by simp [after])
      exact absurd ⟨[] ++ p.content ++ back, by rw [← inner]; simp⟩ (trimmed [c] (blank_mem_spaces blank)).2
  simpa using inner

theorem content_and_stamp (plain : Plain opts)
    (message : trimSpace x.raw ≠ []) (line : p.line = (newEvent indent opts x).formatted)
    (direction : p.direction = x.dir) : p.content = trimSpace x.raw ∧ p.stamp = stampText x.now := by
  rw [formatted_eq plain message, Parts.line, direction] at line
  have rest := List.append_cancel_left (List.append_cancel_left line)
  have split : (p.gap ++ (p.content ++ p.gap')) ++ sharp :: p.stamp =
      (32 :: (trimSpace x.raw ++ [32])) ++ sharp :: stampText x.now := by
    simpa using rest
  have unmarked : sharp ∉ stampText x.now := fun member => absurd (mem_stampText member) (by decide)
  obtain ⟨front, stamp⟩ := last_unique (Parts.not_mem_stamp (by decide)) unmarked split
  exact ⟨content_eq (trimmed_trimSpace x.raw) front, stamp⟩

theorem exists_parts_of_logged (indent : Bytes → Option Bytes) (plain : Plain opts) (words : Run isWord x.dir)
    (single : newline ∉ trimSpace x.raw) {body : Bytes}
    (object : trimSpace x.raw = openBrace :: (body ++ [closeBrace])) {s : Nat}
    (stamp : stampText x.now = 32 :: (decimal (Nat.toDigits 10 s) ++ dot :: decimal (formatMillis m))) :
    ∃ p : Parts, p.line = (newEvent indent opts x).formatted ∧ p.direction = x.dir ∧ p.content = trimSpace x.raw ∧
      p.seconds = decimal (Nat.toDigits 10 s) ∧ p.millis = some (decimal (formatMillis m)) := by
  have blank : Run isBlank [32] := ⟨by simp, List.all_eq_true.mp (by decide)⟩
  have whole : ∀ b ∈ body, decide (b ≠ newline) := by
    intro b member
    refine decide_eq_true fun equal => single ?_
    rw [object, ← equal]
    simp [member]
  have digits : Run isDigit (decimal (Nat.toDigits 10 s)) := run_decimal (digits_toDigits s) Nat.toDigits_ne_nil
  have digits' : Run isDigit (decimal (formatMillis m)) := run_decimal (digits_formatMillis m) (formatMillis_ne_nil m)
  refine ⟨⟨x.dir, [32], body, [32], [32], _, some _, words, blank, whole, blank, blank, digits, by simpa using digits'⟩,
    ?_, rfl, object.symm, rfl, rfl⟩
  rw [formatted_eq plain (by simp [object]), stamp, object]
  simp [Parts.line, Parts.content, Parts.stamp, Parts.fraction]

section Recovering

variable {M : Type*} (unmarshal : Bytes → Option M) (noValue : M) {ρ : Type*} [Source ρ]

/-- The file holds one record, with the direction, the value and, to the millisecond, the time. -/
def Recovers (file : ρ) (x : Capture) : Prop :=
  ∃ (r : MCPRecord M) (ms : Nat), parseFile unmarshal noValue file = some [r] ∧ r.direction = x.dir ∧
    unmarshal (trimSpace x.raw) = some r.json ∧ unixMilli x.now = ms ∧ Float64.Near r.timestamp ms

structure Readable (x : Capture) : Prop where
  words : Run isWord x.dir
  single : newline ∉ trimSpace x.raw
  object : ∃ body, trimSpace x.raw = openBrace :: (body ++ [closeBrace])
  decodes : ∃ value, unmarshal (trimSpace x.raw) = some value
  after : 0 ≤ unix x.now
  exact : ∃ f, Float64.nearest f = f ∧ Float64.Near f (unixMilli x.now).toNat
  short : x.dir.length + (trimSpace x.raw).length + (formatInt (unix x.now)).length + 12 < maxScanTokenSize

variable {unmarshal noValue} {file : ρ}

theorem length_formatted (plain : Plain opts)
    (message : trimSpace x.raw ≠ []) (after : 0 ≤ unix x.now) : (newEvent indent opts x).formatted.length =
      x.dir.length + (trimSpace x.raw).length + (formatInt (unix x.now)).length + 12 := by
  obtain ⟨s, m, seconds, below, -, stamp⟩ := time_parts after
  rw [formatted_eq plain message, stamp, seconds]
  have shown : (formatInt (s : Int)).length = (Nat.toDigits 10 s).length := rfl
  simp only [List.length_append, List.length_cons, length_decimal (digits_toDigits s),
    length_decimal (digits_formatMillis m), length_formatMillis below, shown,
    show (ofString "mcp-").length = 4 from rfl]
  omega

theorem newline_not_mem_formatted (indent : Bytes → Option Bytes) (plain : Plain opts)
    (message : trimSpace x.raw ≠ []) (words : Run isWord x.dir)
    (single : newline ∉ trimSpace x.raw) : newline ∉ (newEvent indent opts x).formatted := by
  have marker : newline ∉ ofString "mcp-" := by decide
  have direction : newline ∉ x.dir := fun member => absurd (words.2 newline member) (by decide)
  have time : newline ∉ stampText x.now := fun member => absurd (mem_stampText member) (by decide)
  have blank : newline ≠ 32 := by decide
  have mark : newline ≠ sharp := by decide
  simp [formatted_eq plain message, marker, direction, single, time, blank, mark]

theorem json_parseMatch {p : Parts} {lineNum : Nat} {text : Bytes} {value : M} (content : p.content = text)
    (decoded : unmarshal text = some value) : (parseMatch unmarshal noValue lineNum p.captures).json = value := by
  have second : submatch p.captures 2 = p.content := rfl
  rw [parseMatch, second, content, decoded, Option.getD_some]

theorem recovers_of_readable (plain : Plain opts)
    (fits : unixMilli x.now ≤ maxInt) (logged : Source.rest file = logLine indent opts x)
    (readable : Readable unmarshal x) :
    newline ∉ (newEvent indent opts x).formatted ∧ Recovers unmarshal noValue file x := by
  obtain ⟨words, single, ⟨body, object⟩, ⟨value, decoded⟩, after, representable, short⟩ := readable
  have message : trimSpace x.raw ≠ [] := by simp [object]
  obtain ⟨s, m, seconds, below, total, stamp⟩ := time_parts after
  obtain ⟨p, line, direction, content, digits, millis⟩ :=
    exists_parts_of_logged indent plain words single object stamp
  have whole := newline_not_mem_formatted indent plain message words single
  refine ⟨whole, parseMatch unmarshal noValue 1 p.captures, 1000 * s + m, ?_, direction, ?_, total, ?_⟩
  · rw [parseFile_single whole (plain_formatted plain message)
      (length_formatted plain message after ▸ short) logged, ← line, parseLine_line]
    rfl
  · rw [decoded, json_parseMatch content decoded]
  · rw [timestamp_parseMatch (by omega) below digits millis, Float64.near_seconds_iff below]
    rwa [total, Int.toNat_natCast] at representable

theorem readable_of_recovers (plain : Plain opts)
    (message : trimSpace x.raw ≠ []) (fits : unixMilli x.now ≤ maxInt)
    (logged : Source.rest file = logLine indent opts x) (whole : newline ∉ (newEvent indent opts x).formatted)
    (recovers : Recovers unmarshal noValue file x) : Readable unmarshal x := by
  obtain ⟨r, ms, parsed, direction, decoded, time, near⟩ := recovers
  have short : (newEvent indent opts x).formatted.length < maxScanTokenSize := by
    by_contra long
    rw [parseFile_tooLong whole (Nat.le_of_not_lt long) logged] at parsed
    cases parsed
  rw [parseFile_single whole (plain_formatted plain message) short logged, Option.some.injEq] at parsed
  have found : parseLine unmarshal noValue 1 (newEvent indent opts x).formatted = some r := by
    cases result : parseLine unmarshal noValue 1 (newEvent indent opts x).formatted <;> simp_all
  obtain ⟨p, line, rfl⟩ := exists_parts_of_parseLine found
  have words : Run isWord x.dir := direction ▸ p.words
  obtain ⟨content, stamp⟩ := content_and_stamp plain message line direction
  have single : newline ∉ trimSpace x.raw := by
    intro member
    exact whole (by simp [formatted_eq plain message, member])
  have after : 0 ≤ unix x.now := by
    by_contra before
    have sign := minus_mem_stampText (Int.not_le.mp before)
    rw [← stamp] at sign
    exact Parts.not_mem_stamp (by decide) sign
  obtain ⟨s, m, seconds, below, total, shown⟩ := time_parts after
  obtain ⟨q, line', -, -, digits, millis⟩ :=
    exists_parts_of_logged indent plain words single content.symm shown
  have captures : p.captures = q.captures := Parts.captures_unique (line.trans line'.symm)
  rw [captures, timestamp_parseMatch (by omega) below digits millis] at near
  rw [total, Int.natCast_inj] at time
  rw [← time, Float64.near_seconds_iff below] at near
  refine ⟨words, single, ⟨p.body, content.symm⟩, ⟨_, decoded⟩, after, ?_,
    length_formatted plain message after ▸ short⟩
  rwa [total, Int.toNat_natCast]

/-- A message that has been logged is read back if and only if it is readable. -/
theorem trace_round_trip_iff (indent : Bytes → Option Bytes) (unmarshal : Bytes → Option M) (noValue : M)
    (opts : Options) (x : Capture) (file : ρ) (compact : opts.prettyJSON = false) (marked : opts.passThrough = false)
    (message : trimSpace x.raw ≠ []) (fits : minInt ≤ unixMilli x.now ∧ unixMilli x.now ≤ maxInt)
    (logged : Source.rest file = logLine indent opts x) :
    newline ∉ (newEvent indent opts x).formatted ∧ Recovers unmarshal noValue file x ↔ Readable unmarshal x := by
  constructor
  · rintro ⟨whole, recovers⟩
    exact readable_of_recovers ⟨compact, marked⟩ message fits.2 logged whole recovers
  · exact recovers_of_readable ⟨compact, marked⟩ fits.2 logged

theorem exact_of_lt {now : Int} (after : 0 ≤ unix now) (early : unix now < 2 ^ 43) :
    ∃ f, Float64.nearest f = f ∧ Float64.Near f (unixMilli now).toNat := by
  obtain ⟨s, m, seconds, below, total, -⟩ := time_parts after
  rw [total, Int.toNat_natCast, ← Float64.near_seconds_iff below]
  exact Float64.near_seconds_of_lt (by omega) below

end Recovering

def sent (raw : String) : Capture := ⟨ofString "send", ofString raw, ofString "writer", 1700000000123000000⟩

def compactMessage : Capture := sent "\x7b\"id\":1\x7d"

def file (x : Capture) : Chunks := ⟨[logLine some {} x]⟩

theorem rest_file (x : Capture) : Source.rest (file x) = logLine some {} x := List.append_nil _

theorem trace_round_trip_compact :
    newline ∉ (newEvent some {} compactMessage).formatted ∧ Recovers some [] (file compactMessage) compactMessage :=
  (trace_round_trip_iff some some [] {} compactMessage (file compactMessage) rfl rfl (by decide) (by decide)
    (rest_file _)).mpr
    ⟨⟨by decide, List.all_eq_true.mp (by decide)⟩, by decide, ⟨ofString "\"id\":1", by decide⟩, ⟨_, rfl⟩, by decide,
      exact_of_lt (by decide) (by decide), by decide⟩

def brokenMessage : Capture := sent "\x7b\"id\":\n1\x7d"

theorem trace_lost_newline :
    (add [] brokenMessage.raw).1 = [brokenMessage.raw] ∧ newline ∈ (newEvent some {} brokenMessage).formatted ∧
      (parseFile some [] (file brokenMessage)).map List.length = some 0 := by
  refine ⟨by decide, by decide, ?_⟩
  have content : (Scanner.new (file brokenMessage) 0 maxScanTokenSize).content =
      ofString "mcp-send \x7b\"id\":" ++ newline :: (ofString "1\x7d # 1700000000.123" ++ newline :: []) := by
    decide
  have short : Scanner.ShortLines maxScanTokenSize (Scanner.new (file brokenMessage) 0 maxScanTokenSize).content := by
    rw [content]
    exact .line (by decide) (by decide) (.line (by decide) (by decide) (.last (by decide) (by decide)))
  have tokens := (Scanner.new (file brokenMessage) 0 maxScanTokenSize).tokens_eq short
  rw [content] at tokens
  simp only [parseFile, tokens]
  decide +kernel

end Mcp.Trace
