import Mathlib.Data.List.Induction
import Mcp.Lib.Utf8

namespace Mcp.Shell
open Lib Lib.Bytes Lib.Utf8

def isSpace (r : Char) : Bool := spaces.contains (String.utf8EncodeChar r)

structure Scanner where
  args : List (List Char) := []
  buf : List Char := []
  start : Option Nat := none
  quote : Option Char := none
  escape : Bool := false
  inToken : Bool := false
  lastSpace : Bool := true

namespace Scanner

def opened (s : Scanner) (i : Nat) : Scanner := if s.inToken then s else { s with start := some i, inToken := true }

def step (s : Scanner) (i : Nat) (r : Char) : Scanner :=
  if s.escape then { s.opened i with buf := s.buf ++ [r], escape := false, lastSpace := false }
  else match s.quote with
    | some quote =>
      if r = '\\' then { s with escape := true, lastSpace := false }
      else if r = quote then { s with quote := none, lastSpace := false }
      else { s with buf := s.buf ++ [r], lastSpace := false }
    | none =>
      if r = '\\' then { s.opened i with escape := true, lastSpace := false }
      else if r = '\'' ∨ r = '"' then { s.opened i with quote := some r, lastSpace := false }
      else if isSpace r then
        if s.inToken then
          { s with args := s.args ++ [s.buf], buf := [], inToken := false, start := none, lastSpace := true }
        else { s with lastSpace := true }
      else { s.opened i with buf := s.buf ++ [r], lastSpace := false }

def scan (s : Scanner) (i : Nat) : List Rune → Scanner
  | [] => s
  | r :: rest => (s.step i r.value).scan (i + r.bytes.length) rest

end Scanner

structure ShellParseResult where
  args : List Bytes
  words : List Bytes
  current : Bytes
  replaceStart : Nat
  replaceEnd : Nat
  trailingSpace : Bool
deriving DecidableEq

def scanLine (line : Bytes) : Scanner := Scanner.scan {} 0 (runes line)

def Scanner.text (s : Scanner) : List Char := if s.escape then s.buf ++ ['\\'] else s.buf

def Scanner.finish (s : Scanner) (line : Bytes) : Except String ShellParseResult :=
  if s.quote ≠ none then .error "unterminated quote"
  else if s.inToken then
    let args := s.args ++ [s.text]
    .ok ⟨args.dropLast.map encode, args.map encode, encode s.text, s.start.getD 0, line.length, s.lastSpace⟩
  else .ok ⟨s.args.map encode, s.args.map encode, [], line.length, line.length, s.lastSpace⟩

def parseShellLine (line : Bytes) : Except String ShellParseResult := (scanLine line).finish line

/-- A token is still being read when the line ends. -/
def TokenOpen (line : Bytes) : Prop := (scanLine line).inToken = true

namespace Scanner

structure Clear (s : Scanner) : Prop where
  outside : s.inToken = false
  buf : s.buf = []
  quote : s.quote = none
  escape : s.escape = false

variable {s : Scanner} {i : Nat} {r : Char} {rs : List Rune}

theorem scan_append (s : Scanner) (i : Nat) (as bs : List Rune) :
    s.scan i (as ++ bs) = (s.scan i as).scan (i + (bytesOf as).length) bs := by
  induction as generalizing s i with
  | nil => rfl
  | cons a as ih =>
    show (s.step i a.value).scan _ (as ++ bs) = _
    rw [ih, Nat.add_assoc, ← List.length_append]
    rfl

theorem step_of_clear (clear : s.Clear) :
    (s.step i r).args = s.args ∧ ((s.step i r).Clear ∨ (s.step i r).inToken = true ∧ (s.step i r).start = some i) := by
  rw [step, opened, clear.outside, clear.quote, clear.escape]
  simp only [Bool.false_eq_true, if_false]
  split_ifs
  · exact ⟨rfl, .inr ⟨rfl, rfl⟩⟩
  · exact ⟨rfl, .inr ⟨rfl, rfl⟩⟩
  · exact ⟨rfl, .inl ⟨rfl, clear.buf, rfl, rfl⟩⟩
  · exact ⟨rfl, .inr ⟨rfl, rfl⟩⟩

theorem step_of_inToken (inside : s.inToken = true) : (s.step i r).Clear ∨
      (s.step i r).inToken = true ∧ (s.step i r).start = s.start ∧ (s.step i r).args = s.args := by
  have same : s.opened i = s := if_pos inside
  rw [step, same, if_pos inside]
  by_cases escaped : s.escape = true
  · rw [if_pos escaped]
    exact .inr ⟨inside, rfl, rfl⟩
  · rw [if_neg escaped]
    cases quoted : s.quote with
    | some quote =>
      right
      dsimp only
      split_ifs
      · exact ⟨inside, rfl, rfl⟩
      · exact ⟨inside, rfl, rfl⟩
      · exact ⟨inside, rfl, rfl⟩
    | none =>
      dsimp only
      split_ifs
      · exact .inr ⟨inside, rfl, rfl⟩
      · exact .inr ⟨inside, rfl, rfl⟩
      · exact .inl ⟨rfl, rfl, rfl, Bool.eq_false_iff.mpr escaped⟩
      · exact .inr ⟨inside, rfl, rfl⟩

def Tracked (rs : List Rune) : Prop :=
  let s := Scanner.scan {} 0 rs
  s.Clear ∨ s.inToken = true ∧ ∃ as bs, rs = as ++ bs ∧ s.start = some (bytesOf as).length ∧
    (Scanner.scan {} 0 as).Clear ∧ (Scanner.scan {} 0 as).args = s.args

theorem tracked (rs : List Rune) : Tracked rs := by
  induction rs using List.reverseRecOn with
  | nil => exact .inl ⟨rfl, rfl, rfl, rfl⟩
  | append_singleton rs r ih =>
    have last : Scanner.scan {} 0 (rs ++ [r]) = (Scanner.scan {} 0 rs).step (bytesOf rs).length r.value := by
      rw [scan_append, Nat.zero_add]
      rfl
    rw [Tracked, last]
    rcases ih with clear | ⟨inside, as, bs, rfl, start, before, args⟩
    · rcases step_of_clear clear with ⟨same, clear' | ⟨inside, start⟩⟩
      · exact .inl clear'
      · exact .inr ⟨inside, rs, [r], rfl, start, clear, same.symm⟩
    · rcases step_of_inToken inside with clear | ⟨inside', start', args'⟩
      · exact .inl clear
      · exact .inr ⟨inside', as, bs ++ [r], List.append_assoc .., start'.trans start, before, args.trans args'.symm⟩

end Scanner

theorem scanLine_bytesOf {rs : List Rune} (proper : Proper rs) : scanLine (bytesOf rs) = Scanner.scan {} 0 rs := by
  rw [scanLine, runes_bytesOf proper]

theorem scanLine_encode (cs : List Char) : scanLine (encode cs) = Scanner.scan {} 0 (cs.map .char) := by
  rw [← bytesOf_chars, scanLine_bytesOf (proper_chars cs)]

theorem Scanner.finish_of_inToken {s : Scanner} {line : Bytes} {parsed : ShellParseResult} (inside : s.inToken = true)
    (accepted : s.finish line = .ok parsed) : s.quote = none ∧ parsed =
      ⟨s.args.map encode, (s.args ++ [s.text]).map encode, encode s.text, s.start.getD 0, line.length,
        s.lastSpace⟩ := by
  by_cases closed : s.quote = none
  · rw [Scanner.finish, if_neg (not_not_intro closed), if_pos inside] at accepted
    dsimp only at accepted
    rw [List.dropLast_concat] at accepted
    exact ⟨closed, (Except.ok.inj accepted).symm⟩
  · rw [Scanner.finish, if_pos closed] at accepted
    cases accepted

theorem Scanner.Clear.finish {s : Scanner} (clear : s.Clear) (line : Bytes) :
    s.finish line = .ok ⟨s.args.map encode, s.args.map encode, [], line.length, line.length, s.lastSpace⟩ := by
  simp [Scanner.finish, clear.quote, clear.outside]

theorem parseShellLine_cut {line : Bytes} {parsed : ShellParseResult} (accepted : parseShellLine line = .ok parsed) :
    ∃ as bs, runes line = as ++ bs ∧ line = bytesOf as ++ bytesOf bs ∧ parsed.replaceStart = (bytesOf as).length ∧
      (Scanner.scan {} 0 as).Clear ∧ parsed.args = (Scanner.scan {} 0 as).args.map encode ∧
      (TokenOpen line ∧ parsed.words = parsed.args ++ [parsed.current] ∨
        ¬ TokenOpen line ∧ parsed.words = parsed.args ∧ parsed.current = []) := by
  obtain ⟨whole, proper⟩ := runes_spec line
  rw [parseShellLine] at accepted
  rcases Scanner.tracked (runes line) with clear | ⟨inside, as, bs, split, start, clear, args⟩
  · have outside : ¬ TokenOpen line := Bool.eq_false_iff.mp clear.outside
    rw [Scanner.Clear.finish (s := scanLine line) clear] at accepted
    cases accepted
    refine ⟨runes line, [], (List.append_nil _).symm, ?_, ?_, clear, rfl, .inr ⟨outside, rfl, rfl⟩⟩
    · rw [← bytesOf_append, List.append_nil, whole]
    · rw [whole]
  · have inside' : (scanLine line).inToken = true := inside
    have start' : (scanLine line).start = some (bytesOf as).length := start
    obtain ⟨-, rfl⟩ := Scanner.finish_of_inToken inside' accepted
    refine ⟨as, bs, split, ?_, ?_, clear, ?_, .inl ⟨inside, List.map_append ..⟩⟩
    · rw [← bytesOf_append, ← split, whole]
    · rw [start', Option.getD_some]
    · rw [args]
      rfl

theorem parseShellLine_invariants {line : Bytes} {parsed : ShellParseResult}
    (accepted : parseShellLine line = .ok parsed) :
    (¬ TokenOpen line → parsed.words = parsed.args) ∧
    (TokenOpen line → parsed.words = parsed.args ++ [parsed.current]) ∧
    ¬ TokenOpen (line.take parsed.replaceStart) ∧
    ∃ before, parseShellLine (line.take parsed.replaceStart) = .ok before ∧ before.words = parsed.args := by
  obtain ⟨as, bs, split, whole, start, clear, args, words⟩ := parseShellLine_cut accepted
  have cut : line.take parsed.replaceStart = bytesOf as := by
    rw [start, whole, List.take_left]
  have proper := (runes_spec line).2
  rw [split] at proper
  have scanned := scanLine_bytesOf proper.of_append
  rw [← scanned] at clear args
  rw [cut, parseShellLine, clear.finish]
  refine ⟨fun closed => ?_, fun inside => ?_, Bool.eq_false_iff.mp clear.outside, _, rfl, args.symm⟩
  · rcases words with ⟨inside, -⟩ | ⟨-, words, -⟩
    · exact absurd inside closed
    · exact words
  · rcases words with ⟨-, words⟩ | ⟨closed, -⟩
    · exact words
    · exact absurd inside closed

theorem parseShellLine_invariants_quoted : ∃ parsed, parseShellLine (encode "call 'a b' c\\ d".toList) = .ok parsed ∧
    parsed.words = [ofString "call", ofString "a b", ofString "c d"] ∧
      parsed.words = parsed.args ++ [parsed.current] := by
  let parsed : ShellParseResult :=
    ⟨[ofString "call", ofString "a b"], [ofString "call", ofString "a b", ofString "c d"], ofString "c d", 11, 15,
      false⟩
  have accepted : parseShellLine (encode "call 'a b' c\\ d".toList) = .ok parsed := by
    rw [parseShellLine, scanLine_encode]
    rfl
  refine ⟨parsed, accepted, rfl, (parseShellLine_invariants accepted).2.1 ?_⟩
  rw [TokenOpen, scanLine_encode]
  decide

end Mcp.Shell
