import Mcp.Lib.JsonSyntax

namespace Mcp.Spy
open Mcp.Lib Bytes JsonSyntax

structure Scan where
  depth : Int := 0
  inString : Bool := false
  escape : Bool := false
  stop : Option Nat := none

-- The break at depth 0 leaves the switch and not the loop.
def Scan.next (s : Scan) (i : Nat) (c : UInt8) : Scan :=
  if s.escape then { s with escape := false }
  else if s.inString ∧ c = 92 then { s with escape := true }
  else if c = 34 then { s with inString := !s.inString }
  else if s.inString then s
  else if c = 123 then { s with depth := s.depth + 1 }
  else if c = 125 then
    if s.depth - 1 = 0 then { s with depth := s.depth - 1, stop := some (i + 1) }
    else { s with depth := s.depth - 1 }
  else s

def Scan.run (s : Scan) (i : Nat) : Bytes → Scan
  | [] => s
  | c :: cs => (s.next i c).run (i + 1) cs

def extract : Nat → Bytes → List Bytes × Bytes
  | 0, buffer => ([], buffer)
  | n + 1, buffer =>
    if 123 ∈ buffer then
      let start := buffer.idxOf 123
      match (({} : Scan).run start (buffer.drop start)).stop with
      | none => ([], buffer)
      | some stop =>
        let candidate := trimSpace ((buffer.take stop).drop start)
        if Valid candidate then
          let (messages, rest) := extract n (buffer.drop stop)
          (candidate :: messages, rest)
        else extract n (buffer.drop (start + 1))
    else ([], buffer)

def takeLines (buffer : Bytes) : List Bytes × Bytes :=
  let lines := buffer.splitOn newline
  if 1 < lines.length then ((lines.dropLast.map trimSpace).filter (· ≠ []), lines.getLastD [])
  else ([], buffer)

def add (buffer data : Bytes) : List Bytes × Bytes :=
  let buffer := buffer ++ data
  let (messages, rest) := extract buffer.length buffer
  let (lines, rest) := takeLines rest
  (messages ++ lines, rest)

def addAll : Bytes → List Bytes → List Bytes
  | _, [] => []
  | buffer, chunk :: chunks =>
    let (messages, buffer) := add buffer chunk
    messages ++ addAll buffer chunks

namespace Scan

variable {s : Scan} {i : Nat} {c : UInt8} {t u : Bytes}

theorem run_append (s : Scan) (i : Nat) (t u : Bytes) : s.run i (t ++ u) = (s.run i t).run (i + t.length) u := by
  induction t generalizing s i with
  | nil => rfl
  | cons c t ih =>
    rw [List.cons_append, run, ih, List.length_cons, Nat.add_comm t.length, ← Nat.add_assoc]
    rfl

def Keeps (s : Scan) (i : Nat) (t : Bytes) : Prop := ∀ p, p <+: t → (s.run i p).stop = s.stop

def Leads (s : Scan) (i : Nat) (t : Bytes) (r : Scan) : Prop := s.run i t = r ∧ s.Keeps i t

theorem keeps_nil : s.Keeps i [] := by
  intro p part
  rw [List.prefix_nil.mp part]
  rfl

theorem keeps_cons (first : (s.next i c).stop = s.stop) (rest : (s.next i c).Keeps (i + 1) t) : s.Keeps i (c :: t) := by
  intro p part
  cases p with
  | nil => rfl
  | cons b p =>
    obtain ⟨rfl, within⟩ := List.cons_prefix_cons.mp part
    exact (rest p within).trans first

theorem Keeps.append (first : s.Keeps i t) (rest : (s.run i t).Keeps (i + t.length) u) : s.Keeps i (t ++ u) := by
  intro p part
  obtain within | ⟨q, rfl⟩ := List.prefix_or_prefix_of_prefix part (List.prefix_append t u)
  · exact first p within
  · rw [run_append]
    exact (rest q ((List.prefix_append_right_inj t).mp part)).trans (first t List.prefix_rfl)

theorem leads_nil : s.Leads i [] s := ⟨rfl, keeps_nil⟩

variable {r r' : Scan}

theorem Leads.cons (rest : r.Leads (i + 1) t r') (first : s.next i c = r) (same : r.stop = s.stop) :
    s.Leads i (c :: t) r' := by
  subst first
  exact ⟨rest.1, keeps_cons same rest.2⟩

theorem Leads.append (first : s.Leads i t r) (rest : r.Leads (i + t.length) u r') : s.Leads i (t ++ u) r' := by
  obtain ⟨rfl, kept⟩ := first
  exact ⟨(run_append s i t u).trans rest.1, kept.append rest.2⟩

theorem leads_fixed (fixed : ∀ c ∈ t, ∀ i, s.next i c = s) (i : Nat) : s.Leads i t s := by
  induction t generalizing i with
  | nil => exact leads_nil
  | cons c t ih =>
    have rest := ih (fun c member => fixed c (List.mem_cons_of_mem _ member)) (i + 1)
    exact rest.cons (fixed c List.mem_cons_self i) rfl

end Scan

/-- Inside an object the text changes nothing. -/
def Quiet (t : Bytes) : Prop :=
  ∀ (k : Int) (i : Nat) (stop : Option Nat), 1 ≤ k → Scan.Leads ⟨k, false, false, stop⟩ i t ⟨k, false, false, stop⟩

variable {t : Bytes} {c : UInt8}

theorem Quiet.append {u : Bytes} (first : Quiet t) (rest : Quiet u) : Quiet (t ++ u) := by
  intro k i stop deep
  exact (first k i stop deep).append (rest k (i + t.length) stop deep)

abbrev Plain (c : UInt8) : Prop := c ≠ 34 ∧ c ≠ 123 ∧ c ≠ 125

theorem leads_plain (plain : ∀ c ∈ t, Plain c) (k : Int) (i : Nat) (stop : Option Nat) :
    Scan.Leads ⟨k, false, false, stop⟩ i t ⟨k, false, false, stop⟩ := by
  refine Scan.leads_fixed (fun c member i => ?_) i
  obtain ⟨noQuote, noOpen, noClose⟩ := plain c member
  simp [Scan.next, noQuote, noOpen, noClose]

theorem quiet_plain (plain : ∀ c ∈ t, Plain c) : Quiet t := fun k i stop _ => leads_plain plain k i stop

theorem plain_of_space (space : isSpace c) : Plain c := by
  have known : c = 32 ∨ c = 9 ∨ c = 13 ∨ c = 10 := by simpa [isSpace, or_assoc] using space
  obtain rfl | rfl | rfl | rfl := known <;> decide

theorem quiet_spaces {ws : Bytes} (spaces : IsSpaces ws) : Quiet ws :=
  quiet_plain fun c member => plain_of_space (spaces c member)

theorem plain_of_digit (digit : isDigit c) : Plain c := by
  have other (k : UInt8) (outside : k < 48 ∨ 57 < k) : c ≠ k := ne_of_isDigit digit outside
  exact ⟨other 34 (by decide), other 123 (by decide), other 125 (by decide)⟩

theorem plain_number (number : IsNumber t) : ∀ c ∈ t, Plain c := by
  obtain ⟨sign, integer, fraction, exponent, signed, whole, part, scale, rfl⟩ := number
  have digits {t : Bytes} (all : ∀ b ∈ t, isDigit b) : ∀ c ∈ t, Plain c := fun c member => plain_of_digit (all c member)
  simp only [List.forall_mem_append]
  refine ⟨⟨⟨?_, ?_⟩, ?_⟩, ?_⟩
  · obtain rfl | rfl := signed
    · exact List.forall_mem_nil _
    · exact List.forall_mem_singleton.mpr (by decide)
  · obtain rfl | ⟨d, rest, rfl, digit, -, all⟩ := whole
    · exact List.forall_mem_singleton.mpr (by decide)
    · exact List.forall_mem_cons.mpr ⟨plain_of_digit digit, digits all⟩
  · obtain rfl | ⟨rest, number, rfl⟩ := part
    · exact List.forall_mem_nil _
    · exact List.forall_mem_cons.mpr ⟨by decide, digits number.2⟩
  · obtain rfl | ⟨mark, sign, rest, marked, signed, number, rfl⟩ := scale
    · exact List.forall_mem_nil _
    · refine List.forall_mem_cons.mpr ⟨?_, List.forall_mem_append.mpr ⟨?_, digits number.2⟩⟩
      · obtain rfl | rfl := marked <;> decide
      · obtain rfl | rfl | rfl := signed
        · exact List.forall_mem_nil _
        · exact List.forall_mem_singleton.mpr (by decide)
        · exact List.forall_mem_singleton.mpr (by decide)

theorem plain_literal (known : t ∈ literals) : ∀ c ∈ t, Plain c := by
  have all : (literals.all fun t => t.all fun c => decide (Plain c)) = true := by decide
  simpa using List.all_eq_true.mp (List.all_eq_true.mp all t known)

theorem leads_hex (hex : ∀ b ∈ t, isHex b) (k : Int) (i : Nat) (stop : Option Nat) :
    Scan.Leads ⟨k, true, false, stop⟩ i t ⟨k, true, false, stop⟩ := by
  refine Scan.leads_fixed (fun c member i => ?_) i
  have digit : isHex c := hex c member
  have noQuote : c ≠ 34 := by
    rintro rfl
    cases digit
  have noEscape : c ≠ 92 := by
    rintro rfl
    cases digit
  simp [Scan.next, noQuote, noEscape]

theorem leads_body (body : StringBody t) (k : Int) (i : Nat) (stop : Option Nat) :
    Scan.Leads ⟨k, true, false, stop⟩ i t ⟨k, true, false, stop⟩ := by
  induction body generalizing i with
  | nil => exact Scan.leads_nil
  | @plain c rest printable noQuote noEscape body ih =>
    have first : Scan.next ⟨k, true, false, stop⟩ i c = ⟨k, true, false, stop⟩ := by
      simp [Scan.next, noQuote, noEscape]
    exact (ih (i + 1)).cons first rfl
  | @escape c rest known body ih =>
    have second : Scan.Leads ⟨k, true, true, stop⟩ (i + 1) (c :: rest) ⟨k, true, false, stop⟩ := (ih _).cons rfl rfl
    exact second.cons rfl rfl
  | @unicode digits rest four hex body ih =>
    have third := (leads_hex hex k (i + 1 + 1) stop).append (ih (i + 1 + 1 + digits.length))
    have second : Scan.Leads ⟨k, true, true, stop⟩ (i + 1) (117 :: (digits ++ rest)) ⟨k, true, false, stop⟩ :=
      third.cons rfl rfl
    exact second.cons rfl rfl

theorem quiet_string (string : IsString t) : Quiet t := by
  obtain ⟨body, text, rfl⟩ := string
  intro k i stop _
  have close : Scan.Leads ⟨k, true, false, stop⟩ (i + 1 + body.length) [34] ⟨k, false, false, stop⟩ :=
    Scan.leads_nil.cons rfl rfl
  exact ((leads_body text k (i + 1) stop).append close).cons rfl rfl

theorem Quiet.braces (quiet : Quiet t) : Quiet (123 :: (t ++ [125])) := by
  intro k i stop deep
  have inside : k ≠ 0 := by omega
  have close : Scan.Leads ⟨k + 1, false, false, stop⟩ (i + 1 + t.length) [125] ⟨k, false, false, stop⟩ :=
    Scan.leads_nil.cons (by simp [Scan.next, inside]) rfl
  exact ((quiet (k + 1) (i + 1) stop (by omega)).append close).cons rfl rfl

theorem quiet_byte (plain : Plain c) : Quiet [c] := quiet_plain (by simpa using plain)

theorem quiet_derives {symbol : Symbol} {d : Nat} (derives : Derives symbol d t) : Quiet t := by
  induction derives with
  | literal known => exact quiet_plain (plain_literal known)
  | number number => exact quiet_plain (plain_number number)
  | string string => exact quiet_string string
  | emptyArray spaces =>
    exact (quiet_byte (c := 91) (by decide)).append ((quiet_spaces spaces).append (quiet_byte (by decide)))
  | array elements ih => exact (quiet_byte (c := 91) (by decide)).append (ih.append (quiet_byte (by decide)))
  | emptyObject spaces => exact (quiet_spaces spaces).braces
  | object members ih => exact ih.braces
  | element lead value trail ih => exact ((quiet_spaces lead).append ih).append (quiet_spaces trail)
  | elements lead value trail more ih ih' =>
    have first := ((quiet_spaces lead).append ih).append (quiet_spaces trail)
    exact first.append ((quiet_byte (c := 44) (by decide)).append ih')
  | member lead string gap gap' value trail ih =>
    have name := ((quiet_spaces lead).append (quiet_string string)).append (quiet_spaces gap)
    have rest := ((quiet_spaces gap').append ih).append (quiet_spaces trail)
    exact name.append ((quiet_byte (c := 58) (by decide)).append rest)
  | members lead string gap gap' value trail more ih ih' =>
    have name := ((quiet_spaces lead).append (quiet_string string)).append (quiet_spaces gap)
    have first := ((quiet_spaces gap').append ih).append (quiet_spaces trail)
    have rest := first.append ((quiet_byte (c := 44) (by decide)).append ih')
    exact name.append ((quiet_byte (c := 58) (by decide)).append rest)

structure Object where
  text : Bytes
  depth : Nat
  derives : Derives .value depth text
  opens : text.head? = some 123
  before : Bytes := []
  after : Bytes := []
  lead : IsSpaces before
  trail : IsSpaces after

namespace Object

theorem braces (o : Object) : ∃ inner, o.text = 123 :: (inner ++ [125]) ∧ Quiet inner := by
  obtain ⟨text, depth, derives, opens, -⟩ := o
  have first : 123 ∈ text := List.mem_of_head? opens
  cases derives with
  | literal known => exact absurd rfl (plain_literal known 123 first).2.1
  | number number => exact absurd rfl (plain_number number 123 first).2.1
  | string string =>
    obtain ⟨body, -, rfl⟩ := string
    cases opens
  | emptyArray | array => cases opens
  | emptyObject spaces => exact ⟨_, rfl, quiet_spaces spaces⟩
  | object members => exact ⟨_, rfl, quiet_derives members⟩

theorem leads_inner (inner : Bytes) (quiet : Quiet inner) (i : Nat) (stop : Option Nat) :
    Scan.Leads ⟨0, false, false, stop⟩ i (123 :: inner) ⟨1, false, false, stop⟩ :=
  (quiet 1 (i + 1) stop le_rfl).cons rfl rfl

theorem run_text (o : Object) (i : Nat) (stop : Option Nat) :
    Scan.run ⟨0, false, false, stop⟩ i o.text = ⟨0, false, false, some (i + o.text.length)⟩ := by
  obtain ⟨inner, text, quiet⟩ := o.braces
  have length : i + o.text.length = i + (123 :: inner).length + 1 := by simp [text, Nat.add_assoc]
  rw [length, text, ← List.cons_append, Scan.run_append, (leads_inner inner quiet i stop).1]
  rfl

theorem keeps_part (o : Object) {cut : Bytes} (part : cut <+: o.text) (proper : cut ≠ o.text) (i : Nat)
    (stop : Option Nat) : (Scan.run ⟨0, false, false, stop⟩ i cut).stop = stop := by
  obtain ⟨inner, text, quiet⟩ := o.braces
  rw [text, ← List.cons_append] at part proper
  apply (leads_inner inner quiet i stop).2
  obtain same | within := List.prefix_concat_iff.mp part
  · exact (proper same).elim
  · exact within

theorem text_ne_nil (o : Object) : o.text ≠ [] := by
  obtain ⟨inner, text, -⟩ := o.braces
  simp [text]

theorem text_length_pos (o : Object) : 0 < o.text.length := List.length_pos_iff.mpr o.text_ne_nil

def bytes (o : Object) : Bytes := o.before ++ o.text ++ o.after ++ [newline]

end Object

def finished : List Object → Nat → Nat
  | [], _ => 0
  | o :: os, n => if n < (o.before ++ o.text).length then 0 else finished os (n - o.bytes.length) + 1

def begun : List Object → Nat → Bytes
  | [], _ => []
  | o :: os, n =>
    if n < (o.before ++ o.text).length then o.text.take (n - o.before.length) else begun os (n - o.bytes.length)

/-- No chunk holds the ends of two objects, and none ends after a newline inside an object. -/
def Framed (os : List Object) : Nat → List Bytes → Prop
  | _, [] => True
  | n, chunk :: chunks =>
    finished os (n + chunk.length) ≤ finished os n + 1 ∧ newline ∉ begun os (n + chunk.length) ∧
      Framed os (n + chunk.length) chunks

def stream (os : List Object) : Bytes := os.flatMap Object.bytes

end Mcp.Spy
