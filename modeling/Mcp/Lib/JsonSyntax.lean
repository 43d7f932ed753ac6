import Mcp.Lib.Bytes
import Mathlib.Data.List.Infix
import Mathlib.Order.Lattice

/-! # JSON texts -/

namespace Mcp.Lib.JsonSyntax

def isSpace (b : UInt8) : Bool := b = 32 || b = 9 || b = 13 || b = 10

def isDigit (b : UInt8) : Bool := 48 ≤ b && b ≤ 57

def isHex (b : UInt8) : Bool := isDigit b || 97 ≤ b && b ≤ 102 || 65 ≤ b && b ≤ 70

def escapes : Bytes := [98, 102, 110, 114, 116, 92, 47, 34]

inductive StringBody : Bytes → Prop
  | nil : StringBody []
  | plain {b : UInt8} {rest : Bytes} (printable : 32 ≤ b) (noQuote : b ≠ 34) (noEscape : b ≠ 92)
      (body : StringBody rest) : StringBody (b :: rest)
  | escape {c : UInt8} {rest : Bytes} (known : c ∈ escapes) (body : StringBody rest) : StringBody (92 :: c :: rest)
  | unicode {digits rest : Bytes} (four : digits.length = 4) (hex : ∀ b ∈ digits, isHex b)
      (body : StringBody rest) : StringBody (92 :: 117 :: (digits ++ rest))

def IsString (t : Bytes) : Prop := ∃ body, StringBody body ∧ t = 34 :: (body ++ [34])

def IsDigits (t : Bytes) : Prop := t ≠ [] ∧ ∀ b ∈ t, isDigit b

def IsInteger (t : Bytes) : Prop := t = [48] ∨ ∃ d rest, t = d :: rest ∧ isDigit d ∧ d ≠ 48 ∧ ∀ b ∈ rest, isDigit b

def IsFraction (t : Bytes) : Prop := t = [] ∨ ∃ digits, IsDigits digits ∧ t = 46 :: digits

def IsExponent (t : Bytes) : Prop :=
  t = [] ∨ ∃ mark sign digits, (mark = 101 ∨ mark = 69) ∧ (sign = [] ∨ sign = [43] ∨ sign = [45]) ∧
    IsDigits digits ∧ t = mark :: (sign ++ digits)

def IsNumber (t : Bytes) : Prop :=
  ∃ sign integer fraction exponent, (sign = [] ∨ sign = [45]) ∧ IsInteger integer ∧ IsFraction fraction ∧
    IsExponent exponent ∧ t = sign ++ integer ++ fraction ++ exponent

def literals : List Bytes := ["true", "false", "null"].map Bytes.ofString

def IsSpaces (t : Bytes) : Prop := ∀ b ∈ t, isSpace b

inductive Symbol where
  | value
  | elements
  | members

inductive Derives : Symbol → Nat → Bytes → Prop
  | literal {t : Bytes} (known : t ∈ literals) : Derives .value 0 t
  | number {t : Bytes} (number : IsNumber t) : Derives .value 0 t
  | string {t : Bytes} (string : IsString t) : Derives .value 0 t
  | emptyArray {ws : Bytes} (spaces : IsSpaces ws) : Derives .value 1 (91 :: (ws ++ [93]))
  | array {d : Nat} {t : Bytes} (elements : Derives .elements d t) : Derives .value (d + 1) (91 :: (t ++ [93]))
  | emptyObject {ws : Bytes} (spaces : IsSpaces ws) : Derives .value 1 (123 :: (ws ++ [125]))
  | object {d : Nat} {t : Bytes} (members : Derives .members d t) : Derives .value (d + 1) (123 :: (t ++ [125]))
  | element {d : Nat} {t before after : Bytes} (lead : IsSpaces before) (value : Derives .value d t)
      (trail : IsSpaces after) : Derives .elements d (before ++ t ++ after)
  | elements {d d' : Nat} {t rest before after : Bytes} (lead : IsSpaces before) (value : Derives .value d t)
      (trail : IsSpaces after) (more : Derives .elements d' rest) :
      Derives .elements (max d d') (before ++ t ++ after ++ 44 :: rest)
  | member {d : Nat} {key t before between between' after : Bytes} (lead : IsSpaces before) (string : IsString key)
      (gap : IsSpaces between) (gap' : IsSpaces between') (value : Derives .value d t) (trail : IsSpaces after) :
      Derives .members d (before ++ key ++ between ++ 58 :: (between' ++ t ++ after))
  | members {d d' : Nat} {key t rest before between between' after : Bytes} (lead : IsSpaces before)
      (string : IsString key) (gap : IsSpaces between) (gap' : IsSpaces between') (value : Derives .value d t)
      (trail : IsSpaces after) (more : Derives .members d' rest) :
      Derives .members (max d d') (before ++ key ++ between ++ 58 :: (between' ++ t ++ after ++ 44 :: rest))

inductive State where
  | beginValue
  | beginValueOrEmpty
  | beginString
  | beginStringOrEmpty
  | endValue
  | inString
  | inStringEsc
  | inStringEscU (digits : Nat)
  | literal (rest : Bytes)
  | neg
  | zero
  | digits
  | dot
  | dotDigits
  | exponent
  | exponentSign
  | exponentDigits
  deriving DecidableEq

inductive Parse where
  | objectKey
  | objectValue
  | arrayValue
  deriving DecidableEq

abbrev Scanner := State × List Parse

def maxNestingDepth : Nat := 10000

def push (state : State) (top : Parse) (stack : List Parse) : Option Scanner :=
  if stack.length < maxNestingDepth then some (state, top :: stack) else none

-- With an empty stack the text is complete, and only white space may follow.
def endValue (stack : List Parse) (c : UInt8) : Option Scanner :=
  if isSpace c then some (.endValue, stack)
  else match stack with
    | [] => none
    | .objectKey :: rest => if c = 58 then some (.beginValue, .objectValue :: rest) else none
    | .objectValue :: rest =>
      if c = 44 then some (.beginString, .objectKey :: rest)
      else if c = 125 then some (.endValue, rest)
      else none
    | .arrayValue :: rest =>
      if c = 44 then some (.beginValue, .arrayValue :: rest)
      else if c = 93 then some (.endValue, rest)
      else none

def beginValue (stack : List Parse) (c : UInt8) : Option Scanner :=
  if c = 123 then push .beginStringOrEmpty .objectKey stack
  else if c = 91 then push .beginValueOrEmpty .arrayValue stack
  else if c = 34 then some (.inString, stack)
  else if c = 45 then some (.neg, stack)
  else if c = 48 then some (.zero, stack)
  else if c = 116 then some (.literal (Bytes.ofString "rue"), stack)
  else if c = 102 then some (.literal (Bytes.ofString "alse"), stack)
  else if c = 110 then some (.literal (Bytes.ofString "ull"), stack)
  else if isDigit c then some (.digits, stack)
  else none

def zero (stack : List Parse) (c : UInt8) : Option Scanner :=
  if c = 46 then some (.dot, stack)
  else if c = 101 ∨ c = 69 then some (.exponent, stack)
  else endValue stack c

def step : Scanner → UInt8 → Option Scanner
  | (.beginValue, stack), c => if isSpace c then some (.beginValue, stack) else beginValue stack c
  | (.beginValueOrEmpty, stack), c =>
    if isSpace c then some (.beginValueOrEmpty, stack)
    else if c = 93 then endValue stack c
    else beginValue stack c
  | (.beginString, stack), c =>
    if isSpace c then some (.beginString, stack) else if c = 34 then some (.inString, stack) else none
  | (.beginStringOrEmpty, stack), c =>
    if isSpace c then some (.beginStringOrEmpty, stack)
    else if c = 125 then endValue (.objectValue :: stack.tail) c
    else if c = 34 then some (.inString, stack)
    else none
  | (.endValue, stack), c => endValue stack c
  | (.inString, stack), c =>
    if c = 34 then some (.endValue, stack)
    else if c = 92 then some (.inStringEsc, stack)
    else if c < 32 then none
    else some (.inString, stack)
  | (.inStringEsc, stack), c =>
    if c ∈ escapes then some (.inString, stack)
    else if c = 117 then some (.inStringEscU 4, stack)
    else none
  | (.inStringEscU digits, stack), c =>
    if isHex c then some (if digits ≤ 1 then .inString else .inStringEscU (digits - 1), stack) else none
  | (.literal [], _), _ => none
  | (.literal (b :: rest), stack), c =>
    if c = b then some (if rest = [] then .endValue else .literal rest, stack) else none
  | (.neg, stack), c =>
    if c = 48 then some (.zero, stack) else if isDigit c then some (.digits, stack) else none
  | (.zero, stack), c => zero stack c
  | (.digits, stack), c => if isDigit c then some (.digits, stack) else zero stack c
  | (.dot, stack), c => if isDigit c then some (.dotDigits, stack) else none
  | (.dotDigits, stack), c =>
    if isDigit c then some (.dotDigits, stack)
    else if c = 101 ∨ c = 69 then some (.exponent, stack)
    else endValue stack c
  | (.exponent, stack), c =>
    if c = 43 ∨ c = 45 then some (.exponentSign, stack)
    else if isDigit c then some (.exponentDigits, stack)
    else none
  | (.exponentSign, stack), c => if isDigit c then some (.exponentDigits, stack) else none
  | (.exponentDigits, stack), c => if isDigit c then some (.exponentDigits, stack) else endValue stack c

def run : Scanner → Bytes → Option Scanner
  | s, [] => some s
  | s, c :: cs => (step s c).bind fun s' => run s' cs

def Valid (t : Bytes) : Bool := ((run (.beginValue, []) t).bind (step · 32)) = some (.endValue, [])

variable {stack : List Parse} {s s' : Scanner} {t u ws : Bytes} {c : UInt8} {d : Nat}

theorem run_append (s : Scanner) (t u : Bytes) : run s (t ++ u) = (run s t).bind fun s' => run s' u := by
  induction t generalizing s with
  | nil => rfl
  | cons c t ih =>
    simp only [List.cons_append, run, Option.bind_assoc]
    congr
    funext s'
    exact ih s'

theorem run_append_of (first : run s t = some s') : run s (t ++ u) = run s' u := by
  rw [run_append, first]
  rfl

theorem run_append_none (first : run s t = none) : run s (t ++ u) = none := by
  rw [run_append, first]
  rfl

theorem run_cons_of {r : Scanner} (first : step s c = some r) : run s (c :: u) = run r u := by
  rw [run, first]
  rfl

theorem run_spaces (spaces : IsSpaces ws) (skips : ∀ b, isSpace b → step s b = some s) : run s ws = some s := by
  induction ws with
  | nil => rfl
  | cons b ws ih =>
    rw [run_cons_of (skips b (spaces b List.mem_cons_self))]
    exact ih fun b member => spaces b (List.mem_cons_of_mem _ member)

theorem endValue_space (stack : List Parse) (space : isSpace c) : endValue stack c = some (.endValue, stack) := by
  unfold endValue
  rw [if_pos space]

/-- What may stand after a value. -/
def Follows (c : UInt8) : Prop := isSpace c ∨ c = 44 ∨ c = 93 ∨ c = 125

def Ended (s : Scanner) (stack : List Parse) : Prop := ∀ c, Follows c → step s c = endValue stack c

theorem ended_endValue (stack : List Parse) : Ended (.endValue, stack) stack := fun _ _ => rfl

theorem Ended.spaces (ended : Ended s stack) (spaces : IsSpaces ws) : ∃ s', run s ws = some s' ∧ Ended s' stack := by
  cases ws with
  | nil => exact ⟨s, rfl, ended⟩
  | cons b ws =>
    have space : isSpace b := spaces b List.mem_cons_self
    refine ⟨(.endValue, stack), ?_, ended_endValue stack⟩
    have first : step s b = some (.endValue, stack) := by
      rw [ended b (.inl space), endValue_space stack space]
    rw [run_cons_of first]
    apply run_spaces fun b member => spaces b (List.mem_cons_of_mem _ member)
    exact fun b space => endValue_space stack space

theorem follows_cases (follows : Follows c) : c = 32 ∨ c = 9 ∨ c = 13 ∨ c = 10 ∨ c = 44 ∨ c = 93 ∨ c = 125 := by
  simpa [Follows, isSpace, or_assoc] using follows

theorem run_hex {digits : Bytes} {n : Nat} (count : digits.length = n + 1) (hex : ∀ b ∈ digits, isHex b) :
    run (.inStringEscU (n + 1), stack) digits = some (.inString, stack) := by
  induction digits generalizing n with
  | nil => cases count
  | cons b digits ih =>
    have first : isHex b := hex b List.mem_cons_self
    have rest : ∀ b ∈ digits, isHex b := fun b member => hex b (List.mem_cons_of_mem _ member)
    cases n with
    | zero =>
      have none : digits = [] := by simpa using count
      subst none
      simp [run, step, first]
    | succ n =>
      rw [run_cons_of (r := (.inStringEscU (n + 1), stack)) (by simp [step, first])]
      exact ih (by simpa using count) rest

theorem run_stringBody (body : StringBody t) : run (.inString, stack) t = some (.inString, stack) := by
  induction body with
  | nil => rfl
  | @plain b rest printable noQuote noEscape body ih =>
    have first : step (.inString, stack) b = some (.inString, stack) := by
      simp [step, noQuote, noEscape, UInt8.not_lt.mpr printable]
    rw [run_cons_of first]
    exact ih
  | @escape c rest known body ih =>
    rw [run_cons_of (r := (.inStringEsc, stack)) rfl, run_cons_of (r := (.inString, stack)) (by simp [step, known])]
    exact ih
  | @unicode digits rest four hex body ih =>
    rw [run_cons_of (r := (.inStringEsc, stack)) rfl, run_cons_of (r := (.inStringEscU 4, stack)) rfl,
      run_append_of (run_hex four hex)]
    exact ih

theorem run_string (string : IsString t) (opens : step s 34 = some (.inString, stack)) :
    run s t = some (.endValue, stack) := by
  obtain ⟨body, text, rfl⟩ := string
  rw [run_cons_of opens, run_append_of (run_stringBody text)]
  rfl

variable {state : State} {top : Parse} {closing : UInt8} {before after : Bytes}

theorem run_digits (all : ∀ b ∈ t, isDigit b) (stays : ∀ b, isDigit b → step (state, stack) b = some (state, stack)) :
    run (state, stack) t = some (state, stack) := by
  induction t with
  | nil => rfl
  | cons b t ih =>
    rw [run_cons_of (stays b (all b List.mem_cons_self))]
    exact ih fun b member => all b (List.mem_cons_of_mem _ member)

theorem run_someDigits (digits : IsDigits t) (first : ∀ b, isDigit b → step s b = some (state, stack))
    (stays : ∀ b, isDigit b → step (state, stack) b = some (state, stack)) : run s t = some (state, stack) := by
  obtain ⟨some, all⟩ := digits
  cases t with
  | nil => exact (some rfl).elim
  | cons b t =>
    rw [run_cons_of (first b (all b List.mem_cons_self))]
    exact run_digits (fun b member => all b (List.mem_cons_of_mem _ member)) stays

structure Scaled (s : Scanner) (stack : List Parse) : Prop where
  ended : Ended s stack
  lower : step s 101 = some (.exponent, stack)
  upper : step s 69 = some (.exponent, stack)

theorem ended_digits (kind : state = .zero ∨ state = .digits ∨ state = .dotDigits ∨ state = .exponentDigits) :
    Ended (state, stack) stack := by
  intro c follows
  obtain rfl | rfl | rfl | rfl := kind <;>
    obtain rfl | rfl | rfl | rfl | rfl | rfl | rfl := follows_cases follows <;> rfl

theorem run_exponent (exponent : IsExponent t) (scaled : Scaled s stack) :
    ∃ s', run s t = some s' ∧ Ended s' stack := by
  obtain rfl | ⟨mark, sign, digits, marked, signed, number, rfl⟩ := exponent
  · exact ⟨s, rfl, scaled.ended⟩
  have opens : step s mark = some (.exponent, stack) := by
    obtain rfl | rfl := marked
    · exact scaled.lower
    · exact scaled.upper
  refine ⟨(.exponentDigits, stack), ?_, ended_digits (by simp)⟩
  have stays (b : UInt8) (digit : isDigit b) :
      step (.exponentDigits, stack) b = some (.exponentDigits, stack) := by simp [step, digit]
  have signless (b : UInt8) (digit : isDigit b) : ¬ (b = 43 ∨ b = 45) := by
    rintro (rfl | rfl) <;> cases digit
  rw [run_cons_of opens]
  obtain rfl | rfl | rfl := signed
  · exact run_someDigits number (fun b digit => by simp [step, signless b digit, digit]) stays
  all_goals
    rw [List.singleton_append, run_cons_of (r := (.exponentSign, stack)) rfl]
    exact run_someDigits number (fun b digit => by simp [step, digit]) stays

theorem run_fraction (fraction : IsFraction t) (scaled : Scaled s stack) (dot : step s 46 = some (.dot, stack)) :
    ∃ s', run s t = some s' ∧ Scaled s' stack := by
  obtain rfl | ⟨digits, number, rfl⟩ := fraction
  · exact ⟨s, rfl, scaled⟩
  refine ⟨(.dotDigits, stack), ?_, ended_digits (by simp), rfl, rfl⟩
  rw [run_cons_of dot]
  exact run_someDigits number (fun b digit => by simp [step, digit]) (fun b digit => by simp [step, digit])

theorem run_integer (integer : IsInteger t) (zero : step s 48 = some (.zero, stack))
    (digits : ∀ b, isDigit b → b ≠ 48 → step s b = some (.digits, stack)) :
    ∃ s', run s t = some s' ∧ Scaled s' stack ∧ step s' 46 = some (.dot, stack) := by
  obtain rfl | ⟨d, rest, rfl, digit, nonzero, all⟩ := integer
  · refine ⟨(.zero, stack), ?_, ⟨ended_digits (by simp), rfl, rfl⟩, rfl⟩
    rw [run_cons_of zero]
    rfl
  · refine ⟨(.digits, stack), ?_, ⟨ended_digits (by simp), rfl, rfl⟩, rfl⟩
    rw [run_cons_of (digits d digit nonzero)]
    exact run_digits all fun b digit => by simp [step, digit]

theorem ne_of_isDigit {b k : UInt8} (digit : isDigit b) (outside : k < 48 ∨ 57 < k) : b ≠ k := by
  have bounds : 48 ≤ b ∧ b ≤ 57 := by simpa [isDigit] using digit
  rintro rfl
  obtain low | high := outside
  · exact absurd bounds.1 (UInt8.not_le.mpr low)
  · exact absurd bounds.2 (UInt8.not_le.mpr high)

def Begins (s : Scanner) (stack : List Parse) : Prop :=
  ∀ c, ¬ isSpace c → c ≠ 93 → step s c = beginValue stack c

theorem Begins.digits (begins : Begins s stack) {b : UInt8} (digit : isDigit b) (nonzero : b ≠ 48) :
    step s b = some (.digits, stack) := by
  have other (k : UInt8) (outside : k < 48 ∨ 57 < k) : b ≠ k := ne_of_isDigit digit outside
  rw [begins b (by simp [isSpace, other]) (other 93 (by decide))]
  simp [beginValue, other, nonzero, digit]

theorem run_number (number : IsNumber t) (begins : Begins s stack) : ∃ s', run s t = some s' ∧ Ended s' stack := by
  obtain ⟨sign, integer, fraction, exponent, signed, whole, part, scale, rfl⟩ := number
  have unsigned {s₀ : Scanner} (zero : step s₀ 48 = some (.zero, stack))
      (digits : ∀ b, isDigit b → b ≠ 48 → step s₀ b = some (.digits, stack)) :
      ∃ s', run s₀ (integer ++ (fraction ++ exponent)) = some s' ∧ Ended s' stack := by
    obtain ⟨s₁, first, scaled, dot⟩ := run_integer whole zero digits
    obtain ⟨s₂, second, scaled⟩ := run_fraction part scaled dot
    obtain ⟨s₃, third, ended⟩ := run_exponent scale scaled
    refine ⟨s₃, ?_, ended⟩
    rw [run_append_of first, run_append_of second]
    exact third
  rw [List.append_assoc, List.append_assoc]
  obtain rfl | rfl := signed
  · exact unsigned (begins 48 (by decide) (by decide)) fun b digit nonzero => begins.digits digit nonzero
  · rw [List.singleton_append, run_cons_of (begins 45 (by decide) (by decide))]
    exact unsigned rfl fun b digit nonzero => by simp [step, digit, nonzero]

def Reads (s : Scanner) (stack : List Parse) (d : Nat) (t : Bytes) : Prop :=
  (stack.length + d ≤ maxNestingDepth ∧ ∃ s', run s t = some s' ∧ Ended s' stack) ∨
    (maxNestingDepth < stack.length + d ∧ run s t = none)

theorem run_literal (known : t ∈ literals) (begins : Begins s stack) : run s t = some (.endValue, stack) := by
  have rest {c : UInt8} {u : Bytes} (plain : ¬ isSpace c) (other : c ≠ 93)
      (first : beginValue stack c = some (.literal u, stack))
      (others : run (.literal u, stack) u = some (.endValue, stack)) : run s (c :: u) = some (.endValue, stack) := by
    rw [run_cons_of ((begins c plain other).trans first)]
    exact others
  simp only [literals, List.map_cons, List.map_nil, List.mem_cons, List.not_mem_nil, or_false] at known
  obtain rfl | rfl | rfl := known
  · exact rest (u := Bytes.ofString "rue") (c := 116) (by decide) (by decide) rfl rfl
  · exact rest (u := Bytes.ofString "alse") (c := 102) (by decide) (by decide) rfl rfl
  · exact rest (u := Bytes.ofString "ull") (c := 110) (by decide) (by decide) rfl rfl

theorem Ended.close (ended : Ended s (top :: stack)) (follows : Follows closing)
    (closes : endValue (top :: stack) closing = some (.endValue, stack)) (first : run s' t = some s) :
    run s' (t ++ [closing]) = some (.endValue, stack) := by
  rw [run_append_of first, run_cons_of ((ended closing follows).trans closes)]
  rfl

theorem begins_beginValue (stack : List Parse) : Begins (.beginValue, stack) stack := by
  intro c plain _
  simp [step, plain]

theorem begins_beginValueOrEmpty (stack : List Parse) : Begins (.beginValueOrEmpty, stack) stack := by
  intro c plain other
  simp [step, plain, other]

theorem push_of_lt (room : stack.length < maxNestingDepth) :
    push state top stack = some (state, top :: stack) := if_pos room

theorem push_of_le (full : maxNestingDepth ≤ stack.length) : push state top stack = none := if_neg (Nat.not_lt.mpr full)

theorem reads_bracket {opening : UInt8} (begins : Begins s stack) (plain : ¬ isSpace opening) (other : opening ≠ 93)
    (opens : beginValue stack opening = push state top stack) (inner : stack.length < maxNestingDepth →
      (stack.length + 1 + d ≤ maxNestingDepth ∧ run (state, top :: stack) t = some (.endValue, stack)) ∨
      (maxNestingDepth < stack.length + 1 + d ∧ run (state, top :: stack) t = none)) :
    Reads s stack (d + 1) (opening :: t) := by
  have first : step s opening = push state top stack := (begins opening plain other).trans opens
  obtain room | full := Nat.lt_or_ge stack.length maxNestingDepth
  · rw [push_of_lt room] at first
    rw [Reads, run_cons_of first]
    obtain ⟨within, read⟩ | ⟨beyond, refused⟩ := inner room
    · exact .inl ⟨by omega, _, read, ended_endValue stack⟩
    · exact .inr ⟨by omega, refused⟩
  · rw [push_of_le full] at first
    refine .inr ⟨by omega, ?_⟩
    rw [run, first]
    rfl

theorem Reads.close (reads : Reads s (top :: stack) d t) (follows : Follows closing)
    (closes : endValue (top :: stack) closing = some (.endValue, stack)) :
    (stack.length + 1 + d ≤ maxNestingDepth ∧ run s (t ++ [closing]) = some (.endValue, stack)) ∨
      (maxNestingDepth < stack.length + 1 + d ∧ run s (t ++ [closing]) = none) := by
  obtain ⟨within, s', read, ended⟩ | ⟨beyond, refused⟩ := reads
  · exact .inl ⟨within, ended.close follows closes read⟩
  · exact .inr ⟨beyond, run_append_none refused⟩

/-- What the automaton does on the texts of a symbol. -/
def Accepts : Symbol → Nat → Bytes → Prop
  | .value, d, t => ∀ s stack, stack.length ≤ maxNestingDepth → Begins s stack → Reads s stack d t
  | .elements, d, t => ∀ s stack, stack.length < maxNestingDepth → Begins s (.arrayValue :: stack) →
      (∀ b, isSpace b → step s b = some s) → Reads s (.arrayValue :: stack) d t
  | .members, d, t => ∀ s stack, stack.length < maxNestingDepth → step s 34 = some (.inString, .objectKey :: stack) →
      (∀ b, isSpace b → step s b = some s) → Reads s (.objectValue :: stack) d t

theorem Reads.spaces (reads : Reads s stack d t) (skips : ∀ b, isSpace b → step s b = some s)
    (lead : IsSpaces before) (trail : IsSpaces after) : Reads s stack d (before ++ t ++ after) := by
  rw [Reads, List.append_assoc, run_append_of (run_spaces lead skips)]
  obtain ⟨within, s', read, ended⟩ | ⟨beyond, refused⟩ := reads
  · obtain ⟨s'', skipped, ended⟩ := ended.spaces trail
    exact .inl ⟨within, s'', by rw [run_append_of read, skipped], ended⟩
  · exact .inr ⟨beyond, run_append_none refused⟩

theorem Reads.comma {d' : Nat} {rest : Bytes} {next : Scanner} (reads : Reads s (top :: stack) d t)
    (comma : endValue (top :: stack) 44 = some next) (others : Reads next (top :: stack) d' rest) :
    Reads s (top :: stack) (max d d') (t ++ 44 :: rest) := by
  obtain ⟨within, s', read, ended⟩ | ⟨beyond, refused⟩ := reads
  · have second : step s' 44 = some next := (ended 44 (by simp [Follows])).trans comma
    rw [Reads, run_append_of read, run_cons_of second]
    obtain ⟨within', rest⟩ | ⟨beyond, refused⟩ := others
    · exact .inl ⟨by omega, rest⟩
    · exact .inr ⟨by omega, refused⟩
  · exact .inr ⟨by omega, run_append_none refused⟩

theorem reads_member {key between between' : Bytes}
    (opens : step s 34 = some (.inString, .objectKey :: stack)) (skips : ∀ b, isSpace b → step s b = some s)
    (lead : IsSpaces before) (string : IsString key) (gap : IsSpaces between) (gap' : IsSpaces between')
    (trail : IsSpaces after) (room : stack.length < maxNestingDepth) (value : Accepts .value d t) :
    Reads s (.objectValue :: stack) d (before ++ key ++ between ++ 58 :: (between' ++ t ++ after)) := by
  have named : run s (before ++ key ++ between) = some (.endValue, .objectKey :: stack) := by
    rw [List.append_assoc, run_append_of (run_spaces lead skips), run_append_of (run_string string opens)]
    exact run_spaces gap fun b space => endValue_space _ space
  rw [Reads, run_append_of named, run_cons_of (r := (.beginValue, .objectValue :: stack)) rfl]
  exact (value _ (.objectValue :: stack) room (begins_beginValue _)).spaces
    (fun b space => by simp [step, space]) gap' trail

theorem accepts {symbol : Symbol} (derives : Derives symbol d t) : Accepts symbol d t := by
  induction derives with
  | literal known =>
    intro s stack room begins
    exact .inl ⟨room, _, run_literal known begins, ended_endValue stack⟩
  | number number =>
    intro s stack room begins
    exact .inl ⟨room, run_number number begins⟩
  | string string =>
    intro s stack room begins
    exact .inl ⟨room, _, run_string string (begins 34 (by decide) (by decide)), ended_endValue stack⟩
  | emptyArray spaces | emptyObject spaces =>
    intro s stack _ begins
    apply reads_bracket begins (by decide) (by decide) rfl
    intro room
    refine .inl ⟨room, ?_⟩
    rw [run_append_of (run_spaces spaces fun b space => by simp [step, space])]
    rfl
  | array elements ih =>
    intro s stack _ begins
    apply reads_bracket begins (by decide) (by decide) rfl
    intro room
    have inner := ih (.beginValueOrEmpty, _) stack room (begins_beginValueOrEmpty _) fun b space => by
      simp [step, space]
    exact inner.close (by simp [Follows]) rfl
  | object members ih =>
    intro s stack _ begins
    apply reads_bracket begins (by decide) (by decide) rfl
    intro room
    have inner := ih (.beginStringOrEmpty, _) stack room rfl fun b space => by simp [step, space]
    exact inner.close (by simp [Follows]) rfl
  | element lead value trail ih =>
    intro s stack room begins skips
    exact (ih s (.arrayValue :: stack) room begins).spaces skips lead trail
  | elements lead value trail more ih ih' =>
    intro s stack room begins skips
    have first := (ih s (.arrayValue :: stack) room begins).spaces skips lead trail
    exact first.comma rfl (ih' (.beginValue, _) stack room (begins_beginValue _) fun b space => by simp [step, space])
  | member lead string gap gap' value trail ih =>
    intro s stack room opens skips
    exact reads_member opens skips lead string gap gap' trail room ih
  | members lead string gap gap' value trail more ih ih' =>
    intro s stack room opens skips
    have first := reads_member opens skips lead string gap gap' trail room ih
    have both := first.comma rfl (ih' (.beginString, _) stack room rfl fun b space => by simp [step, space])
    simpa using both

theorem valid_iff (derives : Derives .value d t) : Valid t ↔ d ≤ maxNestingDepth := by
  obtain ⟨within, s', read, ended⟩ | ⟨beyond, refused⟩ :=
    accepts derives (.beginValue, []) [] (Nat.zero_le _) (begins_beginValue _)
  · refine iff_of_true ?_ (by simpa using within)
    have last : step s' 32 = some (.endValue, []) := ended 32 (by simp [Follows, isSpace])
    simp [Valid, read, last]
  · refine iff_of_false ?_ (by simpa using beyond)
    simp [Valid, refused]

theorem not_valid_of_more (derives : Derives .value d t) (spaces : IsSpaces ws) (some : ws ≠ []) (plain : ¬ isSpace c)
    (u : Bytes) : ¬ Valid (t ++ ws ++ c :: u) := by
  suffices refused : run (.beginValue, []) (t ++ ws ++ c :: u) = none by
    rw [Valid, refused]
    simp
  rw [List.append_assoc]
  obtain ⟨-, s', read, ended⟩ | ⟨-, refused⟩ :=
    accepts derives (.beginValue, []) [] (Nat.zero_le _) (begins_beginValue _)
  · rw [run_append_of read]
    cases ws with
    | nil => exact (some rfl).elim
    | cons b ws =>
      have space : isSpace b := spaces b List.mem_cons_self
      have first : step s' b = .some (.endValue, []) := (ended b (.inl space)).trans (endValue_space [] space)
      have others : run (.endValue, []) ws = .some (.endValue, []) :=
        run_spaces (fun b member => spaces b (List.mem_cons_of_mem _ member)) fun b space => endValue_space [] space
      have last : step (.endValue, []) c = none := by simp [step, endValue, plain]
      rw [List.cons_append, run_cons_of first, run_append_of others, run, last]
      rfl
  · exact run_append_none refused

end Mcp.Lib.JsonSyntax
