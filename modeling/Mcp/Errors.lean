import Mathlib.Data.List.Sections
import Mcp.Lib.Fields

namespace Mcp.Errors
open Lib Lib.Bytes

-- Any mode but this one counts as production.
inductive ErrorVerbosityMode
  | production
  | development
deriving DecidableEq

def redacts (word : Bytes) : Bool :=
  ofString "/" <:+: word && (ofString "/" <+: word || ofString ":/" <:+: word)

def removePaths (msg : Bytes) : Bytes :=
  (ofString " ").intercalate
    ((fields msg).map fun word => if redacts word then ofString "[redacted]" else word)

def replacements : List (Bytes × Bytes) :=
  [(ofString "panic:", ofString "error:"),
    (ofString "goroutine", []),
    (ofString "runtime.", []),
    (ofString ".go:", []),
    (ofString "database/sql:", ofString "database error"),
    (ofString "crypto/", ofString "cryptographic error"),
    (ofString "internal error:", ofString "error:"),
    (ofString "unexpected type", ofString "invalid data")]

def removeInternalDetails (order : List (Bytes × Bytes)) (msg : Bytes) : Bytes := trimSpace (replaceEach order msg)

def toLower (msg : Bytes) : Bytes :=
  (replaceAll [0xe2, 0x84, 0xaa] (ofString "k") (replaceAll [0xc4, 0xb0] (ofString "i") msg)).map fun b =>
    if 65 ≤ b ∧ b ≤ 90 then b + 32 else b

def sensitivePatterns : List Bytes :=
  [ofString "password", ofString "token", ofString "secret", ofString "key:", ofString "auth:",
    ofString "credential", ofString "session", ofString "sql:", ofString "query:",
    ofString "connection string", ofString "database"]

def containsSensitiveInfo (msg : Bytes) : Bool := sensitivePatterns.any fun pattern => pattern <:+: toLower msg

def sanitizeErrorMessage (errorVerbosity : ErrorVerbosityMode) (order : List (Bytes × Bytes)) (message : Bytes) :
    Bytes :=
  if errorVerbosity = .development then message
  else
    let message := removeInternalDetails order (removePaths message)
    if containsSensitiveInfo message then ofString "internal server error" else message

/-- No word that `removePaths` would redact and no text that `removeInternalDetails` would replace. -/
def Clean (output : Bytes) : Prop :=
  (∀ word ∈ fields output, redacts word = false) ∧ ∀ pair ∈ replacements, ¬ pair.1 <:+: output

instance (output : Bytes) : Decidable (Clean output) :=
  inferInstanceAs (Decidable ((∀ word ∈ fields output, redacts word = false) ∧
    ∀ pair ∈ replacements, ¬ pair.1 <:+: output))

def pathMarks : List Bytes := ofString ":/" :: spaces.map (· ++ ofString "/")

variable {s word : Bytes}

theorem exists_mark_of_redacts (member : word ∈ fields (trimSpace s)) (redacted : redacts word = true) :
    ∃ mark ∈ pathMarks, mark <:+: 32 :: s := by
  have padded {p : Bytes} (inside : p <:+: s) : p <:+: 32 :: s := inside.trans (List.suffix_cons 32 s).isInfix
  simp only [redacts, Bool.and_eq_true, Bool.or_eq_true, decide_eq_true_eq] at redacted
  rcases redacted.2 with starts | inside
  · rcases starts_of_mem_fields_trimSpace member with leads | ⟨space, known, follows⟩
    · have blank : ofString " " ++ ofString "/" ∈ pathMarks := by decide
      exact ⟨_, blank, (List.cons_prefix_cons.mpr ⟨rfl, starts.trans leads⟩).isInfix⟩
    · refine ⟨space ++ ofString "/", List.mem_cons_of_mem _ (List.mem_map_of_mem known), ?_⟩
      have leads : space ++ ofString "/" <+: space ++ word := (List.prefix_append_right_inj space).mpr starts
      exact padded (leads.isInfix.trans follows)
  · exact ⟨ofString ":/", List.mem_cons_self,
      padded (inside.trans ((infix_of_mem_fields member).trans (infix_trimSpace s)))⟩

def markers : List Bytes := replacements.map Prod.fst

theorem markers_nonempty : ∀ p ∈ markers, p ≠ [] := by decide +kernel

theorem not_starts_blank : ∀ p ∈ markers, ∀ s, ¬ p <+: 32 :: s := by
  have heads : ∀ p ∈ markers, p.head? ≠ some 32 := by decide +kernel
  rintro p known s ⟨rest, joined⟩
  cases p with
  | nil => exact markers_nonempty [] known rfl
  | cons b p => exact heads _ known (congrArg List.head? joined)

theorem clean_trimSpace (absent : ∀ p ∈ markers ++ pathMarks, ¬ p <:+: 32 :: s) : Clean (trimSpace s) := by
  rw [List.forall_mem_append] at absent
  constructor
  · intro word member
    refine Bool.eq_false_iff.mpr fun redacted => ?_
    obtain ⟨mark, known, inside⟩ := exists_mark_of_redacts member redacted
    exact absent.2 mark known inside
  · intro pair known inside
    have within := (inside.trans (infix_trimSpace s)).trans (List.suffix_cons 32 s).isInfix
    exact absent.1 pair.1 (List.mem_map_of_mem known) within

/-- A part of a message: text, or a marker of the table with what is put in its place. -/
inductive Piece
  | plain (text : Bytes)
  | marker (pair : Bytes × Bytes)

namespace Piece

def source : Piece → Bytes
  | .plain text => text
  | .marker pair => pair.1

def versions : Piece → List Bytes
  | .plain text => [text]
  | .marker pair => [pair.1, pair.2]

def under (done : List (Bytes × Bytes)) : Piece → Bytes
  | .plain text => text
  | .marker pair => if pair ∈ done then pair.2 else pair.1

def Known : Piece → Prop
  | .plain text => ∀ p ∈ markers ++ pathMarks, ¬ p <:+: text
  | .marker pair => pair ∈ replacements

instance : DecidablePred Known
  | .plain text => inferInstanceAs (Decidable (∀ p ∈ markers ++ pathMarks, ¬ p <:+: text))
  | .marker pair => inferInstanceAs (Decidable (pair ∈ replacements))

end Piece

/-- The words of the message, those that begin a path as they are shown, cut into markers and texts
with no marker and no beginning of a path, such that neither reaches over a cut, whether the markers around it
stand there or have been replaced. -/
structure Cut (message : Bytes) (pieces : List Piece) : Prop where
  words : (pieces.map Piece.source).flatten =
    (fields message).flatMap fun word => 32 :: if redacts word then ofString "[redacted]" else word
  known : ∀ piece ∈ pieces, piece.Known
  apart : ∀ texts ∈ (pieces.map Piece.versions).sections, Apart (markers ++ pathMarks) texts

section
variable {message : Bytes} {pieces : List Piece} {piece : Piece} {done order : List (Bytes × Bytes)}
  {pair : Bytes × Bytes}

theorem markers_apart : ∀ pair ∈ replacements, ∀ other ∈ replacements, pair.1 <:+: other.1 → pair = other := by
  decide +kernel

theorem substitutes_clean : ∀ pair ∈ replacements, ∀ p ∈ markers ++ pathMarks, ¬ p <:+: pair.2 := by decide +kernel

theorem under_mem_sections (pieces : List Piece) (done : List (Bytes × Bytes)) :
    pieces.map (Piece.under done) ∈ (pieces.map Piece.versions).sections := by
  rw [List.mem_sections, List.forall₂_map_left_iff, List.forall₂_map_right_iff, List.forall₂_same]
  rintro (text | pair) -
  · exact List.mem_singleton.mpr rfl
  · simp only [Piece.under, Piece.versions]
    split_ifs <;> simp

theorem Cut.replaceAll_under (cut : Cut message pieces) (member : piece ∈ pieces) (known : pair ∈ replacements) :
    replaceAll pair.1 pair.2 (piece.under done) = piece.under (done ++ [pair]) := by
  have here := cut.known piece member
  cases piece with
  | plain text => exact replaceAll_of_absent (here pair.1 (List.mem_append_left _ (List.mem_map_of_mem known)))
  | marker other =>
    simp only [Piece.under, List.mem_append, List.mem_singleton]
    by_cases before : other ∈ done
    · rw [if_pos before, if_pos (.inl before)]
      exact replaceAll_of_absent (substitutes_clean other here _ (List.mem_append_left _ (List.mem_map_of_mem known)))
    · by_cases same : other = pair
      · have alone : replaceAll pair.1 pair.2 (pair.1 ++ []) = pair.2 ++ replaceAll pair.1 pair.2 [] :=
          replaceAll_append_left (markers_nonempty _ (List.mem_map_of_mem known)) []
        rw [if_neg before, if_pos (.inr same), same]
        simpa [replaceAll, split, splitFrom] using alone
      · rw [if_neg before, if_neg (not_or.mpr ⟨before, same⟩)]
        exact replaceAll_of_absent fun inside => same (markers_apart pair known other here inside).symm

-- by induction on the order: each step replaces its marker in every piece and nowhere else
theorem Cut.replaceEach_under (cut : Cut message pieces) (listed : ∀ pair ∈ order, pair ∈ replacements) :
    replaceEach order (pieces.map (Piece.under done)).flatten = (pieces.map (Piece.under (done ++ order))).flatten := by
  induction order generalizing done with
  | nil => simp [replaceEach]
  | cons pair order ih =>
    rw [List.forall_mem_cons] at listed
    have known : pair.1 ∈ markers := List.mem_map_of_mem listed.1
    have step : replaceAll pair.1 pair.2 (pieces.map (Piece.under done)).flatten =
        (pieces.map (Piece.under (done ++ [pair]))).flatten := by
      rw [replaceAll_flatten (markers_nonempty _ known) (List.mem_append_left _ known)
        (cut.apart _ (under_mem_sections pieces done)), List.map_map]
      exact congrArg List.flatten (List.map_congr_left fun piece member => cut.replaceAll_under member listed.1)
    rw [replaceEach, List.foldl_cons, step, List.append_cons done pair order]
    exact ih listed.2

theorem Cut.source_eq (cut : Cut message pieces) (some : fields message ≠ []) :
    (pieces.map (Piece.under [])).flatten = 32 :: removePaths message := by
  have joined : ∀ words : List Bytes, words ≠ [] →
      (words.flatMap fun word => 32 :: word) = 32 :: (ofString " ").intercalate words := by
    intro words some
    induction words with
    | nil => exact absurd rfl some
    | cons word words ih =>
      cases words with
      | nil => simp
      | cons next words =>
        rw [List.flatMap_cons, ih (List.cons_ne_nil _ _), List.intercalate_cons_cons, List.append_assoc]
        rfl
  have sources : pieces.map (Piece.under []) = pieces.map Piece.source :=
    List.map_congr_left fun piece _ => by cases piece <;> simp [Piece.under, Piece.source]
  rw [sources, cut.words, removePaths, ← joined _ (by simpa using some), List.flatMap_map]

theorem Cut.absent (cut : Cut message pieces) (perm : order.Perm replacements) (some : fields message ≠ []) :
    ∀ p ∈ markers ++ pathMarks, ¬ p <:+: 32 :: replaceEach order (removePaths message) := by
  intro p known inside
  have nonempty : ∀ p ∈ markers ++ pathMarks, p ≠ [] := by decide +kernel
  rw [← replaceEach_cons fun pair member => not_starts_blank pair.1 (List.mem_map_of_mem (perm.mem_iff.mp member)),
    ← cut.source_eq some, cut.replaceEach_under fun pair member => perm.mem_iff.mp member] at inside
  obtain ⟨text, shown, within⟩ :=
    exists_mem_of_infix_flatten (nonempty p known) known (cut.apart _ (under_mem_sections pieces _)) inside
  obtain ⟨piece, member, rfl⟩ := List.mem_map.mp shown
  have here := cut.known piece member
  cases piece with
  | marker pair =>
    rw [Piece.under, List.nil_append, if_pos (perm.mem_iff.mpr here)] at within
    exact substitutes_clean pair here p known within
  | plain text => exact here p known within

end

/-- Whatever the order of the replacements: a message shows no path and no marker if taking its markers out joins
nothing. -/
theorem sanitizing_clean {order : List (Bytes × Bytes)} (perm : order.Perm replacements) {message : Bytes}
    {pieces : List Piece} (cut : Cut message pieces) : Clean (sanitizeErrorMessage .production order message) := by
  rw [sanitizeErrorMessage, if_neg (by decide)]
  dsimp only
  split
  · decide +kernel
  · by_cases some : fields message = []
    · rw [removeInternalDetails, removePaths, some, List.map_nil, List.intercalate_nil, replaceEach_nil]
      decide +kernel
    · exact clean_trimSpace (cut.absent perm some)

theorem sanitizing_clean_trace :
    Clean (sanitizeErrorMessage .production replacements.reverse
      (ofString "internal error: open /etc/hosts: goroutine 1 main.go:12")) := by
  have cut : Cut (ofString "internal error: open /etc/hosts: goroutine 1 main.go:12")
      [.plain (ofString " "), .marker (ofString "internal error:", ofString "error:"),
        .plain (ofString " open [redacted] "), .marker (ofString "goroutine", []), .plain (ofString " 1 main"),
        .marker (ofString ".go:", []), .plain (ofString "12")] :=
    ⟨by decide +kernel, by decide +kernel, by decide +kernel⟩
  have perm : replacements.reverse.Perm replacements := List.reverse_perm _
  exact sanitizing_clean perm cut

theorem sanitizing_marker_rejoined :
    sanitizeErrorMessage .production replacements (ofString "goroutgoroutineine") = ofString "goroutine" ∧
      ¬ Clean (sanitizeErrorMessage .production replacements (ofString "goroutgoroutineine")) := by
  have output : sanitizeErrorMessage .production replacements (ofString "goroutgoroutineine") =
      ofString "goroutine" := by decide +kernel
  rw [output]
  exact ⟨rfl, by decide +kernel⟩

end Mcp.Errors
