import Mcp.Lib.Strconv

namespace Mcp.Streamable
open Mcp.Lib

abbrev StreamID := Int

def formatEventID (sid : StreamID) (idx : Int) : String :=
  String.ofList (formatInt sid ++ '_' :: formatInt idx)

def parseEventID (eventID : String) : Option (StreamID × Int) :=
  match eventID.toList.splitOn '_' with
  | [first, second] =>
    (parseInt first).bind fun stream =>
      if stream < 0 then none
      else (parseInt second).bind fun idx => if idx < 0 then none else some (stream, idx)
  | _ => none

variable {sid : StreamID} {idx i : Int} {lastEventID : String}

theorem parseEventID_eq_some {eventID : String} (parsed : parseEventID eventID = some (sid, idx)) :
    (0 ≤ sid ∧ sid ≤ maxInt) ∧ 0 ≤ idx ∧ idx ≤ maxInt := by
  unfold parseEventID at parsed
  split at parsed
  · next first second _ =>
      obtain ⟨stream, streamParsed, parsed⟩ := Option.bind_eq_some_iff.mp parsed
      split_ifs at parsed with negative
      obtain ⟨i, indexParsed, parsed⟩ := Option.bind_eq_some_iff.mp parsed
      split_ifs at parsed with negativeIndex
      cases parsed
      exact ⟨⟨not_lt.mp negative, (parseInt_range streamParsed).2⟩,
        not_lt.mp negativeIndex, (parseInt_range indexParsed).2⟩
  · cases parsed

theorem parseEventID_formatEventID (sidLow : 0 ≤ sid) (sidHigh : sid ≤ maxInt) (idxLow : 0 ≤ idx)
    (idxHigh : idx ≤ maxInt) : parseEventID (formatEventID sid idx) = some (sid, idx) := by
  have sidFits := parseInt_formatInt (le_trans (by decide) sidLow) sidHigh
  have idxFits := parseInt_formatInt (le_trans (by decide) idxLow) idxHigh
  have parts : (formatEventID sid idx).toList.splitOn '_' = [formatInt sid, formatInt idx] := by
    rw [formatEventID, String.toList_ofList,
      List.splitOn_append_cons_self_of_not_mem (underscore_not_mem_formatInt sid),
      List.splitOn_eq_singleton (underscore_not_mem_formatInt idx)]
  rw [parseEventID, parts]
  simp only [sidFits, idxFits, Option.bind_some, if_neg (not_lt.mpr sidLow),
    if_neg (not_lt.mpr idxLow)]

def resumePoint (lastEventID : String) : StreamID × Int :=
  if lastEventID = "" then (0, 0)
  else
    match parseEventID lastEventID with
    | some (sid, idx) => if 0 ≤ idx ∧ 0 ≤ sid then (sid, wrap (idx + 1)) else (0, 0)
    | none => (0, 0)

def acknowledged (lastEventID : String) : Option (StreamID × Int) := parseEventID lastEventID

theorem resumePoint_of_malformed (malformed : acknowledged lastEventID = none) : resumePoint lastEventID = (0, 0) := by
  unfold acknowledged at malformed
  simp [resumePoint, malformed]

theorem resumePoint_of_acknowledged (parsed : acknowledged lastEventID = some (sid, idx)) :
    resumePoint lastEventID = (sid, wrap (idx + 1)) := by
  have range := parseEventID_eq_some parsed
  have nonempty : lastEventID ≠ "" := by
    rintro rfl
    cases parsed
  unfold acknowledged at parsed
  simp [resumePoint, nonempty, parsed, range.1.1, range.2.1]

variable {α : Type*}

def index? (messages : List α) (i : Int) : Option α :=
  if i < 0 then none else messages[i.toNat]?

def flushLoop (messages : List α) : Nat → Int → Option (List α × Int)
  | 0, i => some ([], i)
  | n + 1, i =>
    (index? messages i).bind fun msg =>
      (flushLoop messages n (i + 1)).map fun rest => (msg :: rest.1, rest.2)

def flush (messages : List α) (resumeIndex : Int) : Option (List α × Int) :=
  flushLoop messages (messages.length - resumeIndex).toNat resumeIndex

theorem flushLoop_eq (messages : List α) (n i : Nat) (bound : i + n = messages.length) :
    flushLoop messages n i = some (messages.drop i, (messages.length : Int)) := by
  induction n generalizing i with
  | zero =>
    have atEnd : i = messages.length := by omega
    simp [flushLoop, atEnd]
  | succ n ih =>
    have inside : i < messages.length := by omega
    have next := ih (i + 1) (by omega)
    have element : index? messages i = some messages[i] := by
      simp [index?, inside]
    rw [flushLoop, element, Option.bind_some, ← Int.natCast_succ, next, Option.map_some,
      List.drop_eq_getElem_cons inside]

theorem flush_of_nonneg (messages : List α) (low : 0 ≤ i) :
    flush messages i = some (messages.drop i.toNat, max i messages.length) := by
  obtain ⟨i, rfl⟩ := Int.eq_ofNat_of_zero_le low
  unfold flush
  by_cases inside : i ≤ messages.length
  · have count : ((messages.length : Int) - i).toNat = messages.length - i := by omega
    rw [count, flushLoop_eq messages _ i (by omega)]
    rw [Int.toNat_natCast, max_eq_right (by omega)]
  · have count : ((messages.length : Int) - i).toNat = 0 := by omega
    have beyond : messages.length ≤ i := by omega
    rw [count, flushLoop, Int.toNat_natCast, List.drop_of_length_le beyond, max_eq_left (by omega)]

theorem flush_of_neg (messages : List α) (negative : i < 0) : flush messages i = none := by
  obtain ⟨n, count⟩ : ∃ n, ((messages.length : Int) - i).toNat = n + 1 :=
    Nat.exists_eq_succ_of_ne_zero (by omega)
  simp [flush, count, flushLoop, index?, negative]

end Mcp.Streamable
