import Mcp.Lib.Entries
import Mcp.Lib.Fields

namespace Mcp.OtelTrace
open Lib Lib.Bytes Lib.Entries List

variable {ω τ : Type}

structure MCPMessage (ω τ : Type) where
  line : Nat
  direction : Bytes
  json : ω
  timestamp : τ
  spanID : Bytes := []
  linksTo : Bytes := []
  baggage : List (Bytes × Bytes) := []

structure Parsers (ω τ : Type) where
  lineRegex : Bytes → Option (Bytes × Bytes × Bytes × Bytes)
  shadowLineRegex : Bytes → Option (Bytes × Bytes × Bytes × Bytes)
  unmarshal : Bytes → Option ω
  parseFloat : Bytes → Option τ

def parseBaggage (text : Bytes) (baggage : List (Bytes × Bytes)) : List (Bytes × Bytes) :=
  (split (ofString ",") text).foldl
    (fun baggage pair => ((cut 61 pair).map fun kv => put kv.1 kv.2 baggage).getD baggage) baggage

def parseField (msg : MCPMessage ω τ) (field : Bytes) : MCPMessage ω τ :=
  if (ofString "spanid=").isPrefixOf field then { msg with spanID := field.drop 7 }
  else if (ofString "linksto=").isPrefixOf field then { msg with linksTo := field.drop 8 }
  else if (ofString "baggage=").isPrefixOf field then { msg with baggage := parseBaggage (field.drop 8) msg.baggage }
  else msg

def parseLine (p : Parsers ω τ) (number : Nat) (line : Bytes) : Option (MCPMessage ω τ) := do
  let (direction, json, timestamp, extra) ← (p.lineRegex line).or (p.shadowLineRegex line)
  let json ← p.unmarshal json
  let timestamp ← p.parseFloat timestamp
  return (fields extra).foldl parseField { line := number, direction, json, timestamp }

def parseLines (p : Parsers ω τ) (number : Nat) : List Bytes → List (MCPMessage ω τ)
  | [] => []
  | line :: rest =>
    if (ofString "# mcptrace:").isPrefixOf line then parseLines p (number + 1) rest
    else (parseLine p number line).toList ++ parseLines p (number + 1) rest

def table (msgs : List (MCPMessage ω τ)) : List (Bytes × MCPMessage ω τ) :=
  msgs.foldl (fun entries msg => put msg.spanID msg entries) []

def links (msgs : List (MCPMessage ω τ)) (spanID : Bytes) : List Bytes :=
  (msgs.filter fun msg => msg.linksTo ≠ [] ∧ msg.linksTo = spanID).map (·.spanID)

structure Span (ω τ : Type) where
  message : MCPMessage ω τ
  events : List (MCPMessage ω τ)

def Span.lines (span : Span ω τ) : List Nat := (span.message :: span.events).map (·.line)

def createSpan (msgs : List (MCPMessage ω τ)) : Bytes × MCPMessage ω τ → Option (Span ω τ)
  | (spanID, msg) =>
    if msg.linksTo ≠ [] then none else some ⟨msg, (links msgs spanID).filterMap ((table msgs).lookup ·)⟩

def processTraceFile (msgs : List (MCPMessage ω τ)) (visited : List (Bytes × MCPMessage ω τ)) : List (Span ω τ) :=
  visited.filterMap (createSpan msgs)

/-- Every line is in one span or one event, once. -/
def Conserved (msgs : List (MCPMessage ω τ)) (visited : List (Bytes × MCPMessage ω τ)) : Prop :=
  ∀ msg ∈ msgs, ((processTraceFile msgs visited).flatMap Span.lines).count msg.line = 1

/-- The span ids are distinct, and what a line links to is a line that links to nothing. -/
def Separate (msgs : List (MCPMessage ω τ)) : Prop :=
  (msgs.map (·.spanID)).Nodup ∧
    ∀ msg ∈ msgs, msg.linksTo ≠ [] → ∃ root ∈ msgs, root.spanID = msg.linksTo ∧ root.linksTo = []

variable {p : Parsers ω τ} {msgs : List (MCPMessage ω τ)} {msg : MCPMessage ω τ}
  {visited : List (Bytes × MCPMessage ω τ)}
  {spanID : Bytes}

theorem line_parseField (msg : MCPMessage ω τ) (parts : List Bytes) : (parts.foldl parseField msg).line = msg.line := by
  induction parts generalizing msg with
  | nil => rfl
  | cons part rest ih =>
    rw [foldl_cons, ih, parseField]
    split_ifs <;> rfl

theorem line_parseLine {number : Nat} {line : Bytes} (parsed : parseLine p number line = some msg) :
    msg.line = number := by
  simp only [parseLine, Option.bind_eq_bind, Option.bind_eq_some_iff] at parsed
  obtain ⟨⟨direction, text, stamp, extra⟩, -, json, -, timestamp, -, made⟩ := parsed
  cases made
  exact line_parseField _ _

theorem number_le_line {number : Nat} {lines : List Bytes} (member : msg ∈ parseLines p number lines) :
    number ≤ msg.line := by
  induction lines generalizing number with
  | nil => cases member
  | cons line rest ih =>
    rw [parseLines] at member
    split_ifs at member
    · exact Nat.le_of_succ_le (ih member)
    · rcases mem_append.mp member with here | later
      · exact Nat.le_of_eq (line_parseLine (Option.mem_toList.mp here)).symm
      · exact Nat.le_of_succ_le (ih later)

theorem nodup_lines (p : Parsers ω τ) (number : Nat) (lines : List Bytes) :
    ((parseLines p number lines).map (·.line)).Nodup := by
  induction lines generalizing number with
  | nil => exact nodup_nil
  | cons line rest ih =>
    rw [parseLines]
    split_ifs
    · exact ih (number + 1)
    · cases parsed : parseLine p number line with
      | none => exact ih (number + 1)
      | some msg =>
        refine nodup_cons.mpr ⟨fun member => ?_, ih (number + 1)⟩
        obtain ⟨other, later, same⟩ := mem_map.mp member
        have after : number + 1 ≤ other.line := number_le_line later
        rw [same.trans (line_parseLine parsed)] at after
        exact Nat.not_succ_le_self number after

theorem nodup_keys_table (msgs : List (MCPMessage ω τ)) : (keys (table msgs)).Nodup := by
  induction msgs using List.reverseRecOn with
  | nil => exact nodup_nil
  | append_singleton msgs msg ih =>
    rw [table, foldl_append]
    exact nodup_keys_put ih

theorem lookup_table (msgs : List (MCPMessage ω τ)) (spanID : Bytes) :
    (table msgs).lookup spanID = msgs.reverse.find? (·.spanID = spanID) := by
  induction msgs using List.reverseRecOn with
  | nil => rfl
  | append_singleton msgs msg ih =>
    rw [table, foldl_append, reverse_append]
    by_cases same : spanID = msg.spanID
    · subst same
      simp
    · rw [foldl_cons, foldl_nil, lookup_put_of_ne same, ← table, ih]
      simp [Ne.symm same]

theorem mem_of_lookup_table (found : (table msgs).lookup spanID = some msg) : msg ∈ msgs ∧ msg.spanID = spanID := by
  rw [lookup_table] at found
  exact ⟨mem_reverse.mp (mem_of_find?_eq_some found), by simpa using List.find?_some found⟩

theorem lookup_table_of_nodup (nodup : (msgs.map (·.spanID)).Nodup) (member : msg ∈ msgs) :
    (table msgs).lookup msg.spanID = some msg := by
  cases found : (table msgs).lookup msg.spanID with
  | none =>
    rw [lookup_table, List.find?_eq_none] at found
    exact absurd (decide_eq_true rfl) (found msg (mem_reverse.mpr member))
  | some other =>
    obtain ⟨stored, same⟩ := mem_of_lookup_table found
    rw [inj_on_of_nodup_map nodup stored member same]

theorem mem_links {linked : Bytes} :
    linked ∈ links msgs spanID ↔ ∃ msg ∈ msgs, msg.linksTo ≠ [] ∧ msg.linksTo = spanID ∧ msg.spanID = linked := by
  simp [links, and_assoc]

theorem mem_emitted {line : Nat} (order : visited.Perm (table msgs)) :
    line ∈ (processTraceFile msgs visited).flatMap Span.lines ↔
      ∃ spanID root, (table msgs).lookup spanID = some root ∧ root.linksTo = [] ∧ (line = root.line ∨
        ∃ linked ∈ links msgs spanID, ∃ msg, (table msgs).lookup linked = some msg ∧ line = msg.line) := by
  simp only [processTraceFile, mem_flatMap, mem_filterMap, Prod.exists, order.mem_iff,
    ← lookup_eq_some_iff_of_nodup (nodup_keys_table msgs), createSpan]
  constructor
  · rintro ⟨span, ⟨spanID, root, stored, made⟩, emitted⟩
    split_ifs at made with linked
    cases made
    simp only [Span.lines, List.map_cons, mem_cons, mem_map, mem_filterMap] at emitted
    refine ⟨spanID, root, stored, not_not.mp linked, emitted.imp_right ?_⟩
    rintro ⟨msg, ⟨linked, here, found⟩, rfl⟩
    exact ⟨linked, here, msg, found, rfl⟩
  · rintro ⟨spanID, root, stored, free, emitted⟩
    refine ⟨_, ⟨spanID, root, stored, if_neg (not_not.mpr free)⟩, ?_⟩
    simp only [Span.lines, List.map_cons, mem_cons, mem_map, mem_filterMap]
    refine emitted.imp_right ?_
    rintro ⟨linked, here, msg, found, rfl⟩
    exact ⟨msg, ⟨linked, here, found⟩, rfl⟩

theorem separate_of_conserved (distinct : (msgs.map (·.line)).Nodup) (order : visited.Perm (table msgs))
    (conserved : Conserved msgs visited) : Separate msgs := by
  have same := inj_on_of_nodup_map distinct
  have emitted (msg) (member : msg ∈ msgs) : msg.line ∈ (processTraceFile msgs visited).flatMap Span.lines := by
    apply count_pos_iff.mp
    rw [conserved msg member]
    exact Nat.one_pos
  -- a message that has been overwritten is not emitted
  have stored (msg) (member : msg ∈ msgs) : (table msgs).lookup msg.spanID = some msg := by
    obtain ⟨spanID, root, found, -, line | ⟨linked, -, other, found, line⟩⟩ :=
      (mem_emitted order).mp (emitted msg member)
    all_goals
      obtain ⟨member', rfl⟩ := mem_of_lookup_table found
      rwa [same member member' line]
  have unique {a b : MCPMessage ω τ} (here : a ∈ msgs) (here' : b ∈ msgs) (id : a.spanID = b.spanID) : a = b := by
    have both := (stored a here).symm.trans (id ▸ stored b here')
    exact Option.some.inj both
  refine ⟨(List.Nodup.of_map _ distinct).map_on fun a here b here' => unique here here', fun msg member linked => ?_⟩
  obtain ⟨spanID, root, found, free, line | ⟨linked', listed, other, found', line⟩⟩ :=
    (mem_emitted order).mp (emitted msg member)
  · rw [same member (mem_of_lookup_table found).1 line] at linked
    exact absurd free linked
  · obtain ⟨member', rfl⟩ := mem_of_lookup_table found'
    obtain ⟨source, here, -, rfl, id⟩ := mem_links.mp listed
    rw [same member member' line, ← unique here member' id]
    exact ⟨root, (mem_of_lookup_table found).1, (mem_of_lookup_table found).2, free⟩

theorem linked_events (nodup : (msgs.map (·.spanID)).Nodup) (spanID : Bytes) :
    (links msgs spanID).filterMap ((table msgs).lookup ·) = msgs.filter fun msg => msg.linksTo ≠ [] ∧
      msg.linksTo = spanID := by
  rw [links, filterMap_map]
  refine (filterMap_congr fun msg member => ?_).trans filterMap_some
  exact lookup_table_of_nodup nodup (mem_of_mem_filter member)

theorem mem_span_lines (nodup : (msgs.map (·.spanID)).Nodup) {root : MCPMessage ω τ} {span : Span ω τ} {line : Nat}
    (stored : (table msgs).lookup spanID = some root) (made : createSpan msgs (spanID, root) = some span) :
    line ∈ span.lines ↔ ∃ msg ∈ msgs, line = msg.line ∧
      (msg.linksTo = [] ∧ msg.spanID = spanID ∨ msg.linksTo ≠ [] ∧ msg.linksTo = spanID) := by
  obtain ⟨member, rfl⟩ := mem_of_lookup_table stored
  rw [createSpan] at made
  split_ifs at made with linked
  cases made
  simp only [Span.lines, List.map_cons, mem_cons, mem_map, linked_events nodup, mem_filter,
    decide_eq_true_eq]
  constructor
  · rintro (rfl | ⟨msg, ⟨here, links⟩, rfl⟩)
    · exact ⟨root, member, rfl, .inl ⟨not_not.mp linked, rfl⟩⟩
    · exact ⟨msg, here, rfl, .inr links⟩
  · rintro ⟨msg, here, rfl, ⟨-, id⟩ | links⟩
    · exact .inl (congrArg _ (inj_on_of_nodup_map nodup here member id))
    · exact .inr ⟨msg, ⟨here, links⟩, rfl⟩

theorem conserved_of_separate (distinct : (msgs.map (·.line)).Nodup) (order : visited.Perm (table msgs))
    (separate : Separate msgs) : Conserved msgs visited := by
  obtain ⟨nodup, targets⟩ := separate
  have same := inj_on_of_nodup_map distinct
  have stored {spanID root} (here : (spanID, root) ∈ visited) : (table msgs).lookup spanID = some root :=
    (lookup_eq_some_iff_of_nodup (nodup_keys_table msgs)).mpr (order.mem_iff.mp here)
  have once : ((processTraceFile msgs visited).flatMap Span.lines).Nodup := by
    rw [nodup_flatMap, processTraceFile, pairwise_filterMap]
    constructor
    · intro span made
      obtain ⟨⟨spanID, root⟩, here, made⟩ := mem_filterMap.mp made
      rw [createSpan] at made
      split_ifs at made with linked
      cases made
      rw [Span.lines, linked_events nodup]
      refine ((List.filter_sublist.map _).nodup distinct).cons fun member => ?_
      obtain ⟨msg, listed, line⟩ := mem_map.mp member
      obtain ⟨here', links⟩ := mem_filter.mp listed
      rw [← same here' (mem_of_lookup_table (stored here)).1 line] at linked
      exact linked (of_decide_eq_true links).1
    · have apart := pairwise_map.mp ((order.map Prod.fst).nodup_iff.mpr (nodup_keys_table msgs))
      refine apart.imp_of_mem fun {a b} here here' other span made span' made' line emitted emitted' => other ?_
      obtain ⟨msg, member, rfl, which⟩ := (mem_span_lines nodup (stored here) made).mp emitted
      obtain ⟨msg', member', line, which'⟩ := (mem_span_lines nodup (stored here') made').mp emitted'
      obtain rfl := same member member' line
      rcases which with ⟨free, id⟩ | ⟨linked, id⟩
      · rcases which' with ⟨-, id'⟩ | ⟨linked, -⟩
        · exact id.symm.trans id'
        · exact absurd free linked
      · rcases which' with ⟨free, -⟩ | ⟨-, id'⟩
        · exact absurd free linked
        · exact id.symm.trans id'
  intro msg member
  refine count_eq_one_of_mem once ((mem_emitted order).mpr ?_)
  by_cases linked : msg.linksTo = []
  · exact ⟨msg.spanID, msg, lookup_table_of_nodup nodup member, linked, .inl rfl⟩
  · obtain ⟨root, here, id, free⟩ := targets msg member linked
    exact ⟨root.spanID, root, lookup_table_of_nodup nodup here, free,
      .inr ⟨msg.spanID, mem_links.mpr ⟨msg, member, linked, id.symm, rfl⟩, msg, lookup_table_of_nodup nodup member,
        rfl⟩⟩

/-- Each parsed line is in exactly one span or event if and only if the span ids are distinct and links go to lines
that link to nothing, whatever the order in which the map of messages is visited. -/
theorem conserved_iff_separate (p : Parsers ω τ) (lines : List Bytes) (visited : List (Bytes × MCPMessage ω τ))
    (order : visited.Perm (table (parseLines p 1 lines))) :
    Conserved (parseLines p 1 lines) visited ↔ Separate (parseLines p 1 lines) :=
  have distinct := nodup_lines p 1 lines
  ⟨separate_of_conserved distinct order, conserved_of_separate distinct order⟩

def plainLine : Bytes := ofString "mcp-recv \x7b\x7d # 1"

def plainParsers : Parsers Unit Unit where
  lineRegex line := if plainLine.isPrefixOf line then
    some (ofString "recv", ofString "\x7b\x7d", ofString "1", line.drop plainLine.length) else none
  shadowLineRegex _ := none
  unmarshal _ := some ()
  parseFloat _ := some ()

theorem conserved_linked_lines :
    let lines := [ofString "# mcptrace: v1", plainLine ++ ofString " spanid=a", ofString "mcp-unknown",
      plainLine ++ ofString " spanid=b linksto=a", plainLine ++ ofString " linksto=a spanid=c", plainLine]
    ((table (parseLines plainParsers 1 lines)).map fun entry => (entry.2.line, entry.2.linksTo)) =
        [(2, []), (4, ofString "a"), (5, ofString "a"), (6, [])] ∧
      Conserved (parseLines plainParsers 1 lines) (table (parseLines plainParsers 1 lines)).reverse := by
  intro lines
  have separate : Separate (parseLines plainParsers 1 lines) := by
    unfold Separate
    decide +kernel
  exact ⟨by decide +kernel, (conserved_iff_separate plainParsers lines _ (reverse_perm _)).mpr separate⟩

theorem lines_without_span_ids_overwritten : ∃ (lines : List Bytes) (visited : List (Bytes × MCPMessage Unit Unit)),
    visited.Perm (table (parseLines plainParsers 1 lines)) ∧ ∃ msg ∈ parseLines plainParsers 1 lines,
      ((processTraceFile (parseLines plainParsers 1 lines) visited).flatMap Span.lines).count msg.line = 0 := by
  refine ⟨[plainLine, plainLine], _, List.Perm.refl _, _, mem_cons_self, ?_⟩
  decide

end Mcp.OtelTrace
