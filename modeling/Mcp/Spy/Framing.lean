import Mcp.Spy.Scanner

namespace Mcp.Spy
open Mcp.Lib Bytes JsonSyntax List

namespace Scan

variable {s : Scan} {i : Nat} {t u : Bytes} {stop : Nat}

theorem stop_next (s : Scan) (i : Nat) (c : UInt8) :
    (s.next i c).stop = s.stop ∨ (s.next i c).stop = some (i + 1) ∧ c = 125 := by
  unfold next
  split_ifs with _ _ _ _ _ close
  all_goals first
    | exact .inl rfl
    | exact .inr ⟨rfl, close⟩

theorem run_concat (s : Scan) (i : Nat) (t : Bytes) (c : UInt8) :
    s.run i (t ++ [c]) = (s.run i t).next (i + t.length) c := by
  rw [run_append]
  rfl

theorem stop_mono (found : (s.run i t).stop = some stop) (within : stop ≤ i + t.length) :
    ∃ later, (s.run i (t ++ u)).stop = some later ∧ stop ≤ later := by
  induction u using List.reverseRecOn with
  | nil => exact ⟨stop, by simpa using found, le_rfl⟩
  | append_singleton u c ih =>
    obtain ⟨later, found', below⟩ := ih
    rw [← append_assoc, run_concat]
    obtain same | ⟨new, -⟩ := stop_next (s.run i (t ++ u)) (i + (t ++ u).length) c
    · exact ⟨later, same.trans found', below⟩
    · refine ⟨_, new, ?_⟩
      simp only [length_append]
      omega

theorem stop_spec (start : s.stop = none) (found : (s.run i t).stop = some stop) :
    ∃ k, stop = i + k ∧ k ≤ t.length ∧ (t.take k).getLast? = some 125 := by
  induction t using List.reverseRecOn generalizing stop with
  | nil =>
    rw [run, start] at found
    cases found
  | append_singleton t c ih =>
    rw [run_concat] at found
    obtain same | ⟨new, rfl⟩ := stop_next (s.run i t) (i + t.length) c
    · obtain ⟨k, rfl, within, last⟩ := ih (same.symm.trans found)
      refine ⟨k, rfl, by simp only [length_append]; omega, ?_⟩
      rw [take_append_of_le_length within]
      exact last
    · refine ⟨t.length + 1, ?_, by simp, by simp [take_append]⟩
      rw [new] at found
      cases found
      rw [Nat.add_assoc]

end Scan

variable {w w' t rest cut : Bytes} {n : Nat}

theorem opening_not_mem (spaces : IsSpaces w) : 123 ∉ w := fun member => absurd (spaces 123 member) (by decide)

theorem extract_blank (absent : 123 ∉ w) (n : Nat) : extract n w = ([], w) := by
  cases n with
  | zero => rfl
  | succ n => rw [extract, if_neg absent]

theorem idxOf_opening (spaces : IsSpaces w) (opens : t.head? = some 123) : (w ++ t).idxOf 123 = w.length := by
  obtain ⟨t, rfl⟩ := List.head?_eq_some_iff.mp opens
  rw [idxOf_append_of_notMem (opening_not_mem spaces)]
  simp

theorem extract_open (spaces : IsSpaces w) (opens : t.head? = some 123)
    (endless : (({} : Scan).run w.length t).stop = none) (n : Nat) : extract n (w ++ t) = ([], w ++ t) := by
  cases n with
  | zero => rfl
  | succ n =>
    have member : 123 ∈ w ++ t := mem_append_right _ (mem_of_head? opens)
    simp only [extract, if_pos member, idxOf_opening spaces opens, drop_left, endless]

variable {k : Nat} {r ws later buffer chunk : Bytes} {chunks : List Bytes}

theorem extract_stop (spaces : IsSpaces w) (opens : t.head? = some 123)
    (found : (({} : Scan).run w.length t).stop = some (w.length + k)) (n : Nat) : extract (n + 1) (w ++ t) =
      if Valid (trimSpace (t.take k)) then (trimSpace (t.take k) :: (extract n (t.drop k)).1, (extract n (t.drop k)).2)
      else extract n (t.drop 1) := by
  have member : 123 ∈ w ++ t := mem_append_right _ (mem_of_head? opens)
  simp only [extract, if_pos member, idxOf_opening spaces opens, drop_left, found,
    take_length_add_append, drop_length_add_append]

def Unfinished (r : Bytes) : Prop :=
  ∃ w cut, r = w ++ cut ∧ IsSpaces w ∧ (cut = [] ∨ ∃ o : Object, cut <+: o.text ∧ cut ≠ o.text)

theorem head_of_part {o : Object} (part : cut <+: o.text) (some : cut ≠ []) : cut.head? = .some 123 := by
  obtain ⟨rest, text⟩ := part
  rw [← o.opens, ← text, List.head?_append_of_ne_nil _ some]

theorem Unfinished.stop (part : Unfinished r) (i : Nat) (stop : Option Nat) :
    (Scan.run ⟨0, false, false, stop⟩ i r).stop = stop := by
  obtain ⟨w, cut, rfl, spaces, part⟩ := part
  rw [Scan.run_append, (leads_plain (fun c member => plain_of_space (spaces c member)) 0 i stop).1]
  obtain rfl | ⟨o, part, proper⟩ := part
  · rfl
  · exact o.keeps_part part proper _ stop

theorem Unfinished.extract (part : Unfinished r) (n : Nat) : extract n r = ([], r) := by
  obtain ⟨w, cut, rfl, spaces, part⟩ := part
  by_cases none : cut = []
  · subst none
    rw [append_nil]
    exact extract_blank (opening_not_mem spaces) n
  · obtain absent | ⟨o, part, proper⟩ := part
    · exact (none absent).elim
    · exact extract_open spaces (head_of_part part none) (o.keeps_part part proper _ _) n

theorem trimSpace_braces (starts : t.head? = some 123) (ends : t.getLast? = some 125) : trimSpace t = t :=
  trimSpace_of_trimmed (trimmed_of_ends starts ends (by decide))

theorem Object.trimSpace_text (o : Object) : trimSpace o.text = o.text := by
  obtain ⟨inner, text, -⟩ := o.braces
  apply trimSpace_braces o.opens
  rw [text, ← cons_append, List.getLast?_concat]

theorem Object.head_append (o : Object) (t : Bytes) : (o.text ++ t).head? = some 123 := by
  rw [List.head?_append_of_ne_nil _ o.text_ne_nil, o.opens]

theorem extract_object (o : Object) (spaces : IsSpaces w) (unfinished : Unfinished rest) (n : Nat) :
    extract (n + 1) (w ++ (o.text ++ rest)) =
      if o.depth ≤ maxNestingDepth then ([o.text], rest) else extract n ((o.text ++ rest).drop 1) := by
  have found : (({} : Scan).run w.length (o.text ++ rest)).stop = some (w.length + o.text.length) := by
    rw [Scan.run_append, o.run_text]
    exact unfinished.stop _ _
  rw [extract_stop spaces (o.head_append rest) found, take_left, drop_left, o.trimSpace_text,
    unfinished.extract]
  simp only [valid_iff o.derives]

theorem extract_objects (o o' : Object) (spaces : IsSpaces w) (spaces' : IsSpaces w') (apart : w' ≠ []) (n : Nat) :
    extract (n + 1) (w ++ (o.text ++ (w' ++ (o'.text ++ rest)))) =
      extract n ((o.text ++ (w' ++ (o'.text ++ rest))).drop 1) := by
  have both : (({} : Scan).run w.length (o.text ++ w' ++ o'.text)).stop =
      some (w.length + (o.text ++ w' ++ o'.text).length) := by
    have skipped := fun i stop => (leads_plain (fun c member => plain_of_space (spaces' c member)) 0 i stop).1
    rw [Scan.run_append, Scan.run_append, o.run_text, skipped, o'.run_text]
    simp only [length_append, Nat.add_assoc]
  obtain ⟨stop, found, below⟩ := Scan.stop_mono (u := rest) both le_rfl
  obtain ⟨k, rfl, within, last⟩ := Scan.stop_spec rfl found
  have opens := o.head_append (w' ++ (o'.text ++ rest))
  simp only [append_assoc] at found within last
  rw [extract_stop spaces opens found, if_neg]
  have long : (o.text ++ w' ++ o'.text).length ≤ k := by omega
  have candidate : (o.text ++ (w' ++ (o'.text ++ rest))).take k =
      o.text ++ w' ++ (o'.text ++ rest.take (k - (o.text ++ w' ++ o'.text).length)) := by
    rw [← append_assoc, ← append_assoc, take_append, take_of_length_le long, append_assoc]
  rw [trimSpace_braces _ last]
  · rw [candidate]
    obtain ⟨inner, text, -⟩ := o'.braces
    rw [text, cons_append]
    exact not_valid_of_more o.derives spaces' apart (by decide) _
  · rw [candidate, append_assoc]
    exact o.head_append _

def braces (t : Bytes) : Nat := t.count 123

@[simp] theorem braces_append (t u : Bytes) : braces (t ++ u) = braces t + braces u := count_append

theorem braces_trimSpace (t : Bytes) : braces (trimSpace t) ≤ braces t := (trimSpace_sublist t).count_le _

theorem braces_extract (n : Nat) (buffer : Bytes) :
    braces (extract n buffer).1.flatten + braces (extract n buffer).2 ≤ braces buffer := by
  induction n generalizing buffer with
  | zero => simp [extract, braces]
  | succ n ih =>
    simp only [extract]
    split_ifs with member
    · split
      · simp [braces]
      · rename_i stop _
        split_ifs with valid
        · have first : braces (trimSpace ((buffer.take stop).drop (buffer.idxOf 123))) ≤ braces (buffer.take stop) :=
            (braces_trimSpace _).trans ((drop_sublist _ _).count_le _)
          have parts : braces (buffer.take stop) + braces (buffer.drop stop) = braces buffer := by
            rw [← braces_append, take_append_drop]
          have rest := ih (buffer.drop stop)
          simp only [flatten_cons, braces_append]
          omega
        · exact (ih _).trans ((drop_sublist _ _).count_le _)
    · simp [braces]

theorem flatten_splitOn (t : Bytes) : (t.splitOn newline).flatten = t.filter (· ≠ newline) := by
  induction t with
  | nil => rfl
  | cons c t ih =>
    rw [splitOn_cons_eq_if_modifyHead]
    by_cases same : c = newline
    · simp [same, ih]
    · obtain ⟨line, lines, split⟩ := exists_cons_of_ne_nil (splitOn_ne_nil newline t)
      rw [split] at ih
      simpa [same, split] using ih

theorem takeLines_whole (whole : newline ∉ t) : takeLines t = ([], t) := by
  simp [takeLines, splitOn_eq_singleton whole]

theorem takeLines_split (t : Bytes) (whole : newline ∉ rest) :
    takeLines (t ++ newline :: rest) = (((t.splitOn newline).map trimSpace).filter (· ≠ []), rest) := by
  have some : 0 < (t.splitOn newline).length := length_pos_iff.mpr (splitOn_ne_nil newline t)
  have lines : (t ++ newline :: rest).splitOn newline = t.splitOn newline ++ [rest] := by
    rw [splitOn_append_cons_self, splitOn_eq_singleton whole]
  have more : 1 < (t.splitOn newline ++ [rest]).length := by
    rw [length_append, length_singleton]
    omega
  simp only [takeLines, lines, if_pos more, dropLast_concat, getLastD_concat]

theorem exists_last (member : newline ∈ t) : ∃ p q, t = p ++ newline :: q ∧ newline ∉ q := by
  obtain ⟨q, p, split, absent⟩ := eq_append_cons_of_mem (mem_reverse.mpr member)
  refine ⟨p.reverse, q.reverse, ?_, by simpa using absent⟩
  rw [← reverse_reverse t, split]
  simp

theorem braces_takeLines (t : Bytes) : braces (takeLines t).1.flatten + braces (takeLines t).2 ≤ braces t := by
  by_cases member : newline ∈ t
  · obtain ⟨p, q, rfl, absent⟩ := exists_last member
    have trimmed (lines : List Bytes) :
        braces ((lines.map trimSpace).filter (· ≠ [])).flatten ≤ braces lines.flatten := by
      induction lines with
      | nil => rfl
      | cons line lines ih =>
        have first := braces_trimSpace line
        by_cases blank : trimSpace line = []
        · simp only [List.map_cons, List.filter_cons, blank]
          simp only [flatten_cons, braces_append]
          exact ih.trans (Nat.le_add_left _ _)
        · simp only [List.map_cons, List.filter_cons, blank, not_false_eq_true, decide_true, if_true, ne_eq,
            flatten_cons, braces_append] at ih ⊢
          omega
    have kept : braces ((p.splitOn newline).flatten) ≤ braces p := by
      rw [flatten_splitOn]
      exact List.filter_sublist.count_le _
    have lines := trimmed (p.splitOn newline)
    rw [takeLines_split p absent]
    simp only [braces_append]
    have rest : braces q ≤ braces (newline :: q) := (sublist_cons_self _ _).count_le _
    omega
  · rw [takeLines_whole member]
    simp [braces]

theorem blank_of_spaces (spaces : IsSpaces w) : ∀ b ∈ w, [b] ∈ Bytes.spaces := by
  intro b member
  have known : b = 32 ∨ b = 9 ∨ b = 13 ∨ b = 10 := by simpa [isSpace, or_assoc] using spaces b member
  obtain rfl | rfl | rfl | rfl := known <;> decide

theorem takeLines_blank (spaces : IsSpaces w) (whole : newline ∉ cut) :
    ∃ k ≤ w.length, takeLines (w ++ cut) = ([], w.drop k ++ cut) := by
  by_cases member : newline ∈ w
  · obtain ⟨p, q, rfl, absent⟩ := exists_last member
    refine ⟨(p ++ [newline]).length, by simp, ?_⟩
    have rest : newline ∉ q ++ cut := by simp [absent, whole]
    have none : ((p.splitOn newline).map trimSpace).filter (· ≠ []) = [] := by
      rw [List.filter_eq_nil_iff]
      intro line found
      obtain ⟨line, member, rfl⟩ := mem_map.mp found
      have blank : trimSpace line = [] := by
        apply trimSpace_blank
        apply blank_of_spaces
        intro b within
        apply spaces b
        have kept : b ∈ (p.splitOn newline).flatten := mem_flatten.mpr ⟨line, member, within⟩
        rw [flatten_splitOn] at kept
        exact mem_append_left _ (mem_filter.mp kept).1
      simp [blank]
    have dropped : (p ++ newline :: q).drop (p ++ [newline]).length = q := by
      rw [append_cons p newline q, drop_left]
    rw [dropped, append_assoc, cons_append, takeLines_split p rest, none]
  · refine ⟨0, Nat.zero_le _, ?_⟩
    rw [takeLines_whole (by simp [member, whole])]
    rfl

theorem takeLines_broken (w : Bytes) (opens : cut.head? = some 123) (broken : newline ∈ cut) :
    ∃ m ms r, takeLines (w ++ cut) = (m :: ms, r) ∧ newline ∉ m := by
  obtain ⟨cut, rfl⟩ := List.head?_eq_some_iff.mp opens
  have later : newline ∈ cut := by simpa [newline] using broken
  obtain ⟨p, q, rfl, absent⟩ := exists_last later
  have split := takeLines_split (w ++ 123 :: p) absent
  simp only [append_assoc, cons_append] at split
  have within : 123 ∈ ((w ++ 123 :: p).splitOn newline).flatten := by
    rw [flatten_splitOn]
    simp [newline]
  obtain ⟨line, member, within⟩ := mem_flatten.mp within
  have some : trimSpace line ≠ [] := ne_nil_of_mem (mem_trimSpace (by decide) within)
  have found : trimSpace line ∈ (((w ++ 123 :: p).splitOn newline).map trimSpace).filter (· ≠ []) :=
    mem_filter.mpr ⟨mem_map_of_mem member, by simpa using some⟩
  obtain ⟨m, ms, messages⟩ := exists_cons_of_ne_nil (ne_nil_of_mem found)
  refine ⟨m, ms, q, by rw [split, messages], ?_⟩
  have known : m ∈ (((w ++ 123 :: p).splitOn newline).map trimSpace).filter (· ≠ []) := by
    rw [messages]
    exact mem_cons_self
  obtain ⟨line, member, rfl⟩ := mem_map.mp (mem_filter.mp known).1
  intro within
  have kept : newline ∈ ((w ++ 123 :: p).splitOn newline).flatten :=
    mem_flatten.mpr ⟨line, member, mem_of_mem_trimSpace within⟩
  rw [flatten_splitOn] at kept
  simp at kept

theorem braces_addAll (buffer : Bytes) (chunks : List Bytes) :
    braces (addAll buffer chunks).flatten ≤ braces (buffer ++ chunks.flatten) := by
  induction chunks generalizing buffer with
  | nil => simp [addAll, braces]
  | cons chunk chunks ih =>
    have first := braces_extract (buffer ++ chunk).length (buffer ++ chunk)
    have second := braces_takeLines (extract (buffer ++ chunk).length (buffer ++ chunk)).2
    have third := ih (takeLines (extract (buffer ++ chunk).length (buffer ++ chunk)).2).2
    simp only [addAll, add, flatten_append, flatten_cons, braces_append] at first second third ⊢
    omega

namespace Object

def drop (o : Object) (k : Nat) : Object :=
  { o with before := o.before.drop k, lead := fun b member => o.lead b (mem_of_mem_drop member) }

def led (o : Object) (ws : Bytes) (spaces : IsSpaces ws) : Object :=
  { o with before := ws ++ o.before, lead := forall_mem_append.mpr ⟨spaces, o.lead⟩ }

theorem length_bytes (o : Object) : o.bytes.length = (o.before ++ o.text).length + (o.after ++ [newline]).length := by
  simp [bytes, Nat.add_assoc]

def gap (o : Object) : Bytes := o.after ++ [newline]

theorem spaces_gap (o : Object) : IsSpaces o.gap :=
  forall_mem_append.mpr ⟨o.trail, forall_mem_singleton.mpr (by decide)⟩

theorem gap_ne_nil (o : Object) : o.gap ≠ [] := by simp [gap]

theorem bytes_eq (o : Object) : o.bytes = o.before ++ (o.text ++ o.gap) := by simp [bytes, gap]

end Object

variable {o : Object} {os : List Object}

def led (ws : Bytes) (spaces : IsSpaces ws) : List Object → List Object
  | [] => []
  | o :: os => o.led ws spaces :: os

theorem stream_cons (o : Object) (os : List Object) : stream (o :: os) = o.bytes ++ stream os := rfl

theorem finished_drop (within : k ≤ o.before.length) (n : Nat) :
    finished (o :: os) (k + n) = finished (o.drop k :: os) n := by
  simp only [finished, Object.length_bytes, Object.drop, length_append, length_drop]
  congr 1
  · apply propext
    omega
  · congr 2
    omega

theorem begun_drop (within : k ≤ o.before.length) (n : Nat) : begun (o :: os) (k + n) = begun (o.drop k :: os) n := by
  simp only [begun, Object.length_bytes, Object.drop, length_append, length_drop]
  congr 1
  · apply propext
    omega
  · congr 1
    omega
  · congr 1
    omega

theorem finished_led (spaces : IsSpaces ws) (os : List Object) (n : Nat) :
    finished (led ws spaces os) n = finished os (n - ws.length) := by
  cases os with
  | nil => rfl
  | cons o os =>
    have some := o.text_length_pos
    simp only [finished, led, Object.length_bytes, Object.led, length_append]
    congr 1
    · apply propext
      omega
    · congr 2
      omega

theorem begun_led (spaces : IsSpaces ws) (os : List Object) (n : Nat) :
    begun (led ws spaces os) n = begun os (n - ws.length) := by
  cases os with
  | nil => rfl
  | cons o os =>
    have some := o.text_length_pos
    simp only [begun, led, Object.length_bytes, Object.led, length_append]
    congr 1
    · apply propext
      omega
    · congr 1
      omega
    · congr 1
      omega

theorem finished_rest (n : Nat) :
    finished (o :: os) ((o.before ++ o.text).length + n) = finished (led o.gap o.spaces_gap os) n + 1 := by
  rw [finished, if_neg (by omega), finished_led, Object.length_bytes]
  congr 2
  simp only [Object.gap]
  omega

theorem begun_rest (n : Nat) :
    begun (o :: os) ((o.before ++ o.text).length + n) = begun (led o.gap o.spaces_gap os) n := by
  rw [begun, if_neg (by omega), begun_led, Object.length_bytes]
  congr 1
  simp only [Object.gap]
  omega

theorem framed_congr {os' : List Object} {n' m : Nat}
    (ends : ∀ j, finished os (n + j) = finished os' (n' + j) + m) (starts : ∀ j, begun os (n + j) = begun os' (n' + j))
    (chunks : List Bytes) : Framed os n chunks ↔ Framed os' n' chunks := by
  induction chunks generalizing n n' with
  | nil => exact Iff.rfl
  | cons chunk chunks ih =>
    have here := ends 0
    have there := ends chunk.length
    simp only [Nat.add_zero] at here
    have later : Framed os (n + chunk.length) chunks ↔ Framed os' (n' + chunk.length) chunks := by
      apply ih
      · intro j
        simpa only [Nat.add_assoc] using ends (chunk.length + j)
      · intro j
        simpa only [Nat.add_assoc] using starts (chunk.length + j)
    have same : finished os (n + chunk.length) ≤ finished os n + 1 ↔
        finished os' (n' + chunk.length) ≤ finished os' n' + 1 := by omega
    simp only [Framed, starts chunk.length, later, same]

theorem framed_drop (inside : k ≤ o.before.length) (n : Nat) (chunks : List Bytes) :
    Framed (o :: os) (k + n) chunks ↔ Framed (o.drop k :: os) n chunks := by
  apply framed_congr (m := 0)
  · intro j
    rw [Nat.add_assoc]
    exact finished_drop inside _
  · intro j
    rw [Nat.add_assoc]
    exact begun_drop inside _

theorem framed_rest (n : Nat) (chunks : List Bytes) :
    Framed (o :: os) ((o.before ++ o.text).length + n) chunks ↔ Framed (led o.gap o.spaces_gap os) n chunks := by
  apply framed_congr (m := 1)
  · intro j
    rw [Nat.add_assoc]
    exact finished_rest _
  · intro j
    rw [Nat.add_assoc]
    exact begun_rest _

theorem stream_eq : stream (o :: os) = (o.before ++ o.text) ++ (o.gap ++ stream os) := by
  simp only [stream_cons, Object.bytes_eq, append_assoc]

theorem drop_stream (whole : r ++ later = stream (o :: os)) (inside : k ≤ o.before.length)
    (short : k ≤ r.length) : r.drop k ++ later = stream (o.drop k :: os) := by
  have shifted := congrArg (List.drop k) whole
  rw [drop_append_of_le_length short, stream_eq, append_assoc, drop_append_of_le_length inside] at shifted
  rw [shifted, stream_eq, append_assoc (o.drop k).before]
  rfl

theorem braces_stream (os : List Object) : braces (stream os) = braces (os.map Object.text).flatten := by
  induction os with
  | nil => rfl
  | cons o os ih =>
    have blank {w : Bytes} (spaces : IsSpaces w) : braces w = 0 := count_eq_zero.mpr (opening_not_mem spaces)
    simp only [stream_cons, Object.bytes_eq, braces_append, ih, blank o.lead, blank o.spaces_gap, List.map_cons,
      flatten_cons]
    omega

def Exact (chunks : List Bytes) : Prop :=
  ∀ os buffer, buffer ++ chunks.flatten = stream os → finished os buffer.length = 0 →
    (addAll buffer chunks = os.map Object.text ↔
      (∀ o ∈ os, o.depth ≤ maxNestingDepth) ∧ Framed os buffer.length chunks)

theorem eq_take (whole : r ++ later = stream (o :: os)) (short : r.length < (o.before ++ o.text).length) :
    r = o.before.take r.length ++ o.text.take (r.length - o.before.length) := by
  have first : r <+: stream (o :: os) := ⟨later, whole⟩
  have second : o.before ++ o.text <+: stream (o :: os) := ⟨o.gap ++ stream os, stream_eq.symm⟩
  have part : r <+: o.before ++ o.text := prefix_of_prefix_length_le first second short.le
  rw [← take_append]
  exact prefix_iff_eq_take.mp part

theorem unfinished_of_short (whole : r ++ later = stream (o :: os))
    (short : r.length < (o.before ++ o.text).length) : Unfinished r := by
  refine ⟨_, _, eq_take whole short, fun b member => o.lead b (mem_of_mem_take member), .inr ⟨o, ?_, ?_⟩⟩
  · exact take_prefix _ _
  · intro same
    have lengths := congrArg List.length same
    have some := o.text_length_pos
    simp only [length_take, length_append] at lengths short
    omega

theorem settle_iff (exact' : Exact chunks)
    (whole : r ++ chunks.flatten = stream (o :: os)) (short : r.length < (o.before ++ o.text).length) :
    (takeLines r).1 ++ addAll (takeLines r).2 chunks = (o :: os).map Object.text ↔
      newline ∉ begun (o :: os) r.length ∧ (∀ o' ∈ o :: os, o'.depth ≤ maxNestingDepth) ∧
        Framed (o :: os) r.length chunks := by
  have split := eq_take whole short
  have cut : begun (o :: os) r.length = o.text.take (r.length - o.before.length) := if_pos short
  have spaces : IsSpaces (o.before.take r.length) := fun b member => o.lead b (mem_of_mem_take member)
  have part : begun (o :: os) r.length <+: o.text := by
    rw [cut]
    exact take_prefix _ _
  rw [← cut] at split
  by_cases broken : newline ∈ begun (o :: os) r.length
  · refine iff_of_false (fun equal => ?_) (fun conditions => conditions.1 broken)
    obtain ⟨m, ms, b, lines, clean⟩ :=
      takeLines_broken (o.before.take r.length) (head_of_part part (ne_nil_of_mem broken)) broken
    rw [← split] at lines
    rw [lines] at equal
    have same : m = o.text := head_eq_of_cons_eq equal
    rw [same] at clean
    exact clean (part.subset broken)
  · obtain ⟨k, within, lines⟩ := takeLines_blank spaces broken
    have inside : k ≤ o.before.length ∧ k ≤ r.length := by
      rw [length_take] at within
      omega
    have rest : (o.before.take r.length).drop k ++ begun (o :: os) r.length = r.drop k := by
      rw [split, drop_append_of_le_length (split ▸ within), ← split]
    rw [rest, ← split] at lines
    have later := drop_stream whole inside.1 inside.2
    have position : r.length = k + (r.drop k).length := by
      rw [length_drop]
      omega
    have none : finished (o.drop k :: os) (r.drop k).length = 0 := by
      rw [← finished_drop inside.1, ← position]
      exact if_pos short
    rw [lines, nil_append]
    have onward := exact' (o.drop k :: os) (r.drop k) later none
    have depths : (∀ o' ∈ o.drop k :: os, o'.depth ≤ maxNestingDepth) ↔ ∀ o' ∈ o :: os, o'.depth ≤ maxNestingDepth := by
      simp only [forall_mem_cons]
      exact Iff.rfl
    have frames : Framed (o :: os) r.length chunks ↔ Framed (o.drop k :: os) (r.drop k).length chunks := by
      rw [position]
      exact framed_drop inside.1 _ chunks
    rw [frames, ← depths, and_iff_right broken]
    exact onward

theorem takeLines_spaces (spaces : IsSpaces r) : ∃ k, takeLines r = ([], r.drop k) := by
  have clean : newline ∉ ([] : Bytes) := not_mem_nil
  obtain ⟨k, -, lines⟩ := takeLines_blank spaces clean
  rw [append_nil, append_nil] at lines
  exact ⟨k, lines⟩

theorem addAll_spaces (buffer : Bytes) (chunks : List Bytes) (spaces : IsSpaces (buffer ++ chunks.flatten)) :
    addAll buffer chunks = [] := by
  induction chunks generalizing buffer with
  | nil => rfl
  | cons chunk chunks ih =>
    rw [flatten_cons, ← append_assoc] at spaces
    obtain ⟨here, later⟩ := forall_mem_append.mp spaces
    obtain ⟨k, lines⟩ := takeLines_spaces here
    simp only [addAll, add, extract_blank (opening_not_mem here), lines, nil_append]
    apply ih
    exact forall_mem_append.mpr ⟨fun b member => here b (mem_of_mem_drop member), later⟩

theorem framed_nil (n : Nat) (chunks : List Bytes) : Framed [] n chunks := by
  induction chunks generalizing n with
  | nil => trivial
  | cons chunk chunks ih => exact ⟨Nat.zero_le _, not_mem_nil, ih _⟩

theorem settle_rest (exact' : Exact chunks) (spaces : IsSpaces ws)
    (whole : r ++ chunks.flatten = ws ++ stream os) (none : finished (led ws spaces os) r.length = 0) :
    Unfinished r ∧ ((takeLines r).1 ++ addAll (takeLines r).2 chunks = os.map Object.text ↔
      newline ∉ begun (led ws spaces os) r.length ∧ (∀ o ∈ os, o.depth ≤ maxNestingDepth) ∧
        Framed (led ws spaces os) r.length chunks) := by
  cases os with
  | nil =>
    rw [show ws ++ stream [] = ws from append_nil ws] at whole
    rw [← whole] at spaces
    obtain ⟨here, later⟩ := forall_mem_append.mp spaces
    refine ⟨⟨r, [], (append_nil r).symm, here, .inl rfl⟩, ?_⟩
    obtain ⟨k, lines⟩ := takeLines_spaces here
    rw [lines]
    refine iff_of_true ?_ ⟨not_mem_nil, by simp, framed_nil _ _⟩
    apply addAll_spaces
    exact forall_mem_append.mpr ⟨fun b member => here b (mem_of_mem_drop member), later⟩
  | cons o os =>
    have short : r.length < ((o.led ws spaces).before ++ (o.led ws spaces).text).length := by
      by_contra long
      rw [led, finished, if_neg long] at none
      cases none
    have whole' : r ++ chunks.flatten = stream (o.led ws spaces :: os) := by
      rw [whole, stream_cons, stream_cons, Object.bytes_eq, Object.bytes_eq]
      simp only [Object.led, append_assoc]
      rfl
    refine ⟨unfinished_of_short whole' short, ?_⟩
    have settled := settle_iff exact' whole' short
    simp only [forall_mem_cons] at settled ⊢
    exact settled

theorem ne_of_dropped (whole : buffer ++ (chunk ++ chunks.flatten) = stream os)
    (split : buffer ++ chunk = w ++ t) (opens : t.head? = some 123)
    (dropped : extract (buffer ++ chunk).length (buffer ++ chunk) = extract n (t.drop 1)) :
    addAll buffer (chunk :: chunks) ≠ os.map Object.text := by
  intro equal
  have total := braces_stream os
  rw [← equal, ← whole, ← append_assoc, split] at total
  obtain ⟨t, rfl⟩ := List.head?_eq_some_iff.mp opens
  have one : braces (123 :: t) = braces t + 1 := count_cons_self
  have first := braces_extract n t
  have second := braces_takeLines (extract n t).2
  have third := braces_addAll (takeLines (extract n t).2).2 chunks
  rw [drop_one, tail_cons] at dropped
  simp only [addAll, add, dropped, flatten_append, braces_append] at total third
  omega

theorem exact_nil : Exact [] := by
  intro os buffer whole none
  cases os with
  | nil => simp [addAll, Framed]
  | cons o os =>
    exfalso
    rw [flatten_nil, append_nil] at whole
    have long : (o.before ++ o.text).length ≤ buffer.length := by
      simp only [whole, stream_cons, length_append, Object.length_bytes]
      omega
    rw [finished, if_neg (Nat.not_lt.mpr long)] at none
    cases none

theorem second_object (rest : r ++ later = o.gap ++ stream os)
    (some : finished (led o.gap o.spaces_gap os) r.length ≠ 0) :
    ∃ w t, IsSpaces w ∧ w ≠ [] ∧ ∃ o' : Object, r = w ++ o'.text ++ t := by
  cases os with
  | nil => exact (some rfl).elim
  | cons o' os =>
    have full : (o.gap ++ o'.before ++ o'.text).length ≤ r.length := by
      by_contra short
      exact some (if_pos (Nat.not_le.mp short))
    have part : o.gap ++ o'.before ++ o'.text <+: r := by
      apply prefix_of_prefix_length_le _ ⟨_, rest⟩ full
      exact ⟨o'.gap ++ stream os, by simp only [stream_eq, append_assoc]⟩
    obtain ⟨more, rfl⟩ := part
    refine ⟨o.gap ++ o'.before, more, ?_, ?_, o', rfl⟩
    · exact forall_mem_append.mpr ⟨o.spaces_gap, o'.lead⟩
    · exact append_ne_nil_of_left_ne_nil o.gap_ne_nil _

theorem exact_long (exact' : Exact chunks) (whole : (buffer ++ chunk) ++ chunks.flatten = stream (o :: os))
    (long : ¬ (buffer ++ chunk).length < (o.before ++ o.text).length) :
    addAll buffer (chunk :: chunks) = (o :: os).map Object.text ↔
      (∀ o' ∈ o :: os, o'.depth ≤ maxNestingDepth) ∧ finished (o :: os) (buffer ++ chunk).length ≤ 0 + 1 ∧
        newline ∉ begun (o :: os) (buffer ++ chunk).length ∧ Framed (o :: os) (buffer ++ chunk).length chunks := by
  have part : o.before ++ o.text <+: buffer ++ chunk :=
    prefix_of_prefix_length_le ⟨_, stream_eq.symm⟩ ⟨_, whole⟩ (Nat.not_lt.mp long)
  obtain ⟨r, split⟩ := part
  have rest : r ++ chunks.flatten = o.gap ++ stream os := by
    rw [stream_eq, ← split, append_assoc] at whole
    exact append_cancel_left whole
  rw [append_assoc] at split
  have size : (buffer ++ chunk).length = (o.before ++ o.text).length + r.length := by
    simp only [← split, length_append, Nat.add_assoc]
  obtain ⟨n, turns⟩ : ∃ n, (buffer ++ chunk).length = n + 1 := by
    have some := o.text_length_pos
    simp only [length_append] at size ⊢
    exact Nat.exists_eq_add_of_lt (by omega : 0 < buffer.length + chunk.length) |>.imp fun n equal => by omega
  rw [size, framed_rest, finished_rest, begun_rest, forall_mem_cons]
  rw [append_assoc] at whole
  by_cases none : finished (led o.gap o.spaces_gap os) r.length = 0
  · obtain ⟨unfinished, settled⟩ := settle_rest exact' o.spaces_gap rest none
    have first := extract_object o o.lead unfinished n
    by_cases deep : o.depth ≤ maxNestingDepth
    · rw [if_pos deep] at first
      have messages : addAll buffer (chunk :: chunks) =
          o.text :: ((takeLines r).1 ++ addAll (takeLines r).2 chunks) := by
        simp only [addAll, add, turns]
        rw [← split, first]
        rfl
      rw [messages, List.map_cons, cons_inj_right, settled, none]
      constructor
      · exact fun ⟨clean, depths, frames⟩ => ⟨⟨deep, depths⟩, le_rfl, clean, frames⟩
      · exact fun ⟨⟨_, depths⟩, _, clean, frames⟩ => ⟨clean, depths, frames⟩
    · rw [if_neg deep] at first
      refine iff_of_false ?_ (fun conditions => deep conditions.1.1)
      apply ne_of_dropped whole split.symm (o.head_append r) (n := n)
      rw [turns, ← split, first]
  · refine iff_of_false ?_ (fun conditions => none (by omega))
    obtain ⟨w, t, spaces, apart, o', rfl⟩ := second_object rest none
    apply ne_of_dropped whole split.symm (o.head_append _) (n := n)
    rw [turns, ← split, append_assoc w]
    exact extract_objects o o' o.lead spaces apart n

theorem exact_cons (exact' : Exact chunks) (chunk : Bytes) : Exact (chunk :: chunks) := by
  intro os buffer whole none
  rw [flatten_cons] at whole
  cases os with
  | nil =>
    refine iff_of_true ?_ ⟨by simp, framed_nil _ _⟩
    apply addAll_spaces
    rw [flatten_cons, whole]
    exact forall_mem_nil _
  | cons o os =>
    have whole' : (buffer ++ chunk) ++ chunks.flatten = stream (o :: os) := by rw [append_assoc, whole]
    rw [Framed, none, ← length_append]
    by_cases short : (buffer ++ chunk).length < (o.before ++ o.text).length
    · have settled := settle_iff exact' whole' short
      have unfinished := unfinished_of_short whole' short
      have zero : finished (o :: os) (buffer ++ chunk).length = 0 := if_pos short
      simp only [addAll, add, unfinished.extract, nil_append, zero]
      rw [settled]
      constructor
      · exact fun ⟨clean, depths, frames⟩ => ⟨depths, Nat.zero_le _, clean, frames⟩
      · exact fun ⟨depths, _, clean, frames⟩ => ⟨clean, depths, frames⟩
    · exact exact_long exact' whole' short

/-- Every object is found, each once and in order, if and only if none is nested too deep, no chunk holds
the ends of two of them and no chunk ends after a newline inside one. -/
theorem addAll_eq_iff (os : List Object) (chunks : List Bytes) (whole : chunks.flatten = stream os) :
    addAll [] chunks = os.map Object.text ↔
      (∀ o ∈ os, o.depth ≤ maxNestingDepth) ∧ Framed os 0 chunks := by
  have all (chunks : List Bytes) : Exact chunks := by
    induction chunks with
    | nil => exact exact_nil
    | cons chunk chunks ih => exact exact_cons ih chunk
  apply all chunks os [] whole
  cases os with
  | nil => rfl
  | cons o os =>
    apply if_pos
    rw [length_append]
    exact Nat.lt_of_lt_of_le o.text_length_pos (Nat.le_add_left _ _)

def emptyObject : Object where
  text := ofString "\x7b\x7d"
  depth := 1
  derives := .emptyObject (forall_mem_nil _)
  opens := rfl
  lead := forall_mem_nil _
  trail := forall_mem_nil _

theorem isString_singleton {c : UInt8} (printable : 32 ≤ c) (noQuote : c ≠ 34) (noEscape : c ≠ 92) :
    IsString [34, c, 34] :=
  ⟨[c], .plain printable noQuote noEscape .nil, rfl⟩

def braceObject : Object where
  text := ofString "\x7b\"a\":\"\x7d\"\x7d"
  depth := 1
  derives :=
    .object (.member (forall_mem_nil _) (isString_singleton (c := 97) (by decide) (by decide) (by decide))
      (forall_mem_nil _) (forall_mem_nil _)
      (.string (isString_singleton (c := 125) (by decide) (by decide) (by decide))) (forall_mem_nil _))
  opens := rfl
  lead := forall_mem_nil _
  trail := forall_mem_nil _

theorem addAll_split_string :
    addAll [] [ofString "\x7b\"a\":\"", ofString "\x7d\"\x7d\n\x7b", ofString "\x7d\n"] =
      [ofString "\x7b\"a\":\"\x7d\"\x7d", ofString "\x7b\x7d"] := by
  apply (addAll_eq_iff [braceObject, emptyObject] _ (by decide)).mpr
  refine ⟨?_, by decide, by decide, by decide, by decide, by decide, by decide, trivial⟩
  intro o member
  obtain rfl | rfl : o = braceObject ∨ o = emptyObject := by simpa using member
  · exact Nat.le_of_ble_eq_true rfl
  · exact Nat.le_of_ble_eq_true rfl

theorem addAll_one_chunk_loses :
    [ofString "\x7b\x7d\n\x7b\x7d\n"].flatten = stream [emptyObject, emptyObject] ∧
      addAll [] [ofString "\x7b\x7d\n\x7b\x7d\n"] ≠ [emptyObject, emptyObject].map Object.text := by
  decide

end Mcp.Spy
