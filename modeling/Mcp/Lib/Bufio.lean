import Mcp.Lib.Bytes

/-! # Buffered reading -/

namespace Mcp.Lib

class Source (ρ : Type*) where
  read : ρ → Nat → Option (Bytes × ρ)
  rest : ρ → Bytes
  rest_of_end : ∀ {r n}, read r n = none → rest r = []
  rest_of_read : ∀ {r n bs r'}, read r n = some (bs, r') → rest r = bs ++ rest r'
  read_le : ∀ {r n bs r'}, read r n = some (bs, r') → bs.length ≤ n
  read_nonempty : ∀ {r n bs r'}, 0 < n → read r n = some (bs, r') → bs ≠ []

open Bytes

/-- One read each, of at least `least` bytes, delivers these texts. -/
def Yields {ρ : Type*} [Source ρ] (least : Nat) : List Bytes → ρ → Prop
  | [], _ => True
  | text :: texts, r =>
    ∃ r', (∀ n, least ≤ n → text.length ≤ n → Source.read r n = some (text, r')) ∧ Yields least texts r'

structure Chunks where
  chunks : List Bytes

namespace Chunks

def take (n : Nat) : List Bytes → Option (Bytes × Chunks)
  | [] => none
  | [] :: chunks => take n chunks
  | (b :: bs) :: chunks => some ((b :: bs).take n, ⟨(b :: bs).drop n :: chunks⟩)

theorem take_eq_none {n : Nat} {chunks : List Bytes} (ended : take n chunks = none) : chunks.flatten = [] := by
  induction chunks with
  | nil => rfl
  | cons chunk chunks ih =>
    cases chunk with
    | nil => exact ih ended
    | cons b bs => cases ended

theorem take_eq_some {n : Nat} {chunks : List Bytes} {bs : Bytes} {r : Chunks}
    (delivered : take n chunks = some (bs, r)) :
    chunks.flatten = bs ++ r.chunks.flatten ∧ bs.length ≤ n ∧ (0 < n → bs ≠ []) := by
  induction chunks with
  | nil => cases delivered
  | cons chunk chunks ih =>
    cases chunk with
    | nil => exact ih delivered
    | cons b rest =>
      cases delivered
      refine ⟨?_, ?_, fun positive => ?_⟩
      · simp [← List.append_assoc, List.take_append_drop]
      · simp only [List.length_take]
        exact Nat.min_le_left ..
      · obtain ⟨n, rfl⟩ := Nat.exists_eq_succ_of_ne_zero (Nat.ne_of_gt positive)
        simp

instance : Source Chunks where
  read r n := take n r.chunks
  rest r := r.chunks.flatten
  rest_of_end := take_eq_none
  rest_of_read delivered := (take_eq_some delivered).1
  read_le delivered := (take_eq_some delivered).2.1
  read_nonempty positive delivered := (take_eq_some delivered).2.2 positive

theorem read_first {chunk : Bytes} {n : Nat} (nonempty : chunk ≠ []) (short : chunk.length ≤ n) (chunks : List Bytes) :
    Source.read (⟨chunk :: chunks⟩ : Chunks) n = some (chunk, ⟨[] :: chunks⟩) := by
  cases chunk with
  | nil => exact absurd rfl nonempty
  | cons b bs =>
    change some ((b :: bs).take n, (⟨(b :: bs).drop n :: chunks⟩ : Chunks)) = _
    rw [List.take_of_length_le short, List.drop_eq_nil_of_le short]

theorem yields {chunks : List Bytes} (nonempty : ∀ chunk ∈ chunks, chunk ≠ []) (more : List Bytes) (least : Nat) :
    Yields least chunks (⟨chunks ++ more⟩ : Chunks) := by
  -- what a read leaves of a chunk is skipped by the next one
  suffices ∀ r : Chunks, (∀ n, Source.read r n = Source.read (⟨chunks ++ more⟩ : Chunks) n) → Yields least chunks r from
    this _ fun _ => rfl
  induction chunks with
  | nil => exact fun _ _ => trivial
  | cons chunk chunks ih =>
    rw [List.forall_mem_cons] at nonempty
    intro r same
    refine ⟨⟨[] :: (chunks ++ more)⟩, fun n _ short => ?_, ih nonempty.2 _ fun _ => rfl⟩
    rw [same]
    exact read_first nonempty.1 short _

end Chunks

structure Reader (ρ : Type*) where
  source : ρ
  buffer : Bytes := []
  size : Nat := 4096

namespace Reader

variable {ρ : Type*} [Source ρ]

-- A read that is no smaller than the empty buffer goes past it.
def read (r : Reader ρ) (n : Nat) : Option (Bytes × Reader ρ) :=
  if r.buffer = [] then
    if r.size ≤ n then (Source.read r.source n).map fun read => (read.1, { r with source := read.2 })
    else (Source.read r.source r.size).map fun read =>
      (read.1.take n, { r with source := read.2, buffer := read.1.drop n })
  else some (r.buffer.take n, { r with buffer := r.buffer.drop n })

theorem take_ne_nil {bs : Bytes} {n : Nat} (nonempty : bs ≠ []) (positive : 0 < n) : bs.take n ≠ [] := by
  rw [Ne, List.take_eq_nil_iff, not_or]
  exact ⟨Nat.ne_of_gt positive, nonempty⟩

theorem read_eq_some {r r' : Reader ρ} {n : Nat} {bs : Bytes} (delivered : r.read n = some (bs, r')) :
    r.buffer ++ Source.rest r.source = bs ++ (r'.buffer ++ Source.rest r'.source) ∧ bs.length ≤ n ∧
      (0 < n → bs ≠ []) := by
  unfold read at delivered
  split_ifs at delivered with empty large
  · obtain ⟨⟨bs, source⟩, delivered', same⟩ := Option.map_eq_some_iff.mp delivered
    cases same
    refine ⟨?_, Source.read_le delivered', fun positive => Source.read_nonempty positive delivered'⟩
    simp [empty, Source.rest_of_read delivered']
  · obtain ⟨⟨bs, source⟩, delivered', same⟩ := Option.map_eq_some_iff.mp delivered
    cases same
    have filled := Source.read_nonempty (by omega) delivered'
    refine ⟨?_, ?_, fun positive => take_ne_nil filled positive⟩
    · simp [empty, Source.rest_of_read delivered', ← List.append_assoc]
    · simp only [List.length_take]
      exact Nat.min_le_left ..
  · cases delivered
    refine ⟨?_, ?_, fun positive => take_ne_nil empty positive⟩
    · simp [← List.append_assoc]
    · simp only [List.length_take]
      exact Nat.min_le_left ..

theorem read_eq_none {r : Reader ρ} {n : Nat} (ended : r.read n = none) : r.buffer ++ Source.rest r.source = [] := by
  unfold read at ended
  split_ifs at ended with empty large
  · simp [empty, Source.rest_of_end (Option.map_eq_none_iff.mp ended)]
  · simp [empty, Source.rest_of_end (Option.map_eq_none_iff.mp ended)]

instance : Source (Reader ρ) where
  read := read
  rest r := r.buffer ++ Source.rest r.source
  rest_of_end := read_eq_none
  rest_of_read delivered := (read_eq_some delivered).1
  read_le delivered := (read_eq_some delivered).2.1
  read_nonempty positive delivered := (read_eq_some delivered).2.2 positive

theorem yields {texts : List Bytes} {source : ρ} {size : Nat} (yields : Yields size texts source) :
    Yields size texts ({ source, size } : Reader ρ) := by
  induction texts generalizing source with
  | nil => trivial
  | cons text texts ih =>
    obtain ⟨source', read, yields⟩ := yields
    refine ⟨{ source := source', size }, fun n enough short => ?_, ih yields⟩
    show Reader.read _ n = _
    rw [Reader.read, if_pos rfl, if_pos enough, read n enough short, Option.map_some]

end Reader

structure Scanner (ρ : Type*) where
  source : ρ
  -- What has been read and not yet returned, and where it starts in a buffer of `size` bytes.
  pending : Bytes := []
  start : Nat := 0
  size : Nat
  max : Nat
  fits : start + pending.length ≤ size

inductive Scan (ρ : Type*) where
  | line (text : Bytes) (next : Scanner ρ)
  | done
  | tooLong

namespace Scanner

variable {ρ : Type*}

def new (source : ρ) (size max : Nat) : Scanner ρ where
  source := source
  size := size
  max := max
  fits := Nat.zero_le _

def grow (size max : Nat) : Nat := min (if size = 0 then 4096 else size * 2) max

theorem lt_grow {size max : Nat} (larger : size < max) : size < grow size max := by
  unfold grow
  split_ifs <;> omega

def room (s : Scanner ρ) : Option (Scanner ρ) :=
  if 0 < s.start ∧ (s.start + s.pending.length = s.size ∨ s.size / 2 < s.start) then
    some { s with start := 0, fits := Nat.le_trans (Nat.add_le_add_right (Nat.zero_le _) _) s.fits }
  else if s.start + s.pending.length < s.size then some s
  else if larger : s.size < s.max then
    some { s with
      start := 0
      size := grow s.size s.max
      fits := Nat.le_trans (Nat.add_le_add_right (Nat.zero_le _) _)
        (Nat.le_trans s.fits (Nat.le_of_lt (lt_grow larger))) }
  else none

structure Roomed (s t : Scanner ρ) : Prop where
  free : t.start + t.pending.length < t.size
  pending : t.pending = s.pending
  source : t.source = s.source
  max : t.max = s.max

theorem room_eq_some {s t : Scanner ρ} (roomed : s.room = some t) : Roomed s t := by
  have fits := s.fits
  unfold room at roomed
  split_ifs at roomed with shift free larger
  · cases roomed
    refine ⟨?_, rfl, rfl, rfl⟩
    simp only
    omega
  · cases roomed
    exact ⟨free, rfl, rfl, rfl⟩
  · cases roomed
    refine ⟨?_, rfl, rfl, rfl⟩
    have grown := lt_grow larger
    simp only
    omega

theorem room_eq_none {s : Scanner ρ} (full : s.room = none) : s.max ≤ s.pending.length := by
  have fits := s.fits
  unfold room at full
  split_ifs at full
  omega

theorem room_of_free {s : Scanner ρ} (free : s.start + s.pending.length < s.size) :
    ∃ t, s.room = some t ∧ t.start ≤ s.start ∧ t.size = s.size := by
  unfold room
  split_ifs
  · exact ⟨_, rfl, Nat.zero_le _, rfl⟩
  · exact ⟨s, rfl, Nat.le_refl _, rfl⟩

theorem room_size {s t : Scanner ρ} (bounded : s.size ≤ s.max) (roomed : s.room = some t) : t.size ≤ t.max := by
  unfold room at roomed
  split_ifs at roomed
  · cases roomed
    exact bounded
  · cases roomed
    exact bounded
  · cases roomed
    exact Nat.min_le_right _ _

theorem fits_cut {s : Scanner ρ} {line after : Bytes} (found : cut newline s.pending = some (line, after)) :
    s.start + line.length + 1 + after.length ≤ s.size := by
  have fits := s.fits
  rw [(cut_eq_some.mp found).1, List.length_append, List.length_cons] at fits
  omega

variable [Source ρ]

theorem fits_read {s t : Scanner ρ} (roomed : s.room = some t) {bs : Bytes} {source : ρ}
    (delivered : Source.read t.source (t.size - (t.start + t.pending.length)) = some (bs, source)) :
    t.start + (t.pending ++ bs).length ≤ t.size := by
  have free := (room_eq_some roomed).free
  have length := Source.read_le delivered
  rw [List.length_append]
  omega

def content (s : Scanner ρ) : Bytes := s.pending ++ Source.rest s.source

def scan (s : Scanner ρ) : Scan ρ :=
  match found : cut newline s.pending with
  | some (line, after) =>
    .line (dropCR line) { s with pending := after, start := s.start + line.length + 1, fits := fits_cut found }
  | none => match roomed : s.room with
      | none => .tooLong
      | some t => match delivered : Source.read t.source (t.size - (t.start + t.pending.length)) with
          | none =>
            if t.pending = [] then .done
            else .line (dropCR t.pending)
              { t with pending := [], start := t.start + t.pending.length, fits := t.fits }
          | some (bs, source) =>
            scan { t with source := source, pending := t.pending ++ bs, fits := fits_read roomed delivered }
termination_by (Source.rest s.source).length
decreasing_by
  have free := (room_eq_some roomed).free
  rw [← (room_eq_some roomed).source, Source.rest_of_read delivered, List.length_append]
  have positive := List.length_pos_of_ne_nil (Source.read_nonempty (by omega) delivered)
  omega

inductive Scanned (s : Scanner ρ) : Scan ρ → Prop
  | line {raw : Bytes} {t : Scanner ρ} (whole : newline ∉ raw) (same : s.content = raw ++ newline :: t.content)
      (max : t.max = s.max) : Scanned s (.line (dropCR raw) t)
  | last {raw : Bytes} {t : Scanner ρ} (whole : newline ∉ raw) (nonempty : raw ≠ []) (same : s.content = raw)
      (ended : t.content = []) (max : t.max = s.max) : Scanned s (.line (dropCR raw) t)
  | done (ended : s.content = []) : Scanned s .done
  | tooLong {raw : Bytes} (whole : newline ∉ raw) (starts : raw <+: s.content) (long : s.max ≤ raw.length) :
      Scanned s .tooLong

theorem Scanned.of_content {s t : Scanner ρ} {result : Scan ρ} (scanned : Scanned t result)
    (same : t.content = s.content) (sameMax : t.max = s.max) : Scanned s result := by
  cases scanned with
  | line whole split max => exact .line whole (same ▸ split) (max.trans sameMax)
  | last whole nonempty split ended max => exact .last whole nonempty (same ▸ split) ended (max.trans sameMax)
  | done ended => exact .done (same ▸ ended)
  | tooLong whole starts long => exact .tooLong whole (same ▸ starts) (sameMax ▸ long)

theorem scanned (s : Scanner ρ) : Scanned s s.scan := by
  fun_induction scan s with
  | case1 s line after found =>
    obtain ⟨split, whole⟩ := cut_eq_some.mp found
    exact .line whole (by simp [content, split]) rfl
  | case2 s found full =>
    exact .tooLong (cut_eq_none.mp found) (List.prefix_append ..) (room_eq_none full)
  | case3 s found t roomed ended empty =>
    have roomy := room_eq_some roomed
    apply Scanned.done
    rw [content, ← roomy.pending, ← roomy.source, empty, Source.rest_of_end ended, List.append_nil]
  | case4 s found t roomed ended nonempty =>
    have roomy := room_eq_some roomed
    have exhausted : Source.rest s.source = [] := by rw [← roomy.source, Source.rest_of_end ended]
    refine .last (roomy.pending ▸ cut_eq_none.mp found) nonempty ?_ ?_ roomy.max
    · rw [content, exhausted, List.append_nil, roomy.pending]
    · rw [content, roomy.source, exhausted, List.append_nil]
  | case5 s found t roomed bs source delivered ih =>
    have roomy := room_eq_some roomed
    refine ih.of_content ?_ roomy.max
    rw [content, content, ← roomy.source, Source.rest_of_read delivered, ← roomy.pending, List.append_assoc]

theorem scan_of_pending {s : Scanner ρ} {line after : Bytes} (found : cut newline s.pending = some (line, after)) :
    s.scan = .line (dropCR line)
      { s with pending := after, start := s.start + line.length + 1, fits := fits_cut found } := by
  rw [scan]
  split
  · next found' =>
      cases found.symm.trans found'
      rfl
  · next absent => cases found.symm.trans absent

theorem scan_eq_of_read {s t : Scanner ρ} {bs : Bytes} {source : ρ} (whole : newline ∉ s.pending)
    (roomed : s.room = some t)
    (delivered : Source.read t.source (t.size - (t.start + t.pending.length)) = some (bs, source)) :
    s.scan = scan { t with source := source, pending := t.pending ++ bs, fits := fits_read roomed delivered } := by
  rw [scan]
  split
  · next found' => cases (cut_eq_none.mpr whole).symm.trans found'
  · split
    · next full => cases roomed.symm.trans full
    · next t' roomed' =>
        cases roomed.symm.trans roomed'
        split
        · next ended => cases delivered.symm.trans ended
        · next bs' source' delivered' =>
            cases delivered.symm.trans delivered'
            rfl

def after (s : Scanner ρ) : Nat → Scanner ρ
  | 0 => s
  | n + 1 => match s.scan with
      | .line _ t => t.after n
      | .done | .tooLong => s

theorem after_succ {s t : Scanner ρ} {line : Bytes} (scan : s.scan = .line line t) (n : Nat) :
    s.after (n + 1) = t.after n := by
  rw [after, scan]

theorem after_add (s : Scanner ρ) (m n : Nat) : s.after (m + n) = (s.after m).after n := by
  induction m generalizing s with
  | zero => rw [Nat.zero_add, after]
  | succ m ih =>
    rw [Nat.add_right_comm]
    cases scan : s.scan with
    | line text t => rw [after_succ scan, after_succ scan, ih]
    | done | tooLong => cases n <;> simp [after, scan]

section Fed

/-- What is pending and the next reads make up these bytes, and the buffer has room for them. -/
structure Fed (least : Nat) (s : Scanner ρ) (reads : List Bytes) (bytes : Bytes) : Prop where
  yields : Yields least reads s.source
  room : s.start + s.pending.length + reads.flatten.length + least ≤ s.size
  bytes : s.pending ++ reads.flatten = bytes

variable {least : Nat} {s : Scanner ρ} {reads : List Bytes} {rest : Bytes}

theorem Fed.scan_pending {text : Bytes} (fed : Fed least s reads (text ++ newline :: rest)) (whole : newline ∉ text)
    (present : newline ∈ s.pending) : ∃ t, s.scan = .line (dropCR text) t ∧ Fed least t reads rest := by
  cases found : cut newline s.pending with
  | none => exact absurd present (cut_eq_none.mp found)
  | some parts =>
    obtain ⟨line, after⟩ := parts
    obtain ⟨split, absent⟩ := cut_eq_some.mp found
    have room := fed.room
    have first := cut_append whole rest
    rw [← fed.bytes, split, List.append_assoc, List.cons_append, cut_append absent] at first
    cases first
    rw [split, List.length_append, List.length_cons] at room
    refine ⟨_, scan_of_pending found, fed.yields, ?_, rfl⟩
    simp only
    omega

-- by induction on the reads that are left: the buffer has room for the next one
theorem Fed.scan {text : Bytes} (fed : Fed (least + 1) s reads (text ++ newline :: rest)) (whole : newline ∉ text) :
    ∃ t reads', s.scan = .line (dropCR text) t ∧ Fed (least + 1) t reads' rest ∧ reads' <:+ reads := by
  induction reads generalizing s with
  | nil =>
    have present : newline ∈ s.pending := by
      have bytes := fed.bytes
      rw [List.flatten_nil, List.append_nil] at bytes
      simp [bytes]
    obtain ⟨t, scan, fed'⟩ := fed.scan_pending whole present
    exact ⟨t, [], scan, fed', List.suffix_refl _⟩
  | cons chunk reads ih =>
    by_cases present : newline ∈ s.pending
    · obtain ⟨t, scan, fed'⟩ := fed.scan_pending whole present
      exact ⟨t, _, scan, fed', List.suffix_refl _⟩
    · obtain ⟨⟨source, read, yields⟩, room, bytes⟩ := fed
      rw [List.flatten_cons, List.length_append] at room
      obtain ⟨t, roomed, start, sized⟩ := room_of_free (s := s) (by omega)
      have roomy := room_eq_some roomed
      have delivered : Source.read t.source (t.size - (t.start + t.pending.length)) = some (chunk, source) := by
        rw [roomy.source, roomy.pending]
        exact read _ (by omega) (by omega)
      rw [scan_eq_of_read present roomed delivered]
      have next : Fed (least + 1) { t with
          source := source
          pending := t.pending ++ chunk
          fits := fits_read roomed delivered } reads (text ++ newline :: rest) := by
        refine ⟨yields, ?_, ?_⟩
        · simp only [List.length_append, roomy.pending]
          omega
        · simp only [← bytes, roomy.pending, List.append_assoc, List.flatten_cons]
      obtain ⟨u, reads', scan, fed', later⟩ := ih next
      exact ⟨u, reads', scan, fed', later.trans (List.suffix_cons ..)⟩

theorem Fed.after {texts : List Bytes} (whole : ∀ text ∈ texts, newline ∉ text)
    (fed : Fed (least + 1) s reads (texts.flatMap (· ++ [newline]) ++ rest)) :
    ∃ reads', Fed (least + 1) (s.after texts.length) reads' rest ∧ reads' <:+ reads := by
  induction texts generalizing s reads with
  | nil => exact ⟨reads, fed, List.suffix_refl _⟩
  | cons text texts ih =>
    rw [List.forall_mem_cons] at whole
    rw [List.flatMap_cons, List.append_assoc, List.append_assoc, List.singleton_append] at fed
    obtain ⟨t, reads', scan, fed', later⟩ := fed.scan whole.1
    obtain ⟨reads'', fed'', later'⟩ := ih whole.2 fed'
    rw [List.length_cons, after_succ scan]
    exact ⟨reads'', fed'', later'.trans later⟩

end Fed

theorem length_content_lt {s t : Scanner ρ} {text : Bytes} (scan : s.scan = .line text t) :
    t.content.length < s.content.length := by
  have scanned := scanned s
  rw [scan] at scanned
  cases scanned with
  | line whole same =>
    rw [same, List.length_append, List.length_cons]
    omega
  | last whole nonempty same ended =>
    rw [ended, same]
    exact List.length_pos_of_ne_nil nonempty

def tokens (s : Scanner ρ) : List Bytes × Bool :=
  match scan : s.scan with
  | .line text t =>
    have := length_content_lt scan
    (text :: t.tokens.1, t.tokens.2)
  | .done => ([], false)
  | .tooLong => ([], true)
termination_by s.content.length

inductive ShortLines (max : Nat) : Bytes → Prop
  | last {line : Bytes} (whole : newline ∉ line) (short : line.length < max) : ShortLines max line
  | line {line rest : Bytes} (whole : newline ∉ line) (short : line.length < max) (others : ShortLines max rest) :
      ShortLines max (line ++ newline :: rest)

theorem ShortLines.rest {max : Nat} {line rest : Bytes} (short : ShortLines max (line ++ newline :: rest))
    (whole : newline ∉ line) : ShortLines max rest := by
  generalize same : line ++ newline :: rest = bs at short
  cases short with
  | last whole' => simp [← same] at whole'
  | line whole' _ others =>
    have split := cut_append whole rest
    rw [same, cut_append whole'] at split
    cases split
    exact others

theorem ShortLines.length_lt {max : Nat} {bs raw : Bytes} (short : ShortLines max bs) (starts : raw <+: bs)
    (whole : newline ∉ raw) : raw.length < max := by
  cases short with
  | last _ short => exact Nat.lt_of_le_of_lt starts.length_le short
  | @line line rest whole' short _ =>
    obtain within | ⟨after, rfl⟩ := List.prefix_or_prefix_of_prefix starts (List.prefix_append line _)
    · exact Nat.lt_of_le_of_lt within.length_le short
    · rw [List.prefix_append_right_inj] at starts
      cases after with
      | nil => simpa using short
      | cons b after =>
        obtain rfl : b = newline := (List.cons_prefix_cons.mp starts).1
        simp at whole

theorem ShortLines.drop {max : Nat} {bs : Bytes} (short : ShortLines max bs) (k : Nat) :
    ShortLines max (bs.drop k) := by
  induction short generalizing k with
  | last whole short =>
    apply ShortLines.last
    · exact fun member => whole (List.mem_of_mem_drop member)
    · rw [List.length_drop]
      omega
  | @line line rest whole short _ ih =>
    rw [List.drop_append]
    obtain within | past := Nat.lt_or_ge line.length k
    · obtain ⟨n, rfl⟩ : ∃ n, k = line.length + (n + 1) := ⟨k - line.length - 1, by omega⟩
      have dropped : line.drop (line.length + (n + 1)) = [] := List.drop_eq_nil_of_le (by omega)
      simpa [dropped] using ih n
    · rw [Nat.sub_eq_zero_of_le past, List.drop_zero]
      apply ShortLines.line
      · exact fun member => whole (List.mem_of_mem_drop member)
      · rw [List.length_drop]
        omega
      · assumption

theorem scan_line {s : Scanner ρ} {line rest : Bytes} (whole : newline ∉ line) (short : line.length < s.max)
    (content : s.content = line ++ newline :: rest) :
    ∃ t, s.scan = .line (dropCR line) t ∧ t.content = rest ∧ t.max = s.max := by
  have member : newline ∈ s.content := by simp [content]
  have scanned := scanned s
  generalize s.scan = result at scanned
  cases scanned with
  | line whole' same max =>
    have split := cut_append whole rest
    rw [← content, same, cut_append whole'] at split
    cases split
    exact ⟨_, rfl, rfl, max⟩
  | last whole' nonempty same => exact absurd (same ▸ member) whole'
  | done ended => simp [ended] at member
  | @tooLong raw whole' starts long =>
    rw [content] at starts
    obtain within | ⟨after, rfl⟩ := List.prefix_or_prefix_of_prefix starts (List.prefix_append line _)
    · exact absurd within.length_le (by omega)
    · rw [List.prefix_append_right_inj] at starts
      cases after with
      | nil =>
        rw [List.append_nil] at long
        omega
      | cons b after =>
        obtain rfl : b = newline := (List.cons_prefix_cons.mp starts).1
        simp at whole'

theorem tokens_eq (s : Scanner ρ) (short : ShortLines s.max s.content) : s.tokens = (lines s.content, false) := by
  fun_induction tokens s with
  | case1 s text t scan shorter ih =>
    have scanned := scanned s
    rw [scan] at scanned
    cases scanned with
    | line whole same max =>
      rw [same] at short
      rw [ih (max ▸ short.rest whole), same, lines_append whole]
    | last whole nonempty same ended max =>
      have none : ShortLines t.max t.content := by
        rw [ended, max]
        exact .last (by simp) (Nat.zero_lt_of_lt (short.length_lt List.nil_prefix (by simp)))
      rw [ih none, same, lines_last whole nonempty, ended, lines_nil]
  | case2 s scan =>
    have scanned := scanned s
    rw [scan] at scanned
    cases scanned with
    | done ended => rw [ended, lines_nil]
  | case3 s scan =>
    have scanned := scanned s
    rw [scan] at scanned
    cases scanned with
    | tooLong whole starts long => exact absurd (short.length_lt starts whole) (Nat.not_lt.mpr long)

theorem scan_size {s t : Scanner ρ} {text : Bytes} (bounded : s.size ≤ s.max) (scan : s.scan = .line text t) :
    t.size ≤ t.max := by
  fun_induction Scanner.scan s with
  | case1 s line after found =>
    cases scan
    exact bounded
  | case2 | case3 => cases scan
  | case4 s found u roomed ended nonempty =>
    have roomy := room_size bounded roomed
    cases scan
    exact roomy
  | case5 s found u roomed bs source delivered ih =>
    have roomy := room_size bounded roomed
    exact ih roomy scan

theorem scan_tooLong {s : Scanner ρ} (bounded : s.size ≤ s.max) {raw rest : Bytes} (whole : newline ∉ raw)
    (same : s.content = raw ++ newline :: rest) (long : s.max ≤ raw.length) : s.scan = .tooLong := by
  fun_induction Scanner.scan s with
  | case1 s line after found =>
    have split := cut_append whole rest
    rw [← same, content, (cut_eq_some.mp found).1, List.append_assoc, List.cons_append,
      cut_append (cut_eq_some.mp found).2] at split
    cases split
    have fits := fits_cut found
    omega
  | case2 => rfl
  | case3 s found t roomed ended empty =>
    have roomy := room_eq_some roomed
    rw [content, ← roomy.pending, ← roomy.source, empty, Source.rest_of_end ended] at same
    simp at same
  | case4 s found t roomed ended nonempty =>
    have roomy := room_eq_some roomed
    rw [content, ← roomy.source, Source.rest_of_end ended, List.append_nil] at same
    have absent := cut_eq_none.mp found
    rw [same] at absent
    simp at absent
  | case5 s found t roomed bs source delivered ih =>
    have roomy := room_eq_some roomed
    have bounded' := room_size bounded roomed
    apply ih bounded' _ (roomy.max ▸ long)
    rw [← same, content, content, ← roomy.source, Source.rest_of_read delivered, ← roomy.pending, List.append_assoc]

theorem tokens_tooLong {texts : List Bytes} {raw rest : Bytes} (whole : newline ∉ raw) {s : Scanner ρ}
    (bounded : s.size ≤ s.max) (short : ∀ text ∈ texts, newline ∉ text ∧ text.length < s.max)
    (long : s.max ≤ raw.length) (same : s.content = texts.flatMap (· ++ [newline]) ++ (raw ++ newline :: rest)) :
    s.tokens = (texts.map dropCR, true) := by
  induction texts generalizing s with
  | nil =>
    have scan := scan_tooLong bounded whole same long
    rw [tokens]
    split
    · next found => cases scan.symm.trans found
    · next found => cases scan.symm.trans found
    · rfl
  | cons text texts ih =>
    rw [List.forall_mem_cons] at short
    rw [List.flatMap_cons, List.append_assoc, List.append_assoc, List.singleton_append] at same
    obtain ⟨t, scan, content, max⟩ := scan_line short.1.1 short.1.2 same
    have later := ih (scan_size bounded scan) (max ▸ short.2) (max ▸ long) content
    rw [tokens]
    split
    · next found =>
        cases scan.symm.trans found
        rw [later]
        rfl
    · next found => cases scan.symm.trans found
    · next found => cases scan.symm.trans found

theorem infix_of_mem_tokens {s : Scanner ρ} {text : Bytes} (member : text ∈ s.tokens.1) : text <:+: s.content := by
  fun_induction tokens s with
  | case1 s first t scan shorter ih =>
    have scanned := scanned s
    rw [scan] at scanned
    cases scanned with
    | line whole same max =>
      obtain rfl | later := List.mem_cons.mp member
      · exact same ▸ (dropCR_leading _).isInfix.trans (List.prefix_append _ _).isInfix
      · exact (ih later).trans ⟨_, [], by rw [same, List.append_nil, ← List.append_cons]⟩
    | last whole nonempty same ended max =>
      obtain rfl | later := List.mem_cons.mp member
      · exact same ▸ (dropCR_leading _).isInfix
      · exact (ended ▸ ih later).trans (List.nil_infix)
  | case2 | case3 => cases member

end Scanner

end Mcp.Lib
