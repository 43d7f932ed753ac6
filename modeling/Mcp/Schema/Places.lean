import Mcp.Schema.Encoding

namespace Mcp.Schemas

mutual

def PlainType.zero : PlainType → Value
  | .bool => .bool false
  | .int _ => .int 0
  | .string => .string ""
  | .slice _ => .slice none
  | .map _ => .map none
  | .ptr _ => .ptr none
  | .struct _ fields => .struct (zeros fields)

def zeros : Fields → List Value
  | [] => []
  | (_, t) :: rest => t.zero :: zeros rest

end

theorem IntKind.holds_zero (kind : IntKind) : kind.Holds 0 := by cases kind <;> exact ⟨by decide, by decide⟩

theorem IntKind.holds_one (kind : IntKind) : kind.Holds 1 := by cases kind <;> exact ⟨by decide, by decide⟩

mutual

theorem has_zero : (t : PlainType) → t.Has t.zero
  | .bool => trivial
  | .int kind => kind.holds_zero
  | .string => trivial
  | .slice _ => trivial
  | .map _ => trivial
  | .ptr _ => trivial
  | .struct _ fields => hasFields_zeros fields

theorem hasFields_zeros : (fields : Fields) → HasFields fields (zeros fields)
  | [] => trivial
  | (_, t) :: rest => ⟨has_zero t, hasFields_zeros rest⟩

end

mutual

theorem isZero_zero : (t : PlainType) → t.zero.isZero = true
  | .bool => rfl
  | .int _ => rfl
  | .string => rfl
  | .slice _ => rfl
  | .map _ => rfl
  | .ptr _ => rfl
  | .struct _ fields => allZero_zeros fields

theorem allZero_zeros : (fields : Fields) → Value.allZero (zeros fields) = true
  | [] => rfl
  | (_, t) :: rest => by
      rw [zeros, Value.allZero, isZero_zero t, allZero_zeros rest]
      rfl

end

variable {xs : List Value} {fields : Fields} {t : PlainType} {name : Option TypeName} {x : Value}

theorem allZero_eq_true : Value.allZero xs = true ↔ ∀ x ∈ xs, x.isZero = true := by
  induction xs with
  | nil => simp [Value.allZero]
  | cons x xs ih => simp [Value.allZero, ih]

theorem allZero_eq_false : Value.allZero xs = false ↔ ∃ (i : Nat) (x : Value), xs[i]? = some x ∧ x.isZero = false := by
  rw [← Bool.not_eq_true, allZero_eq_true]
  constructor
  · intro some
    push Not at some
    obtain ⟨x, member, nonzero⟩ := some
    obtain ⟨i, found⟩ := List.mem_iff_getElem?.mp member
    exact ⟨i, x, found, Bool.of_not_eq_true nonzero⟩
  · rintro ⟨i, x, found, nonzero⟩ all
    rw [all x (List.mem_of_getElem? found)] at nonzero
    cases nonzero

section HasFields

variable {fields : Fields} {xs : List Value} {i : Nat} {x : Value} {f : FieldInfo} {t : PlainType}

theorem hasFields_iff : HasFields fields xs ↔ List.Forall₂ (·.2.Has ·) fields xs := by
  induction fields generalizing xs with
  | nil => cases xs <;> simp [HasFields]
  | cons field fields ih => cases xs <;> simp [HasFields, ih]

theorem hasFields_found (has : HasFields fields xs) (place : fields[i]? = some (f, t)) :
    ∃ x, xs[i]? = some x ∧ t.Has x := by
  rw [hasFields_iff] at has
  induction has generalizing i with
  | nil => simp at place
  | cons first rest ih =>
    cases i with
    | zero =>
      cases place
      exact ⟨_, rfl, first⟩
    | succ i => exact ih place

theorem hasFields_set (has : HasFields fields xs) (place : fields[i]? = some (f, t)) (value : t.Has x) :
    HasFields fields (xs.set i x) := by
  rw [hasFields_iff] at has ⊢
  induction has generalizing i with
  | nil => exact .nil
  | cons first rest ih =>
    cases i with
    | zero =>
      cases place
      exact .cons value rest
    | succ i => exact .cons first (ih place)

theorem hasFields_length (has : HasFields fields xs) : xs.length = fields.length :=
  (hasFields_iff.mp has).length_eq.symm

theorem hasFields_value (has : HasFields fields xs) (found : xs[i]? = some x) :
    ∃ f t, fields[i]? = some (f, t) ∧ t.Has x := by
  have inside : i < fields.length := hasFields_length has ▸ (List.getElem?_eq_some_iff.mp found).1
  have place : fields[i]? = some (fields[i].1, fields[i].2) := List.getElem?_eq_getElem inside
  obtain ⟨y, found', value⟩ := hasFields_found has place
  rw [found] at found'
  cases found'
  exact ⟨_, _, place, value⟩

theorem getElem?_set_of_has (has : HasFields fields xs) (place : fields[i]? = some (f, t)) :
    (xs.set i x)[i]? = some x := by
  obtain ⟨y, found, -⟩ := hasFields_found has place
  exact List.getElem?_set_self (List.getElem?_eq_some_iff.mp found).1

end HasFields

mutual

def PlainType.single : PlainType → Bool
  | .struct _ fields => allSingle fields
  | _ => false

def allSingle : Fields → Bool
  | [] => true
  | (_, t) :: rest => t.single && allSingle rest

end

theorem allSingle_eq_true : allSingle fields = true ↔ ∀ (i : Nat) f t, fields[i]? = some (f, t) → t.single = true := by
  induction fields with
  | nil => simp [allSingle]
  | cons field fields ih =>
    rw [allSingle, Bool.and_eq_true, ih]
    constructor
    · rintro ⟨first, rest⟩ i f t place
      cases i with
      | zero =>
        cases place
        exact first
      | succ i => exact rest i f t place
    · intro all
      exact ⟨all 0 field.1 field.2 rfl, fun i f t place => all (i + 1) f t place⟩

mutual

theorem isZero_of_single : (t : PlainType) → (x : Value) → t.single = true → t.Has x → x.isZero = true
  | .struct _ fields, .struct xs, single, has => allZero_of_single fields xs single has
  | .struct _ _, .bool _, _, has | .struct _ _, .int _, _, has | .struct _ _, .string _, _, has
  | .struct _ _, .slice _, _, has | .struct _ _, .map _, _, has | .struct _ _, .ptr _, _, has => by
      simp [PlainType.Has] at has

theorem allZero_of_single : (fields : Fields) → (xs : List Value) → allSingle fields = true → HasFields fields xs →
    Value.allZero xs = true
  | [], [], _, _ => rfl
  | (_, t) :: rest, x :: xs, single, has => by
      obtain ⟨first, others⟩ := Bool.and_eq_true_iff.mp single
      rw [Value.allZero, isZero_of_single t x first has.1, allZero_of_single rest xs others has.2]
      rfl

end

mutual

theorem exists_nonzero : (t : PlainType) → t.single = false → ∃ x, t.Has x ∧ x.isZero = false ∧ x.isEmpty = false
  | .bool, _ => ⟨.bool true, trivial, rfl, rfl⟩
  | .int kind, _ => ⟨.int 1, kind.holds_one, rfl, rfl⟩
  | .string, _ => ⟨.string "a", trivial, by decide, by decide⟩
  | .slice elem, _ => ⟨.slice (some [elem.zero]), by simp [PlainType.Has, has_zero], rfl, rfl⟩
  | .map elem, _ => ⟨.map (some [("", elem.zero)]), by simp [PlainType.Has, has_zero], rfl, rfl⟩
  | .ptr elem, _ => ⟨.ptr (some elem.zero), has_zero elem, rfl, rfl⟩
  | .struct _ fields, several => by
      obtain ⟨xs, has, nonzero⟩ := exists_nonzero_fields fields several
      exact ⟨.struct xs, has, nonzero, rfl⟩

theorem exists_nonzero_fields : (fields : Fields) → allSingle fields = false →
    ∃ xs, HasFields fields xs ∧ Value.allZero xs = false
  | (f, t) :: rest, several => by
      rw [allSingle, Bool.and_eq_false_iff] at several
      rcases several with first | others
      · obtain ⟨x, has, nonzero, -⟩ := exists_nonzero t first
        exact ⟨x :: zeros rest, ⟨has, hasFields_zeros rest⟩, by simp [Value.allZero, nonzero]⟩
      · obtain ⟨xs, has, nonzero⟩ := exists_nonzero_fields rest others
        exact ⟨t.zero :: xs, ⟨has_zero t, has⟩, by simp [Value.allZero, nonzero]⟩

end

theorem zeros_found {i : Nat} {f : FieldInfo} (place : fields[i]? = some (f, t)) :
    (zeros fields)[i]? = some t.zero := by
  induction fields generalizing i with
  | nil => simp at place
  | cons field fields ih =>
    cases i with
    | zero =>
      cases place
      rfl
    | succ i => exact ih place

inductive Place : Fields → List Nat → PlainType → Prop
  | here {fields : Fields} {i : Nat} {f : FieldInfo} {t : PlainType} (found : fields[i]? = some (f, t)) :
      Place fields [i] t
  | inside {fields gs : Fields} {i j : Nat} {rest : List Nat} {f : FieldInfo} {s t : PlainType}
      {name : Option TypeName} (found : fields[i]? = some (f, s)) (struct : s.followed = .struct name gs)
      (deeper : Place gs (j :: rest) t) : Place fields (i :: j :: rest) t

theorem followed_eq_struct {s : PlainType} {gs : Fields} (struct : s.followed = .struct name gs) :
    s = .struct name gs ∨ s = .ptr (.struct name gs) := by
  cases s <;> simp_all [PlainType.followed]

theorem has_struct (has : (PlainType.struct name fields).Has x) : ∃ xs, x = .struct xs ∧ HasFields fields xs := by
  cases x with
  | struct xs => exact ⟨xs, rfl, has⟩
  | _ => simp [PlainType.Has] at has

theorem has_ptr (has : (PlainType.ptr t).Has x) : x = .ptr none ∨ ∃ y, x = .ptr (some y) ∧ t.Has y := by
  cases x with
  | ptr target =>
    cases target with
    | none => exact .inl rfl
    | some y => exact .inr ⟨y, rfl, has⟩
  | _ => simp [PlainType.Has] at has

section Walk

variable {fields gs : Fields} {xs ys : List Value} {index rest : List Nat} {i j : Nat} {x y : Value} {f : FieldInfo}
  {s t : PlainType} {name : Option TypeName}

theorem walk_struct (found : xs[i]? = some (.struct ys)) : walk xs (i :: j :: rest) = walk ys (j :: rest) := by
  rw [walk, found]

theorem walk_ptr (found : xs[i]? = some (.ptr (some (.struct ys)))) :
    walk xs (i :: j :: rest) = walk ys (j :: rest) := by
  rw [walk, found]

theorem walk_nil (found : xs[i]? = some (.ptr none)) : walk xs (i :: j :: rest) = none := by
  rw [walk, found]

theorem walk_has (place : Place fields index t) (has : HasFields fields xs) (found : walk xs index = some x) :
    t.Has x := by
  induction place generalizing xs with
  | here at' =>
    obtain ⟨y, found', value⟩ := hasFields_found has at'
    cases found'.symm.trans found
    exact value
  | inside at' struct deeper ih =>
    obtain ⟨y, found', value⟩ := hasFields_found has at'
    rcases followed_eq_struct struct with rfl | rfl
    · obtain ⟨ys, rfl, has'⟩ := has_struct value
      rw [walk_struct found'] at found
      exact ih has' found
    · rcases has_ptr value with rfl | ⟨z, rfl, value⟩
      · rw [walk_nil found'] at found
        cases found
      · obtain ⟨ys, rfl, has'⟩ := has_struct value
        rw [walk_ptr found'] at found
        exact ih has' found

theorem walk_nonzero (found : walk xs index = some x) (nonzero : x.isZero = false) : Value.allZero xs = false := by
  induction index generalizing xs with
  | nil => simp [walk] at found
  | cons i rest ih =>
    cases rest with
    | nil => exact allZero_eq_false.mpr ⟨i, x, found, nonzero⟩
    | cons j rest =>
      rw [walk] at found
      split at found
      · rename_i ys place
        exact allZero_eq_false.mpr ⟨i, _, place, ih found⟩
      · rename_i ys place
        exact allZero_eq_false.mpr ⟨i, _, place, rfl⟩
      · cases found

theorem exists_set (place : fields[i]? = some (f, t)) (value : t.Has x) : ∃ xs, HasFields fields xs ∧ xs[i]? = some x :=
  ⟨(zeros fields).set i x, hasFields_set (hasFields_zeros fields) place value,
    getElem?_set_of_has (hasFields_zeros fields) place⟩

theorem exists_walk (place : Place fields index t) (value : t.Has x) :
    ∃ xs, HasFields fields xs ∧ walk xs index = some x := by
  induction place with
  | here at' => exact exists_set at' value
  | inside at' struct deeper ih =>
    obtain ⟨ys, has, found⟩ := ih value
    rcases followed_eq_struct struct with rfl | rfl
    · obtain ⟨xs, has', found'⟩ := exists_set (x := .struct ys) at' has
      exact ⟨xs, has', (walk_struct found').trans found⟩
    · obtain ⟨xs, has', found'⟩ := exists_set (x := .ptr (some (.struct ys))) at' has
      exact ⟨xs, has', (walk_ptr found').trans found⟩

end Walk

def alone (fields : Fields) (i : Nat) : Bool := fields.zipIdx.all fun ((_, t), j) => j = i || t.single

def solid : Fields → List Nat → Bool
  | fields, i :: j :: rest =>
    match fields[i]? with
    | some (_, .struct _ gs) => solid gs (j :: rest)
    | _ => false
  | _, _ => true

def forced : Fields → List Nat → Bool
  | _, [] => false
  | fields, [i] => alone fields i
  | fields, i :: j :: rest =>
    alone fields i &&
      match fields[i]? with
      | some (_, .struct _ gs) => forced gs (j :: rest)
      | _ => false

def reached : Fields → List Nat → Bool
  | fields, i :: j :: rest =>
    solid fields (i :: j :: rest) || alone fields i &&
      match fields[i]? with
      | some (_, .struct _ gs) => reached gs (j :: rest)
      | some (_, .ptr (.struct _ gs)) => solid gs (j :: rest)
      | _ => false
  | _, _ => true

section Known

variable {fields gs : Fields} {xs ys : List Value} {index rest : List Nat} {i j : Nat} {x y : Value} {f : FieldInfo}
  {s t : PlainType} {name : Option TypeName}

theorem alone_eq_true : alone fields i = true ↔
      ∀ (j : Nat) f t, fields[j]? = some (f, t) → j ≠ i → t.single = true := by
  simp only [alone, List.all_eq_true, Bool.or_eq_true, decide_eq_true_eq, Prod.forall, List.mk_mem_zipIdx_iff_getElem?]
  constructor
  · intro all j f t place ne
    exact (all f t j place).resolve_left ne
  · intro all f t j place
    by_cases same : j = i
    · exact .inl same
    · exact .inr (all j f t place same)

theorem allSingle_of_alone (place : fields[i]? = some (f, t)) (others : alone fields i = true) (own : t.single = true) :
    allSingle fields = true := by
  rw [allSingle_eq_true]
  intro j f' t' found
  by_cases same : j = i
  · subst same
    cases place.symm.trans found
    exact own
  · exact alone_eq_true.mp others j f' t' found same

theorem exists_other (other : alone fields i = false) :
    ∃ (j : Nat) (f : FieldInfo) (t : PlainType) (x : Value), fields[j]? = some (f, t) ∧ j ≠ i ∧ t.Has x ∧
      x.isZero = false := by
  have some : ¬ alone fields i = true := by simp [other]
  rw [alone_eq_true] at some
  push Not at some
  obtain ⟨j, f, t, place, ne, several⟩ := some
  obtain ⟨x, has, nonzero, -⟩ := exists_nonzero t (Bool.of_not_eq_true several)
  exact ⟨j, f, t, x, place, ne, has, nonzero⟩

theorem exists_beside (place : fields[i]? = some (f, t)) (other : alone fields i = false) (value : t.Has x) :
    ∃ xs, HasFields fields xs ∧ Value.allZero xs = false ∧ xs[i]? = some x := by
  obtain ⟨j, f', t', y, place', ne, value', nonzero⟩ := exists_other other
  obtain ⟨xs, base, found⟩ := exists_set place' value'
  refine ⟨xs.set i x, hasFields_set base place value, ?_, getElem?_set_of_has base place⟩
  refine allZero_eq_false.mpr ⟨j, y, ?_, nonzero⟩
  rwa [List.getElem?_set_ne (Ne.symm ne)]

theorem exists_at (place : fields[i]? = some (f, t)) (value : t.Has x) (nonzero : x.isZero = false) :
    ∃ xs, HasFields fields xs ∧ Value.allZero xs = false ∧ xs[i]? = some x := by
  obtain ⟨xs, has, found⟩ := exists_set place value
  exact ⟨xs, has, allZero_eq_false.mpr ⟨i, x, found, nonzero⟩, found⟩

theorem nonzero_of_alone (single : alone fields i = true) (has : HasFields fields xs)
    (nonzero : Value.allZero xs = false) (found : xs[i]? = some x) : x.isZero = false := by
  obtain ⟨j, y, found', nonzero⟩ := allZero_eq_false.mp nonzero
  by_cases same : j = i
  · subst same
    cases found.symm.trans found'
    exact nonzero
  · obtain ⟨f, t, place, value⟩ := hasFields_value has found'
    rw [isZero_of_single t y (alone_eq_true.mp single j f t place same) value] at nonzero
    cases nonzero

theorem exists_walk_free (place : Place fields index t) (value : t.Has x) (free : forced fields index = false) :
    ∃ xs, HasFields fields xs ∧ Value.allZero xs = false ∧ walk xs index = some x := by
  induction place with
  | here at' => exact exists_beside at' free value
  | inside at' struct deeper ih =>
    rcases followed_eq_struct struct with rfl | rfl
    · rw [forced, at', Bool.and_eq_false_iff] at free
      rcases free with other | free
      · obtain ⟨ys, has, found⟩ := exists_walk deeper value
        obtain ⟨xs, has', nonzero, found'⟩ := exists_beside (x := .struct ys) at' other has
        exact ⟨xs, has', nonzero, (walk_struct found').trans found⟩
      · obtain ⟨ys, has, nonzero, found⟩ := ih value free
        obtain ⟨xs, has', nonzero', found'⟩ := exists_at (x := .struct ys) at' has nonzero
        exact ⟨xs, has', nonzero', (walk_struct found').trans found⟩
    · -- a pointer that is not nil is not zero, whatever it points to
      obtain ⟨ys, has, found⟩ := exists_walk deeper value
      obtain ⟨xs, has', nonzero', found'⟩ := exists_at (x := .ptr (some (.struct ys))) at' has rfl
      exact ⟨xs, has', nonzero', (walk_ptr found').trans found⟩

theorem nonzero_of_forced (place : Place fields index t) (known : forced fields index = true)
    (has : HasFields fields xs)
    (nonzero : Value.allZero xs = false) (found : walk xs index = some x) : x.isZero = false := by
  induction place generalizing xs with
  | here at' => exact nonzero_of_alone known has nonzero found
  | inside at' struct deeper ih =>
    obtain ⟨y, found', value⟩ := hasFields_found has at'
    rw [forced, at', Bool.and_eq_true] at known
    rcases followed_eq_struct struct with rfl | rfl
    · obtain ⟨ys, rfl, has'⟩ := has_struct value
      rw [walk_struct found'] at found
      exact ih known.2 has' (nonzero_of_alone known.1 has nonzero found') found
    · cases known.2

theorem walk_of_solid (place : Place fields index t) (known : solid fields index = true) (has : HasFields fields xs) :
    ∃ x, walk xs index = some x := by
  induction place generalizing xs with
  | here at' =>
    obtain ⟨x, found, -⟩ := hasFields_found has at'
    exact ⟨x, found⟩
  | inside at' struct deeper ih =>
    obtain ⟨y, found', value⟩ := hasFields_found has at'
    rw [solid, at'] at known
    rcases followed_eq_struct struct with rfl | rfl
    · obtain ⟨ys, rfl, has'⟩ := has_struct value
      rw [walk_struct found']
      exact ih known has'
    · cases known

theorem walk_zeros (place : Place fields index t) (known : solid fields index = false) :
    walk (zeros fields) index = none := by
  induction place with
  | here _ => cases known
  | inside at' struct deeper ih =>
    have found := zeros_found at'
    rw [solid, at'] at known
    rcases followed_eq_struct struct with rfl | rfl
    · exact (walk_struct found).trans (ih known)
    · exact walk_nil found

theorem walk_of_not_solid (at' : fields[i]? = some (f, s)) (struct : s.followed = .struct name gs)
    (deeper : Place gs (j :: rest) t) (known : solid fields (i :: j :: rest) = false) (found : xs[i]? = some s.zero) :
    walk xs (i :: j :: rest) = none := by
  rw [solid, at'] at known
  rcases followed_eq_struct struct with rfl | rfl
  · exact (walk_struct found).trans (walk_zeros deeper known)
  · exact walk_nil found

theorem walk_of_reached (place : Place fields index t) (known : reached fields index = true) (has : HasFields fields xs)
    (nonzero : Value.allZero xs = false) : ∃ x, walk xs index = some x := by
  induction place generalizing xs with
  | here at' =>
    obtain ⟨x, found, -⟩ := hasFields_found has at'
    exact ⟨x, found⟩
  | inside at' struct deeper ih =>
    rw [reached, Bool.or_eq_true, Bool.and_eq_true] at known
    rcases known with known | ⟨single, known⟩
    · exact walk_of_solid (.inside at' struct deeper) known has
    obtain ⟨y, found', value⟩ := hasFields_found has at'
    have nonzero' := nonzero_of_alone single has nonzero found'
    rw [at'] at known
    rcases followed_eq_struct struct with rfl | rfl
    · obtain ⟨ys, rfl, has'⟩ := has_struct value
      rw [walk_struct found']
      exact ih known has' nonzero'
    · rcases has_ptr value with rfl | ⟨z, rfl, value⟩
      · cases nonzero'
      · obtain ⟨ys, rfl, has'⟩ := has_struct value
        rw [walk_ptr found']
        exact walk_of_solid deeper known has'

theorem exists_not_reached (place : Place fields index t) (known : reached fields index = false)
    (several : allSingle fields = false) :
    ∃ xs, HasFields fields xs ∧ Value.allZero xs = false ∧ walk xs index = none := by
  induction place with
  | here _ => cases known
  | @inside fields gs i j rest f s t name at' struct deeper ih =>
    rw [reached, Bool.or_eq_false_iff, at'] at known
    obtain ⟨behind, known⟩ := known
    cases single : alone fields i with
    | false =>
      obtain ⟨xs, has, nonzero, found⟩ := exists_beside at' single (has_zero s)
      exact ⟨xs, has, nonzero, walk_of_not_solid at' struct deeper behind found⟩
    | true =>
      rw [single, Bool.true_and] at known
      rcases followed_eq_struct struct with rfl | rfl
      · have inner : allSingle gs = false := by
          by_contra all
          rw [allSingle_of_alone at' single (Bool.of_not_eq_false all)] at several
          cases several
        obtain ⟨ys, has, nonzero, found⟩ := ih known inner
        obtain ⟨xs, has', nonzero', found'⟩ := exists_at (x := .struct ys) at' has nonzero
        exact ⟨xs, has', nonzero', (walk_struct found').trans found⟩
      · obtain ⟨xs, has, nonzero, found⟩ :=
          exists_at (x := .ptr (some (.struct (zeros gs)))) at' (hasFields_zeros gs) rfl
        exact ⟨xs, has, nonzero, (walk_ptr found).trans (walk_zeros deeper known)⟩

end Known

section TypeFields

variable {isWord : Char → Bool} {fields gs : Fields} {index : List Nat} {i : Nat} {f : FieldInfo} {s t : PlainType}
  {name : Option TypeName} {e e' : EncodedField} {m m' : Embedded}

theorem place_snoc (place : Place fields index s) (struct : s.followed = .struct name gs)
    (found : gs[i]? = some (f, t)) : Place fields (index ++ [i]) t := by
  induction place with
  | here at' => exact .inside at' struct (.here found)
  | inside at' struct' deeper ih => exact .inside at' struct' (ih struct)

def Queued (fields : Fields) (m : Embedded) : Prop :=
  m.index = [] ∧ m.fields = fields ∨ ∃ s, Place fields m.index s ∧ s.followed = .struct m.name m.fields

theorem place_of_queued (queued : Queued fields m) (found : m.fields[i]? = some (f, t)) :
    Place fields (m.index ++ [i]) t := by
  rcases queued with ⟨top, same⟩ | ⟨s, place, struct⟩
  · rw [top]
    exact .here (same ▸ found)
  · exact place_snoc place struct found

structure Located (fields : Fields) (e : EncodedField) : Prop where
  place : Place fields e.index e.type
  basic : e.quoted = true → e.type.followed.isBasic = true

theorem located_found (queued : Queued fields m) (member : e ∈ m.found isWord) : Located fields e := by
  obtain ⟨⟨⟨f, t⟩, i⟩, place, made⟩ := List.mem_filterMap.mp member
  have found := List.mk_mem_zipIdx_iff_getElem?.mp place
  simp only at made
  split_ifs at made
  cases made
  exact ⟨place_of_queued queued found, fun quoted => (Bool.and_eq_true_iff.mp quoted).2⟩

theorem exists_of_mem_next (member : m' ∈ m.next isWord) : ∃ i f t,
    m.fields[i]? = some (f, t) ∧ t.followed = .struct m'.name m'.fields ∧ m'.index = m.index ++ [i] := by
  obtain ⟨⟨⟨f, t⟩, i⟩, place, made⟩ := List.mem_filterMap.mp member
  have found := List.mk_mem_zipIdx_iff_getElem?.mp place
  simp only at made
  split_ifs at made
  cases struct : t.followed with
  | struct name gs =>
    rw [struct] at made
    cases made
    exact ⟨i, f, t, found, struct, rfl⟩
  | _ =>
    rw [struct] at made
    cases made

theorem queued_next (queued : Queued fields m) (member : m' ∈ m.next isWord) : Queued fields m' := by
  obtain ⟨i, f, t, found, struct, index⟩ := exists_of_mem_next member
  exact .inr ⟨t, index ▸ place_of_queued queued found, struct⟩

variable {queue : List Embedded} {fuel : Nat}

theorem mem_firsts (member : m ∈ firsts queue) : m ∈ queue := by
  induction queue with
  | nil => cases member
  | cons first rest ih =>
    rcases List.mem_cons.mp member with rfl | later
    · exact List.mem_cons_self
    · exact List.mem_cons_of_mem _ (ih (List.mem_of_mem_filter later))

theorem located_explore {visited : List (Option TypeName)}
    (queued : ∀ m ∈ queue, Queued fields m) (member : e ∈ explore isWord fuel queue visited) : Located fields e := by
  induction fuel generalizing queue visited with
  | zero => cases member
  | succ fuel ih =>
    rcases List.mem_append.mp member with here | deeper
    · obtain ⟨m, place, found⟩ := List.mem_flatMap.mp here
      have reached := queued m (mem_firsts (List.mem_of_mem_filter place))
      split_ifs at found
      · obtain ⟨e', found, twice⟩ := List.mem_flatMap.mp found
        have same : e = e' := by simpa using twice
        exact located_found reached (same ▸ found)
      · exact located_found reached found
    · refine ih (fun m' next => ?_) deeper
      obtain ⟨m, place, next⟩ := List.mem_flatMap.mp next
      exact queued_next (queued m (mem_firsts (List.mem_of_mem_filter place))) next

theorem mem_typeFields : e ∈ typeFields isWord name fields ↔
    e ∈ dominant (explore isWord (fieldsDepth fields + 1) [⟨name, fields, []⟩] []) :=
  List.mem_insertionSort _

theorem located (member : e ∈ typeFields isWord name fields) : Located fields e := by
  refine located_explore (fun m place => ?_) (List.mem_of_mem_filter (mem_typeFields.mp member))
  rw [List.mem_singleton.mp place]
  exact .inl ⟨rfl, rfl⟩

theorem eq_of_countP {α : Type} {p : α → Bool} {xs : List α} {a b : α} (one : xs.countP p = 1) (first : a ∈ xs)
    (second : b ∈ xs) (holds : p a = true) (holds' : p b = true) : a = b := by
  rw [List.countP_eq_length_filter] at one
  obtain ⟨c, only⟩ := List.length_eq_one_iff.mp one
  have left : a ∈ xs.filter p := List.mem_filter.mpr ⟨first, holds⟩
  have right : b ∈ xs.filter p := List.mem_filter.mpr ⟨second, holds'⟩
  rw [only, List.mem_singleton] at left right
  rw [left, right]

theorem beats_asymm (first : e.beats e' = true) (second : e'.beats e = true) : False := by
  simp only [EncodedField.beats, Bool.or_eq_true, Bool.and_eq_true, decide_eq_true_eq,
    Bool.not_eq_true'] at first second
  rcases first with less | ⟨⟨same, tagged⟩, untagged⟩ <;> rcases second with less' | ⟨⟨same', tagged'⟩, untagged'⟩
  · omega
  · omega
  · omega
  · rw [tagged] at untagged'
    cases untagged'

theorem beats_of_dominant {all : List EncodedField} (member : e ∈ dominant all) (other : e' ∈ all)
    (same : e'.name = e.name) (ne : e ≠ e') : e.beats e' = true := by
  obtain ⟨place, one⟩ := List.mem_filter.mp member
  by_contra unbeaten
  refine ne (eq_of_countP (of_decide_eq_true one) place other ?_ ?_)
  · have irrefl : e.beats e = false := Bool.of_not_eq_true fun self => beats_asymm self self
    simp [irrefl]
  · simp [same, Bool.of_not_eq_true unbeaten]

theorem typeFields_unique (member : e ∈ typeFields isWord name fields) (member' : e' ∈ typeFields isWord name fields)
    (same : e.name = e'.name) : e = e' := by
  rw [mem_typeFields] at member member'
  by_contra ne
  exact beats_asymm (beats_of_dominant member (List.mem_of_mem_filter member') same.symm ne)
    (beats_of_dominant member' (List.mem_of_mem_filter member) same (Ne.symm ne))

theorem depth_le_fieldsDepth (found : fields[i]? = some (f, t)) : t.depth ≤ fieldsDepth fields := by
  induction fields generalizing i with
  | nil => simp at found
  | cons field fields ih =>
    rw [fieldsDepth]
    cases i with
    | zero =>
      cases found
      exact Nat.le_max_left _ _
    | succ i => exact Nat.le_trans (ih found) (Nat.le_max_right _ _)

theorem depth_next (member : m' ∈ m.next isWord) : fieldsDepth m'.fields < fieldsDepth m.fields := by
  obtain ⟨i, f, t, found, struct, -⟩ := exists_of_mem_next member
  have bound := depth_le_fieldsDepth found
  rcases followed_eq_struct struct with rfl | rfl <;> exact bound

theorem explore_succ (visited : List (Option TypeName)) (shallow : ∀ m ∈ queue, fieldsDepth m.fields < fuel) :
    explore isWord (fuel + 1) queue visited = explore isWord fuel queue visited := by
  induction fuel generalizing queue visited with
  | zero =>
    cases queue with
    | nil => rfl
    | cons m rest => exact absurd (shallow m List.mem_cons_self) (Nat.not_lt_zero _)
  | succ fuel ih =>
    rw [explore, explore]
    congr 1
    refine ih _ fun m' next => ?_
    obtain ⟨m, place, next⟩ := List.mem_flatMap.mp next
    have bound := shallow m (mem_firsts (List.mem_of_mem_filter place))
    have less := depth_next next
    omega

theorem explore_enough (name : Option TypeName) (fields : Fields) (more : Nat) :
    explore isWord (fieldsDepth fields + 1 + more) [⟨name, fields, []⟩] [] =
      explore isWord (fieldsDepth fields + 1) [⟨name, fields, []⟩] [] := by
  induction more with
  | zero => rfl
  | succ more ih =>
    rw [← ih]
    refine explore_succ [] fun m place => ?_
    rw [List.mem_singleton.mp place]
    show fieldsDepth fields < fieldsDepth fields + 1 + more
    omega

end TypeFields

end Mcp.Schemas
