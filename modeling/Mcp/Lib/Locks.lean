import Mcp.Lib.Threads
import Mathlib.Logic.Relation

/-! # Threads that block each other -/

namespace Mcp.Lib

inductive Want where
  | read
  | announce
  | enter

inductive Hold where
  | free
  | read
  | announced
  | write
  deriving DecidableEq

structure Program (σ ο τ α β ε μ : Type*) where
  start : σ
  perform : σ → ο → σ
  wants : τ → Option (μ × Want)
  holds : τ → μ → Hold
  env : ε → ο
  spawn : β → τ
  act : σ → τ → α → Option (Option ο × τ × List τ)

namespace Program

variable {σ ο τ α β ε μ : Type*} (prog : Program σ ο τ α β ε μ)

def effect (s : σ) : Option ο → σ
  | none => s
  | some op => prog.perform s op

def blocks (y x : τ) : Bool :=
  match prog.wants x with
  | none => false
  | some (m, .enter) => prog.holds y m = .read
  | some (m, _) => prog.holds y m = .announced ∨ prog.holds y m = .write

def blocked (c : Config σ τ) (i : Nat) (x : τ) : Bool := (c.threads.eraseIdx i).any (prog.blocks · x)

def step (c : Config σ τ) : Label α β ε → Option (Config σ τ)
  | .env e => some { c with shared := prog.perform c.shared (prog.env e) }
  | .spawn b => some { c with threads := c.threads ++ [prog.spawn b] }
  | .act i a =>
    c.threads[i]?.bind fun x =>
      if prog.blocked c i x then none
      else (prog.act c.shared x a).map fun moved =>
        ⟨prog.effect c.shared moved.1, c.threads.set i moved.2.1 ++ moved.2.2⟩

def machine : Machine (Config σ τ) (Label α β ε) where
  start := ⟨prog.start, []⟩
  step := prog.step

/-- Thread `i` cannot take its next step before thread `j` has moved on. -/
def WaitsFor (c : Config σ τ) (i j : Nat) : Prop :=
  i ≠ j ∧ ∃ x y, c.threads[i]? = some x ∧ c.threads[j]? = some y ∧ prog.blocks y x

inductive Stepped (c : Config σ τ) : Label α β ε → Config σ τ → Prop
  | env (e : ε) : Stepped c (.env e) { c with shared := prog.perform c.shared (prog.env e) }
  | spawn (b : β) : Stepped c (.spawn b) { c with threads := c.threads ++ [prog.spawn b] }
  | act {i : Nat} {a : α} {x x' : τ} {op : Option ο} {new : List τ} (found : c.threads[i]? = some x)
      (unblocked : ∀ j, ¬ prog.WaitsFor c i j) (acted : prog.act c.shared x a = some (op, x', new)) :
      Stepped c (.act i a) ⟨prog.effect c.shared op, c.threads.set i x' ++ new⟩

variable {prog} {c c' : Config σ τ} {l : Label α β ε}

variable {i : Nat} {x y : τ} {xs new : List τ} {h : Hold}

theorem blocked_iff (found : c.threads[i]? = some x) : prog.blocked c i x ↔ ∃ j, prog.WaitsFor c i j := by
  simp only [blocked, List.any_eq_true, List.mem_eraseIdx_iff_getElem?]
  constructor
  · rintro ⟨y, ⟨j, other, found'⟩, blocks⟩
    exact ⟨j, Ne.symm other, x, y, found, found', blocks⟩
  · rintro ⟨j, other, x', y, here, found', blocks⟩
    obtain rfl := Option.some.inj (here.symm.trans found)
    exact ⟨y, ⟨j, Ne.symm other, found'⟩, blocks⟩

theorem stepped (step : prog.machine.step c l = some c') : prog.Stepped c l c' := by
  cases l with
  | env e =>
    obtain rfl := Option.some.inj step
    exact .env e
  | spawn b =>
    obtain rfl := Option.some.inj step
    exact .spawn b
  | act i a =>
    obtain ⟨x, found, step⟩ := Option.bind_eq_some_iff.mp step
    split_ifs at step with blocked
    obtain ⟨⟨op, x', new⟩, acted, rfl⟩ := Option.map_eq_some_iff.mp step
    exact .act found (fun j waits => blocked ((blocked_iff found).mpr ⟨j, waits⟩)) acted

theorem getElem?_forked_cases {j : Nat} (found : (xs.set i x ++ new)[j]? = some y) :
    j = i ∧ y = x ∨ j ≠ i ∧ xs[j]? = some y ∨ y ∈ new := by
  obtain before | after := Nat.lt_or_ge j (xs.set i x).length
  · rw [List.getElem?_append_left before] at found
    obtain same | other := System.getElem?_set_cases found
    · exact .inl same
    · exact .inr (.inl other)
  · rw [List.getElem?_append_right after] at found
    exact .inr (.inr (List.mem_of_getElem? found))

theorem getElem?_forked_self (inside : i < xs.length) : (xs.set i x ++ new)[i]? = some x := by
  rw [List.getElem?_append_left (by simpa using inside), List.getElem?_set_self inside]

theorem thread_stepped (step : prog.machine.step c l = some c') (found : c.threads[i]? = some x) :
    ∃ x', c'.threads[i]? = some x' ∧
      (x' = x ∨ ∃ a op new, l = .act i a ∧ prog.act c.shared x a = some (op, x', new)) := by
  have inside : i < c.threads.length := (List.getElem?_eq_some_iff.mp found).1
  cases stepped step with
  | env e => exact ⟨x, found, .inl rfl⟩
  | spawn b => exact ⟨x, (List.getElem?_append_left inside).trans found, .inl rfl⟩
  | @act j a y y' op new own unblocked acted =>
    by_cases same : j = i
    · subst same
      obtain rfl := Option.some.inj (own.symm.trans found)
      exact ⟨y', getElem?_forked_self inside, .inr ⟨a, op, new, rfl, acted⟩⟩
    · refine ⟨x, ?_, .inl rfl⟩
      rw [List.getElem?_append_left (by simpa using inside), List.getElem?_set_ne same]
      exact found

theorem shared_invariant {P : σ → Prop} (initial : P prog.start) (kept : ∀ s op, P s → P (prog.perform s op))
    (reachable : prog.machine.Reachable c) : P c.shared := by
  refine Machine.Reachable.invariant (P := fun c => P c.shared) initial (fun c l c' holds step => ?_)
    reachable
  cases stepped step with
  | env e => exact kept _ _ holds
  | spawn b => exact holds
  | @act _ _ _ _ op _ found unblocked acted =>
    cases op with
    | none => exact holds
    | some op => exact kept _ _ holds

theorem thread_invariant {I : σ → Prop} {P : σ → τ → Prop} (always : ∀ c, prog.machine.Reachable c → I c.shared)
    (spawned : ∀ s b, I s → P s (prog.spawn b))
    (acts : ∀ s x a op x' new, I s → P s x → prog.act s x a = some (op, x', new) →
      P (prog.effect s op) x' ∧ ∀ y ∈ new, P (prog.effect s op) y)
      (stable : ∀ s op x, I s → P s x → P (prog.perform s op) x)
    (reachable : prog.machine.Reachable c) (found : c.threads[i]? = some x) : P c.shared x := by
  refine Machine.Reachable.invariant' (P := fun c => ∀ (i : Nat) x, c.threads[i]? = some x → P c.shared x)
    (by intro i x found; simp [machine] at found) (fun c l c' reachable holds step => ?_) reachable i x found
  have sound := always c reachable
  cases stepped step with
  | env e => exact fun j y found => stable _ _ _ sound (holds j y found)
  | spawn b =>
    intro j y found
    obtain ⟨-, rfl⟩ | ⟨-, found⟩ := System.getElem?_concat_cases found
    · exact spawned _ b sound
    · exact holds j y found
  | @act _ _ _ _ op _ own unblocked acted =>
    obtain ⟨moved, forked⟩ := acts _ _ _ _ _ _ sound (holds _ _ own) acted
    intro j y found
    obtain ⟨-, rfl⟩ | ⟨-, stayed⟩ | new := getElem?_forked_cases found
    · exact moved
    · cases op with
      | none => exact holds j y stayed
      | some op => exact stable _ _ _ sound (holds j y stayed)
    · exact forked y new

inductive Acquired (want : Option (μ × Want)) (m : μ) : Hold → Hold → Prop
  | same (h : Hold) : Acquired want m h h
  | released (h : Hold) : Acquired want m h .free
  | read (h : Hold) (asked : want = some (m, .read)) : Acquired want m h .read
  | announced (h : Hold) (asked : want = some (m, .announce)) : Acquired want m h .announced
  | entered (asked : want = some (m, .enter)) : Acquired want m .announced .write

structure Disciplined (prog : Program σ ο τ α β ε μ) : Prop where
  spawned : ∀ b m, prog.holds (prog.spawn b) m = .free
  forked : ∀ {s x a op x' new}, prog.act s x a = some (op, x', new) → ∀ y ∈ new, ∀ m, prog.holds y m = .free
  acquired : ∀ {s x a op x' new}, prog.act s x a = some (op, x', new) →
    ∀ m, Acquired (prog.wants x) m (prog.holds x m) (prog.holds x' m)

def Compatible : Hold → Hold → Prop
  | .free, _ | _, .free => True
  | .read, .read | .read, .announced | .announced, .read => True
  | _, _ => False

theorem Compatible.symm {h' : Hold} (compatible : Compatible h h') : Compatible h' h := by
  cases h <;> cases h' <;> trivial

def Exclusive (prog : Program σ ο τ α β ε μ) (c : Config σ τ) : Prop :=
  ∀ {i j : Nat} {x y : τ}, i ≠ j → c.threads[i]? = some x → c.threads[j]? = some y →
    ∀ m, Compatible (prog.holds x m) (prog.holds y m)

theorem Acquired.compatible {m : μ} (acquired : Acquired (prog.wants x) m (prog.holds x m) h)
    (unblocked : ¬ prog.blocks y x) (before : Compatible (prog.holds x m) (prog.holds y m)) :
    Compatible h (prog.holds y m) := by
  generalize held : prog.holds x m = held at acquired before
  cases acquired with
  | same => exact before
  | released => trivial
  | read _ asked | announced _ asked =>
    simp only [blocks, asked, decide_eq_true_eq, not_or] at unblocked
    cases other : prog.holds y m with
    | free | read => trivial
    | announced => exact (unblocked.1 other).elim
    | write => exact (unblocked.2 other).elim
  | entered asked =>
    simp only [blocks, asked, decide_eq_true_eq] at unblocked
    cases other : prog.holds y m with
    | free => trivial
    | read => exact (unblocked other).elim
    | announced | write =>
      rw [other] at before
      exact before.elim

theorem exclusive (disciplined : prog.Disciplined) (reachable : prog.machine.Reachable c) : prog.Exclusive c := by
  refine Machine.Reachable.invariant (P := prog.Exclusive) ?_ (fun c l c' holds step => ?_) reachable
  · intro i j x y _ found
    simp [machine] at found
  cases stepped step with
  | env e => exact holds
  | spawn b =>
    intro i j x y other found found' m
    obtain ⟨rfl, rfl⟩ | ⟨-, found⟩ := System.getElem?_concat_cases found
    · rw [disciplined.spawned]
      trivial
    obtain ⟨rfl, rfl⟩ | ⟨-, found'⟩ := System.getElem?_concat_cases found'
    · rw [disciplined.spawned]
      exact Compatible.symm trivial
    exact holds other found found' m
  | @act k a x₀ x₁ op new own unblocked acted =>
    have free {y : τ} (forked : y ∈ new) (m : μ) : prog.holds y m = .free := disciplined.forked acted y forked m
    have moved {j : Nat} {y : τ} (other : k ≠ j) (found : c.threads[j]? = some y) (m : μ) :
        Compatible (prog.holds x₁ m) (prog.holds y m) :=
      (disciplined.acquired acted m).compatible
        (fun blocks => unblocked j ⟨other, _, _, own, found, blocks⟩) (holds other own found m)
    intro i j x y other found found' m
    obtain ⟨rfl, rfl⟩ | ⟨-, stayed⟩ | forked := getElem?_forked_cases found
    · obtain ⟨rfl, -⟩ | ⟨-, stayed⟩ | forked := getElem?_forked_cases found'
      · exact (other rfl).elim
      · exact moved other stayed m
      · rw [free forked]
        exact Compatible.symm trivial
    · obtain ⟨rfl, rfl⟩ | ⟨-, stayed'⟩ | forked := getElem?_forked_cases found'
      · exact (moved (Ne.symm other) stayed m).symm
      · exact holds other stayed stayed' m
      · rw [free forked]
        exact Compatible.symm trivial
    · rw [free forked]
      trivial

end Program

end Mcp.Lib
