import Mcp.Lib.Threads
import Mathlib.Data.List.Nodup

/-! # Lending out items -/

namespace Mcp.Lib.Lending
open Function
open Mcp.Lib.System (getElem?_set_cases getElem?_concat_cases)

inductive Phase where
  | current
  | ending
  | ended
deriving DecidableEq

structure Loan where
  item : Nat
  phase : Phase := .current

structure Ledger (ν : Type) where
  value : Nat → ν
  lent : Nat → Bool := fun _ => false
  made : Nat := 0
  items : List Nat := []
  count : Int := 0
  shut : Bool := false
  loans : List Loan := []
  retired : List ν := []

inductive Op (ν : Type) where
  | idle
  | lend (item : Nat)
  | make (value : ν)
  | giveUp (i : Nat)
  | takeBack (i : Nat)
  | retire (keep : Nat → Bool)
  | shut

namespace Ledger

variable {ν : Type}

def lend (g : Ledger ν) (item : Nat) : Ledger ν :=
  { g with
    lent := update g.lent item true
    count := g.count + 1
    loans := g.loans ++ [{ item := item }] }

def make (g : Ledger ν) (value : ν) : Ledger ν :=
  { g with
    value := update g.value g.made value
    lent := update g.lent g.made true
    made := g.made + 1
    items := g.items ++ [g.made]
    count := g.count + 1
    loans := g.loans ++ [{ item := g.made }] }

def takeBack (g : Ledger ν) (item : Nat) : Ledger ν :=
  if g.lent item = true then { g with lent := update g.lent item false, count := g.count - 1 } else g

def retire (g : Ledger ν) (keep : Nat → Bool) : Ledger ν :=
  { g with
    items := g.items.filter keep
    retired := g.retired ++ (g.items.filter fun item => !keep item).map g.value }

def step (max : Nat) (g : Ledger ν) : Op ν → Option (Ledger ν)
  | .idle => some g
  | .lend item => if g.shut = false ∧ item ∈ g.items ∧ g.lent item = false then some (g.lend item) else none
  | .make value => if g.shut = false ∧ g.items.length < max then some (g.make value) else none
  | .giveUp i => g.loans[i]?.bind fun loan =>
    if loan.phase = .current then some { g with loans := g.loans.set i { loan with phase := .ending } } else none
  | .takeBack i => g.loans[i]?.bind fun loan =>
    if loan.phase = .ending then
      some { g.takeBack loan.item with loans := g.loans.set i { loan with phase := .ended } }
    else none
  | .retire keep =>
    if g.shut = false ∧ ∀ item ∈ g.items, keep item = false → g.lent item = false then some (g.retire keep) else none
  | .shut => if g.shut = false then some { g with items := [], count := 0, shut := true } else none

end Ledger

structure Holding (lent : Nat → Bool) (loans : List Loan) : Prop where
  held : ∀ (i : Nat) loan, loans[i]? = some loan → loan.phase ≠ .ended → lent loan.item = true
  distinct : ∀ (i j : Nat) a b, loans[i]? = some a → loans[j]? = some b → a.phase ≠ .ended → b.phase ≠ .ended →
    a.item = b.item → i = j

namespace Holding

variable {lent : Nat → Bool} {loans : List Loan} {item i : Nat} {loan : Loan}

theorem lend (holding : Holding lent loans) (idle : lent item = false) :
    Holding (update lent item true) (loans ++ [{ item := item }]) := by
  have other {j : Nat} {a : Loan} (found : loans[j]? = some a) (active : a.phase ≠ .ended) : a.item ≠ item := by
    intro same
    have lent := holding.held j a found active
    rw [same, idle] at lent
    cases lent
  constructor
  · intro j a found active
    rcases getElem?_concat_cases found with ⟨-, rfl⟩ | ⟨-, found⟩
    · exact update_self _ _ _
    · exact (update_of_ne (other found active) _ _).trans (holding.held j a found active)
  · intro j k a b found found' active active' same
    rcases getElem?_concat_cases found with ⟨rfl, rfl⟩ | ⟨-, found⟩ <;>
      rcases getElem?_concat_cases found' with ⟨rfl, rfl⟩ | ⟨-, found'⟩
    · rfl
    · exact absurd same.symm (other found' active')
    · exact absurd same (other found active)
    · exact holding.distinct j k a b found found' active active' same

theorem giveUp (holding : Holding lent loans) (found : loans[i]? = some loan) (active : loan.phase ≠ .ended) :
    Holding lent (loans.set i { loan with phase := .ending }) := by
  have before {j : Nat} {a : Loan} (found' : (loans.set i { loan with phase := .ending })[j]? = some a) :
      ∃ b, loans[j]? = some b ∧ b.item = a.item ∧ (a.phase ≠ .ended → b.phase ≠ .ended) := by
    rcases getElem?_set_cases found' with ⟨rfl, rfl⟩ | ⟨-, found'⟩
    · exact ⟨loan, found, rfl, fun _ => active⟩
    · exact ⟨a, found', rfl, id⟩
  constructor
  · intro j a found' active'
    obtain ⟨b, place, same, phase⟩ := before found'
    exact same ▸ holding.held j b place (phase active')
  · intro j k a b found₁ found₂ active₁ active₂ same
    obtain ⟨a', place₁, same₁, phase₁⟩ := before found₁
    obtain ⟨b', place₂, same₂, phase₂⟩ := before found₂
    exact holding.distinct j k a' b' place₁ place₂ (phase₁ active₁) (phase₂ active₂)
      (same₁.trans (same.trans same₂.symm))

theorem takeBack (holding : Holding lent loans) (found : loans[i]? = some loan) (active : loan.phase ≠ .ended) :
    Holding (update lent loan.item false) (loans.set i { loan with phase := .ended }) := by
  have before {j : Nat} {a : Loan} (found' : (loans.set i { loan with phase := .ended })[j]? = some a)
      (active' : a.phase ≠ .ended) : loans[j]? = some a ∧ a.item ≠ loan.item := by
    rcases getElem?_set_cases found' with ⟨-, rfl⟩ | ⟨ne, found'⟩
    · exact absurd rfl active'
    · exact ⟨found', fun same => ne (holding.distinct j i a loan found' found active' active same)⟩
  constructor
  · intro j a found' active'
    obtain ⟨place, ne⟩ := before found' active'
    exact (update_of_ne ne _ _).trans (holding.held j a place active')
  · intro j k a b found₁ found₂ active₁ active₂ same
    exact holding.distinct j k a b (before found₁ active₁).1 (before found₂ active₂).1 active₁ active₂ same

end Holding

namespace Ledger

variable {ν : Type}

structure Stocked (max : Nat) (g : Ledger ν) : Prop where
  bound : g.items.length ≤ max
  nodup : g.items.Nodup
  made : ∀ item ∈ g.items, item < g.made
  fresh : ∀ item, g.made ≤ item → g.lent item = false
  kept : g.shut = false → ∀ item, g.lent item = true → item ∈ g.items
  emptied : g.shut = true → g.items = []

structure Owned (max : Nat) (g : Ledger ν) : Prop where
  stocked : Stocked max g
  holding : Holding g.lent g.loans

variable {max : Nat} {g g' : Ledger ν}

variable {item i : Nat} {value : ν} {loans : List Loan} {keep lent : Nat → Bool} {op : Op ν} {items : List Nat}
  {loan new : Loan}

theorem Stocked.lt (stocked : Stocked max g) (lent : g.lent item = true) : item < g.made := by
  by_contra beyond
  rw [stocked.fresh item (Nat.le_of_not_lt beyond)] at lent
  cases lent

theorem stocked_lend (stocked : Stocked max g) (member : item ∈ g.items) : Stocked max (g.lend item) := by
  refine { stocked with fresh := fun other beyond => ?_, kept := fun opened other lent => ?_ }
  · have ne : other ≠ item := by
      rintro rfl
      exact Nat.lt_irrefl _ (Nat.lt_of_lt_of_le (stocked.made other member) beyond)
    exact (update_of_ne ne _ _).trans (stocked.fresh other beyond)
  · by_cases same : other = item
    · exact same ▸ member
    · exact stocked.kept opened other ((update_of_ne same _ _).symm.trans lent)

theorem stocked_make (stocked : Stocked max g) (opened : g.shut = false) (room : g.items.length < max) :
    Stocked max (g.make value) where
  bound := by
    rw [make, List.length_append]
    exact room
  nodup := by
    refine stocked.nodup.append (List.nodup_singleton _) ?_
    intro item member same
    rw [List.mem_singleton.mp same] at member
    exact Nat.lt_irrefl _ (stocked.made _ member)
  made item member := by
    rcases List.mem_append.mp member with old | new
    · exact Nat.lt_succ_of_lt (stocked.made item old)
    · rw [List.mem_singleton.mp new]
      exact Nat.lt_succ_self _
  fresh item beyond := by
    have ne : item ≠ g.made := fun same => Nat.lt_irrefl _ (same ▸ beyond)
    exact (update_of_ne ne _ _).trans (stocked.fresh item (Nat.le_of_succ_le beyond))
  kept _ item lent := by
    by_cases same : item = g.made
    · exact List.mem_append_right _ (List.mem_singleton.mpr same)
    · exact List.mem_append_left _ (stocked.kept opened item ((update_of_ne same _ _).symm.trans lent))
  emptied shut := by
    have shut : g.shut = true := shut
    rw [opened] at shut
    cases shut

theorem takeBack_lent (lent : g.lent item = true) :
    g.takeBack item = { g with lent := update g.lent item false, count := g.count - 1 } := if_pos lent

theorem stocked_takeBack (stocked : Stocked max g) (lent : g.lent item = true) :
    Stocked max { g.takeBack item with loans := loans } := by
  rw [takeBack_lent lent]
  have less {other : Nat} (lent' : update g.lent item false other = true) : g.lent other = true := by
    by_cases same : other = item
    · rw [same]
      exact lent
    · rwa [update_of_ne same] at lent'
  refine { stocked with fresh := fun other beyond => ?_, kept := fun opened other lent' => ?_ }
  · by_contra some
    have was := less (Bool.of_not_eq_false some)
    rw [stocked.fresh other beyond] at was
    cases was
  · exact stocked.kept opened other (less lent')

theorem stocked_retire (stocked : Stocked max g)
    (idle : ∀ item ∈ g.items, keep item = false → g.lent item = false) : Stocked max (g.retire keep) where
  bound := Nat.le_trans (List.length_filter_le _ _) stocked.bound
  nodup := stocked.nodup.filter _
  made item member := stocked.made item (List.mem_of_mem_filter member)
  fresh := stocked.fresh
  kept opened item lent := by
    have member := stocked.kept opened item lent
    refine List.mem_filter.mpr ⟨member, ?_⟩
    by_contra dropped
    have lent : g.lent item = true := lent
    rw [idle item member (Bool.of_not_eq_true dropped)] at lent
    cases lent
  emptied shut := by
    show g.items.filter keep = []
    rw [stocked.emptied shut]
    rfl

theorem owned_step (owned : Owned max g) (step : g.step max op = some g') : Owned max g' := by
  obtain ⟨stocked, holding⟩ := owned
  cases op with
  | idle =>
    cases step
    exact ⟨stocked, holding⟩
  | lend item =>
    obtain ⟨⟨opened, member, idle⟩, ⟨⟩⟩ := Option.ite_none_right_eq_some.mp step
    exact ⟨stocked_lend stocked member, holding.lend idle⟩
  | make value =>
    obtain ⟨⟨opened, room⟩, ⟨⟩⟩ := Option.ite_none_right_eq_some.mp step
    exact ⟨stocked_make stocked opened room, holding.lend (stocked.fresh g.made (Nat.le_refl _))⟩
  | giveUp i =>
    obtain ⟨loan, found, step⟩ := Option.bind_eq_some_iff.mp step
    obtain ⟨current, ⟨⟩⟩ := Option.ite_none_right_eq_some.mp step
    exact ⟨{ stocked with }, holding.giveUp found (by simp [current])⟩
  | takeBack i =>
    obtain ⟨loan, found, step⟩ := Option.bind_eq_some_iff.mp step
    obtain ⟨ending, ⟨⟩⟩ := Option.ite_none_right_eq_some.mp step
    have active : loan.phase ≠ .ended := by simp [ending]
    have lent := holding.held i loan found active
    refine ⟨stocked_takeBack stocked lent, ?_⟩
    simp only [takeBack_lent lent]
    exact holding.takeBack found active
  | retire keep =>
    obtain ⟨⟨opened, idle⟩, ⟨⟩⟩ := Option.ite_none_right_eq_some.mp step
    exact ⟨stocked_retire stocked idle, holding⟩
  | shut =>
    obtain ⟨opened, ⟨⟩⟩ := Option.ite_none_right_eq_some.mp step
    exact ⟨⟨Nat.zero_le _, List.nodup_nil, nofun, stocked.fresh, nofun, fun _ => rfl⟩, holding⟩

/-! # What was retired -/

structure Separate (g : Ledger ν) : Prop where
  value : ∀ a < g.made, ∀ b < g.made, g.value a = g.value b → a = b
  gone : ∀ v ∈ g.retired, ∃ item < g.made, g.value item = v ∧ item ∉ g.items
  once : g.retired.Nodup

def New (g : Ledger ν) : Op ν → Prop
  | .make value => ∀ item < g.made, g.value item ≠ value
  | _ => True

theorem separate_make (separate : Separate g) (new : ∀ item < g.made, g.value item ≠ value) :
    Separate (g.make value) := by
  have old {item : Nat} (less : item < g.made) : update g.value g.made value item = g.value item :=
    update_of_ne (Nat.ne_of_lt less) _ _
  refine ⟨fun a less b less' same => ?_, fun v member => ?_, separate.once⟩
  · have same : update g.value g.made value a = update g.value g.made value b := same
    rcases Nat.lt_succ_iff_lt_or_eq.mp less with less | rfl <;>
      rcases Nat.lt_succ_iff_lt_or_eq.mp less' with less' | rfl
    · rw [old less, old less'] at same
      exact separate.value a less b less' same
    · rw [old less, update_self] at same
      exact absurd same (new a less)
    · rw [old less', update_self] at same
      exact absurd same.symm (new b less')
    · rfl
  · obtain ⟨item, less, eq, absent⟩ := separate.gone v member
    refine ⟨item, Nat.lt_succ_of_lt less, (old less).trans eq, fun member => ?_⟩
    rcases List.mem_append.mp member with inside | last
    · exact absent inside
    · exact Nat.ne_of_lt less (List.mem_singleton.mp last)

theorem separate_retire (stocked : Stocked max g) (separate : Separate g) : Separate (g.retire keep) := by
  refine ⟨separate.value, fun v member => ?_, ?_⟩
  · rcases List.mem_append.mp member with old | new
    · obtain ⟨item, less, eq, absent⟩ := separate.gone v old
      exact ⟨item, less, eq, fun inside => absent (List.mem_of_mem_filter inside)⟩
    · obtain ⟨item, inside, eq⟩ := List.mem_map.mp new
      obtain ⟨inside, dropped⟩ := List.mem_filter.mp inside
      refine ⟨item, stocked.made item inside, eq, fun kept => ?_⟩
      simp [(List.mem_filter.mp kept).2] at dropped
  · refine separate.once.append ?_ ?_
    · refine List.Nodup.map_on (fun a member b member' same => ?_) (stocked.nodup.filter _)
      exact separate.value a (stocked.made a (List.mem_of_mem_filter member)) b
        (stocked.made b (List.mem_of_mem_filter member')) same
    · -- an item that was retired before is not one of the items any more
      intro v old new
      obtain ⟨item, less, eq, absent⟩ := separate.gone v old
      obtain ⟨item', inside, eq'⟩ := List.mem_map.mp new
      have inside := List.mem_of_mem_filter inside
      have same := separate.value item less item' (stocked.made item' inside) (eq.trans eq'.symm)
      exact absent (same ▸ inside)

theorem separate_step (stocked : Stocked max g) (separate : Separate g) (new : g.New op)
    (step : g.step max op = some g') : Separate g' := by
  cases op with
  | idle =>
    cases step
    exact separate
  | lend item =>
    obtain ⟨-, ⟨⟩⟩ := Option.ite_none_right_eq_some.mp step
    exact { separate with }
  | make value =>
    obtain ⟨-, ⟨⟩⟩ := Option.ite_none_right_eq_some.mp step
    exact separate_make separate new
  | giveUp i =>
    obtain ⟨loan, -, step⟩ := Option.bind_eq_some_iff.mp step
    obtain ⟨-, ⟨⟩⟩ := Option.ite_none_right_eq_some.mp step
    exact { separate with }
  | takeBack i =>
    obtain ⟨loan, -, step⟩ := Option.bind_eq_some_iff.mp step
    obtain ⟨-, ⟨⟩⟩ := Option.ite_none_right_eq_some.mp step
    unfold takeBack
    split_ifs <;> exact { separate with }
  | retire keep =>
    obtain ⟨-, ⟨⟩⟩ := Option.ite_none_right_eq_some.mp step
    exact separate_retire stocked separate
  | shut =>
    obtain ⟨-, ⟨⟩⟩ := Option.ite_none_right_eq_some.mp step
    refine { separate with gone := fun v member => ?_ }
    obtain ⟨item, less, eq, -⟩ := separate.gone v member
    exact ⟨item, less, eq, List.not_mem_nil⟩

def Accounted (g : Ledger ν) : Prop := g.count = g.items.countP g.lent

theorem countP_update_of_not_mem (absent : item ∉ items) :
    items.countP (update lent item true) = items.countP lent := by
  refine List.countP_congr fun other place => ?_
  have ne : other ≠ item := fun same => absent (same ▸ place)
  rw [update_of_ne ne]

theorem countP_update (nodup : items.Nodup) (member : item ∈ items)
    (idle : lent item = false) : items.countP (update lent item true) = items.countP lent + 1 := by
  induction items with
  | nil => cases member
  | cons head items ih =>
    obtain ⟨absent, nodup⟩ := List.nodup_cons.mp nodup
    rw [List.countP_cons, List.countP_cons]
    by_cases same : head = item
    · rw [countP_update_of_not_mem (same ▸ absent), same, update_self, idle]
      simp
    · rw [ih nodup ((List.mem_cons.mp member).resolve_left (Ne.symm same)), update_of_ne same]
      omega

theorem countP_takeBack (nodup : items.Nodup) (member : item ∈ items) (was : lent item = true) :
    items.countP lent = items.countP (update lent item false) + 1 := by
  have again : update (update lent item false) item true = lent := by
    rw [update_idem, ← was, update_eq_self]
  rw [← countP_update nodup member (update_self _ _ _), again]

theorem countP_make (new : item ∉ items) :
    (items ++ [item]).countP (update lent item true) = items.countP lent + 1 := by
  rw [List.countP_append, countP_update_of_not_mem new, List.countP_singleton, update_self]
  simp

theorem countP_retire (idle : ∀ item ∈ items, keep item = false → lent item = false) :
    (items.filter keep).countP lent = items.countP lent := by
  rw [List.countP_filter]
  refine List.countP_congr fun item member => ?_
  cases kept : keep item with
  | true => simp
  | false => simp [idle item member kept]

theorem accounted_step_iff (owned : Owned max g) (accounted : g.Accounted)
    (step : g.step max op = some g') : g'.Accounted ↔ ∀ i, op = .takeBack i → g.shut = false := by
  obtain ⟨stocked, holding⟩ := owned
  unfold Accounted at accounted
  cases op with
  | idle =>
    cases step
    exact iff_of_true accounted nofun
  | lend item =>
    obtain ⟨⟨opened, member, idle⟩, ⟨⟩⟩ := Option.ite_none_right_eq_some.mp step
    refine iff_of_true ?_ nofun
    simp only [Accounted, lend, accounted, countP_update stocked.nodup member idle]
    omega
  | make value =>
    obtain ⟨-, ⟨⟩⟩ := Option.ite_none_right_eq_some.mp step
    refine iff_of_true ?_ nofun
    have new : g.made ∉ g.items := fun member => Nat.lt_irrefl _ (stocked.made _ member)
    simp only [Accounted, make, accounted, countP_make new]
    omega
  | giveUp i =>
    obtain ⟨loan, -, step⟩ := Option.bind_eq_some_iff.mp step
    obtain ⟨-, ⟨⟩⟩ := Option.ite_none_right_eq_some.mp step
    exact iff_of_true accounted nofun
  | takeBack i =>
    obtain ⟨loan, found, step⟩ := Option.bind_eq_some_iff.mp step
    obtain ⟨ending, ⟨⟩⟩ := Option.ite_none_right_eq_some.mp step
    have lent := holding.held i loan found (by simp [ending])
    have before : (∀ j, Op.takeBack (ν := ν) i = .takeBack j → g.shut = false) ↔ g.shut = false :=
      ⟨fun h => h i rfl, fun h _ _ => h⟩
    rw [before]
    simp only [Accounted, takeBack_lent lent, accounted]
    cases shut : g.shut with
    | false =>
      have count := countP_takeBack stocked.nodup (stocked.kept shut _ lent) lent
      rw [count]
      simp
    | true =>
      -- nothing is counted any more, but the item was still lent
      simp [stocked.emptied shut]
  | retire keep =>
    obtain ⟨⟨-, idle⟩, ⟨⟩⟩ := Option.ite_none_right_eq_some.mp step
    refine iff_of_true ?_ nofun
    simp only [Accounted, retire, accounted, countP_retire idle]
  | shut =>
    obtain ⟨-, ⟨⟩⟩ := Option.ite_none_right_eq_some.mp step
    exact iff_of_true rfl nofun

def Borrowed (g : Ledger ν) : Prop :=
  ∀ item, g.lent item = true → ∃ loan ∈ g.loans, loan.item = item ∧ loan.phase ≠ .ended

theorem mem_set_of_ne {other : Loan} (found : loans[i]? = some loan)
    (member : other ∈ loans) (ne : other ≠ loan) : other ∈ loans.set i new := by
  obtain ⟨j, place⟩ := List.mem_iff_getElem?.mp member
  have distinct : i ≠ j := by
    rintro rfl
    exact ne (Option.some.inj (place.symm.trans found))
  exact List.mem_iff_getElem?.mpr ⟨j, (List.getElem?_set_ne distinct).trans place⟩

theorem mem_set (found : loans[i]? = some loan) : new ∈ loans.set i new :=
  List.mem_set (List.getElem?_eq_some_iff.mp found).1 new

theorem borrowed_lend {new : Nat}
    (borrowed : ∀ item, lent item = true → ∃ loan ∈ loans, loan.item = item ∧ loan.phase ≠ .ended) (item : Nat)
    (now : update lent new true item = true) :
    ∃ loan ∈ loans ++ [{ item := new }], loan.item = item ∧ loan.phase ≠ .ended := by
  by_cases same : item = new
  · exact ⟨{ item := new }, by simp, same.symm, by simp⟩
  · rw [update_of_ne same] at now
    obtain ⟨loan, member, rest⟩ := borrowed item now
    exact ⟨loan, List.mem_append_left _ member, rest⟩

theorem borrowed_step (borrowed : g.Borrowed) (step : g.step max op = some g') : g'.Borrowed := by
  cases op with
  | idle =>
    cases step
    exact borrowed
  | lend | make =>
    obtain ⟨-, ⟨⟩⟩ := Option.ite_none_right_eq_some.mp step
    exact borrowed_lend borrowed
  | giveUp i =>
    obtain ⟨loan, found, moved⟩ := Option.bind_eq_some_iff.mp step
    obtain ⟨current, ⟨⟩⟩ := Option.ite_none_right_eq_some.mp moved
    intro item lent
    obtain ⟨other, member, same, active⟩ := borrowed item lent
    by_cases eq : other = loan
    · exact ⟨{ loan with phase := .ending }, mem_set found, eq ▸ same, by simp⟩
    · exact ⟨other, mem_set_of_ne found member eq, same, active⟩
  | takeBack i =>
    obtain ⟨loan, found, moved⟩ := Option.bind_eq_some_iff.mp step
    obtain ⟨ending, ⟨⟩⟩ := Option.ite_none_right_eq_some.mp moved
    intro item lent
    have was : g.lent item = true ∧ item ≠ loan.item := by
      have lent : (g.takeBack loan.item).lent item = true := lent
      unfold takeBack at lent
      split_ifs at lent with used
      · by_cases same : item = loan.item
        · simp [same] at lent
        · exact ⟨(update_of_ne same _ _).symm.trans lent, same⟩
      · exact ⟨lent, fun same => used (same ▸ lent)⟩
    obtain ⟨other, member, same, active⟩ := borrowed item was.1
    exact ⟨other, mem_set_of_ne found member fun eq => was.2 (eq ▸ same.symm), same, active⟩
  | retire | shut =>
    obtain ⟨-, ⟨⟩⟩ := Option.ite_none_right_eq_some.mp step
    exact borrowed

end Ledger

end Mcp.Lib.Lending
