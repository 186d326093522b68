import ColossusCoin.Library.Loops
import Mathlib.Algebra.Order.BigOperators.Group.List
import Mathlib.Algebra.Ring.Divisibility.Basic
import Mathlib.Data.List.Nodup
import Mathlib.Tactic.Linarith
import Mathlib.Tactic.LinearCombination
import Mathlib.Tactic.Ring

/-!
# Systems of coins

Amounts are made up from coins of several values, with so many coins of each.  An amount is worked
off from the largest value to the smallest, and how many coins are taken at a stage depends on what
is left of the amount.  Where each value divides the larger ones, taking as many coins as fit
misses no amount that the coins at hand make up, and without a limit takes the fewest coins.
-/

namespace CoinSystems

variable {value : α → Int} {coins : List α}

/-- What so many coins are worth. -/
def worth (value : α → Int) (counts : α → Int) (coins : List α) : Int :=
  (coins.map fun coin => counts coin * value coin).sum

/-- How many coins they are. -/
def number (counts : α → Int) (coins : List α) : Int :=
  (coins.map counts).sum

/-- An amount is worked off coin by coin; at each stage the coin, the amount and how many coins are
taken of it are as the condition has it. -/
def Stages (stage : α → Int → Int → Prop) (value : α → Int) (counts : α → Int) :
    List α → Int → Int → Prop
  | [], amount, left => left = amount
  | coin :: rest, amount, left =>
    stage coin amount (counts coin) ∧
      Stages stage value counts rest (amount - counts coin * value coin) left

@[simp] theorem worth_nil : worth value counts [] = 0 := rfl

@[simp] theorem worth_cons (coin : α) (rest : List α) :
    worth value counts (coin :: rest) = counts coin * value coin + worth value counts rest := by
  rw [worth, List.map_cons, List.sum_cons, worth]

@[simp] theorem number_nil : number counts [] = 0 := rfl

@[simp] theorem number_cons (coin : α) (rest : List α) :
    number counts (coin :: rest) = counts coin + number counts rest := by
  rw [number, List.map_cons, List.sum_cons, number]

theorem worth_reverse (coins : List α) :
    worth value counts coins.reverse = worth value counts coins := by
  rw [worth, List.map_reverse, List.sum_reverse, worth]

theorem number_reverse (coins : List α) : number counts coins.reverse = number counts coins := by
  rw [number, List.map_reverse, List.sum_reverse, number]

theorem worth_congr
    (same : ∀ coin ∈ coins, counts coin = others coin) :
    worth value counts coins = worth value others coins :=
  congrArg List.sum (List.map_congr_left fun coin member => by rw [same coin member])

theorem worth_nonneg
    (positive : ∀ coin ∈ coins, 0 < value coin)
    (nonneg : ∀ coin ∈ coins, 0 ≤ counts coin) :
    0 ≤ worth value counts coins := by
  refine List.sum_nonneg (List.forall_mem_map.mpr fun coin member => ?_)
  exact mul_nonneg (nonneg coin member) (positive coin member).le

theorem number_nonneg
    (nonneg : ∀ coin ∈ coins, 0 ≤ counts coin) :
    0 ≤ number counts coins :=
  List.sum_nonneg (List.forall_mem_map.mpr nonneg)

theorem worth_sub (counts others : α → Int) (coins : List α) :
    worth value (fun coin => counts coin - others coin) coins =
      worth value counts coins - worth value others coins := by
  induction coins with
  | nil => rfl
  | cons coin rest ih =>
    rw [worth_cons, worth_cons, worth_cons, ih]
    ring

theorem worth_le_number_mul
    (small : ∀ coin ∈ coins, value coin ≤ bound)
    (nonneg : ∀ coin ∈ coins, 0 ≤ counts coin) :
    worth value counts coins ≤ number counts coins * bound := by
  induction coins with
  | nil => simp
  | cons coin rest ih =>
    rw [List.forall_mem_cons] at small nonneg
    rw [worth_cons, number_cons, add_mul]
    exact add_le_add (mul_le_mul_of_nonneg_left small.1 nonneg.1) (ih small.2 nonneg.2)

namespace Stages

theorem worth_eq
    (stages : Stages stage value counts coins amount left) :
    worth value counts coins = amount - left := by
  induction coins generalizing amount with
  | nil =>
    rw [Stages] at stages
    rw [worth_nil, stages, sub_self]
  | cons coin rest ih =>
    rw [worth_cons, ih stages.2]
    ring

theorem forall_counts
    {property : α → Int → Prop}
    (stages : Stages stage value counts coins amount left)
    (follows : ∀ coin ∈ coins, ∀ amount count, stage coin amount count → property coin count) :
    ∀ coin ∈ coins, property coin (counts coin) := by
  induction coins generalizing amount with
  | nil => exact fun coin none => absurd none List.not_mem_nil
  | cons coin rest ih =>
    rw [List.forall_mem_cons] at follows ⊢
    exact ⟨follows.1 _ _ stages.1, ih stages.2 follows.2⟩

end Stages

theorem yields_stages
    {round : Nat → σ → α → Option σ}
    (counted : σ → α → Int)
    (remaining : σ → Int)
    (invariant : Int → Prop)
    (each : ∀ coin ∈ coins, ∀ state, counted state coin = 0 → invariant (remaining state) →
      Loops.Yields (fun fuel => round fuel state coin) fun next =>
        stage coin (remaining state) (counted next coin) ∧
          remaining next = remaining state - counted next coin * value coin ∧
          invariant (remaining next) ∧
          ∀ other, other ≠ coin → counted next other = counted state other)
    (nodup : coins.Nodup)
    (fresh : ∀ coin ∈ coins, counted state coin = 0)
    (start : invariant (remaining state)) :
    Loops.Yields (fun fuel => coins.foldlM (round fuel) state) fun result =>
      Stages stage value (counted result) coins (remaining state) (remaining result) ∧
        ∀ other, other ∉ coins → counted result other = counted state other := by
  induction coins generalizing state with
  | nil => exact Loops.yields_some ⟨rfl, fun _ _ => rfl⟩
  | cons coin rest ih =>
    rw [List.forall_mem_cons] at each fresh
    obtain ⟨absent, nodup⟩ := List.nodup_cons.mp nodup
    have steps : Loops.Yields
        (fun fuel => round fuel state coin >>= fun next => rest.foldlM (round fuel) next)
        fun result => Stages stage value (counted result) (coin :: rest) (remaining state)
            (remaining result) ∧
          ∀ other, other ∉ coin :: rest → counted result other = counted state other := by
      refine (each.1 state fresh.1 start).bind fun next taken => ?_
      obtain ⟨staged, remains, kept, others⟩ := taken
      have still : ∀ other ∈ rest, counted next other = 0 := fun other member =>
        (others other (ne_of_mem_of_not_mem member absent)).trans (fresh.2 other member)
      refine (ih each.2 nodup still kept).mono fun result after => ?_
      have same := after.2 coin absent
      constructor
      · rw [Stages, same, ← remains]
        exact ⟨staged, after.1⟩
      · intro other outside
        rw [List.mem_cons, not_or] at outside
        exact (after.2 other outside.2).trans (others other outside.1)
    simpa only [List.foldlM_cons] using steps

/-- The values are positive, and each divides those before it. -/
structure Divisible (value : α → Int) (coins : List α) : Prop where
  positive : ∀ coin ∈ coins, 0 < value coin
  divides : coins.Pairwise fun larger smaller => value smaller ∣ value larger
  nodup : coins.Nodup

theorem Divisible.tail
    {coin : α} {rest : List α}
    (divisible : Divisible value (coin :: rest)) :
    Divisible value rest where
  positive := (List.forall_mem_cons.mp divisible.positive).2
  divides := (List.pairwise_cons.mp divisible.divides).2
  nodup := (List.nodup_cons.mp divisible.nodup).2

/-- Another number of a coin that is not on the list. -/
theorem worth_update
    [DecidableEq α]
    (fresh : coin ∉ coins)
    (counts : α → Int) (count : Int) :
    worth value (Function.update counts coin count) coins = worth value counts coins :=
  worth_congr fun _ member => Function.update_of_ne (ne_of_mem_of_not_mem member fresh) _ _

theorem sums_update
    [DecidableEq α] {coin : α}
    (nodup : coins.Nodup)
    (member : coin ∈ coins)
    (counts : α → Int) (count : Int) :
    worth value (Function.update counts coin count) coins =
        worth value counts coins + (count - counts coin) * value coin ∧
      number (Function.update counts coin count) coins =
        number counts coins + (count - counts coin) := by
  induction coins with
  | nil => exact absurd member List.not_mem_nil
  | cons first rest ih =>
    obtain ⟨fresh, nodup⟩ := List.nodup_cons.mp nodup
    rw [worth_cons, worth_cons, number_cons, number_cons]
    rcases List.mem_cons.mp member with rfl | later
    · have others : number (Function.update counts coin count) rest = number counts rest :=
        congrArg List.sum (List.map_congr_left fun other inside =>
          Function.update_of_ne (ne_of_mem_of_not_mem inside fresh) _ _)
      rw [Function.update_self, worth_update fresh, others]
      constructor
      · ring
      · ring
    · obtain ⟨worths, numbers⟩ := ih nodup later
      rw [Function.update_of_ne (ne_of_mem_of_not_mem later fresh).symm, worths, numbers]
      constructor
      · ring
      · ring

theorem exists_worth_eq
    [DecidableEq α]
    (divisible : Divisible value coins)
    (nonneg : ∀ coin ∈ coins, 0 ≤ held coin)
    (multiple : ∀ coin ∈ coins, value coin ∣ amount)
    (notBelow : 0 ≤ amount)
    (reached : amount ≤ worth value held coins) :
    ∃ picked, (∀ coin ∈ coins, 0 ≤ picked coin ∧ picked coin ≤ held coin) ∧
      worth value picked coins = amount := by
  induction coins generalizing amount with
  | nil =>
    refine ⟨fun _ => 0, fun coin none => absurd none List.not_mem_nil, ?_⟩
    rw [worth_nil] at reached ⊢
    exact le_antisymm notBelow reached
  | cons coin rest ih =>
    have positive := divisible.positive coin List.mem_cons_self
    have fresh : coin ∉ rest := (List.nodup_cons.mp divisible.nodup).1
    have spread : ∀ (picked : α → Int) (count : Int), 0 ≤ count → count ≤ held coin →
        (∀ other ∈ rest, 0 ≤ picked other ∧ picked other ≤ held other) →
        ∀ other ∈ coin :: rest, 0 ≤ Function.update picked coin count other ∧
          Function.update picked coin count other ≤ held other := by
      intro picked count notNegative small within
      rw [List.forall_mem_cons, Function.update_self]
      refine ⟨⟨notNegative, small⟩, fun other member => ?_⟩
      rw [Function.update_of_ne (ne_of_mem_of_not_mem member fresh)]
      exact within other member
    rw [List.forall_mem_cons] at nonneg multiple
    rw [worth_cons] at reached
    by_cases enough : amount ≤ held coin * value coin
    · obtain ⟨taken, rfl⟩ := multiple.1
      have notNegative : 0 ≤ taken := nonneg_of_mul_nonneg_right notBelow positive
      have small : taken ≤ held coin := by
        rw [mul_comm] at enough
        exact le_of_mul_le_mul_right enough positive
      refine ⟨Function.update (fun _ => 0) coin taken, ?_, ?_⟩
      · exact spread _ _ notNegative small fun other member => ⟨le_refl _, nonneg.2 other member⟩
      · have zero : worth value (fun _ => 0) rest = 0 := by
          rw [worth]
          exact List.sum_eq_zero (by simp)
        rw [worth_cons, Function.update_self, worth_update fresh, zero, add_zero, mul_comm]
    · have smaller : ∀ other ∈ rest, value other ∣ amount - held coin * value coin := by
        intro other member
        have divides := (List.pairwise_cons.mp divisible.divides).1 other member
        exact dvd_sub (multiple.2 other member) (divides.mul_left _)
      obtain ⟨picked, within, made⟩ := ih divisible.tail nonneg.2 smaller
        (by linarith) (by linarith)
      refine ⟨Function.update picked coin (held coin), ?_, ?_⟩
      · exact spread _ _ nonneg.1 (le_refl _) within
      · rw [worth_cons, Function.update_self, worth_update fresh, made]
        ring

/-- As many coins as fit into the amount and are held. -/
def Fits (value held : α → Int) (coin : α) (amount count : Int) : Prop :=
  0 ≤ count ∧ count ≤ held coin ∧ 0 ≤ amount - count * value coin ∧
    (count < held coin → amount - count * value coin < value coin)

/-- As many coins as fit into the amount, if it is not negative. -/
def FitsAny (value : α → Int) (coin : α) (amount count : Int) : Prop :=
  0 ≤ count ∧ 0 ≤ amount - count * value coin ∧ amount - count * value coin < value coin

theorem Stages.left_eq_zero
    [DecidableEq α]
    (divisible : Divisible value coins)
    (stages : Stages (Fits value held) value counts coins amount left)
    (within : ∀ coin ∈ coins, 0 ≤ picked coin ∧ picked coin ≤ held coin)
    (made : worth value picked coins = amount) :
    left = 0 := by
  induction coins generalizing amount picked with
  | nil =>
    rw [worth_nil] at made
    rw [Stages] at stages
    rw [stages, ← made]
  | cons coin rest ih =>
    have positive := divisible.positive coin List.mem_cons_self
    obtain ⟨⟨-, -, notBelow, full⟩, after⟩ := stages
    rw [List.forall_mem_cons] at within
    rw [worth_cons] at made
    have others := worth_nonneg divisible.tail.positive fun other member =>
      (within.2 other member).1
    -- The coins of this value that are taken beyond those picked are worth a multiple of all
    -- smaller values, so that some of the smaller coins that are picked can stand for them.
    have more : picked coin ≤ counts coin := by
      by_contra fewer
      have room := full (lt_of_lt_of_le (not_le.mp fewer) within.1.2)
      have step : (counts coin + 1) * value coin ≤ picked coin * value coin :=
        mul_le_mul_of_nonneg_right (by omega) positive.le
      linarith
    have multiple : ∀ other ∈ rest, value other ∣ (counts coin - picked coin) * value coin :=
      fun other member =>
        ((List.pairwise_cons.mp divisible.divides).1 other member).mul_left _
    obtain ⟨replaced, fewer, exchanged⟩ := exists_worth_eq divisible.tail
      (fun other member => (within.2 other member).1) multiple
      (mul_nonneg (sub_nonneg.mpr more) positive.le) (by linarith)
    refine ih divisible.tail after
      (fun other member => ⟨sub_nonneg.mpr (fewer other member).2, ?_⟩) ?_
    · have bounds := fewer other member
      have limits := within.2 other member
      omega
    · rw [worth_sub, exchanged]
      linarith

theorem Stages.left_lt
    (stages : Stages (FitsAny value) value counts coins amount left)
    (notBelow : 0 ≤ amount) :
    0 ≤ left ∧ left ≤ amount ∧ ∀ coin ∈ coins, left < value coin := by
  induction coins generalizing amount with
  | nil =>
    rw [Stages] at stages
    exact ⟨stages ▸ notBelow, stages.le, fun coin none => absurd none List.not_mem_nil⟩
  | cons coin rest ih =>
    obtain ⟨⟨nonneg, remains, fits⟩, after⟩ := stages
    obtain ⟨still, shrinks, small⟩ := ih after remains
    have positive : 0 < value coin := lt_of_le_of_lt remains fits
    have taken := mul_nonneg nonneg positive.le
    rw [List.forall_mem_cons]
    exact ⟨still, by linarith, lt_of_le_of_lt shrinks fits, small⟩

theorem Stages.number_le
    (divisible : Divisible value coins)
    (stages : Stages (FitsAny value) value counts coins amount left)
    (notBelow : 0 ≤ amount)
    (positive : 0 < larger)
    (divides : ∀ coin ∈ coins, value coin ∣ larger)
    (nonneg : ∀ coin ∈ coins, 0 ≤ others coin)
    (notNegative : 0 ≤ multiple)
    (same : worth value others coins = multiple * larger + worth value counts coins) :
    multiple + number counts coins ≤ number others coins := by
  induction coins generalizing amount larger multiple with
  | nil =>
    rw [worth_nil, worth_nil, add_zero] at same
    rw [number_nil, number_nil, add_zero]
    rcases mul_eq_zero.mp same.symm with none | none
    · exact none.le
    · exact absurd none positive.ne'
  | cons coin rest ih =>
    have valued := divisible.positive coin List.mem_cons_self
    obtain ⟨⟨-, remains, fits⟩, after⟩ := stages
    rw [List.forall_mem_cons] at divides nonneg
    obtain ⟨ratio, rfl⟩ := divides.1
    have times : 1 ≤ ratio := by
      by_contra small
      have negative : value coin * ratio ≤ 0 := mul_nonpos_of_nonneg_of_nonpos valued.le (by omega)
      linarith
    rw [worth_cons, worth_cons] at same
    rw [number_cons, number_cons]
    have rests := worth_nonneg divisible.tail.positive nonneg.2
    have small := after.worth_eq
    have still := (after.left_lt remains).1
    have exchanged : worth value others rest =
        (multiple * ratio + counts coin - others coin) * value coin + worth value counts rest := by
      linear_combination same
    have notFewer : 0 ≤ multiple * ratio + counts coin - others coin := by
      by_contra fewer
      have step : (multiple * ratio + counts coin - others coin) * value coin ≤
          (-1) * value coin := mul_le_mul_of_nonneg_right (by omega) valued.le
      linarith
    have rested := ih divisible.tail after remains valued
      (List.pairwise_cons.mp divisible.divides).1 nonneg.2 notFewer exchanged
    have scaled : multiple ≤ multiple * ratio := le_mul_of_one_le_right notNegative times
    linarith

/-- Coins that are held are taken until the amount is covered. -/
def CoversFrom (value held : α → Int) (coin : α) (amount count : Int) : Prop :=
  0 ≤ count ∧ count ≤ held coin ∧ (0 < count → 0 < amount - (count - 1) * value coin) ∧
    (0 < amount - count * value coin → count = held coin)

section

variable (positive : ∀ coin ∈ coins, 0 < value coin)
include positive

theorem Stages.counts_eq_zero
    (stages : Stages (CoversFrom value held) value counts coins amount left)
    (covered : amount ≤ 0) :
    left = amount ∧ ∀ coin ∈ coins, counts coin = 0 := by
  induction coins with
  | nil => exact ⟨stages, fun coin none => absurd none List.not_mem_nil⟩
  | cons coin rest ih =>
    rw [List.forall_mem_cons] at positive ⊢
    obtain ⟨⟨nonneg, -, last, -⟩, after⟩ := stages
    have none : counts coin = 0 := by
      by_contra some
      have room := last (by omega)
      have taken : 0 ≤ (counts coin - 1) * value coin := mul_nonneg (by omega) positive.1.le
      linarith
    rw [none, zero_mul, sub_zero] at after
    obtain ⟨same, rested⟩ := ih positive.2 after
    exact ⟨same, none, rested⟩

theorem Stages.left_nonpos
    (stages : Stages (CoversFrom value held) value counts coins amount left)
    (reached : amount ≤ worth value held coins) :
    left ≤ 0 := by
  induction coins generalizing amount with
  | nil =>
    rw [Stages] at stages
    exact stages ▸ reached
  | cons coin rest ih =>
    by_cases covered : amount - counts coin * value coin ≤ 0
    · have rested := stages.2.counts_eq_zero (List.forall_mem_cons.mp positive).2 covered
      rw [rested.1]
      exact covered
    · have all := stages.1.2.2.2 (not_le.mp covered)
      rw [worth_cons] at reached
      exact ih (List.forall_mem_cons.mp positive).2 stages.2 (by rw [all]; linarith)

/-- No other coins that are held cover the amount with fewer of them; and if they reach beyond it by
a multiple of a larger value, they are more by that multiple. -/
theorem Stages.number_le_of_reaches
    (sorted : coins.Pairwise fun first second => value second ≤ value first)
    (stages : Stages (CoversFrom value held) value counts coins amount left)
    (open_ : 0 < amount)
    (largest : ∀ coin ∈ coins, value coin ≤ larger)
    (nonneg : ∀ coin ∈ coins, 0 ≤ others coin ∧ others coin ≤ held coin)
    (notNegative : 0 ≤ multiple)
    (above : 0 ≤ larger)
    (reaches : amount + multiple * larger ≤ worth value others coins) :
    number counts coins + multiple ≤ number others coins := by
  induction coins generalizing amount larger multiple with
  | nil =>
    rw [worth_nil] at reaches
    have product := mul_nonneg notNegative above
    linarith
  | cons coin rest ih =>
    have valued := positive coin List.mem_cons_self
    obtain ⟨⟨counted, -, last, all⟩, after⟩ := stages
    by_cases covered : amount - counts coin * value coin ≤ 0
    · have rested := after.counts_eq_zero (List.forall_mem_cons.mp positive).2 covered
      have none : number counts rest = 0 := by
        rw [number]
        exact List.sum_eq_zero (by simpa using rested.2)
      have some : 0 < counts coin := by
        by_contra zero
        have stop : counts coin = 0 := by omega
        rw [stop, zero_mul] at covered
        linarith
      have few := worth_le_number_mul
        (List.forall_mem_cons.mpr ⟨le_refl _, (List.pairwise_cons.mp sorted).1⟩)
        fun other member => (nonneg other member).1
      have scaled : multiple * value coin ≤ multiple * larger :=
        mul_le_mul_of_nonneg_left (largest coin List.mem_cons_self) notNegative
      have room := last some
      rw [number_cons, none]
      by_contra fewer
      have short : number others (coin :: rest) * value coin ≤
          (counts coin - 1 + multiple) * value coin :=
        mul_le_mul_of_nonneg_right (by linarith) valued.le
      linarith
    · have full := all (not_le.mp covered)
      rw [List.forall_mem_cons] at nonneg
      rw [worth_cons] at reaches
      have scaled : multiple * value coin ≤ multiple * larger :=
        mul_le_mul_of_nonneg_left (largest coin List.mem_cons_self) notNegative
      have rested := ih (List.forall_mem_cons.mp positive).2
        (List.pairwise_cons.mp sorted).2 after (not_le.mp covered)
        (List.pairwise_cons.mp sorted).1 nonneg.2
        (show 0 ≤ multiple + (counts coin - others coin) by omega) valued.le
        (by rw [add_mul, sub_mul]; linarith)
      rw [number_cons, number_cons]
      linarith

end

end CoinSystems
