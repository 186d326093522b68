import ColossusCoin.Chain.CommonAncestors

/-!
# The active chain

`CChain` holds the entries of the block index from a tip down to its root, each at the place of its
height.  `SetTip` writes them from the new tip downwards and stops at the first one that is already
there; what is below it then belongs to the new tip too.
-/

namespace ColossusCoin

open Loops

/-- `CChain`; a place may hold a null pointer. -/
structure CChain where
  vChain : List (Option Nat)
  deriving DecidableEq, Repr

namespace CChain

/-- `operator[]`. -/
def atHeight (chain : CChain) (nHeight : Int) : Option Nat :=
  if nHeight < 0 ∨ (chain.vChain.length : Int) ≤ nHeight then none
  else chain.vChain[nHeight.toNat]?.join

/-- `Tip`, of either kind of proof. -/
def tip (chain : CChain) : Option Nat := chain.vChain.getLast?.join

/-- `Height`, which is `-1` for the empty chain. -/
def height (chain : CChain) : Int := chain.vChain.length - 1

def contains (chain : CChain) (memory : BlockMemory) (pindex : Nat) : Option Bool := do
  let node ← memory[pindex]?
  pure (decide (chain.atHeight node.nHeight = some pindex))

def next (chain : CChain) (memory : BlockMemory) (pindex : Nat) : Option (Option Nat) := do
  let node ← memory[pindex]?
  if ← chain.contains memory pindex then pure (chain.atHeight (node.nHeight + 1))
  else pure none

/-- The loop of `SetTip`: `none` where a place outside the vector is written, or without fuel. -/
def setTipLoop (memory : BlockMemory) :
    Nat → Option Nat → List (Option Nat) → Option (List (Option Nat))
  | 0, _, _ => none
  | _ + 1, none, vChain => some vChain
  | fuel + 1, some pindex, vChain => do
      let node ← memory[pindex]?
      let place ← vChain[node.nHeight]?
      if place ≠ some pindex then
        setTipLoop memory fuel node.pprev (vChain.set node.nHeight (some pindex))
      else pure vChain

/-- `std::vector::resize`. -/
def resize (vChain : List (Option Nat)) (size : Nat) : List (Option Nat) :=
  vChain.take size ++ List.replicate (size - vChain.length) none

def setTip (chain : CChain) (memory : BlockMemory) (pindex : Option Nat) (fuel : Nat) :
    Option CChain :=
  match pindex with
  | none => some ⟨[]⟩
  | some top => do
      let node ← memory[top]?
      let vChain ← setTipLoop memory fuel pindex (resize chain.vChain (node.nHeight + 1))
      pure ⟨vChain⟩

/-- The loop of `FindFork`. -/
def forkLoop (chain : CChain) (memory : BlockMemory) : Nat → Option Nat → Option (Option Nat)
  | 0, _ => none
  | _ + 1, none => some none
  | fuel + 1, some pindex => do
      if ← chain.contains memory pindex then pure (some pindex)
      else
        let node ← memory[pindex]?
        forkLoop chain memory fuel node.pprev

def findFork (chain : CChain) (memory : BlockMemory) (pindex : Option Nat) (fuel : Nat) :
    Option (Option Nat) :=
  match pindex with
  | none => some none
  | some start => do
      let node ← memory[start]?
      let top ← if chain.height < node.nHeight then memory.getAncestor start chain.height fuel
        else pure (some start)
      forkLoop chain memory fuel top

/-- The next entry of a locator: from the vector, or by the skip pointers. -/
def entryBelow (chain : CChain) (memory : BlockMemory) (pindex : Nat) (nHeight : Int)
    (fuel : Nat) : Option (Option Nat) := do
  if ← chain.contains memory pindex then pure (chain.atHeight nHeight)
  else memory.getAncestor pindex nHeight fuel

/-- The loop of `GetLocator`.  The step is an `int`, which wraps when it is doubled. -/
def locatorLoop {η : Type} (getBlockHash : Nat → η) (chain : CChain) (memory : BlockMemory) :
    Nat → Int → List η → Option Nat → Option (List η)
  | 0, _, _, _ => none
  | _ + 1, _, vHave, none => some vHave
  | fuel + 1, nStep, vHave, some pindex => do
      let node ← memory[pindex]?
      let vHave := vHave ++ [getBlockHash pindex]
      if node.nHeight = 0 then pure vHave
      else
        let lower ← chain.entryBelow memory pindex (max (node.nHeight - nStep) 0) fuel
        locatorLoop getBlockHash chain memory fuel
          (if 10 < vHave.length then (nStep * 2).bmod (2 ^ 32) else nStep) vHave lower

def getLocator {η : Type} (chain : CChain) (memory : BlockMemory) (getBlockHash : Nat → η)
    (pindex : Option Nat) (fuel : Nat) : Option (List η) :=
  locatorLoop getBlockHash chain memory fuel 1 [] (pindex.or chain.tip)

/-- The chain is made of the ancestors of the tip, each at its height, and of nothing else. -/
def Follows (chain : CChain) (memory : BlockMemory) : Option Nat → Prop
  | none => chain.vChain = []
  | some top => ∃ node : BlockIndexNode, memory[top]? = some node ∧
      chain.vChain.length = node.nHeight + 1 ∧
      ∀ height ≤ node.nHeight, ∃ ancestor, memory.walk (node.nHeight - height) top = some ancestor ∧
        chain.vChain[height]? = some (some ancestor)

/-- Below a height the entries in a vector have their ancestors below them. -/
def ClosedBelow (memory : BlockMemory) (vChain : List (Option Nat)) (bound : Nat) : Prop :=
  ∀ height < bound, ∀ pindex, vChain[height]? = some (some pindex) →
    ∀ lower ≤ height, vChain[lower]? = some (memory.walk (height - lower) pindex)

variable {memory : BlockMemory} {chain : CChain} {pindex : Nat} {node : BlockIndexNode}
  {vChain : List (Option Nat)}

theorem atHeight_ofNat (height : Nat) :
    chain.atHeight height = chain.vChain[height]?.join := by
  rw [atHeight]
  by_cases inside : height < chain.vChain.length
  · have notOutside : ¬((height : Int) < 0 ∨ (chain.vChain.length : Int) ≤ height) := by omega
    rw [if_neg notOutside, Int.toNat_natCast]
  · have outside : (height : Int) < 0 ∨ (chain.vChain.length : Int) ≤ height := by omega
    rw [if_pos outside, List.getElem?_eq_none (by omega)]
    rfl

theorem setTipLoop_of_already
    (found : memory[pindex]? = some node)
    (already : vChain[node.nHeight]? = some (some pindex))
    (fuel : Nat) :
    setTipLoop memory (fuel + 1) (some pindex) vChain = some vChain := by
  simp only [setTipLoop, found, already, Option.bind_eq_bind, Option.bind_some,
    if_neg (not_not_intro rfl)]
  rfl

theorem setTipLoop_of_not_already
    (found : memory[pindex]? = some node)
    (inside : node.nHeight < vChain.length)
    (other : vChain[node.nHeight]? ≠ some (some pindex))
    (fuel : Nat) :
    setTipLoop memory (fuel + 1) (some pindex) vChain =
      setTipLoop memory fuel node.pprev (vChain.set node.nHeight (some pindex)) := by
  have here := List.getElem?_eq_getElem inside
  have different : vChain[node.nHeight] ≠ some pindex := by
    intro same
    exact other (here.trans (congrArg some same))
  simp only [setTipLoop, found, here, Option.bind_eq_bind, Option.bind_some, if_pos different]

/-- The loop of `SetTip` writes the ancestors of the entry and leaves what is above it. -/
theorem setTipLoop_spec
    (linked : memory.Linked)
    (found : memory[pindex]? = some node)
    (inside : node.nHeight < vChain.length)
    (closed : ClosedBelow memory vChain (node.nHeight + 1)) :
    ∃ written, Ends (fun fuel => setTipLoop memory fuel (some pindex) vChain) written ∧
      written.length = vChain.length ∧
      (∀ height, node.nHeight < height → written[height]? = vChain[height]?) ∧
      ∀ lower ≤ node.nHeight,
        written[lower]? = some (memory.walk (node.nHeight - lower) pindex) := by
  induction size : node.nHeight using Nat.strongRecOn generalizing pindex node vChain with
  | ind height ih =>
    subst size
    by_cases already : vChain[node.nHeight]? = some (some pindex)
    · refine ⟨vChain, ends_of_succ fun less => ?_, rfl, fun _ _ => rfl, ?_⟩
      · exact setTipLoop_of_already found already less
      · exact closed node.nHeight (Nat.lt_succ_self _) pindex already
    · have writes := setTipLoop_of_not_already found inside already
      have own : (vChain.set node.nHeight (some pindex))[node.nHeight]? = some (some pindex) :=
        List.getElem?_set_self inside
      cases parented : node.pprev with
      | none =>
        have root := linked.roots pindex node found parented
        refine ⟨vChain.set node.nHeight (some pindex), ⟨2, fun fuel above => ?_⟩,
          List.length_set, ?_, ?_⟩
        · obtain ⟨less, rfl⟩ := Nat.exists_eq_add_of_le' above
          refine (writes (less + 1)).trans ?_
          rw [parented]
          rfl
        · intro height higher
          exact List.getElem?_set_ne (Nat.ne_of_lt higher)
        · intro lower below
          have same : lower = node.nHeight := by omega
          rw [same, own, Nat.sub_self, BlockMemory.walk]
      | some up =>
        obtain ⟨upper, here, height⟩ := linked.parents pindex node found up parented
        have keeps : ∀ lower ≤ upper.nHeight,
            (vChain.set node.nHeight (some pindex))[lower]? = vChain[lower]? := by
          intro lower below
          exact List.getElem?_set_ne (by omega)
        obtain ⟨written, ends, length, above, ancestors⟩ :=
          @ih upper.nHeight (by omega) up upper
            (vChain.set node.nHeight (some pindex)) here
            (by rw [List.length_set]; omega)
            (by
              intro middle below entry slot lower under
              rw [keeps middle (by omega)] at slot
              rw [keeps lower (by omega)]
              exact closed middle (by omega) entry slot lower under) rfl
        refine ⟨written, ends.succ fun less after => ?_, ?_, ?_, ?_⟩
        · refine (writes less).trans ?_
          rw [parented]
          exact after
        · rw [length, List.length_set]
        · intro height' higher
          rw [above height' (by omega), List.getElem?_set_ne (Nat.ne_of_lt higher)]
        · intro lower below
          by_cases top : lower = node.nHeight
          · rw [top, above node.nHeight (by omega), own, Nat.sub_self, BlockMemory.walk]
          · have steps : node.nHeight - lower = (upper.nHeight - lower) + 1 := by omega
            rw [ancestors lower (by omega), steps, BlockMemory.walk_succ found, parented,
              Option.bind_some]

theorem length_resize (size : Nat) : (resize vChain size).length = size := by
  rw [resize, List.length_append, List.length_take, List.length_replicate]
  omega

/-- Resizing leaves no entries but those that were there. -/
theorem entry_of_resize
    {size height : Nat}
    (slot : (resize vChain size)[height]? = some (some pindex)) :
    height < size ∧ vChain[height]? = some (some pindex) := by
  have inside : height < size := by
    have length := (List.getElem?_eq_some_iff.mp slot).1
    rw [length_resize] at length
    exact length
  refine And.intro inside ?_
  rw [resize, List.getElem?_append, List.length_take] at slot
  split_ifs at slot with old
  · rw [List.getElem?_take_of_lt inside] at slot
    exact slot
  · have none := List.eq_of_mem_replicate (List.mem_of_getElem? slot)
    cases none

theorem getElem?_resize
    {size height : Nat}
    (inside : height < size)
    (old : height < vChain.length) :
    (resize vChain size)[height]? = vChain[height]? := by
  rw [resize, List.getElem?_append_left (by rw [List.length_take]; omega),
    List.getElem?_take_of_lt inside]

theorem Follows.closedBelow
    (follows : chain.Follows memory top)
    (size : Nat) :
    ClosedBelow memory (resize chain.vChain size) size := by
  intro height below entry slot lower under
  obtain ⟨-, old⟩ := entry_of_resize slot
  have inside := (List.getElem?_eq_some_iff.mp old).1
  cases top with
  | none =>
    rw [show chain.vChain = [] from follows] at inside
    exact absurd inside (Nat.not_lt_zero height)
  | some tip =>
    obtain ⟨node, found, length, ancestors⟩ := follows
    rw [getElem?_resize (by omega) (by omega)]
    obtain ⟨here, walked, place⟩ := ancestors height (by omega)
    obtain ⟨under', walked', place'⟩ := ancestors lower (by omega)
    rw [place] at old
    obtain rfl := Option.some.inj (Option.some.inj old)
    have steps : node.nHeight - lower = (node.nHeight - height) + (height - lower) := by omega
    rw [steps, BlockMemory.walk_add, walked, Option.bind_some] at walked'
    rw [place', walked']

theorem Follows.setTip
    (linked : memory.Linked)
    (follows : chain.Follows memory top)
    (next : Option Nat)
    (known : ∀ pindex, next = some pindex → pindex < memory.length) :
    ∃ after, Ends (chain.setTip memory next) after ∧ after.Follows memory next := by
  cases next with
  | none => exact ⟨⟨[]⟩, ends_some _, rfl⟩
  | some pindex =>
    obtain ⟨node, found⟩ : ∃ node, memory[pindex]? = some node :=
      ⟨_, List.getElem?_eq_getElem (known pindex rfl)⟩
    have inside : node.nHeight < (resize chain.vChain (node.nHeight + 1)).length := by
      rw [length_resize]
      exact Nat.lt_succ_self _
    obtain ⟨written, ends, length, -, ancestors⟩ :=
      setTipLoop_spec linked found inside (follows.closedBelow _)
    refine ⟨⟨written⟩, ?_, node, found, ?_, ?_⟩
    · obtain ⟨enough, gives⟩ := ends
      refine ⟨enough, fun fuel above => ?_⟩
      have here := gives fuel above
      simp only [CChain.setTip, found, here, Option.bind_eq_bind, Option.bind_some]
      rfl
    · rw [length, length_resize]
    · intro height below
      obtain ⟨reached, lower, walked, -⟩ := linked.walk_spec found (Nat.sub_le node.nHeight height)
      exact ⟨reached, walked, by rw [ancestors height below, walked]⟩

theorem Follows.tip_eq (follows : chain.Follows memory top) : chain.tip = top := by
  cases top with
  | none =>
    rw [CChain.tip, show chain.vChain = [] from follows]
    rfl
  | some pindex =>
    obtain ⟨node, found, length, ancestors⟩ := follows
    obtain ⟨ancestor, walked, place⟩ := ancestors node.nHeight (le_refl node.nHeight)
    rw [Nat.sub_self] at walked
    rw [CChain.tip, List.getLast?_eq_getElem?, length, Nat.add_sub_cancel, place,
      Option.join_some, ← walked, BlockMemory.walk]

/-- An entry is on the branch that ends at a tip. -/
def OnBranch (memory : BlockMemory) (top : Option Nat) (pindex : Nat) : Prop :=
  ∃ tip, top = some tip ∧ memory.IsAncestor pindex tip

section

variable (linked : memory.Linked)
include linked

theorem Follows.atHeight_eq_some_iff
    (follows : chain.Follows memory top)
    (found : memory[pindex]? = some node) :
    chain.atHeight node.nHeight = some pindex ↔ OnBranch memory top pindex := by
  rw [atHeight_ofNat]
  cases top with
  | none =>
    rw [show chain.vChain = [] from follows]
    simp [OnBranch]
  | some tip =>
    obtain ⟨last, foundLast, length, ancestors⟩ := follows
    constructor
    · intro here
      have slot := Option.join_eq_some_iff.mp here
      have inside := (List.getElem?_eq_some_iff.mp slot).1
      obtain ⟨ancestor, walked, place⟩ := ancestors node.nHeight (by omega)
      obtain rfl := Option.some.inj (Option.some.inj (place.symm.trans slot))
      exact ⟨tip, rfl, last.nHeight - node.nHeight, walked⟩
    · rintro ⟨same, equal, steps, walked⟩
      obtain rfl := Option.some.inj equal
      obtain ⟨lower, here, sum⟩ := linked.walk_of_some foundLast walked
      obtain rfl := Option.some.inj (found.symm.trans here)
      obtain ⟨ancestor, walked', place⟩ := ancestors node.nHeight (by omega)
      have count : last.nHeight - node.nHeight = steps := by omega
      rw [count, walked] at walked'
      rw [place, Option.join_some, walked']

/-- `Contains` says whether an entry is on the branch of the tip. -/
theorem Follows.contains_eq
    [Decidable (OnBranch memory top pindex)]
    (follows : chain.Follows memory top)
    (found : memory[pindex]? = some node) :
    chain.contains memory pindex = some (decide (OnBranch memory top pindex)) := by
  rw [contains, found]
  exact congrArg some (decide_eq_decide.mpr (follows.atHeight_eq_some_iff linked found))

theorem Follows.next_spec
    (follows : chain.Follows memory top)
    (found : memory[pindex]? = some node) :
    ∃ answer, chain.next memory pindex = some answer ∧
      ∀ child, answer = some child ↔ OnBranch memory top child ∧
        ∃ upper, memory[child]? = some upper ∧ upper.pprev = some pindex := by
  classical
  have contains := follows.contains_eq linked found
  -- A child on the branch puts its parent there.
  have parentOn : ∀ child upper, OnBranch memory top child → memory[child]? = some upper →
      upper.pprev = some pindex → OnBranch memory top pindex := by
    rintro child upper ⟨tip, isTip, steps, walked⟩ here parented
    refine ⟨tip, isTip, steps + 1, ?_⟩
    rw [BlockMemory.walk_add, walked, Option.bind_some, BlockMemory.walk_succ here, parented,
      Option.bind_some, BlockMemory.walk]
  by_cases branch : OnBranch memory top pindex
  · rw [decide_eq_true branch] at contains
    refine ⟨chain.atHeight (node.nHeight + 1), ?_, fun child => ?_⟩
    · simp only [next, found, contains, Option.bind_eq_bind, Option.bind_some, if_true]
      rfl
    · constructor
      · intro isNext
        have slot : chain.vChain[node.nHeight + 1]? = some (some child) :=
          Option.join_eq_some_iff.mp ((atHeight_ofNat (node.nHeight + 1)).symm.trans isNext)
        have inside := (List.getElem?_eq_some_iff.mp slot).1
        obtain ⟨tip, rfl, steps, walked⟩ := branch
        obtain ⟨last, foundLast, length, ancestors⟩ := follows
        obtain ⟨same, here, sum⟩ := linked.walk_of_some foundLast walked
        obtain rfl := Option.some.inj (found.symm.trans here)
        obtain ⟨above, walkedAbove, place⟩ := ancestors (node.nHeight + 1) (by omega)
        obtain rfl := Option.some.inj (Option.some.inj (place.symm.trans slot))
        obtain ⟨upper, foundAbove, -⟩ := linked.walk_of_some foundLast walkedAbove
        refine ⟨⟨tip, rfl, _, walkedAbove⟩, upper, foundAbove, ?_⟩
        have split : steps = (last.nHeight - (node.nHeight + 1)) + 1 := by omega
        rw [split, BlockMemory.walk_add, walkedAbove, Option.bind_some,
          BlockMemory.walk_succ foundAbove] at walked
        obtain ⟨up, parented, same⟩ := Option.bind_eq_some_iff.mp walked
        rw [parented, same.symm.trans (show memory.walk 0 up = some up from rfl)]
      · rintro ⟨onBranch, upper, here, parented⟩
        obtain ⟨parent, foundParent, sum⟩ := linked.parents child upper here pindex parented
        obtain rfl := Option.some.inj (found.symm.trans foundParent)
        have slot := (follows.atHeight_eq_some_iff linked here).mpr onBranch
        rw [sum] at slot
        exact slot
  · rw [decide_eq_false branch] at contains
    refine ⟨none, ?_, fun child => ?_⟩
    · simp only [next, found, contains, Option.bind_eq_bind, Option.bind_some,
        Bool.false_eq_true, if_false]
      rfl
    · constructor
      · intro isNext
        cases isNext
      · rintro ⟨onBranch, upper, here, parented⟩
        exact absurd (parentOn child upper onBranch here parented) branch

/-- The loop of `FindFork` goes up to the first entry that is on the branch of the tip. -/
theorem Follows.forkLoop_spec
    (follows : chain.Follows memory top)
    (found : memory[pindex]? = some node) :
    ∃ fork, Ends (fun fuel => chain.forkLoop memory fuel (some pindex)) fork ∧
      (∀ last, fork = some last → memory.IsAncestor last pindex ∧ OnBranch memory top last) ∧
      ∀ other, memory.IsAncestor other pindex → OnBranch memory top other →
        ∃ last, fork = some last ∧ memory.IsAncestor other last := by
  classical
  induction size : node.nHeight using Nat.strongRecOn generalizing pindex node with
  | ind height ih =>
    have contains := follows.contains_eq linked found
    by_cases here : OnBranch memory top pindex
    · refine ⟨some pindex, ends_of_succ fun less => ?_, ?_, ?_⟩
      · rw [decide_eq_true here] at contains
        simp only [forkLoop, contains, Option.bind_eq_bind, Option.bind_some, if_true]
        rfl
      · intro last same
        obtain rfl := Option.some.inj same
        exact ⟨⟨0, rfl⟩, here⟩
      · intro other above _
        exact ⟨pindex, rfl, above⟩
    · rw [decide_eq_false here] at contains
      have climbs : ∀ fuel, chain.forkLoop memory (fuel + 1) (some pindex) =
          chain.forkLoop memory fuel node.pprev := by
        intro fuel
        simp [forkLoop, contains, found]
      -- A common ancestor is not the entry itself, so it is reached through the parent.
      have through : ∀ other, memory.IsAncestor other pindex → OnBranch memory top other →
          ∃ up, node.pprev = some up ∧ memory.IsAncestor other up := by
        rintro other ⟨steps, walked⟩ branch
        cases steps with
        | zero =>
          obtain rfl := Option.some.inj walked
          exact absurd branch here
        | succ steps =>
          rw [BlockMemory.walk_succ found] at walked
          obtain ⟨up, parented, walked⟩ := Option.bind_eq_some_iff.mp walked
          exact ⟨up, parented, steps, walked⟩
      cases parented : node.pprev with
      | none =>
        refine ⟨none, ⟨2, fun fuel above => ?_⟩, nofun, ?_⟩
        · obtain ⟨less, rfl⟩ := Nat.exists_eq_add_of_le' above
          refine (climbs (less + 1)).trans ?_
          rw [parented]
          rfl
        · intro other above branch
          obtain ⟨up, parent, -⟩ := through other above branch
          rw [parented] at parent
          cases parent
      | some up =>
        obtain ⟨upper, foundUp, sum⟩ := linked.parents pindex node found up parented
        obtain ⟨fork, ends, common, deepest⟩ :=
          @ih upper.nHeight (by omega) up upper foundUp rfl
        refine ⟨fork, ends.succ fun less after => ?_, ?_, ?_⟩
        · refine (climbs less).trans ?_
          rw [parented]
          exact after
        · intro last same
          obtain ⟨⟨steps, walked⟩, branch⟩ := common last same
          refine ⟨⟨steps + 1, ?_⟩, branch⟩
          rw [BlockMemory.walk_succ found, parented, Option.bind_some, walked]
        · intro other above branch
          obtain ⟨up', parent, above'⟩ := through other above branch
          obtain rfl := Option.some.inj (parented.symm.trans parent)
          exact deepest other above' branch

end

/-- A result of `FindFork`: the deepest common ancestor of the entry and the tip, or null when they
have none. -/
structure IsFork (memory : BlockMemory) (top : Option Nat) (pindex : Nat) (fork : Option Nat) :
    Prop where
  last : ∀ last, fork = some last →
    ∃ tip, top = some tip ∧ memory.IsLastCommon last pindex tip
  apart : fork = none → ∀ tip, top = some tip →
    ∀ other, memory.IsAncestor other pindex → ¬memory.IsAncestor other tip

theorem Follows.findFork_spec
    (skips : memory.Skips skipped)
    (follows : chain.Follows memory top)
    (member : pindex ∈ skipped) :
    ∃ fork, Ends (chain.findFork memory (some pindex)) fork ∧ IsFork memory top pindex fork := by
  obtain ⟨node, found⟩ := skips.known pindex member
  cases top with
  | none =>
    have empty : chain.vChain = [] := follows
    have height : chain.height = -1 := by rw [CChain.height, empty]; rfl
    refine ⟨none, ends_of_succ fun less => ?_, nofun, fun _ _ => nofun⟩
    have higher : (-1 : Int) < node.nHeight := by omega
    have outside : (node.nHeight : Int) < -1 ∨ (-1 : Int) < 0 := by omega
    simp only [findFork, found, height, if_pos higher, BlockMemory.getAncestor, if_pos outside,
      Option.bind_eq_bind, Option.bind_some]
    rfl
  | some tip =>
    obtain ⟨last, foundLast, length, -⟩ := id follows
    have height : chain.height = last.nHeight := by rw [CChain.height, length]; omega
    have level := skips.ends_level member found last.nHeight
    obtain ⟨start, lower, walked, here, sum⟩ := skips.linked.walk_spec found
      (Nat.sub_le node.nHeight last.nHeight)
    obtain ⟨fork, ends, common, deepest⟩ := follows.forkLoop_spec skips.linked here
    -- The common ancestors are no higher than the tip, so they are ancestors of the start.
    have below : ∀ other, memory.IsAncestor other pindex → memory.IsAncestor other tip →
        memory.IsAncestor other start := by
      rintro other ⟨steps, reached⟩ ⟨more, reached'⟩
      obtain ⟨one, foundOne, sumOne⟩ := skips.linked.walk_of_some found reached
      obtain ⟨two, foundTwo, sumTwo⟩ := skips.linked.walk_of_some foundLast reached'
      obtain rfl := Option.some.inj (foundOne.symm.trans foundTwo)
      have split : steps = (node.nHeight - last.nHeight) + (lower.nHeight - one.nHeight) := by
        omega
      rw [split, BlockMemory.walk_add, walked, Option.bind_some] at reached
      exact ⟨_, reached⟩
    refine ⟨fork, ?_, ?_, ?_⟩
    · rw [walked] at level
      obtain ⟨enough, gives⟩ := level
      obtain ⟨plenty, gives'⟩ := ends
      refine ⟨max enough plenty, fun fuel above => ?_⟩
      have first := gives fuel (by omega)
      have second := gives' fuel (by omega)
      simp only [findFork, found, height, Option.bind_eq_bind, Option.bind_some, Int.ofNat_lt]
      split_ifs at first ⊢
      all_goals
        simp only [first, Option.bind_some]
        exact second
    · intro deep same
      obtain ⟨⟨steps, reached⟩, tip', equal, above⟩ := common deep same
      obtain rfl := Option.some.inj equal
      refine ⟨tip, rfl, ⟨(node.nHeight - last.nHeight) + steps, ?_⟩, above, ?_⟩
      · rw [BlockMemory.walk_add, walked, Option.bind_some, reached]
      · intro other above above'
        obtain ⟨deep', same', inside⟩ := deepest other (below other above above') ⟨tip, rfl, above'⟩
        obtain rfl := Option.some.inj (same.symm.trans same')
        exact inside
    · intro none tip' equal other above above'
      obtain rfl := Option.some.inj equal
      obtain ⟨deep, same, -⟩ := deepest other (below other above above') ⟨tip, rfl, above'⟩
      rw [none] at same
      cases same

/-- The entry that a locator goes on with is the ancestor at the height, from wherever it is
taken. -/
theorem Follows.entryBelow_spec
    (skips : memory.Skips skipped)
    (follows : chain.Follows memory top)
    (reachable : pindex ∈ skipped ∨ OnBranch memory top pindex)
    (found : memory[pindex]? = some node)
    {height : Nat}
    (inside : height ≤ node.nHeight) :
    Ends (chain.entryBelow memory pindex height) (memory.walk (node.nHeight - height) pindex) := by
  classical
  have contains := follows.contains_eq skips.linked found
  by_cases branch : OnBranch memory top pindex
  · rw [decide_eq_true branch] at contains
    obtain ⟨tip, rfl, steps, walked⟩ := branch
    obtain ⟨last, foundLast, length, ancestors⟩ := follows
    obtain ⟨same, here, sum⟩ := skips.linked.walk_of_some foundLast walked
    obtain rfl := Option.some.inj (found.symm.trans here)
    obtain ⟨ancestor, walked', place⟩ := ancestors height (by omega)
    have split : last.nHeight - height = steps + (node.nHeight - height) := by omega
    rw [split, BlockMemory.walk_add, walked, Option.bind_some] at walked'
    refine ⟨0, fun fuel _ => ?_⟩
    simp only [entryBelow, contains, Option.bind_eq_bind, Option.bind_some, if_true,
      atHeight_ofNat, place, Option.join_some, walked']
    rfl
  · rw [decide_eq_false branch] at contains
    have member := reachable.resolve_right branch
    obtain ⟨enough, gives⟩ := skips.ends_getAncestor member found inside
    refine ⟨enough, fun fuel above => ?_⟩
    simp only [entryBelow, contains, Option.bind_eq_bind, Option.bind_some, Bool.false_eq_true,
      if_false]
    exact gives fuel above

/-- A locator of an entry: entries of its own branch that start with it, are lower and lower, and
end at height zero. -/
structure IsLocator (memory : BlockMemory) (pindex : Nat) (entries : List Nat) : Prop where
  first : entries.head? = some pindex
  own : ∀ entry ∈ entries, memory.IsAncestor entry pindex
  decreasing : entries.Pairwise fun upper lower => ∃ above below,
    memory[upper]? = some above ∧ memory[lower]? = some below ∧ below.nHeight < above.nHeight
  genesis : ∃ last node, entries.getLast? = some last ∧ memory[last]? = some node ∧
    node.nHeight = 0

theorem IsLocator.cons
    (linked : memory.Linked)
    (found : memory[pindex]? = some node)
    (ancestor : memory.IsAncestor below pindex)
    (foundBelow : memory[below]? = some lower)
    (less : lower.nHeight < node.nHeight)
    (locator : IsLocator memory below entries) :
    IsLocator memory pindex (pindex :: entries) := by
  obtain ⟨steps, walked⟩ := ancestor
  refine ⟨rfl, ?_, ?_, ?_⟩
  · intro entry member
    rcases List.mem_cons.mp member with rfl | rest
    · exact ⟨0, rfl⟩
    · obtain ⟨more, reached⟩ := locator.own entry rest
      refine ⟨steps + more, ?_⟩
      rw [BlockMemory.walk_add, walked, Option.bind_some, reached]
  · refine List.pairwise_cons.mpr ⟨?_, locator.decreasing⟩
    intro entry member
    obtain ⟨more, reached⟩ := locator.own entry member
    obtain ⟨other, here, sum⟩ := linked.walk_of_some foundBelow reached
    exact ⟨node, other, found, here, by omega⟩
  · obtain ⟨last, root, isLast, here, zero⟩ := locator.genesis
    exact ⟨last, root, by rw [List.getLast?_cons, isLast]; rfl, here, zero⟩

/-- The loop of `GetLocator` lists a locator.  While it has not reached height zero its step and the
height add up to no more than what an `int` holds, so a step that has wrapped is not taken. -/
theorem Follows.locatorLoop_spec
    {nStep : Int} {vHave : List η}
    (skips : memory.Skips skipped)
    (follows : chain.Follows memory top)
    (reachable : pindex ∈ skipped ∨ OnBranch memory top pindex)
    (found : memory[pindex]? = some node)
    (bounded : node.nHeight = 0 ∨ 1 ≤ nStep ∧ nStep + node.nHeight ≤ 2 ^ 31) :
    ∃ entries, Ends (fun fuel => chain.locatorLoop getBlockHash memory fuel nStep vHave
        (some pindex)) (vHave ++ entries.map getBlockHash) ∧
      IsLocator memory pindex entries := by
  induction size : node.nHeight using Nat.strongRecOn
    generalizing pindex node nStep vHave with
  | ind height ih =>
    by_cases root : node.nHeight = 0
    · refine ⟨[pindex], ends_of_succ fun less => ?_, rfl, ?_, List.pairwise_singleton _ _,
        pindex, node, rfl, found, root⟩
      · simp only [locatorLoop, found, Option.bind_eq_bind, Option.bind_some, if_pos root]
        rfl
      · intro entry member
        obtain rfl := List.mem_singleton.mp member
        exact ⟨0, rfl⟩
    · obtain ⟨positive, sum⟩ := bounded.resolve_left root
      obtain ⟨lowered, same⟩ : ∃ lowered : Nat, max ((node.nHeight : Int) - nStep) 0 = lowered :=
        ⟨((node.nHeight : Int) - nStep).toNat, by omega⟩
      have less : lowered < node.nHeight := by omega
      obtain ⟨below, lower, walked, here, steps⟩ := skips.linked.walk_spec found
        (Nat.sub_le node.nHeight lowered)
      have ancestor : memory.IsAncestor below pindex := ⟨_, walked⟩
      have onward : below ∈ skipped ∨ OnBranch memory top below := by
        rcases reachable with member | ⟨tip, isTip, up, above⟩
        · exact .inl (skips.walk_mem member walked)
        · refine .inr ⟨tip, isTip, up + (node.nHeight - lowered), ?_⟩
          rw [BlockMemory.walk_add, above, Option.bind_some, walked]
      have step := follows.entryBelow_spec skips reachable found less.le
      rw [walked] at step
      have next : lower.nHeight = 0 ∨
          1 ≤ (if 10 < (vHave ++ [getBlockHash pindex]).length then
              (nStep * 2).bmod (2 ^ 32) else nStep) ∧
            (if 10 < (vHave ++ [getBlockHash pindex]).length then
              (nStep * 2).bmod (2 ^ 32) else nStep) + lower.nHeight ≤ 2 ^ 31 := by
        by_cases zero : lower.nHeight = 0
        · exact .inl zero
        · have plain : (nStep * 2).bmod (2 ^ 32) = nStep * 2 :=
            Int.bmod_eq_of_le (by omega) (by omega)
          rw [plain]
          refine .inr ?_
          split_ifs <;> omega
      obtain ⟨entries, ⟨enough, gives⟩, locator⟩ :=
        @ih lower.nHeight (by omega) below lower _
          (vHave ++ [getBlockHash pindex]) onward here next rfl
      obtain ⟨plenty, gives'⟩ := step
      refine ⟨pindex :: entries, ⟨max enough plenty + 1, fun fuel above => ?_⟩,
        locator.cons skips.linked found ancestor here (by omega)⟩
      obtain ⟨fuel, rfl⟩ := Nat.exists_eq_add_one_of_ne_zero
        (Nat.ne_of_gt (Nat.lt_of_lt_of_le (Nat.succ_pos _) above))
      have first := gives' fuel (by omega)
      have second := gives fuel (by omega)
      simp only [locatorLoop, found, same, first, Option.bind_eq_bind, Option.bind_some,
        if_neg root]
      rw [List.map_cons, List.append_cons vHave (getBlockHash pindex) (entries.map getBlockHash)]
      exact second

end CChain

/-- The block index and the active chain. -/
structure IndexedChain where
  index : SkipHistory
  chain : CChain

/-- What is done with them: an event of the index, or a call of `SetTip`. -/
inductive ChainEvent
  | index (event : IndexEvent)
  | setTip (pindex : Option Nat)

/-- A step of the index and the active chain. -/
inductive IndexedChain.Step : IndexedChain → ChainEvent → IndexedChain → Prop
  | index {index next : SkipHistory} {event : IndexEvent} {chain : CChain}
      (step : skipSystem.Step index event next) :
      Step ⟨index, chain⟩ (.index event) ⟨next, chain⟩
  | setTip {index : SkipHistory} {chain next : CChain} {pindex : Option Nat}
      (ends : Ends (chain.setTip index.memory pindex) next) :
      Step ⟨index, chain⟩ (.setTip pindex) ⟨index, next⟩

/-- The index and the active chain under any sequence of such events. -/
def chainSystem : LabelledSystem IndexedChain ChainEvent := ⟨IndexedChain.Step⟩

/-- The tip after one more event. -/
def ChainEvent.tipAfter (tip : Option Nat) : ChainEvent → Option Nat
  | .index _ => tip
  | .setTip pindex => pindex

/-- The argument of the last call of `SetTip`, null before the first one. -/
def lastTip (events : List ChainEvent) : Option Nat := events.foldl ChainEvent.tipAfter none

namespace CChain

theorem kept_of_step
    {history next : SkipHistory}
    (step : skipSystem.Step history event next) :
    (∀ (pindex : Nat) (node : BlockIndexNode), history.memory[pindex]? = some node →
        ∃ after, next.memory[pindex]? = some after ∧ after.nHeight = node.nHeight) ∧
      ∀ steps pindex reached, history.memory.walk steps pindex = some reached →
        next.memory.walk steps pindex = some reached := by
  have built : ∀ (memory after : BlockMemory) (pindex : Nat),
      Ends (memory.buildSkip pindex) after →
        (∀ (other : Nat) (node : BlockIndexNode), memory[other]? = some node →
          ∃ more, after[other]? = some more ∧ more.nHeight = node.nHeight) ∧
        ∀ steps start reached, memory.walk steps start = some reached →
          after.walk steps start = some reached := by
    intro memory after pindex ends
    obtain ⟨changed, found, ⟨-, rfl⟩ | ⟨_, enough, -, gives⟩⟩ := BlockMemory.buildSkip_cases ends
    · exact ⟨fun _ node here => ⟨node, here, rfl⟩, fun _ _ _ walked => walked⟩
    · obtain ⟨pskip, -, rfl⟩ := gives enough (le_refl enough)
      refine ⟨fun other node here => ?_, fun steps start reached walked => ?_⟩
      · by_cases same : pindex = other
        · subst same
          obtain rfl := Option.some.inj (found.symm.trans here)
          exact ⟨_, List.getElem?_set_self (List.getElem?_eq_some_iff.mp found).1, rfl⟩
        · exact ⟨node, by rw [List.getElem?_set_ne same, here], rfl⟩
      · rw [BlockMemory.walk_set found, walked]
  have added : ∀ (memory : BlockMemory) (new : BlockIndexNode),
      (∀ (other : Nat) (node : BlockIndexNode), memory[other]? = some node →
        ∃ more, (memory ++ [new])[other]? = some more ∧ more.nHeight = node.nHeight) ∧
      ∀ steps start reached, memory.walk steps start = some reached →
        BlockMemory.walk (memory ++ [new]) steps start = some reached := by
    intro memory new
    refine ⟨fun other node here => ⟨node, ?_, rfl⟩, fun _ _ _ => BlockMemory.walk_append [new]⟩
    rw [List.getElem?_append_left (List.getElem?_eq_some_iff.mp here).1, here]
  cases step with
  | root => exact added _ _
  | child => exact added _ _
  | inOrder _ _ _ ends => exact built _ _ _ ends
  | outOfOrder ends => exact built _ _ _ ends

theorem Follows.index
    {chain : CChain} {history next : SkipHistory}
    (follows : chain.Follows history.memory top)
    (step : skipSystem.Step history event next) :
    chain.Follows next.memory top := by
  obtain ⟨entries, walks⟩ := kept_of_step step
  cases top with
  | none => exact follows
  | some tip =>
    obtain ⟨node, found, length, ancestors⟩ := follows
    obtain ⟨after, here, height⟩ := entries tip node found
    refine ⟨after, here, by rw [length, height], fun lower below => ?_⟩
    obtain ⟨ancestor, walked, place⟩ := ancestors lower (by omega)
    rw [height]
    exact ⟨ancestor, walks _ _ _ walked, place⟩

theorem follows_of_run
    {state : IndexedChain}
    (run : chainSystem.Run ⟨⟨[], []⟩, ⟨[]⟩⟩ events state) :
    state.index.memory.Skips state.index.skipped ∧
      state.chain.Follows state.index.memory (lastTip events) := by
  refine @LabelledSystem.Run.traceInvariant _ _ _ _ _ _
    (fun past (current : IndexedChain) => current.index.memory.Skips current.index.skipped ∧
      current.chain.Follows current.index.memory (lastTip past))
    run ⟨BlockMemory.skips_empty, rfl⟩ ?_
  rintro past current label next ⟨skips, follows⟩ step
  have tipped : lastTip (past ++ [label]) = label.tipAfter (lastTip past) := by
    rw [lastTip, List.foldl_append]
    rfl
  rw [tipped]
  cases step with
  | index step => exact ⟨skips.step step, follows.index step⟩
  | @setTip index chain after pindex ends =>
    refine ⟨skips, ?_⟩
    have known : ∀ top, pindex = some top → top < index.memory.length := by
      rintro top rfl
      by_contra outside
      obtain ⟨enough, gives⟩ := ends
      have here := gives enough (le_refl enough)
      rw [setTip, List.getElem?_eq_none (not_lt.mp outside)] at here
      cases here
    obtain ⟨other, ends', follows'⟩ := follows.setTip skips.linked pindex known
    exact ends'.unique ends ▸ follows'

/-- In every history the active chain is made of the ancestors of the last tip and of nothing
else, and another call of `SetTip` ends.  `Contains` says whether an entry is one of them and `Next`
gives the one after it; `FindFork` ends with the deepest common ancestor of an entry and the tip;
and `GetLocator` ends with a locator of the entry, or of the tip when it is given none. -/
theorem activeChain_spec
    {η : Type} (getBlockHash : Nat → η)
    {state : IndexedChain} {events : List ChainEvent}
    (run : chainSystem.Run ⟨⟨[], []⟩, ⟨[]⟩⟩ events state) :
    state.chain.Follows state.index.memory (lastTip events) ∧
      (∀ next, (∀ pindex, next = some pindex → pindex < state.index.memory.length) →
        ∃ after, Ends (state.chain.setTip state.index.memory next) after) ∧
      (∀ pindex < state.index.memory.length, ∃ answer,
        state.chain.contains state.index.memory pindex = some answer ∧
          (answer = true ↔ OnBranch state.index.memory (lastTip events) pindex)) ∧
      (∀ pindex < state.index.memory.length, ∃ answer,
        state.chain.next state.index.memory pindex = some answer ∧
          ∀ child, answer = some child ↔
            OnBranch state.index.memory (lastTip events) child ∧
              ∃ upper, state.index.memory[child]? = some upper ∧ upper.pprev = some pindex) ∧
      (∀ pindex ∈ state.index.skipped, ∃ fork,
        Ends (state.chain.findFork state.index.memory (some pindex)) fork ∧
          IsFork state.index.memory (lastTip events) pindex fork) ∧
      (lastTip events = none →
        Ends (state.chain.getLocator state.index.memory getBlockHash none) []) ∧
      ∀ start pindex node, start.or (lastTip events) = some pindex →
        (pindex ∈ state.index.skipped ∨ OnBranch state.index.memory (lastTip events) pindex) →
        state.index.memory[pindex]? = some node → node.nHeight < 2 ^ 31 →
          ∃ entries, Ends (state.chain.getLocator state.index.memory getBlockHash start)
              (entries.map getBlockHash) ∧
            IsLocator state.index.memory pindex entries := by
  classical
  obtain ⟨skips, follows⟩ := follows_of_run run
  refine ⟨follows, ?_, ?_, ?_, ?_, ?_, ?_⟩
  · intro next known
    obtain ⟨after, ends, -⟩ := follows.setTip skips.linked next known
    exact ⟨after, ends⟩
  · intro pindex known
    have contains := follows.contains_eq skips.linked (List.getElem?_eq_getElem known)
    exact ⟨_, contains, decide_eq_true_iff⟩
  · intro pindex known
    exact follows.next_spec skips.linked (List.getElem?_eq_getElem known)
  · intro pindex member
    exact follows.findFork_spec skips member
  · intro none
    refine ends_of_succ fun less => ?_
    rw [getLocator, follows.tip_eq, none]
    rfl
  · intro start pindex node isStart reachable found bounded
    have fits : node.nHeight = 0 ∨ (1 : Int) ≤ 1 ∧ (1 : Int) + node.nHeight ≤ 2 ^ 31 := by
      omega
    have located : ∃ entries, Ends (fun fuel => state.chain.locatorLoop getBlockHash
        state.index.memory fuel 1 [] (some pindex)) ([] ++ entries.map getBlockHash) ∧
          IsLocator state.index.memory pindex entries :=
      follows.locatorLoop_spec skips reachable found fits
    have starts : state.chain.getLocator state.index.memory getBlockHash start = fun fuel =>
        state.chain.locatorLoop getBlockHash state.index.memory fuel 1 [] (some pindex) := by
      funext fuel
      rw [getLocator, follows.tip_eq, isStart]
    rw [starts]
    exact located

theorem run_tipOfTwo :
    chainSystem.Run ⟨⟨[], []⟩, ⟨[]⟩⟩
      [.index (.link none), .index (.link (some 0)), .index (.buildSkip 1), .setTip (some 1)]
      ⟨BlockMemory.rootAndChild, ⟨[some 0, some 1]⟩⟩ := by
  have root : chainSystem.Run ⟨⟨[], []⟩, ⟨[]⟩⟩ [.index (.link none)]
      ⟨⟨[⟨none, none, 0⟩], [0]⟩, ⟨[]⟩⟩ :=
    .snoc .nil (IndexedChain.Step.index (@SkipHistory.Step.root [] []))
  have child : chainSystem.Run ⟨⟨[], []⟩, ⟨[]⟩⟩ [.index (.link none), .index (.link (some 0))]
      ⟨⟨[⟨none, none, 0⟩, ⟨some 0, none, 1⟩], [0]⟩, ⟨[]⟩⟩ :=
    .snoc root (IndexedChain.Step.index
      (@SkipHistory.Step.child [⟨none, none, 0⟩] [0] 0 ⟨none, none, 0⟩ rfl))
  have skipped : chainSystem.Run ⟨⟨[], []⟩, ⟨[]⟩⟩
      [.index (.link none), .index (.link (some 0)), .index (.buildSkip 1)]
      ⟨BlockMemory.rootAndChild, ⟨[]⟩⟩ := by
    refine .snoc child (IndexedChain.Step.index
      (.inOrder rfl rfl List.mem_cons_self (ends_of_succ fun less => ?_)))
    rfl
  refine .snoc skipped (IndexedChain.Step.setTip ⟨3, fun fuel above => ?_⟩)
  obtain ⟨less, rfl⟩ := Nat.exists_eq_add_of_le' above
  rfl

theorem activeChain_spec_tipOfTwo :
    ∃ entries, Ends (CChain.getLocator ⟨[some 0, some 1]⟩ BlockMemory.rootAndChild.memory id none)
        (entries.map id) ∧
      IsLocator BlockMemory.rootAndChild.memory 1 entries :=
  (activeChain_spec id run_tipOfTwo).2.2.2.2.2.2 none 1 ⟨some 0, some 0, 1⟩ rfl
    (.inl List.mem_cons_self) rfl (by decide)

end CChain

end ColossusCoin
