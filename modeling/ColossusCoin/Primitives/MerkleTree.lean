import ColossusCoin.Library.PairedLevels
import ColossusCoin.Primitives.Block
import Mathlib.Data.Int.Bitwise
import Mathlib.Data.Nat.Pairing

/-!
# Merkle trees of blocks

The levels that `BuildMerkleTree` computes are levels of pairs, and `fMutated` tells whether one
of them ends in two equal hashes.  Where it does not, the root determines the transactions,
which are compared by their hashes.  The list without a transaction has the null root.  The array
`vMerkleTree` holds the levels one after the other, and each branch that is read off it leads from
its transaction to the root.
-/

namespace ColossusCoin

open PairedLevels

namespace CBlock

variable {hashPair : Uint256 → Uint256 → Uint256} {level : List Uint256}

theorem merkleLevel_eq (level : List Uint256) :
    merkleLevel hashPair level = nextLevel hashPair level := by
  induction level using merkleLevel.induct with
  | case1 => rfl
  | case2 last => rfl
  | case3 left right rest ih =>
    rw [merkleLevel, nextLevel_cons_cons, ih]

theorem levelMutated_iff (level : List Uint256) :
    levelMutated level = true ↔ EndsTwice level := by
  induction level using levelMutated.induct with
  | case1 left right => rw [levelMutated, EndsTwice, beq_iff_eq]
  | case2 left right rest notPair ih =>
    cases rest with
    | nil => exact (notPair rfl).elim
    | cons next others => exact ih
  | case3 level notPair notLonger =>
    match level with
    | [] => exact iff_of_false Bool.false_ne_true id
    | [last] => exact iff_of_false Bool.false_ne_true id
    | left :: right :: rest => exact absurd rfl (notLonger left right rest)

theorem merkleLoop_succ
    {fuel : Nat} {mutated : Bool} {left right : Uint256} {rest : List Uint256} :
    merkleLoop hashPair (fuel + 1) (left :: right :: rest) mutated =
      merkleLoop hashPair fuel (nextLevel hashPair (left :: right :: rest))
        (mutated || levelMutated (left :: right :: rest)) := by
  rw [merkleLoop, merkleLevel_eq] <;> simp

theorem merkleLoop_unmutated
    {fuel : Nat} {mutated : Bool} {root : Uint256}
    (enough : level.length ≤ fuel + 1)
    (some : level ≠ []) :
    merkleLoop hashPair fuel level mutated = (root, false) ↔
      mutated = false ∧ ComesTo hashPair level root := by
  have single : ∀ (only : Uint256) (mutated : Bool),
      ((only, mutated) = (root, false) ↔ mutated = false ∧ ComesTo hashPair [only] root) := by
    intro only mutated
    rw [Prod.mk.injEq, and_comm]
    refine and_congr_right fun _ => Iff.intro ?_ ?_
    · rintro rfl
      exact ComesTo.single only
    · intro comes
      cases comes with
      | single => rfl
      | step several _ _ => simp at several
  induction fuel generalizing level mutated with
  | zero =>
    match level with
    | [] => exact absurd rfl some
    | [only] => exact single only mutated
    | left :: right :: rest => simp at enough
  | succ fuel ih =>
    match level with
    | [] => exact absurd rfl some
    | [only] => exact single only mutated
    | left :: right :: rest =>
      have shorter : (nextLevel hashPair (left :: right :: rest)).length ≤ fuel + 1 := by
        rw [length_nextLevel]
        omega
      have next : nextLevel hashPair (left :: right :: rest) ≠ [] :=
        fun nothing => some (nextLevel_eq_nil_iff.mp nothing)
      have above := @ih (nextLevel hashPair (left :: right :: rest))
        (mutated || levelMutated (left :: right :: rest)) shorter next
      rw [merkleLoop_succ]
      refine above.trans ?_
      rw [Bool.or_eq_false_iff, and_assoc, ← Bool.not_eq_true (levelMutated _), levelMutated_iff]
      refine and_congr_right fun _ => Iff.intro ?_ ?_
      · rintro ⟨once, comes⟩
        exact ComesTo.step (by simp) once comes
      · intro comes
        cases comes with
        | step _ once comes => exact And.intro once comes

/-- Where no leaf is the hash of a pair, two lists with one root that are both found unmutated
are equal, unless one of them is empty and the root is null. -/
theorem vtx_eq_of_merkleRoot_eq
    {first second : CBlock}
    (injective : Function.Injective2 hashPair)
    (firstLeaves : ∀ tx ∈ first.vtx, ∀ left right, hashPair left right ≠ tx.hash)
    (secondLeaves : ∀ tx ∈ second.vtx, ∀ left right, hashPair left right ≠ tx.hash)
    (same : (first.buildMerkleTree hashPair).1 = (second.buildMerkleTree hashPair).1)
    (firstUnmutated : (first.buildMerkleTree hashPair).2 = false)
    (secondUnmutated : (second.buildMerkleTree hashPair).2 = false)
    (firstNonempty : first.vtx ≠ [])
    (secondNonempty : second.vtx ≠ []) :
    first.vtx.map CTransaction.hash = second.vtx.map CTransaction.hash := by
  have comes : ∀ block : CBlock, block.vtx ≠ [] → (block.buildMerkleTree hashPair).2 = false →
      ComesTo hashPair (block.vtx.map CTransaction.hash) (block.buildMerkleTree hashPair).1 := by
    intro block nonempty unmutated
    have loop := (@merkleLoop_unmutated hashPair (block.vtx.map CTransaction.hash)
      block.vtx.length false (block.buildMerkleTree hashPair).1 (by simp)
      (by simpa using nonempty)).mp (Prod.ext rfl unmutated)
    exact loop.2
  have stands : ∀ block : CBlock,
      (∀ tx ∈ block.vtx, ∀ left right, hashPair left right ≠ tx.hash) →
        ∀ x ∈ block.vtx.map CTransaction.hash, StandsAt hashPair 0 x := by
    intro block leaves x member
    obtain ⟨tx, inBlock, rfl⟩ := List.mem_map.mp member
    exact StandsAt.leaf (leaves tx inBlock)
  exact ComesTo.unique injective (comes first firstNonempty firstUnmutated)
    (same ▸ comes second secondNonempty secondUnmutated) (stands first firstLeaves)
    (stands second secondLeaves)

/-- Two different lists with one root, of which neither is empty if the root is null, are told
apart by `fMutated`. -/
theorem merkle_malleability_detected
    {first second : CBlock}
    (injective : Function.Injective2 hashPair)
    (firstLeaves : ∀ tx ∈ first.vtx, ∀ left right, hashPair left right ≠ tx.hash)
    (secondLeaves : ∀ tx ∈ second.vtx, ∀ left right, hashPair left right ≠ tx.hash)
    (different : first.vtx.map CTransaction.hash ≠ second.vtx.map CTransaction.hash)
    (same : (first.buildMerkleTree hashPair).1 = (second.buildMerkleTree hashPair).1)
    (nonempty : (first.buildMerkleTree hashPair).1 = 0 → first.vtx ≠ [] ∧ second.vtx ≠ []) :
    (first.buildMerkleTree hashPair).2 = true ∨ (second.buildMerkleTree hashPair).2 = true := by
  have nullRoot : ∀ block : CBlock, block.vtx = [] → (block.buildMerkleTree hashPair).1 = 0 := by
    intro block empty
    rw [buildMerkleTree, empty]
    rfl
  have firstNonempty : first.vtx ≠ [] := fun empty =>
    (nonempty (nullRoot first empty)).1 empty
  have secondNonempty : second.vtx ≠ [] := fun empty =>
    (nonempty (same.trans (nullRoot second empty))).2 empty
  by_contra neither
  simp only [not_or, Bool.not_eq_true] at neither
  exact different (vtx_eq_of_merkleRoot_eq injective firstLeaves secondLeaves same neither.1
    neither.2 firstNonempty secondNonempty)

/-! ## The tree as one array -/

/-- `vMerkleTree[index]`, which is not defined outside of the array. -/
def nodeAt (vMerkleTree : List Uint256) (index : Int) : Option Uint256 :=
  if 0 ≤ index then vMerkleTree[index.toNat]? else none

/-- The inner loop of `BuildMerkleTree` after so many of its rounds, in the last of which `i` is
`2 * round`: it appends the hashes of the pairs of a level that starts at `j`. -/
def pushLevel
    (hashPair : Uint256 → Uint256 → Uint256)
    (j nSize : Nat)
    (vMerkleTree : List Uint256)
    (mutated : Bool) :
    Nat → Option (List Uint256 × Bool)
  | 0 => some (vMerkleTree, mutated)
  | round + 1 => do
      let (vMerkleTree, mutated) ← pushLevel hashPair j nSize vMerkleTree mutated round
      let i := 2 * round
      let i2 := min (i + 1) (nSize - 1)
      let left ← vMerkleTree[j + i]?
      let right ← vMerkleTree[j + i2]?
      return (vMerkleTree ++ [hashPair left right],
        mutated || (i2 == i + 1 && i2 + 1 == nSize && left == right))

/-- The outer loop of `BuildMerkleTree`, from a level of `nSize` hashes at `j` on. -/
def pushLevels
    (hashPair : Uint256 → Uint256 → Uint256)
    (j nSize : Nat)
    (vMerkleTree : List Uint256)
    (mutated : Bool) :
    Option (List Uint256 × Bool) :=
  if 1 < nSize then do
    let (vMerkleTree, mutated) ←
      pushLevel hashPair j nSize vMerkleTree mutated ((nSize + 1) / 2)
    pushLevels hashPair (j + nSize) ((nSize + 1) / 2) vMerkleTree mutated
  else some (vMerkleTree, mutated)
termination_by nSize
decreasing_by omega

/-- `BuildMerkleTree` with the array that it leaves in the block. -/
def buildFlatTree (hashPair : Uint256 → Uint256 → Uint256) (block : CBlock) :
    Option (List Uint256 × Uint256 × Bool) := do
  let (vMerkleTree, mutated) ←
    pushLevels hashPair 0 block.vtx.length (block.vtx.map CTransaction.hash) false
  return (vMerkleTree, vMerkleTree.getLast?.getD 0, mutated)

/-- `nIndex ^ 1`. -/
def flipLowest (nIndex : Int) : Int := if nIndex % 2 = 0 then nIndex + 1 else nIndex - 1

/-- The loop of `GetMerkleBranch`, from a level of `nSize` hashes at `j` on. -/
def collectBranch (vMerkleTree : List Uint256) (j nSize : Nat) (nIndex : Int) :
    Option (List Uint256) :=
  if 1 < nSize then do
    let i := min (flipLowest nIndex) (nSize - 1)
    let sibling ← nodeAt vMerkleTree (j + i)
    let branch ← collectBranch vMerkleTree (j + nSize) ((nSize + 1) / 2) (nIndex >>> 1)
    return sibling :: branch
  else some []
termination_by nSize
decreasing_by omega

/-- `GetMerkleBranch` of a block that holds this array, which is built when it is empty. -/
def getMerkleBranch
    (hashPair : Uint256 → Uint256 → Uint256)
    (block : CBlock)
    (vMerkleTree : List Uint256)
    (nIndex : Int) :
    Option (List Uint256) := do
  let vMerkleTree ←
    if vMerkleTree = [] then (buildFlatTree hashPair block).map Prod.fst else some vMerkleTree
  collectBranch vMerkleTree 0 block.vtx.length nIndex

/-- The loop of `CheckMerkleBranch`. -/
def foldBranch (hashPair : Uint256 → Uint256 → Uint256) :
    Uint256 → List Uint256 → Int → Uint256
  | hash, [], _ => hash
  | hash, sibling :: rest, nIndex =>
    foldBranch hashPair
      (if nIndex % 2 = 1 then hashPair sibling hash else hashPair hash sibling) rest
      (nIndex >>> 1)

def checkMerkleBranch
    (hashPair : Uint256 → Uint256 → Uint256)
    (hash : Uint256)
    (vMerkleBranch : List Uint256)
    (nIndex : Int) :
    Uint256 :=
  if nIndex = -1 then 0 else foldBranch hashPair hash vMerkleBranch nIndex

/-- The levels above a level, the level included, one after the other. -/
def levelsFrom (hashPair : Uint256 → Uint256 → Uint256) (level : List Uint256) : List Uint256 :=
  if 1 < level.length then level ++ levelsFrom hashPair (nextLevel hashPair level) else level
termination_by level.length
decreasing_by
  rw [length_nextLevel]
  omega

theorem levelMutated_append
    (left right : Uint256)
    (round : Nat)
    (even : lower.length = 2 * round) :
    levelMutated (lower ++ [left, right]) = (left == right) := by
  induction round generalizing lower with
  | zero =>
    rw [List.length_eq_zero_iff.mp even]
    rfl
  | succ round ih =>
    obtain ⟨first, others, rfl⟩ := List.exists_cons_of_length_eq_add_one even
    obtain ⟨second, rest, rfl⟩ := List.exists_cons_of_length_eq_add_one (Nat.succ.inj even)
    have later := ih (Nat.succ.inj (Nat.succ.inj even) : rest.length = 2 * round)
    rw [← later]
    cases rest with
    | nil => rfl
    | cons next others => rfl

theorem levelMutated_of_odd
    (level : List Uint256)
    (odd : level.length % 2 = 1) :
    levelMutated level = false := by
  induction level using levelMutated.induct with
  | case1 left right => exact absurd odd (by simp)
  | case2 left right rest notPair ih =>
    rw [levelMutated]
    · refine ih ?_
      simp only [List.length_cons] at odd
      omega
    · exact notPair
  | case3 level notPair notLonger =>
    rw [levelMutated]
    · exact notPair
    · exact notLonger

/-- What the rounds have found out: whether the last pair of an even level is one of two equal
hashes, once it has been reached. -/
def foundAt (level : List Uint256) (round : Nat) : Bool :=
  decide (0 < round ∧ 2 * round = level.length) && levelMutated level

theorem foundAt_all (level : List Uint256) :
    foundAt level ((level.length + 1) / 2) = levelMutated level := by
  rw [foundAt]
  rcases Nat.mod_two_eq_zero_or_one level.length with even | odd
  · rcases Nat.eq_zero_or_pos level.length with none | some
    · rw [List.length_eq_zero_iff.mp none]
      rfl
    · rw [decide_eq_true (by omega), Bool.true_and]
  · rw [levelMutated_of_odd level odd, Bool.and_false]

/-- The test of a round is the one of the last pair. -/
theorem foundAt_succ
    {round : Nat}
    (inside : 2 * round < level.length) :
    (min (2 * round + 1) (level.length - 1) == 2 * round + 1 &&
        min (2 * round + 1) (level.length - 1) + 1 == level.length &&
        level[2 * round] == level[2 * round + 1]?.getD level[2 * round]) =
      foundAt level (round + 1) := by
  rw [foundAt]
  by_cases last : 2 * (round + 1) = level.length
  · have second : 2 * round + 1 < level.length := by omega
    have pair : level.take (2 * round) ++ [level[2 * round], level[2 * round + 1]] = level := by
      have rest : level.drop (2 * round) = [level[2 * round], level[2 * round + 1]] := by
        rw [List.drop_eq_getElem_cons inside, List.drop_eq_getElem_cons second,
          List.drop_eq_nil_of_le (by omega)]
      rw [← rest, List.take_append_drop]
    have mutated := levelMutated_append level[2 * round] level[2 * round + 1] round
      (List.length_take_of_le (Nat.le_of_lt inside))
    rw [pair] at mutated
    rw [decide_eq_true ⟨Nat.succ_pos round, last⟩, mutated, Nat.min_eq_left (by omega),
      List.getElem?_eq_getElem second, Option.getD_some, beq_self_eq_true, Bool.true_and,
      Bool.true_and, beq_iff_eq.mpr (by omega), Bool.true_and]
  · have notBoth : (min (2 * round + 1) (level.length - 1) == 2 * round + 1 &&
        min (2 * round + 1) (level.length - 1) + 1 == level.length) = false := by
      rw [Bool.and_eq_false_iff, beq_eq_false_iff_ne, beq_eq_false_iff_ne]
      omega
    rw [notBoth, decide_eq_false fun both => last both.2, Bool.false_and, Bool.false_and]

theorem pushLevel_eq
    (lower level : List Uint256)
    (mutated : Bool)
    (round : Nat)
    (within : 2 * round ≤ level.length + 1) :
    pushLevel hashPair lower.length level.length (lower ++ level) mutated round =
      some (lower ++ level ++ (nextLevel hashPair level).take round,
        mutated || foundAt level round) := by
  induction round with
  | zero => rw [pushLevel, List.take_zero, List.append_nil, foundAt]; simp
  | succ round ih =>
    have before := ih (by omega)
    have inside : 2 * round < level.length := by omega
    have node : ∀ place, place < level.length →
        (lower ++ level ++ (nextLevel hashPair level).take round)[lower.length + place]? =
          level[place]? := by
      intro place below
      rw [List.append_assoc, List.getElem?_append_right (Nat.le_add_right _ _),
        Nat.add_sub_cancel_left, List.getElem?_append_left below]
    have parent : (nextLevel hashPair level)[round]? =
        some (hashPair level[2 * round] (level[2 * round + 1]?.getD level[2 * round])) := by
      rw [getElem?_nextLevel, List.getElem?_eq_getElem inside, Option.map_some]
    have right : level[min (2 * round + 1) (level.length - 1)]? =
        some (level[2 * round + 1]?.getD level[2 * round]) := by
      rcases Nat.lt_or_ge (2 * round + 1) level.length with more | last
      · rw [Nat.min_eq_left (by omega), List.getElem?_eq_getElem more, Option.getD_some]
      · have only : level.length - 1 = 2 * round := by omega
        rw [only, Nat.min_eq_right (by omega), List.getElem?_eq_getElem inside,
          List.getElem?_eq_none last, Option.getD_none]
    have notYet : foundAt level round = false := by
      rw [foundAt, decide_eq_false (by omega), Bool.false_and]
    have taken : (nextLevel hashPair level).take (round + 1) =
        (nextLevel hashPair level).take round ++
          [hashPair level[2 * round] (level[2 * round + 1]?.getD level[2 * round])] := by
      rw [List.take_add_one, parent, Option.toList_some]
    rw [pushLevel, before, notYet, Bool.or_false, taken, ← List.append_assoc, ← foundAt_succ inside]
    simp only [Option.bind_eq_bind, Option.bind_some, node _ inside,
      List.getElem?_eq_getElem inside, node (min (2 * round + 1) (level.length - 1)) (by omega),
      right]
    rfl

theorem merkleLoop_of_single
    (fuel : Nat)
    (mutated : Bool)
    (single : ¬ 1 < level.length) :
    merkleLoop hashPair fuel level mutated = (level.getLast?.getD 0, mutated) := by
  cases level with
  | nil => rw [merkleLoop]; rfl
  | cons first rest =>
    cases rest with
    | nil => rw [merkleLoop]; rfl
    | cons second others => simp at single

theorem levelsFrom_ne_nil
    (nonempty : level ≠ []) :
    levelsFrom hashPair level ≠ [] := by
  rw [levelsFrom]
  split_ifs
  · exact fun nothing => nonempty (List.append_eq_nil_iff.mp nothing).1
  · exact nonempty

theorem getLast?_levelsFrom
    (several : 1 < level.length) :
    (levelsFrom hashPair level).getLast? =
      (levelsFrom hashPair (nextLevel hashPair level)).getLast? := by
  have length : (nextLevel hashPair level).length = (level.length + 1) / 2 := length_nextLevel level
  have nonempty : nextLevel hashPair level ≠ [] := by
    rw [← List.length_pos_iff, length]
    omega
  rw [levelsFrom, if_pos several, List.getLast?_append_of_ne_nil _ (levelsFrom_ne_nil nonempty)]

/-- The outer loop appends all the levels above, and finds out what the levels tell. -/
theorem pushLevels_eq
    (lower level : List Uint256)
    (mutated : Bool)
    (fuel : Nat)
    (enough : level.length ≤ fuel + 1) :
    pushLevels hashPair lower.length level.length (lower ++ level) mutated =
      some (lower ++ levelsFrom hashPair level, (merkleLoop hashPair fuel level mutated).2) ∧
      (levelsFrom hashPair level).getLast?.getD 0 = (merkleLoop hashPair fuel level mutated).1 := by
  induction fuel generalizing lower level mutated with
  | zero =>
    have single : ¬ 1 < level.length := by omega
    rw [pushLevels, if_neg single, levelsFrom, if_neg single, merkleLoop_of_single 0 _ single]
    exact ⟨rfl, rfl⟩
  | succ fuel ih =>
    by_cases several : 1 < level.length
    · have loop : merkleLoop hashPair (fuel + 1) level mutated =
          merkleLoop hashPair fuel (nextLevel hashPair level) (mutated || levelMutated level) := by
        obtain ⟨left, others, rfl⟩ := List.exists_cons_of_length_pos (by omega : 0 < level.length)
        obtain ⟨right, rest, rfl⟩ := List.exists_cons_of_length_pos
          (by simp only [List.length_cons] at several; omega : 0 < others.length)
        exact merkleLoop_succ
      have length : (nextLevel hashPair level).length = (level.length + 1) / 2 :=
        length_nextLevel level
      obtain ⟨pushed, root⟩ := ih (lower ++ level) (nextLevel hashPair level)
        (mutated || levelMutated level) (by omega)
      rw [List.length_append, length] at pushed
      rw [pushLevels, if_pos several, pushLevel_eq lower level mutated _ (by omega), ← length,
        List.take_length, length, foundAt_all, loop, getLast?_levelsFrom several, ← root,
        levelsFrom, if_pos several, ← List.append_assoc]
      exact ⟨pushed, rfl⟩
    · rw [pushLevels, if_neg several, levelsFrom, if_neg several, merkleLoop_of_single _ _ several]
      exact ⟨rfl, rfl⟩

/-- The array holds the levels of the tree one after the other; the root and what is found out are
those of the levels. -/
theorem buildFlatTree_eq (block : CBlock) :
    buildFlatTree hashPair block =
      some (levelsFrom hashPair (block.vtx.map CTransaction.hash),
        (block.buildMerkleTree hashPair).1, (block.buildMerkleTree hashPair).2) := by
  obtain ⟨pushed, root⟩ := @pushLevels_eq hashPair [] (block.vtx.map CTransaction.hash) false
    block.vtx.length (by rw [List.length_map]; omega)
  rw [List.length_nil, List.length_map, List.nil_append, List.nil_append] at pushed
  rw [buildFlatTree, pushed, buildMerkleTree, ← root]
  rfl

theorem shiftRight_one_natCast (position : Nat) :
    (position : Int) >>> 1 = ((position / 2 : Nat) : Int) := rfl

/-- The place of the sibling that `GetMerkleBranch` reads. -/
def siblingAt (position nSize : Nat) : Nat :=
  if position % 2 = 0 then min (position + 1) (nSize - 1) else position - 1

theorem min_flipLowest
    {position nSize : Nat}
    (inside : position < nSize) :
    min (flipLowest position) (nSize - 1) = (siblingAt position nSize : Int) := by
  unfold flipLowest siblingAt
  split_ifs <;> omega

theorem siblingAt_lt
    (inside : position < nSize) :
    siblingAt position nSize < nSize := by
  unfold siblingAt
  split_ifs <;> omega

theorem getElem?_parent
    (inside : position < level.length) :
    (nextLevel hashPair level)[position / 2]? =
      some (if (position : Int) % 2 = 1 then
          hashPair (level.get ⟨siblingAt position level.length, siblingAt_lt inside⟩)
            level[position]
        else
          hashPair level[position]
            (level.get ⟨siblingAt position level.length, siblingAt_lt inside⟩)) := by
  rw [getElem?_nextLevel, List.get_eq_getElem]
  rcases Nat.mod_two_eq_zero_or_one position with even | odd
  · have own : 2 * (position / 2) = position := by omega
    have notOdd : ¬ (position : Int) % 2 = 1 := by omega
    have place : siblingAt position level.length = min (position + 1) (level.length - 1) :=
      if_pos even
    rw [own, if_neg notOdd, List.getElem?_eq_getElem inside, Option.map_some]
    simp only [place]
    rcases Nat.lt_or_ge (position + 1) level.length with more | last
    · have next : min (position + 1) (level.length - 1) = position + 1 := by omega
      simp only [next, List.getElem?_eq_getElem more, Option.getD_some]
    · have only : min (position + 1) (level.length - 1) = position := by omega
      simp only [only, List.getElem?_eq_none last, Option.getD_none]
  · have left : 2 * (position / 2) = position - 1 := by omega
    have right : position - 1 + 1 = position := by omega
    have isOdd : (position : Int) % 2 = 1 := by omega
    have place : siblingAt position level.length = position - 1 := if_neg (by omega)
    have before : position - 1 < level.length := by omega
    rw [left, right, if_pos isOdd, List.getElem?_eq_getElem before, Option.map_some,
      List.getElem?_eq_getElem inside, Option.getD_some]
    simp only [place]

/-- The siblings on the way up from a position give the last hash of the levels above. -/
theorem foldBranch_collectBranch
    (lower level : List Uint256)
    {position : Nat}
    (inside : position < level.length) :
    ∃ branch,
      collectBranch (lower ++ levelsFrom hashPair level) lower.length level.length position =
        some branch ∧
      foldBranch hashPair level[position] branch position =
        (levelsFrom hashPair level).getLast?.getD 0 := by
  induction level using levelsFrom.induct hashPair generalizing lower position with
  | case1 level several ih =>
    have length : (nextLevel hashPair level).length = (level.length + 1) / 2 :=
      length_nextLevel level
    have above : position / 2 < (nextLevel hashPair level).length := by omega
    have parent := @getElem?_parent hashPair level position inside
    rw [List.getElem?_eq_getElem above, Option.some_inj] at parent
    obtain ⟨branch, collected, folded⟩ := ih (lower ++ level) above
    have sibling : nodeAt (lower ++ levelsFrom hashPair level)
        (lower.length + siblingAt position level.length) =
          some (level.get ⟨siblingAt position level.length, siblingAt_lt inside⟩) := by
      have small := siblingAt_lt inside
      have index : ((lower.length : Int) + siblingAt position level.length).toNat =
          lower.length + siblingAt position level.length := by omega
      rw [nodeAt, if_pos (by omega), index, levelsFrom, if_pos several,
        List.getElem?_append_right (Nat.le_add_right _ _), Nat.add_sub_cancel_left,
        List.getElem?_append_left small, List.getElem?_eq_getElem small]
      rfl
    refine ⟨level.get ⟨siblingAt position level.length, siblingAt_lt inside⟩ :: branch, ?_, ?_⟩
    · rw [collectBranch, if_pos several]
      dsimp only
      rw [List.length_append, List.append_assoc, length] at collected
      rw [levelsFrom, if_pos several] at sibling ⊢
      rw [min_flipLowest inside, sibling, shiftRight_one_natCast, Option.bind_eq_bind,
        Option.bind_some, collected]
      rfl
    · rw [foldBranch, shiftRight_one_natCast, ← parent, folded, getLast?_levelsFrom several]
  | case2 level single =>
    refine ⟨[], by rw [collectBranch, if_neg single], ?_⟩
    have only : position = 0 := by omega
    subst only
    rw [foldBranch, levelsFrom, if_neg single, List.getLast?_eq_getElem?]
    have last : level.length - 1 = 0 := by omega
    rw [last, List.getElem?_eq_getElem inside, Option.getD_some]

/-- For every block and every index of a transaction: `BuildMerkleTree` does not read outside of
its array, and the branch of the transaction, whether of a block whose tree is not built yet or
from the array that `BuildMerkleTree` left, leads from the hash of the transaction to the root. -/
theorem checkMerkleBranch_getMerkleBranch
    (hashPair : Uint256 → Uint256 → Uint256)
    (block : CBlock)
    {nIndex : Nat}
    (inside : nIndex < block.vtx.length) :
    ∃ vMerkleTree root mutated vMerkleBranch,
      buildFlatTree hashPair block = some (vMerkleTree, root, mutated) ∧
      block.buildMerkleTree hashPair = (root, mutated) ∧
      getMerkleBranch hashPair block [] nIndex = some vMerkleBranch ∧
      getMerkleBranch hashPair block vMerkleTree nIndex = some vMerkleBranch ∧
      checkMerkleBranch hashPair block.vtx[nIndex].hash vMerkleBranch nIndex = root := by
  have built := @buildFlatTree_eq hashPair block
  have within : nIndex < (block.vtx.map CTransaction.hash).length := by rwa [List.length_map]
  obtain ⟨vMerkleBranch, collected, folded⟩ :=
    @foldBranch_collectBranch hashPair [] (block.vtx.map CTransaction.hash) nIndex within
  obtain ⟨_, root⟩ := @pushLevels_eq hashPair [] (block.vtx.map CTransaction.hash) false
    block.vtx.length (by rw [List.length_map]; omega)
  have leaves : block.vtx.map CTransaction.hash ≠ [] := List.ne_nil_of_length_pos (by omega)
  have some := @levelsFrom_ne_nil hashPair _ leaves
  rw [List.nil_append, List.length_map, List.length_nil] at collected
  refine ⟨_, _, _, vMerkleBranch, built, rfl, ?_, ?_, ?_⟩
  · rw [getMerkleBranch, if_pos rfl, built, Option.map_some, Option.bind_eq_bind, Option.bind_some]
    exact collected
  · rw [getMerkleBranch, if_neg some, Option.bind_eq_bind, Option.bind_some]
    exact collected
  · have notNull : ¬ (nIndex : Int) = -1 := by omega
    rw [List.getElem_map] at folded
    rw [checkMerkleBranch, if_neg notNull, folded, root, buildMerkleTree]

/-- Branches of one length that lead to one hash are the same, from the same start. -/
theorem foldBranch_inj
    {hash hash' : Uint256}
    (injective : Function.Injective2 hashPair)
    (sameLength : branch.length = other.length)
    (same : foldBranch hashPair hash branch nIndex = foldBranch hashPair hash' other nIndex) :
    hash = hash' ∧ branch = other := by
  induction branch generalizing other hash hash' nIndex with
  | nil =>
    obtain rfl := List.length_eq_zero_iff.mp sameLength.symm
    exact ⟨same, rfl⟩
  | cons sibling rest ih =>
    obtain ⟨sibling', rest', rfl⟩ := List.exists_cons_of_length_eq_add_one sameLength.symm
    obtain ⟨paired, rfl⟩ := ih (Nat.succ.inj sameLength) same
    split_ifs at paired
    · obtain ⟨rfl, rfl⟩ := injective paired
      exact ⟨rfl, rfl⟩
    · obtain ⟨rfl, rfl⟩ := injective paired
      exact ⟨rfl, rfl⟩

/-- If pairs have hashes of their own, a branch of the length of the one that `GetMerkleBranch`
returns leads to the root exactly from the hash of the transaction, and if it is that branch. -/
theorem checkMerkleBranch_sound
    (injective : Function.Injective2 hashPair)
    (block : CBlock) (nIndex : Fin block.vtx.length) :
    ∃ own, getMerkleBranch hashPair block [] nIndex.val = some own ∧
      ∀ hash branch, branch.length = own.length →
        (checkMerkleBranch hashPair hash branch nIndex.val = (block.buildMerkleTree hashPair).1 ↔
          hash = (block.vtx.get nIndex).hash ∧ branch = own) := by
  have built := @buildFlatTree_eq hashPair block
  obtain ⟨own, collected, folded⟩ := @foldBranch_collectBranch hashPair []
    (block.vtx.map CTransaction.hash) nIndex (by rw [List.length_map]; exact nIndex.isLt)
  obtain ⟨_, root⟩ := @pushLevels_eq hashPair [] (block.vtx.map CTransaction.hash) false
    block.vtx.length (by rw [List.length_map]; omega)
  rw [List.nil_append, List.length_map, List.length_nil] at collected
  refine ⟨own, ?_, fun hash branch sameLength => ?_⟩
  · rw [getMerkleBranch, if_pos rfl, built, Option.map_some, Option.bind_eq_bind, Option.bind_some]
    exact collected
  · rw [List.getElem_map, root] at folded
    rw [checkMerkleBranch, if_neg (by omega), buildMerkleTree, ← folded]
    constructor
    · exact foldBranch_inj injective sameLength
    · rintro ⟨rfl, rfl⟩
      rfl

/-- A pairing that takes each pair to a number of its own, above zero. -/
def pairedAbove (left right : Uint256) : Uint256 :=
  Nat.pair left right + 1

theorem pairedAbove_injective : Function.Injective2 pairedAbove := by
  intro left otherLeft right otherRight same
  exact Nat.pair_eq_pair.mp (Nat.succ.inj same)

/-- A block of transactions with some hashes. -/
def blockOf (hashes : List Uint256) : CBlock where
  hash := 0
  nVersion := 4
  hashPrevBlock := 0
  hashMerkleRoot := 0
  nTime := 0
  nBits := 0
  nNonce := 0
  nAccumulatorCheckpoint := 0
  vtx := hashes.map fun hash =>
    { hash := hash, nVersion := 1, vin := [], vout := [], nLockTime := 0 }
  vchBlockSig := []

theorem merkle_malleability_detected_repeated :
    ((blockOf [0, 0, 0]).buildMerkleTree pairedAbove).2 = true ∨
      ((blockOf [0, 0, 0, 0]).buildMerkleTree pairedAbove).2 = true := by
  have leaf : ∀ left right, pairedAbove left right ≠ 0 := fun _ _ => Nat.succ_ne_zero _
  apply merkle_malleability_detected pairedAbove_injective
  · simpa [blockOf] using leaf
  · simpa [blockOf] using leaf
  · decide
  · decide
  · intro _
    exact And.intro (by decide) (by decide)

theorem checkMerkleBranch_getMerkleBranch_last :
    ∃ vMerkleTree root mutated vMerkleBranch,
      buildFlatTree pairedAbove (blockOf [1, 2, 3]) = some (vMerkleTree, root, mutated) ∧
      (blockOf [1, 2, 3]).buildMerkleTree pairedAbove = (root, mutated) ∧
      getMerkleBranch pairedAbove (blockOf [1, 2, 3]) [] 2 = some vMerkleBranch ∧
      getMerkleBranch pairedAbove (blockOf [1, 2, 3]) vMerkleTree 2 = some vMerkleBranch ∧
      checkMerkleBranch pairedAbove 3 vMerkleBranch 2 = root :=
  @checkMerkleBranch_getMerkleBranch pairedAbove (blockOf [1, 2, 3]) 2 (by decide)

theorem checkMerkleBranch_sound_last :
    ∃ own, getMerkleBranch pairedAbove (blockOf [1, 2, 3]) [] 2 = some own ∧
      ∀ hash branch, branch.length = own.length →
        (checkMerkleBranch pairedAbove hash branch 2 =
            ((blockOf [1, 2, 3]).buildMerkleTree pairedAbove).1 ↔ hash = 3 ∧ branch = own) :=
  checkMerkleBranch_sound pairedAbove_injective (blockOf [1, 2, 3]) ⟨2, by decide⟩

/-- The block without a transaction and the one whose transaction has the null hash have one
root, and neither is found mutated. -/
theorem null_root_undetected :
    Function.Injective2 pairedAbove ∧
      (∀ left right, pairedAbove left right ≠ 0) ∧
      (blockOf []).buildMerkleTree pairedAbove = (0, false) ∧
      (blockOf [0]).buildMerkleTree pairedAbove = (0, false) ∧
      (blockOf []).vtx.map CTransaction.hash ≠ (blockOf [0]).vtx.map CTransaction.hash := by
  refine ⟨pairedAbove_injective, fun _ _ => Nat.succ_ne_zero _, ?_⟩
  decide

end CBlock

end ColossusCoin
