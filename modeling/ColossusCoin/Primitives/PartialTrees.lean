import ColossusCoin.Primitives.MerkleBlock
import ColossusCoin.Primitives.MerkleTree

/-!
# Partial merkle trees prove their matches

The walk that extracts consumes what the walk that builds has stored, and comes to the root of
the block with the matched hashes in order.  Whatever the bits and hashes are, a walk that comes
to the root has met only hashes of the block where it reports a match.
-/

namespace ColossusCoin

open ByteReaders PairedLevels

namespace CPartialMerkleTree

variable {hashPair : Uint256 → Uint256 → Uint256} {vTxid : List Uint256} {vMatch : List Bool}
variable {nTransactions height pos : Nat}

theorem calcTreeWidth_eq
    (bounded : nTransactions ≤ maxBlockSizeCurrent / 60)
    (low : height < 32) :
    calcTreeWidth nTransactions height = width nTransactions height := by
  have shift : 2 ^ height ≤ 2 ^ 31 := Nat.pow_le_pow_right (by omega) (by omega)
  have limit : nTransactions ≤ 33333 := bounded
  have small : nTransactions + 2 ^ height - 1 < 2 ^ 32 := by omega
  rw [calcTreeWidth, width, Nat.mod_eq_of_lt small]

theorem heightLoop_spec
    (bounded : nTransactions ≤ maxBlockSizeCurrent / 60)
    (enough : height + fuel = 32)
    (lower : ∀ low < height, 2 ^ low < nTransactions) :
    nTransactions ≤ 2 ^ heightLoop nTransactions fuel height ∧
      ∀ low < heightLoop nTransactions fuel height, 2 ^ low < nTransactions := by
  induction fuel generalizing height with
  | zero =>
    have limit : nTransactions ≤ 33333 := bounded
    have last := lower 31 (by omega)
    omega
  | succ fuel ih =>
    have fits := @width_le_one_iff height nTransactions
    rw [heightLoop, calcTreeWidth_eq bounded (by omega)]
    split_ifs with wide
    · refine ih (by omega) fun low below => ?_
      rcases Nat.lt_succ_iff_lt_or_eq.mp below with below | rfl
      · exact lower low below
      · omega
    · exact And.intro (by omega) lower

theorem le_two_pow_treeHeight
    (bounded : nTransactions ≤ maxBlockSizeCurrent / 60) :
    nTransactions ≤ 2 ^ treeHeight nTransactions :=
  (heightLoop_spec bounded rfl (by simp)).1

theorem two_pow_lt_of_lt_treeHeight
    (bounded : nTransactions ≤ maxBlockSizeCurrent / 60)
    (low : height < treeHeight nTransactions) :
    2 ^ height < nTransactions :=
  (heightLoop_spec bounded rfl (by simp)).2 height low

theorem treeHeight_le
    (bounded : nTransactions ≤ maxBlockSizeCurrent / 60) :
    treeHeight nTransactions ≤ 16 := by
  by_contra high
  have limit : nTransactions ≤ 33333 := bounded
  have := two_pow_lt_of_lt_treeHeight bounded (show 16 < treeHeight nTransactions by omega)
  omega

/-- The right child of a node stands in the tree where it has a leaf below it. -/
theorem right_iff
    (bounded : vTxid.length ≤ maxBlockSizeCurrent / 60)
    (low : height < 32) :
    pos * 2 + 1 < calcTreeWidth vTxid.length height ↔
      (pos * 2 + 1) * 2 ^ height < vTxid.length := by
  rw [calcTreeWidth_eq bounded low, lt_width_iff]

theorem left_within
    (within : pos * 2 ^ (height + 1) < vTxid.length) :
    pos * 2 * 2 ^ height < vTxid.length := by
  rwa [Nat.pow_succ, Nat.mul_comm (2 ^ height), ← Nat.mul_assoc] at within

/-- The hash of a node is the value at its position. -/
theorem getElem?_levelAt
    (bounded : vTxid.length ≤ maxBlockSizeCurrent / 60)
    (low : height ≤ 32)
    (within : pos * 2 ^ height < vTxid.length) :
    (levelAt hashPair vTxid height)[pos]? =
      some (calcHash hashPair vTxid vTxid.length height pos) := by
  induction height generalizing pos with
  | zero =>
    have inList : pos < vTxid.length := by simpa using within
    rw [levelAt_zero, calcHash, List.getD_eq_getElem _ _ inList]
    exact List.getElem?_eq_getElem inList
  | succ height ih =>
    have left := ih (by omega) (left_within within)
    rw [levelAt_succ, getElem?_nextLevel, Nat.mul_comm 2 pos, left, Option.map_some, calcHash]
    by_cases right : pos * 2 + 1 < calcTreeWidth vTxid.length height
    · rw [if_pos right, ih (by omega) ((right_iff bounded (by omega)).mp right), Option.getD_some]
    · have beyond : (levelAt hashPair vTxid height).length ≤ pos * 2 + 1 := by
        rw [length_levelAt, ← calcTreeWidth_eq bounded (by omega)]
        omega
      rw [if_neg right, List.getElem?_eq_none beyond, Option.getD_none]

theorem merkleLoop_of_levelAt
    (top : levelAt hashPair level height = [root])
    (longer : ∀ low < height, 1 < (levelAt hashPair level low).length)
    (enough : height ≤ fuel) :
    (CBlock.merkleLoop hashPair fuel level mutated).1 = root := by
  induction height generalizing level fuel mutated with
  | zero =>
    rw [levelAt_zero] at top
    rw [top]
    cases fuel with
    | zero => rfl
    | succ fuel => rfl
  | succ height ih =>
    have several := longer 0 (by omega)
    match level, fuel with
    | [], _ => simp at several
    | [only], _ => simp at several
    | left :: right :: rest, 0 => omega
    | left :: right :: rest, fuel + 1 =>
      rw [CBlock.merkleLoop_succ]
      refine ih ((levelAt_nextLevel height).trans top) (fun low below => ?_) (by omega)
      rw [levelAt_nextLevel]
      exact longer (low + 1) (by omega)

theorem calcHash_treeHeight
    {block : CBlock}
    (leaves : block.vtx.map CTransaction.hash = vTxid)
    (bounded : vTxid.length ≤ maxBlockSizeCurrent / 60)
    (nonempty : vTxid ≠ []) :
    calcHash hashPair vTxid vTxid.length (treeHeight vTxid.length) 0 =
      (block.buildMerkleTree hashPair).1 := by
  have positive : 0 < vTxid.length := List.length_pos_iff.mpr nonempty
  have low := treeHeight_le bounded
  have one : (levelAt hashPair vTxid (treeHeight vTxid.length)).length ≤ 1 := by
    rw [length_levelAt, width_le_one_iff]
    exact le_two_pow_treeHeight bounded
  have first := @getElem?_levelAt hashPair vTxid (treeHeight vTxid.length) 0 bounded (by omega)
    (by omega)
  have top : levelAt hashPair vTxid (treeHeight vTxid.length) =
      [calcHash hashPair vTxid vTxid.length (treeHeight vTxid.length) 0] := by
    match isTop : levelAt hashPair vTxid (treeHeight vTxid.length) with
    | [] => simp [isTop] at first
    | [only] => simpa [isTop] using first
    | _ :: _ :: _ => simp [isTop] at one
  have longer : ∀ low < treeHeight vTxid.length, 1 < (levelAt hashPair vTxid low).length := by
    intro low below
    rw [length_levelAt, lt_width_iff, Nat.one_mul]
    exact two_pow_lt_of_lt_treeHeight bounded below
  have enough : treeHeight vTxid.length ≤ block.vtx.length := by
    have sameLength : vTxid.length = block.vtx.length := by rw [← leaves, List.length_map]
    rw [← sameLength]
    by_contra higher
    have tooHigh := two_pow_lt_of_lt_treeHeight bounded (Nat.lt_of_not_le higher)
    exact Nat.lt_irrefl _ (tooHigh.trans Nat.lt_two_pow_self)
  rw [CBlock.buildMerkleTree, leaves, merkleLoop_of_levelAt top longer enough]

section Sound

variable {tree : CPartialMerkleTree}

theorem mem_useHash
    {hash : Uint256}
    (member : hash ∈ (tree.useHash isMatched state).2.vMatch) :
    hash ∈ state.vMatch ∨ isMatched = true ∧ hash = (tree.useHash isMatched state).1 := by
  rw [useHash] at member ⊢
  cases stored : tree.vHash[state.nHashUsed]? with
  | none =>
    rw [stored] at member
    exact Or.inl member
  | some first =>
    rw [stored] at member
    cases isMatched with
    | false => exact Or.inl member
    | true => simpa using member

/-- A walk that comes to the hash of a node reports only hashes of the block. -/
theorem mem_of_mem_traverseAndExtract
    {hash : Uint256}
    (injective : Function.Injective2 hashPair)
    (bounded : vTxid.length ≤ maxBlockSizeCurrent / 60)
    (counted : tree.nTransactions = vTxid.length)
    (low : height ≤ 32)
    (within : pos * 2 ^ height < vTxid.length)
    (same : (tree.traverseAndExtract hashPair height pos state).1 =
      calcHash hashPair vTxid vTxid.length height pos)
    (member : hash ∈ (tree.traverseAndExtract hashPair height pos state).2.vMatch) :
    hash ∈ state.vMatch ∨ hash ∈ vTxid := by
  induction height generalizing pos state with
  | zero =>
    rw [traverseAndExtract] at same member
    cases bit : tree.vBits[state.nBitsUsed]? with
    | none =>
      rw [bit] at member
      exact Or.inl member
    | some fParentOfMatch =>
      rw [bit] at same member
      refine (mem_useHash member).imp id fun matched => ?_
      have inList : pos < vTxid.length := by simpa using within
      rw [matched.2, same, calcHash, List.getD_eq_getElem _ _ inList]
      exact List.getElem_mem inList
  | succ height ih =>
    rw [traverseAndExtract] at same member
    match bit : tree.vBits[state.nBitsUsed]? with
    | none =>
      rw [bit] at member
      exact Or.inl member
    | some false =>
      rw [bit] at member
      exact (mem_useHash member).imp id fun matched => absurd matched.1 Bool.false_ne_true
    | some true =>
      rw [bit] at same member
      simp only [calcHash, counted] at same member
      by_cases right : pos * 2 + 1 < calcTreeWidth vTxid.length height
      · simp only [if_pos right] at same member
        obtain ⟨leftSame, rightSame⟩ := injective same
        have rightWithin := (right_iff bounded (by omega)).mp right
        rcases ih (by omega) rightWithin rightSame member with inLeft | inBlock
        · have left := ih (by omega) (left_within within) leftSame inLeft
          exact left
        · exact Or.inr inBlock
      · simp only [if_neg right] at same member
        have left := ih (by omega) (left_within within) (injective same).1 member
        exact left

end Sound

/-! ## The round trip -/

section RoundTrip

/-- The matched hashes below a node, in order. -/
def matchedBelow (vTxid : List Uint256) (vMatch : List Bool) (height pos : Nat) : List Uint256 :=
  ((below (vTxid.zip vMatch) height pos).filter Prod.snd).map Prod.fst

theorem isParentOfMatch_eq
    (sameLength : vMatch.length = vTxid.length) :
    isParentOfMatch vMatch vTxid.length height pos =
      (below (vTxid.zip vMatch) height pos).any Prod.snd := by
  rw [Bool.eq_iff_iff, isParentOfMatch, List.any_eq_true, List.any_eq_true]
  constructor
  · rintro ⟨p, inRange, isMatched⟩
    rw [List.mem_range'_1] at inRange
    have inList : p < vTxid.length := by omega
    have inMatches : p < vMatch.length := by omega
    rw [List.getD_eq_getElem _ _ inMatches] at isMatched
    refine ⟨(vTxid[p], vMatch[p]), mem_below_iff.mpr ⟨p, by omega, by omega, ?_⟩, isMatched⟩
    exact List.getElem?_zip_eq_some.mpr
      (And.intro (List.getElem?_eq_getElem inList) (List.getElem?_eq_getElem inMatches))
  · rintro ⟨⟨hash, flag⟩, member, isMatched⟩
    obtain ⟨p, least, most, there⟩ := mem_below_iff.mp member
    have flagThere := (List.getElem?_zip_eq_some.mp there).2
    have inMatches : p < vMatch.length := (List.getElem?_eq_some_iff.mp flagThere).1
    refine ⟨p, List.mem_range'_1.mpr (by omega), ?_⟩
    rw [List.getD_eq_getElem?_getD, flagThere]
    exact isMatched

theorem matchedBelow_of_not_parent
    (sameLength : vMatch.length = vTxid.length)
    (notParent : isParentOfMatch vMatch vTxid.length height pos = false) :
    matchedBelow vTxid vMatch height pos = [] := by
  rw [isParentOfMatch_eq sameLength, List.any_eq_false] at notParent
  rw [matchedBelow, List.filter_eq_nil_iff.mpr notParent, List.map_nil]

theorem matchedBelow_succ :
    matchedBelow vTxid vMatch (height + 1) pos =
      matchedBelow vTxid vMatch height (pos * 2) ++
        matchedBelow vTxid vMatch height (pos * 2 + 1) := by
  rw [matchedBelow, below_succ, List.filter_append, List.map_append, matchedBelow, matchedBelow]

/-- What a walk does that finds all that it needs. -/
def Extraction.advance (state : Extraction) (bits : List Bool) (hashes found : List Uint256) :
    Extraction where
  nBitsUsed := state.nBitsUsed + bits.length
  nHashUsed := state.nHashUsed + hashes.length
  vMatch := state.vMatch ++ found
  fBad := state.fBad

/-- The bits and hashes that stand for a node: what is stored for it, no more hashes than bits
and than leaves, and enough for the walk that extracts. -/
structure StandsFor (hashPair : Uint256 → Uint256 → Uint256) (vTxid : List Uint256)
    (vMatch : List Bool) (height pos : Nat) (bits : List Bool) (hashes : List Uint256) : Prop where
  built : ∀ tree : CPartialMerkleTree, tree.nTransactions = vTxid.length →
    traverseAndBuild hashPair vTxid vMatch height pos tree =
      { tree with vBits := tree.vBits ++ bits, vHash := tree.vHash ++ hashes }
  fewerThanBits : hashes.length ≤ bits.length
  fewerThanLeaves : hashes.length ≤ (below vTxid height pos).length
  fewBits : bits.length < 2 ^ (height + 1)
  areHashes : ∀ hash ∈ hashes, ∃ low place,
    hash = calcHash hashPair vTxid vTxid.length low place
  extracted : ∀ (tree : CPartialMerkleTree) (state : Extraction),
    tree.nTransactions = vTxid.length →
    bits <+: tree.vBits.drop state.nBitsUsed →
    hashes <+: tree.vHash.drop state.nHashUsed →
      tree.traverseAndExtract hashPair height pos state =
        (calcHash hashPair vTxid vTxid.length height pos,
          state.advance bits hashes (matchedBelow vTxid vMatch height pos))

theorem cons_prefix_drop
    {rest list : List α}
    (stands : first :: rest <+: list.drop used) :
    list[used]? = some first ∧ rest <+: list.drop (used + 1) := by
  obtain ⟨others, whole⟩ := stands
  have head : (list.drop used)[0]? = some first := by rw [← whole]; rfl
  have tail : list.drop (used + 1) = rest ++ others := by
    rw [← List.tail_drop, ← whole]
    rfl
  rw [List.getElem?_drop] at head
  exact And.intro head ⟨others, tail.symm⟩

theorem append_prefix_drop
    {first second list : List α}
    (stands : first ++ second <+: list.drop used) :
    first <+: list.drop used ∧ second <+: list.drop (used + first.length) := by
  obtain ⟨others, whole⟩ := stands
  rw [List.append_assoc] at whole
  refine And.intro ⟨second ++ others, whole⟩ ⟨others, ?_⟩
  rw [← List.drop_drop, ← whole, List.drop_left]

/-- A leaf stands for itself with its hash, and is reported if it is matched. -/
theorem matchedBelow_zero
    (sameLength : vMatch.length = vTxid.length)
    (within : pos < vTxid.length) :
    matchedBelow vTxid vMatch 0 pos =
      if isParentOfMatch vMatch vTxid.length 0 pos then
        [calcHash hashPair vTxid vTxid.length 0 pos]
      else [] := by
  have inMatches : pos < vMatch.length := by omega
  have there : (vTxid.zip vMatch)[pos]? = some (vTxid[pos], vMatch[pos]) :=
    List.getElem?_zip_eq_some.mpr
      (And.intro (List.getElem?_eq_getElem within) (List.getElem?_eq_getElem inMatches))
  have leaf : below (vTxid.zip vMatch) 0 pos = [(vTxid[pos], vMatch[pos])] := by
    rw [below_zero, there, Option.toList_some]
  rw [isParentOfMatch_eq sameLength, matchedBelow, leaf, calcHash, List.getD_eq_getElem _ _ within]
  cases vMatch[pos] with
  | false => rfl
  | true => rfl

theorem standsFor_stored
    (sameLength : vMatch.length = vTxid.length)
    (within : pos * 2 ^ height < vTxid.length)
    (stops : height = 0 ∨ isParentOfMatch vMatch vTxid.length height pos = false) :
    StandsFor hashPair vTxid vMatch height pos
      [isParentOfMatch vMatch vTxid.length height pos]
      [calcHash hashPair vTxid vTxid.length height pos] where
  built := by
    intro tree counted
    cases height with
    | zero => simp only [traverseAndBuild, pushBit, pushHash, counted]
    | succ height =>
      have notParent := stops.resolve_left (Nat.succ_ne_zero height)
      rw [traverseAndBuild, counted, notParent, if_neg Bool.false_ne_true]
      simp only [pushBit, pushHash, counted]
  fewerThanBits := by simp
  fewerThanLeaves := by
    rw [List.length_singleton, Nat.one_le_iff_ne_zero, Ne, List.length_eq_zero_iff,
      below_eq_nil_iff]
    omega
  fewBits := by
    have := Nat.two_pow_pos height
    rw [List.length_singleton, Nat.pow_succ]
    omega
  areHashes := by
    intro hash member
    exact ⟨height, pos, List.mem_singleton.mp member⟩
  extracted := by
    intro tree state counted bits hashes
    obtain ⟨bit, _⟩ := cons_prefix_drop bits
    obtain ⟨stored, _⟩ := cons_prefix_drop hashes
    cases height with
    | zero =>
      have leaf := @matchedBelow_zero hashPair vTxid vMatch pos sameLength (by simpa using within)
      rw [traverseAndExtract, bit]
      simp only [useHash, stored, leaf, Extraction.advance, List.length_singleton]
      split_ifs with isMatched
      · rfl
      · rw [List.append_nil]
    | succ height =>
      have notParent := stops.resolve_left (Nat.succ_ne_zero height)
      rw [matchedBelow_of_not_parent sameLength notParent]
      rw [notParent] at bit ⊢
      rw [traverseAndExtract, bit]
      simp [useHash, stored, Extraction.advance, if_neg Bool.false_ne_true]

section Node

theorem standsFor_both
    (parent : isParentOfMatch vMatch vTxid.length (height + 1) pos = true)
    (wide : pos * 2 + 1 < calcTreeWidth vTxid.length height)
    (left : StandsFor hashPair vTxid vMatch height (pos * 2) leftBits leftHashes)
    (right : StandsFor hashPair vTxid vMatch height (pos * 2 + 1) rightBits rightHashes) :
    StandsFor hashPair vTxid vMatch (height + 1) pos
      (true :: (leftBits ++ rightBits)) (leftHashes ++ rightHashes) where
  built := by
    intro tree counted
    rw [traverseAndBuild, counted, if_pos parent, left.built (tree.pushBit true) counted]
    simp only [counted, pushBit, if_pos wide]
    rw [right.built _ rfl]
    simp
  fewerThanBits := by
    have onLeft := left.fewerThanBits
    have onRight := right.fewerThanBits
    simp only [List.length_append, List.length_cons]
    omega
  fewerThanLeaves := by
    have onLeft := left.fewerThanLeaves
    have onRight := right.fewerThanLeaves
    rw [below_succ, List.length_append, List.length_append]
    omega
  fewBits := by
    have onLeft := left.fewBits
    have onRight := right.fewBits
    rw [List.length_cons, List.length_append, Nat.pow_succ]
    omega
  areHashes := by
    intro hash member
    rcases List.mem_append.mp member with onLeft | onRight
    · exact left.areHashes hash onLeft
    · exact right.areHashes hash onRight
  extracted := by
    intro tree state counted bits hashes
    obtain ⟨bit, bits⟩ := cons_prefix_drop bits
    obtain ⟨bitsLeft, bitsRight⟩ := append_prefix_drop bits
    obtain ⟨hashesLeft, hashesRight⟩ := append_prefix_drop hashes
    rw [traverseAndExtract, bit]
    simp only [counted, if_pos wide]
    have onLeft := left.extracted tree { state with nBitsUsed := state.nBitsUsed + 1 } counted
      bitsLeft hashesLeft
    rw [onLeft, right.extracted tree _ counted bitsRight hashesRight, calcHash, if_pos wide,
      matchedBelow_succ]
    simp only [Extraction.advance, List.length_append, List.length_cons, List.append_assoc]
    congr 2
    · omega
    · omega

/-- A node with a matched leaf and without a right child stands for its left child. -/
theorem standsFor_left
    (bounded : vTxid.length ≤ maxBlockSizeCurrent / 60)
    (low : height < 32)
    (parent : isParentOfMatch vMatch vTxid.length (height + 1) pos = true)
    (narrow : ¬pos * 2 + 1 < calcTreeWidth vTxid.length height)
    (left : StandsFor hashPair vTxid vMatch height (pos * 2) leftBits leftHashes) :
    StandsFor hashPair vTxid vMatch (height + 1) pos (true :: leftBits) leftHashes where
  built := by
    intro tree counted
    rw [traverseAndBuild, counted, if_pos parent, left.built (tree.pushBit true) counted]
    simp only [counted, pushBit, if_neg narrow]
    simp
  fewerThanBits := by
    have onLeft := left.fewerThanBits
    rw [List.length_cons]
    omega
  fewerThanLeaves := by
    have onLeft := left.fewerThanLeaves
    rw [below_succ, List.length_append]
    omega
  fewBits := by
    have onLeft := left.fewBits
    rw [List.length_cons, Nat.pow_succ]
    omega
  areHashes := left.areHashes
  extracted := by
    intro tree state counted bits hashes
    obtain ⟨bit, bits⟩ := cons_prefix_drop bits
    have noRight : matchedBelow vTxid vMatch height (pos * 2 + 1) = [] := by
      rw [right_iff bounded low] at narrow
      have none : below (vTxid.zip vMatch) height (pos * 2 + 1) = [] := by
        rw [below_eq_nil_iff, List.length_zip]
        omega
      rw [matchedBelow, none, List.filter_nil, List.map_nil]
    rw [traverseAndExtract, bit]
    simp only [counted, if_neg narrow]
    have onLeft := left.extracted tree { state with nBitsUsed := state.nBitsUsed + 1 } counted
      bits hashes
    rw [onLeft, calcHash, if_neg narrow, matchedBelow_succ, noRight]
    simp only [Extraction.advance, List.length_cons, List.append_nil]
    congr 2
    omega

end Node

theorem exists_standsFor
    (sameLength : vMatch.length = vTxid.length)
    (bounded : vTxid.length ≤ maxBlockSizeCurrent / 60)
    (low : height ≤ 32)
    (within : pos * 2 ^ height < vTxid.length) :
    ∃ bits hashes, StandsFor hashPair vTxid vMatch height pos bits hashes := by
  induction height generalizing pos with
  | zero => exact ⟨_, _, standsFor_stored sameLength within (Or.inl rfl)⟩
  | succ height ih =>
    cases parent : isParentOfMatch vMatch vTxid.length (height + 1) pos with
    | false => exact ⟨_, _, standsFor_stored sameLength within (Or.inr parent)⟩
    | true =>
      obtain ⟨_, _, left⟩ := ih (by omega) (left_within within)
      by_cases wide : pos * 2 + 1 < calcTreeWidth vTxid.length height
      · obtain ⟨_, _, right⟩ :=
          ih (by omega) ((right_iff bounded (by omega)).mp wide)
        exact ⟨_, _, standsFor_both parent wide left right⟩
      · exact ⟨_, _, standsFor_left bounded (by omega) parent wide left⟩

theorem calcHash_lt
    (txids : ∀ txid ∈ vTxid, txid < 2 ^ 256)
    (hashes : ∀ left right, hashPair left right < 2 ^ 256) :
    calcHash hashPair vTxid nTransactions height pos < 2 ^ 256 := by
  cases height with
  | zero =>
    rw [calcHash, List.getD_eq_getElem?_getD]
    cases there : vTxid[pos]? with
    | none => simp
    | some txid => exact txids txid (List.mem_of_getElem? there)
  | succ height => exact hashes _ _

/-- The walk over what stands for the topmost node, with the last byte of flags filled up,
consumes it all. -/
theorem extractMatches_of_standsFor
    (bounded : vTxid.length ≤ maxBlockSizeCurrent / 60)
    (nonempty : vTxid ≠ [])
    (sameLength : vMatch.length = vTxid.length)
    (stands : StandsFor hashPair vTxid vMatch (treeHeight vTxid.length) 0 bits stored)
    (filled : bits.length + padding.length = 8 * ((bits.length + 7) / 8)) :
    extractMatches hashPair ⟨vTxid.length, bits ++ padding, stored, false⟩ =
      (calcHash hashPair vTxid vTxid.length (treeHeight vTxid.length) 0,
        ((vTxid.zip vMatch).filter Prod.snd).map Prod.fst) := by
  have positive : 0 < vTxid.length := List.length_pos_iff.mpr nonempty
  have fits := le_two_pow_treeHeight bounded
  have fewHashes := stands.fewerThanLeaves
  have enoughBits := stands.fewerThanBits
  rw [below_top fits] at fewHashes
  have all : below (vTxid.zip vMatch) (treeHeight vTxid.length) 0 = vTxid.zip vMatch := by
    refine below_top ?_
    rw [List.length_zip]
    omega
  have walk := stands.extracted ⟨vTxid.length, bits ++ padding, stored, false⟩
    ⟨0, 0, [], false⟩ rfl (List.prefix_append _ _) List.prefix_rfl
  have used : (0 + bits.length + 7) / 8 = (bits.length + padding.length + 7) / 8 := by omega
  rw [extractMatches]
  simp only [walk, Extraction.advance, matchedBelow, all, List.length_append, used]
  simp only [Nat.zero_add, List.nil_append, ne_eq, not_true_eq_false, if_false, Bool.false_eq_true]
  rw [if_neg (by omega), if_neg (by omega), if_neg (by omega), if_neg (by omega)]

theorem build_round_trip
    {block : CBlock}
    (leaves : block.vtx.map CTransaction.hash = vTxid)
    (nonempty : vTxid ≠ [])
    (bounded : vTxid.length ≤ maxBlockSizeCurrent / 60)
    (sameLength : vMatch.length = vTxid.length)
    (txids : ∀ txid ∈ vTxid, txid < 2 ^ 256)
    (hashes : ∀ left right, hashPair left right < 2 ^ 256) :
    ∃ tree, Reads unserialize (build hashPair vTxid vMatch).serialize tree ∧
      tree.extractMatches hashPair =
        ((block.buildMerkleTree hashPair).1,
          ((vTxid.zip vMatch).filter Prod.snd).map Prod.fst) := by
  have limit : vTxid.length ≤ 33333 := bounded
  have positive : 0 < vTxid.length := List.length_pos_iff.mpr nonempty
  have low := treeHeight_le bounded
  obtain ⟨bits, stored, stands⟩ := @exists_standsFor hashPair vTxid vMatch
    (treeHeight vTxid.length) 0 sameLength bounded (by omega) (by omega)
  have fewHashes := stands.fewerThanLeaves
  rw [below_top (le_two_pow_treeHeight bounded)] at fewHashes
  have fewBits : bits.length < 2 ^ 17 :=
    stands.fewBits.trans_le (Nat.pow_le_pow_right (by omega) (by omega))
  have count : vTxid.length % 2 ^ 32 = vTxid.length := Nat.mod_eq_of_lt (by omega)
  have isBuilt : build hashPair vTxid vMatch = ⟨vTxid.length, bits, stored, false⟩ := by
    rw [build, count, stands.built _ rfl]
    simp
  have size : maxSize = 33554432 := rfl
  have written := @reads_serialize ⟨vTxid.length, bits, stored, false⟩
    (show vTxid.length < 2 ^ 32 by omega)
    (fun hash member => by
      obtain ⟨_, _, rfl⟩ := stands.areHashes hash member
      exact calcHash_lt txids hashes)
    (show stored.length ≤ maxSize by omega)
    (show (bits.length + 7) / 8 ≤ maxSize by omega)
  refine ⟨_, by rw [isBuilt]; exact written, ?_⟩
  rw [← calcHash_treeHeight leaves bounded nonempty]
  refine extractMatches_of_standsFor bounded nonempty sameLength stands ?_
  rw [List.length_replicate]
  omega

end RoundTrip

/-- Only the walk yields a root that is not null. -/
theorem extractMatches_of_ne_null
    {tree : CPartialMerkleTree}
    (notNull : (tree.extractMatches hashPair).1 ≠ 0) :
    tree.nTransactions ≠ 0 ∧ tree.nTransactions ≤ maxBlockSizeCurrent / 60 ∧
      tree.extractMatches hashPair =
        ((tree.traverseAndExtract hashPair (treeHeight tree.nTransactions) 0
            ⟨0, 0, [], tree.fBad⟩).1,
          (tree.traverseAndExtract hashPair (treeHeight tree.nTransactions) 0
            ⟨0, 0, [], tree.fBad⟩).2.vMatch) := by
  rw [extractMatches] at notNull ⊢
  by_cases empty : tree.nTransactions = 0
  · simp [empty] at notNull
  by_cases tooMany : maxBlockSizeCurrent / 60 < tree.nTransactions
  · simp [empty, tooMany] at notNull
  refine ⟨empty, Nat.le_of_not_lt tooMany, ?_⟩
  simp only [if_neg empty, if_neg tooMany] at notNull ⊢
  split_ifs at notNull ⊢ with manyHashes fewBits bad bitsLeft hashesLeft
  all_goals first | rfl | exact absurd rfl notNull

/-- A tree that yields the root of a block with as many transactions, which is not null, reports
only transactions of the block. -/
theorem mem_of_mem_extractMatches
    {tree : CPartialMerkleTree} {block : CBlock} {hash : Uint256}
    (injective : Function.Injective2 hashPair)
    (counted : tree.nTransactions = block.vtx.length)
    (root : (tree.extractMatches hashPair).1 = (block.buildMerkleTree hashPair).1)
    (notNull : (block.buildMerkleTree hashPair).1 ≠ 0)
    (member : hash ∈ (tree.extractMatches hashPair).2) :
    hash ∈ block.vtx.map CTransaction.hash := by
  have leaves : tree.nTransactions = (block.vtx.map CTransaction.hash).length := by
    rw [counted, List.length_map]
  rw [← root] at notNull
  obtain ⟨some, bounded, walk⟩ := extractMatches_of_ne_null notNull
  rw [leaves] at some bounded walk
  have low := treeHeight_le bounded
  have nonempty : block.vtx.map CTransaction.hash ≠ [] := fun none => some (by rw [none]; rfl)
  rw [walk, ← calcHash_treeHeight rfl bounded nonempty] at root
  rw [walk] at member
  have found := mem_of_mem_traverseAndExtract injective bounded leaves (by omega) (by omega) root
    member
  exact found.resolve_left List.not_mem_nil

/-- What is built for a block proves the matched transactions to a reader of the bytes, and what
a reader of any bytes takes for proved is in the block. -/
theorem extractMatches_correct (block : CBlock) :
    (∀ (hashPair : Uint256 → Uint256 → Uint256) (vMatch : List Bool),
      block.vtx ≠ [] →
      block.vtx.length ≤ maxBlockSizeCurrent / 60 →
      vMatch.length = block.vtx.length →
      (∀ tx ∈ block.vtx, tx.hash < 2 ^ 256) →
      (∀ left right, hashPair left right < 2 ^ 256) →
        ∃ tree,
          Reads unserialize
            (build hashPair (block.vtx.map CTransaction.hash) vMatch).serialize tree ∧
          tree.extractMatches hashPair =
            ((block.buildMerkleTree hashPair).1,
              (((block.vtx.map CTransaction.hash).zip vMatch).filter Prod.snd).map Prod.fst)) ∧
    (∀ (hashPair : Uint256 → Uint256 → Uint256) (bytes rest : List UInt8)
        (tree : CPartialMerkleTree),
      Function.Injective2 hashPair →
      unserialize.run bytes = some (tree, rest) →
      tree.nTransactions = block.vtx.length →
      (tree.extractMatches hashPair).1 = (block.buildMerkleTree hashPair).1 →
      (block.buildMerkleTree hashPair).1 ≠ 0 →
        ∀ hash ∈ (tree.extractMatches hashPair).2, hash ∈ block.vtx.map CTransaction.hash) := by
  constructor
  · intro hashPair vMatch nonempty bounded sameLength txids hashes
    refine build_round_trip rfl ?_ (by rwa [List.length_map]) (by rwa [List.length_map]) ?_ hashes
    · rwa [Ne, List.map_eq_nil_iff]
    · intro txid member
      obtain ⟨tx, inBlock, rfl⟩ := List.mem_map.mp member
      exact txids tx inBlock
  · intro hashPair bytes rest tree injective _ counted root notNull hash member
    exact mem_of_mem_extractMatches injective counted root notNull member

/-- The hash of a pair within 256 bits, for a block of two transactions. -/
def pairedWithin (left right : Uint256) : Uint256 :=
  (left + 2 * right) % 2 ^ 256

/-- The bytes that prove the second of two transactions. -/
def secondOfTwo : List UInt8 :=
  (build CBlock.pairedAbove [3, 5] [false, true]).serialize

theorem extractMatches_correct_two :
    (∃ tree,
      Reads unserialize (build pairedWithin [3, 5] [false, true]).serialize tree ∧
      tree.extractMatches pairedWithin = (13, [5])) ∧
    (∀ hash ∈ (CPartialMerkleTree.mk 2 [true, false, true, false, false, false, false, false]
        [3, 5] false |>.extractMatches CBlock.pairedAbove).2, hash ∈ [3, 5]) := by
  constructor
  · exact (extractMatches_correct (CBlock.blockOf [3, 5])).1 pairedWithin [false, true]
      (by decide) (by decide) rfl (by decide) (fun _ _ => Nat.mod_lt _ (by decide))
  · exact (extractMatches_correct (CBlock.blockOf [3, 5])).2 CBlock.pairedAbove secondOfTwo []
      _ CBlock.pairedAbove_injective rfl rfl (by decide) (by decide)

/-- A block of one transaction, whose hash is null, has the root that stands for failure: bytes
with too many bits are refused, and report a transaction that is not in the block. -/
theorem failure_reports_null_root :
    Function.Injective2 CBlock.pairedAbove ∧
      ∃ (bytes : List UInt8) (tree : CPartialMerkleTree),
        unserialize.run bytes = some (tree, []) ∧
          tree.nTransactions = (CBlock.blockOf [0]).vtx.length ∧
          (tree.extractMatches CBlock.pairedAbove).1 =
            ((CBlock.blockOf [0]).buildMerkleTree CBlock.pairedAbove).1 ∧
          5 ∈ (tree.extractMatches CBlock.pairedAbove).2 ∧
          5 ∉ (CBlock.blockOf [0]).vtx.map CTransaction.hash := by
  refine ⟨CBlock.pairedAbove_injective,
    [1, 0, 0, 0] ++ ([1] ++ littleEndian 32 5 ++ [2, 1, 0]),
    ⟨1, true :: List.replicate 15 false, [5], false⟩, rfl, rfl, ?_⟩
  decide

end CPartialMerkleTree

end ColossusCoin
