import ColossusCoin.Library.ShiftedRemoval
import ColossusCoin.Primitives.MerkleTree
import ColossusCoin.Wallet.SpentSerials

/-!
# Missing mints

The extended search of `FindMints` and the removal of the mints that it found, which shifts the
vector of missing mints and does not cut it off.  So a mint is missing and found at once, or
missing twice, as soon as the search finds one.
-/

namespace ColossusCoin

open ShiftedRemoval

/-- `BlockToZerocoinMintList` with `fFilterInvalid`: the coins with the hashes of their
transactions, unless one does not decode. -/
def zerocoinMintsOf (params : CChainParams) (fraud : FraudMaps) :
    List CTransaction → Option (List (PublicCoin × Uint256))
  | [] => some []
  | tx :: rest =>
    if !tx.isZerocoinMint || isFilteredMint params fraud true tx then
      zerocoinMintsOf params fraud rest
    else
      match mintsOfOutputs params fraud true tx.hash tx.vout 0 with
      | (_, false) => none
      | (coins, true) =>
        (zerocoinMintsOf params fraud rest).map (coins.map (fun coin => (coin, tx.hash)) ++ ·)

/-- What the extended search reads of the active chain. -/
structure ScannedChain where
  params : CChainParams
  fraud : FraudMaps
  /-- `chainActive.Height()`. -/
  nHeight : Int
  /-- `vMintDenominationsInBlock` of the entry at a height. -/
  vMintDenominationsInBlock : Int → List CoinDenomination
  /-- `ReadBlockFromDisk` of the entry at a height. -/
  readBlockFromDisk : Int → Option CBlock

namespace ScannedChain

/-- The mints of the block at a height, as far as the search looks at them. -/
def mintsAt (chain : ScannedChain) (i : Int) : List (PublicCoin × Uint256) :=
  if (chain.vMintDenominationsInBlock i).isEmpty then []
  else
    match chain.readBlockFromDisk i with
    | none => []
    | some block => (zerocoinMintsOf chain.params chain.fraud block.vtx).getD []

/-- The heights that the search scans: from the start of zerocoins to below the tip. -/
def scannedHeights (chain : ScannedChain) : List Int :=
  (List.range (chain.nHeight - chain.params.zerocoinStartHeight).toNat).map fun i =>
    chain.params.zerocoinStartHeight + i

/-- The missing mints that have the value of a mint in a block, with the data from there. -/
def matching (vMissingMints : List CZerocoinMint) (i : Int) (mint : PublicCoin × Uint256) :
    List CZerocoinMint :=
  (vMissingMints.filter fun mintMissing => mintMissing.value == mint.1.value).map
    fun mintMissing => { mintMissing with nHeight := i, txHash := mint.2 }

/-- The extended search: the missing mints that it finds. -/
def search (chain : ScannedChain) (vMissingMints : List CZerocoinMint) : List CZerocoinMint :=
  chain.scannedHeights.flatMap fun i =>
    (chain.mintsAt i).flatMap (matching vMissingMints i)

end ScannedChain

/-- The inner loop of the removal: `std::remove` once for each mint to update of this value, where
mints are compared by their values. -/
def removeFound (vMintsToUpdate : List CZerocoinMint) (vMissingMints : List CZerocoinMint)
    (mintMissing : CZerocoinMint) : List CZerocoinMint :=
  (vMintsToUpdate.filter fun mintFound => mintMissing.value == mintFound.value).foldl
    (fun current _ => shiftOut (fun mint => mint.value == mintMissing.value) current)
    vMissingMints

/-- The outer loop of the removal at a position. -/
def removeFoundAt (vMintsToUpdate : List CZerocoinMint) (vMissingMints : List CZerocoinMint)
    (i : Nat) : List CZerocoinMint :=
  match vMissingMints[i]? with
  | none => vMissingMints
  | some mintMissing => removeFound vMintsToUpdate vMissingMints mintMissing

/-- The removal, over the positions of a vector that changes under it. -/
def removeAllFound (vMintsToUpdate : List CZerocoinMint) (vMissingMints : List CZerocoinMint) :
    List CZerocoinMint :=
  (List.range vMissingMints.length).foldl (removeFoundAt vMintsToUpdate) vMissingMints

/-- `FindMints`, from empty vectors, as both its callers give it. -/
def findMintsExtended (lookup : ChainLookup) (indexHeight : Uint256 → Option Int)
    (chain : ScannedChain) (vMintsToFind : List CZerocoinMint) (fExtendedSearch : Bool)
    (db : CZerocoinDB) : FoundMints × CZerocoinDB :=
  let first := findMints lookup indexHeight vMintsToFind ⟨[], []⟩ db
  let vMintsToUpdate := first.1.vMintsToUpdate ++
    if fExtendedSearch then chain.search first.1.vMissingMints else []
  ({ vMintsToUpdate := vMintsToUpdate
     vMissingMints := removeAllFound vMintsToUpdate first.1.vMissingMints }, first.2)

section FirstPass

/-- Whether a mint is found depends on its value only, and not on recorded spends. -/
theorem findsMint_congr
    {mint otherMint : CZerocoinMint}
    (mints : db.mints = other.mints)
    (value : mint.value = otherMint.value) :
    findsMint lookup indexHeight db mint = findsMint lookup indexHeight other otherMint := by
  rw [findsMint, findsMint, mints, value]

theorem mints_findMint
    (mint : CZerocoinMint) (found : FoundMints) (db : CZerocoinDB) :
    (findMint lookup indexHeight mint found db).2.mints = db.mints := by
  rw [zerocoinDB_findMint]
  split_ifs with loses
  · rfl
  · rfl

theorem findMint_of_unfound
    {found : FoundMints}
    (unfound : findsMint lookup indexHeight db mint = false) :
    findMint lookup indexHeight mint found db = (found.miss mint, db) := by
  rw [findsMint] at unfound
  rw [findMint]
  rcases Option.eq_none_or_eq_some (db.mints mint.value) with minted | ⟨txHash, minted⟩
  · simp only [minted]
  rcases Option.eq_none_or_eq_some (lookup.getTransaction txHash) with
    placed | ⟨⟨tx, hashBlock⟩, placed⟩
  · simp only [minted, placed]
  have height : indexHeight hashBlock = none := by
    simpa only [minted, placed, Option.any_some, Option.isSome_eq_false_iff,
      Option.isNone_iff_eq_none] using unfound
  simp only [minted, placed, height]

theorem findMint_of_found
    {mint : CZerocoinMint} {found : FoundMints} {db : CZerocoinDB}
    (finds : findsMint lookup indexHeight db mint = true) :
    (findMint lookup indexHeight mint found db).1 = found ∨
      ∃ updated, updated.value = mint.value ∧
        (findMint lookup indexHeight mint found db).1 = found.update updated := by
  rw [findsMint] at finds
  rw [findMint]
  rcases Option.eq_none_or_eq_some (db.mints mint.value) with minted | ⟨txHash, minted⟩
  · simp [minted] at finds
  rcases Option.eq_none_or_eq_some (lookup.getTransaction txHash) with
    placed | ⟨⟨tx, hashBlock⟩, placed⟩
  · simp [minted, placed] at finds
  rcases Option.eq_none_or_eq_some (indexHeight hashBlock) with height | ⟨nHeight, height⟩
  · simp [minted, placed, height] at finds
  simp only [minted, placed, height]
  split_ifs with lost upToDate
  · exact Or.inr ⟨{ mint with isUsed := false }, rfl, rfl⟩
  · exact Or.inl rfl
  · exact Or.inr ⟨{ mint with
      txHash := txHash, nHeight := nHeight
      isUsed := (db.spends mint.serialNumber).getD 0 != 0 }, rfl, rfl⟩

/-- A mint is missing exactly where it is not found, and a mint is marked for an update only
where it is found. -/
theorem findMint_spec
    (mint : CZerocoinMint) (found : FoundMints) (db : CZerocoinDB) :
    (findMint lookup indexHeight mint found db).1.vMissingMints =
        found.vMissingMints ++ [mint].filter (fun mint => !findsMint lookup indexHeight db mint) ∧
      ∀ updated ∈ (findMint lookup indexHeight mint found db).1.vMintsToUpdate,
        updated ∈ found.vMintsToUpdate ∨ findsMint lookup indexHeight db updated = true := by
  cases finds : findsMint lookup indexHeight db mint with
  | false =>
    rw [findMint_of_unfound finds]
    refine And.intro ?_ fun updated member => Or.inl member
    rw [List.filter_cons_of_pos (by simp [finds]), List.filter_nil]
    rfl
  | true =>
    rw [List.filter_cons_of_neg (by simp [finds]), List.filter_nil, List.append_nil]
    rcases @findMint_of_found _ _ _ found _ finds with same | ⟨marked, value, same⟩
    · rw [same]
      exact And.intro rfl fun updated member => Or.inl member
    · rw [same]
      refine And.intro rfl fun updated member => ?_
      refine (List.mem_append.mp member).imp id fun isMarked => ?_
      rw [List.mem_singleton.mp isMarked, findsMint_congr rfl value]
      exact finds

theorem findMints_spec
    (vMintsToFind : List CZerocoinMint) (found : FoundMints) (db : CZerocoinDB) :
    (findMints lookup indexHeight vMintsToFind found db).1.vMissingMints =
        found.vMissingMints ++
          vMintsToFind.filter (fun mint => !findsMint lookup indexHeight db mint) ∧
      ∀ updated ∈ (findMints lookup indexHeight vMintsToFind found db).1.vMintsToUpdate,
        updated ∈ found.vMintsToUpdate ∨ findsMint lookup indexHeight db updated = true := by
  induction vMintsToFind generalizing found db with
  | nil => exact And.intro (List.append_nil _).symm fun updated member => Or.inl member
  | cons mint rest ih =>
    obtain ⟨missing, updates⟩ := @findMint_spec lookup indexHeight mint found db
    obtain ⟨restMissing, restUpdates⟩ := ih
      (findMint lookup indexHeight mint found db).1
      (findMint lookup indexHeight mint found db).2
    have sameFinds : ∀ other, findsMint lookup indexHeight
        (findMint lookup indexHeight mint found db).2 other =
          findsMint lookup indexHeight db other :=
      fun other => findsMint_congr (mints_findMint mint found db) rfl
    simp only [sameFinds] at restMissing restUpdates
    rw [findMints]
    constructor
    · rw [restMissing, missing, List.append_assoc, ← List.filter_append, List.singleton_append]
    · intro updated member
      rcases restUpdates updated member with before | finds
      · exact updates updated before
      · exact Or.inr finds

end FirstPass

section Removal

/-- The removal leaves as many missing mints, out of those there were. -/
theorem removeFound_spec (mintMissing : CZerocoinMint) :
    (removeFound vMintsToUpdate vMissingMints mintMissing).length = vMissingMints.length ∧
      removeFound vMintsToUpdate vMissingMints mintMissing ⊆ vMissingMints := by
  rw [removeFound]
  generalize vMintsToUpdate.filter _ = founds
  induction founds generalizing vMissingMints with
  | nil => exact And.intro rfl (List.Subset.refl _)
  | cons found rest ih =>
    rw [List.foldl_cons]
    obtain ⟨sameLength, within⟩ := @ih
      (shiftOut (fun mint => mint.value == mintMissing.value) vMissingMints)
    exact And.intro (sameLength.trans (length_shiftOut _ _))
      (List.Subset.trans within (shiftOut_subset _ _))

theorem removeAllFound_spec :
    (removeAllFound vMintsToUpdate vMissingMints).length = vMissingMints.length ∧
      removeAllFound vMintsToUpdate vMissingMints ⊆ vMissingMints := by
  rw [removeAllFound]
  generalize List.range vMissingMints.length = positions
  induction positions generalizing vMissingMints with
  | nil => exact And.intro rfl (List.Subset.refl _)
  | cons i rest ih =>
    rw [List.foldl_cons, removeFoundAt]
    cases vMissingMints[i]? with
    | none => exact ih
    | some mintMissing =>
      obtain ⟨sameLength, within⟩ := @removeFound_spec vMintsToUpdate vMissingMints mintMissing
      obtain ⟨sameLengthRest, withinRest⟩ := @ih
        (removeFound vMintsToUpdate vMissingMints mintMissing)
      exact And.intro (sameLengthRest.trans sameLength) (List.Subset.trans withinRest within)

theorem removeAllFound_eq_self
    (apart : ∀ mint ∈ vMissingMints, ∀ updated ∈ vMintsToUpdate, mint.value ≠ updated.value) :
    removeAllFound vMintsToUpdate vMissingMints = vMissingMints := by
  have unchanged : ∀ i, removeFoundAt vMintsToUpdate vMissingMints i = vMissingMints := by
    intro i
    rw [removeFoundAt]
    cases there : vMissingMints[i]? with
    | none => rfl
    | some mintMissing =>
      have none : vMintsToUpdate.filter
          (fun mintFound => mintMissing.value == mintFound.value) = [] := by
        rw [List.filter_eq_nil_iff]
        intro updated member
        simpa using apart mintMissing (List.mem_of_getElem? there) updated member
      simp [removeFound, none]
  rw [removeAllFound]
  induction List.range vMissingMints.length with
  | nil => rfl
  | cons i rest ih => rw [List.foldl_cons, unchanged, ih]

end Removal

/-- A mint that the extended search meets on the chain. -/
def ScannedChain.scannedValues (chain : ScannedChain) (fExtendedSearch : Bool) : List CBigNum :=
  if fExtendedSearch then
    (chain.scannedHeights.flatMap chain.mintsAt).map fun mint => mint.1.value
  else []

/-- No mint is both missing and to be updated, none is missing twice, and none is missing that
the search met.  Mints in neither list are up to date. -/
structure FoundMints.IsPartition (found : FoundMints) (scanned : List CBigNum) : Prop where
  apart : ∀ mint ∈ found.vMissingMints, ∀ updated ∈ found.vMintsToUpdate,
    mint.value ≠ updated.value
  once : (found.vMissingMints.map CZerocoinMint.value).Nodup
  unmet : ∀ mint ∈ found.vMissingMints, mint.value ∉ scanned

variable {lookup : ChainLookup} {indexHeight : Uint256 → Option Int} {chain : ScannedChain}
variable {vMintsToFind : List CZerocoinMint} {fExtendedSearch : Bool} {db : CZerocoinDB}

/-- The mints that the first pass does not find. -/
def unfoundMints (lookup : ChainLookup) (indexHeight : Uint256 → Option Int) (db : CZerocoinDB)
    (vMintsToFind : List CZerocoinMint) : List CZerocoinMint :=
  vMintsToFind.filter fun mint => !findsMint lookup indexHeight db mint

theorem ScannedChain.mem_search
    (member : found ∈ chain.search vMissingMints) :
    found.value ∈ chain.scannedValues true := by
  rw [search] at member
  obtain ⟨i, scanned, member⟩ := List.mem_flatMap.mp member
  obtain ⟨mint, inBlock, member⟩ := List.mem_flatMap.mp member
  obtain ⟨mintMissing, matched, rfl⟩ := List.mem_map.mp member
  rw [scannedValues, if_pos rfl]
  refine List.mem_map.mpr ⟨mint, List.mem_flatMap.mpr ⟨i, scanned, inBlock⟩, ?_⟩
  exact (beq_iff_eq.mp (List.mem_filter.mp matched).2).symm

/-- What is marked for an update was found by the first pass or is met by the search. -/
theorem mem_updates
    (member : updated ∈ (findMintsExtended lookup indexHeight chain vMintsToFind fExtendedSearch
      db).1.vMintsToUpdate) :
    findsMint lookup indexHeight db updated = true ∨
      updated.value ∈ chain.scannedValues fExtendedSearch := by
  obtain ⟨_, updates⟩ := @findMints_spec lookup indexHeight vMintsToFind ⟨[], []⟩ db
  rcases List.mem_append.mp member with first | extended
  · refine Or.inl ((updates updated first).resolve_left List.not_mem_nil)
  · cases fExtendedSearch with
    | false => exact absurd extended List.not_mem_nil
    | true => exact Or.inr (ScannedChain.mem_search extended)

theorem vMissingMints_findMintsExtended :
    (findMintsExtended lookup indexHeight chain vMintsToFind fExtendedSearch db).1.vMissingMints =
      removeAllFound
        (findMintsExtended lookup indexHeight chain vMintsToFind fExtendedSearch
          db).1.vMintsToUpdate
        (unfoundMints lookup indexHeight db vMintsToFind) := by
  obtain ⟨missing, _⟩ := @findMints_spec lookup indexHeight vMintsToFind ⟨[], []⟩ db
  rw [List.nil_append, ← unfoundMints] at missing
  simp only [findMintsExtended, missing]

/-- Each mint has one role exactly where the mints that the first pass does not find are
different and the extended search meets none of them. -/
theorem findMints_isPartition_iff :
    (findMintsExtended lookup indexHeight chain vMintsToFind fExtendedSearch db).1.IsPartition
        (chain.scannedValues fExtendedSearch) ↔
      ((unfoundMints lookup indexHeight db vMintsToFind).map CZerocoinMint.value).Nodup ∧
        ∀ mint ∈ unfoundMints lookup indexHeight db vMintsToFind,
          mint.value ∉ chain.scannedValues fExtendedSearch := by
  have missing := @vMissingMints_findMintsExtended lookup indexHeight chain vMintsToFind
    fExtendedSearch db
  constructor
  · intro partition
    have apart : ∀ mint ∈ unfoundMints lookup indexHeight db vMintsToFind,
        ∀ updated ∈ (findMintsExtended lookup indexHeight chain vMintsToFind fExtendedSearch
          db).1.vMintsToUpdate, mint.value ≠ updated.value := by
      intro mint there updated inUpdates same
      have once := partition.once
      rw [missing] at once
      refine not_nodup_of_lost removeAllFound_spec.1 removeAllFound_spec.2 there ?_ once
      intro left inMissing sameLeft
      rw [← missing] at inMissing
      exact partition.apart left inMissing updated inUpdates (sameLeft.trans same)
    rw [removeAllFound_eq_self apart] at missing
    rw [← missing]
    exact And.intro partition.once partition.unmet
  · rintro ⟨once, unmet⟩
    have apart : ∀ mint ∈ unfoundMints lookup indexHeight db vMintsToFind,
        ∀ updated ∈ (findMintsExtended lookup indexHeight chain vMintsToFind fExtendedSearch
          db).1.vMintsToUpdate, mint.value ≠ updated.value := by
      intro mint there updated inUpdates same
      have unfound := (List.mem_filter.mp there).2
      rcases mem_updates inUpdates with finds | met
      · rw [findsMint_congr rfl same, finds] at unfound
        exact absurd unfound Bool.false_ne_true
      · exact unmet mint there (same ▸ met)
    rw [removeAllFound_eq_self apart] at missing
    rw [← missing] at apart once unmet
    exact ⟨apart, once, unmet⟩

/-- A block with one mint of a coin of value 7. -/
def mintBlock : CBlock :=
  { CBlock.blockOf [] with
    vtx := [
      { hash := 9, nVersion := 1, vin := [], nLockTime := 0
        vout := [{ nValue := 50 * coin, scriptPubKey := [Opcode.zerocoinMint, 0, 0, 0, 0, 0, 7] }] }] }

/-- The chain of the test network with this block where zerocoins start. -/
def mintChain : ScannedChain where
  params := CChainParams.testNet
  fraud := ⟨fun _ => false, fun _ => false⟩
  nHeight := 53001
  vMintDenominationsInBlock _ := [.zqOne]
  readBlockFromDisk _ := some mintBlock

/-- The record of this mint in a wallet. -/
def mintRecord : CZerocoinMint where
  value := 7
  serialNumber := 3
  txHash := 0
  nHeight := 0
  isUsed := false

/-- The search finds the mint, and it is still missing. -/
theorem found_mint_missing :
    (findMintsExtended ⟨fun _ => none, fun _ => none⟩ (fun _ => none) mintChain [mintRecord] true
        CZerocoinDB.empty).1.vMissingMints = [mintRecord] ∧
      mintRecord.value ∈ mintChain.scannedValues true ∧
      ¬(findMintsExtended ⟨fun _ => none, fun _ => none⟩ (fun _ => none) mintChain [mintRecord] true
        CZerocoinDB.empty).1.IsPartition (mintChain.scannedValues true) := by
  have missing : (findMintsExtended ⟨fun _ => none, fun _ => none⟩ (fun _ => none) mintChain
      [mintRecord] true CZerocoinDB.empty).1.vMissingMints = [mintRecord] := by decide
  have met : mintRecord.value ∈ mintChain.scannedValues true := by decide
  refine ⟨missing, met, fun partition => ?_⟩
  exact partition.unmet mintRecord (missing ▸ List.mem_singleton_self mintRecord) met

end ColossusCoin
