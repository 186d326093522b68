import ColossusCoin.Validation.CheckTransaction
import ColossusCoin.Primitives.Block

/-!
# Tracking the zerocoin supply

`UpdateZPIVSupply` counts the mints and spends of a block in its index entry,
starting from the counts of the parent.
-/

namespace ColossusCoin

/-- The outpoints and serials that are banned as fraudulent. -/
structure FraudMaps where
  mapInvalidOutPoints : COutPoint → Bool
  mapInvalidSerials : CBigNum → Bool

def validOutPoint (params : CChainParams) (fraud : FraudMaps) (out : COutPoint)
    (nHeight : Int) : Bool :=
  !(params.nBlockEnforceInvalidUTXO ≤ nHeight && fraud.mapInvalidOutPoints out)

/-- The mints among the outputs of a transaction from an index on, and whether all
of them decode: the list ends at the first that does not. -/
def mintsOfOutputs (params : CChainParams) (fraud : FraudMaps) (fFilterInvalid : Bool)
    (txHash : Uint256) : List CTxOut → Nat → List PublicCoin × Bool
  | [], _ => ([], true)
  | txout :: rest, i =>
    if fFilterInvalid && !validOutPoint params fraud ⟨txHash, i⟩ intMax then ([], true)
    else if txout.scriptPubKey.isZerocoinMint = false then
      mintsOfOutputs params fraud fFilterInvalid txHash rest (i + 1)
    else
      match txOutToPublicCoin txout with
      | none => ([], false)
      | some pubCoin =>
        let others := mintsOfOutputs params fraud fFilterInvalid txHash rest (i + 1)
        (pubCoin :: others.1, others.2)

/-- A transaction whose mints the filter drops. -/
def isFilteredMint (params : CChainParams) (fraud : FraudMaps) (fFilterInvalid : Bool)
    (tx : CTransaction) : Bool :=
  fFilterInvalid && tx.vin.any fun txin => !validOutPoint params fraud txin.prevout intMax

/-- `BlockToZerocoinMintList`, for the list it fills: its callers here do not look
at its result. -/
def blockToZerocoinMintList (params : CChainParams) (fraud : FraudMaps)
    (fFilterInvalid : Bool) : List CTransaction → List PublicCoin
  | [] => []
  | tx :: rest =>
    if !tx.isZerocoinMint || isFilteredMint params fraud fFilterInvalid tx then
      blockToZerocoinMintList params fraud fFilterInvalid rest
    else
      match mintsOfOutputs params fraud fFilterInvalid tx.hash tx.vout 0 with
      | (coins, false) => coins
      | (coins, true) =>
        coins ++ blockToZerocoinMintList params fraud fFilterInvalid rest

/-- The denominations that the inputs of a zerocoin spend redeem, read off
`nSequence`; `none` where the filter has to decode a spend and that throws. -/
def spendDenominations (lib : ZerocoinLib) (fraud : FraudMaps) (fFilterInvalid : Bool) :
    List CTxIn → Option (List CoinDenomination)
  | [] => some []
  | txin :: rest => do
      let others ← spendDenominations lib fraud fFilterInvalid rest
      if txin.scriptSig.isZerocoinSpend = false then return others
      if fFilterInvalid then
        let spend ← lib.txInToZerocoinSpend txin
        if fraud.mapInvalidSerials spend.coinSerialNumber then return others
      return CoinDenomination.ofInt txin.nSequence :: others

/-- `ZerocoinSpendListFromBlock`, `none` where it throws. -/
def zerocoinSpendListFromBlock (lib : ZerocoinLib) (fraud : FraudMaps)
    (fFilterInvalid : Bool) : List CTransaction → Option (List CoinDenomination)
  | [] => some []
  | tx :: rest => do
      let spends ←
        if tx.isZerocoinSpend then spendDenominations lib fraud fFilterInvalid tx.vin
        else some []
      let others ← zerocoinSpendListFromBlock lib fraud fFilterInvalid rest
      return spends ++ others

namespace CBlockIndex

/-- Change the count of a denomination. -/
def addSupply (pindex : CBlockIndex) (denomination : CoinDenomination) (n : Int) :
    CBlockIndex :=
  { pindex with
    mapZerocoinSupply :=
      Function.update pindex.mapZerocoinSupply denomination
        (pindex.mapZerocoinSupply denomination + n) }

/-- Count one mint, and list it among the mints of the block. -/
def addMint (pindex : CBlockIndex) (pubCoin : PublicCoin) : CBlockIndex :=
  { pindex with
    vMintDenominationsInBlock :=
      pindex.vMintDenominationsInBlock ++ [pubCoin.denomination] }.addSupply
    pubCoin.denomination 1

/-- Count the spends.  A denomination outside the map throws, and a count below
zero is an error; the counts changed until then stay. -/
def subtractSpends : List CoinDenomination → CBlockIndex → Exit × CBlockIndex
  | [], pindex => (.accept, pindex)
  | denomination :: rest, pindex =>
    if denomination = .zqError then (.abort, pindex)
    else
      let counted := pindex.addSupply denomination (-1)
      if counted.mapZerocoinSupply denomination < 0 then (.reject, counted)
      else subtractSpends rest counted

/-- Start from the counts of the parent, when its version is above four. -/
def inheritSupply (pindex : CBlockIndex) (pprev : Option CBlockIndex) : CBlockIndex :=
  match pprev with
  | none => pindex
  | some prev =>
    if CBlockHeader.version4 < prev.nVersion then
      { pindex with mapZerocoinSupply := prev.mapZerocoinSupply }
    else pindex

/-- Forget the mints listed for the block. -/
def clearMints (pindex : CBlockIndex) : CBlockIndex :=
  { pindex with vMintDenominationsInBlock := [] }

end CBlockIndex

/-- `UpdateZPIVSupply`, for an entry with its parent. -/
def updateZPIVSupply (params : CChainParams) (lib : ZerocoinLib) (fraud : FraudMaps)
    (block : CBlock) (pprev : Option CBlockIndex) (pindex : CBlockIndex) :
    Exit × CBlockIndex :=
  let fFilterInvalid := decide (params.nBlockRecalculateAccumulators ≤ pindex.nHeight)
  let listMints := blockToZerocoinMintList params fraud fFilterInvalid block.vtx
  match zerocoinSpendListFromBlock lib fraud fFilterInvalid block.vtx with
  | none => (.abort, pindex)
  | some listSpends =>
    let started := (pindex.inheritSupply pprev).clearMints
    if pprev.isNone then (.accept, started)
    else CBlockIndex.subtractSpends listSpends (listMints.foldl .addMint started)

/-- The entries differ in the counts and in the mints listed at most. -/
def SameButSupply (before after : CBlockIndex) : Prop :=
  ∃ supply mints,
    after =
      { before with
        mapZerocoinSupply := supply
        vMintDenominationsInBlock := mints }

theorem SameButSupply.refl (pindex : CBlockIndex) : SameButSupply pindex pindex :=
  ⟨_, _, rfl⟩

theorem SameButSupply.trans
    (left : SameButSupply first second)
    (right : SameButSupply second third) :
    SameButSupply first third := by
  obtain ⟨_, _, rfl⟩ := left
  obtain ⟨supply, mints, rfl⟩ := right
  exact ⟨supply, mints, rfl⟩

theorem sameButSupply_addSupply (pindex : CBlockIndex) (denomination : CoinDenomination)
    (n : Int) : SameButSupply pindex (pindex.addSupply denomination n) :=
  ⟨_, _, rfl⟩

theorem sameButSupply_subtractSpends (spends : List CoinDenomination)
    (pindex : CBlockIndex) :
    SameButSupply pindex (CBlockIndex.subtractSpends spends pindex).2 := by
  induction spends generalizing pindex with
  | nil => exact SameButSupply.refl pindex
  | cons denomination rest ih =>
    have counted := sameButSupply_addSupply pindex denomination (-1)
    rw [CBlockIndex.subtractSpends]
    dsimp only
    split_ifs
    · exact SameButSupply.refl pindex
    · exact counted
    · exact counted.trans (ih _)

theorem sameButSupply_addMints (mints : List PublicCoin) (pindex : CBlockIndex) :
    SameButSupply pindex (mints.foldl CBlockIndex.addMint pindex) := by
  induction mints generalizing pindex with
  | nil => exact SameButSupply.refl pindex
  | cons pubCoin rest ih =>
    have added : SameButSupply pindex (pindex.addMint pubCoin) := ⟨_, _, rfl⟩
    exact added.trans (ih _)

theorem sameButSupply_started (pindex : CBlockIndex) (pprev : Option CBlockIndex) :
    SameButSupply pindex (pindex.inheritSupply pprev).clearMints := by
  unfold CBlockIndex.inheritSupply
  cases pprev with
  | none => exact ⟨_, _, rfl⟩
  | some prev =>
    dsimp only
    split_ifs <;> exact ⟨_, _, rfl⟩

theorem sameButSupply_updateZPIVSupply
    (params : CChainParams) (lib : ZerocoinLib) (fraud : FraudMaps) (block : CBlock)
    (pprev : Option CBlockIndex) (pindex : CBlockIndex) :
    SameButSupply pindex (updateZPIVSupply params lib fraud block pprev pindex).2 := by
  have started := sameButSupply_started pindex pprev
  unfold updateZPIVSupply
  dsimp only
  cases zerocoinSpendListFromBlock lib fraud
      (decide (params.nBlockRecalculateAccumulators ≤ pindex.nHeight)) block.vtx with
  | none => exact SameButSupply.refl pindex
  | some listSpends =>
    split_ifs
    · exact started
    · exact (started.trans (sameButSupply_addMints _ _)).trans (sameButSupply_subtractSpends _ _)

/-- The spends that are counted: all of them, unless one has a denomination outside
the map, or brings a count below zero and is the last. -/
def countedSpends :
    List CoinDenomination → (CoinDenomination → Int) → List CoinDenomination
  | [], _ => []
  | denomination :: rest, supply =>
    if denomination = .zqError then []
    else
      let counted := Function.update supply denomination (supply denomination - 1)
      if counted denomination < 0 then [denomination]
      else denomination :: countedSpends rest counted

@[simp] theorem mapZerocoinSupply_addSupply (pindex : CBlockIndex)
    (changed : CoinDenomination) (n : Int) (denomination : CoinDenomination) :
    (pindex.addSupply changed n).mapZerocoinSupply denomination =
      pindex.mapZerocoinSupply denomination + if denomination = changed then n else 0 := by
  unfold CBlockIndex.addSupply
  by_cases same : denomination = changed
  · subst same
    simp
  · simp [same]

theorem mapZerocoinSupply_addMints (mints : List PublicCoin) (pindex : CBlockIndex)
    (denomination : CoinDenomination) :
    (mints.foldl CBlockIndex.addMint pindex).mapZerocoinSupply denomination =
      pindex.mapZerocoinSupply denomination +
        (mints.map PublicCoin.denomination).count denomination := by
  induction mints generalizing pindex with
  | nil => simp
  | cons pubCoin rest ih =>
    rw [List.foldl_cons, ih, CBlockIndex.addMint,
      mapZerocoinSupply_addSupply, List.map_cons, List.count_cons]
    by_cases same : denomination = pubCoin.denomination
    · subst same
      simp only [if_true, beq_self_eq_true]
      omega
    · simp [same, Ne.symm same]

theorem vMintDenominationsInBlock_addMints
    (mints : List PublicCoin) (pindex : CBlockIndex) :
    (mints.foldl CBlockIndex.addMint pindex).vMintDenominationsInBlock =
      pindex.vMintDenominationsInBlock ++ mints.map PublicCoin.denomination := by
  induction mints generalizing pindex with
  | nil => simp
  | cons pubCoin rest ih =>
    rw [List.foldl_cons, ih]
    simp [CBlockIndex.addMint, CBlockIndex.addSupply]

theorem mapZerocoinSupply_subtractSpends
    (spends : List CoinDenomination) (pindex : CBlockIndex)
    (denomination : CoinDenomination) :
    (CBlockIndex.subtractSpends spends pindex).2.mapZerocoinSupply denomination =
      pindex.mapZerocoinSupply denomination -
        (countedSpends spends pindex.mapZerocoinSupply).count denomination := by
  induction spends generalizing pindex with
  | nil => simp [CBlockIndex.subtractSpends, countedSpends]
  | cons spent rest ih =>
    have map : (pindex.addSupply spent (-1)).mapZerocoinSupply =
        Function.update pindex.mapZerocoinSupply spent (pindex.mapZerocoinSupply spent - 1) := rfl
    rw [CBlockIndex.subtractSpends, countedSpends]
    split_ifs with outside
    · simp
    · dsimp only
      rw [map]
      split_ifs with below
      · simp only [mapZerocoinSupply_addSupply, List.count_singleton]
        by_cases same : denomination = spent
        · subst same
          simp
          omega
        · simp [same, Ne.symm same]
      · rw [ih, map, List.count_cons, ← map, mapZerocoinSupply_addSupply]
        by_cases same : denomination = spent
        · subst same
          simp only [if_true, beq_self_eq_true]
          omega
        · simp [same, Ne.symm same]

theorem vMintDenominationsInBlock_subtractSpends
    (spends : List CoinDenomination) (pindex : CBlockIndex) :
    (CBlockIndex.subtractSpends spends pindex).2.vMintDenominationsInBlock =
      pindex.vMintDenominationsInBlock := by
  induction spends generalizing pindex with
  | nil => rfl
  | cons spent rest ih =>
    rw [CBlockIndex.subtractSpends]
    dsimp only
    split_ifs
    · rfl
    · rfl
    · exact ih _

theorem countedSpends_of_accept
    (accepts : (CBlockIndex.subtractSpends spends pindex).1 = .accept) :
    countedSpends spends pindex.mapZerocoinSupply = spends := by
  induction spends generalizing pindex with
  | nil => rfl
  | cons spent rest ih =>
    rw [CBlockIndex.subtractSpends] at accepts
    rw [countedSpends]
    split_ifs at accepts ⊢ with outside
    have map : (pindex.addSupply spent (-1)).mapZerocoinSupply =
        Function.update pindex.mapZerocoinSupply spent (pindex.mapZerocoinSupply spent - 1) := rfl
    dsimp only at accepts ⊢
    rw [map] at accepts
    split_ifs at accepts ⊢
    have others := ih accepts
    rw [map] at others
    rw [others]

/-- The denominations of the mints that `UpdateZPIVSupply` counts for an entry with
a parent. -/
def listedMints (params : CChainParams) (fraud : FraudMaps) (block : CBlock)
    (pindex : CBlockIndex) : List CoinDenomination :=
  (blockToZerocoinMintList params fraud
    (decide (params.nBlockRecalculateAccumulators ≤ pindex.nHeight)) block.vtx).map
      PublicCoin.denomination

/-- The denominations of the spends that it counts, `none` where it throws. -/
def listedSpends (params : CChainParams) (lib : ZerocoinLib) (fraud : FraudMaps)
    (block : CBlock) (pindex : CBlockIndex) : Option (List CoinDenomination) :=
  zerocoinSpendListFromBlock lib fraud
    (decide (params.nBlockRecalculateAccumulators ≤ pindex.nHeight)) block.vtx

/-- An entry that starts from its parent, with the mints of its block. -/
def withMints (params : CChainParams) (fraud : FraudMaps) (block : CBlock)
    (prev pindex : CBlockIndex) : CBlockIndex :=
  (blockToZerocoinMintList params fraud
    (decide (params.nBlockRecalculateAccumulators ≤ pindex.nHeight)) block.vtx).foldl
      CBlockIndex.addMint (pindex.inheritSupply (some prev)).clearMints

theorem updateZPIVSupply_eq
    (listed : listedSpends params lib fraud block pindex = some spends)
    (prev : CBlockIndex) :
    updateZPIVSupply params lib fraud block (some prev) pindex =
      CBlockIndex.subtractSpends spends (withMints params fraud block prev pindex) := by
  unfold listedSpends at listed
  unfold updateZPIVSupply withMints
  simp [listed]

theorem mapZerocoinSupply_withMints
    (params : CChainParams) (fraud : FraudMaps) (block : CBlock)
    (prev pindex : CBlockIndex) (denomination : CoinDenomination) :
    (withMints params fraud block prev pindex).mapZerocoinSupply denomination =
      (pindex.inheritSupply (some prev)).mapZerocoinSupply denomination +
        (listedMints params fraud block pindex).count denomination :=
  mapZerocoinSupply_addMints _ _ denomination

theorem vMintDenominationsInBlock_withMints
    (params : CChainParams) (fraud : FraudMaps) (block : CBlock)
    (prev pindex : CBlockIndex) :
    (withMints params fraud block prev pindex).vMintDenominationsInBlock =
      listedMints params fraud block pindex := by
  unfold withMints
  rw [vMintDenominationsInBlock_addMints]
  exact List.nil_append _

theorem updateZPIVSupply_of_accept
    (accepted : updateZPIVSupply params lib fraud block (some prev) pindex = (.accept, tracked)) :
    ∃ spends, listedSpends params lib fraud block pindex = some spends ∧
      ∀ denomination, tracked.mapZerocoinSupply denomination =
        (pindex.inheritSupply (some prev)).mapZerocoinSupply denomination +
          (listedMints params fraud block pindex).count denomination -
          spends.count denomination := by
  cases listed : listedSpends params lib fraud block pindex with
  | none =>
    unfold listedSpends at listed
    unfold updateZPIVSupply at accepted
    simp [listed] at accepted
  | some spends =>
    rw [updateZPIVSupply_eq listed prev] at accepted
    refine ⟨spends, rfl, fun denomination => ?_⟩
    have counted := countedSpends_of_accept (congrArg Prod.fst accepted)
    have subtracted := mapZerocoinSupply_subtractSpends spends
      (withMints params fraud block prev pindex) denomination
    rw [accepted, counted, mapZerocoinSupply_withMints] at subtracted
    exact subtracted

end ColossusCoin
