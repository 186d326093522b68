import ColossusCoin.Pow
import ColossusCoin.Primitives.Block
import ColossusCoin.Validation.CheckTransaction

/-!
# Checks of a block on its own

`CheckBlock` with the header check it makes, stage by stage.  What a node knows
by itself, rather than from the block, is collected in one record: its clock, the
sporks and transaction locks it has received, and how far it has synchronized.
-/

namespace ColossusCoin

def maxBlockSigOpsCurrent : Nat := maxBlockSizeCurrent / 50

def maxBlockSigOpsLegacy : Nat := 1000000 / 50

/-- What a node knows by itself when it checks a block. -/
structure NodeLocal where
  /-- `IsOkToGoFast`. -/
  fOkToGoFast : Bool
  /-- `IsInitialBlockDownload`. -/
  isInitialBlockDownload : Bool
  /-- `GetTime`. -/
  time : Int
  /-- `GetAdjustedTime`. -/
  adjustedTime : Int
  /-- The time of the tip of the active chain. -/
  tipTime : Int
  sporks : SporkValues
  mapLockedInputs : COutPoint → Option Uint256

namespace NodeLocal

/-- The proofs of zerocoin spends are not verified in initial block download or
under a tip more than a day old. -/
def fVerifySignature (node : NodeLocal) : Bool :=
  !node.isInitialBlockDownload && node.time - node.tipTime < 60 * 60 * 24

def isSporkActive (node : NodeLocal) (spork : Spork) : Bool :=
  node.sporks.isActive node.time spork

end NodeLocal

/-- What the checks use of the network and of code outside validation. -/
structure ChainContext where
  params : CChainParams
  lib : ZerocoinLib
  /-- The hash of two nodes of a merkle tree. -/
  hashPair : Uint256 → Uint256 → Uint256

/-- `CheckBlockHeader`: its result, and the state it leaves. -/
def checkBlockHeader (params : CChainParams) (block : CBlockHeader) (fCheckPOW : Bool)
    (checks : CheckState) : Bool × CheckState :=
  if block.hash = params.hashGenesisBlock then (true, checks)
  else if fCheckPOW && !checkProofOfWork params block.hash block.nBits then
    (false, checks.dos 50 rejectInvalid "high-hash")
  else (true, checks)

/-- The first stage of `CheckBlock`: a node that goes fast passes over the failure
of the header check. -/
def checkBlockHeaderStage (context : ChainContext) (node : NodeLocal)
    (block : CBlock) : Stage CheckState := fun checks =>
  match checkBlockHeader context.params block.toCBlockHeader block.isProofOfWork
      checks with
  | (true, checked) => (none, checked)
  | (false, checked) =>
    if node.fOkToGoFast then (none, checked)
    else (some .reject, checked.dosCorrupt 100 rejectInvalid "bad-header")

/-- A coinbase of a proof-of-stake block has one empty output. -/
def coinBaseOutputEmpty (tx : CTransaction) : Bool :=
  match tx.vout with
  | [txout] => txout.isEmpty
  | _ => false

/-- An input of a transaction conflicts with a transaction lock. -/
def conflictsWithLock (node : NodeLocal) (tx : CTransaction) : Bool :=
  !tx.isCoinBase && tx.vin.any fun txin =>
    match node.mapLockedInputs txin.prevout with
    | none => false
    | some locked => locked != tx.hash

/-- Reject the block over a transaction lock, to be reconsidered later. -/
def rejectConflict (node : NodeLocal) (block : CBlock) (checks : CheckState) :
    CheckState :=
  (checks.insertRejectedBlock block.hash node.time).dos 0 rejectInvalid
    "conflicting-tx-ix"

/-- The serials that zerocoin inputs spend, added to those seen before; `none`
for the serials where one of them was seen. -/
def addBlockSerials (lib : ZerocoinLib) :
    List CTxIn → List CBigNum → CheckState →
      (Option Exit × CheckState) × List CBigNum
  | [], serials, checks => ((none, checks), serials)
  | txin :: rest, serials, checks =>
    match lib.txInToZerocoinSpend txin with
    | none => ((some .abort, checks), serials)
    | some spend =>
      if serials.contains spend.coinSerialNumber then
        ((some .reject, checks.dos 100 0 ""), serials)
      else addBlockSerials lib rest (spend.coinSerialNumber :: serials) checks

/-- The loop of `CheckBlock` over the transactions, with the serials spent so
far. -/
def checkTransactions (context : ChainContext) (node : NodeLocal)
    (fZerocoinActive : Bool) : List CTransaction → List CBigNum → Stage CheckState
  | [], _, checks => (none, checks)
  | tx :: rest, vBlockSerials, checks =>
    match checkTransaction context.params context.lib node.fVerifySignature
        fZerocoinActive tx checks with
    | (.accept, checked) =>
      let spends := if tx.isZerocoinSpend then tx.zerocoinSpendInputs else []
      match addBlockSerials context.lib spends vBlockSerials checked with
      | ((some exit, failed), _) => (some exit, failed)
      | ((none, passed), serials) =>
        checkTransactions context node fZerocoinActive rest serials passed
    | (exit, checked) => (some exit, checked)

/-- Zerocoins are active in blocks from version five on. -/
def CBlock.fZerocoinActive (block : CBlock) : Bool :=
  CBlockHeader.version5 ≤ block.nVersion

/-- The stages of `CheckBlock` between the header check and the transactions. -/
def checkBlockTests (context : ChainContext) (node : NodeLocal)
    (fCheckMerkleRoot : Bool) (block : CBlock) : List (Stage CheckState) :=
  [ Stage.rejectIf (fun _ => node.adjustedTime +
        (if block.isProofOfStake then 60 else 7200) < block.nTime)
      (CheckState.dos 0 rejectInvalid "time-too-new"),
    Stage.rejectIf (fun _ => fCheckMerkleRoot &&
        block.hashMerkleRoot != (block.buildMerkleTree context.hashPair).1)
      (CheckState.dosCorrupt 100 rejectInvalid "bad-txnmrklroot"),
    Stage.rejectIf (fun _ => fCheckMerkleRoot &&
        (block.buildMerkleTree context.hashPair).2)
      (CheckState.dosCorrupt 100 rejectInvalid "bad-txns-duplicate"),
    Stage.rejectIf (fun _ => block.vtx.isEmpty ||
        maxBlockSizeCurrent < block.vtx.length ||
        maxBlockSizeCurrent < block.getSerializeSize)
      (CheckState.dos 100 rejectInvalid "bad-blk-length"),
    Stage.rejectIf (fun _ => !(block.vtx.head?.any CTransaction.isCoinBase))
      (CheckState.dos 100 rejectInvalid "bad-cb-missing"),
    Stage.rejectIf (fun _ => block.vtx.tail.any CTransaction.isCoinBase)
      (CheckState.dos 100 rejectInvalid "bad-cb-multiple"),
    Stage.rejectIf (fun _ => block.isProofOfStake &&
        !(block.vtx.head?.any coinBaseOutputEmpty))
      (CheckState.dos 100 0 ""),
    Stage.rejectIf (fun _ => block.isProofOfStake &&
        !((block.vtx.drop 1).head?.any CTransaction.isCoinStake))
      (CheckState.dos 100 0 ""),
    Stage.rejectIf (fun _ => block.isProofOfStake &&
        (block.vtx.drop 2).any CTransaction.isCoinStake)
      (CheckState.dos 100 0 ""),
    Stage.rejectIf (fun _ => node.isSporkActive .swiftTxBlockFiltering &&
        block.vtx.any (conflictsWithLock node))
      (rejectConflict node block) ]

/-- The stages of `CheckBlock` after the header check. -/
def checkBlockStages (context : ChainContext) (node : NodeLocal)
    (fCheckMerkleRoot : Bool) (block : CBlock) : List (Stage CheckState) :=
  checkBlockTests context node fCheckMerkleRoot block ++
  [ checkTransactions context node block.fZerocoinActive block.vtx [],
    Stage.rejectIf (fun _ =>
        (if block.fZerocoinActive then maxBlockSigOpsCurrent else maxBlockSigOpsLegacy) <
          (block.vtx.map CTransaction.getLegacySigOpCount).sum)
      (CheckState.dosCorrupt 100 rejectInvalid "bad-blk-sigops") ]

/-- `CheckBlock`.  Its parameters `fCheckPOW` and `fCheckSig` are not used. -/
def checkBlock (context : ChainContext) (node : NodeLocal) (fCheckMerkleRoot : Bool)
    (block : CBlock) (checks : CheckState) : Exit × CheckState :=
  Stage.run
    (checkBlockHeaderStage context node block ::
      checkBlockStages context node fCheckMerkleRoot block) checks

theorem addBlockSerials_ne_accept
    (lib : ZerocoinLib) (txins : List CTxIn) (serials : List CBigNum)
    (checks : CheckState) :
    (addBlockSerials lib txins serials checks).1.1 ≠ some .accept := by
  induction txins generalizing serials with
  | nil => simp [addBlockSerials]
  | cons txin rest ih =>
    rw [addBlockSerials]
    cases lib.txInToZerocoinSpend txin with
    | none => simp
    | some spend =>
      dsimp only
      split_ifs
      · simp
      · exact ih _

theorem neverAccepts_checkTransactions
    (context : ChainContext) (node : NodeLocal) (fZerocoinActive : Bool)
    (txs : List CTransaction) (serials : List CBigNum) :
    Stage.NeverAccepts (checkTransactions context node fZerocoinActive txs serials) := by
  induction txs generalizing serials with
  | nil =>
    intro checks
    simp [checkTransactions]
  | cons tx rest ih =>
    intro checks
    rw [checkTransactions]
    generalize checkTransaction context.params context.lib node.fVerifySignature
      fZerocoinActive tx checks = outcome
    obtain ⟨exit, checked⟩ := outcome
    cases exit with
    | accept =>
      dsimp only
      cases added : addBlockSerials context.lib
          (if tx.isZerocoinSpend then tx.zerocoinSpendInputs else []) serials
          checked with
      | mk outcome seen =>
        obtain ⟨exit, passed⟩ := outcome
        cases exit with
        | some exit =>
          have never := addBlockSerials_ne_accept context.lib
            (if tx.isZerocoinSpend then tx.zerocoinSpendInputs else []) serials
            checked
          rw [added] at never
          exact never
        | none => exact ih seen passed
    | _ => simp

theorem neverAccepts_checkBlock
    (context : ChainContext) (node : NodeLocal) (fCheckMerkleRoot : Bool) (block : CBlock) :
    ∀ stage ∈ checkBlockHeaderStage context node block ::
      checkBlockStages context node fCheckMerkleRoot block, Stage.NeverAccepts stage := by
  intro stage member
  rcases List.mem_cons.mp member with rfl | inStages
  · intro reached
    unfold checkBlockHeaderStage
    generalize checkBlockHeader context.params block.toCBlockHeader block.isProofOfWork
      reached = outcome
    obtain ⟨passed, next⟩ := outcome
    cases passed with
    | true => simp
    | false =>
      split_ifs <;> simp
  · rcases List.mem_append.mp inStages with inTests | inLast
    · simp only [checkBlockTests, List.mem_cons, List.not_mem_nil, or_false] at inTests
      rcases inTests with rfl | rfl | rfl | rfl | rfl | rfl | rfl | rfl | rfl | rfl
      all_goals exact Stage.neverAccepts_rejectIf _ _
    · simp only [List.mem_cons, List.not_mem_nil, or_false] at inLast
      rcases inLast with rfl | rfl
      · exact neverAccepts_checkTransactions context node block.fZerocoinActive block.vtx []
      · exact Stage.neverAccepts_rejectIf _ _

end ColossusCoin
