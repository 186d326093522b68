import ColossusCoin.Chain.KernelAgreement
import ColossusCoin.Library.ReachedItems
import ColossusCoin.Mempool.Consistency
import ColossusCoin.Validation.ContextualCheckBlock

/-!
# Positions that come from the network

The proof of stake and the scans for banned addresses read the output that an input names
by its position, and `IsZerocoinSpend` reads the first byte of a script.  The functions are
given here with these reads made explicit: a function has no result where it reads past the
end.  None of them checks a position, so they stay within bounds exactly on inputs that name
outputs that are there.
-/

namespace ColossusCoin

namespace Indexed

/-- `CTransaction::IsZerocoinSpend`. -/
def isZerocoinSpend (tx : CTransaction) : Option Bool :=
  match tx.vin with
  | [] => some false
  | txin :: _ =>
    if txin.prevout.isNull then
        txin.scriptSig[0]?.map fun opcode => opcode == Opcode.zerocoinSpend
    else some false

section Kernel

variable (params : CChainParams) (lib : KernelLib) (node : StakeNode)

/-- `CheckStakeKernelHash` with `fCheck`.  Without it the output is read at the same
place. -/
def checkStakeKernelHash (nBits : Nat) (blockFrom : CBlock) (txPrev : CTransaction)
    (prevout : COutPoint) (nTimeTx : Nat) (hashProofOfStake : Uint256) :
    Option (Bool × Uint256) := do
  let txout ← txPrev.vout[prevout.n]?
  let nTimeBlockFrom := blockFrom.nTime
  if nTimeTx < nTimeBlockFrom then return (false, hashProofOfStake)
  if (nTimeTx : Int) < nTimeBlockFrom + params.getMinStakeAge (node.height + 1) then
    return (false, hashProofOfStake)
  match node.getKernelStakeModifier blockFrom.hash with
  | none => return (false, hashProofOfStake)
  | some nStakeModifier =>
    let hashProof :=
      lib.stakeHash nStakeModifier nTimeBlockFrom prevout.n prevout.hash nTimeTx
    return (stakeTargetHit hashProof txout.nValue (setCompact nBits).1, hashProof)

def checkProofOfStake (block : CBlock) (hashProofOfStake : Uint256) :
    Option (Bool × Uint256) :=
  match block.vtx with
  | _ :: tx :: _ =>
    if !tx.isCoinStake then some (false, hashProofOfStake)
    else
      match tx.vin with
      | [] => some (false, hashProofOfStake)
      | txin :: _ =>
        match getTransaction node.store node.mempool txin.prevout.hash true with
        | none => some (false, hashProofOfStake)
        | some (txPrev, hashBlock) => do
            let txout ← txPrev.vout[txin.prevout.n]?
            if !lib.verifyScript tx 0 txin.scriptSig txout.scriptPubKey then
              return (false, hashProofOfStake)
            match node.mapBlockIndex hashBlock with
            | none => return (false, hashProofOfStake)
            | some pindex =>
              match node.store.readBlockFromDisk pindex.hash with
              | none => return (false, hashProofOfStake)
              | some blockprev =>
                checkStakeKernelHash params lib node block.nBits blockprev txPrev
                  txin.prevout block.nTime hashProofOfStake
  | _ => some (false, hashProofOfStake)

end Kernel

section BanScan

variable (addresses : AddressLib) (lookup : Uint256 → Option CTransaction) (banned : String → Bool)

/-- An input spends an output of a banned address. -/
def spendsBannedOutput (txin : CTxIn) : Option Bool :=
  match lookup txin.prevout.hash with
  | none => some false
  | some txPrev => do
      let txout ← txPrev.vout[txin.prevout.n]?
      return (addresses.extractAddress txout.scriptPubKey).any banned

/-- The scan for banned addresses over inputs. -/
def bannedScan (txins : List CTxIn) : Option Bool :=
  txins.anyM (spendsBannedOutput addresses lookup banned)

end BanScan

section Block

variable (env : ContextualEnv) (ancestors : List CBlockIndex) (block : CBlock)
  (mempool : CTxMemPool)

/-- The ban scan of `ContextualCheckBlock`. -/
def spendsBanned : Option Bool :=
  if env.bans.consensusBanActive then
    bannedScan env.addresses (lookupWithPool env mempool)
      (env.bans.consensusBanned (nextHeight ancestors)) block.scannedInputs
  else some false

def contextualCheckBlock (state : CValidationState) : Option (Exit × CValidationState) := do
  if containsNonFinal env ancestors block then
    return (.reject, state.dos 10 rejectInvalid "bad-txns-nonfinal")
  if ← spendsBanned env ancestors block mempool then
    return (.reject, state.dos 100 rejectInvalid "bad-txns-banned")
  return Stage.finish (checkCoinBaseHeight env ancestors block state)

end Block

section Admission

variable (env : MempoolEnv) (pool : CTxMemPool) (tx : CTransaction)

/-- The stages of `AcceptToMemoryPool` before the ban scan. -/
def stagesBeforeScan : List (Stage AdmissionState) :=
  (admissionStages env pool tx).take 7

/-- The stages of `AcceptToMemoryPool` after the ban scan. -/
def stagesAfterScan : List (Stage AdmissionState) :=
  (admissionStages env pool tx).drop 8

/-- The ban scan of `AcceptToMemoryPool`. -/
def admissionBanned : Option Bool :=
  if env.bans.mempoolBanActive || env.bans.consensusBanActive then
    bannedScan env.addresses (fun hash => (getTransaction env.store pool hash true).map Prod.fst)
      (fun addr =>
        env.bans.mempoolBanned addr || env.bans.consensusBanned env.chainHeight addr) tx.vin
  else some false

/-- The checks of `AcceptToMemoryPool`. -/
def admissionChecks (state : AdmissionState) : Option (Exit × AdmissionState) :=
  match Stage.sequence (stagesBeforeScan env pool tx) state with
  | (some exit, ended) => some (exit, ended)
  | (none, reached) => do
      if ← admissionBanned env pool tx then return (.reject, reached)
      return Stage.run (stagesAfterScan env pool tx) reached

def acceptToMemoryPool (nTime : Int) (checks : CheckState) :
    Option ((Exit × AdmissionState) × CTxMemPool) := do
  let outcome ← admissionChecks env pool tx
    { checks := checks, nValueIn := 0, fMissingInputs := false }
  return (outcome,
    if outcome.1 = .accept then
      pool.addUnchecked tx.hash
        (.ofTx tx (outcome.2.nValueIn - tx.valueOutSum) nTime env.chainHeight)
    else pool)

end Admission

section Conditions

/-- An input that is read names an output that is there. -/
def NamesOutput (lookup : Uint256 → Option CTransaction) (txin : CTxIn) : Prop :=
  ∀ txPrev, lookup txin.prevout.hash = some txPrev → txin.prevout.n < txPrev.vout.length

/-- An input that is read spends an output of a banned address. -/
def SpendsBannedOutput (addresses : AddressLib) (lookup : Uint256 → Option CTransaction)
    (banned : String → Bool) (txin : CTxIn) : Prop :=
  ∃ txPrev txout addr, lookup txin.prevout.hash = some txPrev ∧
    txPrev.vout[txin.prevout.n]? = some txout ∧
      addresses.extractAddress txout.scriptPubKey = some addr ∧ banned addr = true

/-- Every input up to the first that spends an output of a banned address names an output
that is there. -/
def ScanNamesOutputs (addresses : AddressLib) (lookup : Uint256 → Option CTransaction)
    (banned : String → Bool) (txins : List CTxIn) : Prop :=
  ∀ past txin, past ++ [txin] <+: txins →
    (∀ earlier ∈ past, ¬SpendsBannedOutput addresses lookup banned earlier) →
      NamesOutput lookup txin

/-- No stage of `AcceptToMemoryPool` before the ban scan ends it. -/
structure ReachesBanScan (env : MempoolEnv) (pool : CTxMemPool) (tx : CTransaction)
    (checks : CheckState) : Prop where
  open_zerocoins : admissionInMaintenance env tx = false
  checked : (checkTransaction env.connect.context.params env.connect.context.lib
    env.connect.node.fVerifySignature
    (env.connect.context.params.zerocoinStartHeight ≤ env.chainHeight) tx checks).1 = .accept
  loose : tx.isCoinBase = false ∧ tx.isCoinStake = false
  standard : env.requireStandard = true → env.nonstandardReason tx = none
  unknown : pool.contains tx.hash = false
  unlocked : conflictsWithLock env.connect.node tx = false

end Conditions

section Scan

theorem isSome_spendsBannedOutput_iff (txin : CTxIn) :
    (spendsBannedOutput addresses lookup banned txin).isSome = true ↔
      NamesOutput lookup txin := by
  rw [spendsBannedOutput, NamesOutput]
  rcases found : lookup txin.prevout.hash with _ | txPrev
  · simp
  · by_cases there : txin.prevout.n < txPrev.vout.length
    · simp [there]
    · simp [there]

theorem spendsBannedOutput_eq_true_iff (txin : CTxIn) :
    spendsBannedOutput addresses lookup banned txin = some true ↔
      SpendsBannedOutput addresses lookup banned txin := by
  rw [spendsBannedOutput, SpendsBannedOutput]
  rcases found : lookup txin.prevout.hash with _ | txPrev
  · simp
  · rcases output : txPrev.vout[txin.prevout.n]? with _ | txout
    · simp [output]
    · simp [output, Option.any_eq_true]

/-- The scan stays within bounds exactly when the inputs that it comes to name outputs that
are there. -/
theorem isSome_bannedScan_iff (txins : List CTxIn) :
    (bannedScan addresses lookup banned txins).isSome = true ↔
      ScanNamesOutputs addresses lookup banned txins := by
  rw [bannedScan, List.isSome_anyM_iff, ScanNamesOutputs]
  simp [spendsBannedOutput_eq_true_iff, isSome_spendsBannedOutput_iff]

end Scan

/-- The first input is not one of a zerocoin spend whose script is empty. -/
def HasFirstOpcode (tx : CTransaction) : Prop :=
  ∀ txin, tx.vin.head? = some txin → txin.prevout.isNull = true → txin.scriptSig ≠ []

theorem isSome_isZerocoinSpend_iff (tx : CTransaction) :
    (isZerocoinSpend tx).isSome = true ↔ HasFirstOpcode tx := by
  rw [isZerocoinSpend, HasFirstOpcode]
  rcases tx.vin with _ | ⟨txin, rest⟩
  · simp
  · by_cases null : txin.prevout.isNull = true
    · simp [null, List.length_pos_iff]
    · simp [null]

section KernelReads

theorem checkStakeKernelHash_eq
    (there : prevout.n < txPrev.vout.length)
    (nBits : Nat) (blockFrom : CBlock) (nTimeTx : Nat) (hashProofOfStake : Uint256) :
    checkStakeKernelHash params lib node nBits blockFrom txPrev prevout nTimeTx hashProofOfStake =
      some (node.checkStakeKernelHash params lib nBits blockFrom txPrev prevout nTimeTx
        hashProofOfStake) := by
  rw [checkStakeKernelHash, StakeNode.checkStakeKernelHash, List.getElem?_eq_getElem there]
  dsimp
  split_ifs
  · rfl
  · rfl
  · cases node.getKernelStakeModifier blockFrom.hash with
    | none => rfl
    | some nStakeModifier => rfl

theorem isSome_checkStakeKernelHash_iff (nBits : Nat) (blockFrom : CBlock)
    (txPrev : CTransaction) (prevout : COutPoint) (nTimeTx : Nat)
    (hashProofOfStake : Uint256) :
    (checkStakeKernelHash params lib node nBits blockFrom txPrev prevout nTimeTx
      hashProofOfStake).isSome = true ↔ prevout.n < txPrev.vout.length := by
  by_cases there : prevout.n < txPrev.vout.length
  · rw [checkStakeKernelHash_eq there]
    exact iff_of_true rfl there
  · rw [checkStakeKernelHash, List.getElem?_eq_none (Nat.le_of_not_lt there)]
    exact iff_of_false (by simp) there

/-- The input of the kernel, where its transaction is found, names an output that is
there. -/
def KernelNamesOutput (node : StakeNode) (block : CBlock) : Prop :=
  ∀ txin, block.kernelInput = some txin →
    NamesOutput (fun hash => (getTransaction node.store node.mempool hash true).map Prod.fst)
      txin

theorem checkProofOfStake_eq
    {block : CBlock}
    (named : KernelNamesOutput node block)
    (hashProofOfStake : Uint256) :
    checkProofOfStake params lib node block hashProofOfStake =
      some (node.checkProofOfStake params lib block hashProofOfStake) := by
  rw [checkProofOfStake, StakeNode.checkProofOfStake]
  rcases shape : block.vtx with _ | ⟨first, _ | ⟨tx, rest⟩⟩
  · rfl
  · rfl
  · cases stake : tx.isCoinStake with
    | false => simp [stake]
    | true =>
      rcases inputs : tx.vin with _ | ⟨txin, others⟩
      · simp [stake, inputs]
      · rcases found : getTransaction node.store node.mempool txin.prevout.hash true with
          _ | ⟨txPrev, hashBlock⟩
        · simp [stake, inputs, found]
        · have there : txin.prevout.n < txPrev.vout.length :=
            named txin (CBlock.kernelInput_eq shape stake inputs) txPrev
              (congrArg (Option.map Prod.fst) found)
          simp only [stake, inputs, found, List.getElem?_eq_getElem there, Bool.not_true,
            Bool.false_eq_true, if_false, Option.bind_eq_bind, Option.bind_some,
            Option.getD_some]
          split_ifs
          · rfl
          · rcases node.mapBlockIndex hashBlock with _ | pindex
            · rfl
            · rcases read : node.store.readBlockFromDisk pindex.hash with _ | blockprev
              · simp [read]
              · simp [read, checkStakeKernelHash_eq there]

theorem isSome_checkProofOfStake_iff (block : CBlock) (hashProofOfStake : Uint256) :
    (checkProofOfStake params lib node block hashProofOfStake).isSome = true ↔
      KernelNamesOutput node block := by
  constructor
  · intro read txin input txPrev found
    obtain ⟨⟨hashFrom, hashBlock⟩, located, rfl⟩ := Option.map_eq_some_iff.mp found
    by_contra past
    rw [CBlock.kernelInput] at input
    rw [checkProofOfStake] at read
    split at input
    · next first tx rest shape =>
        split_ifs at input with stake
        rw [shape] at read
        rcases inputs : tx.vin with _ | ⟨head, others⟩
        · rw [inputs] at input
          cases input
        · rw [inputs] at input
          cases input
          simp [stake, inputs, located, List.getElem?_eq_none (Nat.le_of_not_lt past)] at read
    · cases input
  · intro named
    rw [checkProofOfStake_eq named]
    rfl

end KernelReads

section BlockReads

/-- The ban scan of a block, where there is one, names outputs that are there. -/
def BlockNamesOutputs (env : ContextualEnv) (ancestors : List CBlockIndex) (block : CBlock)
    (mempool : CTxMemPool) : Prop :=
  containsNonFinal env ancestors block = false → env.bans.consensusBanActive = true →
    ScanNamesOutputs env.addresses (lookupWithPool env mempool)
      (env.bans.consensusBanned (nextHeight ancestors)) block.scannedInputs

theorem isSome_contextualCheckBlock_iff (state : CValidationState) :
    (contextualCheckBlock env ancestors block mempool state).isSome = true ↔
      BlockNamesOutputs env ancestors block mempool := by
  rw [contextualCheckBlock, BlockNamesOutputs]
  cases final : containsNonFinal env ancestors block with
  | true => simp
  | false =>
    rw [spendsBanned]
    cases active : env.bans.consensusBanActive with
    | false => simp
    | true =>
      rw [← isSome_bannedScan_iff]
      rcases bannedScan env.addresses (lookupWithPool env mempool)
        (env.bans.consensusBanned (nextHeight ancestors)) block.scannedInputs with
        _ | _ | _
      · simp
      · simp
      · simp

end BlockReads

section AdmissionReads

variable {env : MempoolEnv} {pool : CTxMemPool}

/-- The ban scan of a transaction, where it is reached, names outputs that are there. -/
def AdmissionNamesOutputs (env : MempoolEnv) (pool : CTxMemPool) (tx : CTransaction)
    (checks : CheckState) : Prop :=
  ReachesBanScan env pool tx checks →
    env.bans.mempoolBanActive = true ∨ env.bans.consensusBanActive = true →
      ScanNamesOutputs env.addresses
        (fun hash => (getTransaction env.store pool hash true).map Prod.fst)
        (fun addr =>
          env.bans.mempoolBanned addr || env.bans.consensusBanned env.chainHeight addr) tx.vin

theorem passes_ite_reject
    {rejected : AdmissionState} :
    (if test then (some Exit.reject, rejected) else rest).1 = none ↔
      test = false ∧ rest.1 = none := by
  cases test <;> simp

/-- The stages between `CheckTransaction` and the ban scan. -/
theorem passes_loose_iff (state : AdmissionState) :
    (Stage.sequence
      [ Stage.rejectIf (fun _ => tx.isCoinBase) (AdmissionState.dos 100 rejectInvalid "coinbase"),
        Stage.rejectIf (fun _ => tx.isCoinStake) (AdmissionState.dos 100 rejectInvalid "coinstake"),
        requireStandardTx env tx,
        Stage.rejectIf (fun _ => pool.contains tx.hash) id,
        Stage.rejectIf (fun _ => conflictsWithLock env.connect.node tx)
          (AdmissionState.dos 0 rejectInvalid "tx-lock-conflict") ] state).1 = none ↔
      (tx.isCoinBase = false ∧ tx.isCoinStake = false) ∧
        (env.requireStandard = true → env.nonstandardReason tx = none) ∧
          pool.contains tx.hash = false ∧ conflictsWithLock env.connect.node tx = false := by
  rw [Stage.sequence_cons_rejectIf, Stage.sequence_cons_rejectIf, Stage.sequence_cons]
  cases coinBase : tx.isCoinBase with
  | true => simp
  | false =>
    cases coinStake : tx.isCoinStake with
    | true => simp
    | false =>
      rw [requireStandardTx]
      cases standard : env.requireStandard with
      | false => simp [Stage.sequence_cons_rejectIf, passes_ite_reject]
      | true =>
        cases reason : env.nonstandardReason tx with
        | some reason => simp
        | none => simp [Stage.sequence_cons_rejectIf, passes_ite_reject]

theorem passes_admissionCheckTransaction_iff (state : AdmissionState) :
    (admissionCheckTransaction env tx state).1 = none ↔
      (checkTransaction env.connect.context.params env.connect.context.lib
        env.connect.node.fVerifySignature
        (env.connect.context.params.zerocoinStartHeight ≤ env.chainHeight) tx
        state.checks).1 = .accept := by
  rw [admissionCheckTransaction, Stage.require_eq]
  exact ite_eq_left_iff.trans (by simp)

theorem passes_stagesBeforeScan_iff (state : AdmissionState) :
    (Stage.sequence (stagesBeforeScan env pool tx) state).1 = none ↔
      ReachesBanScan env pool tx state.checks := by
  rw [stagesBeforeScan, admissionStages]
  simp only [List.take_succ_cons, List.take_zero]
  rw [Stage.sequence_cons_rejectIf, Stage.sequence_cons]
  have checks := @passes_admissionCheckTransaction_iff env tx state
  rcases outcome : admissionCheckTransaction env tx state with ⟨_ | exit, next⟩
  · have accepted := checks.mp (congrArg Prod.fst outcome)
    cases maintenance : admissionInMaintenance env tx with
    | true =>
      refine iff_of_false (by simp) fun reaches => ?_
      exact absurd reaches.open_zerocoins (ne_false_of_eq_true maintenance)
    | false =>
      refine (passes_loose_iff next).trans ?_
      constructor
      · rintro ⟨loose, standard, unknown, unlocked⟩
        exact
          { open_zerocoins := maintenance
            checked := accepted
            loose := loose
            standard := standard
            unknown := unknown
            unlocked := unlocked }
      · intro reaches
        exact And.intro reaches.loose
          (And.intro reaches.standard (And.intro reaches.unknown reaches.unlocked))
  · refine iff_of_false ?_ fun reaches => ?_
    · split_ifs <;> simp
    · have passed := checks.mpr reaches.checked
      rw [outcome] at passed
      cases passed

theorem isSome_acceptToMemoryPool_iff (nTime : Int) (checks : CheckState) :
    (acceptToMemoryPool env pool tx nTime checks).isSome = true ↔
      AdmissionNamesOutputs env pool tx checks := by
  have reached := @passes_stagesBeforeScan_iff env pool tx
    { checks := checks, nValueIn := 0, fMissingInputs := false }
  rw [acceptToMemoryPool, AdmissionNamesOutputs, ← reached, admissionChecks]
  rcases before : Stage.sequence (stagesBeforeScan env pool tx)
    { checks := checks, nValueIn := 0, fMissingInputs := false } with ⟨_ | exit, state⟩
  · rw [← isSome_bannedScan_iff, admissionBanned]
    simp only [forall_const, Bool.or_eq_true]
    by_cases active : env.bans.mempoolBanActive = true ∨ env.bans.consensusBanActive = true
    · rw [if_pos active]
      rcases bannedScan env.addresses
        (fun hash => (getTransaction env.store pool hash true).map Prod.fst)
        (fun addr =>
          env.bans.mempoolBanned addr || env.bans.consensusBanned env.chainHeight addr)
        tx.vin with _ | _ | _
      · simp [active]
      · simp
      · simp
    · simp [active]
  · simp

end AdmissionReads

end Indexed

/-- A call, with what the node goes by, of a function that reads at a position from the
network. -/
inductive IndexedCall where
  | isZerocoinSpend (tx : CTransaction)
  | checkStakeKernelHash (params : CChainParams) (lib : KernelLib) (node : StakeNode)
      (nBits : Nat) (blockFrom : CBlock) (txPrev : CTransaction) (prevout : COutPoint)
      (nTimeTx : Nat) (hashProofOfStake : Uint256)
  | checkProofOfStake (params : CChainParams) (lib : KernelLib) (node : StakeNode)
      (block : CBlock) (hashProofOfStake : Uint256)
  | contextualCheckBlock (env : ContextualEnv) (ancestors : List CBlockIndex)
      (block : CBlock) (mempool : CTxMemPool) (state : CValidationState)
  | acceptToMemoryPool (env : MempoolEnv) (pool : CTxMemPool) (tx : CTransaction)
      (nTime : Int) (checks : CheckState)

namespace IndexedCall

/-- No read of the call is past the end. -/
def inBounds : IndexedCall → Bool
  | .isZerocoinSpend tx => (Indexed.isZerocoinSpend tx).isSome
  | .checkStakeKernelHash params lib node nBits blockFrom txPrev prevout nTimeTx
      hashProofOfStake =>
      (Indexed.checkStakeKernelHash params lib node nBits blockFrom txPrev prevout nTimeTx
        hashProofOfStake).isSome
  | .checkProofOfStake params lib node block hashProofOfStake =>
    (Indexed.checkProofOfStake params lib node block hashProofOfStake).isSome
  | .contextualCheckBlock env ancestors block mempool state =>
    (Indexed.contextualCheckBlock env ancestors block mempool state).isSome
  | .acceptToMemoryPool env pool tx nTime checks =>
    (Indexed.acceptToMemoryPool env pool tx nTime checks).isSome

/-- What is read by the call is there: the outputs that the inputs name, as far as the
function comes to them, and the first byte of the script. -/
def NamesWhatIsThere : IndexedCall → Prop
  | .isZerocoinSpend tx => Indexed.HasFirstOpcode tx
  | .checkStakeKernelHash _ _ _ _ _ txPrev prevout _ _ => prevout.n < txPrev.vout.length
  | .checkProofOfStake _ _ node block _ => Indexed.KernelNamesOutput node block
  | .contextualCheckBlock env ancestors block mempool _ =>
    Indexed.BlockNamesOutputs env ancestors block mempool
  | .acceptToMemoryPool env pool tx _ checks =>
    Indexed.AdmissionNamesOutputs env pool tx checks

/-- **A call stays within bounds exactly on inputs that name what is there: nothing that
the functions check bounds the positions.** -/
theorem inBounds_iff (call : IndexedCall) :
    call.inBounds = true ↔ call.NamesWhatIsThere := by
  cases call with
  | isZerocoinSpend tx => exact Indexed.isSome_isZerocoinSpend_iff tx
  | checkStakeKernelHash params lib node nBits blockFrom txPrev prevout nTimeTx hashProofOfStake =>
    exact Indexed.isSome_checkStakeKernelHash_iff _ _ _ _ _ _
  | checkProofOfStake params lib node block hashProofOfStake =>
    exact Indexed.isSome_checkProofOfStake_iff block hashProofOfStake
  | contextualCheckBlock env ancestors block mempool state =>
    exact Indexed.isSome_contextualCheckBlock_iff state
  | acceptToMemoryPool env pool tx nTime checks =>
    exact Indexed.isSome_acceptToMemoryPool_iff nTime checks

/-- A proof-of-stake block whose kernel names an output past the end of the transaction that
it stakes. -/
def overreachingBlock : CBlock :=
  { stakingBlock with
    vtx := [stakedTx, { stakingTx with vin := [⟨⟨11, 1⟩, [], 0⟩] }] }

/-- A transaction with an empty script where a zerocoin spend has its proof. -/
def scriptlessTx : CTransaction :=
  { stakingTx with vin := [⟨.null, [], 0⟩] }

/-- A transaction that names an output past the end of another one. -/
def overspendingTx : CTransaction :=
  { firstOutputTx 22 with vin := [⟨⟨11, 1⟩, [], sequenceFinal⟩] }

/-- A block with that transaction behind its coinbase. -/
def overspendingBlock : CBlock :=
  { dependentBlock with vtx := dependentBlock.vtx.take 1 ++ [overspendingTx] }

/-- The proof of stake of a block, the ban scan of another one and that of a loose
transaction read past the outputs of a transaction, and the test for a zerocoin spend past
the end of an empty script. -/
theorem reads_past_end :
    inBounds (.checkProofOfStake .main easyKernel leftNode overreachingBlock 0) = false ∧
      inBounds (.contextualCheckBlock unindexedEnv [dependentParent] overspendingBlock
        (.single payingTx) .initial) = false ∧
        inBounds (.acceptToMemoryPool oneCoinEnv (.single payingTx) overspendingTx 0
          bareChecks) = false ∧
          inBounds (.isZerocoinSpend scriptlessTx) = false := by
  decide

end IndexedCall

end ColossusCoin
