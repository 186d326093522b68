import ColossusCoin.Primitives.PaymentScripts
import ColossusCoin.SwiftTx.Locks
import ColossusCoin.Validation.TransactionLookup

/-!
# The collateral of proposals and finalized budgets

`IsBudgetCollateralValid` asks for a confirmed transaction that pays the fee of an object of the
budget.  Before the seventh height the fee goes to an output that names the hash of the object.
From then on it goes to an address, and the transaction is collateral for every object alike.
-/

namespace ColossusCoin

def getBudgetFee (params : CChainParams) (nBudgetBlockStart : Int) : Int :=
  if params.getChainHeight .h7 ≤ nBudgetBlockStart then 25000 * coin else 50 * coin

/-- A proposal or a finalized budget, by what its collateral is checked with: `GetHash` and
`GetBlockStart`. -/
structure BudgetObject where
  hash : Uint256
  nBlockStart : Int
  deriving DecidableEq, Repr

/-- What a node checks a collateral with. -/
structure CollateralEnv where
  lib : PaymentLib
  store : TransactionStore
  mempool : CTxMemPool
  swiftTx : SwiftTxState
  nSwiftTXDepth : Int
  /-- The entries of `mapBlockIndex` that are not null. -/
  mapBlockIndex : Uint256 → Option CBlockIndex
  /-- `chainActive.Contains`. -/
  chainContains : CBlockIndex → Bool
  /-- `chainActive.Height`. -/
  nChainHeight : Int
  /-- `Params().Budget_Fee_Confirmations`. -/
  nBudgetFeeConfirmations : Int

/-- What `strError` says. -/
inductive CollateralError
  /-- "Can't find collateral tx". -/
  | notFound
  /-- "Invalid collateral tx (paid %s, required %s): %s". -/
  | paidTooLittle (nFeePaid nFeeRequired : Int) (hash : Uint256)
  /-- "Invalid Script %s". -/
  | invalidScript (tx : CTransaction)
  /-- "Couldn't find opReturn %s in %s". -/
  | noOpReturn (nExpectedHash : Uint256) (tx : CTransaction)
  /-- "Collateral requires at least %d confirmations - %d confirmations". -/
  | fewConfirmations (nRequired conf : Int)
  deriving DecidableEq, Repr

/-- What `IsBudgetCollateralValid` returns, with its output arguments; no error leaves `strError`
as it was. -/
structure CollateralResult where
  valid : Bool
  strError : Option CollateralError
  nTime : Int
  nConf : Int
  deriving DecidableEq, Repr

/-- `findScript`: `OP_RETURN` and the bytes of the hash. -/
def opReturnScript (nExpectedHash : Uint256) : CScript :=
  Opcode.opReturn :: 0x20 :: ByteReaders.littleEndian 32 nExpectedHash

/-- The loop over the outputs before the seventh height: whether the fee was found, or nothing
for an output with another script. -/
def scanOpReturn (findScript : CScript) (nFeeRequired : Int) : List CTxOut → Bool → Option Bool
  | [], foundOpReturn => some foundOpReturn
  | o :: rest, foundOpReturn =>
    if !o.scriptPubKey.isNormalPaymentScript && !o.scriptPubKey.isUnspendable then none
    else
      scanOpReturn findScript nFeeRequired rest
        (foundOpReturn || (o.scriptPubKey == findScript && nFeeRequired ≤ o.nValue))

/-- What is wrong with the fee that a collateral pays. -/
def feeError (params : CChainParams) (lib : PaymentLib) (txCollateral : CTransaction)
    (object : BudgetObject) : Option CollateralError :=
  if params.getChainHeight .h7 ≤ object.nBlockStart then
    if findPayment lib txCollateral (.address params.txFeeAddress) <
        getBudgetFee params object.nBlockStart then
      some (.paidTooLittle (findPayment lib txCollateral (.address params.txFeeAddress))
        (getBudgetFee params object.nBlockStart) txCollateral.hash)
    else none
  else
    match scanOpReturn (opReturnScript object.hash) (getBudgetFee params object.nBlockStart)
        txCollateral.vout false with
    | none => some (.invalidScript txCollateral)
    | some false => some (.noOpReturn object.hash txCollateral)
    | some true => none

namespace CollateralEnv

def getIXConfirmations (env : CollateralEnv) (nTXHash : Uint256) : Int :=
  match env.swiftTx.mapTxLocks.get? nTXHash with
  | none => 0
  | some lock =>
    if (swiftTxSignaturesRequired : Int) ≤ lock.countSignatures then env.nSwiftTXDepth else 0

/-- The entry of the active chain for the block of a collateral. -/
def collateralBlock (env : CollateralEnv) (nBlockHash : Uint256) : Option CBlockIndex :=
  if nBlockHash = 0 then none
  else
    match env.mapBlockIndex nBlockHash with
    | none => none
    | some pindex => if env.chainContains pindex then some pindex else none

/-- The confirmations of a collateral in a block. -/
def confirmations (env : CollateralEnv) (nTxCollateralHash nBlockHash : Uint256) : Int :=
  match env.collateralBlock nBlockHash with
  | none => env.getIXConfirmations nTxCollateralHash
  | some pindex =>
    env.getIXConfirmations nTxCollateralHash + (env.nChainHeight - pindex.nHeight + 1)

/-- The end of `IsBudgetCollateralValid`: the confirmations and the time. -/
def checkConfirmations (env : CollateralEnv) (nTxCollateralHash nBlockHash : Uint256)
    (nTime : Int) : CollateralResult :=
  if env.nBudgetFeeConfirmations ≤ env.confirmations nTxCollateralHash nBlockHash then
    ⟨true, none, (env.collateralBlock nBlockHash).elim nTime fun pindex => pindex.nTime,
      env.confirmations nTxCollateralHash nBlockHash⟩
  else
    ⟨false, some (.fewConfirmations env.nBudgetFeeConfirmations
        (env.confirmations nTxCollateralHash nBlockHash)),
      (env.collateralBlock nBlockHash).elim nTime fun pindex => pindex.nTime,
      env.confirmations nTxCollateralHash nBlockHash⟩

/-- `IsBudgetCollateralValid`, with what its output arguments hold before. -/
def isBudgetCollateralValid (params : CChainParams) (env : CollateralEnv)
    (nTxCollateralHash : Uint256) (object : BudgetObject) (nTime nConf : Int) :
    CollateralResult :=
  match getTransaction env.store env.mempool nTxCollateralHash true with
  | none => ⟨false, some .notFound, nTime, nConf⟩
  | some (txCollateral, nBlockHash) =>
    if txCollateral.vout.length < 1 then ⟨false, none, nTime, nConf⟩
    else if txCollateral.nLockTime ≠ 0 then ⟨false, none, nTime, nConf⟩
    else
      match feeError params env.lib txCollateral object with
      | some strError => ⟨false, some strError, nTime, nConf⟩
      | none => env.checkConfirmations nTxCollateralHash nBlockHash nTime

/-- An object is accepted with a collateral; new objects start with no time and no
confirmations. -/
def accepts (params : CChainParams) (env : CollateralEnv) (nTxCollateralHash : Uint256)
    (object : BudgetObject) : Bool :=
  (env.isBudgetCollateralValid params nTxCollateralHash object 0 0).valid

theorem accepts_iff
    (params : CChainParams) (env : CollateralEnv) (nTxCollateralHash : Uint256)
    (object : BudgetObject) :
    env.accepts params nTxCollateralHash object = true ↔
      ∃ txCollateral nBlockHash,
        getTransaction env.store env.mempool nTxCollateralHash true =
          some (txCollateral, nBlockHash) ∧
        txCollateral.vout ≠ [] ∧ txCollateral.nLockTime = 0 ∧
        env.nBudgetFeeConfirmations ≤ env.confirmations nTxCollateralHash nBlockHash ∧
        feeError params env.lib txCollateral object = none := by
  unfold accepts isBudgetCollateralValid
  rcases Option.eq_none_or_eq_some
    (getTransaction env.store env.mempool nTxCollateralHash true) with
    absent | ⟨⟨txCollateral, nBlockHash⟩, found⟩
  · simp [absent]
  · rw [found]
    have outputs : txCollateral.vout.length < 1 ↔ txCollateral.vout = [] := by
      rw [Nat.lt_one_iff, List.length_eq_zero_iff]
    rcases Option.eq_none_or_eq_some (feeError params env.lib txCollateral object) with
      paid | ⟨strError, unpaid⟩
    · simp only [outputs, paid, checkConfirmations]
      split_ifs <;> simp_all
    · simp only [outputs, unpaid]
      split_ifs <;> simp_all

/-- A transaction pays the fee of every object from the seventh height on, and is confirmed. -/
def BacksBudget (params : CChainParams) (env : CollateralEnv) (nTxCollateralHash : Uint256) :
    Prop :=
  ∃ txCollateral nBlockHash,
    getTransaction env.store env.mempool nTxCollateralHash true =
      some (txCollateral, nBlockHash) ∧
    txCollateral.vout ≠ [] ∧ txCollateral.nLockTime = 0 ∧
    env.nBudgetFeeConfirmations ≤ env.confirmations nTxCollateralHash nBlockHash ∧
    25000 * coin ≤ findPayment env.lib txCollateral (.address params.txFeeAddress)

theorem accepts_iff_backsBudget
    (later : params.getChainHeight .h7 ≤ object.nBlockStart)
    (env : CollateralEnv) (nTxCollateralHash : Uint256) :
    env.accepts params nTxCollateralHash object = true ↔
      env.BacksBudget params nTxCollateralHash := by
  have paid : ∀ tx, feeError params env.lib tx object = none ↔
      25000 * coin ≤ findPayment env.lib tx (.address params.txFeeAddress) := by
    intro tx
    unfold feeError getBudgetFee
    simp [later]
  rw [accepts_iff]
  simp only [paid, BacksBudget]

theorem mem_of_scanOpReturn
    (found : scanOpReturn findScript nFeeRequired vout foundOpReturn = some true) :
    foundOpReturn = true ∨
      ∃ o ∈ vout, o.scriptPubKey = findScript ∧ nFeeRequired ≤ o.nValue := by
  induction vout generalizing foundOpReturn with
  | nil =>
    left
    exact Option.some_inj.mp found
  | cons o rest ih =>
    unfold scanOpReturn at found
    rw [Option.ite_none_left_eq_some] at found
    rcases ih found.2 with already | ⟨later, member, here⟩
    · rw [Bool.or_eq_true, Bool.and_eq_true, beq_iff_eq, decide_eq_true_iff] at already
      rcases already with already | here
      · exact .inl already
      · exact .inr ⟨o, List.mem_cons_self, here⟩
    · exact .inr ⟨later, List.mem_cons_of_mem _ member, here⟩

/-- A collateral accepted before the seventh height has an output of 50 coins that names the
object. -/
theorem opReturn_of_accepts
    {env : CollateralEnv}
    (earlier : object.nBlockStart < params.getChainHeight .h7)
    (accepted : env.accepts params nTxCollateralHash object = true) :
    ∃ txCollateral nBlockHash,
      getTransaction env.store env.mempool nTxCollateralHash true =
        some (txCollateral, nBlockHash) ∧
      ∃ o ∈ txCollateral.vout, o.scriptPubKey = opReturnScript object.hash ∧
        50 * coin ≤ o.nValue := by
  obtain ⟨txCollateral, nBlockHash, found, _, _, _, paid⟩ :=
    (accepts_iff params env nTxCollateralHash object).mp accepted
  have fee : getBudgetFee params object.nBlockStart = 50 * coin := if_neg (not_le.mpr earlier)
  refine ⟨txCollateral, nBlockHash, found, ?_⟩
  unfold feeError at paid
  rw [if_neg (not_le.mpr earlier), fee] at paid
  have scanned : scanOpReturn (opReturnScript object.hash) (50 * coin) txCollateral.vout false =
      some true := by
    rcases Option.eq_none_or_eq_some
      (scanOpReturn (opReturnScript object.hash) (50 * coin) txCollateral.vout false) with
      refused | ⟨_ | _, scanned⟩
    · rw [refused] at paid
      cases paid
    · rw [scanned] at paid
      cases paid
    · exact scanned
  exact (mem_of_scanOpReturn scanned).resolve_left Bool.false_ne_true

/-- The scripts for different hashes are different. -/
theorem opReturnScript_ne
    (firstBounded : first < 2 ^ 256)
    (secondBounded : second < 2 ^ 256)
    (differ : first ≠ second) :
    opReturnScript first ≠ opReturnScript second := by
  intro same
  have digits : ByteReaders.littleEndian 32 first = ByteReaders.littleEndian 32 second := by
    simpa [opReturnScript] using same
  have width : 2 ^ 256 = 256 ^ 32 := Nat.pow_mul 2 8 32
  rw [width] at firstBounded secondBounded
  have readFirst := ByteReaders.reads_littleEndian firstBounded []
  have readSecond := ByteReaders.reads_littleEndian secondBounded []
  rw [digits, readSecond] at readFirst
  exact differ (Prod.mk.inj (Option.some_inj.mp readFirst)).1.symm

/-- From the seventh height on a collateral is accepted for every two objects or for neither.
Before it, a collateral accepted for objects with different hashes pays the fee of each in an
output of its own. -/
theorem collateral_backs_both
    (params : CChainParams) (env : CollateralEnv) (nTxCollateralHash : Uint256)
    (first second : BudgetObject) :
    (params.getChainHeight .h7 ≤ first.nBlockStart →
      params.getChainHeight .h7 ≤ second.nBlockStart →
        (env.accepts params nTxCollateralHash first = true ↔
          env.accepts params nTxCollateralHash second = true)) ∧
    (first.nBlockStart < params.getChainHeight .h7 →
      second.nBlockStart < params.getChainHeight .h7 →
      first.hash < 2 ^ 256 → second.hash < 2 ^ 256 → first.hash ≠ second.hash →
      env.accepts params nTxCollateralHash first = true →
      env.accepts params nTxCollateralHash second = true →
        ∃ txCollateral nBlockHash,
          getTransaction env.store env.mempool nTxCollateralHash true =
            some (txCollateral, nBlockHash) ∧
          ∃ o ∈ txCollateral.vout, ∃ other ∈ txCollateral.vout,
            o.scriptPubKey ≠ other.scriptPubKey ∧
              50 * coin ≤ o.nValue ∧ 50 * coin ≤ other.nValue) := by
  constructor
  · intro firstLater secondLater
    rw [accepts_iff_backsBudget firstLater, accepts_iff_backsBudget secondLater]
  · intro firstEarlier secondEarlier firstBounded secondBounded differ firstTaken secondTaken
    obtain ⟨tx, nBlockHash, found, o, member, named, pays⟩ :=
      opReturn_of_accepts firstEarlier firstTaken
    obtain ⟨_, _, again, other, otherMember, otherNamed, otherPays⟩ :=
      opReturn_of_accepts secondEarlier secondTaken
    rw [found] at again
    cases again
    refine ⟨tx, nBlockHash, found, o, member, other, otherMember, ?_, pays, otherPays⟩
    rw [named, otherNamed]
    exact opReturnScript_ne firstBounded secondBounded differ

/-- A transaction that pays 25000 coins to a script. -/
def feeTransaction : CTransaction where
  hash := 9
  nVersion := 1
  vin := [⟨⟨3, 0⟩, [], 0xffffffff⟩]
  vout := [{ nValue := 25000 * coin, scriptPubKey := [0x51] }]
  nLockTime := 0

/-- A node of the main network for which that script is the one of the fee address, and which
has the transaction in its active chain, under ten blocks. -/
def feeEnv : CollateralEnv where
  lib :=
    { toAddress := fun script => if script = [0x51] then CChainParams.main.txFeeAddress else ""
      getScriptForDestination := fun _ => [0x51]
      seeSaw := fun _ _ _ => 0 }
  store :=
    { fTxIndex := true
      readTxIndex := fun hash => if hash = 9 then some ⟨7, 0⟩ else none
      readTransaction := fun _ => some (feeTransaction, 7)
      pcoinsTip := ⟨∅, 8, .db ∅ 8⟩
      chainActive := fun _ => none
      readBlockFromDisk := fun _ => none }
  mempool := .empty true
  swiftTx := .empty
  nSwiftTXDepth := 5
  mapBlockIndex hash :=
    if hash = 7 then
      some {
        hash := 7
        nHeight := 549990
        nVersion := 6
        nTime := 0
        nBits := 0
        nAccumulatorCheckpoint := 0
        nStatus := ⟨blockValidTree, false, false, false, false⟩
        nUndoPos := 0
        nMint := 0
        nMoneySupply := 0
        mapZerocoinSupply := fun _ => 0
        vMintDenominationsInBlock := [] }
    else none
  chainContains _ := true
  nChainHeight := 550000
  nBudgetFeeConfirmations := 6

theorem backsBudget_feeEnv : feeEnv.BacksBudget CChainParams.main 9 := by
  refine ⟨feeTransaction, 7, rfl, List.cons_ne_nil _ _, rfl, by decide, ?_⟩
  simp [findPayment, Payee.paidBy, feeEnv, feeTransaction]

/-- Two proposals of the same superblock, and a transaction that is accepted for both. -/
theorem collateral_backs_both_feeEnv :
    feeEnv.accepts CChainParams.main 9 ⟨1, 561600⟩ = true ↔
      feeEnv.accepts CChainParams.main 9 ⟨2, 561600⟩ = true :=
  (collateral_backs_both CChainParams.main feeEnv 9 ⟨1, 561600⟩ ⟨2, 561600⟩).1
    (by decide) (by decide)

/-- One transaction is collateral for a proposal and for a finalized budget with another
hash. -/
theorem one_collateral_for_two_hashes :
    CChainParams.main.getChainHeight .h7 ≤ 561600 ∧
      feeEnv.accepts CChainParams.main 9 ⟨1, 561600⟩ = true ∧
      feeEnv.accepts CChainParams.main 9 ⟨2, 561600⟩ = true := by
  have later : CChainParams.main.getChainHeight .h7 ≤ 561600 := by decide
  exact ⟨later, (accepts_iff_backsBudget later feeEnv 9).mpr backsBudget_feeEnv,
    (accepts_iff_backsBudget later feeEnv 9).mpr backsBudget_feeEnv⟩

end CollateralEnv

end ColossusCoin
