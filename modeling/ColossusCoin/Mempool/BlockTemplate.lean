import ColossusCoin.Library.System
import ColossusCoin.Zerocoin.Denominations

/-!
# The transactions of a block template

The loop of `CreateNewBlock` that takes transactions of the memory pool off a priority queue.
The coins and the queue, with the transactions that wait for others, may be any.
-/

namespace ColossusCoin
namespace BlockTemplate

/-- What `vecPriority` holds. -/
structure TxPriority where
  dPriority : Nat
  feeRate : Int
  tx : CTransaction

/-- The variables of the loop. -/
structure State (Queue View : Type) where
  vecPriority : Queue
  view : View
  fSortedByFee : Bool
  nBlockSize : Nat
  nBlockTx : Nat
  nBlockSigOps : Nat
  nFees : Int
  vtx : List CTransaction
  vTxFees : List Int
  vTxSigOps : List Nat
  vBlockSerials : List CBigNum
  vTxSerials : List CBigNum

/-- What the loop reads and calls. -/
structure Env (Queue View : Type) where
  nHeight : Int
  /-- `SPORK_23_LIMIT_BLOCK_TX` and `SPORK_24_BLOCK_TX_VALUE`. -/
  spork23 : Int
  spork23val : Int
  /-- `SPORK_21_ENFORCE_MIN_TX_FEE` and `SPORK_22_TX_FEE_VALUE`. -/
  spork21 : Int
  spork21val : Int
  nBlockMaxSize : Nat
  nBlockMinSize : Nat
  nBlockPrioritySize : Nat
  nMaxBlockSigOps : Nat
  minRelayTxFee : Int
  /-- The front of the heap, and the heap without it. -/
  pop : Queue → Option (TxPriority × Queue)
  /-- `make_heap` with the comparison by fee. -/
  sortByFee : Queue → Queue
  /-- The transactions that waited only for the one with this hash are pushed. -/
  release : Uint256 → Queue → Queue
  /-- Whether the deltas of `ApplyDeltas` are not positive. -/
  noDeltas : Uint256 → Bool
  allowFree : Nat → Bool
  getLegacySigOpCount : CTransaction → Nat
  haveInputs : View → CTransaction → Bool
  isTransactionInChain : Uint256 → Bool
  txInToZerocoinSpend : CTxIn → Option CoinSpend
  hasValidSerial : CoinSpend → Bool
  /-- `GetValueIn` less `GetValueOut`. -/
  nTxFees : View → CTransaction → Int
  getP2SHSigOpCount : View → CTransaction → Nat
  checkInputs : View → CTransaction → Bool
  updateCoins : View → CTransaction → View

variable {Queue View : Type} (env : Env Queue View)

/-- The first tests of the transaction at the front: whether it comes to that of its serials. -/
def takeFront (state : State Queue View) : Option (CTransaction × Bool × State Queue View) :=
  if env.spork23 ≤ env.nHeight ∧ env.spork23val ≤ state.nBlockTx then none
  else
    match env.pop state.vecPriority with
    | none => none
    | some (front, vecPriority) =>
      let tx := front.tx
      let nSize := state.nBlockSize + tx.getSerializeSize
      let state := { state with vecPriority := vecPriority }
      if env.nBlockMaxSize ≤ nSize then some (tx, false, state)
      else if env.nMaxBlockSigOps ≤ state.nBlockSigOps + env.getLegacySigOpCount tx then
        some (tx, false, state)
      else if !tx.isZerocoinSpend && state.fSortedByFee && env.noDeltas tx.hash &&
          front.feeRate < env.minRelayTxFee && env.nBlockMinSize ≤ nSize then
        some (tx, false, state)
      else
        let state :=
          if !state.fSortedByFee &&
              (env.nBlockPrioritySize ≤ nSize || !env.allowFree front.dPriority) then
            { state with fSortedByFee := true, vecPriority := env.sortByFee vecPriority }
          else state
        some (tx, env.haveInputs state.view tx &&
          !(tx.isZerocoinSpend && env.isTransactionInChain tx.hash), state)

/-- The loop over the inputs: `fDoubleSerial` and `vTxSerials`; none where an input cannot be
read. -/
def collectSerials (vBlockSerials : List CBigNum) :
    List CTxIn → List CBigNum → Option (Bool × List CBigNum)
  | [], vTxSerials => some (false, vTxSerials)
  | txIn :: vin, vTxSerials =>
    if !txIn.scriptSig.isZerocoinSpend then collectSerials vBlockSerials vin vTxSerials
    else
      match env.txInToZerocoinSpend txIn with
      | none => none
      | some spend =>
        if !env.hasValidSerial spend || vBlockSerials.contains spend.coinSerialNumber ||
            vTxSerials.contains spend.coinSerialNumber then some (true, vTxSerials)
        else collectSerials vBlockSerials vin (vTxSerials ++ [spend.coinSerialNumber])

/-- The last tests, and what is done when a transaction is added. -/
def addTransaction (tx : CTransaction) (state : State Queue View) : State Queue View :=
  let nTxFees := env.nTxFees state.view tx
  let nTxSigOps := env.getLegacySigOpCount tx + env.getP2SHSigOpCount state.view tx
  if !tx.isZerocoinSpend && env.spork21 ≤ env.nHeight && nTxFees < env.spork21val * coin then state
  else if env.nMaxBlockSigOps ≤ state.nBlockSigOps + nTxSigOps then state
  else if !env.checkInputs state.view tx then state
  else
    { state with
      vecPriority := env.release tx.hash state.vecPriority
      view := env.updateCoins state.view tx
      nBlockSize := state.nBlockSize + tx.getSerializeSize
      nBlockTx := state.nBlockTx + 1
      nBlockSigOps := state.nBlockSigOps + nTxSigOps
      nFees := state.nFees + nTxFees
      vtx := state.vtx ++ [tx]
      vTxFees := state.vTxFees ++ [nTxFees]
      vTxSigOps := state.vTxSigOps ++ [nTxSigOps]
      vBlockSerials := state.vBlockSerials ++ state.vTxSerials }

/-- A round of the loop, with the transaction that it takes. -/
def round (state : State Queue View) : Option (CTransaction × State Queue View) :=
  match takeFront env state with
  | none => none
  | some (tx, false, state) => some (tx, state)
  | some (tx, true, state) =>
    if tx.isZerocoinSpend then
      match collectSerials env state.vBlockSerials tx.vin state.vTxSerials with
      | none => none
      | some (true, vTxSerials) => some (tx, { state with vTxSerials := vTxSerials })
      | some (false, vTxSerials) =>
        some (tx, addTransaction env tx { state with vTxSerials := vTxSerials })
    else some (tx, addTransaction env tx state)

/-- The loop, labelled with the transactions that it takes. -/
def selection : LabelledSystem (State Queue View) CTransaction where
  Step state tx next := round env state = some (tx, next)

/-- The start of the loop, behind the transactions that are in the block already. -/
def State.start (vecPriority : Queue) (view : View) (fSortedByFee : Bool)
    (vtx : List CTransaction) : State Queue View :=
  ⟨vecPriority, view, fSortedByFee, 1000, 0, 100, 0, vtx, [], [], [], []⟩

/-- The zerocoins that inputs spend. -/
def spends (vin : List CTxIn) : List CoinSpend :=
  (vin.filter fun txIn => txIn.scriptSig.isZerocoinSpend).filterMap env.txInToZerocoinSpend

/-- A serial is invalid, or repeated in the transaction, or spent in the block. -/
def Conflicts (vtx : List CTransaction) (tx : CTransaction) : Prop :=
  (∃ spend ∈ spends env tx.vin, env.hasValidSerial spend = false) ∨
    ¬((spends env tx.vin).map CoinSpend.coinSerialNumber).Nodup ∨
    ∃ spend ∈ spends env tx.vin, ∃ other ∈ vtx, ∃ earlier ∈ spends env other.vin,
      spend.coinSerialNumber = earlier.coinSerialNumber

/-- The spend that the state comes to is skipped for its serials only if they conflict. -/
def SkipsConflicts (state : State Queue View) : Prop :=
  ∀ tx reached vTxSerials, takeFront env state = some (tx, true, reached) →
    tx.isZerocoinSpend = true →
      collectSerials env reached.vBlockSerials tx.vin reached.vTxSerials = some (true, vTxSerials) →
        Conflicts env reached.vtx tx

/-- `vTxSerials` keeps no serial of the spend that the state comes to, unless its serials
conflict. -/
def KeepsNoSerial (state : State Queue View) : Prop :=
  ∀ tx reached, takeFront env state = some (tx, true, reached) → tx.isZerocoinSpend = true →
    (collectSerials env reached.vBlockSerials tx.vin reached.vTxSerials).isSome →
      ¬ Conflicts env reached.vtx tx →
        ∀ spend ∈ spends env tx.vin, spend.coinSerialNumber ∉ reached.vTxSerials

variable {env} {state next reached : State Queue View} {tx : CTransaction} {vin : List CTxIn}
variable {vBlockSerials vTxSerials collected : List CBigNum}

/-- What the loop collects it adds, and inputs that it goes through are not collected before. -/
theorem collectSerials_false
    (passes : collectSerials env vBlockSerials vin vTxSerials = some (false, collected)) :
    ∀ spend ∈ spends env vin, spend.coinSerialNumber ∉ vTxSerials := by
  induction vin generalizing vTxSerials with
  | nil => exact List.forall_mem_nil _
  | cons txIn vin ih =>
    rw [collectSerials] at passes
    cases zerocoin : txIn.scriptSig.isZerocoinSpend with
    | false =>
      rw [zerocoin] at passes
      simpa [spends, zerocoin] using ih passes
    | true =>
      cases read : env.txInToZerocoinSpend txIn with
      | none => simp [zerocoin, read] at passes
      | some first =>
        simp only [zerocoin, read, Bool.not_true, Bool.false_eq_true, if_false] at passes
        split_ifs at passes with refused
        · cases passes
        · simp only [Bool.or_eq_true, List.contains_iff_mem, not_or] at refused
          intro spend member
          simp only [spends, List.filter_cons, zerocoin, if_true, List.filterMap_cons, read,
            List.mem_cons] at member
          rcases member with rfl | later
          · exact refused.2
          · exact fun old => ih passes spend later (List.mem_append_left _ old)

theorem collectSerials_true
    (refuses : collectSerials env vBlockSerials vin vTxSerials = some (true, collected)) :
    (∃ spend ∈ spends env vin, env.hasValidSerial spend = false) ∨
      ¬((spends env vin).map CoinSpend.coinSerialNumber).Nodup ∨
        ∃ spend ∈ spends env vin,
          spend.coinSerialNumber ∈ vBlockSerials ∨ spend.coinSerialNumber ∈ vTxSerials := by
  induction vin generalizing vTxSerials with
  | nil => cases refuses
  | cons txIn vin ih =>
    rw [collectSerials] at refuses
    cases zerocoin : txIn.scriptSig.isZerocoinSpend with
    | false =>
      rw [zerocoin] at refuses
      simpa [spends, zerocoin] using ih refuses
    | true =>
      cases read : env.txInToZerocoinSpend txIn with
      | none => simp [zerocoin, read] at refuses
      | some first =>
        have all : spends env (txIn :: vin) = first :: spends env vin := by
          simp [spends, zerocoin, read]
        rw [all]
        simp only [zerocoin, read, Bool.not_true, Bool.false_eq_true, if_false] at refuses
        split_ifs at refuses with refused
        · simp only [Bool.or_eq_true, Bool.not_eq_true', List.contains_iff_mem] at refused
          rcases refused with (invalid | inBlock) | old
          · exact .inl ⟨first, List.mem_cons_self .., invalid⟩
          · exact .inr (.inr ⟨first, List.mem_cons_self .., .inl inBlock⟩)
          · exact .inr (.inr ⟨first, List.mem_cons_self .., .inr old⟩)
        · rcases ih refuses with ⟨spend, member, invalid⟩ | repeated |
            ⟨spend, member, known⟩
          · exact .inl ⟨spend, List.mem_cons_of_mem _ member, invalid⟩
          · exact .inr (.inl fun apart => repeated (List.nodup_cons.mp apart).2)
          · rw [List.mem_append, List.mem_singleton] at known
            rcases known with inBlock | old | same
            · exact .inr (.inr ⟨spend, List.mem_cons_of_mem _ member, .inl inBlock⟩)
            · exact .inr (.inr ⟨spend, List.mem_cons_of_mem _ member, .inr old⟩)
            · refine .inr (.inl fun apart => (List.nodup_cons.mp apart).1 ?_)
              exact same ▸ List.mem_map_of_mem member

theorem subset_collectSerials
    (returned : collectSerials env vBlockSerials vin vTxSerials = some (fDoubleSerial, collected)) :
    vTxSerials ⊆ collected := by
  induction vin generalizing vTxSerials with
  | nil =>
    cases returned
    exact List.Subset.refl _
  | cons txIn vin ih =>
    rw [collectSerials] at returned
    split_ifs at returned
    · exact ih returned
    · cases read : env.txInToZerocoinSpend txIn with
      | none => simp [read] at returned
      | some first =>
        simp only [read] at returned
        split_ifs at returned
        · cases returned
          exact List.Subset.refl _
        · exact List.Subset.trans (List.subset_append_left _ _) (ih returned)

theorem serials_takeFront
    (taken : takeFront env state = some (tx, comes, reached)) :
    reached.vBlockSerials = state.vBlockSerials ∧ reached.vTxSerials = state.vTxSerials := by
  rw [takeFront] at taken
  split_ifs at taken
  cases popped : env.pop state.vecPriority with
  | none => simp [popped] at taken
  | some front =>
    simp only [popped] at taken
    split_ifs at taken <;> cases taken <;> exact ⟨rfl, rfl⟩

theorem serials_addTransaction
    (within : state.vBlockSerials ⊆ state.vTxSerials) :
    (addTransaction env tx state).vBlockSerials ⊆ (addTransaction env tx state).vTxSerials := by
  rw [addTransaction]
  split_ifs
  · exact within
  · exact within
  · exact within
  · exact List.append_subset.mpr ⟨within, List.Subset.refl _⟩

theorem subset_of_run
    (run : (selection env).Run (State.start vecPriority view fSortedByFee vtx) trace state) :
    state.vBlockSerials ⊆ state.vTxSerials := by
  refine @LabelledSystem.Run.invariant _ _ _ _ _ _
    (fun state => state.vBlockSerials ⊆ state.vTxSerials) run (List.nil_subset _) ?_
  intro current tx next within stepped
  simp only [selection, round] at stepped
  cases taken : takeFront env current with
  | none => simp [taken] at stepped
  | some front =>
    obtain ⟨tx, comes, reached⟩ := front
    have same := serials_takeFront taken
    rw [← same.1, ← same.2] at within
    cases comes with
    | false =>
      simp only [taken, Option.some.injEq, Prod.mk.injEq] at stepped
      exact stepped.2 ▸ within
    | true =>
      simp only [taken] at stepped
      split_ifs at stepped
      · cases returned : collectSerials env reached.vBlockSerials tx.vin reached.vTxSerials with
        | none => simp [returned] at stepped
        | some result =>
          obtain ⟨fDoubleSerial, collected⟩ := result
          have grown := List.Subset.trans within (subset_collectSerials returned)
          cases fDoubleSerial with
          | false =>
            simp only [returned, Option.some.injEq, Prod.mk.injEq] at stepped
            exact stepped.2 ▸ serials_addTransaction grown
          | true =>
            simp only [returned, Option.some.injEq, Prod.mk.injEq] at stepped
            exact stepped.2 ▸ grown
      · simp only [Option.some.injEq, Prod.mk.injEq] at stepped
        exact stepped.2 ▸ serials_addTransaction within

theorem skipsConflicts_iff
    (within : state.vBlockSerials ⊆ state.vTxSerials) :
    SkipsConflicts env state ↔ KeepsNoSerial env state := by
  constructor
  · intro skips tx reached taken zerocoin finishes apart
    obtain ⟨⟨fDoubleSerial, collected⟩, returned⟩ := Option.isSome_iff_exists.mp finishes
    cases fDoubleSerial with
    | false => exact collectSerials_false returned
    | true => exact absurd (skips tx reached collected taken zerocoin returned) apart
  · intro keeps tx reached collected taken zerocoin returned
    by_contra apart
    have kept := keeps tx reached taken zerocoin (by rw [returned]; rfl) apart
    have same := serials_takeFront taken
    rw [← same.1, ← same.2] at within
    rcases collectSerials_true returned with invalid | repeated | ⟨spend, member, known⟩
    · exact apart (.inl invalid)
    · exact apart (.inr (.inl repeated))
    · exact kept spend member (known.elim (fun inBlock => within inBlock) id)

/-- A spend of serials, one an input. -/
def serialsTx (hash : Uint256) (serials : List UInt8) : CTransaction where
  hash := hash
  nVersion := 1
  vin := serials.map fun serial => ⟨.null, [Opcode.zerocoinSpend, serial], 50⟩
  vout := [{ nValue := coin, scriptPubKey := [Opcode.op1] }]
  nLockTime := 0

/-- A queue in order, with room for all and spends that pass the other tests. -/
def roomyEnv : Env (List TxPriority) Unit where
  nHeight := 0
  spork23 := 1
  spork23val := 0
  spork21 := 1
  spork21val := 0
  nBlockMaxSize := 750000
  nBlockMinSize := 0
  nBlockPrioritySize := 50000
  nMaxBlockSigOps := 20000
  minRelayTxFee := 10000
  pop queue := queue.head?.map fun front => (front, queue.tail)
  sortByFee queue := queue
  release _ queue := queue
  noDeltas _ := true
  allowFree _ := true
  getLegacySigOpCount _ := 0
  haveInputs _ _ := true
  isTransactionInChain _ := false
  txInToZerocoinSpend txIn := txIn.scriptSig[1]?.map fun serial => ⟨serial.toNat, .zqOne, 0, 0⟩
  hasValidSerial _ := true
  nTxFees _ _ := 0
  getP2SHSigOpCount _ _ := 0
  checkInputs _ _ := true
  updateCoins _ _ := ()

end BlockTemplate
end ColossusCoin
