import ColossusCoin.Library.ReachedItems
import ColossusCoin.Mempool.Removal

/-!
# The clean-up of the memory pool when a block is disconnected

After a block is disconnected, `removeCoinbaseSpends` takes out of the pool what spends
an immature output of a coinbase or coinstake, or an output that is no longer there, with
all descendants.  Its test of an input looks up the transaction only, not the output, and
it also tests the inputs of zerocoin spends, whose null outpoint is of no transaction.
-/

namespace ColossusCoin

/-- What `removeCoinbaseSpends` is given. -/
structure Disconnect where
  params : CChainParams
  pool : CTxMemPool
  pcoins : CCoinsViewCache
  nMemPoolHeight : Nat

namespace Disconnect

/-- `removeCoinbaseSpends`, `none` where its assertion fails. -/
def removeCoinbaseSpends (disconnect : Disconnect) : Option CTxMemPool :=
  disconnect.pool.removeCoinbaseSpends disconnect.params disconnect.pcoins
    disconnect.nMemPoolHeight

/-- Coins of a coinbase or a coinstake whose distance, an unsigned difference, is less
than the maturity. -/
def young (disconnect : Disconnect) (coins : CCoins) : Bool :=
  (coins.fCoinBase || coins.fCoinStake) &&
    decide (((disconnect.nMemPoolHeight : Int) - coins.nHeight) % 2 ^ 32 <
      disconnect.params.nMaturity % 2 ^ 32)

/-- Neither the pool nor the view knows the transaction of the outpoint. -/
def unknown (disconnect : Disconnect) (outpoint : COutPoint) : Bool :=
  !disconnect.pool.contains outpoint.hash &&
    (disconnect.pcoins.accessCoins outpoint.hash).isNone

/-- The view alone knows the transaction of the outpoint, by young coins. -/
def onYoung (disconnect : Disconnect) (outpoint : COutPoint) : Bool :=
  !disconnect.pool.contains outpoint.hash &&
    (disconnect.pcoins.accessCoins outpoint.hash).any disconnect.young

/-- The loop gives up the transaction at this outpoint. -/
def condemns (disconnect : Disconnect) (outpoint : COutPoint) : Bool :=
  disconnect.unknown outpoint || disconnect.onYoung outpoint

/-- What the loop does at an input, `none` where the assertion fails. -/
def testInput (disconnect : Disconnect) (txin : CTxIn) : Option Bool :=
  if disconnect.pool.fSanityCheck && disconnect.unknown txin.prevout then none
  else some (disconnect.condemns txin.prevout)

theorem spendsImmature_eq_anyM (disconnect : Disconnect) (vin : List CTxIn) :
    CTxMemPool.spendsImmature disconnect.params disconnect.pool disconnect.pcoins
      disconnect.nMemPoolHeight vin = vin.anyM disconnect.testInput := by
  induction vin with
  | nil => rfl
  | cons txin rest ih =>
    rw [CTxMemPool.spendsImmature]
    cases inPool : disconnect.pool.contains txin.prevout.hash with
    | true =>
      have miss : disconnect.testInput txin = some false := by
        simp [testInput, condemns, unknown, onYoung, inPool]
      rw [List.anyM_cons_of_miss miss, if_pos rfl, ih]
    | false =>
      rw [if_neg Bool.false_ne_true]
      cases found : disconnect.pcoins.accessCoins txin.prevout.hash with
      | none =>
        have isUnknown : disconnect.unknown txin.prevout = true := by
          simp [unknown, inPool, found]
        cases sane : disconnect.pool.fSanityCheck with
        | true =>
          have faults : disconnect.testInput txin = none := by
            simp [testInput, isUnknown, sane]
          rw [List.anyM_cons_of_faults faults]
          rfl
        | false =>
          have hit : disconnect.testInput txin = some true := by
            simp [testInput, condemns, isUnknown, sane]
          rw [List.anyM_cons_of_hit hit]
          rfl
      | some coins =>
        have verdict : disconnect.testInput txin = some (disconnect.young coins) := by
          simp [testInput, condemns, unknown, onYoung, inPool, found]
        have meets : ((coins.fCoinBase || coins.fCoinStake) &&
            decide (((disconnect.nMemPoolHeight : Int) - coins.nHeight) % 2 ^ 32 <
              disconnect.params.nMaturity % 2 ^ 32)) = disconnect.young coins := rfl
        dsimp only
        rw [meets]
        cases isYoung : disconnect.young coins with
        | true =>
          rw [isYoung] at verdict
          rw [List.anyM_cons_of_hit verdict, if_pos rfl]
        | false =>
          rw [isYoung] at verdict
          rw [List.anyM_cons_of_miss verdict, if_neg Bool.false_ne_true, ih]

/-- Where the loop over the inputs gets through, it gives the transaction up if it
condemns one of them. -/
theorem any_condemns_of_spendsImmature
    {disconnect : Disconnect}
    (tested : CTxMemPool.spendsImmature disconnect.params disconnect.pool disconnect.pcoins
      disconnect.nMemPoolHeight vin = some immature) :
    (vin.any fun txin => disconnect.condemns txin.prevout) = immature := by
  rw [spendsImmature_eq_anyM] at tested
  refine List.any_of_anyM ?_ tested
  intro txin hit outcome
  unfold testInput at outcome
  split_ifs at outcome
  exact Option.some.inj outcome

/-- The assertion fails at no input: before one whose transaction is unknown there is one
on young coins. -/
def PassesAssertion (disconnect : Disconnect) (vin : List CTxIn) : Prop :=
  disconnect.pool.fSanityCheck = true →
    ∀ past txin, past ++ [txin] <+: vin → disconnect.unknown txin.prevout = true →
      ∃ earlier ∈ past, disconnect.onYoung earlier.prevout = true

theorem unknown_of_onYoung
    {disconnect : Disconnect}
    (onYoung : disconnect.onYoung outpoint = true) :
    disconnect.unknown outpoint = false := by
  unfold Disconnect.onYoung at onYoung
  unfold unknown
  cases found : disconnect.pcoins.accessCoins outpoint.hash with
  | none =>
    rw [found] at onYoung
    simp at onYoung
  | some coins => simp

theorem isSome_spendsImmature_iff (disconnect : Disconnect) (vin : List CTxIn) :
    (CTxMemPool.spendsImmature disconnect.params disconnect.pool disconnect.pcoins
      disconnect.nMemPoolHeight vin).isSome = true ↔ disconnect.PassesAssertion vin := by
  rw [spendsImmature_eq_anyM, List.isSome_anyM_iff]
  constructor
  · intro through sane past txin before isUnknown
    by_contra noYoung
    push Not at noYoung
    have faults : disconnect.testInput txin = none := by simp [testInput, sane, isUnknown]
    have stillThrough := through past txin before ?_
    · rw [faults] at stillThrough
      cases stillThrough
    · intro earlier member hit
      have old := noYoung earlier member
      cases earlierUnknown : disconnect.unknown earlier.prevout with
      | true => simp [testInput, sane, earlierUnknown] at hit
      | false => simp [testInput, condemns, earlierUnknown, old] at hit
  · intro passes past txin before misses
    unfold testInput
    split_ifs with faults
    · rw [Bool.and_eq_true] at faults
      obtain ⟨earlier, member, onYoung⟩ := passes faults.1 past txin before faults.2
      refine absurd ?_ (misses earlier member)
      simp [testInput, condemns, unknown_of_onYoung onYoung, onYoung]
    · rfl

/-- The transactions of the pool that the loop gives up. -/
theorem collectImmature_eq_some_iff
    {disconnect : Disconnect} {txs collected : List CTransaction} :
    CTxMemPool.collectImmature disconnect.params disconnect.pool disconnect.pcoins
        disconnect.nMemPoolHeight txs = some collected ↔
      (∀ tx ∈ txs, disconnect.PassesAssertion tx.vin) ∧
        collected = txs.filter fun tx =>
          tx.vin.any fun txin => disconnect.condemns txin.prevout := by
  induction txs generalizing collected with
  | nil => simp [CTxMemPool.collectImmature, eq_comm]
  | cons first rest ih =>
    rw [CTxMemPool.collectImmature, List.forall_mem_cons, ← isSome_spendsImmature_iff]
    cases tested : CTxMemPool.spendsImmature disconnect.params disconnect.pool
        disconnect.pcoins disconnect.nMemPoolHeight first.vin with
    | none => simp
    | some immature =>
      rw [List.filter_cons, any_condemns_of_spendsImmature tested]
      simp only [Option.map_eq_some_iff, ih, Option.isSome_some,
        true_and]
      constructor
      · rintro ⟨others, ⟨passes, rfl⟩, rfl⟩
        exact ⟨passes, rfl⟩
      · rintro ⟨passes, rfl⟩
        exact ⟨_, ⟨passes, rfl⟩, rfl⟩

/-- The pool has the output. -/
def inPool (disconnect : Disconnect) (outpoint : COutPoint) : Bool :=
  (disconnect.pool.lookup outpoint.hash).any fun tx =>
    tx.vout[outpoint.n]?.any fun txout => !txout.isNull

/-- The view has the output. -/
def inView (disconnect : Disconnect) (outpoint : COutPoint) : Bool :=
  (disconnect.pcoins.accessCoins outpoint.hash).any fun coins =>
    coins.isAvailable outpoint.n

/-- Coins of a coinbase or a coinstake that are not mature at the height. -/
def immature (disconnect : Disconnect) (coins : CCoins) : Bool :=
  (coins.fCoinBase || coins.fCoinStake) &&
    decide ((disconnect.nMemPoolHeight : Int) - coins.nHeight < disconnect.params.nMaturity)

/-- The output is one of a coinbase or a coinstake, immature, or it is neither in the
view nor in the pool. -/
def invalid (disconnect : Disconnect) (outpoint : COutPoint) : Bool :=
  ((disconnect.pcoins.accessCoins outpoint.hash).any fun coins =>
      coins.isAvailable outpoint.n && disconnect.immature coins) ||
    !disconnect.inView outpoint && !disconnect.inPool outpoint

/-- A transaction spends an invalid output.  Zerocoin spends spend no outputs. -/
def SpendsInvalid (disconnect : Disconnect) (tx : CTransaction) : Prop :=
  tx.isZerocoinSpend = false ∧ ∃ outpoint ∈ tx.prevouts, disconnect.invalid outpoint = true

/-- A transaction, or one of the pool from which it descends, spends an invalid output. -/
def Invalidated (disconnect : Disconnect) (tx : CTransaction) : Prop :=
  ∃ ancestor ∈ disconnect.pool.transactions,
    disconnect.pool.Family ancestor tx ∧ disconnect.SpendsInvalid ancestor

/-- The clean-up succeeds and removes the invalidated transactions and no others, in
particular no zerocoin spend whose inputs have no outpoint. -/
def RemovesInvalidated (disconnect : Disconnect) : Prop :=
  ∃ next, disconnect.removeCoinbaseSpends = some next ∧
    (∀ tx, tx ∈ next.transactions ↔
      tx ∈ disconnect.pool.transactions ∧ ¬ disconnect.Invalidated tx) ∧
    ∀ tx ∈ disconnect.pool.transactions, tx.isZerocoinSpend = true →
      (∀ outpoint ∈ tx.prevouts, outpoint.isNull = true) → tx ∈ next.transactions

/-! ## Where the test goes wrong -/

/-- The loop lets an invalid output pass: the pool has the transaction, or the view has
coins of it that are not young by the unsigned difference, while they lack the output or
are immature. -/
def overlooks (disconnect : Disconnect) (outpoint : COutPoint) : Bool :=
  if disconnect.pool.contains outpoint.hash then disconnect.invalid outpoint
  else (disconnect.pcoins.accessCoins outpoint.hash).any fun coins =>
    !disconnect.young coins && (!coins.isAvailable outpoint.n || disconnect.immature coins)

/-- The loop condemns an output that is there: by the unsigned difference its coins are
young, while they are not immature. -/
def misjudges (disconnect : Disconnect) (outpoint : COutPoint) : Bool :=
  !disconnect.pool.contains outpoint.hash &&
    (disconnect.pcoins.accessCoins outpoint.hash).any fun coins =>
      disconnect.young coins && coins.isAvailable outpoint.n && !disconnect.immature coins

section

variable (disconnect : Disconnect) (outpoint : COutPoint)

/-- The transaction of an outpoint is in the pool, in the view only, or in neither. -/
theorem whereabouts :
    disconnect.pool.contains outpoint.hash = true ∨
      disconnect.pool.lookup outpoint.hash = none ∧
        disconnect.pool.contains outpoint.hash = false := by
  unfold CTxMemPool.lookup CTxMemPool.contains SortedMap.contains
  cases disconnect.pool.mapTx.get? outpoint.hash with
  | none => simp
  | some entry => simp

theorem overlooks_eq :
    disconnect.overlooks outpoint =
      (disconnect.invalid outpoint && !disconnect.condemns outpoint) := by
  unfold overlooks condemns unknown onYoung
  rcases disconnect.whereabouts outpoint with known | ⟨notLooked, notKnown⟩
  · simp [known]
  · unfold invalid inView inPool
    rw [notKnown, notLooked]
    cases disconnect.pcoins.accessCoins outpoint.hash with
    | none => simp
    | some coins =>
      cases available : coins.isAvailable outpoint.n <;>
        cases isYoung : disconnect.young coins <;>
          simp [available, isYoung]

theorem misjudges_eq :
    disconnect.misjudges outpoint =
      (disconnect.condemns outpoint && !disconnect.invalid outpoint) := by
  unfold misjudges condemns unknown onYoung
  rcases disconnect.whereabouts outpoint with known | ⟨notLooked, notKnown⟩
  · simp [known]
  · unfold invalid inView inPool
    rw [notKnown, notLooked]
    cases disconnect.pcoins.accessCoins outpoint.hash with
    | none => simp
    | some coins =>
      cases available : coins.isAvailable outpoint.n <;>
        cases isYoung : disconnect.young coins <;>
          simp [available, isYoung]

end

/-- The loop gives the transaction up. -/
def GivesUp (disconnect : Disconnect) (tx : CTransaction) : Prop :=
  ∃ outpoint ∈ tx.prevouts, disconnect.condemns outpoint = true

/-- The assertion holds, no zerocoin spend is given up, and where the test of an ordinary
input goes wrong, the transaction has an ancestor, or is one itself, at which it does not. -/
structure JudgesWell (disconnect : Disconnect) : Prop where
  passes : ∀ tx ∈ disconnect.pool.transactions, disconnect.PassesAssertion tx.vin
  zerocoins : ∀ tx ∈ disconnect.pool.transactions, tx.isZerocoinSpend = true →
    ¬ disconnect.GivesUp tx
  overlooked : ∀ tx ∈ disconnect.pool.transactions, tx.isZerocoinSpend = false →
    ∀ outpoint ∈ tx.prevouts, disconnect.overlooks outpoint = true →
      ∃ ancestor ∈ disconnect.pool.transactions,
        disconnect.pool.Family ancestor tx ∧ disconnect.GivesUp ancestor
  misjudged : ∀ tx ∈ disconnect.pool.transactions, tx.isZerocoinSpend = false →
    ∀ outpoint ∈ tx.prevouts, disconnect.misjudges outpoint = true →
      disconnect.Invalidated tx

/-- The transactions of the pool that are given up. -/
def givenUp (disconnect : Disconnect) : List CTransaction :=
  disconnect.pool.transactions.filter fun tx =>
    tx.vin.any fun txin => disconnect.condemns txin.prevout

theorem mem_givenUp_iff (disconnect : Disconnect) (tx : CTransaction) :
    tx ∈ disconnect.givenUp ↔
      tx ∈ disconnect.pool.transactions ∧ disconnect.GivesUp tx := by
  simp [givenUp, GivesUp, CTransaction.prevouts]

theorem removeCoinbaseSpends_eq_some_iff (disconnect : Disconnect) (next : CTxMemPool) :
    disconnect.removeCoinbaseSpends = some next ↔
      (∀ tx ∈ disconnect.pool.transactions, disconnect.PassesAssertion tx.vin) ∧
        disconnect.givenUp.foldl (fun current root => (current.remove root [] true).1)
          disconnect.pool = next := by
  unfold removeCoinbaseSpends CTxMemPool.removeCoinbaseSpends
  simp only [Option.map_eq_some_iff, collectImmature_eq_some_iff]
  constructor
  · rintro ⟨collected, ⟨passes, rfl⟩, removed⟩
    exact ⟨passes, removed⟩
  · rintro ⟨passes, removed⟩
    exact ⟨_, ⟨passes, rfl⟩, removed⟩

theorem Invalidated.ordinary
    {disconnect : Disconnect}
    (invalidated : disconnect.Invalidated tx) :
    tx.isZerocoinSpend = false := by
  obtain ⟨ancestor, -, descends, ordinary, -⟩ := invalidated
  exact descends.ordinary ordinary

/-- Where no zerocoin spend is given up, those that are given up go with their
descendants. -/
theorem mem_next_iff
    {disconnect : Disconnect}
    (records : disconnect.pool.Recorded)
    (removed : disconnect.removeCoinbaseSpends = some next)
    (zerocoins : ∀ tx ∈ disconnect.pool.transactions, tx.isZerocoinSpend = true →
      ¬ disconnect.GivesUp tx) (tx : CTransaction) :
    tx ∈ next.transactions ↔ tx ∈ disconnect.pool.transactions ∧
      ¬ ∃ ancestor ∈ disconnect.pool.transactions,
        disconnect.pool.Family ancestor tx ∧ disconnect.GivesUp ancestor := by
  obtain ⟨-, rfl⟩ := (disconnect.removeCoinbaseSpends_eq_some_iff next).mp removed
  rw [CTxMemPool.mem_foldl_remove records]
  · refine and_congr_right fun _ => ?_
    simp only [mem_givenUp_iff]
    push Not
    exact forall_congr' fun root => by tauto
  · intro root listed
    exact CTxMemPool.resolve_of_mem records ((disconnect.mem_givenUp_iff root).mp listed).1
  · intro root listed
    obtain ⟨member, gives⟩ := (disconnect.mem_givenUp_iff root).mp listed
    by_contra zerocoin
    rw [Bool.not_eq_false] at zerocoin
    exact zerocoins root member zerocoin gives

theorem not_mem_next
    {disconnect : Disconnect}
    (records : disconnect.pool.Recorded)
    (removed : disconnect.removeCoinbaseSpends = some next)
    (listed : tx ∈ disconnect.givenUp) :
    tx ∉ next.transactions := by
  have closed : CTxMemPool.ClosedUnderRemoval fun current =>
      ∀ entry ∈ current.mapTx.entries, entry.2.tx.hash = entry.1 := by
    intro current hash entry hashed _ other inErased
    exact hashed other ((SortedMap.mem_entries_erase _ _ _).mp inErased).2
  have hashed := closed.removeCoinbaseSpends records.hashed removed
  obtain ⟨-, rfl⟩ := (disconnect.removeCoinbaseSpends_eq_some_iff next).mp removed
  have absent := CTxMemPool.get?_foldl_remove listed disconnect.pool
  intro member
  obtain ⟨⟨hash, entry⟩, inEntries, rfl⟩ := List.mem_map.mp member
  have sameHash : entry.tx.hash = hash := hashed _ inEntries
  rw [← SortedMap.get?_eq_some_iff, ← sameHash] at inEntries
  rw [absent] at inEntries
  cases inEntries

/-- The clean-up removes the invalidated transactions and no others if and only if its
test judges well. -/
theorem removesInvalidated_iff
    {disconnect : Disconnect}
    (records : disconnect.pool.Recorded) :
    disconnect.RemovesInvalidated ↔ disconnect.JudgesWell := by
  constructor
  · rintro ⟨next, removed, stays, -⟩
    have zerocoins : ∀ tx ∈ disconnect.pool.transactions, tx.isZerocoinSpend = true →
        ¬ disconnect.GivesUp tx := by
      intro tx member zerocoin gives
      apply not_mem_next records removed ((disconnect.mem_givenUp_iff tx).mpr ⟨member, gives⟩)
      refine (stays tx).mpr ⟨member, fun invalidated => ?_⟩
      rw [invalidated.ordinary] at zerocoin
      cases zerocoin
    have goes := mem_next_iff records removed zerocoins
    refine ⟨((disconnect.removeCoinbaseSpends_eq_some_iff next).mp removed).1, zerocoins,
      ?_, ?_⟩
    · intro tx member ordinary outpoint named overlooked
      rw [overlooks_eq, Bool.and_eq_true] at overlooked
      have out : tx ∉ next.transactions := by
        rw [stays]
        rintro ⟨-, notInvalidated⟩
        exact notInvalidated
          ⟨tx, member, .refl, ordinary, outpoint, named, overlooked.1⟩
      by_contra noAncestor
      exact out ((goes tx).mpr ⟨member, noAncestor⟩)
    · intro tx member ordinary outpoint named misjudged
      rw [misjudges_eq, Bool.and_eq_true] at misjudged
      have out : tx ∉ next.transactions := by
        rw [goes]
        rintro ⟨-, noAncestor⟩
        exact noAncestor ⟨tx, member, .refl, outpoint, named, misjudged.1⟩
      by_contra notInvalidated
      exact out ((stays tx).mpr ⟨member, notInvalidated⟩)
  · intro judges
    obtain ⟨next, removed⟩ : ∃ next, disconnect.removeCoinbaseSpends = some next :=
      ⟨_, (disconnect.removeCoinbaseSpends_eq_some_iff _).mpr ⟨judges.passes, rfl⟩⟩
    have goes := mem_next_iff records removed judges.zerocoins
    have stays : ∀ tx, tx ∈ next.transactions ↔
        tx ∈ disconnect.pool.transactions ∧ ¬ disconnect.Invalidated tx := by
      intro tx
      rw [goes]
      refine and_congr_right fun _ => not_congr ⟨?_, ?_⟩
      · rintro ⟨ancestor, member, descends, outpoint, named, condemned⟩
        have ordinary : ancestor.isZerocoinSpend = false := by
          by_contra zerocoin
          rw [Bool.not_eq_false] at zerocoin
          exact judges.zerocoins ancestor member zerocoin ⟨outpoint, named, condemned⟩
        cases wrong : disconnect.invalid outpoint with
        | true => exact ⟨ancestor, member, descends, ordinary, outpoint, named, wrong⟩
        | false =>
          obtain ⟨earlier, earlierMember, above, spends⟩ := judges.misjudged ancestor member
            ordinary outpoint named (by rw [misjudges_eq, condemned, wrong]; rfl)
          exact ⟨earlier, earlierMember, above.trans descends, spends⟩
      · rintro ⟨ancestor, member, descends, ordinary, outpoint, named, wrong⟩
        cases condemned : disconnect.condemns outpoint with
        | true => exact ⟨ancestor, member, descends, outpoint, named, condemned⟩
        | false =>
          obtain ⟨earlier, earlierMember, above, gives⟩ := judges.overlooked ancestor member
            ordinary outpoint named (by rw [overlooks_eq, condemned, wrong]; rfl)
          exact ⟨earlier, earlierMember, above.trans descends, gives⟩
    refine ⟨next, removed, stays, ?_⟩
    intro tx member zerocoin _
    refine (stays tx).mpr ⟨member, fun invalidated => ?_⟩
    rw [invalidated.ordinary] at zerocoin
    cases zerocoin

/-- The block with the transaction whose outputs the first three transactions of the
pool spend, directly or not, is disconnected; the fourth spends an output that is left. -/
def forkDisconnect : Disconnect where
  params := .main
  pool := CTxMemPool.diamondPool
  pcoins :=
    .overSingle 8
      { fCoinBase := false
        fCoinStake := false
        vout := [{ nValue := coin, scriptPubKey := [Opcode.op1] }]
        nHeight := 1
        nVersion := 1 } 1
  nMemPoolHeight := 600000

theorem removesInvalidated_iff_fork :
    forkDisconnect.RemovesInvalidated ∧
      forkDisconnect.removeCoinbaseSpends.map CTxMemPool.transactions =
        some (CTxMemPool.diamondTxs.drop 3) := by
  refine ⟨?_, by decide⟩
  apply (@removesInvalidated_iff forkDisconnect CTxMemPool.recorded_diamondPool).mpr
  have ordinary : ∀ tx ∈ forkDisconnect.pool.transactions, tx.isZerocoinSpend = false := by
    decide
  have right : ∀ tx ∈ forkDisconnect.pool.transactions, ∀ outpoint ∈ tx.prevouts,
      forkDisconnect.overlooks outpoint = false ∧
        forkDisconnect.misjudges outpoint = false := by
    decide
  refine ⟨?_, ?_, ?_, ?_⟩
  · intro tx _ sane
    exact absurd sane (by decide)
  · intro tx member zerocoin
    rw [ordinary tx member] at zerocoin
    cases zerocoin
  · intro tx member _ outpoint named overlooked
    rw [(right tx member outpoint named).1] at overlooked
    cases overlooked
  · intro tx member _ outpoint named misjudged
    rw [(right tx member outpoint named).2] at misjudged
    cases misjudged

/-- A zerocoin spend whose input has no outpoint. -/
def unlinkedSpend : CTransaction where
  hash := 21
  nVersion := 1
  vin := [{ prevout := .null, scriptSig := [Opcode.zerocoinSpend, 1], nSequence := 50 }]
  vout := [{ nValue := coin, scriptPubKey := [Opcode.op1] }]
  nLockTime := 0

/-- The pool into which it is admitted. -/
def unlinkedPool : CTxMemPool :=
  (acceptToMemoryPool oneCoinEnv (.empty false) unlinkedSpend 0 bareChecks).2

/-- A block is disconnected that has nothing to do with it. -/
def unlinkedDisconnect : Disconnect where
  params := .main
  pool := unlinkedPool
  pcoins := twoOutputsView
  nMemPoolHeight := 600000

/-- The zerocoin spend is removed. -/
theorem disconnect_removes_zerocoinSpend :
    (mempoolSystem fun _ _ => True).Run (.empty false) [oneCoinAccepts unlinkedSpend]
        unlinkedPool ∧
      unlinkedPool.transactions = [unlinkedSpend] ∧
      unlinkedDisconnect.pool.Recorded ∧
      unlinkedDisconnect.removeCoinbaseSpends.map CTxMemPool.transactions = some [] ∧
      ¬ unlinkedDisconnect.RemovesInvalidated := by
  have alone : unlinkedPool.transactions = [unlinkedSpend] := by decide
  have emptied : unlinkedDisconnect.removeCoinbaseSpends.map CTxMemPool.transactions =
      some [] := by
    decide
  have records : unlinkedPool.Recorded :=
    (CTxMemPool.kept_empty false).inputsRecorded.acceptToMemoryPool oneCoinEnv _ 0 bareChecks
  refine ⟨.snoc .nil ⟨trivial, rfl⟩, alone, records, emptied, ?_⟩
  rintro ⟨next, removed, -, survive⟩
  have stays := survive unlinkedSpend (by decide) (by decide) (by decide)
  rw [removed, Option.map_some, Option.some.injEq] at emptied
  rw [emptied] at stays
  cases stays

end Disconnect
end ColossusCoin
