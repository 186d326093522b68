import ColossusCoin.Library.System
import ColossusCoin.Primitives.Transaction

/-!
# The pool of mixing entries

A masternode adds the entries of its clients with `AddEntry`, and merges their inputs into one
transaction.  An input is taken for a repetition only if all of it was given before.
-/

namespace ColossusCoin

/-- The codes that `AddEntry` leaves in `errorID`. -/
inductive PoolMessage where
  | errAlreadyHave
  | errEntriesFull
  | errInvalidCollateral
  | errInvalidInput
  | msgEntriesAdded
  deriving DecidableEq

structure CObfuScationEntry where
  sev : List CTxIn
  vout : List CTxOut
  amount : Int
  collateral : CTransaction

/-- The fields of `CObfuscationPool` that `AddEntry` changes. -/
structure CObfuscationPool where
  entries : List CObfuScationEntry
  sessionUsers : Int

/-- A call of `AddEntry`, and what `IsCollateralValid` says of the collateral then. -/
structure EntryCall where
  newInput : List CTxIn
  nAmount : Int
  txCollateral : CTransaction
  newOutput : List CTxOut
  isCollateralValid : Bool

namespace CObfuscationPool

/-- The inputs of all entries, in their order. -/
def inputs (pool : CObfuscationPool) : List CTxIn :=
  pool.entries.flatMap CObfuScationEntry.sev

/-- A call that is refused ends the session of its user. -/
def refuse (pool : CObfuscationPool) (errorID : PoolMessage) :
    Bool × Option PoolMessage × CObfuscationPool :=
  (false, some errorID, { pool with sessionUsers := pool.sessionUsers - 1 })

/-- `AddEntry`, with what it leaves in `errorID`. -/
def addEntry (fMasterNode : Bool) (maxPoolTransactions : Int) (pool : CObfuscationPool)
    (call : EntryCall) : Bool × Option PoolMessage × CObfuscationPool :=
  if !fMasterNode then (false, none, pool)
  else if call.newInput.any fun txin => txin.prevout.isNull || call.nAmount < 0 then
    pool.refuse .errInvalidInput
  else if !call.isCollateralValid then pool.refuse .errInvalidCollateral
  else if maxPoolTransactions ≤ pool.entries.length then pool.refuse .errEntriesFull
  else if call.newInput.any fun txin => pool.entries.any fun v => v.sev.any (· == txin) then
    pool.refuse .errAlreadyHave
  else
    (true, some .msgEntriesAdded, { pool with
      entries := pool.entries ++
        [⟨call.newInput, call.newOutput, call.nAmount, call.txCollateral⟩] })

/-- The pool after a sequence of calls. -/
def after (fMasterNode : Bool) (maxPoolTransactions : Int) (calls : List EntryCall) :
    CObfuscationPool :=
  calls.foldl (fun pool call => (pool.addEntry fMasterNode maxPoolTransactions call).2.2) ⟨[], 0⟩

/-- The inputs of the final transaction, as `Check` shuffles them, spend different outpoints. -/
def InputsApart (pool : CObfuscationPool) : Prop :=
  ∀ vin : List CTxIn, vin.Perm pool.inputs → (vin.map CTxIn.prevout).Nodup

/-- If the call is accepted, it gives no outpoint twice, and an outpoint of the pool only in the
very input that the pool has. -/
def GivesApart (fMasterNode : Bool) (maxPoolTransactions : Int) (pool : CObfuscationPool)
    (call : EntryCall) : Prop :=
  (pool.addEntry fMasterNode maxPoolTransactions call).1 = true →
    (call.newInput.map CTxIn.prevout).Nodup ∧
      ∀ txin ∈ call.newInput, ∀ s ∈ pool.inputs, s.prevout = txin.prevout → s = txin

variable {fMasterNode : Bool} {maxPoolTransactions : Int} {pool : CObfuscationPool}
variable {call : EntryCall}

theorem inputsApart_iff : pool.InputsApart ↔ (pool.inputs.map CTxIn.prevout).Nodup :=
  ⟨fun apart => apart _ (List.Perm.refl _),
    fun apart _ same => (same.map CTxIn.prevout).nodup_iff.mpr apart⟩

theorem inputsApart_empty : InputsApart ⟨[], 0⟩ :=
  inputsApart_iff.mpr List.nodup_nil

/-- A call adds its inputs, none of which is in the pool, or leaves the entries as they are. -/
theorem addEntry_cases (fMasterNode : Bool) (maxPoolTransactions : Int) (pool : CObfuscationPool)
    (call : EntryCall) :
    ((pool.addEntry fMasterNode maxPoolTransactions call).1 = true ∧
      (pool.addEntry fMasterNode maxPoolTransactions call).2.2.inputs =
        pool.inputs ++ call.newInput ∧
      ∀ txin ∈ call.newInput, txin ∉ pool.inputs) ∨
    ((pool.addEntry fMasterNode maxPoolTransactions call).1 = false ∧
      (pool.addEntry fMasterNode maxPoolTransactions call).2.2.inputs = pool.inputs) := by
  rw [addEntry]
  split_ifs with client invalid collateral full known
  · exact .inr ⟨rfl, rfl⟩
  · exact .inr ⟨rfl, rfl⟩
  · exact .inr ⟨rfl, rfl⟩
  · exact .inr ⟨rfl, rfl⟩
  · exact .inr ⟨rfl, rfl⟩
  · refine .inl ⟨rfl, by simp [inputs], fun txin given present => known ?_⟩
    obtain ⟨entry, listed, member⟩ := List.mem_flatMap.mp present
    exact List.any_eq_true.mpr ⟨txin, given, List.any_eq_true.mpr
      ⟨entry, listed, List.any_eq_true.mpr ⟨txin, member, beq_self_eq_true txin⟩⟩⟩

theorem inputsApart_addEntry_iff
    (apart : pool.InputsApart) :
    (pool.addEntry fMasterNode maxPoolTransactions call).2.2.InputsApart ↔
      pool.GivesApart fMasterNode maxPoolTransactions call := by
  rw [inputsApart_iff] at apart ⊢
  rcases addEntry_cases fMasterNode maxPoolTransactions pool call with
    ⟨accepted, added, fresh⟩ | ⟨refused, same⟩
  · rw [added, List.map_append, List.nodup_append, GivesApart]
    constructor
    · rintro ⟨-, own, others⟩ -
      refine ⟨own, fun txin given s present shared => ?_⟩
      exact absurd shared (others _ (List.mem_map_of_mem present) _ (List.mem_map_of_mem given))
    · intro gives
      obtain ⟨own, others⟩ := gives accepted
      refine ⟨apart, own, ?_⟩
      rintro _ inPool _ isNew rfl
      obtain ⟨txin, given, shared⟩ := List.mem_map.mp isNew
      obtain ⟨s, present, rfl⟩ := List.mem_map.mp inPool
      rw [others txin given s present shared.symm] at present
      exact fresh txin given present
  · rw [same]
    refine iff_of_true apart fun accepted => ?_
    rw [refused] at accepted
    cases accepted

/-- In a sequence of calls the final transaction never has an input twice exactly if each call
that is accepted gives new outpoints once. -/
theorem inputsApart_iff_givesApart
    (fMasterNode : Bool)
    (maxPoolTransactions : Int)
    (calls : List EntryCall) :
    (∀ past, past <+: calls → (after fMasterNode maxPoolTransactions past).InputsApart) ↔
      ∀ past call, past ++ [call] <+: calls →
        (after fMasterNode maxPoolTransactions past).GivesApart fMasterNode maxPoolTransactions
          call :=
  foldl_holds_iff inputsApart_empty (fun _ apart => apart)
    (fun _ _ apart => inputsApart_addEntry_iff apart) (fun _ _ _ apart => apart) calls

/-- Two clients give one outpoint, with different sequence numbers. -/
theorem inputs_shared_by_sequence :
    let collateral : CTransaction := ⟨1, 1, [], [], 0⟩
    let spending (nSequence : Nat) : EntryCall :=
      ⟨[⟨⟨7, 0⟩, [], nSequence⟩], coin, collateral, [], true⟩
    ¬ (after true 3 [spending 0, spending 1]).InputsApart := by
  intro collateral spending apart
  exact absurd (inputsApart_iff.mp apart) (by decide)

end CObfuscationPool
end ColossusCoin
