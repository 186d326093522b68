import ColossusCoin.Coins.Update
import ColossusCoin.Validation.CheckTransaction

/-!
# Checks of the inputs of a transaction

`CheckInputs` with the values it sums and the scripts it verifies.  Script
verification is a parameter; with several threads the checks of scripts are queued
and their results are awaited at the end of the block.
-/

namespace ColossusCoin

def rejectNonstandard : Nat := 0x40

/-- The script verification flags that `ConnectBlock` sets. -/
structure ScriptFlags where
  p2sh : Bool
  derSig : Bool
  checkLockTimeVerify : Bool
  deriving DecidableEq, Repr

namespace ScriptFlags

/-- Some flag is standard but not mandatory. -/
def anyNotMandatory (flags : ScriptFlags) : Bool :=
  flags.derSig || flags.checkLockTimeVerify

/-- The mandatory flags only. -/
def mandatory (flags : ScriptFlags) : ScriptFlags :=
  { flags with derSig := false, checkLockTimeVerify := false }

end ScriptFlags

/-- How scripts are verified. -/
structure ScriptEnv where
  flags : ScriptFlags
  fScriptChecks : Bool
  /-- There are threads that verify scripts. -/
  nScriptCheckThreads : Bool
  /-- `CScriptCheck`: an input of a transaction, given the coins that it spends
  from; the error, if there is one. -/
  verifyScript : ScriptFlags → CTransaction → Nat → CCoins → Option String

namespace CCoinsViewCache

/-- `GetValueIn`, for a transaction that spends coins, `none` where an assertion
fails. -/
def getValueIn (view : CCoinsViewCache) (tx : CTransaction) : Option Int :=
  tx.vin.foldlM (fun nResult txin =>
    (view.getOutputFor txin).map fun txout => nResult + txout.nValue) 0

/-- `GetP2SHSigOpCount`, for a transaction that spends coins, `none` where an
assertion fails. -/
def getP2SHSigOpCount (view : CCoinsViewCache) (tx : CTransaction) : Option Nat :=
  tx.vin.foldlM (fun nSigOps txin =>
    (view.getOutputFor txin).map fun prevout =>
      if prevout.scriptPubKey.isPayToScriptHash then
        nSigOps + prevout.scriptPubKey.getSigOpCountOf txin.scriptSig
      else nSigOps) 0

end CCoinsViewCache

namespace CheckState

/-- `state.Invalid`. -/
def invalid (code : Nat) (reason : String) (checks : CheckState) : CheckState :=
  checks.dos 0 code reason

end CheckState

/-- The value of an output in the coins of a transaction. -/
def CCoins.valueAt (coins : CCoins) (n : Nat) : Int :=
  (coins.vout[n]?.getD .null).nValue

/-- The loop of `CheckInputs` over the inputs, with the value so far; the total is
returned. -/
def checkInputValues (params : CChainParams) (nSpendHeight : Int)
    (view : CCoinsViewCache) : List CTxIn → Int → CheckState →
      (Option Exit × CheckState) × Int
  | [], nValueIn, checks => ((none, checks), nValueIn)
  | txin :: rest, nValueIn, checks =>
    match view.accessCoins txin.prevout.hash with
    | none => ((some .assertFails, checks), nValueIn)
    | some coins =>
      let nValue := coins.valueAt txin.prevout.n
      if (coins.fCoinBase || coins.fCoinStake) &&
          nSpendHeight - coins.nHeight < params.nMaturity then
        ((some .reject, checks.invalid rejectInvalid
          "bad-txns-premature-spend-of-coinbase"), nValueIn)
      else if !params.moneyRange nValue || !params.moneyRange (nValueIn + nValue) then
        ((some .reject, checks.dos 100 rejectInvalid
          "bad-txns-inputvalues-outofrange"), nValueIn)
      else checkInputValues params nSpendHeight view rest (nValueIn + nValue) checks

/-- The tests of `CheckInputs` on the fee. -/
def checkFee (params : CChainParams) (tx : CTransaction) (nValueIn : Int) :
    Stage CheckState := fun checks =>
  if tx.isCoinStake then (none, checks)
  else
    match tx.getValueOut with
    | none => (some .abort, checks)
    | some nValueOut =>
      let nTxFee := nValueIn - nValueOut
      if nValueIn < nValueOut then
        (some .reject, checks.dos 100 rejectInvalid "bad-txns-in-belowout")
      else if nTxFee < 0 then
        (some .reject, checks.dos 100 rejectInvalid "bad-txns-fee-negative")
      else if params.moneyRange nTxFee = false then
        (some .reject, checks.dos 100 rejectInvalid "bad-txns-fee-outofrange")
      else (none, checks)

/-- Verify the script of an input at once, and reject the transaction when that
fails. -/
def verifyNow (env : ScriptEnv) (tx : CTransaction) (i : Nat) (coins : CCoins) :
    Stage CheckState := fun checks =>
  match env.verifyScript env.flags tx i coins with
  | none => (none, checks)
  | some scriptError =>
    if env.flags.anyNotMandatory &&
        (env.verifyScript env.flags.mandatory tx i coins).isNone then
      (some .reject, checks.invalid rejectNonstandard
        ("non-mandatory-script-verify-flag (" ++ scriptError ++ ")"))
    else
      (some .reject, checks.dos 100 rejectInvalid
        ("mandatory-script-verify-flag-failed (" ++ scriptError ++ ")"))

/-- The loop of `CheckInputs` over the scripts, from an index on: without threads
each is verified at once, otherwise the results of the queued checks are
returned. -/
def checkScripts (env : ScriptEnv) (view : CCoinsViewCache) (tx : CTransaction) :
    List CTxIn → Nat → CheckState → (Option Exit × CheckState) × List Bool
  | [], _, checks => ((none, checks), [])
  | txin :: rest, i, checks =>
    match view.accessCoins txin.prevout.hash with
    | none => ((some .assertFails, checks), [])
    | some coins =>
      if env.nScriptCheckThreads then
        let (outcome, vChecks) := checkScripts env view tx rest (i + 1) checks
        (outcome, (env.verifyScript env.flags tx i coins).isNone :: vChecks)
      else
        match verifyNow env tx i coins checks with
        | (some exit, failed) => ((some exit, failed), [])
        | (none, passed) => checkScripts env view tx rest (i + 1) passed

/-- `CheckInputs`, with the results of the checks that it queues. -/
def checkInputs (params : CChainParams) (env : ScriptEnv) (nSpendHeight : Int)
    (tx : CTransaction) (view : CCoinsViewCache) (checks : CheckState) :
    (Option Exit × CheckState) × List Bool :=
  if tx.spendsNoCoins then ((none, checks), [])
  else if view.haveInputs tx = false then ((some .reject, checks.invalid 0 ""), [])
  else
    match checkInputValues params nSpendHeight view tx.vin 0 checks with
    | ((some exit, failed), _) => ((some exit, failed), [])
    | ((none, summed), nValueIn) =>
      match checkFee params tx nValueIn summed with
      | (some exit, failed) => ((some exit, failed), [])
      | (none, passed) =>
        if env.fScriptChecks then checkScripts env view tx tx.vin 0 passed
        else ((none, passed), [])

/-- How a check of inputs ends: not early with success, with nothing outside the state changed,
and on an assertion only at an input that is not in the view. -/
structure EndsAtInputs (view : CCoinsViewCache) (txins : List CTxIn) (checks : CheckState)
    (outcome : Option Exit × CheckState) : Prop where
  ne_accept : outcome.1 ≠ some .accept
  outsideState : outcome.2.outsideState = checks.outsideState
  missing : outcome.1 = some .assertFails → ∃ txin ∈ txins, view.haveInput txin = false

section Ends

variable {params : CChainParams} {env : ScriptEnv} {view : CCoinsViewCache} {tx : CTransaction}
variable {txins : List CTxIn}

theorem EndsAtInputs.of_exit
    (notAccept : exit ≠ some .accept)
    (notAssert : exit ≠ some .assertFails)
    (same : passed.outsideState = checks.outsideState) :
    EndsAtInputs view txins checks (exit, passed) :=
  ⟨notAccept, same, fun fails => absurd fails notAssert⟩

theorem EndsAtInputs.of_accessCoins
    (found : view.accessCoins txin.prevout.hash = none) :
    EndsAtInputs view (txin :: txins) checks (some .assertFails, checks) := by
  refine ⟨by simp, rfl, fun _ => ⟨txin, List.mem_cons_self, ?_⟩⟩
  rw [CCoinsViewCache.haveInput, found]

theorem EndsAtInputs.later
    (same : passed.outsideState = checks.outsideState)
    (ends : EndsAtInputs view txins passed outcome) :
    EndsAtInputs view (txin :: txins) checks outcome := by
  refine ⟨ends.ne_accept, ends.outsideState.trans same, fun fails => ?_⟩
  obtain ⟨other, member, absent⟩ := ends.missing fails
  exact ⟨other, List.mem_cons_of_mem _ member, absent⟩

theorem endsAtInputs_checkInputValues (nSpendHeight nValueIn : Int) :
    EndsAtInputs view txins checks
      (checkInputValues params nSpendHeight view txins nValueIn checks).1 := by
  induction txins generalizing nValueIn with
  | nil => exact .of_exit (by simp) (by simp) rfl
  | cons txin rest ih =>
    rw [checkInputValues]
    cases found : view.accessCoins txin.prevout.hash with
    | none => exact .of_accessCoins found
    | some coins =>
      dsimp only
      split_ifs
      · exact .of_exit (by simp) (by simp) rfl
      · exact .of_exit (by simp) (by simp) rfl
      · exact .later rfl (ih _)

theorem endsAtInputs_checkFee (nValueIn : Int) :
    EndsAtInputs view txins checks (checkFee params tx nValueIn checks) := by
  unfold checkFee
  split_ifs
  · exact .of_exit (by simp) (by simp) rfl
  · cases tx.getValueOut with
    | none => exact .of_exit (by simp) (by simp) rfl
    | some nValueOut =>
      dsimp only
      split_ifs <;> exact .of_exit (by simp) (by simp) rfl

theorem endsAtInputs_verifyNow (i : Nat) (coins : CCoins) :
    EndsAtInputs view [] checks (verifyNow env tx i coins checks) := by
  unfold verifyNow
  cases env.verifyScript env.flags tx i coins with
  | none => exact .of_exit (by simp) (by simp) rfl
  | some scriptError =>
    split_ifs <;> exact .of_exit (by simp) (by simp) rfl

theorem endsAtInputs_checkScripts (i : Nat) :
    EndsAtInputs view txins checks (checkScripts env view tx txins i checks).1 := by
  induction txins generalizing i checks with
  | nil => exact .of_exit (by simp) (by simp) rfl
  | cons txin rest ih =>
    rw [checkScripts]
    cases found : view.accessCoins txin.prevout.hash with
    | none => exact .of_accessCoins found
    | some coins =>
      dsimp only
      split_ifs
      · exact .later rfl (ih (i + 1))
      · have now := @endsAtInputs_verifyNow env view tx checks i coins
        generalize verifyNow env tx i coins checks = outcome at now ⊢
        obtain ⟨exit, next⟩ := outcome
        cases exit with
        | some exit =>
          have notAssert : some exit ≠ some .assertFails := fun fails => by
            simpa using now.missing fails
          exact .of_exit now.ne_accept notAssert now.outsideState
        | none => exact .later now.outsideState (ih (i + 1))

theorem endsAtInputs_checkInputs (nSpendHeight : Int) :
    EndsAtInputs view tx.vin checks (checkInputs params env nSpendHeight tx view checks).1 := by
  unfold checkInputs
  by_cases exempt : tx.spendsNoCoins = true
  · rw [if_pos exempt]
    exact .of_exit (by simp) (by simp) rfl
  by_cases absent : view.haveInputs tx = false
  · rw [if_neg exempt, if_pos absent]
    exact .of_exit (by simp) (by simp) rfl
  rw [if_neg exempt, if_neg absent]
  have values := @endsAtInputs_checkInputValues params view tx.vin checks nSpendHeight 0
  generalize checkInputValues params nSpendHeight view tx.vin 0 checks = outcome at values ⊢
  obtain ⟨⟨exit, summed⟩, nValueIn⟩ := outcome
  cases exit with
  | some exit => exact values
  | none =>
    have fee := @endsAtInputs_checkFee params view tx tx.vin summed nValueIn
    dsimp only
    generalize checkFee params tx nValueIn summed = outcome at fee ⊢
    obtain ⟨exit, passed⟩ := outcome
    have same := fee.outsideState.trans values.outsideState
    cases exit with
    | some exit => exact ⟨fee.ne_accept, same, fee.missing⟩
    | none =>
      split_ifs
      · have scripts := @endsAtInputs_checkScripts env view tx tx.vin passed 0
        exact ⟨scripts.ne_accept, scripts.outsideState.trans same, scripts.missing⟩
      · exact .of_exit (by simp) (by simp) same

end Ends

end ColossusCoin
