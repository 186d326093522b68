import ColossusCoin.Validation.LocalChecks
import Mathlib.Data.List.Nodup

/-!
# The value of zerocoin spends

`CheckZerocoinSpend` adds up the denominations of the coins that the inputs of a transaction
spend, and passes over the inputs that spend none.  `CheckTransaction` calls it only for
transactions all inputs of which spend zerocoins.
-/

namespace ColossusCoin

/-- An input carries the spend of a coin of the denomination that it claims. -/
def CarriesSpend (lib : ZerocoinLib) (txin : CTxIn) (spend : CoinSpend) : Prop :=
  lib.txInToZerocoinSpend txin = some spend ∧ spend.denomination ≠ .zqError ∧
    spend.denomination.toInt = txin.nSequence

/-- What the coins are worth together. -/
def redeemedAmount (spends : List CoinSpend) : Int :=
  (spends.map fun spend => spend.denomination.toAmount).sum

/-- What the loop over the inputs has seen where it does not stop. -/
structure ScannedSpends (lib : ZerocoinLib) (txins : List CTxIn) (serials : List CBigNum)
    (nTotalRedeemed : Int) (seen : List CBigNum) (total : Int) (spends : List CoinSpend) :
    Prop where
  carried : List.Forall₂ (CarriesSpend lib)
    (txins.filter fun txin => txin.scriptSig.isZerocoinSpend) spends
  seen_eq : seen = (spends.map CoinSpend.coinSerialNumber).reverse ++ serials
  nodup : serials.Nodup → seen.Nodup
  total_eq : total = nTotalRedeemed + redeemedAmount spends

theorem scannedSpends_of_checkSpendInputs
    (passes : checkSpendInputs lib fVerifySignature hashTxOut txins serials nTotalRedeemed
      checks = ((none, passed), seen, total)) :
    ∃ spends, ScannedSpends lib txins serials nTotalRedeemed seen total spends := by
  induction txins generalizing serials nTotalRedeemed with
  | nil =>
    cases passes
    exact ⟨[], .nil, rfl, id, (add_zero _).symm⟩
  | cons txin rest ih =>
    unfold checkSpendInputs at passes
    split_ifs at passes with ordinary
    · obtain ⟨spends, scanned⟩ := ih passes
      have skipped : (txin :: rest).filter (fun txin => txin.scriptSig.isZerocoinSpend) =
          rest.filter fun txin => txin.scriptSig.isZerocoinSpend :=
        List.filter_cons_of_neg (by rw [ordinary]; exact Bool.false_ne_true)
      exact ⟨spends, skipped ▸ scanned.carried, scanned.seen_eq, scanned.nodup, scanned.total_eq⟩
    · have taken : (txin :: rest).filter (fun txin => txin.scriptSig.isZerocoinSpend) =
          txin :: rest.filter fun txin => txin.scriptSig.isZerocoinSpend :=
        List.filter_cons_of_pos (by simpa using ordinary)
      cases decoded : lib.txInToZerocoinSpend txin with
      | none =>
        rw [decoded] at passes
        cases passes
      | some newSpend =>
        rw [decoded] at passes
        dsimp only at passes
        split_ifs at passes with unknown denomination foreign unverified repeated
        · cases passes
        · cases passes
        · cases passes
        · cases passes
        · cases passes
        · obtain ⟨spends, scanned⟩ := ih passes
          have unseen : newSpend.coinSerialNumber ∉ serials := by simpa using repeated
          refine ⟨newSpend :: spends, ?_, ?_, ?_, ?_⟩
          · rw [taken]
            exact .cons ⟨decoded, unknown, not_not.mp denomination⟩ scanned.carried
          · rw [scanned.seen_eq, List.map_cons, List.reverse_cons, List.append_assoc]
            rfl
          · intro fresh
            exact scanned.nodup (List.nodup_cons.mpr ⟨unseen, fresh⟩)
          · rw [scanned.total_eq, redeemedAmount, redeemedAmount, List.map_cons, List.sum_cons,
              add_assoc]

/-- What an accepted spend of zerocoins guarantees: its inputs that spend zerocoins carry coins of
the denominations that they claim and with different serials, which are worth the outputs. -/
structure Redeems (lib : ZerocoinLib) (tx : CTransaction) (spends : List CoinSpend) : Prop where
  carried : List.Forall₂ (CarriesSpend lib) tx.zerocoinSpendInputs spends
  nodup : (spends.map CoinSpend.coinSerialNumber).Nodup
  covered : tx.valueOutSum ≤ redeemedAmount spends
  spent : spends ≠ []

theorem redeems_of_accept
    (accepts : (checkZerocoinSpend lib fVerifySignature tx checks).1 = .accept) :
    ∃ spends, Redeems lib tx spends := by
  unfold checkZerocoinSpend at accepts
  split_ifs at accepts with crowded
  cases inputs : checkSpendInputs lib fVerifySignature (lib.hashOutputs tx.vout) tx.vin [] 0
      checks with
  | mk outcome redeemed =>
    obtain ⟨exit, passed⟩ := outcome
    rw [inputs] at accepts
    cases exit with
    | some exit => exact absurd accepts (checkSpendInputs_ne_accept inputs)
    | none =>
      obtain ⟨spends, scanned⟩ := scannedSpends_of_checkSpendInputs inputs
      cases returned : tx.getValueOut with
      | none =>
        rw [returned] at accepts
        cases accepts
      | some nValueOut =>
        rw [returned] at accepts
        dsimp only at accepts
        split_ifs at accepts with short nothing
        have seen := scanned.seen_eq
        rw [List.append_nil] at seen
        refine ⟨spends, scanned.carried, ?_, ?_, ?_⟩
        · have nodup := scanned.nodup .nil
          rw [seen, List.nodup_reverse] at nodup
          exact nodup
        · have total := scanned.total_eq
          have sum := (CTransaction.getValueOut_eq_some returned).1
          omega
        · rintro rfl
          rw [seen] at nothing
          exact nothing rfl

/-- No coin is worth more than the largest denomination. -/
theorem redeemedAmount_le (spends : List CoinSpend) :
    redeemedAmount spends ≤ spends.length * (100000 * coin) := by
  induction spends with
  | nil => simp [redeemedAmount]
  | cons spend rest ih =>
    have largest : spend.denomination.toAmount ≤ 100000 * coin := by
      cases spend.denomination <;> decide
    unfold redeemedAmount at ih ⊢
    rw [List.map_cons, List.sum_cons, List.length_cons, Nat.cast_succ, add_mul, one_mul]
    omega

/-- A transaction of which the first input spends a zerocoin is accepted only if all of them do,
in no larger number than a transaction may have, and `CheckZerocoinSpend` accepts it. -/
theorem spends_of_checkTransaction
    (accepts : (checkTransaction params lib fVerifySignature true tx checks).1 = .accept)
    (zerocoin : tx.isZerocoinSpend = true) :
    tx.zerocoinSpendInputs = tx.vin ∧
      tx.vin.length ≤ params.nMaxZerocoinSpendsPerTransaction ∧
      ∃ reached, (checkZerocoinSpend lib fVerifySignature tx reached).1 = .accept := by
  have all : Stage.rejectIf (fun _ => true && tx.isZerocoinSpend &&
        tx.vin.any fun txin => !txin.scriptSig.isZerocoinSpend) (CheckState.dos 100 0 "") ∈
      checkTransactionStages params lib fVerifySignature true tx := by
    simp [checkTransactionStages]
  have spend : Stage.when (true && tx.isZerocoinSpend)
        (Stage.require (checkZerocoinSpend lib fVerifySignature tx) (CheckState.dos 100 0 "")) ∈
      checkTransactionStages params lib fVerifySignature true tx := by
    simp [checkTransactionStages]
  have last := @List.mem_of_getElem? _
    (checkTransactionStages params lib fVerifySignature true tx) 8 _ rfl
  refine ⟨?_, ?_, ?_⟩
  · obtain ⟨_, passed⟩ := passes_of_checkTransaction accepts all
    have none := Stage.test_of_rejectIf _ passed
    rw [zerocoin, Bool.true_and, Bool.true_and, List.any_eq_false] at none
    refine List.filter_eq_self.mpr fun txin member => ?_
    simpa using none txin member
  · obtain ⟨_, passed⟩ := passes_of_checkTransaction accepts last
    have notBase : tx.isCoinBase = false := by
      unfold CTransaction.isCoinBase CTransaction.containsZerocoins
      rw [zerocoin]
      split <;> simp
    by_contra many
    have fault : inputFault params true tx = some (10, "bad-zerocoinspend") := by
      unfold inputFault
      rw [notBase, zerocoin, if_neg Bool.false_ne_true, Bool.and_self, if_pos rfl,
        if_pos (.inr (Nat.lt_of_not_le many))]
    rw [fault] at passed
    cases passed
  · obtain ⟨reached, passed⟩ := passes_of_checkTransaction accepts spend
    rw [zerocoin, Bool.and_self, Stage.when, if_pos rfl, Stage.require_eq] at passed
    dsimp only at passed
    split_ifs at passed with accepted
    exact ⟨reached, accepted⟩

/-- An accepted spend redeems what it pays with the inputs that spend zerocoins; and wherever
`CheckTransaction` accepts the transaction, all inputs are of that kind, and what they redeem is
far from the bound of `CAmount`. -/
theorem checkZerocoinSpend_redeems
    {lib : ZerocoinLib} {fVerifySignature : Bool} {tx : CTransaction} {checks : CheckState}
    (accepts : (checkZerocoinSpend lib fVerifySignature tx checks).1 = .accept) :
    ∃ spends, Redeems lib tx spends ∧
      ∀ params before,
        (checkTransaction params lib fVerifySignature true tx before).1 = .accept →
        tx.isZerocoinSpend = true →
          (∀ txin ∈ tx.vin, txin.scriptSig.isZerocoinSpend = true) ∧
            redeemedAmount spends ≤ params.nMaxZerocoinSpendsPerTransaction * (100000 * coin) := by
  obtain ⟨spends, redeems⟩ := redeems_of_accept accepts
  refine ⟨spends, redeems, fun params before transaction zerocoin => ?_⟩
  obtain ⟨all, few, _⟩ := spends_of_checkTransaction transaction zerocoin
  have same := redeems.carried.length_eq
  have atMost := redeemedAmount_le spends
  rw [all] at same
  refine ⟨List.filter_eq_self.mp all, ?_⟩
  unfold coin at atMost ⊢
  omega

/-- A library for which every input spends a coin of 50. -/
def fiftyLib : ZerocoinLib where
  txInToZerocoinSpend _ := some ⟨7, .zqOne, 11, 13⟩
  validate _ := true
  verify _ _ := true
  hashOutputs _ := 11

/-- A spend of a coin of 50, with further inputs. -/
def fiftySpend (others : List CTxIn) : CTransaction where
  hash := 1
  nVersion := 1
  vin := { prevout := .null, scriptSig := [Opcode.zerocoinSpend], nSequence := 50 } :: others
  vout := [{ nValue := 50 * coin, scriptPubKey := [Opcode.checkSig] }]
  nLockTime := 0

/-- The theorem at a spend of one coin, which `CheckTransaction` accepts. -/
theorem checkZerocoinSpend_redeems_fifty :
    ∃ spends, Redeems fiftyLib (fiftySpend []) spends ∧
      redeemedAmount spends ≤ 7 * (100000 * coin) := by
  obtain ⟨spends, redeems, further⟩ := checkZerocoinSpend_redeems
    (by decide : (checkZerocoinSpend fiftyLib false (fiftySpend []) bareChecks).1 = .accept)
  exact ⟨spends, redeems, (further .main bareChecks (by decide) (by decide)).2⟩

/-- By itself, `CheckZerocoinSpend` accepts an input that spends an ordinary output beside one
that spends a zerocoin. -/
theorem ordinary_input_passes :
    (checkZerocoinSpend fiftyLib false (fiftySpend [⟨⟨5, 0⟩, [], 0⟩]) bareChecks).1 = .accept ∧
      ¬∀ txin ∈ (fiftySpend [⟨⟨5, 0⟩, [], 0⟩]).vin, txin.scriptSig.isZerocoinSpend = true :=
  ⟨by decide, by decide⟩

end ColossusCoin
