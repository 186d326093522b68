import ColossusCoin.Primitives.Script
import Mathlib.Algebra.GroupWithZero.Nat
import Mathlib.Algebra.Ring.Int.Defs

/-!
# Transactions

Outpoints, inputs, outputs and transactions, with the predicates that sort
transactions into coinbases, coinstakes, zerocoin mints and zerocoin spends.
A transaction carries its hash as a field, as the source caches it.
-/

namespace ColossusCoin

/-- Hashes and 256-bit numbers, by their value. -/
abbrev Uint256 := Nat

/-- `COIN`: one coin in the smallest unit.  Amounts (`CAmount`) are integers
here, with the bounds of `int64_t` stated where the source relies on them. -/
def coin : Int := 100000000

/-- Largest value of an `int64_t`. -/
def int64Max : Int := 9223372036854775807

/-- `COutPoint`: a transaction hash and an output position in it. -/
@[ext]
structure COutPoint where
  hash : Uint256
  n : Nat
  deriving DecidableEq, Repr

namespace COutPoint

/-- The outpoint that `SetNull` leaves. -/
def null : COutPoint where
  hash := 0
  n := 0xffffffff

/-- `COutPoint::IsNull`. -/
def isNull (outpoint : COutPoint) : Bool :=
  outpoint.hash == 0 && outpoint.n == 0xffffffff

end COutPoint

/-- `CTxIn`: an input, naming the output it spends. -/
structure CTxIn where
  prevout : COutPoint
  scriptSig : CScript
  nSequence : Nat
  deriving DecidableEq, Repr

/-- `CTxOut`: an output.  `nRounds` is in memory only, but takes part in the
comparison of outputs. -/
structure CTxOut where
  nValue : Int
  scriptPubKey : CScript
  nRounds : Int := -10
  deriving DecidableEq, Repr

namespace CTxOut

/-- The output that `CTxOut()` and `SetNull` make. -/
def null : CTxOut where
  nValue := -1
  scriptPubKey := []

/-- `CTxOut::IsNull`. -/
def isNull (txout : CTxOut) : Bool :=
  txout.nValue == -1

/-- `CTxOut::IsEmpty`. -/
def isEmpty (txout : CTxOut) : Bool :=
  txout.nValue == 0 && txout.scriptPubKey.isEmpty

/-- `CTxOut::IsZerocoinMint`. -/
def isZerocoinMint (txout : CTxOut) : Bool :=
  !txout.scriptPubKey.isEmpty && txout.scriptPubKey.isZerocoinMint

@[simp] theorem isNull_null : null.isNull = true := rfl

@[simp] theorem scriptPubKey_null : null.scriptPubKey = [] := rfl

theorem isNull_eq_false_of_nonneg
    {txout : CTxOut}
    (nonneg : 0 ≤ txout.nValue) :
    txout.isNull = false := by
  simp only [isNull, beq_eq_false_iff_ne]
  omega

@[simp] theorem isZerocoinMint_eq (txout : CTxOut) :
    txout.isZerocoinMint = txout.scriptPubKey.isZerocoinMint := by
  cases script : txout.scriptPubKey with
  | nil => simp [isZerocoinMint, script]
  | cons opcode rest => simp [isZerocoinMint, script]

end CTxOut

structure CTransaction where
  hash : Uint256
  nVersion : Int
  vin : List CTxIn
  vout : List CTxOut
  nLockTime : Nat
  deriving DecidableEq, Repr

namespace CTransaction

/-- `CTransaction::IsZerocoinSpend`, which looks at the first input only.  The
source reads `scriptSig[0]` without a length check; an empty script is taken
not to start with the opcode. -/
def isZerocoinSpend (tx : CTransaction) : Bool :=
  match tx.vin with
  | [] => false
  | txin :: _ => txin.prevout.isNull && txin.scriptSig.isZerocoinSpend

/-- `CTransaction::IsZerocoinMint`: some output is a mint. -/
def isZerocoinMint (tx : CTransaction) : Bool :=
  tx.vout.any fun txout => txout.scriptPubKey.isZerocoinMint

/-- `CTransaction::ContainsZerocoins`. -/
def containsZerocoins (tx : CTransaction) : Bool :=
  tx.isZerocoinSpend || tx.isZerocoinMint

/-- `CTransaction::IsCoinBase`. -/
def isCoinBase (tx : CTransaction) : Bool :=
  match tx.vin with
  | [txin] => txin.prevout.isNull && !tx.containsZerocoins
  | _ => false

/-- `CTransaction::IsCoinStake`: marked by an empty first output. -/
def isCoinStake (tx : CTransaction) : Bool :=
  match tx.vin, tx.vout with
  | txin :: _, first :: _ :: _ => !txin.prevout.isNull && first.isEmpty
  | _, _ => false

/-- Inputs of these transactions name no unspent output: they are neither
looked up, nor summed from the view, nor spent from it. -/
def spendsNoCoins (tx : CTransaction) : Bool :=
  tx.isCoinBase || tx.isZerocoinSpend

/-- The outpoints named by the inputs, in order. -/
def prevouts (tx : CTransaction) : List COutPoint :=
  tx.vin.map CTxIn.prevout

/-- `CTransaction::GetValueOut`, `none` where the source throws: on a negative
output and on a sum beyond `int64_t`. -/
def getValueOut (tx : CTransaction) : Option Int :=
  tx.vout.foldlM (fun nValueOut txout =>
    if txout.nValue < 0 ∨ int64Max < nValueOut + txout.nValue then none
    else some (nValueOut + txout.nValue)) 0

/-- The sum of the outputs as an unbounded integer. -/
def valueOutSum (tx : CTransaction) : Int :=
  (tx.vout.map CTxOut.nValue).sum

private theorem foldlM_valueOut
    (outs : List CTxOut) :
    ∀ (start result : Int),
      outs.foldlM (fun nValueOut txout =>
        if txout.nValue < 0 ∨ int64Max < nValueOut + txout.nValue then none
        else some (nValueOut + txout.nValue)) start = some result →
      result = start + (outs.map CTxOut.nValue).sum ∧
        ∀ txout ∈ outs, 0 ≤ txout.nValue := by
  induction outs with
  | nil =>
    intro start result returned
    simp only [List.foldlM_nil, Option.pure_def, Option.some.injEq] at returned
    simp [returned]
  | cons txout outs ih =>
    intro start result returned
    rw [List.foldlM_cons] at returned
    by_cases throws : txout.nValue < 0 ∨ int64Max < start + txout.nValue
    · simp [throws] at returned
    · rw [if_neg throws, Option.bind_eq_bind, Option.bind_some] at returned
      obtain ⟨sumEq, restNonneg⟩ := ih _ _ returned
      rw [not_or, Int.not_lt, Int.not_lt] at throws
      refine ⟨?_, ?_⟩
      · rw [sumEq, List.map_cons, List.sum_cons, Int.add_assoc]
      · intro current present
        rcases List.mem_cons.mp present with rfl | inRest
        · exact throws.1
        · exact restNonneg current inRest

/-- When `getValueOut` does not throw it is the plain sum, and every output is
nonnegative. -/
theorem getValueOut_eq_some
    {tx : CTransaction}
    (returned : tx.getValueOut = some nValueOut) :
    nValueOut = tx.valueOutSum ∧ ∀ txout ∈ tx.vout, 0 ≤ txout.nValue := by
  obtain ⟨sumEq, nonneg⟩ := foldlM_valueOut tx.vout 0 nValueOut returned
  exact ⟨by rw [sumEq, valueOutSum, Int.zero_add], nonneg⟩

/-- `GetSizeOfCompactSize`. -/
def compactSize (nSize : Nat) : Nat :=
  if nSize < 253 then 1
  else if nSize ≤ 0xffff then 3
  else if nSize ≤ 0xffffffff then 5
  else 9

/-- Serialized size of a script with its length prefix. -/
def scriptSize (script : CScript) : Nat :=
  compactSize script.length + script.length

/-- `GetSerializeSize` of a transaction: version, inputs, outputs, lock time. -/
def getSerializeSize (tx : CTransaction) : Nat :=
  4 + (compactSize tx.vin.length +
      (tx.vin.map fun txin => 36 + scriptSize txin.scriptSig + 4).sum) +
    (compactSize tx.vout.length +
      (tx.vout.map fun txout => 8 + scriptSize txout.scriptPubKey).sum) + 4

def getLegacySigOpCount (tx : CTransaction) : Nat :=
  (tx.vin.map fun txin => txin.scriptSig.getSigOpCount false).sum +
    (tx.vout.map fun txout => txout.scriptPubKey.getSigOpCount false).sum

end CTransaction
end ColossusCoin
