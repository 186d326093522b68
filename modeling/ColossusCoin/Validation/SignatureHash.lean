import ColossusCoin.Chain.BlockEncoding
import ColossusCoin.Primitives.ScriptPushes

/-!
# The signature hash

`SignatureHash` serializes a transaction as if it had been copied and changed: the inputs and
outputs that a hash type leaves out are blanked while they are written, and the script is written
piece by piece around its `OP_CODESEPARATOR`s.  `SignatureHashOld` of the tests makes the copy.
An iterator of a script is what remains of the script from there on.
-/

namespace ColossusCoin

open ByteReaders

namespace Opcode

def codeSeparator : UInt8 := 0xab

end Opcode

namespace SignatureHash

open CScript

def sighashNone : BitVec 32 := 2
def sighashSingle : BitVec 32 := 3
def sighashAnyoneCanPay : BitVec 32 := 0x80

/-- `GetOp` at an iterator. -/
def readOp (it : CScript) : ReadOp :=
  (getOp2 it 0).getD (.failed 0)

/-- The first loop of `SerializeScriptCode`; every pass consumes a byte. -/
def countSeparators : Nat → CScript → Nat
  | 0, _ => 0
  | fuel + 1, it =>
    if (readOp it).fRet then
      (if (readOp it).opcodeRet = Opcode.codeSeparator then 1 else 0) +
        countSeparators fuel (it.drop (readOp it).pc)
    else 0

/-- `s.write` of the bytes from an iterator up to another. -/
def writeUpTo (itBegin it : CScript) : List UInt8 :=
  itBegin.take (itBegin.length - it.length)

/-- The second loop of `SerializeScriptCode`, with the write behind it. -/
def writePieces : Nat → CScript → CScript → List UInt8
  | 0, _, _ => []
  | fuel + 1, itBegin, it =>
    let next := it.drop (readOp it).pc
    if (readOp it).fRet then
      if (readOp it).opcodeRet = Opcode.codeSeparator then
        itBegin.take (itBegin.length - next.length - 1) ++ writePieces fuel next next
      else writePieces fuel itBegin next
    -- The iterator stays where `GetOp` failed.
    else if itBegin ≠ [] then writeUpTo itBegin next
    else []

def serializeScriptCode (scriptCode : CScript) : List UInt8 :=
  writeCompactSize (scriptCode.length - countSeparators (scriptCode.length + 1) scriptCode) ++
    writePieces (scriptCode.length + 1) scriptCode scriptCode

/-- `CTransactionSignatureSerializer`. -/
structure Serializer where
  txTo : CTransaction
  scriptCode : CScript
  nIn : Nat
  nHashType : BitVec 32

namespace Serializer

variable (self : Serializer)

def fAnyoneCanPay : Bool := self.nHashType &&& sighashAnyoneCanPay ≠ 0
def fHashSingle : Bool := self.nHashType &&& 0x1f = sighashSingle
def fHashNone : Bool := self.nHashType &&& 0x1f = sighashNone

/-- `SerializeInput`; no result where there is no such input. -/
def serializeInput (nInput : Nat) : Option (List UInt8) := do
  let nInput := if self.fAnyoneCanPay then self.nIn else nInput
  let txin ← self.txTo.vin[nInput]?
  pure (CDiskBlockIndex.writeOutPoint txin.prevout ++
    ((if nInput ≠ self.nIn then writeByteVector [] else serializeScriptCode self.scriptCode) ++
    if nInput ≠ self.nIn ∧ (self.fHashSingle ∨ self.fHashNone) then littleEndian 4 0
    else littleEndian 4 txin.nSequence))

/-- `SerializeOutput`; no result where there is no such output. -/
def serializeOutput (nOutput : Nat) : Option (List UInt8) :=
  if self.fHashSingle ∧ nOutput ≠ self.nIn then some CTxOut.null.serialize
  else self.txTo.vout[nOutput]?.map CTxOut.serialize

/-- A loop that writes for every number below a bound. -/
def writeEach (write : Nat → Option (List UInt8)) : Nat → Option (List UInt8)
  | 0 => some []
  | n + 1 => do
    let before ← writeEach write n
    let bytes ← write n
    pure (before ++ bytes)

/-- `Serialize`. -/
def serialize : Option (List UInt8) := do
  let nInputs := if self.fAnyoneCanPay then 1 else self.txTo.vin.length
  let inputs ← writeEach self.serializeInput nInputs
  let nOutputs := if self.fHashNone then 0
    else if self.fHashSingle then self.nIn + 1 else self.txTo.vout.length
  let outputs ← writeEach self.serializeOutput nOutputs
  pure (writeSigned 4 self.txTo.nVersion ++ ((writeCompactSize nInputs ++ inputs) ++
    ((writeCompactSize nOutputs ++ outputs) ++ littleEndian 4 self.txTo.nLockTime)))

end Serializer

/-- A signature hash: the number one, or the hash of some bytes. -/
inductive SigHash
  | one
  | ofBytes (bytes : List UInt8)
  deriving DecidableEq, Repr

/-- `SignatureHash`. -/
def signatureHash (scriptCode : CScript) (txTo : CTransaction) (nIn : Nat)
    (nHashType : BitVec 32) : Option SigHash :=
  if txTo.vin.length ≤ nIn then some .one
  else if nHashType &&& 0x1f = sighashSingle ∧ txTo.vout.length ≤ nIn then some .one
  else do
    let bytes ← Serializer.serialize ⟨txTo, scriptCode, nIn, nHashType⟩
    pure (.ofBytes (bytes ++ littleEndian 4 nHashType.toNat))

/-- The inner loop of `FindAndDelete`: what remains at the iterator, and how many are erased. -/
def eraseHere (b : CScript) : Nat → CScript → CScript × Nat
  | 0, pc => (pc, 0)
  | fuel + 1, pc =>
    if b.length ≤ pc.length ∧ pc.take b.length = b then
      let erased := eraseHere b fuel (pc.drop b.length)
      (erased.1, erased.2 + 1)
    else (pc, 0)

/-- The loop of `FindAndDelete` from an iterator on. -/
def findAndDeleteLoop (b : CScript) : Nat → CScript → CScript × Nat
  | 0, pc => (pc, 0)
  | fuel + 1, pc =>
    let erased := eraseHere b pc.length pc
    let read := readOp erased.1
    if read.fRet then
      let rest := findAndDeleteLoop b fuel (erased.1.drop read.pc)
      (erased.1.take read.pc ++ rest.1, erased.2 + rest.2)
    else erased

/-- `FindAndDelete`: the script that is left, and the number found. -/
def findAndDelete (script b : CScript) : CScript × Nat :=
  if b = [] then (script, 0) else findAndDeleteLoop b (script.length + 1) script

/-- The inputs that the copy has: the script stands in the one that is signed. -/
def copiedInputs (scriptCode : CScript) (vin : List CTxIn) (nIn : Nat) : List CTxIn :=
  (vin.map fun txin => { txin with scriptSig := [] }).modify nIn
    fun txin => { txin with scriptSig := scriptCode }

/-- The others may be updated at will. -/
def updatable (vin : List CTxIn) (nIn : Nat) : List CTxIn :=
  vin.mapIdx fun i txin => if i ≠ nIn then { txin with nSequence := 0 } else txin

/-- The copy with its outputs and sequence numbers blanked; no result where an output is
missing. -/
def blankOutputs (txTmp : CTransaction) (nIn : Nat) (nHashType : BitVec 32) :
    Option CTransaction :=
  if nHashType &&& 0x1f = sighashNone then
    some { txTmp with vout := [], vin := updatable txTmp.vin nIn }
  else if nHashType &&& 0x1f = sighashSingle then
    if txTmp.vout.length ≤ nIn then none
    else some { txTmp with
      vout := (txTmp.vout.take (nIn + 1)).mapIdx fun i txout => if i < nIn then .null else txout
      vin := updatable txTmp.vin nIn }
  else some txTmp

/-- The other inputs are blanked completely: `txTmp.vin[0] = txTmp.vin[nIn]` and `resize(1)`. -/
def blankInputs (vin : List CTxIn) (nIn : Nat) (nHashType : BitVec 32) : Option (List CTxIn) :=
  if nHashType &&& sighashAnyoneCanPay ≠ 0 then
    vin[nIn]?.map fun txin => (vin.set 0 txin).take 1
  else some vin

/-- `SignatureHashOld`. -/
def signatureHashOld (scriptCode : CScript) (txTo : CTransaction) (nIn : Nat)
    (nHashType : BitVec 32) : Option SigHash :=
  if txTo.vin.length ≤ nIn then some .one
  else
    let deleted := (findAndDelete scriptCode [Opcode.codeSeparator]).1
    match blankOutputs { txTo with vin := copiedInputs deleted txTo.vin nIn } nIn nHashType with
    | none => some .one
    | some txTmp => do
      let vin ← blankInputs txTmp.vin nIn nHashType
      pure (.ofBytes ({ txTmp with vin := vin }.serialize ++ littleEndian 4 nHashType.toNat))

/-- All instructions of a script parse. -/
inductive Parses : CScript → Prop
  | ended : Parses []
  | next {it : CScript} (read : (readOp it).fRet = true)
      (others : Parses (it.drop (readOp it).pc)) : Parses it

section Scripts

variable {it kept : CScript} {n fuel : Nat}

theorem readOp_codeSeparator (rest : CScript) :
    readOp (Opcode.codeSeparator :: rest) = ⟨true, 1, Opcode.codeSeparator, []⟩ := by
  rw [readOp, getOp2_of_plain List.drop_zero (by decide), Option.getD_some]

theorem readOp_nil : readOp [] = .failed 0 := rfl

/-- An instruction that parses has the opcode that stands at the iterator. -/
theorem head?_of_readOp (read : (readOp it).fRet = true) :
    it.head? = some (readOp it).opcodeRet := by
  cases it with
  | nil => cases read
  | cons opcode rest =>
    rw [readOp] at read ⊢
    by_cases push : opcode ≤ Opcode.pushData4
    · rw [getOp2_of_push List.drop_zero push, Option.getD_some] at read ⊢
      dsimp only at read ⊢
      split_ifs at read ⊢
      · cases read
      · cases read
      · rfl
    · rw [getOp2_of_plain List.drop_zero push]
      rfl

theorem pc_readOp (read : (readOp it).fRet = true) :
    0 < (readOp it).pc ∧ (readOp it).pc ≤ it.length := by
  obtain ⟨found, result, -, inside, moves, -⟩ := getOp2_spec it 0
  rw [readOp, result, Option.getD_some] at read ⊢
  exact ⟨moves read, by rwa [Nat.zero_max] at inside⟩

/-- A script, what is left of it without its separators, and their number. -/
inductive Strips : CScript → CScript → Nat → Prop
  | ended : Strips [] [] 0
  | separator {rest kept : CScript} {n : Nat} (others : Strips rest kept n) :
    Strips (Opcode.codeSeparator :: rest) kept (n + 1)
  | other {it kept : CScript} {n : Nat} (read : (readOp it).fRet = true)
      (different : (readOp it).opcodeRet ≠ Opcode.codeSeparator)
      (others : Strips (it.drop (readOp it).pc) kept n) :
    Strips it (it.take (readOp it).pc ++ kept) n

theorem Parses.strips (parses : Parses it) : ∃ kept n, Strips it kept n := by
  induction parses with
  | ended => exact ⟨[], 0, .ended⟩
  | @next it read others ih =>
    obtain ⟨kept, n, strips⟩ := ih
    by_cases same : (readOp it).opcodeRet = Opcode.codeSeparator
    · obtain ⟨rest, shape⟩ := List.head?_eq_some_iff.mp (head?_of_readOp read)
      rw [same] at shape
      subst shape
      rw [readOp_codeSeparator] at strips
      exact ⟨kept, n + 1, .separator strips⟩
    · exact ⟨_, n, .other read same strips⟩

namespace Strips

theorem length_eq (strips : Strips it kept n) : it.length = kept.length + n := by
  induction strips with
  | ended => rfl
  | separator others ih =>
    rw [List.length_cons, ih, Nat.add_assoc]
  | @other it kept n read different others ih =>
    rw [List.length_drop] at ih
    rw [List.length_append, List.length_take]
    omega

theorem countSeparators_eq
    (strips : Strips it kept n)
    (enough : it.length < fuel) :
    countSeparators fuel it = n := by
  obtain ⟨fuel, rfl⟩ := Nat.exists_eq_add_one_of_ne_zero (Nat.ne_zero_of_lt enough)
  induction strips generalizing fuel with
  | ended => rfl
  | separator others ih =>
    rw [List.length_cons] at enough
    obtain ⟨fuel, rfl⟩ := Nat.exists_eq_add_one_of_ne_zero (show fuel ≠ 0 by omega)
    rw [countSeparators, readOp_codeSeparator, if_pos rfl, if_pos rfl, List.drop_one,
      List.tail_cons, ih fuel (by omega), Nat.add_comm]
  | @other it kept n read different others ih =>
    obtain ⟨moves, inside⟩ := pc_readOp read
    obtain ⟨fuel, rfl⟩ := Nat.exists_eq_add_one_of_ne_zero (show fuel ≠ 0 by omega)
    rw [countSeparators, if_pos read, if_neg different, Nat.zero_add, ih fuel]
    rw [List.length_drop]
    omega

/-- The pieces from an iterator on are what is left of the script, with the bytes before them. -/
theorem writePieces_eq
    (strips : Strips it kept n)
    (enough : it.length < fuel)
    (before : List UInt8) :
    writePieces fuel (before ++ it) it = before ++ kept := by
  obtain ⟨fuel, rfl⟩ := Nat.exists_eq_add_one_of_ne_zero (Nat.ne_zero_of_lt enough)
  induction strips generalizing fuel before with
  | ended =>
    rw [writePieces, readOp_nil, if_neg (by decide), List.append_nil]
    split_ifs with some
    · rw [writeUpTo, List.drop_nil, List.length_nil, Nat.sub_zero, List.take_length]
    · exact (not_not.mp some).symm
  | @separator rest kept n others ih =>
    rw [List.length_cons] at enough
    obtain ⟨fuel, rfl⟩ := Nat.exists_eq_add_one_of_ne_zero (show fuel ≠ 0 by omega)
    have onward := ih [] fuel (by omega)
    rw [List.nil_append] at onward
    have pieces : (before ++ Opcode.codeSeparator :: rest).length - rest.length - 1 =
        before.length := by
      rw [List.length_append, List.length_cons]
      omega
    rw [writePieces, readOp_codeSeparator, if_pos rfl, if_pos rfl, List.drop_one,
      List.tail_cons, onward, pieces, List.take_left, List.nil_append]
  | @other it kept n read different others ih =>
    obtain ⟨moves, inside⟩ := pc_readOp read
    obtain ⟨fuel, rfl⟩ := Nat.exists_eq_add_one_of_ne_zero (show fuel ≠ 0 by omega)
    have onward := ih (before ++ it.take (readOp it).pc) fuel
      (by rw [List.length_drop]; omega)
    rw [List.append_assoc, List.take_append_drop] at onward
    rw [writePieces, if_pos read, if_neg different, onward, List.append_assoc]

theorem findAndDeleteLoop_eq
    (strips : Strips it kept n)
    (enough : it.length < fuel) :
    findAndDeleteLoop [Opcode.codeSeparator] fuel it = (kept, n) := by
  obtain ⟨fuel, rfl⟩ := Nat.exists_eq_add_one_of_ne_zero (Nat.ne_zero_of_lt enough)
  induction strips generalizing fuel with
  | ended => rfl
  | @separator rest kept n others ih =>
    rw [List.length_cons] at enough
    have onward := ih fuel (by omega)
    have erased : eraseHere [Opcode.codeSeparator] (rest.length + 1)
        (Opcode.codeSeparator :: rest) =
          ((eraseHere [Opcode.codeSeparator] rest.length rest).1,
            (eraseHere [Opcode.codeSeparator] rest.length rest).2 + 1) :=
      if_pos ⟨Nat.succ_le_succ (Nat.zero_le _), rfl⟩
    rw [findAndDeleteLoop] at onward ⊢
    rw [List.length_cons, erased]
    dsimp only at onward ⊢
    split_ifs at onward ⊢ with read
    · obtain ⟨sameScript, sameNumber⟩ := Prod.mk.inj onward
      rw [sameScript, ← sameNumber, Nat.add_right_comm]
    · rw [onward]
  | @other it kept n read different others ih =>
    obtain ⟨moves, inside⟩ := pc_readOp read
    obtain ⟨fuel, rfl⟩ := Nat.exists_eq_add_one_of_ne_zero (show fuel ≠ 0 by omega)
    have untouched : eraseHere [Opcode.codeSeparator] it.length it = (it, 0) := by
      obtain ⟨rest, shape⟩ := List.head?_eq_some_iff.mp (head?_of_readOp read)
      rw [shape, List.length_cons, eraseHere, if_neg]
      rintro ⟨-, starts⟩
      exact different (List.cons.inj starts).1
    rw [findAndDeleteLoop, untouched, if_pos read, ih fuel (by rw [List.length_drop]; omega)]
    dsimp only
    rw [Nat.zero_add]

theorem findAndDelete_eq (strips : Strips it kept n) :
    findAndDelete it [Opcode.codeSeparator] = (kept, n) :=
  (if_neg (List.cons_ne_nil _ _)).trans (strips.findAndDeleteLoop_eq (Nat.lt_succ_self _))

theorem serializeScriptCode_eq (strips : Strips it kept n) :
    serializeScriptCode it = writeByteVector kept := by
  have pieces := strips.writePieces_eq (Nat.lt_succ_self _) []
  rw [List.nil_append, List.nil_append] at pieces
  rw [serializeScriptCode, strips.countSeparators_eq (Nat.lt_succ_self _), pieces,
    strips.length_eq, Nat.add_sub_cancel, writeByteVector]

end Strips

end Scripts

namespace Serializer

variable {self : Serializer} {kept : CScript} {n : Nat}

theorem writeEach_eq
    {write : Nat → Option (List UInt8)} {serialize : α → List UInt8} {values : List α}
    (each : ∀ i < values.length, write i = values[i]?.map serialize) :
    writeEach write values.length = some (values.flatMap serialize) := by
  have upTo : ∀ count ≤ values.length,
      writeEach write count = some ((values.take count).flatMap serialize) := by
    intro count inside
    induction count with
    | zero => rfl
    | succ count ih =>
      rw [writeEach, ih (Nat.le_of_lt inside), each count inside, List.take_add_one,
        List.getElem?_eq_getElem inside, List.flatMap_append]
      simp
  rw [upTo _ (le_refl _), List.take_length]

/-- What the copy has for an input. -/
def copiedInput (self : Serializer) (kept : CScript) (i : Nat) (txin : CTxIn) : CTxIn where
  prevout := txin.prevout
  scriptSig := if i = self.nIn then kept else []
  nSequence := if i ≠ self.nIn ∧ (self.fHashSingle ∨ self.fHashNone) then 0 else txin.nSequence

/-- The transaction and the copy agree on what is written. -/
structure Copied (serializer : Serializer) (kept : CScript) (txTmp : CTransaction) : Prop where
  nVersion : txTmp.nVersion = serializer.txTo.nVersion
  nLockTime : txTmp.nLockTime = serializer.txTo.nLockTime
  vin : ∀ i : Nat, txTmp.vin[i]? = serializer.txTo.vin[i]?.map (serializer.copiedInput kept i)
  vout : ∀ i < txTmp.vout.length,
    serializer.serializeOutput i = txTmp.vout[i]?.map CTxOut.serialize
  outputs : txTmp.vout.length = if serializer.fHashNone then 0
    else if serializer.fHashSingle then serializer.nIn + 1 else serializer.txTo.vout.length

theorem serializeInput_eq
    {txTmp : CTransaction}
    (strips : Strips self.scriptCode kept n)
    (copied : self.Copied kept txTmp)
    (i : Nat) :
    self.serializeInput i =
      txTmp.vin[if self.fAnyoneCanPay then self.nIn else i]?.map CTxIn.serialize := by
  rw [serializeInput, copied.vin]
  generalize (if self.fAnyoneCanPay = true then self.nIn else i) = nInput
  cases self.txTo.vin[nInput]? with
  | none => rfl
  | some txin =>
    rw [strips.serializeScriptCode_eq, Option.map_some, Option.map_some, CTxIn.serialize,
      copiedInput]
    dsimp only [Option.bind_eq_bind, Option.bind_some]
    by_cases signed : nInput = self.nIn
    · rw [if_neg (not_not.mpr signed), if_pos signed, if_neg fun other => other.1 signed,
        if_neg fun other => other.1 signed]
      rfl
    · rw [if_pos signed, if_neg signed]
      split_ifs <;> rfl

theorem Copied.length_vin
    {txTmp : CTransaction}
    (copied : self.Copied kept txTmp) :
    txTmp.vin.length = self.txTo.vin.length := by
  have sameNone : ∀ i : Nat, txTmp.vin.length ≤ i ↔ self.txTo.vin.length ≤ i := by
    intro i
    rw [← List.getElem?_eq_none_iff, copied.vin, Option.map_eq_none_iff,
      List.getElem?_eq_none_iff]
  exact le_antisymm ((sameNone _).mpr (le_refl _)) ((sameNone _).mp (le_refl _))

/-- What is written is the copy, with only the input that is signed where the others may be any. -/
theorem serialize_eq
    {txTmp : CTransaction}
    (strips : Strips self.scriptCode kept n)
    (copied : self.Copied kept txTmp)
    (inside : self.nIn < self.txTo.vin.length) :
    ∃ vin, blankInputs txTmp.vin self.nIn self.nHashType = some vin ∧
      self.serialize = some ({ txTmp with vin := vin }.serialize) := by
  have anyone : self.fAnyoneCanPay = true ↔ self.nHashType &&& sighashAnyoneCanPay ≠ 0 :=
    decide_eq_true_iff
  have outputs := writeEach_eq copied.vout
  rw [serialize, ← copied.outputs, ← copied.nVersion, ← copied.nLockTime]
  dsimp only
  rw [outputs]
  cases any : self.fAnyoneCanPay with
  | false =>
    have inputs : writeEach self.serializeInput txTmp.vin.length =
        some (txTmp.vin.flatMap CTxIn.serialize) := by
      refine writeEach_eq fun i _ => ?_
      rw [serializeInput_eq strips copied, any, if_neg Bool.false_ne_true]
    have shared := anyone.not.mp (by rw [any]; exact Bool.false_ne_true)
    refine ⟨txTmp.vin, if_neg shared, ?_⟩
    rw [if_neg Bool.false_ne_true, ← copied.length_vin, inputs]
    rfl
  | true =>
    rw [← copied.length_vin] at inside
    have signed := List.getElem?_eq_getElem inside
    generalize txTmp.vin[self.nIn] = txin at signed
    have inputs : writeEach self.serializeInput [txin].length =
        some ([txin].flatMap CTxIn.serialize) := by
      refine writeEach_eq fun i first => ?_
      obtain rfl := Nat.lt_one_iff.mp first
      rw [serializeInput_eq strips copied, any, if_pos rfl, signed]
      rfl
    refine ⟨[txin], ?_, ?_⟩
    · rw [blankInputs, if_pos (anyone.mp any), signed, Option.map_some]
      cases vin : txTmp.vin with
      | nil =>
        rw [vin] at inside
        exact absurd inside (Nat.not_lt_zero _)
      | cons first others => rfl
    · rw [List.length_singleton] at inputs
      rw [if_pos rfl, inputs]
      rfl

theorem getElem?_copiedInputs (vin : List CTxIn) (nIn i : Nat) :
    (copiedInputs kept vin nIn)[i]? = vin[i]?.map fun txin =>
      { txin with scriptSig := if i = nIn then kept else [] } := by
  rw [copiedInputs, List.getElem?_modify, List.getElem?_map]
  cases vin[i]? with
  | none => rfl
  | some txin =>
    by_cases signed : i = nIn
    · simp [signed]
    · simp [signed, Ne.symm signed]

theorem fHashSingle_iff : self.fHashSingle = true ↔ self.nHashType &&& 0x1f = sighashSingle :=
  decide_eq_true_iff

theorem fHashNone_iff : self.fHashNone = true ↔ self.nHashType &&& 0x1f = sighashNone :=
  decide_eq_true_iff

/-- The inputs of the copy where the others may be updated. -/
theorem getElem?_updatable
    (free : self.fHashSingle ∨ self.fHashNone)
    (i : Nat) :
    (updatable (copiedInputs kept self.txTo.vin self.nIn) self.nIn)[i]? =
      self.txTo.vin[i]?.map (self.copiedInput kept i) := by
  rw [updatable, List.getElem?_mapIdx, getElem?_copiedInputs, Option.map_map]
  refine Option.map_congr fun txin _ => ?_
  by_cases signed : i = self.nIn
  · simp [copiedInput, signed]
  · simp [copiedInput, signed, free]

/-- The copy is refused for the output that is missing. -/
theorem blankOutputs_eq_none_iff (vin : List CTxIn) :
    blankOutputs { self.txTo with vin := vin } self.nIn self.nHashType = none ↔
      self.nHashType &&& 0x1f = sighashSingle ∧ self.txTo.vout.length ≤ self.nIn := by
  rw [blankOutputs]
  split_ifs with hashNone single missing
  · refine iff_of_false id fun both => ?_
    rw [hashNone] at both
    exact absurd both.1 (by decide)
  · exact iff_of_true rfl ⟨single, missing⟩
  · exact iff_of_false id fun both => missing both.2
  · exact iff_of_false id fun both => single both.1

theorem copied_of_blankOutputs
    {txTmp : CTransaction}
    (blanked : blankOutputs { self.txTo with vin := copiedInputs kept self.txTo.vin self.nIn }
      self.nIn self.nHashType = some txTmp) :
    self.Copied kept txTmp := by
  rw [blankOutputs] at blanked
  split_ifs at blanked with hashNone single missing
  · obtain rfl := Option.some.inj blanked
    exact {
      nVersion := rfl
      nLockTime := rfl
      vin := getElem?_updatable (.inr (fHashNone_iff.mpr hashNone))
      vout := fun i below => absurd below (Nat.not_lt_zero i)
      outputs := (if_pos (fHashNone_iff.mpr hashNone)).symm }
  · obtain rfl := Option.some.inj blanked
    dsimp only at missing
    have length : ((self.txTo.vout.take (self.nIn + 1)).mapIdx
        fun i txout => if i < self.nIn then CTxOut.null else txout).length = self.nIn + 1 := by
      rw [List.length_mapIdx, List.length_take]
      omega
    refine ⟨rfl, rfl, getElem?_updatable (.inl (fHashSingle_iff.mpr single)),
      fun i below => ?_, ?_⟩
    · rw [length] at below
      have there := List.getElem?_eq_getElem (show i < self.txTo.vout.length by omega)
      rw [serializeOutput, List.getElem?_mapIdx, List.getElem?_take_of_lt below, there,
        Option.map_some, Option.map_some, Option.map_some]
      by_cases signed : i = self.nIn
      · rw [if_neg fun other => other.2 signed, if_neg (by omega)]
      · rw [if_pos ⟨fHashSingle_iff.mpr single, signed⟩, if_pos (by omega)]
    · rw [if_neg (fHashNone_iff.not.mpr hashNone), if_pos (fHashSingle_iff.mpr single)]
      exact length
  · obtain rfl := Option.some.inj blanked
    have notSingle := fHashSingle_iff.not.mpr single
    have notNone := fHashNone_iff.not.mpr hashNone
    refine ⟨rfl, rfl, fun i => ?_, fun i _ => if_neg fun other => notSingle other.1, ?_⟩
    · rw [getElem?_copiedInputs]
      refine Option.map_congr fun txin _ => ?_
      have keeps : ¬(i ≠ self.nIn ∧ (self.fHashSingle = true ∨ self.fHashNone = true)) :=
        fun free => free.2.elim notSingle notNone
      rw [copiedInput, if_neg keeps]
    · rw [if_neg notNone, if_neg notSingle]

end Serializer

/-- `SignatureHash` is one exactly where there is no such input, or where a single output is signed
and there is no such output, and so is `SignatureHashOld`.  Otherwise, where all instructions of
the script parse, they hash the same bytes, and neither reads past the end of a vector. -/
theorem signatureHash_eq_old
    {scriptCode : CScript} (parses : Parses scriptCode)
    (txTo : CTransaction) (nIn : Nat) (nHashType : BitVec 32) :
    ∃ result, signatureHash scriptCode txTo nIn nHashType = some result ∧
      signatureHashOld scriptCode txTo nIn nHashType = some result ∧
      (result = .one ↔ txTo.vin.length ≤ nIn ∨
        (nHashType &&& 0x1f = sighashSingle ∧ txTo.vout.length ≤ nIn)) := by
  obtain ⟨kept, n, strips⟩ := parses.strips
  rw [signatureHash, signatureHashOld, strips.findAndDelete_eq]
  by_cases outside : txTo.vin.length ≤ nIn
  · rw [if_pos outside, if_pos outside]
    exact ⟨.one, rfl, rfl, iff_of_true rfl (.inl outside)⟩
  rw [if_neg outside, if_neg outside]
  dsimp only
  have refused : blankOutputs { txTo with vin := copiedInputs kept txTo.vin nIn } nIn nHashType =
      none ↔ nHashType &&& 0x1f = sighashSingle ∧ txTo.vout.length ≤ nIn :=
    @Serializer.blankOutputs_eq_none_iff ⟨txTo, scriptCode, nIn, nHashType⟩ _
  by_cases missing : nHashType &&& 0x1f = sighashSingle ∧ txTo.vout.length ≤ nIn
  · rw [if_pos missing, refused.mpr missing]
    exact ⟨.one, rfl, rfl, iff_of_true rfl (.inr missing)⟩
  rw [if_neg missing]
  cases blanked : blankOutputs { txTo with vin := copiedInputs kept txTo.vin nIn } nIn
      nHashType with
  | none => exact absurd (refused.mp blanked) missing
  | some txTmp =>
    have copied : Serializer.Copied ⟨txTo, scriptCode, nIn, nHashType⟩ kept txTmp :=
      Serializer.copied_of_blankOutputs blanked
    obtain ⟨vin, signed, written⟩ := Serializer.serialize_eq strips copied (not_le.mp outside)
    dsimp only at signed ⊢
    rw [written, signed]
    exact ⟨.ofBytes _, rfl, rfl, iff_of_false (fun absurd => by cases absurd)
      fun either => either.elim outside missing⟩

/-- The theorem for a script with two separators. -/
theorem signatureHash_eq_old_separators :
    ∃ result,
      signatureHash [0xab, 0x51, 0xab] ⟨0, 1, [⟨.null, [], 0⟩], [], 0⟩ 0 1 = some result ∧
      signatureHashOld [0xab, 0x51, 0xab] ⟨0, 1, [⟨.null, [], 0⟩], [], 0⟩ 0 1 = some result ∧
      (result = .one ↔ 1 ≤ 0 ∨ ((1 : BitVec 32) &&& 0x1f = sighashSingle ∧ 0 ≤ 0)) := by
  have parses : Parses [0xab, 0x51, 0xab] := .next rfl (.next rfl (.next rfl .ended))
  exact signatureHash_eq_old parses ⟨0, 1, [⟨.null, [], 0⟩], [], 0⟩ 0 1

namespace Serializer

/-- What is signed of an input: its prevout, and its sequence number unless that is blanked. -/
def signedPart (serializer : Serializer) (i : Nat) (txin : CTxIn) : COutPoint × Nat :=
  (txin.prevout, if i ≠ serializer.nIn ∧ (serializer.fHashSingle ∨ serializer.fHashNone) then 0
    else txin.nSequence)

/-- Another transaction agrees in what is signed: the version, the lock time, the signed parts of
all inputs or of the one alone, and the outputs that the hash type does not leave out. -/
structure SameSigned (serializer : Serializer) (other : CTransaction) : Prop where
  nVersion : other.nVersion = serializer.txTo.nVersion
  nLockTime : other.nLockTime = serializer.txTo.nLockTime
  input : ∀ i : Nat, (serializer.fAnyoneCanPay = true → i = serializer.nIn) →
    other.vin[i]?.map (serializer.signedPart i) =
      serializer.txTo.vin[i]?.map (serializer.signedPart i)
  output : ∀ i : Nat, serializer.fHashNone = false →
    (serializer.fHashSingle = true → i = serializer.nIn) →
      other.vout[i]? = serializer.txTo.vout[i]?

variable {serializer : Serializer} {other : CTransaction}

theorem length_le_iff_of_map
    {f : α → γ} {g : β → γ} {as : List α} {bs : List β} {i : Nat}
    (same : as[i]?.map f = bs[i]?.map g) : as.length ≤ i ↔ bs.length ≤ i := by
  simpa using congrArg (· = none) same

theorem serializeInput_eq_signed (i : Nat) :
    let nInput := if serializer.fAnyoneCanPay then serializer.nIn else i
    serializer.serializeInput i =
      (serializer.txTo.vin[nInput]?.map (serializer.signedPart nInput)).map fun signed =>
        CDiskBlockIndex.writeOutPoint signed.1 ++
          ((if nInput ≠ serializer.nIn then writeByteVector []
            else serializeScriptCode serializer.scriptCode) ++ littleEndian 4 signed.2) := by
  dsimp only
  rw [serializeInput]
  generalize (if serializer.fAnyoneCanPay = true then serializer.nIn else i) = nInput
  cases serializer.txTo.vin[nInput]? with
  | none => rfl
  | some txin =>
    dsimp only [signedPart, Option.map_some, Option.bind_eq_bind, Option.bind_some]
    split_ifs <;> rfl

namespace SameSigned

variable (same : serializer.SameSigned other)
include same

theorem serializeInput_eq (i : Nat) :
    { serializer with txTo := other }.serializeInput i = serializer.serializeInput i := by
  have input := same.input (if serializer.fAnyoneCanPay then serializer.nIn else i) (if_pos ·)
  rw [serializeInput_eq_signed, serializeInput_eq_signed]
  exact congrArg _ input

theorem length_le_iff : other.vin.length ≤ serializer.nIn ↔
    serializer.txTo.vin.length ≤ serializer.nIn :=
  length_le_iff_of_map (same.input serializer.nIn fun _ => rfl)

theorem length_eq (all : serializer.fAnyoneCanPay = false) :
    other.vin.length = serializer.txTo.vin.length := by
  have each : ∀ i, other.vin.length ≤ i ↔ serializer.txTo.vin.length ≤ i :=
    fun i => length_le_iff_of_map (same.input i fun any => by cases all.symm.trans any)
  exact le_antisymm ((each _).mpr (le_refl _)) ((each _).mp (le_refl _))

theorem serializeOutput_eq (signs : serializer.fHashNone = false) (i : Nat) :
    { serializer with txTo := other }.serializeOutput i = serializer.serializeOutput i := by
  rw [serializeOutput, serializeOutput]
  by_cases blank : serializer.fHashSingle = true ∧ i ≠ serializer.nIn
  · exact (if_pos blank).trans (if_pos blank).symm
  · have output := same.output i signs fun single => not_not.mp fun apart => blank ⟨single, apart⟩
    exact (if_neg blank).trans ((congrArg _ output).trans (if_neg blank).symm)

theorem serialize_eq : { serializer with txTo := other }.serialize = serializer.serialize := by
  have inputs : { serializer with txTo := other }.serializeInput = serializer.serializeInput :=
    funext same.serializeInput_eq
  have nInputs : (if serializer.fAnyoneCanPay then 1 else other.vin.length) =
      if serializer.fAnyoneCanPay then 1 else serializer.txTo.vin.length := by
    cases any : serializer.fAnyoneCanPay with
    | true => rfl
    | false => exact same.length_eq any
  have outputs : ∀ n, (serializer.fHashNone = true → n = 0) →
      writeEach { serializer with txTo := other }.serializeOutput n =
        writeEach serializer.serializeOutput n := by
    intro n nothing
    cases signs : serializer.fHashNone with
    | true =>
      rw [nothing signs]
      rfl
    | false => rw [funext (same.serializeOutput_eq signs)]
  have nOutputs : (if serializer.fHashNone then 0
        else if serializer.fHashSingle then serializer.nIn + 1 else other.vout.length) =
      if serializer.fHashNone then 0
        else if serializer.fHashSingle then serializer.nIn + 1
        else serializer.txTo.vout.length := by
    split_ifs with none single
    · rfl
    · rfl
    · have vout : other.vout = serializer.txTo.vout := List.ext_getElem? fun i =>
        same.output i (Bool.not_eq_true _ ▸ none) fun one => absurd one single
      rw [vout]
  have anyone : { serializer with txTo := other }.fAnyoneCanPay = serializer.fAnyoneCanPay := rfl
  have noOutputs : { serializer with txTo := other }.fHashNone = serializer.fHashNone := rfl
  have oneOutput : { serializer with txTo := other }.fHashSingle = serializer.fHashSingle := rfl
  rw [serialize, serialize, anyone, noOutputs, oneOutput, inputs]
  dsimp only
  rw [nInputs, nOutputs, outputs _ (if_pos ·), same.nVersion, same.nLockTime]

end SameSigned
end Serializer

/-- The signature hash of an input is determined by what is signed: it leaves open all scripts of
inputs, and the inputs, outputs and sequence numbers that the hash type leaves out. -/
theorem signatureHash_determined
    {serializer : Serializer} {other : CTransaction}
    (same : serializer.SameSigned other) :
    signatureHash serializer.scriptCode other serializer.nIn serializer.nHashType =
      signatureHash serializer.scriptCode serializer.txTo serializer.nIn serializer.nHashType := by
  have missing : serializer.nHashType &&& 0x1f = sighashSingle → (other.vout.length ≤
      serializer.nIn ↔ serializer.txTo.vout.length ≤ serializer.nIn) := by
    intro single
    have signs : serializer.fHashNone = false := by
      rw [Serializer.fHashNone, single]
      rfl
    exact Serializer.length_le_iff_of_map (congrArg (Option.map id)
      (same.output serializer.nIn signs fun _ => rfl))
  rw [signatureHash, signatureHash, same.serialize_eq]
  simp only [same.length_le_iff, and_congr_right missing]

/-- Without outputs and other inputs, with two inputs and an output in place of one input. -/
theorem signatureHash_determined_none :
    signatureHash [0x51] ⟨7, 1, [⟨.null, [1], 0⟩, ⟨.null, [], 5⟩], [.null], 0⟩ 0 0x82 =
      signatureHash [0x51] ⟨0, 1, [⟨.null, [], 0⟩], [], 0⟩ 0 0x82 :=
  @signatureHash_determined ⟨⟨0, 1, [⟨.null, [], 0⟩], [], 0⟩, [0x51], 0, 0x82⟩ _
    { nVersion := rfl
      nLockTime := rfl
      input := fun i signed => by
        obtain rfl := signed rfl
        rfl
      output := fun i signs => by cases signs }

end SignatureHash

end ColossusCoin
