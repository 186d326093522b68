import Mathlib.Data.List.Basic

/-!
# Scripts as byte strings

A script is the byte vector the node stores and relays.  This module reads
instructions off it, recognises the script forms that validation treats
specially, and counts signature operations.  Execution of scripts is not part
of this module.
-/

namespace ColossusCoin

/-- `CScript`: a serialized script. -/
abbrev CScript := List UInt8

namespace Opcode

def pushData1 : UInt8 := 0x4c
def pushData2 : UInt8 := 0x4d
def pushData4 : UInt8 := 0x4e
def op1 : UInt8 := 0x51
def op16 : UInt8 := 0x60
def opReturn : UInt8 := 0x6a
def dup : UInt8 := 0x76
def equal : UInt8 := 0x87
def equalVerify : UInt8 := 0x88
def hash160 : UInt8 := 0xa9
def checkSig : UInt8 := 0xac
def checkSigVerify : UInt8 := 0xad
def checkMultiSig : UInt8 := 0xae
def checkMultiSigVerify : UInt8 := 0xaf
def zerocoinMint : UInt8 := 0xc1
def zerocoinSpend : UInt8 := 0xc2
def invalidOpcode : UInt8 := 0xff

end Opcode

namespace CScript

/-- Little-endian value of a byte string, as `memcpy` into an integer reads it. -/
def littleEndian : List UInt8 → Nat
  | [] => 0
  | byte :: bytes => byte.toNat + 256 * littleEndian bytes

/-- Split off the operand announced by a push of `nSize` bytes. -/
def takeOperand (opcode : UInt8) (nSize : Nat) (rest : List UInt8) :
    Option (UInt8 × List UInt8 × CScript) :=
  if rest.length < nSize then none
  else some (opcode, rest.take nSize, rest.drop nSize)

/-- `CScript::GetOp2`: the next instruction, its immediate operand and the
remaining script, or `none` at the end and on a truncated push. -/
def getOp : CScript → Option (UInt8 × List UInt8 × CScript)
  | [] => none
  | opcode :: rest =>
    if opcode < Opcode.pushData1 then
      takeOperand opcode opcode.toNat rest
    else if opcode = Opcode.pushData1 then
      if rest.length < 1 then none
      else takeOperand opcode (littleEndian (rest.take 1)) (rest.drop 1)
    else if opcode = Opcode.pushData2 then
      if rest.length < 2 then none
      else takeOperand opcode (littleEndian (rest.take 2)) (rest.drop 2)
    else if opcode = Opcode.pushData4 then
      if rest.length < 4 then none
      else takeOperand opcode (littleEndian (rest.take 4)) (rest.drop 4)
    else some (opcode, [], rest)

/-- An opcode above those of pushes is read alone. -/
theorem getOp_of_pushData4_lt
    (plain : Opcode.pushData4 < opcode) (rest : CScript) :
    getOp (opcode :: rest) = some (opcode, [], rest) := by
  have above : ∀ pushed ≤ Opcode.pushData4, opcode ≠ pushed := by
    rintro pushed below rfl
    exact absurd plain (UInt8.not_lt.mpr below)
  have notShort : ¬opcode < Opcode.pushData1 := by
    intro short
    exact absurd (UInt8.lt_trans plain short) (by decide)
  rw [getOp, if_neg notShort, if_neg (above _ (by decide)), if_neg (above _ (by decide)),
    if_neg (above _ (by decide))]

/-- Signature operations charged for one instruction, given the one before. -/
def sigOpsOf (fAccurate : Bool) (lastOpcode opcode : UInt8) : Nat :=
  if opcode = Opcode.checkSig ∨ opcode = Opcode.checkSigVerify then 1
  else if opcode = Opcode.checkMultiSig ∨ opcode = Opcode.checkMultiSigVerify then
    if fAccurate ∧ Opcode.op1 ≤ lastOpcode ∧ lastOpcode ≤ Opcode.op16 then
      lastOpcode.toNat - (Opcode.op1.toNat - 1)
    else 20
  else 0

/-- The loop of `CScript::GetSigOpCount`; every pass consumes a byte, so the
length of the script is fuel enough. -/
def sigOpCountLoop (fAccurate : Bool) : Nat → UInt8 → CScript → Nat
  | 0, _, _ => 0
  | fuel + 1, lastOpcode, script =>
    match getOp script with
    | none => 0
    | some (opcode, _, rest) =>
      sigOpsOf fAccurate lastOpcode opcode +
        sigOpCountLoop fAccurate fuel opcode rest

/-- `CScript::GetSigOpCount(bool)`. -/
def getSigOpCount (fAccurate : Bool) (script : CScript) : Nat :=
  sigOpCountLoop fAccurate script.length Opcode.invalidOpcode script

/-- `CScript::IsPayToScriptHash`. -/
def isPayToScriptHash (script : CScript) : Bool :=
  script.length == 23 && script[0]? == some Opcode.hash160 &&
    script[1]? == some 0x14 && script[22]? == some Opcode.equal

/-- The last operand pushed by a push-only script, or `none` when an
instruction fails to parse or is not a push. -/
def lastPush : Nat → List UInt8 → CScript → Option (List UInt8)
  | 0, data, _ => some data
  | _ + 1, data, [] => some data
  | fuel + 1, _, byte :: rest =>
    match getOp (byte :: rest) with
    | none => none
    | some (opcode, operand, remaining) =>
      if Opcode.op16 < opcode then none
      else lastPush fuel operand remaining

/-- `CScript::GetSigOpCount(const CScript&)`: the count of a previous output's
script, looking through pay-to-script-hash into the redeeming input. -/
def getSigOpCountOf (scriptPubKey scriptSig : CScript) : Nat :=
  if scriptPubKey.isPayToScriptHash then
    match lastPush scriptSig.length [] scriptSig with
    | none => 0
    | some subscript => getSigOpCount true subscript
  else getSigOpCount true scriptPubKey

/-- `CScript::IsZerocoinMint`. -/
def isZerocoinMint (script : CScript) : Bool :=
  script.head? == some Opcode.zerocoinMint

/-- `CScript::IsZerocoinSpend`. -/
def isZerocoinSpend (script : CScript) : Bool :=
  script.head? == some Opcode.zerocoinSpend

/-- `CScript::IsUnspendable`: execution is certain to fail. -/
def isUnspendable (script : CScript) : Bool :=
  script.head? == some Opcode.opReturn

/-- The bytes of a magnitude, the lowest first; eight of them hold an `int64_t`. -/
def magnitudeBytes : Nat → Nat → List UInt8
  | 0, _ => []
  | fuel + 1, absvalue =>
    if absvalue = 0 then []
    else UInt8.ofNat (absvalue % 256) :: magnitudeBytes fuel (absvalue / 256)

/-- `CScriptNum::serialize`: the sign is the highest bit of the last byte. -/
def serializeNumber (value : Int) : List UInt8 :=
  let result := magnitudeBytes 8 value.natAbs
  match result.getLast? with
  | none => []
  | some last =>
    if 0x80 ≤ last then result ++ [if value < 0 then 0x80 else 0]
    else if value < 0 then result.dropLast ++ [last ||| 0x80]
    else result

/-- `push_int64` on an empty script. -/
def pushInt64 (n : Int) : CScript :=
  if n = -1 ∨ 1 ≤ n ∧ n ≤ 16 then [UInt8.ofNat (n + 0x50).toNat]
  else if n = 0 then [0]
  else UInt8.ofNat (serializeNumber n).length :: serializeNumber n

@[simp] theorem isZerocoinMint_nil : isZerocoinMint [] = false := rfl

@[simp] theorem isZerocoinSpend_nil : isZerocoinSpend [] = false := rfl

@[simp] theorem isUnspendable_nil : isUnspendable [] = false := rfl

end CScript
end ColossusCoin
