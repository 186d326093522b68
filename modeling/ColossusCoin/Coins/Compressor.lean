import ColossusCoin.ChainParams
import ColossusCoin.Primitives.PubKey
import ColossusCoin.Primitives.Serialize

/-!
# Compressed outputs

The shorter forms in which the coin database keeps amounts and scripts.  The two operations on
points of the curve are parameters.
-/

namespace ColossusCoin

open ByteReaders

/-- What compression asks of the library for elliptic curves. -/
structure CurvePoints where
  /-- Whether `IsFullyValid` accepts a public key. -/
  isFullyValid : CPubKey → Bool
  /-- The key that `CPubKey::Decompress` makes, unless it fails. -/
  decompress : CPubKey → Option CPubKey

/-- The library finds a fully valid key again from its compressed form: the first coordinate, and
whether the second one is odd. -/
def CurvePoints.DecompressesCompressed (curve : CurvePoints) : Prop :=
  ∀ coordinates : List UInt8, coordinates.length = 64 →
    curve.isFullyValid (4 :: coordinates) = true →
      curve.decompress ((2 ||| (coordinates.getD 63 0 &&& 1)) :: coordinates.take 32) =
        some (4 :: coordinates)

/-- `CScriptCompressor::nSpecialScripts`. -/
def nSpecialScripts : Nat := 6

namespace CScriptCompressor

def isToKeyID (script : CScript) : Option (List UInt8) :=
  if script.length = 25 ∧ script[0]? = some Opcode.dup ∧ script[1]? = some Opcode.hash160 ∧
      script[2]? = some 20 ∧ script[23]? = some Opcode.equalVerify ∧
      script[24]? = some Opcode.checkSig then
    some ((script.drop 3).take 20)
  else none

def isToScriptID (script : CScript) : Option (List UInt8) :=
  if script.length = 23 ∧ script[0]? = some Opcode.hash160 ∧ script[1]? = some 20 ∧
      script[22]? = some Opcode.equal then
    some ((script.drop 2).take 20)
  else none

def isToPubKey (curve : CurvePoints) (script : CScript) : Option CPubKey :=
  if script.length = 35 ∧ script[0]? = some 33 ∧ script[34]? = some Opcode.checkSig ∧
      (script[1]? = some 2 ∨ script[1]? = some 3) then
    some (CPubKey.set ((script.drop 1).take 33))
  else if script.length = 67 ∧ script[0]? = some 65 ∧ script[66]? = some Opcode.checkSig ∧
      script[1]? = some 4 then
    -- A key that is not fully valid could not be found again.
    if curve.isFullyValid (CPubKey.set ((script.drop 1).take 65)) then
      some (CPubKey.set ((script.drop 1).take 65))
    else none
  else none

/-- The compressed form of a key in `Compress`. -/
def compressKey (pubkey : CPubKey) : Option (List UInt8) :=
  if pubkey[0]? = some 2 ∨ pubkey[0]? = some 3 then
    some (pubkey.getD 0 0 :: (pubkey.drop 1).take 32)
  else if pubkey[0]? = some 4 then
    some ((4 ||| (pubkey.getD 64 0 &&& 1)) :: (pubkey.drop 1).take 32)
  else none

def compress (curve : CurvePoints) (script : CScript) : Option (List UInt8) :=
  match isToKeyID script with
  | some keyID => some (0 :: keyID)
  | none =>
    match isToScriptID script with
    | some scriptID => some (1 :: scriptID)
    | none => (isToPubKey curve script).bind compressKey

def getSpecialSize (nSize : Nat) : Nat :=
  if nSize = 0 ∨ nSize = 1 then 20
  else if nSize = 2 ∨ nSize = 3 ∨ nSize = 4 ∨ nSize = 5 then 32
  else 0

def decompress (curve : CurvePoints) : Nat → List UInt8 → Option CScript
  | 0, bytes =>
    some ([Opcode.dup, Opcode.hash160, 20] ++ bytes ++ [Opcode.equalVerify, Opcode.checkSig])
  | 1, bytes => some ([Opcode.hash160, 20] ++ bytes ++ [Opcode.equal])
  | 2, bytes => some ([33, 2] ++ bytes ++ [Opcode.checkSig])
  | 3, bytes => some ([33, 3] ++ bytes ++ [Opcode.checkSig])
  | 4, bytes => (curve.decompress (2 :: bytes)).map fun pubkey =>
    65 :: pubkey ++ [Opcode.checkSig]
  | 5, bytes => (curve.decompress (3 :: bytes)).map fun pubkey =>
    65 :: pubkey ++ [Opcode.checkSig]
  | _, _ => none

/-- `Serialize`; the size of a script in full is an `unsigned int`. -/
def serialize (curve : CurvePoints) (script : CScript) : List UInt8 :=
  match compress curve script with
  | some compr => compr
  | none => writeVarInt ((script.length + nSpecialScripts) % 2 ^ 32) ++ script

/-- What `Unserialize` reads after the size into a script, which stays as it was where
decompression fails. -/
def unserializeSized (curve : CurvePoints) (script : CScript) (nSize : Nat) : Reader CScript :=
  if nSize < nSpecialScripts then do
    let vch ← readBytes (getSpecialSize nSize)
    pure ((decompress curve nSize vch).getD script)
  else readBytes (nSize - nSpecialScripts)

def unserialize (curve : CurvePoints) (script : CScript) : Reader CScript := do
  let nSize ← readVarInt 32
  unserializeSized curve script nSize

end CScriptCompressor

namespace CTxOutCompressor

/-- The loop that divides by ten, at most nine times. -/
def stripZeros : Nat → Nat → Nat → Nat × Nat
  | 0, n, e => (n, e)
  | more + 1, n, e => if n % 10 = 0 then stripZeros more (n / 10) (e + 1) else (n, e)

/-- The number that `CompressAmount` computes, before it is cut to 64 bits. -/
def compressedAmount (n : Nat) : Nat :=
  if n = 0 then 0
  else
    let stripped := stripZeros 9 n 0
    if stripped.2 < 9 then
      1 + (stripped.1 / 10 * 9 + stripped.1 % 10 - 1) * 10 + stripped.2
    else 1 + (stripped.1 - 1) * 10 + 9

def compressAmount (n : Nat) : Nat :=
  compressedAmount n % 2 ^ 64

/-- The loop that multiplies by ten. -/
def addZeros : Nat → Nat → Nat
  | 0, n => n
  | e + 1, n => addZeros e (n * 10 % 2 ^ 64)

def decompressAmount (x : Nat) : Nat :=
  if x = 0 then 0
  else
    let e := (x - 1) % 10
    let rest := (x - 1) / 10
    let n := if e < 9 then rest / 9 * 10 + (rest % 9 + 1) else rest + 1
    addZeros e (n % 2 ^ 64)

/-- The conversion of an amount to `uint64_t`. -/
def toUInt64 (nValue : Int) : Nat :=
  (nValue % 2 ^ 64).toNat

/-- The conversion of a `uint64_t` to an amount. -/
def ofUInt64 (nVal : Nat) : Int :=
  if nVal < 2 ^ 63 then nVal else nVal - 2 ^ 64

/-- Serialization of an output. -/
def serialize (curve : CurvePoints) (txout : CTxOut) : List UInt8 :=
  writeVarInt (compressAmount (toUInt64 txout.nValue)) ++
    CScriptCompressor.serialize curve txout.scriptPubKey

/-- What deserialization reads after the amount. -/
def unserializeValued (curve : CurvePoints) (txout : CTxOut) (nVal : Nat) : Reader CTxOut := do
  let script ← CScriptCompressor.unserialize curve txout.scriptPubKey
  pure { txout with nValue := ofUInt64 (decompressAmount nVal), scriptPubKey := script }

/-- Deserialization into an output. -/
def unserialize (curve : CurvePoints) (txout : CTxOut) : Reader CTxOut := do
  let nVal ← readVarInt 64
  unserializeValued curve txout nVal

end CTxOutCompressor

end ColossusCoin
