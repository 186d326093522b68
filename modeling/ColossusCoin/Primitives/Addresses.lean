import ColossusCoin.Primitives.Base58

/-!
# Addresses

A checksum goes behind the bytes that Base58 writes, and a version byte before them: it tells the
network, and whether they are the hash of a key or of a script.
-/

namespace ColossusCoin
namespace Base58

/-- `uint160`, by its bytes. -/
abbrev Uint160 := { bytes : List UInt8 // bytes.length = 20 }

/-- `Hash`, by the bytes of the hash. -/
abbrev HashFunction := List UInt8 → { hash : List UInt8 // hash.length = 32 }

inductive Network
  | main
  /-- The regression test network has the same prefixes. -/
  | testNet
  deriving DecidableEq

inductive Base58Type
  | pubkeyAddress
  | scriptAddress

/-- `Base58Prefix`, of one byte. -/
def base58Prefix : Network → Base58Type → UInt8
  | .main, .pubkeyAddress => 30
  | .main, .scriptAddress => 13
  | .testNet, .pubkeyAddress => 139
  | .testNet, .scriptAddress => 19

structure CBase58Data where
  vchVersion : List UInt8
  vchData : List UInt8
  deriving DecidableEq

inductive CTxDestination
  | noDestination
  | keyID (id : Uint160)
  | scriptID (id : Uint160)
  deriving DecidableEq

section Encoding

variable (hash : HashFunction)

def encodeBase58Check (vchIn : List UInt8) : Option (List Char) :=
  encodeBase58 (vchIn ++ (hash vchIn).1.take 4)

/-- `DecodeBase58Check`: the bytes, or that it fails, as `decodeBase58`. -/
def decodeBase58Check (str : List Char) : Option (Option (List UInt8)) :=
  (decodeBase58 str).map fun decoded => decoded.bind fun vchRet =>
    if vchRet.length < 4 then none
    else if (hash (vchRet.take (vchRet.length - 4))).1.take 4 ≠
      vchRet.drop (vchRet.length - 4) then none
    else some (vchRet.take (vchRet.length - 4))

namespace CBase58Data

/-- `SetString`, with a version of one byte. -/
def setString (psz : List Char) : Option (Bool × CBase58Data) :=
  (decodeBase58Check hash psz).map fun
    | some (version :: vchData) => (true, ⟨[version], vchData⟩)
    | _ => (false, ⟨[], []⟩)

def toString (data : CBase58Data) : Option (List Char) :=
  encodeBase58Check hash (data.vchVersion ++ data.vchData)

end CBase58Data
end Encoding

/-- `CBitcoinAddress::Set`: whether it succeeds, and the address after it. -/
def setDestination (network : Network) (address : CBase58Data) :
    CTxDestination → Bool × CBase58Data
  | .noDestination => (false, address)
  | .keyID id => (true, ⟨[base58Prefix network .pubkeyAddress], id⟩)
  | .scriptID id => (true, ⟨[base58Prefix network .scriptAddress], id⟩)

/-- `CBitcoinAddress::IsValid`. -/
def isValidAddress (network : Network) (address : CBase58Data) : Bool :=
  address.vchData.length == 20 &&
    (address.vchVersion == [base58Prefix network .pubkeyAddress] ||
      address.vchVersion == [base58Prefix network .scriptAddress])

/-- `CBitcoinAddress::Get`. -/
def getDestination (network : Network) (address : CBase58Data) : CTxDestination :=
  if size : address.vchData.length = 20 then
    if address.vchVersion = [base58Prefix network .pubkeyAddress] then
      .keyID ⟨address.vchData, size⟩
    else if address.vchVersion = [base58Prefix network .scriptAddress] then
      .scriptID ⟨address.vchData, size⟩
    else .noDestination
  else .noDestination

theorem exists_encodeBase58 (vch : List UInt8) :
    ∃ str, encodeBase58 vch = some str ∧ decodeBase58 str = some (some vch) := by
  obtain ⟨zeroes, bytes, rfl, numeral⟩ := exists_numeral_of_bytes vch
  obtain ⟨digits, isNumeral, same, written⟩ := encodeBase58_spec zeroes numeral
  obtain ⟨back, isBack, sameBack, read⟩ := decodeBase58_spec zeroes isNumeral
  have equal := isBack.eq_of_value (by decide) numeral (sameBack.trans same)
  rw [List.map_injective_iff.mpr (fun _ _ => UInt8.toNat_inj.mp) equal] at read
  exact ⟨_, written, read⟩

theorem encodeBase58_of_decodeBase58
    (alphabet : ∀ c ∈ str, c ∈ pszBase58)
    (decoded : decodeBase58 str = some (some vch)) :
    encodeBase58 vch = some str := by
  obtain ⟨zeroes, digits, rfl, numeral⟩ := exists_numeral_of_alphabet alphabet
  obtain ⟨bytes, isNumeral, same, read⟩ := decodeBase58_spec zeroes numeral
  obtain ⟨back, isBack, sameBack, written⟩ := encodeBase58_spec zeroes isNumeral
  rw [isBack.eq_of_value (by decide) numeral (sameBack.trans same)] at written
  obtain rfl := Option.some.inj (Option.some.inj (decoded.symm.trans read))
  exact written

variable {hash : HashFunction}

theorem exists_encodeBase58Check (hash : HashFunction) (vch : List UInt8) :
    ∃ str, encodeBase58Check hash vch = some str ∧
      decodeBase58Check hash str = some (some vch) := by
  obtain ⟨str, written, read⟩ := exists_encodeBase58 (vch ++ (hash vch).1.take 4)
  have size : (vch ++ (hash vch).1.take 4).length = vch.length + 4 := by
    rw [List.length_append, List.length_take, (hash vch).2]
    rfl
  refine ⟨str, written, ?_⟩
  rw [decodeBase58Check, read, Option.map_some, Option.bind_some, if_neg (by omega), size,
    Nat.add_sub_cancel, List.take_left, List.drop_left, if_neg (not_not.mpr rfl)]

/-- A string that is read back has its checksum behind the bytes. -/
theorem encodeBase58Check_of_decode
    (alphabet : ∀ c ∈ str, c ∈ pszBase58)
    (decoded : decodeBase58Check hash str = some (some vch)) :
    encodeBase58Check hash vch = some str := by
  obtain ⟨outcome, plain, checked⟩ := Option.map_eq_some_iff.mp decoded
  obtain ⟨all, rfl, tested⟩ := Option.bind_eq_some_iff.mp checked
  split_ifs at tested with short differs
  obtain rfl := Option.some.inj tested
  rw [encodeBase58Check, not_not.mp differs, List.take_append_drop]
  exact encodeBase58_of_decodeBase58 alphabet plain

/-- Any bytes are read back from what is written for them, and a string of the alphabet that is read
is the one that is written for its bytes. -/
theorem base58Check_exact (hash : HashFunction) :
    (∀ vch, ∃ str, encodeBase58Check hash vch = some str ∧
      decodeBase58Check hash str = some (some vch)) ∧
      ∀ str vch, (∀ c ∈ str, c ∈ pszBase58) → decodeBase58Check hash str = some (some vch) →
        encodeBase58Check hash vch = some str :=
  ⟨exists_encodeBase58Check hash, fun _ _ => encodeBase58Check_of_decode⟩

/-- What is written comes back under the version byte. -/
theorem exists_toString (hash : HashFunction) (version : UInt8) (vchData : List UInt8) :
    ∃ str, CBase58Data.toString hash ⟨[version], vchData⟩ = some str ∧
      CBase58Data.setString hash str = some (true, ⟨[version], vchData⟩) := by
  obtain ⟨str, written, read⟩ := exists_encodeBase58Check hash (version :: vchData)
  refine ⟨str, written, ?_⟩
  rw [CBase58Data.setString, read, Option.map_some]

/-- A destination comes back from the string of its address, which is valid on its network alone. -/
theorem address_exact
    (hash : HashFunction) (network : Network) (dest : CTxDestination) (before : CBase58Data) :
    dest = .noDestination ∨ ∃ address str,
      setDestination network before dest = (true, address) ∧
      CBase58Data.toString hash address = some str ∧
      CBase58Data.setString hash str = some (true, address) ∧
      getDestination network address = dest ∧
      ∀ other, isValidAddress other address = true ↔ other = network := by
  cases dest with
  | noDestination => exact .inl rfl
  | keyID id =>
    obtain ⟨str, written, read⟩ := exists_toString hash (base58Prefix network .pubkeyAddress) id
    refine .inr ⟨_, str, rfl, written, read, ?_, fun other => ?_⟩
    · rw [getDestination, dif_pos id.2, if_pos rfl]
    · cases network <;> cases other <;> simp [isValidAddress, base58Prefix, id.2]
  | scriptID id =>
    obtain ⟨str, written, read⟩ := exists_toString hash (base58Prefix network .scriptAddress) id
    refine .inr ⟨_, str, rfl, written, read, ?_, fun other => ?_⟩
    · rw [getDestination, dif_pos id.2, if_neg (by cases network <;> simp [base58Prefix]),
        if_pos rfl]
    · cases network <;> cases other <;> simp [isValidAddress, base58Prefix, id.2]

end Base58
end ColossusCoin
