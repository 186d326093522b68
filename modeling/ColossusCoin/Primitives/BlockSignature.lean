import ColossusCoin.Primitives.Block
import ColossusCoin.Primitives.PubKey
import ColossusCoin.Primitives.Solver

/-!
# The signature of a block

`SignBlock` signs a proof-of-stake block with the key that its stake output pays to, and
`CheckBlockSignature` verifies the signature with the public key of that output.  For an output
that pays to the hash of a public key there is none: the hash is taken for the key, and no
signature passes.
-/

namespace ColossusCoin

/-- `CKeyID`, by its bytes. -/
abbrev CKeyID := List UInt8

/-- What `CKey` and `CPubKey` take from the code of the elliptic curve and of the hash. -/
structure KeyCode (CKey : Type) where
  fValid : CKey → Bool
  /-- `GetPubKey`. -/
  getPubKey : CKey → CPubKey
  /-- The signature that `Sign` makes with a valid key. -/
  ecdsaSign : CKey → Uint256 → List UInt8
  /-- `secp256k1_ecdsa_verify`. -/
  ecdsaVerify : CPubKey → Uint256 → List UInt8 → Bool
  /-- `Hash160`. -/
  hash160 : List UInt8 → CKeyID

namespace KeyCode

/-- `CPubKey::GetID`. -/
def getID (code : KeyCode CKey) (pubkey : CPubKey) : CKeyID :=
  code.hash160 pubkey

/-- `CKey::Sign`. -/
def sign (code : KeyCode CKey) (key : CKey) (hash : Uint256) : Option (List UInt8) :=
  if code.fValid key then some (code.ecdsaSign key hash) else none

/-- `CPubKey::Verify`. -/
def verify (code : KeyCode CKey) (pubkey : CPubKey) (hash : Uint256) (vchSig : List UInt8) :
    Bool :=
  pubkey.isValid && code.ecdsaVerify pubkey hash vchSig

/-- What is relied on: a valid key has a valid public key, which verifies its signatures, and no
other public key has the same identifier. -/
structure Lawful (code : KeyCode CKey) : Prop where
  isValid_getPubKey : ∀ {key}, code.fValid key = true → (code.getPubKey key).isValid = true
  ecdsaSign_ne_nil : ∀ {key} hash, code.fValid key = true → code.ecdsaSign key hash ≠ []
  ecdsaVerify_ecdsaSign : ∀ {key} hash, code.fValid key = true →
    code.ecdsaVerify (code.getPubKey key) hash (code.ecdsaSign key hash) = true
  eq_of_getID : ∀ {key pubkey}, code.fValid key = true →
    code.getID (code.getPubKey key) = code.getID pubkey → code.getPubKey key = pubkey

end KeyCode

/-- `CKeyStore`: valid keys are stored under the identifiers of their public keys. -/
structure KeyStore {CKey : Type} (code : KeyCode CKey) where
  getKey : CKeyID → Option CKey
  filed : ∀ {keyID key}, getKey keyID = some key → code.fValid key = true →
    code.getID (code.getPubKey key) = keyID

/-- `uint160` of a vector, which throws where the vector has another size. -/
def uint160 (vch : List UInt8) : Option CKeyID :=
  if vch.length = 20 then some vch else none

namespace CBlock

variable {CKey : Type} {code : KeyCode CKey}

/-- `vtx[1].vout[1]`. -/
def stakeOutput (block : CBlock) : Option CTxOut :=
  block.vtx[1]?.bind fun tx => tx.vout[1]?

/-- The signature of a block with the key that a store has under an identifier. -/
def signWith (store : KeyStore code) (block : CBlock) (keyID : CKeyID) : Bool × CBlock :=
  match (store.getKey keyID).bind fun key => code.sign key block.hash with
  | none => (false, block)
  | some vchSig => (true, { block with vchBlockSig := vchSig })

/-- The loop of `SignBlock` over the outputs of the coinbase. -/
def signFirstPubKey (store : KeyStore code) (block : CBlock) :
    List CTxOut → List (List UInt8) → Option (Bool × CBlock)
  | [], _ => some (false, block)
  | txout :: rest, vSolutions =>
    (solver txout.scriptPubKey vSolutions).bind fun result =>
      if result.solved = true ∧ result.typeRet = .pubKey then
        (result.vSolutionsRet.head?.bind uint160).map (block.signWith store)
      else signFirstPubKey store block rest result.vSolutionsRet

/-- The signature for a solved stake output. -/
def signSolved (store : KeyStore code) (block : CBlock) (result : SolverResult) :
    Option (Bool × CBlock) :=
  if result.solved = false then some (false, block)
  else if result.typeRet = .pubKeyHash then
    (result.vSolutionsRet.head?.bind uint160).map (block.signWith store)
  else if result.typeRet = .pubKey then
    result.vSolutionsRet.head?.map fun vch =>
      block.signWith store (code.getID (CPubKey.set vch))
  else some (false, block)

/-- `SignBlock`, with the block that it leaves. -/
def signBlock (store : KeyStore code) (block : CBlock) : Option (Bool × CBlock) :=
  if block.isProofOfStake = false then
    block.vtx.head?.bind fun tx => block.signFirstPubKey store tx.vout []
  else
    block.stakeOutput.bind fun txout =>
      (solver txout.scriptPubKey []).bind (block.signSolved store)

/-- The check of the signature with the bytes of a public key. -/
def verifyWith (code : KeyCode CKey) (block : CBlock) (vchPubKey : List UInt8) : Bool :=
  (CPubKey.set vchPubKey).isValid && !block.vchBlockSig.isEmpty &&
    code.verify (CPubKey.set vchPubKey) block.hash block.vchBlockSig

/-- The check of the signature for a solved stake output. -/
def checkSolved (code : KeyCode CKey) (block : CBlock) (result : SolverResult) : Option Bool :=
  if result.solved = false then some false
  else if result.typeRet = .pubKey then
    result.vSolutionsRet.head?.map (block.verifyWith code)
  else if result.typeRet = .pubKeyHash then
    result.vSolutionsRet.head?.bind fun vchPubKey =>
      (uint160 vchPubKey).map fun _ => block.verifyWith code vchPubKey
  else some false

def checkBlockSignature (code : KeyCode CKey) (block : CBlock) : Option Bool :=
  if block.isProofOfWork then some block.vchBlockSig.isEmpty
  else
    block.stakeOutput.bind fun txout =>
      (solver txout.scriptPubKey []).bind (block.checkSolved code)

variable {store : KeyStore code} {block signed : CBlock} {vch : List UInt8}

/-- A signed block has its signature from a valid key of the store, and is as before
otherwise. -/
theorem signWith_eq_true
    (run : block.signWith store keyID = (true, signed)) :
    ∃ key, store.getKey keyID = some key ∧ code.fValid key = true ∧
      signed = { block with vchBlockSig := code.ecdsaSign key block.hash } := by
  unfold signWith at run
  rcases Option.eq_none_or_eq_some
    ((store.getKey keyID).bind fun key => code.sign key block.hash) with absent | ⟨vchSig, made⟩
  · rw [absent] at run
    cases run
  · rw [made] at run
    cases run
    obtain ⟨key, found, made⟩ := Option.bind_eq_some_iff.mp made
    unfold KeyCode.sign at made
    split_ifs at made with valid
    cases made
    exact ⟨key, found, valid, rfl⟩

theorem signWith_of_found
    (found : store.getKey keyID = some key)
    (valid : code.fValid key = true)
    (block : CBlock) :
    block.signWith store keyID =
      (true, { block with vchBlockSig := code.ecdsaSign key block.hash }) := by
  simp [signWith, found, KeyCode.sign, valid]

/-- The loop over the outputs of the coinbase signs nothing: the public key of an output is too
long for the identifier that it is made into. -/
theorem signFirstPubKey_ne_true
    (store : KeyStore code) (block : CBlock)
    (vout : List CTxOut) (vSolutions : List (List UInt8)) (signed : CBlock) :
    block.signFirstPubKey store vout vSolutions ≠ some (true, signed) := by
  induction vout generalizing vSolutions with
  | nil =>
    intro run
    cases run
  | cons txout rest ih =>
    intro run
    obtain ⟨result, solved, run⟩ := Option.bind_eq_some_iff.mp run
    split_ifs at run with isPubKey
    · obtain ⟨vch, only, long, _⟩ := solver_pubKey solved isPubKey.1 isPubKey.2
      have refused : uint160 vch = none := if_neg (by omega)
      simp [only, refused] at run
    · exact ih result.vSolutionsRet run

theorem signBlock_eq_true
    (run : block.signBlock store = some (true, signed)) :
    block.isProofOfStake = true ∧ ∃ txout result, block.stakeOutput = some txout ∧
      solver txout.scriptPubKey [] = some result ∧
      block.signSolved store result = some (true, signed) := by
  unfold signBlock at run
  split_ifs at run with work
  · obtain ⟨tx, _, run⟩ := Option.bind_eq_some_iff.mp run
    exact absurd run (signFirstPubKey_ne_true store block tx.vout [] signed)
  · obtain ⟨txout, output, run⟩ := Option.bind_eq_some_iff.mp run
    obtain ⟨result, solved, run⟩ := Option.bind_eq_some_iff.mp run
    exact ⟨by simpa using work, txout, result, output, solved, run⟩

theorem signSolved_eq_true
    (run : block.signSolved store result = some (true, signed)) :
    result.solved = true ∧
      (result.typeRet = .pubKeyHash ∧
          (result.vSolutionsRet.head?.bind uint160).map (block.signWith store) =
            some (true, signed) ∨
        result.typeRet = .pubKey ∧ ∃ vch, result.vSolutionsRet.head? = some vch ∧
          block.signWith store (code.getID (CPubKey.set vch)) = (true, signed)) := by
  unfold signSolved at run
  split_ifs at run with unsolved isHash isKey
  · simp at run
  · exact ⟨by simpa using unsolved, .inl ⟨isHash, run⟩⟩
  · exact ⟨by simpa using unsolved, .inr ⟨isKey, Option.map_eq_some_iff.mp run⟩⟩
  · simp at run

theorem set_of_length_eq_twenty
    (sized : vch.length = 20) :
    CPubKey.set vch = [] := by
  cases vch with
  | nil => rfl
  | cons chHeader rest =>
    rw [CPubKey.set, sized, if_neg]
    unfold CPubKey.getLen
    split_ifs <;> decide

theorem checkBlockSignature_signed
    (staked : block.isProofOfStake = true)
    (output : block.stakeOutput = some txout)
    (solved : solver txout.scriptPubKey [] = some result)
    (vchSig : List UInt8) :
    { block with vchBlockSig := vchSig }.checkBlockSignature code =
      { block with vchBlockSig := vchSig }.checkSolved code result := by
  have stakedSigned : { block with vchBlockSig := vchSig }.isProofOfStake = true := staked
  have outputSigned : { block with vchBlockSig := vchSig }.stakeOutput = some txout := output
  unfold checkBlockSignature isProofOfWork
  rw [stakedSigned, outputSigned]
  simp [solved]

theorem verifyWith_signed
    (lawful : code.Lawful)
    (run : block.signWith store (code.getID (CPubKey.set vch)) = (true, signed)) :
    signed.verifyWith code vch = true := by
  obtain ⟨key, found, valid, rfl⟩ := signWith_eq_true run
  have own : code.getPubKey key = CPubKey.set vch :=
    lawful.eq_of_getID valid (store.filed found valid)
  have validKey := lawful.isValid_getPubKey valid
  have verified := lawful.ecdsaVerify_ecdsaSign block.hash valid
  have nonempty := lawful.ecdsaSign_ne_nil block.hash valid
  rw [own] at validKey verified
  simp [verifyWith, KeyCode.verify, validKey, verified, nonempty]

/-- No signature passes for the hash of a public key. -/
theorem verifyWith_of_length_eq_twenty
    (sized : vch.length = 20)
    (block : CBlock) :
    block.verifyWith code vch = false := by
  simp [verifyWith, set_of_length_eq_twenty sized, CPubKey.isValid]

/-- The stake output of a block pays to the hash of a public key, and the store has a valid key
for that hash. -/
def StakesToStoredKeyHash (store : KeyStore code) (block : CBlock) : Prop :=
  block.isProofOfStake = true ∧ ∃ txout keyHash key, block.stakeOutput = some txout ∧
    solver txout.scriptPubKey [] = some ⟨true, .pubKeyHash, [keyHash]⟩ ∧
    store.getKey keyHash = some key ∧ code.fValid key = true

theorem StakesToStoredKeyHash.fails
    (stakes : block.StakesToStoredKeyHash store) :
    ∃ signed, block.signBlock store = some (true, signed) ∧
      signed.checkBlockSignature code = some false := by
  obtain ⟨staked, txout, keyHash, key, output, solved, found, valid⟩ := stakes
  obtain ⟨hash, only, sized⟩ := solver_pubKeyHash solved rfl rfl
  have same : keyHash = hash := (List.cons.inj only).1
  rw [← same] at sized
  have converted : uint160 keyHash = some keyHash := if_pos sized
  refine ⟨{ block with vchBlockSig := code.ecdsaSign key block.hash }, ?_, ?_⟩
  · simp [signBlock, staked, output, solved, signSolved, converted, signWith_of_found found valid]
  · rw [checkBlockSignature_signed staked output solved]
    simp [checkSolved, converted, verifyWith_of_length_eq_twenty sized]

/-- A block whose signing succeeds passes the check, unless its stake output pays to the hash of
a public key. -/
theorem signed_checks_or_stakesToStoredKeyHash
    (lawful : code.Lawful)
    (run : block.signBlock store = some (true, signed)) :
    signed.checkBlockSignature code = some true ∨ block.StakesToStoredKeyHash store := by
  obtain ⟨staked, txout, result, output, solved, run⟩ := signBlock_eq_true run
  obtain ⟨isSolved, ⟨isHash, run⟩ | ⟨isKey, vch, first, run⟩⟩ := signSolved_eq_true run
  · right
    obtain ⟨hash, only, sized⟩ := solver_pubKeyHash solved isSolved isHash
    have converted : uint160 hash = some hash := if_pos sized
    simp only [only, List.head?_cons, Option.bind_some, converted, Option.map_some,
      Option.some_inj] at run
    obtain ⟨key, found, valid, _⟩ := signWith_eq_true run
    obtain ⟨isSolved', typeRet, vSolutionsRet⟩ := result
    simp only at isSolved isHash only
    rw [isSolved, isHash, only] at solved
    exact ⟨staked, txout, hash, key, output, solved, found, valid⟩
  · left
    have verified := verifyWith_signed lawful run
    obtain ⟨key, _, _, same⟩ := signWith_eq_true run
    rw [same] at verified ⊢
    rw [checkBlockSignature_signed staked output solved]
    simp [checkSolved, isSolved, isKey, first, verified]

/-- A block that is signed always passes the check of its signature if and only if its stake
output does not pay to the hash of a public key whose key is in the store. -/
theorem signBlock_checks_iff
    {CKey : Type} {code : KeyCode CKey}
    (lawful : code.Lawful)
    (store : KeyStore code) (block : CBlock) :
    (∀ signed, block.signBlock store = some (true, signed) →
        signed.checkBlockSignature code = some true) ↔
      ¬block.StakesToStoredKeyHash store := by
  constructor
  · intro checks stakes
    obtain ⟨signed, run, fails⟩ := stakes.fails
    rw [checks signed run] at fails
    cases fails
  · intro otherwise signed run
    exact (signed_checks_or_stakesToStoredKeyHash lawful run).resolve_right otherwise

/-- The public key of the private key 1. -/
def generator : CPubKey :=
  [0x02, 0x79, 0xbe, 0x66, 0x7e, 0xf9, 0xdc, 0xbb, 0xac, 0x55, 0xa0, 0x62, 0x95, 0xce, 0x87, 0x0b,
    0x07, 0x02, 0x9b, 0xfc, 0xdb, 0x2d, 0xce, 0x28, 0xd9, 0x59, 0xf2, 0x81, 0x5b, 0x16, 0xf8, 0x17,
    0x98]

/-- Its identifier. -/
def generatorID : CKeyID :=
  [0x75, 0x1e, 0x76, 0xe8, 0x19, 0x91, 0x96, 0xd4, 0x54, 0x94, 0x1c, 0x45, 0xd1, 0xb3, 0xa3, 0x23,
    0xf1, 0x43, 0x3b, 0xd6]

/-- The signature of the hash 5 with the private key 1. -/
def generatorSig : List UInt8 :=
  [0x30, 0x44, 0x02, 0x20, 0x3c, 0x4d, 0x4e, 0x27, 0x37, 0x5a, 0x40, 0xc2, 0x8c, 0xdc, 0x58, 0x41,
    0x60, 0xf5, 0x22, 0xb8, 0xa0, 0x3c, 0x2e, 0xbd, 0x4e, 0xcd, 0xd2, 0x8f, 0xb1, 0xe0, 0x06, 0x3e,
    0xa9, 0xf1, 0x6b, 0xbb, 0x02, 0x20, 0x1d, 0x52, 0x67, 0x5c, 0xc4, 0xfc, 0x91, 0x28, 0x6e, 0xd3,
    0xd6, 0x39, 0x07, 0xdd, 0xc7, 0xb3, 0x90, 0x54, 0x26, 0x7e, 0x40, 0xf7, 0x43, 0x6a, 0xd2, 0xed,
    0x41, 0x76, 0xd5, 0x27, 0xf1, 0xea]

/-- The code of keys on the private key 1, its public key and that signature. -/
def generatorCode : KeyCode Unit where
  fValid _ := true
  getPubKey _ := generator
  ecdsaSign _ _ := generatorSig
  ecdsaVerify pubkey _ vchSig := decide (pubkey = generator ∧ vchSig = generatorSig)
  hash160 bytes := if bytes = generator then generatorID else []

theorem lawful_generatorCode : generatorCode.Lawful where
  isValid_getPubKey _ := rfl
  ecdsaSign_ne_nil _ _ := List.cons_ne_nil _ _
  ecdsaVerify_ecdsaSign _ _ := by
    simp [generatorCode]
  eq_of_getID := by
    intro _ pubkey _ same
    by_contra differs
    have other : generatorCode.getID pubkey = [] := if_neg (Ne.symm differs)
    rw [other] at same
    cases same

/-- A store with that key only. -/
def generatorStore : KeyStore generatorCode where
  getKey keyID := if keyID = generatorID then some () else none
  filed := by
    intro keyID _ found _
    split_ifs at found with same
    exact same.symm

/-- A proof-of-stake block with the hash 5, whose stake output has a given script. -/
def stakedTo (scriptPubKey : CScript) : CBlock where
  hash := 5
  nVersion := 7
  hashPrevBlock := 4
  hashMerkleRoot := 0
  nTime := 0
  nBits := 0
  nNonce := 0
  nAccumulatorCheckpoint := 0
  vtx :=
    [⟨1, 1, [⟨.null, [], 0⟩], [{ nValue := 0, scriptPubKey := [] }], 0⟩,
      ⟨2, 1, [⟨⟨3, 0⟩, [], 0⟩],
        [{ nValue := 0, scriptPubKey := [] }, { nValue := 100, scriptPubKey }], 0⟩]
  vchBlockSig := []

/-- A stake that pays to the public key is signed, and the check passes. -/
theorem signBlock_checks_iff_generator :
    (∃ signed, (stakedTo (0x21 :: generator ++ [Opcode.checkSig])).signBlock generatorStore =
      some (true, signed)) ∧
    ((∀ signed, (stakedTo (0x21 :: generator ++ [Opcode.checkSig])).signBlock generatorStore =
        some (true, signed) → signed.checkBlockSignature generatorCode = some true) ↔
      ¬(stakedTo (0x21 :: generator ++ [Opcode.checkSig])).StakesToStoredKeyHash
        generatorStore) :=
  ⟨⟨_, rfl⟩, signBlock_checks_iff lawful_generatorCode generatorStore _⟩

/-- A stake that pays to the hash of the public key is signed, and the check fails. -/
theorem signed_key_hash_fails :
    ∃ signed, (stakedTo ([Opcode.dup, Opcode.hash160, 0x14] ++ generatorID ++
        [Opcode.equalVerify, Opcode.checkSig])).signBlock generatorStore = some (true, signed) ∧
      signed.checkBlockSignature generatorCode = some false :=
  ⟨_, rfl, rfl⟩

end CBlock

end ColossusCoin
