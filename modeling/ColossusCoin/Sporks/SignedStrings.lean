import ColossusCoin.Library.DecimalNumerals
import ColossusCoin.Primitives.Transaction

/-!
# Spork messages

Messages that switch rules of the network on and off, signed with one key.  The setting
of a spork is the latest message about it that a node has taken.  Logging and relaying
are left out.
-/

namespace ColossusCoin

structure CSporkMessage where
  nSporkID : Int
  nValue : Int
  nTimeSigned : Int
  vchSig : List UInt8
  deriving DecidableEq, Repr

/-- The sporks that are in use, with their names. -/
def sporkNames : List (Int × String) :=
  [(10001, "SPORK_2_SWIFTTX"),
    (10002, "SPORK_3_SWIFTTX_BLOCK_FILTERING"),
    (10004, "SPORK_5_MAX_VALUE"),
    (10006, "SPORK_7_MASTERNODE_SCANNING"),
    (10007, "SPORK_8_MASTERNODE_PAYMENT_ENFORCEMENT"),
    (10008, "SPORK_9_MASTERNODE_BUDGET_ENFORCEMENT"),
    (10009, "SPORK_10_MASTERNODE_PAY_UPDATED_NODES"),
    (10012, "SPORK_13_ENABLE_SUPERBLOCKS"),
    (10013, "SPORK_14_NEW_PROTOCOL_ENFORCEMENT"),
    (10014, "SPORK_15_NEW_PROTOCOL_ENFORCEMENT_2"),
    (10016, "SPORK_17_FEE_PAYMENT_ENFORCEMENT"),
    (10017, "SPORK_18_DEVFUND_PAYMENT_ENFORCEMENT"),
    (10018, "SPORK_19_MAX_REORGANIZATION_DEPTH"),
    (10019, "SPORK_20_ZEROCOIN_MAINTENANCE_MODE"),
    (10020, "SPORK_21_ENFORCE_MIN_TX_FEE"),
    (10021, "SPORK_22_TX_FEE_VALUE"),
    (10022, "SPORK_23_LIMIT_BLOCK_TX"),
    (10023, "SPORK_24_BLOCK_TX_VALUE"),
    (10024, "SPORK_25_RESERVED")]

def getSporkNameByID (id : Int) : String :=
  (sporkNames.lookup id).getD "Unknown"

/-- A signature over a string, in the hands of the holder of a key and of those who know
its public part. -/
structure MessageSigner where
  /-- `SignMessage`. -/
  signMessage : List UInt8 → String → Option (List UInt8)
  /-- `VerifyMessage`. -/
  verifyMessage : List UInt8 → List UInt8 → String → Bool
  /-- `SetKey`, which decodes a private key and derives the public one. -/
  setKey : String → Option (List UInt8 × List UInt8)

/-- What a node goes by when it handles spork messages. -/
structure SporkEnv where
  fLiteMode : Bool
  /-- The active chain has a tip. -/
  hasTip : Bool
  /-- `HashQuark` over the three numbers of a message. -/
  hashQuark : Int → Int → Int → Uint256
  signer : MessageSigner
  /-- `Params().SporkKey()`. -/
  sporkKey : List UInt8

/-- The sporks that a node knows, in memory and in its database. -/
structure SporkState where
  mapSporks : Uint256 → Option CSporkMessage
  mapSporksActive : Int → Option CSporkMessage
  sporkDB : Int → Option CSporkMessage

/-- What becomes of a spork message. -/
inductive SporkVerdict
  | ignored
  | misbehaving (howmuch : Nat)
  | accepted
  deriving DecidableEq, Repr

namespace CSporkMessage

def getHash (env : SporkEnv) (spork : CSporkMessage) : Uint256 :=
  env.hashQuark spork.nSporkID spork.nValue spork.nTimeSigned

/-- The string that is signed: three numbers in decimal, one after the other. -/
def strMessage (spork : CSporkMessage) : String :=
  toString spork.nSporkID ++ toString spork.nValue ++ toString spork.nTimeSigned

def checkSignature (env : SporkEnv) (spork : CSporkMessage) : Bool :=
  env.signer.verifyMessage env.sporkKey spork.vchSig spork.strMessage

/-- `Sign`, with the private key of the node. -/
def sign (env : SporkEnv) (strMasterPrivKey : String) (spork : CSporkMessage) :
    Option CSporkMessage :=
  match env.signer.setKey strMasterPrivKey with
  | none => none
  | some (key2, pubkey2) =>
    match env.signer.signMessage key2 spork.strMessage with
    | none => none
    | some vchSig =>
      if env.signer.verifyMessage pubkey2 vchSig spork.strMessage then
        some { spork with vchSig := vchSig }
      else none

end CSporkMessage

namespace SporkState

/-- The spork of a message is set by a message that is as new. -/
def isSeen (state : SporkState) (spork : CSporkMessage) : Bool :=
  match state.mapSporksActive spork.nSporkID with
  | none => false
  | some active => spork.nTimeSigned ≤ active.nTimeSigned

/-- `ProcessSpork`, for a `spork` message. -/
def processSpork (env : SporkEnv) (state : SporkState) (spork : CSporkMessage) :
    SporkVerdict × SporkState :=
  if env.fLiteMode || !env.hasTip then (.ignored, state)
  else if getSporkNameByID spork.nSporkID = "Unknown" then (.ignored, state)
  else if state.isSeen spork then (.ignored, state)
  else if !spork.checkSignature env then (.misbehaving 100, state)
  else
    (.accepted,
      { mapSporks := Function.update state.mapSporks (spork.getHash env) (some spork)
        mapSporksActive :=
          Function.update state.mapSporksActive spork.nSporkID (some spork)
        sporkDB := Function.update state.sporkDB spork.nSporkID (some spork) })

/-- `UpdateSpork`, by the holder of the key. -/
def updateSpork (env : SporkEnv) (strMasterPrivKey : String) (time : Int)
    (state : SporkState) (nSporkID nValue : Int) : Option SporkState :=
  match CSporkMessage.sign env strMasterPrivKey ⟨nSporkID, nValue, time, []⟩ with
  | none => none
  | some msg =>
    some
      { state with
        mapSporks := Function.update state.mapSporks (msg.getHash env) (some msg)
        mapSporksActive := Function.update state.mapSporksActive nSporkID (some msg) }

end SporkState

end ColossusCoin

/-!
## What a spork signature is about

The signed string of a spork message does not separate its three numbers.  The numbers
that are read where the string is read from the left are what a signature stands for: two
messages with the same reading share their signatures.
-/

namespace ColossusCoin

namespace MessageSigner

/-- A signature that was made for a string verifies for no other string. -/
def Binding (signer : MessageSigner) : Prop :=
  ∀ key signed vchSig pubkey strMessage,
    signer.signMessage key signed = some vchSig →
      signer.verifyMessage pubkey vchSig strMessage = true → strMessage = signed

end MessageSigner

namespace CSporkMessage

/-- The numbers of a message. -/
def triple (spork : CSporkMessage) : Int × Int × Int :=
  (spork.nSporkID, spork.nValue, spork.nTimeSigned)

/-- The numbers that are read in the signed string: the value goes behind the digits of
the identifier and the time behind those of the value, where they are not negative and do
not follow zero. -/
def reading (spork : CSporkMessage) : List Int :=
  DecimalNumerals.readBack spork.nSporkID [spork.nValue, spork.nTimeSigned]

example : reading ⟨10001, 1, 23, []⟩ = [10001123] := by decide

/-- A message with other numbers has another string to sign, and no signature made for
the message makes a node accept the other one. -/
def Authenticates (env : SporkEnv) (spork other : CSporkMessage) : Prop :=
  spork.triple ≠ other.triple →
    spork.strMessage ≠ other.strMessage ∧
      ∀ strMasterPrivKey signed, spork.sign env strMasterPrivKey = some signed →
        ∀ state : SporkState,
          (state.processSpork env { other with vchSig := signed.vchSig }).1 ≠ .accepted

theorem toList_strMessage (spork : CSporkMessage) :
    spork.strMessage.toList =
      DecimalNumerals.written [spork.nSporkID, spork.nValue, spork.nTimeSigned] := by
  simp [strMessage, DecimalNumerals.written, DecimalNumerals.numeral]

theorem strMessage_eq_iff (spork other : CSporkMessage) :
    spork.strMessage = other.strMessage ↔ spork.reading = other.reading := by
  rw [← String.toList_inj, toList_strMessage, toList_strMessage, DecimalNumerals.written_eq_iff]
  rfl

theorem sign_eq_some
    {spork signed : CSporkMessage}
    (issued : spork.sign env strMasterPrivKey = some signed) :
    ∃ key, env.signer.signMessage key spork.strMessage = some signed.vchSig := by
  unfold sign at issued
  split at issued
  · cases issued
  · next key2 pubkey2 _ =>
      split at issued
      · cases issued
      · next vchSig made =>
          split_ifs at issued
          cases issued
          exact ⟨key2, made⟩

theorem checkSignature_of_accepted
    {state : SporkState}
    (accepted : (state.processSpork env spork).1 = .accepted) :
    spork.checkSignature env = true := by
  unfold SporkState.processSpork at accepted
  split_ifs at accepted with _ _ _ invalid
  simpa using invalid

end CSporkMessage

/-- Signatures that are the bytes of the string. -/
def plainSigner : MessageSigner where
  signMessage _ strMessage := some strMessage.toByteArray.data.toList
  verifyMessage _ vchSig strMessage := vchSig == strMessage.toByteArray.data.toList
  setKey _ := some ([], [])

/-- A node that handles spork messages. -/
def plainSporkEnv : SporkEnv where
  fLiteMode := false
  hasTip := true
  hashQuark _ _ _ := 0
  signer := plainSigner
  sporkKey := []

theorem plainSigner_binding : plainSigner.Binding := by
  intro key signed vchSig pubkey strMessage made verified
  cases made
  have bytes := beq_iff_eq.mp verified
  rw [Array.toList_inj] at bytes
  exact (String.toByteArray_inj.mp (ByteArray.ext bytes)).symm

namespace CSporkMessage

/-- A message with the signature that `plainSigner` makes for it. -/
def plainlySigned (nSporkID nValue nTimeSigned : Int) : CSporkMessage :=
  let spork : CSporkMessage := ⟨nSporkID, nValue, nTimeSigned, []⟩
  { spork with vchSig := spork.strMessage.toByteArray.data.toList }

theorem checkSignature_plainlySigned (nSporkID nValue nTimeSigned : Int) :
    (plainlySigned nSporkID nValue nTimeSigned).checkSignature plainSporkEnv = true := by
  simp [checkSignature, plainSporkEnv, plainSigner, plainlySigned, strMessage]

/-- A limit of 1500025 coins, signed at 1530000000. -/
def valueLimit : CSporkMessage :=
  plainlySigned 10004 1500025 1530000000

/-- The same digits, with the last one of the value in front of the time. -/
def shiftedValueLimit : CSporkMessage :=
  { valueLimit with nValue := 150002, nTimeSigned := 51530000000 }

end CSporkMessage

end ColossusCoin
