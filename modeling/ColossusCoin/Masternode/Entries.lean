import ColossusCoin.Primitives.PubKey
import ColossusCoin.Primitives.Transaction

/-!
# Masternodes, broadcasts and pings

The entries of the masternode list, the messages that announce a masternode and show that
it is up, and what one entry does on its own.  What a node goes by when it handles a
message, its chain, its memory pool and its clock, is for it to say.  Relaying, penalties,
requests to peers, the counters of the synchronisation and the messages of older versions
are left out.
-/

namespace ColossusCoin

/-- `CService`, by what `ToString` and `GetPort` say of it. -/
structure CService where
  text : String
  port : Nat
  deriving DecidableEq, Repr

/-- `CTxIn()`. -/
def CTxIn.empty : CTxIn where
  prevout := .null
  scriptSig := []
  nSequence := 0xffffffff

/-- What all nodes of a network share. -/
structure MasternodeNet where
  /-- `Params().NetworkID()` is that of the main network. -/
  isMain : Bool
  /-- `Params().GetDefaultPort()`. -/
  nDefaultPort : Nat
  /-- The default port of the main network. -/
  nMainDefaultPort : Nat
  /-- `GetRequiredMasternodeCollateral`. -/
  nRequiredMasternodeCollateral : Int
  /-- `GetScriptForDestination` of the identifier of a key. -/
  getScriptForDestination : CPubKey → CScript
  /-- `CObfuScationSigner::VerifyMessage`. -/
  verifyMessage : CPubKey → List UInt8 → String → Bool
  /-- How the time and the collateral key of a broadcast are hashed. -/
  hashBroadcast : Int → CPubKey → Uint256
  /-- How the input and the time of a ping are hashed. -/
  hashPing : CTxIn → Int → Uint256
  /-- `CTxIn::ToString`. -/
  vinText : CTxIn → String
  /-- `uint256::ToString`. -/
  hashText : Uint256 → String

/-- What a node goes by when it handles a message about masternodes. -/
structure MasternodeEnv where
  fLiteMode : Bool
  /-- `masternodeSync.IsBlockchainSynced`. -/
  isBlockchainSynced : Bool
  shutdownRequested : Bool
  /-- The chain is not locked by another thread. -/
  lockMain : Bool
  /-- `GetTime`. -/
  time : Int
  /-- `GetAdjustedTime`. -/
  adjustedTime : Int
  /-- `GetMinMasternodePaymentsProto`. -/
  nMinProtocol : Int
  /-- `AcceptableInputs` of a transaction with the input, which pays the collateral less
  100 coins. -/
  acceptableInputs : CTxIn → Bool
  /-- `GetInputAge`. -/
  getInputAge : CTxIn → Int
  /-- `GetTransaction`, with the hash of the block. -/
  getTransaction : Uint256 → Option (CTransaction × Uint256)
  /-- The height of a block that is indexed. -/
  blockHeight : Uint256 → Option Int
  /-- The time of the block of the active chain at a height. -/
  activeBlockTime : Int → Option Int
  /-- `chainActive.Height()`. -/
  chainHeight : Int
  /-- The outpoint and the key of the masternode that the node runs, if it runs one. -/
  activeMasternode : Option (COutPoint × CPubKey)

def masternodeMinConfirmations : Int := 15

def masternodeMinMnpSeconds : Int := 10 * 60

def masternodeMinMnbSeconds : Int := 5 * 60

def masternodeExpirationSeconds : Int := 120 * 60

def masternodeRemovalSeconds : Int := 130 * 60

def masternodeCheckSeconds : Int := 5

/-- The bytes of a key as a string. -/
def CPubKey.text (key : CPubKey) : String :=
  String.ofList (key.map fun byte => Char.ofNat byte.toNat)

structure CMasternodePing where
  vin : CTxIn
  blockHash : Uint256
  sigTime : Int
  vchSig : List UInt8
  deriving DecidableEq, Repr

namespace CMasternodePing

/-- `CMasternodePing()`. -/
def empty : CMasternodePing where
  vin := .empty
  blockHash := 0
  sigTime := 0
  vchSig := []

/-- The ping equals `CMasternodePing()`: neither time nor signature are compared. -/
def isEmpty (ping : CMasternodePing) : Bool :=
  ping.vin == .empty && ping.blockHash == 0

def getHash (net : MasternodeNet) (ping : CMasternodePing) : Uint256 :=
  net.hashPing ping.vin ping.sigTime

/-- The string that is signed. -/
def strMessage (net : MasternodeNet) (ping : CMasternodePing) : String :=
  net.vinText ping.vin ++ net.hashText ping.blockHash ++ toString ping.sigTime

end CMasternodePing

/-- `CMasternode::state`. -/
inductive MasternodeState where
  | preEnabled
  | enabled
  | expired
  | outpointSpent
  | remove
  | watchdogExpired
  | poseBan
  | vinSpent
  | posError
  deriving DecidableEq, Repr

structure CMasternode where
  vin : CTxIn
  addr : CService
  pubKeyCollateralAddress : CPubKey
  pubKeyMasternode : CPubKey
  sig : List UInt8
  activeState : MasternodeState
  sigTime : Int
  lastPing : CMasternodePing
  cacheInputAge : Int
  cacheInputAgeBlock : Int
  protocolVersion : Int
  nLastDsq : Int
  lastTimeChecked : Int
  deriving DecidableEq, Repr

/-- `CMasternodeBroadcast`, as far as it is sent. -/
structure CMasternodeBroadcast where
  vin : CTxIn
  addr : CService
  pubKeyCollateralAddress : CPubKey
  pubKeyMasternode : CPubKey
  sig : List UInt8
  sigTime : Int
  protocolVersion : Int
  lastPing : CMasternodePing
  nLastDsq : Int
  deriving DecidableEq, Repr

namespace CMasternode

/-- `CMasternode(mnb)`. -/
def ofBroadcast (mnb : CMasternodeBroadcast) : CMasternode where
  vin := mnb.vin
  addr := mnb.addr
  pubKeyCollateralAddress := mnb.pubKeyCollateralAddress
  pubKeyMasternode := mnb.pubKeyMasternode
  sig := mnb.sig
  activeState := .enabled
  sigTime := mnb.sigTime
  lastPing := mnb.lastPing
  cacheInputAge := 0
  cacheInputAgeBlock := 0
  protocolVersion := mnb.protocolVersion
  nLastDsq := mnb.nLastDsq
  lastTimeChecked := 0

/-- The outpoint by which an entry is found. -/
def prevout (mn : CMasternode) : COutPoint :=
  mn.vin.prevout

def isEnabled (mn : CMasternode) : Bool :=
  mn.activeState == .enabled

def isBroadcastedWithin (env : MasternodeEnv) (seconds : Int) (mn : CMasternode) : Bool :=
  env.adjustedTime - mn.sigTime < seconds

/-- `IsPingedWithin`; the time `-1` stands for the time now. -/
def isPingedWithin (env : MasternodeEnv) (seconds now : Int) (mn : CMasternode) : Bool :=
  !mn.lastPing.isEmpty &&
    (if now = -1 then env.adjustedTime else now) - mn.lastPing.sigTime < seconds

def check (env : MasternodeEnv) (forceCheck : Bool) (mn : CMasternode) : CMasternode :=
  if env.shutdownRequested then mn
  else if !forceCheck && env.time - mn.lastTimeChecked < masternodeCheckSeconds then mn
  else
    let checked := { mn with lastTimeChecked := env.time }
    if mn.activeState = .vinSpent then checked
    else if !mn.isPingedWithin env masternodeRemovalSeconds (-1) then
      { checked with activeState := .remove }
    else if !mn.isPingedWithin env masternodeExpirationSeconds (-1) then
      { checked with activeState := .expired }
    else if !env.lockMain then checked
    else if !env.acceptableInputs mn.vin then { checked with activeState := .vinSpent }
    else { checked with activeState := .enabled }

/-- What `UpdateFromNewBroadcast` copies, apart from the ping. -/
def renew (mnb : CMasternodeBroadcast) (mn : CMasternode) : CMasternode :=
  { mn with
    pubKeyMasternode := mnb.pubKeyMasternode
    pubKeyCollateralAddress := mnb.pubKeyCollateralAddress
    sigTime := mnb.sigTime
    sig := mnb.sig
    protocolVersion := mnb.protocolVersion
    addr := mnb.addr
    lastTimeChecked := 0 }

end CMasternode

namespace CMasternodeBroadcast

/-- `CMasternodeBroadcast(mn)`. -/
def ofMasternode (mn : CMasternode) : CMasternodeBroadcast where
  vin := mn.vin
  addr := mn.addr
  pubKeyCollateralAddress := mn.pubKeyCollateralAddress
  pubKeyMasternode := mn.pubKeyMasternode
  sig := mn.sig
  sigTime := mn.sigTime
  protocolVersion := mn.protocolVersion
  lastPing := mn.lastPing
  nLastDsq := mn.nLastDsq

def getHash (net : MasternodeNet) (mnb : CMasternodeBroadcast) : Uint256 :=
  net.hashBroadcast mnb.sigTime mnb.pubKeyCollateralAddress

/-- The string that is signed. -/
def strMessage (mnb : CMasternodeBroadcast) : String :=
  mnb.addr.text ++ toString mnb.sigTime ++ mnb.pubKeyCollateralAddress.text ++
    mnb.pubKeyMasternode.text ++ toString mnb.protocolVersion

/-- The broadcast is signed with the key of its collateral. -/
def isSigned (net : MasternodeNet) (mnb : CMasternodeBroadcast) : Bool :=
  net.verifyMessage mnb.pubKeyCollateralAddress mnb.sig mnb.strMessage

/-- The port fits the network. -/
def hasNetworkPort (net : MasternodeNet) (mnb : CMasternodeBroadcast) : Bool :=
  if net.isMain then mnb.addr.port == net.nDefaultPort
  else mnb.addr.port != net.nMainDefaultPort

/-- The checks that `CheckAndUpdate` makes of the broadcast alone. -/
def passesChecks (net : MasternodeNet) (env : MasternodeEnv) (mnb : CMasternodeBroadcast) :
    Bool :=
  mnb.sigTime ≤ env.adjustedTime + 60 * 60 &&
    env.nMinProtocol ≤ mnb.protocolVersion &&
    (net.getScriptForDestination mnb.pubKeyCollateralAddress).length == 25 &&
    (net.getScriptForDestination mnb.pubKeyMasternode).length == 25 &&
    mnb.vin.scriptSig.isEmpty &&
    mnb.isSigned net &&
    mnb.hasNetworkPort net

/-- The broadcast announces the masternode that the node runs. -/
def isOurs (env : MasternodeEnv) (mnb : CMasternodeBroadcast) : Bool :=
  env.activeMasternode.any fun active =>
    mnb.vin.prevout == active.1 && mnb.pubKeyMasternode == active.2

end CMasternodeBroadcast

/-- `IsVinAssociatedWithPubkey`: any output of the transaction will do. -/
def isVinAssociatedWithPubkey (net : MasternodeNet) (env : MasternodeEnv)
    (vin : CTxIn) (pubkey : CPubKey) : Bool :=
  match env.getTransaction vin.prevout.hash with
  | none => false
  | some (txVin, _) =>
    txVin.vout.any fun out =>
      out.nValue == net.nRequiredMasternodeCollateral &&
        out.scriptPubKey == net.getScriptForDestination pubkey

/-- The time of the block in which the collateral got its confirmations: `none` without
such a block in the index, `some none` where the active chain does not reach it. -/
def confirmationTime (env : MasternodeEnv) (vin : CTxIn) : Option (Option Int) :=
  match env.getTransaction vin.prevout.hash with
  | none => none
  | some (_, hashBlock) =>
    (env.blockHeight hashBlock).map fun nHeight =>
      env.activeBlockTime (nHeight + masternodeMinConfirmations - 1)

end ColossusCoin
