import ColossusCoin.Library.KeyedList
import ColossusCoin.Library.System
import ColossusCoin.Masternode.Entries

/-!
# The masternode list

`CMasternodeMan` with the handlers of broadcasts and pings, and the cleanup that removes
inactive masternodes.
-/

namespace ColossusCoin

open KeyedList

/-- `CMasternodeMan`: the entries, and the messages seen so far by their hashes. -/
structure CMasternodeMan where
  vMasternodes : List CMasternode
  mapSeenMasternodeBroadcast : Uint256 → Option CMasternodeBroadcast
  mapSeenMasternodePing : Uint256 → Option CMasternodePing

namespace CMasternodeMan

/-- `CMasternodeMan()`. -/
def empty : CMasternodeMan where
  vMasternodes := []
  mapSeenMasternodeBroadcast _ := none
  mapSeenMasternodePing _ := none

def find (man : CMasternodeMan) (vin : CTxIn) : Option CMasternode :=
  KeyedList.find CMasternode.prevout vin.prevout man.vMasternodes

/-- Change the entry that `Find` finds. -/
def modify (man : CMasternodeMan) (vin : CTxIn) (change : CMasternode → CMasternode) :
    CMasternodeMan :=
  { man with
    vMasternodes := KeyedList.modify CMasternode.prevout vin.prevout change man.vMasternodes }

def add (man : CMasternodeMan) (mn : CMasternode) : CMasternodeMan :=
  if !mn.isEnabled then man
  else if (man.find mn.vin).isSome then man
  else { man with vMasternodes := man.vMasternodes ++ [mn] }

/-- `Remove`, which compares whole inputs. -/
def remove (man : CMasternodeMan) (vin : CTxIn) : CMasternodeMan :=
  { man with vMasternodes := KeyedList.erase CMasternode.vin vin man.vMasternodes }

/-- Note a broadcast under its hash, unless one is noted there. -/
def noteBroadcast (net : MasternodeNet) (man : CMasternodeMan) (mnb : CMasternodeBroadcast) :
    CMasternodeMan :=
  if (man.mapSeenMasternodeBroadcast (mnb.getHash net)).isSome then man
  else
    { man with
      mapSeenMasternodeBroadcast :=
        Function.update man.mapSeenMasternodeBroadcast (mnb.getHash net) (some mnb) }

/-- Note a ping under its hash, unless one is noted there. -/
def notePing (net : MasternodeNet) (man : CMasternodeMan) (ping : CMasternodePing) :
    CMasternodeMan :=
  if (man.mapSeenMasternodePing (ping.getHash net)).isSome then man
  else
    { man with
      mapSeenMasternodePing :=
        Function.update man.mapSeenMasternodePing (ping.getHash net) (some ping) }

/-- Forget the broadcast under a hash, to check it again later. -/
def forgetBroadcast (net : MasternodeNet) (man : CMasternodeMan)
    (mnb : CMasternodeBroadcast) : CMasternodeMan :=
  { man with
    mapSeenMasternodeBroadcast :=
      Function.update man.mapSeenMasternodeBroadcast (mnb.getHash net) none }

/-- The ping that a seen broadcast carries. -/
def updateSeenPing (net : MasternodeNet) (man : CMasternodeMan) (mnb : CMasternodeBroadcast)
    (ping : CMasternodePing) : CMasternodeMan :=
  { man with
    mapSeenMasternodeBroadcast :=
      Function.update man.mapSeenMasternodeBroadcast (mnb.getHash net)
        ((man.mapSeenMasternodeBroadcast (mnb.getHash net)).map fun seen =>
          { seen with lastPing := ping }) }

end CMasternodeMan

section Operations

theorem find_congr
    {first second : CMasternodeMan}
    (same : first.vMasternodes = second.vMasternodes)
    (vin : CTxIn) :
    first.find vin = second.find vin := by
  unfold CMasternodeMan.find
  rw [same]

theorem vMasternodes_notePing (man : CMasternodeMan) (ping : CMasternodePing) :
    (man.notePing net ping).vMasternodes = man.vMasternodes := by
  unfold CMasternodeMan.notePing
  split_ifs <;> rfl

theorem vMasternodes_noteBroadcast (man : CMasternodeMan) (mnb : CMasternodeBroadcast) :
    (man.noteBroadcast net mnb).vMasternodes = man.vMasternodes := by
  unfold CMasternodeMan.noteBroadcast
  split_ifs <;> rfl

end Operations

namespace CMasternodePing

variable (net : MasternodeNet) (env : MasternodeEnv)

/-- An entry takes the ping: it does not come too early, its signature is that of the
masternode, and its block is known and recent. -/
def isTakenBy (fRequireEnabled : Bool) (ping : CMasternodePing) (pmn : CMasternode) : Bool :=
  env.nMinProtocol ≤ pmn.protocolVersion &&
    (!fRequireEnabled || pmn.isEnabled) &&
    !pmn.isPingedWithin env (masternodeMinMnpSeconds - 60) ping.sigTime &&
    net.verifyMessage pmn.pubKeyMasternode ping.vchSig (ping.strMessage net) &&
    (env.blockHeight ping.blockHash).any fun nHeight => env.chainHeight - 24 ≤ nHeight

/-- `CMasternodePing::CheckAndUpdate`. -/
def checkAndUpdate (fRequireEnabled : Bool) (ping : CMasternodePing) (man : CMasternodeMan) :
    Bool × CMasternodeMan :=
  if env.adjustedTime + 60 * 60 < ping.sigTime ||
      ping.sigTime ≤ env.adjustedTime - 60 * 60 then (false, man)
  else
    match man.find ping.vin with
    | none => (false, man)
    | some pmn =>
      if !ping.isTakenBy net env fRequireEnabled pmn then (false, man)
      else
        let pinged := { pmn with lastPing := ping }
        (CMasternode.isEnabled (pinged.check env true),
          (man.updateSeenPing net (.ofMasternode pinged) ping).modify ping.vin
            fun mn => CMasternode.check env true { mn with lastPing := ping })

end CMasternodePing

namespace CMasternodeBroadcast

variable (net : MasternodeNet) (env : MasternodeEnv)

/-- The end of `UpdateFromNewBroadcast`: the entry gets the ping of the broadcast where
there is none, or where the ping is taken. -/
def updatePing (mnb : CMasternodeBroadcast) (man : CMasternodeMan) : CMasternodeMan :=
  let checked :=
    if mnb.lastPing.isEmpty then (true, man)
    else mnb.lastPing.checkAndUpdate net env false man
  if checked.1 then
    (checked.2.modify mnb.vin fun mn => { mn with lastPing := mnb.lastPing }).notePing net
      mnb.lastPing
  else checked.2

/-- `UpdateFromNewBroadcast` of an entry that the broadcast renews, followed by `Check`. -/
def updateAndCheck (mnb : CMasternodeBroadcast) (man : CMasternodeMan) : CMasternodeMan :=
  (mnb.updatePing net env (man.modify mnb.vin (CMasternode.renew mnb))).modify mnb.vin
    (CMasternode.check env false)

/-- `CMasternodeBroadcast::CheckAndUpdate`. -/
def checkAndUpdate (mnb : CMasternodeBroadcast) (man : CMasternodeMan) :
    Bool × CMasternodeMan :=
  if !mnb.passesChecks net env then (false, man)
  else
    match man.find mnb.vin with
    | none => (true, man)
    | some pmn =>
      if mnb.sigTime < pmn.sigTime then (false, man)
      else if !pmn.isEnabled then (true, man)
      else if pmn.pubKeyCollateralAddress == mnb.pubKeyCollateralAddress &&
          !pmn.isBroadcastedWithin env masternodeMinMnbSeconds &&
          pmn.sigTime < mnb.sigTime then
        (true, mnb.updateAndCheck net env man)
      else (true, man)

/-- The checks of the inputs in `CheckInputsAndAdd`, and what they leave of the list; no
verdict where the active chain has no block at the height that is asked for. -/
def checkInputs (mnb : CMasternodeBroadcast) (man : CMasternodeMan) :
    Option Bool × CMasternodeMan :=
  if !env.lockMain then (some false, man.forgetBroadcast net mnb)
  else if !env.acceptableInputs mnb.vin then (some false, man)
  else if env.getInputAge mnb.vin < masternodeMinConfirmations then
    (some false, man.forgetBroadcast net mnb)
  else
    match confirmationTime env mnb.vin with
    | none => (some true, man)
    | some none => (none, man)
    | some (some blockTime) =>
      if mnb.sigTime < blockTime then (some false, man) else (some true, man)

/-- The part of `CheckInputsAndAdd` for a masternode that is not listed. -/
def addNew (mnb : CMasternodeBroadcast) (man : CMasternodeMan) :
    Option Bool × CMasternodeMan :=
  match mnb.checkInputs net env man with
  | (some true, checked) => (some true, checked.add (.ofBroadcast mnb))
  | (verdict, checked) => (verdict, checked)

/-- `CheckInputsAndAdd`: an entry that is not enabled is removed before the checks. -/
def checkInputsAndAdd (mnb : CMasternodeBroadcast) (man : CMasternodeMan) :
    Option Bool × CMasternodeMan :=
  if mnb.isOurs env then (some true, man)
  else
    match man.find mnb.vin with
    | none => mnb.addNew net env man
    | some pmn =>
      if pmn.isEnabled then (some true, man)
      else mnb.addNew net env (man.remove pmn.vin)

end CMasternodeBroadcast

namespace CMasternodeMan

variable (net : MasternodeNet) (env : MasternodeEnv)

/-- `ProcessMessage` does nothing before the node is ready for it. -/
def isReady : Bool :=
  !env.fLiteMode && env.isBlockchainSynced

/-- What `ProcessMessage` does with a broadcast once it is noted: whether it is accepted,
and the list then. -/
def handleBroadcast (man : CMasternodeMan) (mnb : CMasternodeBroadcast) :
    Bool × CMasternodeMan :=
  match mnb.checkAndUpdate net env man with
  | (false, checked) => (false, checked)
  | (true, checked) =>
    if !isVinAssociatedWithPubkey net env mnb.vin mnb.pubKeyCollateralAddress then
      (false, checked)
    else
      match mnb.checkInputsAndAdd net env checked with
      | (verdict, added) => (verdict == some true, added)

/-- `ProcessMessage` of a broadcast: whether it is accepted, and the list then. -/
def processBroadcast (man : CMasternodeMan) (mnb : CMasternodeBroadcast) :
    Bool × CMasternodeMan :=
  if !isReady env then (false, man)
  else if (man.mapSeenMasternodeBroadcast (mnb.getHash net)).isSome then (false, man)
  else handleBroadcast net env (man.noteBroadcast net mnb) mnb

/-- `ProcessMessage` of a ping: whether it is accepted, and the list then. -/
def processPing (man : CMasternodeMan) (ping : CMasternodePing) : Bool × CMasternodeMan :=
  if !isReady env then (false, man)
  else if (man.mapSeenMasternodePing (ping.getHash net)).isSome then (false, man)
  else ping.checkAndUpdate net env true (man.notePing net ping)

/-- `CheckAndRemove` removes an entry. -/
def isRemoved (forceExpiredRemoval : Bool) (mn : CMasternode) : Bool :=
  mn.activeState == .remove || mn.activeState == .vinSpent ||
    (forceExpiredRemoval && mn.activeState == .expired) ||
    mn.protocolVersion < env.nMinProtocol

/-- `CheckAndRemove`.  Broadcasts of the inputs removed are forgotten, and so are old
messages. -/
def checkAndRemove (forceExpiredRemoval : Bool) (man : CMasternodeMan) : CMasternodeMan :=
  let checked :=
    if env.lockMain then man.vMasternodes.map (CMasternode.check env false)
    else man.vMasternodes
  let removed := checked.filter (isRemoved env forceExpiredRemoval)
  { vMasternodes := checked.filter fun mn => !isRemoved env forceExpiredRemoval mn
    mapSeenMasternodeBroadcast := fun hash =>
      (man.mapSeenMasternodeBroadcast hash).filter fun mnb =>
        !(removed.any fun mn => mnb.vin == mn.vin) &&
          env.time - masternodeRemovalSeconds * 2 ≤ mnb.lastPing.sigTime
    mapSeenMasternodePing := fun hash =>
      (man.mapSeenMasternodePing hash).filter fun ping =>
        env.time - masternodeRemovalSeconds * 2 ≤ ping.sigTime }

end CMasternodeMan

/-- What happens to the masternode list of a node. -/
inductive MasternodeEvent where
  | mnb (env : MasternodeEnv) (mnb : CMasternodeBroadcast)
  | mnp (env : MasternodeEnv) (ping : CMasternodePing)
  | cleanup (env : MasternodeEnv) (forceExpiredRemoval : Bool)

namespace CMasternodeMan

/-- The list after an event. -/
def apply (net : MasternodeNet) (man : CMasternodeMan) : MasternodeEvent → CMasternodeMan
  | .mnb env mnb => (man.processBroadcast net env mnb).2
  | .mnp env ping => (man.processPing net env ping).2
  | .cleanup env forceExpiredRemoval => man.checkAndRemove env forceExpiredRemoval

/-- The list of a node after a sequence of events. -/
def after (net : MasternodeNet) (trace : List MasternodeEvent) : CMasternodeMan :=
  trace.foldl (apply net) .empty

theorem after_snoc (net : MasternodeNet) (past : List MasternodeEvent)
    (event : MasternodeEvent) :
    after net (past ++ [event]) = (after net past).apply net event := by
  unfold after
  rw [List.foldl_append, List.foldl_cons, List.foldl_nil]

theorem after_invariant
    {net : MasternodeNet} {trace : List MasternodeEvent}
    (Holds : CMasternodeMan → Prop)
    (atStart : Holds .empty)
    (kept : ∀ event ∈ trace, ∀ man, Holds man → Holds (man.apply net event)) :
    Holds (after net trace) := by
  induction trace using List.reverseRecOn with
  | nil => exact atStart
  | append_singleton past event ih =>
    rw [after_snoc]
    refine kept event (List.mem_append_right past (List.mem_singleton_self event)) _ ?_
    exact ih fun earlier member =>
      kept earlier (List.mem_append_left [event] member)

end CMasternodeMan

end ColossusCoin
