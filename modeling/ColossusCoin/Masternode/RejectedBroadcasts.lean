import ColossusCoin.Masternode.Manager

/-!
# What a rejected broadcast leaves of the list

`CheckInputsAndAdd` removes an entry that is not enabled before it makes the checks that may
fail.  A broadcast that it rejects leaves the list as it was exactly when no entry has its
outpoint.
-/

namespace ColossusCoin

open KeyedList

namespace CMasternodeBroadcast

variable {net : MasternodeNet} {env : MasternodeEnv}
variable {mnb : CMasternodeBroadcast}

theorem vMasternodes_checkInputs :
    (mnb.checkInputs net env man).2.vMasternodes = man.vMasternodes := by
  unfold checkInputs
  split_ifs
  · rfl
  · rfl
  · rfl
  · cases confirmationTime env mnb.vin with
    | none => rfl
    | some reached =>
      cases reached with
      | none => rfl
      | some blockTime =>
        dsimp only
        split_ifs <;> rfl

/-- Without the verdict that the masternode is accepted, none is added. -/
theorem vMasternodes_addNew
    (refused : (mnb.addNew net env man).1 ≠ some true) :
    (mnb.addNew net env man).2.vMasternodes = man.vMasternodes := by
  have entries := @vMasternodes_checkInputs net env mnb man
  unfold addNew at refused ⊢
  generalize mnb.checkInputs net env man = outcome at refused entries ⊢
  obtain ⟨verdict, checked⟩ := outcome
  rcases verdict with _ | _ | _
  · exact entries
  · exact entries
  · exact absurd rfl refused

end CMasternodeBroadcast

/-- The removal of an entry that is found shortens the list. -/
theorem CMasternodeMan.vMasternodes_remove_ne
    {man : CMasternodeMan}
    (found : man.find vin = some pmn) :
    (man.remove pmn.vin).vMasternodes ≠ man.vMasternodes := by
  apply erase_ne_self
  unfold KeyedList.find
  rw [List.find?_isSome]
  exact ⟨pmn, mem_of_find found, decide_eq_true rfl⟩

/-- A broadcast that `CheckInputsAndAdd` rejects leaves the list as it was exactly when the
list has no entry for its outpoint. -/
theorem checkInputsAndAdd_leaves_list_iff
    (net : MasternodeNet) (env : MasternodeEnv) (mnb : CMasternodeBroadcast)
    (man : CMasternodeMan)
    (rejects : (mnb.checkInputsAndAdd net env man).1 = some false) :
    (mnb.checkInputsAndAdd net env man).2.vMasternodes = man.vMasternodes ↔
      man.find mnb.vin = none := by
  unfold CMasternodeBroadcast.checkInputsAndAdd at rejects ⊢
  split_ifs at rejects ⊢ with ours
  · cases rejects
  · cases found : man.find mnb.vin with
    | none =>
      rw [found] at rejects
      refine iff_of_true (CMasternodeBroadcast.vMasternodes_addNew ?_) rfl
      rw [rejects]
      decide
    | some pmn =>
      rw [found] at rejects
      dsimp only at rejects ⊢
      split_ifs at rejects ⊢ with enabled
      · cases rejects
      · refine iff_of_false ?_ not_false
        rw [CMasternodeBroadcast.vMasternodes_addNew]
        · exact CMasternodeMan.vMasternodes_remove_ne found
        · rw [rejects]
          decide

/-- A network whose signatures are always taken, with the numbers as hashes. -/
def openNet : MasternodeNet where
  isMain := true
  nDefaultPort := 51572
  nMainDefaultPort := 51572
  nRequiredMasternodeCollateral := 10000000 * coin
  getScriptForDestination pubkey := pubkey ++ List.replicate (25 - pubkey.length) 0
  verifyMessage _ vchSig _ := vchSig == [1]
  hashBroadcast sigTime pubkey := 1000 * sigTime.toNat + pubkey.length
  hashPing vin sigTime := 1000 * sigTime.toNat + vin.prevout.hash
  vinText _ := ""
  hashText _ := ""

/-- A transaction whose first two outputs are collaterals, of the keys `[2]` and `[3, 3]`. -/
def collateralTx : CTransaction where
  hash := 7
  nVersion := 1
  vin := []
  vout :=
    [{ nValue := 10000000 * coin, scriptPubKey := openNet.getScriptForDestination [2] },
      { nValue := 10000000 * coin, scriptPubKey := openNet.getScriptForDestination [3, 3] }]
  nLockTime := 0

/-- A synchronized node at a time, with the collaterals 20 blocks deep. -/
def openEnv (time : Int) : MasternodeEnv where
  fLiteMode := false
  isBlockchainSynced := true
  shutdownRequested := false
  lockMain := true
  time := time
  adjustedTime := time
  nMinProtocol := 70000
  acceptableInputs _ := true
  getInputAge _ := 20
  getTransaction hash := if hash = 7 then some (collateralTx, 5) else none
  blockHeight hash := if hash = 5 then some 100 else none
  activeBlockTime height := if height ≤ 119 then some 0 else none
  chainHeight := 119
  activeMasternode := none

/-- A ping for the first collateral. -/
def openPing (sigTime : Int) : CMasternodePing where
  vin := { CTxIn.empty with prevout := ⟨7, 0⟩ }
  blockHash := 5
  sigTime := sigTime
  vchSig := [1]

/-- A broadcast for the first collateral with the key of its owner. -/
def openBroadcast (sigTime : Int) : CMasternodeBroadcast where
  vin := { CTxIn.empty with prevout := ⟨7, 0⟩ }
  addr := ⟨"10.1.1.1:51572", 51572⟩
  pubKeyCollateralAddress := [2]
  pubKeyMasternode := [4]
  sig := [1]
  sigTime := sigTime
  protocolVersion := 70210
  lastPing := openPing sigTime
  nLastDsq := 0

/-- A list with the entry of that broadcast, expired. -/
def expiredList (sigTime : Int) : CMasternodeMan :=
  { CMasternodeMan.empty with
    vMasternodes :=
      [{ CMasternode.ofBroadcast (openBroadcast sigTime) with activeState := .expired }] }

/-- A broadcast signed before its collateral had its confirmations is rejected by an empty
list, which stays empty. -/
theorem checkInputsAndAdd_leaves_list_iff_early :
    let env := { openEnv 1000 with activeBlockTime := fun _ => some 500 }
    ((openBroadcast 400).checkInputsAndAdd openNet env .empty).2.vMasternodes = [] :=
  (checkInputsAndAdd_leaves_list_iff openNet
    { openEnv 1000 with activeBlockTime := fun _ => some 500 } (openBroadcast 400) .empty
    (by decide)).mpr rfl

/-- The same broadcast removes the expired entry of its outpoint. -/
theorem rejected_broadcast_removes_entry :
    let env := { openEnv 1000 with activeBlockTime := fun _ => some 500 }
    let outcome := (openBroadcast 400).checkInputsAndAdd openNet env (expiredList 300)
    outcome.1 = some false ∧ outcome.2.vMasternodes ≠ (expiredList 300).vMasternodes := by
  decide

end ColossusCoin
