import ColossusCoin.Masternode.Announcements

/-!
# Whose collateral an entry has

`IsVinAssociatedWithPubkey` looks for the collateral among all outputs of the transaction,
and not at the index of the outpoint.  A run keeps every entry at an output that pays the
collateral to its key exactly when no broadcast that enters the list names another output
than the one that pays.
-/

namespace ColossusCoin

open KeyedList

/-- An output pays exactly the collateral to a key. -/
def CTxOut.isCollateralOf (net : MasternodeNet) (pubkey : CPubKey) (out : CTxOut) : Bool :=
  out.nValue == net.nRequiredMasternodeCollateral &&
    out.scriptPubKey == net.getScriptForDestination pubkey

/-- The output at an outpoint pays exactly the collateral to a key. -/
def isOwnCollateral (net : MasternodeNet) (txOf : Uint256 → Option CTransaction)
    (outpoint : COutPoint) (pubkey : CPubKey) : Bool :=
  (txOf outpoint.hash).any fun tx =>
    tx.vout[outpoint.n]?.any (CTxOut.isCollateralOf net pubkey)

/-- Some output of the transaction pays the collateral to the key of the broadcast, but not
the one at the index of its outpoint. -/
def CMasternodeBroadcast.isMisplaced (net : MasternodeNet) (env : MasternodeEnv)
    (mnb : CMasternodeBroadcast) : Bool :=
  (env.getTransaction mnb.vin.prevout.hash).any fun found =>
    found.1.vout.any (CTxOut.isCollateralOf net mnb.pubKeyCollateralAddress) &&
      !found.1.vout[mnb.vin.prevout.n]?.any
        (CTxOut.isCollateralOf net mnb.pubKeyCollateralAddress)

/-- The transactions that a node finds are those that have the hashes. -/
def MasternodeEvent.ReadsFrom (txOf : Uint256 → Option CTransaction) :
    MasternodeEvent → Prop
  | .mnb env _ => ∀ hash found, env.getTransaction hash = some found → txOf hash = some found.1
  | .mnp _ _ => True
  | .cleanup _ _ => True

/-- A broadcast that enters the list is not misplaced. -/
def MasternodeEvent.EntersInPlace (net : MasternodeNet) (man : CMasternodeMan) :
    MasternodeEvent → Prop
  | .mnb env announced =>
    announced.outcome net env man = .entered → announced.isMisplaced net env = false
  | .mnp _ _ => True
  | .cleanup _ _ => True

/-- Every entry is at an output that pays exactly the collateral to its key. -/
def CMasternodeMan.OwnCollaterals (net : MasternodeNet)
    (txOf : Uint256 → Option CTransaction) (man : CMasternodeMan) : Prop :=
  ∀ mn ∈ man.vMasternodes,
    isOwnCollateral net txOf mn.vin.prevout mn.pubKeyCollateralAddress = true

instance (net : MasternodeNet) (txOf : Uint256 → Option CTransaction)
    (man : CMasternodeMan) : Decidable (man.OwnCollaterals net txOf) :=
  inferInstanceAs (Decidable (∀ mn ∈ man.vMasternodes, _))

section Steps

open CMasternodeBroadcast

variable {man : CMasternodeMan}
variable {mnb : CMasternodeBroadcast}

theorem ownCollaterals_iff :
    man.OwnCollaterals net txOf ↔
      ∀ row ∈ man.announcements,
        isOwnCollateral net txOf row.prevout row.pubKeyCollateralAddress = true :=
  (@List.forall_mem_map _ _ CMasternode.announced man.vMasternodes fun row =>
    isOwnCollateral net txOf row.prevout row.pubKeyCollateralAddress = true).symm

theorem script_eq_of_isOwnCollateral
    (mine : isOwnCollateral net txOf outpoint pubkey = true)
    (theirs : isOwnCollateral net txOf outpoint other = true) :
    net.getScriptForDestination pubkey = net.getScriptForDestination other := by
  unfold isOwnCollateral at mine theirs
  obtain ⟨tx, found, hereMine⟩ := (Option.any_eq_true _ _).mp mine
  rw [found, Option.any_some] at theirs
  obtain ⟨out, atIndex, payMine⟩ := (Option.any_eq_true _ _).mp hereMine
  rw [atIndex, Option.any_some] at theirs
  unfold CTxOut.isCollateralOf at payMine theirs
  simp only [Bool.and_eq_true, beq_iff_eq] at payMine theirs
  exact payMine.2.symm.trans theirs.2

theorem isOwnCollateral_iff_of_associated
    (reads : ∀ hash found, env.getTransaction hash = some found → txOf hash = some found.1)
    (associated : isVinAssociatedWithPubkey net env mnb.vin mnb.pubKeyCollateralAddress = true) :
    isOwnCollateral net txOf mnb.vin.prevout mnb.pubKeyCollateralAddress = true ↔
      mnb.isMisplaced net env = false := by
  unfold isVinAssociatedWithPubkey at associated
  unfold isOwnCollateral isMisplaced
  rcases Option.eq_none_or_eq_some (env.getTransaction mnb.vin.prevout.hash)
    with missing | ⟨found, here⟩
  · rw [missing] at associated
    exact absurd associated Bool.false_ne_true
  · rw [here] at associated
    have anyOutput : found.1.vout.any
        (CTxOut.isCollateralOf net mnb.pubKeyCollateralAddress) = true := associated
    rw [here, reads _ _ here, Option.any_some, Option.any_some, anyOutput, Bool.true_and,
      Bool.not_eq_false']

/-- Rows that a broadcast leaves or renews keep their collaterals, and its own row has one
exactly when it is not misplaced. -/
theorem ownCollaterals_processBroadcast_iff
    (distinct : man.OutpointsDistinct)
    (reads : ∀ hash found, env.getTransaction hash = some found → txOf hash = some found.1)
    (own : man.OwnCollaterals net txOf) :
    (man.processBroadcast net env mnb).2.OwnCollaterals net txOf ↔
      (mnb.outcome net env man = .entered → mnb.isMisplaced net env = false) := by
  rw [ownCollaterals_iff] at own ⊢
  rw [announcements_processBroadcast distinct]
  cases result : mnb.outcome net env man with
  | ignored => exact iff_of_true own nofun
  | removed =>
    refine iff_of_true ?_ nofun
    exact fun row member => own row (List.mem_of_mem_eraseP member)
  | renewed =>
    refine iff_of_true ?_ nofun
    obtain ⟨pmn, found, renewing⟩ := renews_of_renewed result
    unfold renews at renewing
    simp only [Bool.and_eq_true, beq_iff_eq] at renewing
    intro row member
    rcases mem_modify member with old | ⟨_, _, isRenewed⟩
    · exact own row old
    · have before := own pmn.announced (List.mem_map_of_mem (mem_of_find found))
      have outpoint : pmn.prevout = mnb.vin.prevout := key_of_find found
      unfold CMasternode.announced at before
      rw [outpoint, renewing.1.1] at before
      rw [isRenewed]
      exact before
  | entered =>
    have passed := mayEnter_of_entered result
    have ownRow := isOwnCollateral_iff_of_associated reads (Bool.and_eq_true_iff.mp passed).1
    refine Iff.intro ?_ ?_
    · intro all _
      exact ownRow.mp (all mnb.announced (List.mem_append_right _ List.mem_cons_self))
    · intro inPlace row member
      rcases List.mem_append.mp member with old | new
      · exact own row (List.mem_of_mem_eraseP old)
      · rw [List.mem_singleton.mp new]
        exact ownRow.mpr (inPlace rfl)

theorem ownCollaterals_apply_iff
    (event : MasternodeEvent)
    (reads : event.ReadsFrom txOf)
    (before : man.OutpointsDistinct ∧ man.OwnCollaterals net txOf) :
    (man.apply net event).OwnCollaterals net txOf ↔ event.EntersInPlace net man := by
  obtain ⟨distinct, own⟩ := before
  cases event with
  | mnb env announced => exact ownCollaterals_processBroadcast_iff distinct reads own
  | mnp env ping =>
    refine iff_of_true ?_ trivial
    rw [ownCollaterals_iff] at own ⊢
    unfold CMasternodeMan.apply
    rw [announcements_processPing]
    exact own
  | cleanup env forceExpiredRemoval =>
    refine iff_of_true ?_ trivial
    rw [ownCollaterals_iff] at own ⊢
    intro row member
    exact own row ((announcements_checkAndRemove_sublist forceExpiredRemoval).subset member)

end Steps

/-- In a run, every entry is at an output that pays exactly the collateral to its key in
every state if and only if every broadcast that enters the list is in place; and in such a
run no two keys ever have entries at one outpoint, unless they have the same script. -/
theorem listed_own_collateral_iff
    (net : MasternodeNet) (txOf : Uint256 → Option CTransaction)
    (trace : List MasternodeEvent)
    (reads : ∀ event ∈ trace, event.ReadsFrom txOf) :
    ((∀ past, past <+: trace →
          (CMasternodeMan.after net past).OwnCollaterals net txOf) ↔
        ∀ past event, past ++ [event] <+: trace →
          event.EntersInPlace net (CMasternodeMan.after net past)) ∧
      ((∀ past event, past ++ [event] <+: trace →
          event.EntersInPlace net (CMasternodeMan.after net past)) →
        ∀ first second, first <+: trace → second <+: trace →
          ∀ mn ∈ (CMasternodeMan.after net first).vMasternodes,
            ∀ other ∈ (CMasternodeMan.after net second).vMasternodes,
              mn.vin.prevout = other.vin.prevout →
                net.getScriptForDestination mn.pubKeyCollateralAddress =
                  net.getScriptForDestination other.pubKeyCollateralAddress) := by
  have exact_iff : (∀ past, past <+: trace →
        (CMasternodeMan.after net past).OwnCollaterals net txOf) ↔
      ∀ past event, past ++ [event] <+: trace →
        event.EntersInPlace net (CMasternodeMan.after net past) := by
    refine @foldl_holds_iff_of_mem _ _ (CMasternodeMan.apply net)
      (fun man => man.OutpointsDistinct ∧ man.OwnCollaterals net txOf) _ _ .empty trace
      (And.intro List.nodup_nil (List.forall_mem_nil _)) (fun _ strong => strong.2) ?_ ?_
    · exact fun man event member before => ownCollaterals_apply_iff event (reads event member) before
    · exact fun man event _ before own =>
        And.intro (outpointsDistinct_apply before.1 event) own
  refine And.intro exact_iff ?_
  intro inPlace first second firstPrefix secondPrefix mn member other otherMember sameOutpoint
  have own := exact_iff.mpr inPlace
  have mine := own first firstPrefix mn member
  have theirs := own second secondPrefix other otherMember
  rw [← sameOutpoint] at theirs
  exact script_eq_of_isOwnCollateral mine theirs

/-- The transaction of both collaterals, by its hash. -/
def openTransactions (hash : Uint256) : Option CTransaction :=
  if hash = 7 then some collateralTx else none

/-- The collateral of an owner, at its own output. -/
theorem listed_own_collateral_iff_inPlace :
    let trace : List MasternodeEvent := [.mnb (openEnv 1000) (openBroadcast 900)]
    ∀ past, past <+: trace →
      (CMasternodeMan.after openNet past).OwnCollaterals openNet openTransactions := by
  intro trace
  have reads : ∀ event ∈ trace, event.ReadsFrom openTransactions := by
    intro event member
    rw [List.mem_singleton.mp member]
    intro hash found here
    unfold openEnv at here
    unfold openTransactions
    dsimp only at here
    split_ifs at here ⊢
    cases here
    rfl
  refine (listed_own_collateral_iff openNet openTransactions trace reads).1.mpr ?_
  intro past event before
  have member : event ∈ trace :=
    before.subset (List.mem_append_right past (List.mem_singleton_self event))
  rw [List.mem_singleton.mp member]
  exact fun _ => rfl

/-- The owner of the first output registers the second one, which is not theirs. -/
theorem other_output_listed :
    let misplaced := { openBroadcast 900 with vin := { CTxIn.empty with prevout := ⟨7, 1⟩ } }
    let man := CMasternodeMan.after openNet [.mnb (openEnv 1000) misplaced]
    ¬man.OwnCollaterals openNet openTransactions := by
  decide

end ColossusCoin
