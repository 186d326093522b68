import ColossusCoin.Masternode.RejectedBroadcasts

/-!
# The list as a table of announcements

What an entry says of a masternode, apart from its last ping and its state, it has from one
broadcast.  The list of what the entries announce is a table by outpoints.  Pings leave it,
and a broadcast changes the row of its outpoint in one of four ways or not at all.
-/

namespace ColossusCoin

open KeyedList

/-- What a broadcast announces and an entry keeps of it. -/
structure Announcement where
  prevout : COutPoint
  addr : CService
  pubKeyCollateralAddress : CPubKey
  pubKeyMasternode : CPubKey
  sig : List UInt8
  sigTime : Int
  protocolVersion : Int
  deriving DecidableEq, Repr

/-- The announcement of an entry. -/
def CMasternode.announced (mn : CMasternode) : Announcement where
  prevout := mn.prevout
  addr := mn.addr
  pubKeyCollateralAddress := mn.pubKeyCollateralAddress
  pubKeyMasternode := mn.pubKeyMasternode
  sig := mn.sig
  sigTime := mn.sigTime
  protocolVersion := mn.protocolVersion

/-- The announcement of a broadcast. -/
def CMasternodeBroadcast.announced (mnb : CMasternodeBroadcast) : Announcement where
  prevout := mnb.vin.prevout
  addr := mnb.addr
  pubKeyCollateralAddress := mnb.pubKeyCollateralAddress
  pubKeyMasternode := mnb.pubKeyMasternode
  sig := mnb.sig
  sigTime := mnb.sigTime
  protocolVersion := mnb.protocolVersion

/-- The announcements of the entries. -/
def CMasternodeMan.announcements (man : CMasternodeMan) : List Announcement :=
  man.vMasternodes.map CMasternode.announced

/-- No two entries have the same outpoint. -/
def CMasternodeMan.OutpointsDistinct (man : CMasternodeMan) : Prop :=
  Distinct Announcement.prevout man.announcements

@[simp] theorem prevout_announced (mn : CMasternode) : mn.announced.prevout = mn.prevout :=
  rfl

@[simp] theorem announced_check (env : MasternodeEnv) (forceCheck : Bool)
    (mn : CMasternode) :
    (mn.check env forceCheck).announced = mn.announced := by
  unfold CMasternode.check
  split_ifs <;> rfl

theorem announced_renew
    (here : mn.prevout = mnb.vin.prevout) :
    (CMasternode.renew mnb mn).announced = mnb.announced := by
  unfold CMasternode.announced CMasternodeBroadcast.announced CMasternode.renew
  unfold CMasternode.prevout at here ⊢
  rw [here]

section Operations

variable {net : MasternodeNet} {env : MasternodeEnv} {man : CMasternodeMan}
variable {mnb : CMasternodeBroadcast}

theorem find_announcements (man : CMasternodeMan) (vin : CTxIn) :
    KeyedList.find Announcement.prevout vin.prevout man.announcements =
      (man.find vin).map CMasternode.announced :=
  find_map prevout_announced

/-- A change of an entry that leaves what it announces leaves the table. -/
theorem announcements_modify
    (keeps : ∀ mn, (change mn).announced = mn.announced) :
    (man.modify vin change).announcements = man.announcements := by
  unfold CMasternodeMan.announcements CMasternodeMan.modify
  induction man.vMasternodes with
  | nil => rfl
  | cons mn rest ih =>
    rw [KeyedList.modify]
    split_ifs
    · rw [List.map_cons, List.map_cons, keeps]
    · rw [List.map_cons, List.map_cons, ih]

theorem announcements_notePing (ping : CMasternodePing) :
    (man.notePing net ping).announcements = man.announcements := by
  unfold CMasternodeMan.notePing
  split_ifs <;> rfl

theorem announcements_noteBroadcast :
    (man.noteBroadcast net mnb).announcements = man.announcements := by
  unfold CMasternodeMan.noteBroadcast
  split_ifs <;> rfl

theorem announcements_pingCheckAndUpdate (fRequireEnabled : Bool) (ping : CMasternodePing) :
    (ping.checkAndUpdate net env fRequireEnabled man).2.announcements = man.announcements := by
  unfold CMasternodePing.checkAndUpdate
  split_ifs
  · rfl
  · cases man.find ping.vin with
    | none => rfl
    | some pmn =>
      dsimp only
      split_ifs
      · rfl
      · exact announcements_modify fun mn =>
          announced_check env true { mn with lastPing := ping }

theorem announcements_updatePing :
    (mnb.updatePing net env man).announcements = man.announcements := by
  have pinged : ∀ man' : CMasternodeMan,
      ((man'.modify mnb.vin fun mn => { mn with lastPing := mnb.lastPing }).notePing net
        mnb.lastPing).announcements = man'.announcements := by
    intro man'
    rw [announcements_notePing]
    exact announcements_modify fun mn => rfl
  unfold CMasternodeBroadcast.updatePing
  by_cases isEmpty : mnb.lastPing.isEmpty = true
  · simp only [isEmpty, if_true]
    exact pinged man
  · simp only [isEmpty, Bool.false_eq_true, if_false]
    have checked := @announcements_pingCheckAndUpdate net env man false mnb.lastPing
    split_ifs
    · exact (pinged _).trans checked
    · exact checked

theorem announcements_updateAndCheck :
    (mnb.updateAndCheck net env man).announcements =
      KeyedList.modify Announcement.prevout mnb.vin.prevout (fun _ => mnb.announced)
        man.announcements := by
  unfold CMasternodeBroadcast.updateAndCheck
  rw [announcements_modify (announced_check env false), announcements_updatePing]
  exact map_modify prevout_announced fun mn here => announced_renew here

theorem announcements_add
    (fresh : man.find mnb.vin = none) :
    (man.add (.ofBroadcast mnb)).announcements = man.announcements ++ [mnb.announced] := by
  have enabled : ¬(!CMasternode.isEnabled (.ofBroadcast mnb)) = true := Bool.false_ne_true
  have unlisted : ¬(man.find (CMasternode.ofBroadcast mnb).vin).isSome = true := by
    rw [Option.not_isSome_iff_eq_none]
    exact fresh
  unfold CMasternodeMan.add
  rw [if_neg enabled, if_neg unlisted]
  exact List.map_append

theorem announcements_remove
    (distinct : man.OutpointsDistinct)
    (found : man.find vin = some pmn) :
    (man.remove pmn.vin).announcements =
      KeyedList.erase Announcement.prevout vin.prevout man.announcements := by
  have entriesDistinct : Distinct CMasternode.prevout man.vMasternodes :=
    (distinct_map_iff prevout_announced).mp distinct
  have outpoint := key_of_find found
  have alike : ∀ mn ∈ man.vMasternodes, mn.vin = pmn.vin ↔ mn.prevout = vin.prevout := by
    intro mn member
    refine Iff.intro ?_ ?_
    · intro same
      exact (congrArg CTxIn.prevout same).trans outpoint
    · intro same
      exact congrArg CMasternode.vin (entriesDistinct.eq_of_key member (mem_of_find found)
        (same.trans outpoint.symm))
  unfold CMasternodeMan.announcements CMasternodeMan.remove
  rw [erase_eq_erase alike]
  exact map_erase prevout_announced

end Operations

namespace CMasternodeBroadcast

variable (net : MasternodeNet) (env : MasternodeEnv) (man : CMasternodeMan)
variable (mnb : CMasternodeBroadcast)

/-- The node is ready, has not seen the hash of the broadcast, and finds nothing wrong with
the broadcast alone. -/
def isHandled : Bool :=
  CMasternodeMan.isReady env &&
    (man.mapSeenMasternodeBroadcast (mnb.getHash net)).isNone &&
    mnb.passesChecks net env

/-- The broadcast goes to the checks of the inputs, unless it is turned away before. -/
def mayEnter : Bool :=
  isVinAssociatedWithPubkey net env mnb.vin mnb.pubKeyCollateralAddress && !mnb.isOurs env

/-- The checks of the inputs accept the broadcast. -/
def inputsAccepted : Bool :=
  env.lockMain && env.acceptableInputs mnb.vin &&
    masternodeMinConfirmations ≤ env.getInputAge mnb.vin &&
    (confirmationTime env mnb.vin).all fun reached =>
      reached.any fun blockTime => blockTime ≤ mnb.sigTime

/-- `CheckAndUpdate` renews an entry with the broadcast. -/
def renews (pmn : CMasternode) : Bool :=
  pmn.pubKeyCollateralAddress == mnb.pubKeyCollateralAddress &&
    !pmn.isBroadcastedWithin env masternodeMinMnbSeconds &&
    pmn.sigTime < mnb.sigTime

/-- The entry that the broadcast renewed is enabled. -/
def leavesEnabled : Bool :=
  ((mnb.updateAndCheck net env (man.noteBroadcast net mnb)).find mnb.vin).any
    CMasternode.isEnabled

/-- What a broadcast does to the entries of its outpoint. -/
inductive Outcome where
  | ignored
  | renewed
  | removed
  | entered
  deriving DecidableEq, Repr

/-- What the checks of the inputs make of a broadcast for which no entry stands in the way. -/
def entryOutcome (atRefusal : Outcome) : Outcome :=
  if mnb.inputsAccepted env then .entered else atRefusal

/-- What a broadcast does, by the entry of its outpoint. -/
def outcome : Outcome :=
  if !mnb.isHandled net env man then .ignored
  else
    match man.find mnb.vin with
    | none => if mnb.mayEnter net env then mnb.entryOutcome env .ignored else .ignored
    | some pmn =>
      if mnb.sigTime < pmn.sigTime then .ignored
      else if !pmn.isEnabled then
        if mnb.mayEnter net env then mnb.entryOutcome env .removed else .ignored
      else if !mnb.renews env pmn then .ignored
      else if mnb.mayEnter net env && !mnb.leavesEnabled net env man then
        mnb.entryOutcome env .removed
      else .renewed

/-- What an outcome makes of the table. -/
def Outcome.applyTo (announced : Announcement) (table : List Announcement) :
    Outcome → List Announcement
  | .ignored => table
  | .renewed =>
    KeyedList.modify Announcement.prevout announced.prevout (fun _ => announced) table
  | .removed => KeyedList.erase Announcement.prevout announced.prevout table
  | .entered => KeyedList.erase Announcement.prevout announced.prevout table ++ [announced]

end CMasternodeBroadcast

section Outcomes

open CMasternodeBroadcast

variable {mnb : CMasternodeBroadcast}

theorem outcome_of_unhandled
    (unhandled : mnb.isHandled net env man = false) :
    mnb.outcome net env man = .ignored := by
  unfold outcome
  rw [unhandled]
  rfl

theorem outcome_of_unlisted
    (handled : mnb.isHandled net env man = true)
    (absent : man.find mnb.vin = none) :
    mnb.outcome net env man =
      if mnb.mayEnter net env then mnb.entryOutcome env .ignored else .ignored := by
  unfold outcome
  rw [handled, absent]
  rfl

theorem outcome_of_listed
    (handled : mnb.isHandled net env man = true)
    (found : man.find mnb.vin = some pmn) :
    mnb.outcome net env man =
      if mnb.sigTime < pmn.sigTime then .ignored
      else if !pmn.isEnabled then
        if mnb.mayEnter net env then mnb.entryOutcome env .removed else .ignored
      else if !mnb.renews env pmn then .ignored
      else if mnb.mayEnter net env && !mnb.leavesEnabled net env man then
        mnb.entryOutcome env .removed
      else .renewed := by
  unfold outcome
  rw [handled, found]
  rfl

theorem entryOutcome_ne_renewed
    (other : atRefusal ≠ .renewed) :
    mnb.entryOutcome env atRefusal ≠ .renewed := by
  unfold entryOutcome
  split_ifs
  · decide
  · exact other

/-- What enters the list has passed the checks of its output. -/
theorem mayEnter_of_entered
    (entered : mnb.outcome net env man = .entered) :
    mnb.mayEnter net env = true := by
  cases handled : mnb.isHandled net env man with
  | false =>
    rw [outcome_of_unhandled handled] at entered
    cases entered
  | true =>
    cases found : man.find mnb.vin with
    | none =>
      rw [outcome_of_unlisted handled found] at entered
      split_ifs at entered with mayEnter
      exact mayEnter
    | some pmn =>
      rw [outcome_of_listed handled found] at entered
      split_ifs at entered with older disabled mayEnter unchanged gone
      · exact mayEnter
      · exact (Bool.and_eq_true_iff.mp gone).1

theorem renews_of_renewed
    (renewed : mnb.outcome net env man = .renewed) :
    ∃ pmn, man.find mnb.vin = some pmn ∧ mnb.renews env pmn = true := by
  cases handled : mnb.isHandled net env man with
  | false =>
    rw [outcome_of_unhandled handled] at renewed
    cases renewed
  | true =>
    cases found : man.find mnb.vin with
    | none =>
      rw [outcome_of_unlisted handled found] at renewed
      split_ifs at renewed
      exact absurd renewed (entryOutcome_ne_renewed (by decide))
    | some pmn =>
      refine ⟨pmn, rfl, ?_⟩
      rw [outcome_of_listed handled found] at renewed
      split_ifs at renewed with older disabled mayEnter unchanged gone
      · exact absurd renewed (entryOutcome_ne_renewed (by decide))
      · exact absurd renewed (entryOutcome_ne_renewed (by decide))
      · rwa [Bool.not_eq_true', Bool.not_eq_false] at unchanged

end Outcomes

/-! ## The table after a broadcast -/

section Table

open CMasternodeBroadcast

variable {net : MasternodeNet} {env : MasternodeEnv} {man : CMasternodeMan}
variable {mnb : CMasternodeBroadcast}

theorem checkInputs_accepts_iff :
    (mnb.checkInputs net env man).1 = some true ↔ mnb.inputsAccepted env = true := by
  unfold checkInputs inputsAccepted
  by_cases locked : env.lockMain = true
  · by_cases acceptable : env.acceptableInputs mnb.vin = true
    · by_cases young : env.getInputAge mnb.vin < masternodeMinConfirmations
      · have tooYoung := Int.not_le.mpr young
        simp [locked, acceptable, young, tooYoung]
      · have oldEnough := Int.not_lt.mp young
        simp only [locked, acceptable, young, oldEnough, Bool.not_true, Bool.false_eq_true,
          if_false, decide_true, Bool.true_and]
        cases confirmationTime env mnb.vin with
        | none => simp
        | some reached =>
          cases reached with
          | none => simp
          | some blockTime =>
            by_cases early : mnb.sigTime < blockTime
            · simp [early]
            · have onTime := Int.not_lt.mp early
              simp [early, onTime]
    · simp [locked, acceptable]
  · simp [locked]

theorem erase_announcements_of_fresh
    (fresh : man.find mnb.vin = none) :
    KeyedList.erase Announcement.prevout mnb.vin.prevout man.announcements = man.announcements := by
  have absent := find_announcements man mnb.vin
  rw [fresh, Option.map_none, find_eq_none_iff] at absent
  exact erase_of_notMem absent

theorem announcements_addNew
    (fresh : man.find mnb.vin = none) :
    (mnb.addNew net env man).2.announcements =
      (mnb.entryOutcome env .ignored).applyTo mnb.announced man.announcements := by
  have accepts := @checkInputs_accepts_iff net env man mnb
  have entries := @vMasternodes_checkInputs net env mnb man
  unfold addNew entryOutcome
  generalize mnb.checkInputs net env man = checked at accepts entries ⊢
  obtain ⟨verdict, after⟩ := checked
  dsimp only at accepts entries ⊢
  have same : after.announcements = man.announcements :=
    congrArg (List.map CMasternode.announced) entries
  by_cases accepted : mnb.inputsAccepted env = true
  · have afterFresh : after.find mnb.vin = none := by
      unfold CMasternodeMan.find
      rw [entries]
      exact fresh
    rw [accepts.mpr accepted, if_pos accepted]
    rw [announcements_add afterFresh, same]
    exact congrArg (· ++ [mnb.announced]) (erase_announcements_of_fresh fresh).symm
  · rw [if_neg accepted]
    rcases verdict with _ | _ | _
    · exact same
    · exact same
    · exact absurd (accepts.mp rfl) accepted

theorem announcements_checkInputsAndAdd
    (distinct : man.OutpointsDistinct) :
    (mnb.checkInputsAndAdd net env man).2.announcements =
      Outcome.applyTo mnb.announced man.announcements
        (if mnb.isOurs env then .ignored
        else
          match man.find mnb.vin with
          | none => mnb.entryOutcome env .ignored
          | some pmn => if pmn.isEnabled then .ignored else mnb.entryOutcome env .removed) := by
  unfold checkInputsAndAdd
  split_ifs with ours
  · rfl
  · cases found : man.find mnb.vin with
    | none => exact announcements_addNew found
    | some pmn =>
      dsimp only
      split_ifs with enabled
      · rfl
      · have removed := announcements_remove distinct found
        have fresh : (man.remove pmn.vin).find mnb.vin = none := by
          have absent := find_announcements (man.remove pmn.vin) mnb.vin
          rw [removed, find_erase_self distinct] at absent
          exact Option.map_eq_none_iff.mp absent.symm
        rw [announcements_addNew fresh, removed]
        unfold entryOutcome
        split_ifs
        · refine congrArg (· ++ [mnb.announced]) ?_
          exact erase_of_notMem (find_eq_none_iff.mp (find_erase_self distinct))
        · rfl

theorem outpointsDistinct_applyTo
    {announced : Announcement}
    (distinct : Distinct Announcement.prevout table)
    (outcome : Outcome) :
    Distinct Announcement.prevout (outcome.applyTo announced table) := by
  cases outcome with
  | ignored => exact distinct
  | renewed => exact distinct.modify fun _ _ => rfl
  | removed => exact distinct.erase
  | entered => exact distinct.erase.snoc (find_erase_self distinct)

theorem handleBroadcast_of_refused
    {checked : CMasternodeMan}
    (refused : mnb.checkAndUpdate net env man = (false, checked)) :
    (man.handleBroadcast net env mnb).2 = checked := by
  unfold CMasternodeMan.handleBroadcast
  rw [refused]

theorem announcements_of_checked
    (passed : mnb.checkAndUpdate net env man = (true, checked))
    (distinct : checked.OutpointsDistinct) :
    (man.handleBroadcast net env mnb).2.announcements =
      Outcome.applyTo mnb.announced checked.announcements
        (if mnb.mayEnter net env then
          match checked.find mnb.vin with
          | none => mnb.entryOutcome env .ignored
          | some pmn => if pmn.isEnabled then .ignored else mnb.entryOutcome env .removed
        else .ignored) := by
  unfold CMasternodeMan.handleBroadcast mayEnter
  rw [passed]
  by_cases associated : isVinAssociatedWithPubkey net env mnb.vin mnb.pubKeyCollateralAddress = true
  · simp only [associated, Bool.not_true, Bool.false_eq_true, if_false, Bool.true_and]
    rw [announcements_checkInputsAndAdd distinct]
    cases mnb.isOurs env <;> rfl
  · simp only [associated, Bool.not_false, if_true, Bool.false_and, Bool.false_eq_true, if_false]
    rfl

/-- An entry that was renewed is removed or replaced as the one before it would be. -/
theorem applyTo_entryOutcome_modify
    (announced : Announcement) (table : List Announcement) :
    Outcome.applyTo announced
        (KeyedList.modify Announcement.prevout announced.prevout (fun _ => announced) table)
        (mnb.entryOutcome env .removed) =
      Outcome.applyTo announced table (mnb.entryOutcome env .removed) := by
  have erased := @erase_modify Announcement COutPoint _ Announcement.prevout
    announced.prevout table (fun _ => announced) fun _ _ => rfl
  unfold entryOutcome
  split_ifs
  · exact congrArg (· ++ [announced]) erased
  · exact erased

/-- A renewed entry stays as it is or gives way, by its state. -/
theorem announcements_handleBroadcast_of_renews
    (distinct : man.OutpointsDistinct)
    (found : man.find mnb.vin = some pmn)
    (passed : mnb.checkAndUpdate net env man = (true, mnb.updateAndCheck net env man)) :
    (man.handleBroadcast net env mnb).2.announcements =
      Outcome.applyTo mnb.announced man.announcements
        (if mnb.mayEnter net env &&
            !((mnb.updateAndCheck net env man).find mnb.vin).any CMasternode.isEnabled then
          mnb.entryOutcome env .removed
        else .renewed) := by
  have table := @announcements_updateAndCheck net env man mnb
  have renewedDistinct : (mnb.updateAndCheck net env man).OutpointsDistinct := by
    unfold CMasternodeMan.OutpointsDistinct
    rw [table]
    exact distinct.modify fun _ _ => rfl
  rw [announcements_of_checked passed renewedDistinct, table]
  have listed : ((mnb.updateAndCheck net env man).find mnb.vin).isSome = true := by
    have rows := find_announcements (mnb.updateAndCheck net env man) mnb.vin
    rw [table] at rows
    have changed := @find_modify_self Announcement COutPoint _ Announcement.prevout
      mnb.vin.prevout man.announcements (fun _ => mnb.announced) fun _ _ => rfl
    rw [changed, find_announcements, found] at rows
    rw [← Option.isSome_map, ← rows]
    rfl
  obtain ⟨renewed, here⟩ := Option.isSome_iff_exists.mp listed
  rw [here, Option.any_some]
  cases mnb.mayEnter net env with
  | false => rfl
  | true =>
    simp only [if_true, Bool.true_and]
    cases renewed.isEnabled with
    | true => rfl
    | false => exact applyTo_entryOutcome_modify mnb.announced man.announcements

/-- The table after a broadcast that nothing is found wrong with. -/
theorem announcements_handleBroadcast
    (distinct : man.OutpointsDistinct)
    (fine : mnb.passesChecks net env = true) :
    (man.handleBroadcast net env mnb).2.announcements =
      Outcome.applyTo mnb.announced man.announcements
        (match man.find mnb.vin with
        | none => if mnb.mayEnter net env then mnb.entryOutcome env .ignored else .ignored
        | some pmn =>
          if mnb.sigTime < pmn.sigTime then .ignored
          else if !pmn.isEnabled then
            if mnb.mayEnter net env then mnb.entryOutcome env .removed else .ignored
          else if !mnb.renews env pmn then .ignored
          else if mnb.mayEnter net env &&
              !((mnb.updateAndCheck net env man).find mnb.vin).any CMasternode.isEnabled then
            mnb.entryOutcome env .removed
          else .renewed) := by
  have checks : mnb.checkAndUpdate net env man =
      match man.find mnb.vin with
      | none => (true, man)
      | some pmn =>
        if mnb.sigTime < pmn.sigTime then (false, man)
        else if !pmn.isEnabled then (true, man)
        else if mnb.renews env pmn then (true, mnb.updateAndCheck net env man)
        else (true, man) := by
    unfold checkAndUpdate
    rw [fine]
    rfl
  cases found : man.find mnb.vin with
  | none =>
    rw [found] at checks
    rw [announcements_of_checked checks distinct, found]
  | some pmn =>
    rw [found] at checks
    dsimp only at checks ⊢
    by_cases older : mnb.sigTime < pmn.sigTime
    · rw [if_pos older] at checks ⊢
      rw [handleBroadcast_of_refused checks]
      rfl
    · rw [if_neg older] at checks ⊢
      cases enabled : pmn.isEnabled with
      | false =>
        rw [enabled] at checks
        rw [announcements_of_checked checks distinct, found]
        dsimp only
        rw [enabled]
        rfl
      | true =>
        rw [enabled] at checks
        cases renewing : mnb.renews env pmn with
        | false =>
          rw [renewing] at checks
          rw [announcements_of_checked checks distinct, found]
          dsimp only
          rw [enabled]
          cases mnb.mayEnter net env <;> rfl
        | true =>
          rw [renewing] at checks
          exact announcements_handleBroadcast_of_renews distinct found checks

/-- The table after a broadcast is what its outcome makes of the table before. -/
theorem announcements_processBroadcast
    (distinct : man.OutpointsDistinct) :
    (man.processBroadcast net env mnb).2.announcements =
      (mnb.outcome net env man).applyTo mnb.announced man.announcements := by
  have noted := @announcements_noteBroadcast net man mnb
  have notedDistinct : (man.noteBroadcast net mnb).OutpointsDistinct := by
    unfold CMasternodeMan.OutpointsDistinct
    rw [noted]
    exact distinct
  have notedFind : (man.noteBroadcast net mnb).find mnb.vin = man.find mnb.vin :=
    find_congr (vMasternodes_noteBroadcast man mnb) mnb.vin
  unfold CMasternodeMan.processBroadcast outcome isHandled leavesEnabled
  cases CMasternodeMan.isReady env with
  | false => rfl
  | true =>
    rcases Option.eq_none_or_eq_some (man.mapSeenMasternodeBroadcast (mnb.getHash net))
      with unseen | ⟨seen, here⟩
    · rw [unseen]
      cases fine : mnb.passesChecks net env with
      | false =>
        have refused : mnb.checkAndUpdate net env (man.noteBroadcast net mnb) =
            (false, man.noteBroadcast net mnb) := by
          unfold checkAndUpdate
          rw [fine]
          rfl
        have left := @handleBroadcast_of_refused net env _ mnb _ refused
        exact (congrArg CMasternodeMan.announcements left).trans noted
      | true =>
        have table := @announcements_handleBroadcast net env _ mnb notedDistinct fine
        rw [noted, notedFind] at table
        exact table
    · rw [here]
      rfl

/-- The table after a ping is the table before. -/
theorem announcements_processPing (ping : CMasternodePing) :
    (man.processPing net env ping).2.announcements = man.announcements := by
  unfold CMasternodeMan.processPing
  split_ifs
  · rfl
  · rfl
  · rw [announcements_pingCheckAndUpdate, announcements_notePing]

/-- A cleanup removes rows and changes none. -/
theorem announcements_checkAndRemove_sublist (forceExpiredRemoval : Bool) :
    (man.checkAndRemove env forceExpiredRemoval).announcements.Sublist man.announcements := by
  unfold CMasternodeMan.checkAndRemove CMasternodeMan.announcements
  split_ifs
  · have same : man.vMasternodes.map CMasternode.announced =
        (man.vMasternodes.map (CMasternode.check env false)).map CMasternode.announced := by
      rw [List.map_map]
      exact List.map_congr_left fun mn _ => (announced_check env false mn).symm
    rw [same]
    exact List.Sublist.map _ List.filter_sublist
  · exact List.Sublist.map _ List.filter_sublist

theorem outpointsDistinct_apply
    (distinct : man.OutpointsDistinct)
    (event : MasternodeEvent) :
    (man.apply net event).OutpointsDistinct := by
  unfold CMasternodeMan.OutpointsDistinct
  cases event with
  | mnb env mnb =>
    unfold CMasternodeMan.apply
    rw [announcements_processBroadcast distinct]
    exact outpointsDistinct_applyTo distinct _
  | mnp env ping =>
    unfold CMasternodeMan.apply
    rw [announcements_processPing]
    exact distinct
  | cleanup env forceExpiredRemoval =>
    exact List.Sublist.nodup
      (List.Sublist.map _ (announcements_checkAndRemove_sublist forceExpiredRemoval))
      distinct

end Table

theorem outpointsDistinct_after (net : MasternodeNet) (trace : List MasternodeEvent) :
    (CMasternodeMan.after net trace).OutpointsDistinct :=
  CMasternodeMan.after_invariant CMasternodeMan.OutpointsDistinct List.nodup_nil
    fun event _ _ distinct => outpointsDistinct_apply distinct event

end ColossusCoin
