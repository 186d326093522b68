import ColossusCoin.Masternode.RejectedBroadcasts

/-!
# Messages that are taken for duplicates

`ProcessMessage` notes a broadcast or a ping under its hash before it makes any check, and
drops what comes under a hash noted before.  The hashes leave out most of the messages and
their signatures.  What a message does to the entries depends on the entries alone, so that
a message which would be accepted in the list is accepted exactly when its hash is not noted.
-/

namespace ColossusCoin

/-- The verdict and the entries of an outcome. -/
def entriesOf {Verdict : Type} (outcome : Verdict × CMasternodeMan) :
    Verdict × List CMasternode :=
  (outcome.1, outcome.2.vMasternodes)

/-- The list with no message noted. -/
def CMasternodeMan.unseen (man : CMasternodeMan) : CMasternodeMan :=
  { man with
    mapSeenMasternodeBroadcast := fun _ => none
    mapSeenMasternodePing := fun _ => none }

section Entries

variable {net : MasternodeNet} {env : MasternodeEnv} {first second : CMasternodeMan}

theorem entries_modify
    (same : first.vMasternodes = second.vMasternodes)
    (vin : CTxIn) (change : CMasternode → CMasternode) :
    (first.modify vin change).vMasternodes = (second.modify vin change).vMasternodes := by
  unfold CMasternodeMan.modify
  rw [same]

theorem entriesOf_pingCheckAndUpdate
    (same : first.vMasternodes = second.vMasternodes)
    (fRequireEnabled : Bool) (ping : CMasternodePing) :
    entriesOf (ping.checkAndUpdate net env fRequireEnabled first) =
      entriesOf (ping.checkAndUpdate net env fRequireEnabled second) := by
  unfold CMasternodePing.checkAndUpdate
  rw [find_congr same]
  split_ifs
  · exact Prod.ext rfl same
  · cases second.find ping.vin with
    | none => exact Prod.ext rfl same
    | some pmn =>
      dsimp only
      split_ifs
      · exact Prod.ext rfl same
      · refine Prod.ext rfl ?_
        exact entries_modify same _ _

theorem entries_updatePing
    (same : first.vMasternodes = second.vMasternodes)
    (mnb : CMasternodeBroadcast) :
    (mnb.updatePing net env first).vMasternodes = (mnb.updatePing net env second).vMasternodes := by
  have checked := @entriesOf_pingCheckAndUpdate net env first second same false mnb.lastPing
  unfold CMasternodeBroadcast.updatePing
  by_cases isEmpty : mnb.lastPing.isEmpty = true
  · simp only [isEmpty, if_true]
    rw [vMasternodes_notePing, vMasternodes_notePing]
    exact entries_modify same _ _
  · simp only [isEmpty, Bool.false_eq_true, if_false]
    generalize mnb.lastPing.checkAndUpdate net env false first = one at checked
    generalize mnb.lastPing.checkAndUpdate net env false second = two at checked
    obtain ⟨verdict, entries⟩ := Prod.mk.inj checked
    rw [verdict]
    split_ifs
    · rw [vMasternodes_notePing, vMasternodes_notePing]
      exact entries_modify entries _ _
    · exact entries

theorem entries_updateAndCheck
    (same : first.vMasternodes = second.vMasternodes)
    (mnb : CMasternodeBroadcast) :
    (mnb.updateAndCheck net env first).vMasternodes =
      (mnb.updateAndCheck net env second).vMasternodes :=
  entries_modify (entries_updatePing (entries_modify same _ _) mnb) _ _

theorem entriesOf_checkAndUpdate
    (same : first.vMasternodes = second.vMasternodes)
    (mnb : CMasternodeBroadcast) :
    entriesOf (mnb.checkAndUpdate net env first) =
      entriesOf (mnb.checkAndUpdate net env second) := by
  unfold CMasternodeBroadcast.checkAndUpdate
  rw [find_congr same]
  split_ifs
  · exact Prod.ext rfl same
  · cases second.find mnb.vin with
    | none => exact Prod.ext rfl same
    | some pmn =>
      dsimp only
      split_ifs
      · exact Prod.ext rfl same
      · exact Prod.ext rfl same
      · exact Prod.ext rfl (entries_updateAndCheck same mnb)
      · exact Prod.ext rfl same

theorem verdict_checkInputs (mnb : CMasternodeBroadcast) :
    (mnb.checkInputs net env first).1 = (mnb.checkInputs net env second).1 := by
  unfold CMasternodeBroadcast.checkInputs
  split_ifs
  · rfl
  · rfl
  · rfl
  · cases confirmationTime env mnb.vin with
    | none => rfl
    | some reached =>
      cases reached with
      | none => rfl
      | some blockTime =>
        dsimp only
        split_ifs <;> rfl

theorem entries_add
    (same : first.vMasternodes = second.vMasternodes)
    (mn : CMasternode) :
    (first.add mn).vMasternodes = (second.add mn).vMasternodes := by
  unfold CMasternodeMan.add
  rw [find_congr same, same]
  split_ifs
  · exact same
  · exact same
  · rfl

theorem entriesOf_addNew
    (same : first.vMasternodes = second.vMasternodes)
    (mnb : CMasternodeBroadcast) :
    entriesOf (mnb.addNew net env first) = entriesOf (mnb.addNew net env second) := by
  have verdict := @verdict_checkInputs net env first second mnb
  have entries := (@CMasternodeBroadcast.vMasternodes_checkInputs net env mnb first).trans
    (same.trans (@CMasternodeBroadcast.vMasternodes_checkInputs net env mnb second).symm)
  unfold CMasternodeBroadcast.addNew
  generalize mnb.checkInputs net env first = one at verdict entries ⊢
  generalize mnb.checkInputs net env second = two at verdict entries ⊢
  obtain ⟨oneVerdict, oneMan⟩ := one
  obtain ⟨twoVerdict, twoMan⟩ := two
  cases verdict
  rcases oneVerdict with _ | _ | _
  · exact Prod.ext rfl entries
  · exact Prod.ext rfl entries
  · exact Prod.ext rfl (entries_add entries _)

theorem entriesOf_checkInputsAndAdd
    (same : first.vMasternodes = second.vMasternodes)
    (mnb : CMasternodeBroadcast) :
    entriesOf (mnb.checkInputsAndAdd net env first) =
      entriesOf (mnb.checkInputsAndAdd net env second) := by
  unfold CMasternodeBroadcast.checkInputsAndAdd
  rw [find_congr same]
  split_ifs
  · exact Prod.ext rfl same
  · cases second.find mnb.vin with
    | none => exact entriesOf_addNew same mnb
    | some pmn =>
      dsimp only
      split_ifs
      · exact Prod.ext rfl same
      · refine entriesOf_addNew ?_ mnb
        unfold CMasternodeMan.remove
        rw [same]

theorem entriesOf_handleBroadcast
    (same : first.vMasternodes = second.vMasternodes)
    (mnb : CMasternodeBroadcast) :
    entriesOf (first.handleBroadcast net env mnb) =
      entriesOf (second.handleBroadcast net env mnb) := by
  have checked := @entriesOf_checkAndUpdate net env first second same mnb
  unfold CMasternodeMan.handleBroadcast
  generalize mnb.checkAndUpdate net env first = one at checked ⊢
  generalize mnb.checkAndUpdate net env second = two at checked ⊢
  obtain ⟨oneVerdict, oneMan⟩ := one
  obtain ⟨twoVerdict, twoMan⟩ := two
  obtain ⟨verdict, entries⟩ := Prod.mk.inj checked
  cases verdict
  cases oneVerdict with
  | false => exact Prod.ext rfl entries
  | true =>
    split_ifs
    · exact Prod.ext rfl entries
    · have added := @entriesOf_checkInputsAndAdd net env oneMan twoMan entries mnb
      rw [Prod.mk.injEq] at added
      exact Prod.ext (congrArg (· == some true) added.1) added.2

end Entries

/-- A broadcast that would be accepted in the list is accepted exactly when its hash is not
noted. -/
theorem processBroadcast_accepts_iff
    {man : CMasternodeMan}
    (wouldBe : (man.unseen.processBroadcast net env mnb).1 = true) :
    (man.processBroadcast net env mnb).1 = true ↔
      man.mapSeenMasternodeBroadcast (mnb.getHash net) = none := by
  unfold CMasternodeMan.processBroadcast at wouldBe ⊢
  have ready : ¬(!CMasternodeMan.isReady env) = true := by
    intro notReady
    rw [if_pos notReady] at wouldBe
    exact Bool.false_ne_true wouldBe
  have fresh : ¬(man.unseen.mapSeenMasternodeBroadcast (mnb.getHash net)).isSome = true :=
    Bool.false_ne_true
  rw [if_neg ready, if_neg fresh] at wouldBe
  rw [if_neg ready]
  by_cases noted : (man.mapSeenMasternodeBroadcast (mnb.getHash net)).isSome = true
  · rw [if_pos noted]
    exact iff_of_false Bool.false_ne_true (Option.ne_none_iff_isSome.mpr noted)
  · rw [if_neg noted]
    have alike := @entriesOf_handleBroadcast net env (man.noteBroadcast net mnb)
      (man.unseen.noteBroadcast net mnb)
      (by rw [vMasternodes_noteBroadcast, vMasternodes_noteBroadcast]; rfl) mnb
    exact iff_of_true ((Prod.mk.inj alike).1.trans wouldBe) (Option.not_isSome_iff_eq_none.mp noted)

theorem processPing_accepts_iff
    {man : CMasternodeMan}
    (wouldBe : (man.unseen.processPing net env ping).1 = true) :
    (man.processPing net env ping).1 = true ↔
      man.mapSeenMasternodePing (ping.getHash net) = none := by
  unfold CMasternodeMan.processPing at wouldBe ⊢
  have ready : ¬(!CMasternodeMan.isReady env) = true := by
    intro notReady
    rw [if_pos notReady] at wouldBe
    exact Bool.false_ne_true wouldBe
  have fresh : ¬(man.unseen.mapSeenMasternodePing (ping.getHash net)).isSome = true :=
    Bool.false_ne_true
  rw [if_neg ready, if_neg fresh] at wouldBe
  rw [if_neg ready]
  by_cases noted : (man.mapSeenMasternodePing (ping.getHash net)).isSome = true
  · rw [if_pos noted]
    exact iff_of_false Bool.false_ne_true (Option.ne_none_iff_isSome.mpr noted)
  · rw [if_neg noted]
    have alike := @entriesOf_pingCheckAndUpdate net env (man.notePing net ping)
      (man.unseen.notePing net ping)
      (by rw [vMasternodes_notePing, vMasternodes_notePing]; rfl) true ping
    exact iff_of_true ((Prod.mk.inj alike).1.trans wouldBe) (Option.not_isSome_iff_eq_none.mp noted)

/-! ## Which hashes are noted -/

/-- What holds of the list whatever its entries are, and is kept where a broadcast is
forgotten or gets another ping, and where a ping is noted that is allowed. -/
structure KeptInMaps (net : MasternodeNet) (allowed : CMasternodePing → Prop)
    (kept : CMasternodeMan → Prop) : Prop where
  entries : ∀ {man}, kept man → ∀ entries, kept { man with vMasternodes := entries }
  forgetBroadcast : ∀ {man}, kept man → ∀ mnb, kept (man.forgetBroadcast net mnb)
  updateSeenPing : ∀ {man}, kept man → ∀ mnb ping, kept (man.updateSeenPing net mnb ping)
  notePing : ∀ {man}, kept man → ∀ ping, allowed ping → kept (man.notePing net ping)

namespace KeptInMaps

variable {net : MasternodeNet} {env : MasternodeEnv} {allowed : CMasternodePing → Prop}
variable {kept : CMasternodeMan → Prop} {man : CMasternodeMan} {mnb : CMasternodeBroadcast}

theorem pingCheckAndUpdate
    (keeps : KeptInMaps net allowed kept)
    (before : kept man)
    (fRequireEnabled : Bool) (ping : CMasternodePing) :
    kept (ping.checkAndUpdate net env fRequireEnabled man).2 := by
  unfold CMasternodePing.checkAndUpdate
  split_ifs
  · exact before
  · cases man.find ping.vin with
    | none => exact before
    | some pmn =>
      dsimp only
      split_ifs
      · exact before
      · exact keeps.entries (keeps.updateSeenPing before _ _) _

theorem updatePing
    (keeps : KeptInMaps net allowed kept)
    (lastPing : allowed mnb.lastPing)
    (before : kept man) :
    kept (mnb.updatePing net env man) := by
  unfold CMasternodeBroadcast.updatePing
  by_cases isEmpty : mnb.lastPing.isEmpty = true
  · simp only [isEmpty, if_true]
    exact keeps.notePing (keeps.entries before _) _ lastPing
  · simp only [isEmpty, Bool.false_eq_true, if_false]
    have checked := @pingCheckAndUpdate net env _ _ _ keeps before false mnb.lastPing
    split_ifs
    · exact keeps.notePing (keeps.entries checked _) _ lastPing
    · exact checked

theorem checkAndUpdate
    (keeps : KeptInMaps net allowed kept)
    (lastPing : allowed mnb.lastPing)
    (before : kept man) :
    kept (mnb.checkAndUpdate net env man).2 := by
  unfold CMasternodeBroadcast.checkAndUpdate
  split_ifs
  · exact before
  · cases man.find mnb.vin with
    | none => exact before
    | some pmn =>
      dsimp only
      split_ifs
      · exact before
      · exact before
      · exact keeps.entries (keeps.updatePing lastPing (keeps.entries before _)) _
      · exact before

theorem checkInputs
    (keeps : KeptInMaps net allowed kept)
    (before : kept man) :
    kept (mnb.checkInputs net env man).2 := by
  unfold CMasternodeBroadcast.checkInputs
  split_ifs
  · exact keeps.forgetBroadcast before mnb
  · exact before
  · exact keeps.forgetBroadcast before mnb
  · cases confirmationTime env mnb.vin with
    | none => exact before
    | some reached =>
      cases reached with
      | none => exact before
      | some blockTime =>
        dsimp only
        split_ifs <;> exact before

theorem add
    (keeps : KeptInMaps net allowed kept)
    (before : kept man)
    (mn : CMasternode) :
    kept (man.add mn) := by
  unfold CMasternodeMan.add
  split_ifs
  · exact before
  · exact before
  · exact keeps.entries before _

theorem addNew
    (keeps : KeptInMaps net allowed kept)
    (before : kept man) :
    kept (mnb.addNew net env man).2 := by
  have checked := @checkInputs net env _ _ _ mnb keeps before
  unfold CMasternodeBroadcast.addNew
  generalize mnb.checkInputs net env man = outcome at checked ⊢
  obtain ⟨_ | _ | _, after⟩ := outcome
  · exact checked
  · exact checked
  · exact @add net allowed kept after keeps checked (.ofBroadcast mnb)

theorem checkInputsAndAdd
    (keeps : KeptInMaps net allowed kept)
    (before : kept man) :
    kept (mnb.checkInputsAndAdd net env man).2 := by
  unfold CMasternodeBroadcast.checkInputsAndAdd
  split_ifs
  · exact before
  · cases man.find mnb.vin with
    | none => exact keeps.addNew before
    | some pmn =>
      dsimp only
      split_ifs
      · exact before
      · exact keeps.addNew (keeps.entries before _)

theorem handleBroadcast
    (keeps : KeptInMaps net allowed kept)
    (lastPing : allowed mnb.lastPing)
    (before : kept man) :
    kept (man.handleBroadcast net env mnb).2 := by
  have checked := @checkAndUpdate net env _ _ _ mnb keeps lastPing before
  unfold CMasternodeMan.handleBroadcast
  generalize mnb.checkAndUpdate net env man = outcome at checked ⊢
  obtain ⟨_ | _, after⟩ := outcome
  · exact checked
  · dsimp only at checked ⊢
    split_ifs
    · exact checked
    · exact keeps.checkInputsAndAdd checked

end KeptInMaps

/-- An event notes broadcasts under a hash. -/
def MasternodeEvent.notesBroadcast (net : MasternodeNet) (hash : Uint256) :
    MasternodeEvent → Prop
  | .mnb _ announced => announced.getHash net = hash
  | .mnp _ _ => False
  | .cleanup _ _ => False

/-- An event notes pings under a hash: those sent on their own and those that come with a
broadcast. -/
def MasternodeEvent.notesPing (net : MasternodeNet) (hash : Uint256) :
    MasternodeEvent → Prop
  | .mnb _ announced => announced.lastPing.getHash net = hash
  | .mnp _ ping => ping.getHash net = hash
  | .cleanup _ _ => False

section Noted

variable {man : CMasternodeMan} {hash : Uint256}

theorem noteBroadcast_elsewhere
    (apart : mnb.getHash net ≠ hash)
    (unnoted : man.mapSeenMasternodeBroadcast hash = none) :
    (man.noteBroadcast net mnb).mapSeenMasternodeBroadcast hash = none := by
  unfold CMasternodeMan.noteBroadcast
  split_ifs
  · exact unnoted
  · exact (Function.update_of_ne (Ne.symm apart) _ _).trans unnoted

theorem notePing_elsewhere
    (apart : ping.getHash net ≠ hash)
    (unnoted : man.mapSeenMasternodePing hash = none) :
    (man.notePing net ping).mapSeenMasternodePing hash = none := by
  unfold CMasternodeMan.notePing
  split_ifs
  · exact unnoted
  · exact (Function.update_of_ne (Ne.symm apart) _ _).trans unnoted

theorem mapSeenBroadcast_notePing (ping : CMasternodePing) :
    (man.notePing net ping).mapSeenMasternodeBroadcast = man.mapSeenMasternodeBroadcast := by
  unfold CMasternodeMan.notePing
  split_ifs <;> rfl

theorem mapSeenPing_noteBroadcast (mnb : CMasternodeBroadcast) :
    (man.noteBroadcast net mnb).mapSeenMasternodePing = man.mapSeenMasternodePing := by
  unfold CMasternodeMan.noteBroadcast
  split_ifs <;> rfl

/-- No handler notes a broadcast: this is done when it comes in. -/
theorem keptInMaps_broadcastUnnoted (net : MasternodeNet) (hash : Uint256) :
    KeptInMaps net (fun _ => True) fun man => man.mapSeenMasternodeBroadcast hash = none where
  entries unnoted _ := unnoted
  forgetBroadcast {man} unnoted mnb := by
    by_cases here : hash = mnb.getHash net
    · subst here
      exact Function.update_self _ _ _
    · exact (Function.update_of_ne here _ _).trans unnoted
  updateSeenPing {man} unnoted mnb ping := by
    by_cases here : hash = mnb.getHash net
    · subst here
      exact (Function.update_self _ _ _).trans (congrArg (Option.map _) unnoted)
    · exact (Function.update_of_ne here _ _).trans unnoted
  notePing unnoted ping _ := (congrFun (mapSeenBroadcast_notePing ping) hash).trans unnoted

theorem keptInMaps_pingUnnoted (net : MasternodeNet) (hash : Uint256) :
    KeptInMaps net (fun ping => ping.getHash net ≠ hash)
      fun man => man.mapSeenMasternodePing hash = none where
  entries unnoted _ := unnoted
  forgetBroadcast unnoted _ := unnoted
  updateSeenPing unnoted _ _ := unnoted
  notePing unnoted _ apart := notePing_elsewhere apart unnoted

theorem apply_broadcastUnnoted
    (apart : ¬event.notesBroadcast net hash)
    (unnoted : man.mapSeenMasternodeBroadcast hash = none) :
    (man.apply net event).mapSeenMasternodeBroadcast hash = none := by
  have keeps := keptInMaps_broadcastUnnoted net hash
  cases event with
  | mnb env mnb =>
    unfold CMasternodeMan.apply CMasternodeMan.processBroadcast
    dsimp only
    split_ifs
    · exact unnoted
    · exact unnoted
    · exact keeps.handleBroadcast trivial (noteBroadcast_elsewhere apart unnoted)
  | mnp env ping =>
    unfold CMasternodeMan.apply CMasternodeMan.processPing
    dsimp only
    split_ifs
    · exact unnoted
    · exact unnoted
    · exact keeps.pingCheckAndUpdate (keeps.notePing unnoted ping trivial) true ping
  | cleanup env forceExpiredRemoval =>
    exact congrArg (Option.filter _) unnoted

theorem apply_pingUnnoted
    (apart : ¬event.notesPing net hash)
    (unnoted : man.mapSeenMasternodePing hash = none) :
    (man.apply net event).mapSeenMasternodePing hash = none := by
  have keeps := keptInMaps_pingUnnoted net hash
  cases event with
  | mnb env mnb =>
    unfold CMasternodeMan.apply CMasternodeMan.processBroadcast
    dsimp only
    split_ifs
    · exact unnoted
    · exact unnoted
    · exact keeps.handleBroadcast apart
        ((congrFun (mapSeenPing_noteBroadcast mnb) hash).trans unnoted)
  | mnp env ping =>
    unfold CMasternodeMan.apply CMasternodeMan.processPing
    dsimp only
    split_ifs
    · exact unnoted
    · exact unnoted
    · exact keeps.pingCheckAndUpdate (keeps.notePing unnoted ping apart) true ping
  | cleanup env forceExpiredRemoval =>
    exact congrArg (Option.filter _) unnoted

end Noted

section Runs

variable {hash : Uint256}

theorem after_broadcastUnnoted
    (apart : ∀ event ∈ trace, ¬event.notesBroadcast net hash) :
    (CMasternodeMan.after net trace).mapSeenMasternodeBroadcast hash = none := by
  refine CMasternodeMan.after_invariant
    (fun man => man.mapSeenMasternodeBroadcast hash = none) rfl ?_
  intro event member man unnoted
  exact apply_broadcastUnnoted (apart event member) unnoted

theorem after_pingUnnoted
    (apart : ∀ event ∈ trace, ¬event.notesPing net hash) :
    (CMasternodeMan.after net trace).mapSeenMasternodePing hash = none := by
  refine CMasternodeMan.after_invariant (fun man => man.mapSeenMasternodePing hash = none) rfl ?_
  intro event member man unnoted
  exact apply_pingUnnoted (apart event member) unnoted

end Runs

/-- After any sequence of messages and cleanups, a broadcast or a ping that the list would
accept is accepted exactly when no message is noted under its hash, as it is when none of
the messages before had that hash. -/
theorem acceptable_accepted_iff
    (net : MasternodeNet) (trace : List MasternodeEvent) (env : MasternodeEnv) :
    (∀ mnb : CMasternodeBroadcast,
      ((CMasternodeMan.after net trace).unseen.processBroadcast net env mnb).1 = true →
        (((CMasternodeMan.after net trace).processBroadcast net env mnb).1 = true ↔
            (CMasternodeMan.after net trace).mapSeenMasternodeBroadcast (mnb.getHash net) =
              none) ∧
          ((∀ event ∈ trace, ¬event.notesBroadcast net (mnb.getHash net)) →
            ((CMasternodeMan.after net trace).processBroadcast net env mnb).1 = true)) ∧
      ∀ ping : CMasternodePing,
        ((CMasternodeMan.after net trace).unseen.processPing net env ping).1 = true →
          (((CMasternodeMan.after net trace).processPing net env ping).1 = true ↔
              (CMasternodeMan.after net trace).mapSeenMasternodePing (ping.getHash net) =
                none) ∧
            ((∀ event ∈ trace, ¬event.notesPing net (ping.getHash net)) →
              ((CMasternodeMan.after net trace).processPing net env ping).1 = true) := by
  refine And.intro ?_ ?_
  · intro mnb wouldBe
    have accepts := processBroadcast_accepts_iff wouldBe
    exact And.intro accepts fun apart => accepts.mpr (after_broadcastUnnoted apart)
  · intro ping wouldBe
    have accepts := processPing_accepts_iff wouldBe
    exact And.intro accepts fun apart => accepts.mpr (after_pingUnnoted apart)

/-- An empty list accepts the broadcast of the owner. -/
theorem acceptable_accepted_iff_first :
    ((CMasternodeMan.after openNet []).processBroadcast openNet (openEnv 1000)
      (openBroadcast 900)).1 = true :=
  (((acceptable_accepted_iff openNet [] (openEnv 1000)).1 (openBroadcast 900)
    (by decide)).2 (List.forall_mem_nil _))

/-- A broadcast without a signature has the hash of the one that the owner signed, which is
then dropped although the list would accept it. -/
theorem forged_broadcast_suppresses :
    let forged := { openBroadcast 900 with sig := [] }
    let man := CMasternodeMan.after openNet [.mnb (openEnv 1000) forged]
    (man.unseen.processBroadcast openNet (openEnv 1000) (openBroadcast 900)).1 = true ∧
      (man.processBroadcast openNet (openEnv 1000) (openBroadcast 900)).1 = false := by
  decide

end ColossusCoin
