import ColossusCoin.Masternode.Announcements

/-!
# The newest broadcast

For one outpoint, the broadcasts with a valid signature that a node was given, and the entry
that it keeps.  The entry is the newest of them after each of them exactly when no newer one
is turned away: for the rate limit, for a hash that is noted already, for its inputs, or
for want of the entry that an older broadcast would have been compared with.  Two nodes that
keep the newest agree.
-/

namespace ColossusCoin

open KeyedList

/-- What a signed broadcast for the outpoint announces. -/
def MasternodeEvent.heard (net : MasternodeNet) (outpoint : COutPoint) :
    MasternodeEvent → Option Announcement
  | .mnb _ announced =>
    if announced.vin.prevout = outpoint ∧ announced.isSigned net then
      some announced.announced
    else none
  | .mnp _ _ => none
  | .cleanup _ _ => none

/-- What the signed broadcasts for the outpoint announced so far. -/
def heardOf (net : MasternodeNet) (outpoint : COutPoint) (trace : List MasternodeEvent) :
    List Announcement :=
  trace.filterMap (MasternodeEvent.heard net outpoint)

/-- An announcement that was heard, and none was newer. -/
def Announcement.IsNewestOf (row : Announcement) (heard : List Announcement) : Prop :=
  row ∈ heard ∧ ∀ other ∈ heard, other.sigTime ≤ row.sigTime

/-- What the entry of an outpoint announces. -/
def CMasternodeMan.rowAt (man : CMasternodeMan) (outpoint : COutPoint) :
    Option Announcement :=
  KeyedList.find Announcement.prevout outpoint man.announcements

/-- The entry of the outpoint announces the newest that was heard, and there is one when
the last event was a broadcast for it. -/
structure NewestListed (net : MasternodeNet) (outpoint : COutPoint)
    (trace : List MasternodeEvent) : Prop where
  newest : ∀ row, (CMasternodeMan.after net trace).rowAt outpoint = some row →
    row.IsNewestOf (heardOf net outpoint trace)
  listed : (trace.getLast?.bind (MasternodeEvent.heard net outpoint)).isSome →
    ((CMasternodeMan.after net trace).rowAt outpoint).isSome

namespace CMasternodeBroadcast

variable (net : MasternodeNet) (env : MasternodeEnv) (man : CMasternodeMan)
variable (heard : List Announcement) (mnb : CMasternodeBroadcast)

/-- The list is left with the newest announcement.  Without an entry the broadcast enters,
and none heard before was newer.  An entry that is newer stays; an enabled one as old stays
or is renewed, and an older one is renewed; one that is not enabled is replaced. -/
def keepsNewest : Bool :=
  match man.find mnb.vin with
  | none =>
    mnb.isHandled net env man && mnb.mayEnter net env && mnb.inputsAccepted env &&
      heard.all fun other => other.sigTime ≤ mnb.sigTime
  | some pmn =>
    if mnb.sigTime < pmn.sigTime then true
    else if !mnb.isHandled net env man then pmn.sigTime == mnb.sigTime
    else if !pmn.isEnabled then
      if mnb.mayEnter net env then mnb.inputsAccepted env else pmn.sigTime == mnb.sigTime
    else if !mnb.renews env pmn then pmn.sigTime == mnb.sigTime
    else
      !(mnb.mayEnter net env && !mnb.leavesEnabled net env man) || mnb.inputsAccepted env

end CMasternodeBroadcast

/-- A signed broadcast for the outpoint leaves the list with the newest. -/
def MasternodeEvent.KeepsNewest (net : MasternodeNet) (outpoint : COutPoint)
    (past : List MasternodeEvent) : MasternodeEvent → Prop
  | .mnb env announced =>
    announced.vin.prevout = outpoint → announced.isSigned net = true →
      announced.keepsNewest net env (CMasternodeMan.after net past)
        (heardOf net outpoint past) = true
  | .mnp _ _ => True
  | .cleanup _ _ => True

section Rows

open CMasternodeBroadcast

variable {man : CMasternodeMan}

theorem rowAt_vin (man : CMasternodeMan) (vin : CTxIn) :
    man.rowAt vin.prevout = (man.find vin).map CMasternode.announced :=
  find_announcements man vin

theorem rowAt_processBroadcast
    (distinct : man.OutpointsDistinct) :
    (man.processBroadcast net env mnb).2.rowAt mnb.vin.prevout =
      match mnb.outcome net env man with
      | .ignored => man.rowAt mnb.vin.prevout
      | .renewed => (man.rowAt mnb.vin.prevout).map fun _ => mnb.announced
      | .removed => none
      | .entered => some mnb.announced := by
  unfold CMasternodeMan.rowAt
  rw [announcements_processBroadcast distinct]
  cases mnb.outcome net env man with
  | ignored => rfl
  | renewed => exact find_modify_self fun _ _ => rfl
  | removed => exact find_erase_self distinct
  | entered =>
    have absent : KeyedList.find Announcement.prevout mnb.vin.prevout
        (KeyedList.erase Announcement.prevout mnb.announced.prevout man.announcements) = none :=
      find_erase_self distinct
    unfold Outcome.applyTo
    rw [find_snoc, absent]
    exact if_pos rfl

/-- The rows of other outpoints stay. -/
theorem rowAt_processBroadcast_of_ne
    (distinct : man.OutpointsDistinct)
    (apart : outpoint ≠ mnb.vin.prevout) :
    (man.processBroadcast net env mnb).2.rowAt outpoint = man.rowAt outpoint := by
  unfold CMasternodeMan.rowAt
  rw [announcements_processBroadcast distinct]
  cases mnb.outcome net env man with
  | ignored => rfl
  | renewed => exact find_modify_of_ne (fun _ _ => rfl) apart
  | removed => exact find_erase_of_ne apart
  | entered =>
    unfold Outcome.applyTo
    have before : KeyedList.find Announcement.prevout outpoint
        (KeyedList.erase Announcement.prevout mnb.announced.prevout man.announcements) =
          KeyedList.find Announcement.prevout outpoint man.announcements :=
      find_erase_of_ne apart
    rw [find_snoc, before]
    cases KeyedList.find Announcement.prevout outpoint man.announcements with
    | none => exact if_neg (Ne.symm apart)
    | some row => rfl

/-- A broadcast with a bad signature does nothing. -/
theorem rowAt_processBroadcast_of_unsigned
    (distinct : man.OutpointsDistinct)
    (unsigned : ¬mnb.isSigned net = true) :
    (man.processBroadcast net env mnb).2.rowAt mnb.vin.prevout = man.rowAt mnb.vin.prevout := by
  have unhandled : mnb.isHandled net env man = false := by
    unfold isHandled passesChecks
    simp [unsigned]
  rw [rowAt_processBroadcast distinct, outcome_of_unhandled unhandled]

end Rows

/-! ## The newest that was heard -/

section Newest

variable {row announced : Announcement}

theorem isNewestOf_snoc_iff
    (newest : row.IsNewestOf heard) :
    row.IsNewestOf (heard ++ [announced]) ↔ announced.sigTime ≤ row.sigTime := by
  refine Iff.intro ?_ ?_
  · intro stays
    exact stays.2 announced (List.mem_append_right heard (List.mem_singleton_self announced))
  · intro notNewer
    refine And.intro (List.mem_append_left _ newest.1) ?_
    intro other member
    rcases List.mem_append.mp member with old | new
    · exact newest.2 other old
    · rw [List.mem_singleton.mp new]
      exact notNewer

theorem isNewestOf_snoc_self_iff :
    announced.IsNewestOf (heard ++ [announced]) ↔
      ∀ other ∈ heard, other.sigTime ≤ announced.sigTime := by
  refine Iff.intro ?_ ?_
  · exact fun newest other member => newest.2 other (List.mem_append_left _ member)
  · intro notOlder
    refine And.intro (List.mem_append_right heard (List.mem_singleton_self announced)) ?_
    intro other member
    rcases List.mem_append.mp member with old | new
    · exact notOlder other old
    · exact Int.le_of_eq (congrArg Announcement.sigTime (List.mem_singleton.mp new))

theorem isNewestOf_snoc_self
    (newest : row.IsNewestOf heard)
    (notOlder : row.sigTime ≤ announced.sigTime) :
    announced.IsNewestOf (heard ++ [announced]) :=
  isNewestOf_snoc_self_iff.mpr fun other member =>
    Int.le_trans (newest.2 other member) notOlder

end Newest

section Steps

open CMasternodeBroadcast

variable {net : MasternodeNet} {env : MasternodeEnv} {man : CMasternodeMan}
variable {mnb : CMasternodeBroadcast}

theorem keepsNewest_iff_of_unlisted
    (distinct : man.OutpointsDistinct)
    (absent : man.find mnb.vin = none) :
    mnb.keepsNewest net env man heard = true ↔
      ∃ row, (man.processBroadcast net env mnb).2.rowAt mnb.vin.prevout = some row ∧
        row.IsNewestOf (heard ++ [mnb.announced]) := by
  have noRow : man.rowAt mnb.vin.prevout = none := by
    rw [rowAt_vin, absent]
    rfl
  rw [rowAt_processBroadcast distinct, noRow]
  unfold keepsNewest
  rw [absent]
  cases handled : mnb.isHandled net env man with
  | false =>
    rw [outcome_of_unhandled handled]
    exact iff_of_false Bool.false_ne_true nofun
  | true =>
    rw [outcome_of_unlisted handled absent]
    cases mayEnter : mnb.mayEnter net env with
    | false => exact iff_of_false Bool.false_ne_true nofun
    | true =>
      unfold entryOutcome
      cases accepted : mnb.inputsAccepted env with
      | false => exact iff_of_false Bool.false_ne_true nofun
      | true =>
        have newest := @isNewestOf_snoc_self_iff mnb.announced heard
        simp only [Bool.and_self, Bool.true_and, List.all_eq_true, decide_eq_true_iff,
          if_true, Option.some.injEq, exists_eq_left']
        exact newest.symm

variable {pmn : CMasternode}

theorem newest_of_ignored
    (newest : pmn.announced.IsNewestOf heard)
    (notOlder : ¬mnb.sigTime < pmn.sigTime) :
    (pmn.sigTime == mnb.sigTime) = true ↔
      ∃ row, some pmn.announced = some row ∧ row.IsNewestOf (heard ++ [mnb.announced]) := by
  simp only [Option.some.injEq, exists_eq_left']
  rw [isNewestOf_snoc_iff newest, beq_iff_eq]
  have times : mnb.announced.sigTime ≤ pmn.announced.sigTime ↔ mnb.sigTime ≤ pmn.sigTime := Iff.rfl
  rw [times]
  omega

theorem newest_of_entryOutcome
    (newest : pmn.announced.IsNewestOf heard)
    (notOlder : ¬mnb.sigTime < pmn.sigTime)
    (before : Option Announcement) :
    mnb.inputsAccepted env = true ↔
      ∃ row, (match mnb.entryOutcome env .removed with
        | .ignored => before
        | .renewed => before.map fun _ => mnb.announced
        | .removed => none
        | .entered => some mnb.announced) = some row ∧
          row.IsNewestOf (heard ++ [mnb.announced]) := by
  unfold entryOutcome
  cases mnb.inputsAccepted env with
  | false => exact iff_of_false Bool.false_ne_true nofun
  | true =>
    have itself : mnb.announced.IsNewestOf (heard ++ [mnb.announced]) :=
      isNewestOf_snoc_self newest (Int.not_lt.mp notOlder)
    exact iff_of_true rfl ⟨mnb.announced, rfl, itself⟩

theorem keepsNewest_iff_of_listed
    (distinct : man.OutpointsDistinct)
    (found : man.find mnb.vin = some pmn)
    (newest : pmn.announced.IsNewestOf heard) :
    mnb.keepsNewest net env man heard = true ↔
      ∃ row, (man.processBroadcast net env mnb).2.rowAt mnb.vin.prevout = some row ∧
        row.IsNewestOf (heard ++ [mnb.announced]) := by
  have row : man.rowAt mnb.vin.prevout = some pmn.announced := by
    rw [rowAt_vin, found]
    rfl
  rw [rowAt_processBroadcast distinct, row]
  unfold keepsNewest
  rw [found]
  dsimp only
  by_cases older : mnb.sigTime < pmn.sigTime
  · have ignored : mnb.outcome net env man = .ignored := by
      cases handled : mnb.isHandled net env man with
      | false => exact outcome_of_unhandled handled
      | true => rw [outcome_of_listed handled found, if_pos older]
    have stays : pmn.announced.IsNewestOf (heard ++ [mnb.announced]) :=
      (isNewestOf_snoc_iff newest).mpr (Int.le_of_lt older)
    rw [if_pos older, ignored]
    exact iff_of_true rfl ⟨pmn.announced, rfl, stays⟩
  · rw [if_neg older]
    cases handled : mnb.isHandled net env man with
    | false =>
      rw [outcome_of_unhandled handled]
      exact newest_of_ignored newest older
    | true =>
      rw [outcome_of_listed handled found, if_neg older]
      cases pmn.isEnabled with
      | false =>
        cases mnb.mayEnter net env with
        | false => exact newest_of_ignored newest older
        | true => exact newest_of_entryOutcome newest older _
      | true =>
        cases mnb.renews env pmn with
        | false => exact newest_of_ignored newest older
        | true =>
          cases mnb.mayEnter net env && !mnb.leavesEnabled net env man with
          | false =>
            have itself : mnb.announced.IsNewestOf (heard ++ [mnb.announced]) :=
              isNewestOf_snoc_self newest (Int.not_lt.mp older)
            exact iff_of_true rfl ⟨mnb.announced, rfl, itself⟩
          | true => exact newest_of_entryOutcome newest older _

/-- A signed broadcast for the outpoint leaves the newest there exactly when it meets its
condition. -/
theorem keepsNewest_iff
    (distinct : man.OutpointsDistinct)
    (newest : ∀ row, man.rowAt mnb.vin.prevout = some row → row.IsNewestOf heard) :
    mnb.keepsNewest net env man heard = true ↔
      ∃ row, (man.processBroadcast net env mnb).2.rowAt mnb.vin.prevout = some row ∧
        row.IsNewestOf (heard ++ [mnb.announced]) := by
  cases found : man.find mnb.vin with
  | none => exact keepsNewest_iff_of_unlisted distinct found
  | some pmn =>
    refine keepsNewest_iff_of_listed distinct found (newest pmn.announced ?_)
    rw [rowAt_vin, found]
    rfl

theorem heard_mnb
    (here : mnb.vin.prevout = outpoint)
    (signed : mnb.isSigned net = true) :
    (MasternodeEvent.mnb env mnb).heard net outpoint = some mnb.announced :=
  if_pos (And.intro here signed)

theorem of_heard_mnb
    (heard : (MasternodeEvent.mnb env mnb).heard net outpoint = some row) :
    mnb.vin.prevout = outpoint ∧ mnb.isSigned net = true := by
  by_contra otherwise
  have unheard : (MasternodeEvent.mnb env mnb).heard net outpoint = none := if_neg otherwise
  rw [unheard] at heard
  cases heard

/-- An event that announces nothing for the outpoint leaves its row, or removes it. -/
theorem rowAt_apply_of_unheard
    (distinct : man.OutpointsDistinct)
    (unheard : event.heard net outpoint = none)
    (listed : (man.apply net event).rowAt outpoint = some row) :
    man.rowAt outpoint = some row := by
  cases event with
  | mnb env mnb =>
    unfold CMasternodeMan.apply at listed
    by_cases here : mnb.vin.prevout = outpoint
    · subst here
      have unsigned : ¬mnb.isSigned net = true := by
        intro signed
        rw [heard_mnb rfl signed] at unheard
        cases unheard
      rwa [rowAt_processBroadcast_of_unsigned distinct unsigned] at listed
    · rwa [rowAt_processBroadcast_of_ne distinct (Ne.symm here)] at listed
  | mnp env ping =>
    unfold CMasternodeMan.apply CMasternodeMan.rowAt at listed
    rwa [announcements_processPing] at listed
  | cleanup env forceExpiredRemoval =>
    have rest := @announcements_checkAndRemove_sublist env man forceExpiredRemoval
    have found : KeyedList.find Announcement.prevout outpoint
        (man.checkAndRemove env forceExpiredRemoval).announcements = some row := listed
    exact distinct.find_eq_some_iff.mpr
      (And.intro (rest.subset (mem_of_find found)) (key_of_find found))

end Steps

section Runs

theorem heardOf_snoc (past : List MasternodeEvent) (event : MasternodeEvent) :
    heardOf net outpoint (past ++ [event]) =
      heardOf net outpoint past ++ (event.heard net outpoint).toList := by
  unfold heardOf
  rw [List.filterMap_append]
  cases heard : event.heard net outpoint with
  | none => rw [List.filterMap_cons_none heard, List.filterMap_nil, Option.toList_none]
  | some row => rw [List.filterMap_cons_some heard, List.filterMap_nil, Option.toList_some]

theorem newestListed_snoc_of_unheard
    (before : NewestListed net outpoint past)
    (unheard : event.heard net outpoint = none) :
    NewestListed net outpoint (past ++ [event]) where
  newest row listed := by
    rw [CMasternodeMan.after_snoc] at listed
    rw [heardOf_snoc, unheard, Option.toList_none, List.append_nil]
    exact before.newest row
      (rowAt_apply_of_unheard (outpointsDistinct_after net past) unheard listed)
  listed due := by
    rw [List.getLast?_concat, Option.bind_some, unheard] at due
    exact absurd due Bool.false_ne_true

theorem newestListed_snoc_iff
    (before : NewestListed net outpoint past) :
    NewestListed net outpoint (past ++ [event]) ↔ event.KeepsNewest net outpoint past := by
  have distinct := outpointsDistinct_after net past
  rcases Option.eq_none_or_eq_some (event.heard net outpoint) with unheard | ⟨row, heard⟩
  · refine iff_of_true (newestListed_snoc_of_unheard before unheard) ?_
    cases event with
    | mnb env mnb =>
      intro here signed
      rw [heard_mnb here signed] at unheard
      cases unheard
    | mnp env ping => trivial
    | cleanup env forceExpiredRemoval => trivial
  · cases event with
    | mnp env ping => cases heard
    | cleanup env forceExpiredRemoval => cases heard
    | mnb env mnb =>
      obtain ⟨rfl, signed⟩ := of_heard_mnb heard
      have announces := @heard_mnb net env mnb _ rfl signed
      have keeps := @keepsNewest_iff net env _ mnb _ distinct before.newest
      refine Iff.intro ?_ ?_
      · intro afterwards _ _
        have due : ((past ++ [MasternodeEvent.mnb env mnb]).getLast?.bind
            (MasternodeEvent.heard net mnb.vin.prevout)).isSome = true := by
          rw [List.getLast?_concat, Option.bind_some, announces]
          rfl
        obtain ⟨now, listed⟩ := Option.isSome_iff_exists.mp (afterwards.listed due)
        have newest := afterwards.newest now listed
        rw [heardOf_snoc, announces, Option.toList_some] at newest
        rw [CMasternodeMan.after_snoc] at listed
        exact keeps.mpr ⟨now, listed, newest⟩
      · intro condition
        obtain ⟨now, listed, newest⟩ := keeps.mp (condition rfl signed)
        have here : (CMasternodeMan.after net (past ++ [.mnb env mnb])).rowAt
            mnb.vin.prevout = some now := by
          rw [CMasternodeMan.after_snoc]
          exact listed
        refine NewestListed.mk ?_ ?_
        · intro row found
          rw [heardOf_snoc, announces, Option.toList_some]
          rw [here] at found
          cases found
          exact newest
        · intro _
          rw [here]
          rfl

theorem newestListed_nil (net : MasternodeNet) (outpoint : COutPoint) :
    NewestListed net outpoint [] where
  newest _ listed := nomatch listed
  listed due := absurd due Bool.false_ne_true

/-- Two nodes that heard the same broadcasts for an outpoint, one of them last, and keep the
newest have the same entry, when no two of the newest differ. -/
theorem rowAt_eq_of_newestListed
    (firstNewest : NewestListed net outpoint first)
    (secondNewest : NewestListed net outpoint second)
    (firstDue : (first.getLast?.bind (MasternodeEvent.heard net outpoint)).isSome)
    (secondDue : (second.getLast?.bind (MasternodeEvent.heard net outpoint)).isSome)
    (sameHeard : ∀ row, row ∈ heardOf net outpoint first ↔ row ∈ heardOf net outpoint second)
    (timesDiffer : ∀ row ∈ heardOf net outpoint first, ∀ other ∈ heardOf net outpoint first,
      row.sigTime = other.sigTime → row = other) :
    ∃ row, (CMasternodeMan.after net first).rowAt outpoint = some row ∧
      (CMasternodeMan.after net second).rowAt outpoint = some row ∧
      row.IsNewestOf (heardOf net outpoint first) := by
  obtain ⟨row, listed⟩ := Option.isSome_iff_exists.mp (firstNewest.listed firstDue)
  obtain ⟨other, otherListed⟩ := Option.isSome_iff_exists.mp (secondNewest.listed secondDue)
  have newest := firstNewest.newest row listed
  have otherNewest := secondNewest.newest other otherListed
  have otherHeard := (sameHeard other).mpr otherNewest.1
  have sameTime : row.sigTime = other.sigTime :=
    Int.le_antisymm (otherNewest.2 row ((sameHeard row).mp newest.1)) (newest.2 other otherHeard)
  have same := timesDiffer row newest.1 other otherHeard sameTime
  exact ⟨row, listed, same ▸ otherListed, newest⟩

end Runs

/-- In a run, the entry of an outpoint is the newest of its signed broadcasts, and there is
one after each of them, if and only if each of them keeps the newest; and two nodes whose
runs are such, that heard the same broadcasts, one of them last and no two of one time, end
with the same entry, which is the newest. -/
theorem newest_broadcast_iff (net : MasternodeNet) (outpoint : COutPoint) :
    (∀ trace, (∀ past, past <+: trace → NewestListed net outpoint past) ↔
        ∀ past event, past ++ [event] <+: trace → event.KeepsNewest net outpoint past) ∧
      ∀ first second : List MasternodeEvent,
        (∀ past event, past ++ [event] <+: first → event.KeepsNewest net outpoint past) →
        (∀ past event, past ++ [event] <+: second → event.KeepsNewest net outpoint past) →
        (first.getLast?.bind (MasternodeEvent.heard net outpoint)).isSome →
        (second.getLast?.bind (MasternodeEvent.heard net outpoint)).isSome →
        (∀ row, row ∈ heardOf net outpoint first ↔ row ∈ heardOf net outpoint second) →
        (∀ row ∈ heardOf net outpoint first, ∀ other ∈ heardOf net outpoint first,
          row.sigTime = other.sigTime → row = other) →
          ∃ row, (CMasternodeMan.after net first).rowAt outpoint = some row ∧
            (CMasternodeMan.after net second).rowAt outpoint = some row ∧
            row.IsNewestOf (heardOf net outpoint first) := by
  have exact_iff : ∀ trace, (∀ past, past <+: trace → NewestListed net outpoint past) ↔
      ∀ past event, past ++ [event] <+: trace → event.KeepsNewest net outpoint past :=
    fun trace => prefixes_hold_iff (newestListed_nil net outpoint)
      fun past event before => newestListed_snoc_iff before
  refine And.intro exact_iff ?_
  intro first second firstKeeps secondKeeps firstDue secondDue sameHeard timesDiffer
  exact rowAt_eq_of_newestListed
    ((exact_iff first).mpr firstKeeps first List.prefix_rfl)
    ((exact_iff second).mpr secondKeeps second List.prefix_rfl)
    firstDue secondDue sameHeard timesDiffer

/-- Far enough apart, an older and a newer broadcast leave two nodes with the newer one. -/
theorem newest_broadcast_iff_farApart :
    let older : MasternodeEvent := .mnb (openEnv 1000) (openBroadcast 900)
    let newer : MasternodeEvent := .mnb (openEnv 1500) (openBroadcast 1400)
    let olderLate : MasternodeEvent := .mnb (openEnv 1600) (openBroadcast 900)
    ∃ row, (CMasternodeMan.after openNet [older, newer]).rowAt ⟨7, 0⟩ = some row ∧
      (CMasternodeMan.after openNet [newer, olderLate]).rowAt ⟨7, 0⟩ = some row ∧
      row.IsNewestOf (heardOf openNet ⟨7, 0⟩ [older, newer]) := by
  intro older newer olderLate
  refine (newest_broadcast_iff openNet ⟨7, 0⟩).2 [older, newer] [newer, olderLate]
    ?_ ?_ (by decide) (by decide) ?_ (by decide)
  · rw [steps_cons_iff, steps_cons_iff, steps_nil_iff]
    exact ⟨fun _ _ => by decide, fun _ _ => by decide, trivial⟩
  · rw [steps_cons_iff, steps_cons_iff, steps_nil_iff]
    exact ⟨fun _ _ => by decide, fun _ _ => by decide, trivial⟩
  · intro row
    have swapped : heardOf openNet ⟨7, 0⟩ [newer, olderLate] =
        (heardOf openNet ⟨7, 0⟩ [older, newer]).reverse := by
      decide
    rw [swapped, List.mem_reverse]

/-- A newer broadcast within five minutes of the entry is turned away, and again when it
comes later, as its hash is noted: the order decides which entry a node keeps.  And after
the entry is removed an older broadcast makes it anew. -/
theorem older_broadcast_kept :
    let older := openBroadcast 900
    let newer := openBroadcast 1050
    let kept := CMasternodeMan.after openNet
      [.mnb (openEnv 1000) older, .mnb (openEnv 1100) newer, .mnb (openEnv 2000) newer]
    let other := CMasternodeMan.after openNet
      [.mnb (openEnv 1100) newer, .mnb (openEnv 1100) older]
    let recreated := CMasternodeMan.after openNet
      [.mnb (openEnv 1100) newer, .cleanup (openEnv 9000) false, .mnb (openEnv 9100) older]
    kept.rowAt ⟨7, 0⟩ = some older.announced ∧
      other.rowAt ⟨7, 0⟩ = some newer.announced ∧
      recreated.rowAt ⟨7, 0⟩ = some older.announced := by
  decide

end ColossusCoin
