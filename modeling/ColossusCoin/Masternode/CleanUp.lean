import ColossusCoin.Library.ShiftedRemoval
import ColossusCoin.Library.SortedMap
import ColossusCoin.Masternode.RejectedBroadcasts

/-!
# The clean-up of the masternode list

`Remove` and `CheckAndRemove` erase entries from a vector.  The entries behind an erased one are
assigned to the places before them, by an assignment that swaps most fields with those of a copy and
leaves the others where they are.  `CheckAndRemove` also forgets the broadcasts of what it removes,
and broadcasts and pings that are too old.  Requests to peers are left out.
-/

namespace ColossusCoin

open ShiftedRemoval

/-! ## Entries with all their fields -/

/-- `CMasternode`, with the fields that no message sets. -/
structure MasternodeRecord extends CMasternode where
  pubKeyCollateralAddress1 : CPubKey
  pubKeyMasternode1 : CPubKey
  unitTest : Bool
  allowFreeTx : Bool
  nActiveState : MasternodeState
  nScanningErrorCount : Int
  nLastScanningErrorBlockHeight : Int
  nLastDsee : Int
  nLastDseep : Int
  deriving DecidableEq, Repr

namespace MasternodeRecord

def check (env : MasternodeEnv) (forceCheck : Bool) (mn : MasternodeRecord) : MasternodeRecord :=
  if env.shutdownRequested then mn
  else if !forceCheck && env.time - mn.lastTimeChecked < masternodeCheckSeconds then mn
  else
    let checked := { mn with lastTimeChecked := env.time }
    if mn.activeState = .vinSpent then checked
    else if !mn.isPingedWithin env masternodeRemovalSeconds (-1) then
      { checked with activeState := .remove }
    else if !mn.isPingedWithin env masternodeExpirationSeconds (-1) then
      { checked with activeState := .expired }
    else if !mn.unitTest && !env.lockMain then checked
    else if !mn.unitTest && !env.acceptableInputs mn.vin then
      { checked with activeState := .vinSpent }
    else { checked with activeState := .enabled }

/-- `CMasternode(const CMasternode&)`: what it does not copy is as in a new entry. -/
def copy (other : MasternodeRecord) : MasternodeRecord where
  vin := other.vin
  addr := other.addr
  pubKeyCollateralAddress := other.pubKeyCollateralAddress
  pubKeyMasternode := other.pubKeyMasternode
  pubKeyCollateralAddress1 := []
  pubKeyMasternode1 := []
  sig := other.sig
  activeState := other.activeState
  sigTime := other.sigTime
  lastPing := other.lastPing
  cacheInputAge := other.cacheInputAge
  cacheInputAgeBlock := other.cacheInputAgeBlock
  unitTest := other.unitTest
  allowFreeTx := other.allowFreeTx
  nActiveState := .enabled
  protocolVersion := other.protocolVersion
  nLastDsq := other.nLastDsq
  nScanningErrorCount := other.nScanningErrorCount
  nLastScanningErrorBlockHeight := other.nLastScanningErrorBlockHeight
  lastTimeChecked := 0
  nLastDsee := other.nLastDsee
  nLastDseep := other.nLastDseep

/-- What `swap` makes of its first argument. -/
def swapped (first second : MasternodeRecord) : MasternodeRecord :=
  { first with
    vin := second.vin
    addr := second.addr
    pubKeyCollateralAddress := second.pubKeyCollateralAddress
    pubKeyMasternode := second.pubKeyMasternode
    sig := second.sig
    activeState := second.activeState
    sigTime := second.sigTime
    lastPing := second.lastPing
    cacheInputAge := second.cacheInputAge
    cacheInputAgeBlock := second.cacheInputAgeBlock
    unitTest := second.unitTest
    allowFreeTx := second.allowFreeTx
    protocolVersion := second.protocolVersion
    nLastDsq := second.nLastDsq
    nScanningErrorCount := second.nScanningErrorCount
    nLastScanningErrorBlockHeight := second.nLastScanningErrorBlockHeight }

/-- `swap`, of both. -/
def swap (first second : MasternodeRecord) : MasternodeRecord × MasternodeRecord :=
  (swapped first second, swapped second first)

/-- `operator=`, which takes its argument by value. -/
def assign (place other : MasternodeRecord) : MasternodeRecord :=
  (swap place (copy other)).1

/-- `Remove`: the first entry with the input is erased from the vector. -/
def remove (vin : CTxIn) : List MasternodeRecord → List MasternodeRecord
  | [] => []
  | mn :: rest =>
    if mn.vin = vin then eraseFirst assign (mn :: rest) else mn :: remove vin rest

/-- The fields that `swap` does not name. -/
structure Unswapped where
  pubKeyCollateralAddress1 : CPubKey
  pubKeyMasternode1 : CPubKey
  nActiveState : MasternodeState
  lastTimeChecked : Int
  nLastDsee : Int
  nLastDseep : Int
  deriving DecidableEq, Repr

/-- The fields of an entry that `swap` does not name. -/
def unswapped (mn : MasternodeRecord) : Unswapped where
  pubKeyCollateralAddress1 := mn.pubKeyCollateralAddress1
  pubKeyMasternode1 := mn.pubKeyMasternode1
  nActiveState := mn.nActiveState
  lastTimeChecked := mn.lastTimeChecked
  nLastDsee := mn.nLastDsee
  nLastDseep := mn.nLastDseep

/-- An entry is whole after it was assigned to a place exactly when the fields that the place keeps
are its own. -/
theorem assign_eq_iff (place mn : MasternodeRecord) :
    assign place mn = mn ↔ place.unswapped = mn.unswapped := by
  constructor
  · intro whole
    rw [← whole]
    rfl
  · intro same
    obtain ⟨⟨⟩⟩ := mn
    simp only [unswapped, Unswapped.mk.injEq] at same
    simp only [assign, swap, swapped, copy, mk.injEq, CMasternode.mk.injEq]
    tauto

theorem partialAssign_assign : PartialAssign assign where
  self := fun x => (assign_eq_iff x x).mpr rfl
  source := fun _ _ _ => rfl
  target := fun _ _ _ => rfl

/-- `Remove` leaves what the erasure of the first such entry leaves, in the places before. -/
theorem remove_eq_zipWith (vin : CTxIn) (mns : List MasternodeRecord) :
    remove vin mns = List.zipWith assign mns (mns.eraseP fun mn => mn.vin = vin) := by
  induction mns with
  | nil => rfl
  | cons mn rest ih =>
    rw [remove]
    by_cases found : mn.vin = vin
    · have erased := partialAssign_assign.eraseFirst_zipWith (mn :: rest) rest mn
        (Nat.lt_succ_self rest.length)
      rw [partialAssign_assign.zipWith_self] at erased
      rw [if_pos found, erased, List.eraseP_cons_of_pos (by simpa using found)]
    · rw [if_neg found, List.eraseP_cons_of_neg (by simpa using found), List.zipWith_cons_cons,
        partialAssign_assign.self, ih]

/-- Each entry that stays has the fields that its new place keeps. -/
def Undisturbed (before kept : List MasternodeRecord) : Prop :=
  ∀ pair ∈ before.zip kept, pair.1.unswapped = pair.2.unswapped

theorem zipWith_assign_eq_iff
    (fewer : kept.length ≤ before.length) :
    List.zipWith assign before kept = kept ↔ Undisturbed before kept := by
  rw [zipWith_eq_iff fewer]
  exact forall₂_congr fun pair _ => assign_eq_iff pair.1 pair.2

end MasternodeRecord

/-- `mapSeenMasternodeBroadcast`, in which broadcasts are inserted under their hashes, and
`masternodeSync.mapSeenSyncMNB`. -/
structure SeenBroadcasts (net : MasternodeNet) where
  mapSeenMasternodeBroadcast : SortedMap Uint256 CMasternodeBroadcast
  mapSeenSyncMNB : SortedMap Uint256 Int
  keyed : ∀ entry ∈ mapSeenMasternodeBroadcast.entries, entry.1 = entry.2.getHash net

namespace SeenBroadcasts

/-- No broadcasts. -/
def empty (net : MasternodeNet) : SeenBroadcasts net where
  mapSeenMasternodeBroadcast := .empty
  mapSeenSyncMNB := .empty
  keyed := fun _ none => absurd none List.not_mem_nil

/-- `AddedMasternodeList` of a hash that is new, and the broadcast inserted under it. -/
def note (seen : SeenBroadcasts net) (mnb : CMasternodeBroadcast) : SeenBroadcasts net where
  mapSeenMasternodeBroadcast := seen.mapSeenMasternodeBroadcast.insert (mnb.getHash net) mnb
  mapSeenSyncMNB := seen.mapSeenSyncMNB.insert (mnb.getHash net) 1
  keyed := by
    intro entry member
    rcases (SortedMap.mem_entries_insert _ _ _ entry).mp member with rfl | ⟨-, old⟩
    · rfl
    · exact seen.keyed entry old

/-- Erase broadcasts by their hashes, and other hashes from the second map. -/
def eraseBoth (seen : SeenBroadcasts net) (hashes synced : List Uint256) : SeenBroadcasts net where
  mapSeenMasternodeBroadcast := seen.mapSeenMasternodeBroadcast.eraseAll hashes
  mapSeenSyncMNB := seen.mapSeenSyncMNB.eraseAll synced
  keyed := by
    intro entry member
    rw [SortedMap.entries_eraseAll] at member
    exact seen.keyed entry (List.mem_of_mem_filter member)

/-- The loop that forgets the broadcasts of an input. -/
def forgetLoop (vin : CTxIn) :
    List (Uint256 × CMasternodeBroadcast) → SeenBroadcasts net → SeenBroadcasts net
  | [], seen => seen
  | entry :: rest, seen =>
    if entry.2.vin = vin then forgetLoop vin rest (seen.eraseBoth [entry.1] [entry.1])
    else forgetLoop vin rest seen

/-- Forget the broadcasts of an input. -/
def forget (vin : CTxIn) (seen : SeenBroadcasts net) : SeenBroadcasts net :=
  forgetLoop vin seen.mapSeenMasternodeBroadcast.entries seen

/-- A broadcast is too old. -/
def isOld (env : MasternodeEnv) (mnb : CMasternodeBroadcast) : Bool :=
  mnb.lastPing.sigTime < env.time - masternodeRemovalSeconds * 2

/-- The loop that erases broadcasts that are too old.  What it erases from the second map is read
through the iterator after it was moved on; there is nothing to read at the end. -/
def expireLoop (env : MasternodeEnv) :
    List (Uint256 × CMasternodeBroadcast) → SeenBroadcasts net → Option (SeenBroadcasts net)
  | [], seen => some seen
  | entry :: rest, seen =>
    if isOld env entry.2 then
      match rest with
      | [] => none
      | next :: _ => expireLoop env rest (seen.eraseBoth [entry.1] [next.2.getHash net])
    else expireLoop env rest seen

/-- Erase the broadcasts that are too old. -/
def expire (env : MasternodeEnv) (seen : SeenBroadcasts net) : Option (SeenBroadcasts net) :=
  expireLoop env seen.mapSeenMasternodeBroadcast.entries seen

end SeenBroadcasts

/-- The masternode list with what is seen. -/
structure MasternodeTables (net : MasternodeNet) extends SeenBroadcasts net where
  vMasternodes : List MasternodeRecord
  mapSeenMasternodePing : SortedMap Uint256 CMasternodePing

namespace SeenBroadcasts

variable {env : MasternodeEnv} {seen : SeenBroadcasts net}

/-- What is left after some broadcasts and the hashes of some were erased. -/
structure IsErasure (seen after : SeenBroadcasts net) (erased : CMasternodeBroadcast → Bool)
    (synced : List Uint256) : Prop where
  broadcasts : after.mapSeenMasternodeBroadcast.entries =
    seen.mapSeenMasternodeBroadcast.entries.filter fun entry => !erased entry.2
  hashes : ∀ hash, after.mapSeenSyncMNB.get? hash =
    if hash ∈ synced then none else seen.mapSeenSyncMNB.get? hash

/-- The hashes of the broadcasts of some kind. -/
def hashesOf (seen : SeenBroadcasts net) (kind : CMasternodeBroadcast → Bool) : List Uint256 :=
  (seen.mapSeenMasternodeBroadcast.entries.filter fun entry => kind entry.2).map
    fun entry => entry.2.getHash net

theorem hashesOf_eq (seen : SeenBroadcasts net) (kind : CMasternodeBroadcast → Bool) :
    seen.hashesOf kind =
      (seen.mapSeenMasternodeBroadcast.entries.filter fun entry => kind entry.2).map Prod.fst := by
  refine List.map_congr_left fun entry member => ?_
  exact (seen.keyed entry (List.mem_of_mem_filter member)).symm

variable {middle : SeenBroadcasts net}

theorem mem_hashesOf {hash : Uint256} :
    hash ∈ seen.hashesOf kind ↔
      ∃ mnb, (hash, mnb) ∈ seen.mapSeenMasternodeBroadcast.entries ∧ kind mnb = true := by
  rw [hashesOf_eq]
  simp

/-- The hashes of one kind or another are those of the first kind and those of the second among
what is left. -/
theorem mem_hashesOf_or
    {first second : CMasternodeBroadcast → Bool} {hash : Uint256}
    (left : middle.mapSeenMasternodeBroadcast.entries =
      seen.mapSeenMasternodeBroadcast.entries.filter fun entry => !first entry.2) :
    hash ∈ seen.hashesOf (fun mnb => first mnb || second mnb) ↔
      hash ∈ middle.hashesOf second ∨ hash ∈ seen.hashesOf first := by
  simp only [mem_hashesOf, left, List.mem_filter, Bool.or_eq_true, Bool.not_eq_true']
  constructor
  · rintro ⟨mnb, there, kind⟩
    cases isFirst : first mnb with
    | true => exact .inr ⟨mnb, there, isFirst⟩
    | false => exact .inl ⟨mnb, ⟨there, isFirst⟩, kind.resolve_left (by simp [isFirst])⟩
  · rintro (⟨mnb, ⟨there, -⟩, kind⟩ | ⟨mnb, there, kind⟩)
    · exact ⟨mnb, there, .inr kind⟩
    · exact ⟨mnb, there, .inl kind⟩

theorem not_mem_hashesOf
    {hash : Uint256}
    (left : middle.mapSeenMasternodeBroadcast.entries =
      seen.mapSeenMasternodeBroadcast.entries.filter fun entry => !kind entry.2)
    (there : hash ∈ middle.mapSeenMasternodeBroadcast.entries.map Prod.fst) :
    hash ∉ seen.hashesOf kind := by
  intro isKind
  obtain ⟨mnb, before, holds⟩ := mem_hashesOf.mp isKind
  obtain ⟨⟨_, other⟩, after, rfl⟩ := List.mem_map.mp there
  rw [left, List.mem_filter] at after
  have found := (SortedMap.get?_eq_some_iff _ _ _).mpr before
  rw [(SortedMap.get?_eq_some_iff _ _ _).mpr after.1] at found
  obtain rfl := Option.some.inj found
  rw [holds] at after
  cases after.2

/-- Erasing broadcasts of one kind and then those of another erases those of either. -/
theorem IsErasure.trans
    {first second : CMasternodeBroadcast → Bool}
    (one : IsErasure seen middle first (seen.hashesOf first))
    (other : IsErasure middle after second (middle.hashesOf second)) :
    IsErasure seen after (fun mnb => first mnb || second mnb)
      (seen.hashesOf fun mnb => first mnb || second mnb) := by
  refine ⟨?_, fun hash => ?_⟩
  · rw [other.broadcasts, one.broadcasts, List.filter_filter]
    refine List.filter_congr fun entry _ => ?_
    rw [Bool.not_or, Bool.and_comm]
  · have either := @mem_hashesOf_or net seen middle first second hash one.broadcasts
    rw [other.hashes, one.hashes]
    by_cases later : hash ∈ middle.hashesOf second
    · rw [if_pos later, if_pos (either.mpr (.inl later))]
    · by_cases earlier : hash ∈ seen.hashesOf first
      · rw [if_neg later, if_pos earlier, if_pos (either.mpr (.inr earlier))]
      · rw [if_neg later, if_neg earlier,
          if_neg fun erased => (either.mp erased).elim later earlier]

theorem forgetLoop_eq (vin : CTxIn) (entries : List (Uint256 × CMasternodeBroadcast)) :
    let hashes := (entries.filter fun entry => entry.2.vin = vin).map Prod.fst
    forgetLoop vin entries seen = seen.eraseBoth hashes hashes := by
  induction entries generalizing seen with
  | nil => rfl
  | cons entry rest ih =>
    rw [forgetLoop]
    by_cases found : entry.2.vin = vin
    · rw [if_pos found, ih, List.filter_cons_of_pos (by simpa using found)]
      rfl
    · rw [if_neg found, ih, List.filter_cons_of_neg (by simpa using found)]

/-- The broadcasts of an input are forgotten, and their hashes are. -/
theorem isErasure_forget (vin : CTxIn) :
    IsErasure seen (seen.forget vin) (fun mnb => mnb.vin = vin)
      (seen.hashesOf fun mnb => mnb.vin = vin) := by
  rw [hashesOf_eq, forget, forgetLoop_eq]
  refine ⟨?_, fun hash => SortedMap.get?_eraseAll _ _ hash⟩
  exact SortedMap.entries_eraseAll_filter _
    fun entry : Uint256 × CMasternodeBroadcast => decide (entry.2.vin = vin)

/-- The broadcasts of several inputs are forgotten, and their hashes are. -/
theorem isErasure_foldl_forget (mns : List MasternodeRecord) :
    IsErasure seen (mns.foldl (fun seen mn => seen.forget mn.vin) seen)
      (fun mnb => mns.any fun mn => mnb.vin = mn.vin)
      (seen.hashesOf fun mnb => mns.any fun mn => mnb.vin = mn.vin) := by
  induction mns generalizing seen with
  | nil => exact ⟨by simp, by simp [hashesOf]⟩
  | cons mn rest ih =>
    exact (isErasure_forget mn.vin).trans ih

/-! ## Broadcasts that are too old -/

/-- The hashes that the loop erases from the second map: those of the broadcasts that come right
after one that is too old. -/
def followers (old : CMasternodeBroadcast → Bool) :
    Bool → List (Uint256 × CMasternodeBroadcast) → List Uint256
  | _, [] => []
  | after, entry :: rest =>
    if after then entry.1 :: followers old (old entry.2) rest
    else followers old (old entry.2) rest

/-- The last of some broadcasts is too old. -/
def EndsOld (old : CMasternodeBroadcast → Bool) :
    Bool → List (Uint256 × CMasternodeBroadcast) → Prop
  | after, [] => after = true
  | _, entry :: rest => EndsOld old (old entry.2) rest

section Unfolding

theorem expireLoop_of_not_old (fresh : isOld env entry.2 = false) :
    expireLoop env (entry :: rest) seen = expireLoop env rest seen := by
  cases rest with
  | nil => simp [expireLoop, fresh]
  | cons next rest => rw [expireLoop, fresh, if_neg Bool.false_ne_true]

theorem expireLoop_of_last_old (old : isOld env entry.2 = true) :
    expireLoop env [entry] seen = none := by
  simp [expireLoop, old]

theorem expireLoop_of_old (old : isOld env entry.2 = true) :
    expireLoop env (entry :: next :: rest) seen =
      expireLoop env (next :: rest) (seen.eraseBoth [entry.1] [next.2.getHash net]) := by
  rw [expireLoop, old, if_pos rfl]

end Unfolding

theorem expireLoop_eq_none_iff (entries : List (Uint256 × CMasternodeBroadcast)) :
    expireLoop env entries seen = none ↔ EndsOld (isOld env) false entries := by
  induction entries generalizing seen with
  | nil => simp [expireLoop, EndsOld]
  | cons entry rest ih =>
    rw [EndsOld]
    cases old : isOld env entry.2 with
    | false => rw [expireLoop_of_not_old old, ih]
    | true =>
      cases rest with
      | nil => exact iff_of_true (expireLoop_of_last_old old) rfl
      | cons next rest =>
        rw [expireLoop_of_old old, ih]
        rfl

/-- Otherwise it erases the broadcasts that are too old, and the hashes of those that come after
one. -/
theorem expireLoop_eq_some
    {entries : List (Uint256 × CMasternodeBroadcast)}
    (keyed : ∀ entry ∈ entries, entry.1 = entry.2.getHash net)
    (ends : ¬EndsOld (isOld env) false entries) :
    expireLoop env entries seen =
      some (seen.eraseBoth ((entries.filter fun entry => isOld env entry.2).map Prod.fst)
        (followers (isOld env) false entries)) := by
  induction entries generalizing seen with
  | nil => rfl
  | cons entry rest ih =>
    obtain ⟨-, keyedRest⟩ := List.forall_mem_cons.mp keyed
    rw [EndsOld] at ends
    rw [followers]
    cases old : isOld env entry.2 with
    | false =>
      rw [old] at ends
      rw [expireLoop_of_not_old old, ih keyedRest ends,
        List.filter_cons_of_neg (by simp [old]), if_neg Bool.false_ne_true]
    | true =>
      rw [old] at ends
      cases rest with
      | nil => exact absurd rfl ends
      | cons next rest =>
        have hash := keyedRest next List.mem_cons_self
        have picked : (entry :: next :: rest).filter (fun entry => isOld env entry.2) =
            entry :: (next :: rest).filter fun entry => isOld env entry.2 :=
          List.filter_cons_of_pos old
        rw [expireLoop_of_old old, ih keyedRest ends, picked, followers,
          followers, if_pos rfl, if_neg Bool.false_ne_true, if_neg Bool.false_ne_true, ← hash]
        rfl

/-- In the order of their hashes the last broadcast is not too old, and where the hash of one is
held, that one is too old exactly when the one before it is. -/
def EvenRows (old : CMasternodeBroadcast → Bool) (held : Uint256 → Prop) :
    Bool → List (Uint256 × CMasternodeBroadcast) → Prop
  | after, [] => after = false
  | after, entry :: rest =>
    (held entry.1 → old entry.2 = after) ∧ EvenRows old held (old entry.2) rest

theorem followers_subset (old : CMasternodeBroadcast → Bool) (after : Bool)
    (entries : List (Uint256 × CMasternodeBroadcast)) :
    followers old after entries ⊆ entries.map Prod.fst := by
  induction entries generalizing after with
  | nil => exact List.Subset.refl []
  | cons entry rest ih =>
    rw [followers, List.map_cons]
    have onward := ih (old entry.2)
    split_ifs
    · exact List.cons_subset_cons _ onward
    · exact List.subset_cons_of_subset _ onward

/-- Of the hashes that are held exactly those of the old broadcasts are erased, and none is read at
the end, exactly when the rows are even. -/
theorem evenRows_iff
    (distinct : (entries.map Prod.fst).Nodup) :
    EvenRows old held after entries ↔
      ¬EndsOld old after entries ∧
        ∀ hash, held hash → (hash ∈ followers old after entries ↔
          hash ∈ (entries.filter fun entry => old entry.2).map Prod.fst) := by
  induction entries generalizing after with
  | nil => simp [EvenRows, EndsOld, followers]
  | cons entry rest ih =>
    obtain ⟨fresh, distinctRest⟩ := List.nodup_cons.mp distinct
    have notFollower : entry.1 ∉ followers old (old entry.2) rest := fun member =>
      fresh (followers_subset _ _ _ member)
    have notOld : entry.1 ∉ (rest.filter fun entry => old entry.2).map Prod.fst := by
      intro member
      obtain ⟨other, there, same⟩ := List.mem_map.mp member
      exact fresh (same ▸ List.mem_map_of_mem (List.mem_of_mem_filter there))
    have follows : ∀ hash, hash ∈ followers old after (entry :: rest) ↔
        hash = entry.1 ∧ after = true ∨ hash ∈ followers old (old entry.2) rest := by
      intro hash
      rw [followers]
      cases after <;> simp
    have isOne : ∀ hash, hash ∈ ((entry :: rest).filter fun entry => old entry.2).map Prod.fst ↔
        hash = entry.1 ∧ old entry.2 = true ∨
          hash ∈ (rest.filter fun entry => old entry.2).map Prod.fst := by
      intro hash
      cases isOld : old entry.2 <;> simp [isOld]
    rw [EvenRows, EndsOld, ih distinctRest]
    constructor
    · rintro ⟨first, ends, others⟩
      refine ⟨ends, fun hash isHeld => ?_⟩
      rw [follows, isOne, others hash isHeld]
      refine or_congr_left' fun _ => and_congr_right fun same => ?_
      rw [first (same ▸ isHeld)]
    · rintro ⟨ends, all⟩
      refine ⟨fun isHeld => ?_, ends, fun hash isHeld => ?_⟩
      · have own := all entry.1 isHeld
        rw [follows, isOne] at own
        simp only [true_and, notFollower, notOld, or_false] at own
        exact Bool.eq_iff_iff.mpr own.symm
      · have both := all hash isHeld
        rw [follows, isOne] at both
        by_cases same : hash = entry.1
        · rw [same]
          exact iff_of_false notFollower notOld
        · simpa only [same, false_and, false_or] using both

/-- After the broadcasts of one kind, erasing those of another but other hashes than theirs erases
both kinds with their hashes exactly when no hash is held for which that makes a difference. -/
theorem IsErasure.eraseBoth_iff
    {middle : SeenBroadcasts net} {first second : CMasternodeBroadcast → Bool}
    {hashes : List Uint256}
    (one : IsErasure seen middle first (seen.hashesOf first))
    (within : hashes ⊆ middle.mapSeenMasternodeBroadcast.entries.map Prod.fst) :
    IsErasure seen (middle.eraseBoth (middle.hashesOf second) hashes)
        (fun mnb => first mnb || second mnb)
        (seen.hashesOf fun mnb => first mnb || second mnb) ↔
      ∀ hash, (seen.mapSeenSyncMNB.get? hash).isSome = true →
        (hash ∈ hashes ↔ hash ∈ middle.hashesOf second) := by
  have left : ∀ hash, (middle.eraseBoth (middle.hashesOf second) hashes).mapSeenSyncMNB.get? hash =
      if hash ∈ hashes then none else middle.mapSeenSyncMNB.get? hash := fun hash =>
    SortedMap.get?_eraseAll _ _ hash
  have kinds : ∀ hash, hash ∈ middle.hashesOf second →
      hash ∈ middle.mapSeenMasternodeBroadcast.entries.map Prod.fst := by
    intro hash member
    obtain ⟨mnb, there, -⟩ := mem_hashesOf.mp member
    exact List.mem_map_of_mem there
  constructor
  · intro erasure hash isHeld
    have after := erasure.hashes hash
    rw [left, one.hashes] at after
    obtain ⟨count, held⟩ := Option.isSome_iff_exists.mp isHeld
    have either := @mem_hashesOf_or net seen middle first second hash one.broadcasts
    by_cases isHash : hash ∈ hashes
    · have gone := not_mem_hashesOf one.broadcasts (within isHash)
      refine iff_of_true isHash ?_
      by_contra notSecond
      rw [if_pos isHash, if_neg fun erased => (either.mp erased).elim notSecond gone, held]
        at after
      cases after
    · refine iff_of_false isHash fun isSecond => ?_
      have gone := not_mem_hashesOf one.broadcasts (kinds hash isSecond)
      rw [if_neg isHash, if_neg gone, if_pos (either.mpr (.inl isSecond)), held] at after
      cases after
  · intro same
    refine ⟨?_, fun hash => ?_⟩
    · have others := middle.mapSeenMasternodeBroadcast.entries_eraseAll_filter
        fun entry => second entry.2
      rw [← hashesOf_eq, one.broadcasts, List.filter_filter] at others
      refine others.trans (List.filter_congr fun entry _ => ?_)
      rw [Bool.not_or, Bool.and_comm]
    · have either := @mem_hashesOf_or net seen middle first second hash one.broadcasts
      rw [left, one.hashes]
      cases held : seen.mapSeenSyncMNB.get? hash with
      | none => simp
      | some count =>
        have here := same hash (by rw [held]; rfl)
        by_cases isHash : hash ∈ hashes
        · rw [if_pos isHash, if_pos (either.mpr (.inl (here.mp isHash)))]
        · by_cases isFirst : hash ∈ seen.hashesOf first
          · rw [if_neg isHash, if_pos isFirst, if_pos (either.mpr (.inr isFirst))]
          · rw [if_neg isHash, if_neg isFirst, if_neg]
            exact fun erased => (either.mp erased).elim (fun two => isHash (here.mpr two)) isFirst

end SeenBroadcasts

namespace MasternodeTables

variable {net : MasternodeNet} (env : MasternodeEnv) (lockMempool forceExpiredRemoval : Bool)
  (tables : MasternodeTables net)

/-- The entries after `CMasternodeMan::Check`. -/
def checked : List MasternodeRecord :=
  if env.lockMain && lockMempool then tables.vMasternodes.map (MasternodeRecord.check env false)
  else tables.vMasternodes

/-- `CheckAndRemove` removes an entry. -/
def isRemoved (mn : MasternodeRecord) : Bool :=
  CMasternodeMan.isRemoved env forceExpiredRemoval mn.toCMasternode

/-- The first loop of `CheckAndRemove`: the entries, and the broadcasts that are still noted. -/
def removeInactive : List MasternodeRecord × SeenBroadcasts net :=
  let mns := tables.checked env lockMempool
  eraseLoop MasternodeRecord.assign (isRemoved env forceExpiredRemoval)
    (fun mn => SeenBroadcasts.forget mn.vin) mns.length mns tables.toSeenBroadcasts

/-- `CheckAndRemove`; no result where an entry is read at the end of a map. -/
def checkAndRemove : Option (MasternodeTables net) := do
  let (vMasternodes, seen) := tables.removeInactive env lockMempool forceExpiredRemoval
  let seen ← seen.expire env
  let pings := tables.mapSeenMasternodePing
  pure
    { seen with
      vMasternodes := vMasternodes
      mapSeenMasternodePing := pings.eraseAll ((pings.entries.filter fun entry =>
        entry.2.sigTime < env.time - masternodeRemovalSeconds * 2).map Prod.fst) }

/-- The entries that are not removed. -/
def kept : List MasternodeRecord :=
  (tables.checked env lockMempool).filter fun mn => !isRemoved env forceExpiredRemoval mn

/-- The entries that are removed. -/
def dropped : List MasternodeRecord :=
  (tables.checked env lockMempool).filter (isRemoved env forceExpiredRemoval)

theorem removeInactive_eq :
    tables.removeInactive env lockMempool forceExpiredRemoval =
      (List.zipWith MasternodeRecord.assign (tables.checked env lockMempool)
          (tables.kept env lockMempool forceExpiredRemoval),
        (tables.dropped env lockMempool forceExpiredRemoval).foldl
          (fun seen mn => seen.forget mn.vin) tables.toSeenBroadcasts) := by
  have loop := @PartialAssign.eraseLoop_zipWith _ _ (SeenBroadcasts net)
    (isRemoved env forceExpiredRemoval) (fun mn => SeenBroadcasts.forget mn.vin)
    MasternodeRecord.partialAssign_assign (fun _ _ => rfl) (fun _ _ => rfl)
    (tables.checked env lockMempool).length (tables.checked env lockMempool)
    (tables.checked env lockMempool) tables.toSeenBroadcasts (le_refl _) (le_refl _)
  rw [MasternodeRecord.partialAssign_assign.zipWith_self] at loop
  exact loop

/-- A broadcast is one of a removed masternode, or too old. -/
def isErased (mnb : CMasternodeBroadcast) : Bool :=
  ((tables.dropped env lockMempool forceExpiredRemoval).any fun mn => mnb.vin = mn.vin) ||
    SeenBroadcasts.isOld env mnb

/-- The broadcasts that are not of a removed masternode, in the order of their hashes. -/
def remaining : List (Uint256 × CMasternodeBroadcast) :=
  tables.mapSeenMasternodeBroadcast.entries.filter fun entry =>
    !(tables.dropped env lockMempool forceExpiredRemoval).any fun mn => entry.2.vin = mn.vin

/-- `CheckAndRemove` erases exactly the broadcasts of removed masternodes and those that are too
old, with their hashes in the second map, and reads nothing at the end of a map, if and only if the
rows of old broadcasts among the others are even. -/
theorem checkAndRemove_exact_iff :
    (∃ after, tables.checkAndRemove env lockMempool forceExpiredRemoval = some after ∧
      SeenBroadcasts.IsErasure tables.toSeenBroadcasts after.toSeenBroadcasts
        (tables.isErased env lockMempool forceExpiredRemoval)
        (tables.hashesOf (tables.isErased env lockMempool forceExpiredRemoval))) ↔
      SeenBroadcasts.EvenRows (SeenBroadcasts.isOld env)
        (fun hash => (tables.mapSeenSyncMNB.get? hash).isSome = true) false
        (tables.remaining env lockMempool forceExpiredRemoval) := by
  have forgotten := @SeenBroadcasts.isErasure_foldl_forget net tables.toSeenBroadcasts
    (tables.dropped env lockMempool forceExpiredRemoval)
  have loops := tables.removeInactive_eq env lockMempool forceExpiredRemoval
  generalize (tables.dropped env lockMempool forceExpiredRemoval).foldl
    (fun seen mn => seen.forget mn.vin) tables.toSeenBroadcasts = middle at forgotten loops
  have left : middle.mapSeenMasternodeBroadcast.entries =
      tables.remaining env lockMempool forceExpiredRemoval := forgotten.broadcasts
  have distinct := middle.mapSeenMasternodeBroadcast.nodup_keys
  have keyed := middle.keyed
  rw [left] at distinct keyed
  rw [SeenBroadcasts.evenRows_iff distinct]
  by_cases ends : SeenBroadcasts.EndsOld (SeenBroadcasts.isOld env) false
      (tables.remaining env lockMempool forceExpiredRemoval)
  · have stuck := (@SeenBroadcasts.expireLoop_eq_none_iff net env middle _).mpr ends
    refine iff_of_false ?_ fun both => both.1 ends
    rintro ⟨after, result, -⟩
    simp only [checkAndRemove, loops, SeenBroadcasts.expire, left, stuck] at result
    cases result
  · have expired := @SeenBroadcasts.expireLoop_eq_some net env middle _ keyed ends
    have olds : middle.hashesOf (SeenBroadcasts.isOld env) =
        ((tables.remaining env lockMempool forceExpiredRemoval).filter fun entry =>
          SeenBroadcasts.isOld env entry.2).map Prod.fst := by
      rw [SeenBroadcasts.hashesOf_eq, left]
    rw [← olds] at expired ⊢
    have result : ∃ after, tables.checkAndRemove env lockMempool forceExpiredRemoval = some after ∧
        after.toSeenBroadcasts = middle.eraseBoth (middle.hashesOf (SeenBroadcasts.isOld env))
          (SeenBroadcasts.followers (SeenBroadcasts.isOld env) false
            (tables.remaining env lockMempool forceExpiredRemoval)) := by
      simp only [checkAndRemove, loops, SeenBroadcasts.expire, left, expired]
      exact ⟨_, rfl, rfl⟩
    obtain ⟨after, result, same⟩ := result
    have within := SeenBroadcasts.followers_subset (SeenBroadcasts.isOld env) false
      (tables.remaining env lockMempool forceExpiredRemoval)
    rw [← left] at within
    have whole := @SeenBroadcasts.IsErasure.eraseBoth_iff net tables.toSeenBroadcasts middle _
      (SeenBroadcasts.isOld env) _ forgotten within
    rw [left, ← same] at whole
    constructor
    · rintro ⟨other, same, erasure⟩
      obtain rfl := Option.some.inj (result.symm.trans same)
      exact ⟨ends, whole.mp erasure⟩
    · rintro ⟨-, even⟩
      exact ⟨after, result, whole.mpr even⟩

/-- Nothing but broadcasts, made at some times. -/
def openTables (times : List Int) : MasternodeTables openNet where
  toSeenBroadcasts := times.foldl
    (fun seen time => SeenBroadcasts.note seen (openBroadcast time)) (SeenBroadcasts.empty openNet)
  vMasternodes := []
  mapSeenMasternodePing := .empty

/-- Of an old broadcast and one that is not, the hash of the second goes; and where the old one is
the last, an entry is read at the end. -/
theorem checkAndRemove_erases_neighbour :
    ((openTables [1, 10000]).checkAndRemove (openEnv 20000) true false).map (fun after =>
        (after.mapSeenSyncMNB.get? 1001, after.mapSeenSyncMNB.get? 10000001)) =
      some (some 1, none) ∧
    (openTables [1]).checkAndRemove (openEnv 20000) true false = none := by
  refine And.intro ?_ ?_
  · rfl
  · rfl

/-- `Remove` leaves the other entries as they were exactly when each has the fields that its new
place keeps; and so does the removal of inactive entries by `CheckAndRemove`. -/
theorem removal_keeps_iff
    (vin : CTxIn) (mns : List MasternodeRecord)
    (env : MasternodeEnv) (lockMempool forceExpiredRemoval : Bool)
    (tables : MasternodeTables net) :
    (MasternodeRecord.remove vin mns = mns.eraseP (fun mn => mn.vin = vin) ↔
      MasternodeRecord.Undisturbed mns (mns.eraseP fun mn => mn.vin = vin)) ∧
    ((tables.removeInactive env lockMempool forceExpiredRemoval).1 =
          tables.kept env lockMempool forceExpiredRemoval ↔
      MasternodeRecord.Undisturbed (tables.checked env lockMempool)
        (tables.kept env lockMempool forceExpiredRemoval)) := by
  constructor
  · rw [MasternodeRecord.remove_eq_zipWith]
    exact MasternodeRecord.zipWith_assign_eq_iff List.length_eraseP_le
  · rw [removeInactive_eq]
    exact MasternodeRecord.zipWith_assign_eq_iff (List.length_filter_le _ _)

/-- An entry for an output of the collateral, with the time of its last old announcement. -/
def openRecord (n : Nat) (nLastDsee : Int) : MasternodeRecord :=
  { CMasternode.ofBroadcast (openBroadcast 1) with
    vin := { CTxIn.empty with prevout := ⟨7, n⟩ }
    pubKeyCollateralAddress1 := []
    pubKeyMasternode1 := []
    unitTest := false
    allowFreeTx := true
    nActiveState := .enabled
    nScanningErrorCount := 0
    nLastScanningErrorBlockHeight := 0
    nLastDsee := nLastDsee
    nLastDseep := 0 }

/-- The entry behind a removed one takes over the time of the other's last announcement. -/
theorem remove_loses_nLastDsee :
    MasternodeRecord.remove (openRecord 0 0).vin [openRecord 0 0, openRecord 1 1500000000] =
      [openRecord 1 0] := by
  decide

end MasternodeTables

end ColossusCoin
