import ColossusCoin.Masternode.BudgetMessages

/-!
# Votes that are not lost

Where a genuine vote is kept after any run of messages: with its item once that is known,
and among the waiting votes before.  What a run has to avoid for that is said message by
message.
-/

namespace ColossusCoin

open BudgetBallot

namespace BudgetBallot

variable [BudgetBallot Vote]

theorem eq_of_addOrUpdateVote
    {vote : Vote}
    (taken : addOrUpdateVote hashes time mapVotes vote = .ok updated) :
    updated = Function.update mapVotes (masternode vote) (some vote) := by
  unfold addOrUpdateVote at taken
  cases refused : refusal hashes mapVotes vote with
  | some error => simp [refused] at taken
  | none =>
    simp only [refused] at taken
    split_ifs at taken
    exact (Except.ok.inj taken).symm

/-- The first vote of a masternode is taken, unless it is too far ahead. -/
theorem addOrUpdateVote_of_none
    (hashes : BudgetHashes) {vote : Vote}
    (first : mapVotes (masternode vote) = none)
    (onTime : nTime vote ≤ time + 60 * 60) :
    addOrUpdateVote hashes time mapVotes vote =
      .ok (Function.update mapVotes (masternode vote) (some vote)) := by
  unfold addOrUpdateVote refusal
  simp only [first]
  exact if_neg (not_lt.mpr onTime)

/-- Of the votes that arrived no other one is by the same masternode for the same item. -/
def Alone (Arrived : Vote → Prop) (vote : Vote) : Prop :=
  ∀ other, Arrived other → nItemHash other = nItemHash vote →
    masternode other = masternode vote → other = vote

end BudgetBallot

namespace VoteBook

variable [BudgetBallot Vote]

/-- A vote is kept by its item, or waits for it. -/
def Holds (book : VoteBook Vote) (vote : Vote) : Prop :=
  match book.mapItems (nItemHash vote) with
  | none => book.mapOrphanVotes.get? (nItemHash vote) = some vote
  | some mapVotes => mapVotes (masternode vote) = some vote

theorem holds_of_unknown
    {book : VoteBook Vote}
    (unknown : book.mapItems (nItemHash vote) = none) :
    book.Holds vote ↔ book.mapOrphanVotes.get? (nItemHash vote) = some vote := by
  simp [Holds, unknown]

theorem holds_of_known
    {book : VoteBook Vote} {vote : Vote} {mapVotes : VoteMap Vote}
    (known : book.mapItems (nItemHash vote) = some mapVotes) :
    book.Holds vote ↔ mapVotes (masternode vote) = some vote := by
  simp [Holds, known]

theorem holds_congr
    {book other : VoteBook Vote} {vote : Vote}
    (items : other.mapItems (nItemHash vote) = book.mapItems (nItemHash vote))
    (orphans : other.mapOrphanVotes.get? (nItemHash vote) =
      book.mapOrphanVotes.get? (nItemHash vote)) :
    other.Holds vote ↔ book.Holds vote := by
  unfold Holds
  rw [items, orphans]

/-- A vote that is put among those that wait is held, if its item is not known. -/
theorem holds_insert
    {book : VoteBook Vote}
    (unknown : book.mapItems (nItemHash vote) = none) :
    ({ book with mapOrphanVotes := book.mapOrphanVotes.insert (nItemHash vote) vote } :
      VoteBook Vote).Holds vote := by
  unfold Holds
  rw [unknown]
  exact SortedMap.get?_insert_self _ _ _

/-- The votes in a book arrived, and stand where they belong. -/
structure Sound (Arrived : Vote → Prop) (book : VoteBook Vote) : Prop where
  items : ∀ {hash mapVotes outpoint vote}, book.mapItems hash = some mapVotes →
    mapVotes outpoint = some vote →
      Arrived vote ∧ nItemHash vote = hash ∧ masternode vote = outpoint
  orphans : ∀ {hash vote}, book.mapOrphanVotes.get? hash = some vote →
    Arrived vote ∧ nItemHash vote = hash

/-- Besides, the votes that arrived alone are held. -/
structure Kept (Arrived : Vote → Prop) (book : VoteBook Vote) : Prop
    extends Sound Arrived book where
  holds : ∀ {vote}, Arrived vote → Alone Arrived vote → book.Holds vote

/-- Once an item is known, it keeps all votes for it that arrived alone. -/
def NoVoteLost (Arrived : Vote → Prop) (book : VoteBook Vote) : Prop :=
  ∀ hash mapVotes, book.mapItems hash = some mapVotes →
    ∀ vote, Arrived vote → Alone Arrived vote → nItemHash vote = hash →
      mapVotes (masternode vote) = some vote

theorem Kept.noVoteLost
    {book : VoteBook Vote}
    (kept : Kept Arrived book) :
    NoVoteLost Arrived book := by
  rintro hash mapVotes known vote arrived alone rfl
  exact (holds_of_known known).mp (kept.holds arrived alone)

theorem Sound.mono
    {book : VoteBook Vote}
    (sound : Sound Arrived book)
    (included : ∀ vote, Arrived vote → Later vote) :
    Sound Later book where
  items known kept := (sound.items known kept).imp_left (included _)
  orphans waits := (sound.orphans waits).imp_left (included _)

theorem Sound.congr
    {book other : VoteBook Vote}
    (sound : Sound Arrived book)
    (items : other.mapItems = book.mapItems)
    (orphans : other.mapOrphanVotes = book.mapOrphanVotes) :
    Sound Arrived other where
  items known := sound.items (items ▸ known)
  orphans waits := sound.orphans (orphans ▸ waits)

theorem Kept.congr
    {Arrived : Vote → Prop} {book other : VoteBook Vote}
    (kept : Kept Arrived book)
    (items : other.mapItems = book.mapItems)
    (orphans : other.mapOrphanVotes = book.mapOrphanVotes) :
    Kept Arrived other where
  toSound := kept.toSound.congr items orphans
  holds arrived alone :=
    (holds_congr (congrFun items _) (by rw [orphans])).mpr (kept.holds arrived alone)

theorem Sound.eq_of_alone
    {mapVotes : VoteMap Vote}
    (sound : Sound Arrived book)
    (known : book.mapItems (nItemHash vote) = some mapVotes)
    (kept : mapVotes (masternode vote) = some held)
    (alone : Alone Arrived vote) :
    held = vote := by
  obtain ⟨arrived, sameItem, sameMasternode⟩ := sound.items known kept
  exact alone held arrived sameItem sameMasternode

theorem update_cases
    (hashes : BudgetHashes) (env : BudgetEnv Vote) (fromPeer : Bool)
    (book : VoteBook Vote) (vote : Vote) :
    book.update hashes env fromPeer vote = (false, book) ∨
      (book.mapItems (nItemHash vote) = none ∧ fromPeer = true ∧
        book.update hashes env fromPeer vote =
          (false,
            { book with
              mapOrphanVotes := book.mapOrphanVotes.insert (nItemHash vote) vote })) ∨
      ∃ mapVotes, book.mapItems (nItemHash vote) = some mapVotes ∧
        book.update hashes env fromPeer vote =
          (true,
            { book with
              mapItems := Function.update book.mapItems (nItemHash vote)
                (some (Function.update mapVotes (masternode vote) (some vote))) }) := by
  unfold update
  cases known : book.mapItems (nItemHash vote) with
  | none =>
    split_ifs with waits
    · rw [Bool.and_eq_true] at waits
      exact .inr (.inl ⟨rfl, waits.1, rfl⟩)
    · exact .inl rfl
  | some mapVotes =>
    dsimp only
    cases taken : addOrUpdateVote hashes env.time mapVotes vote with
    | error _ => exact .inl rfl
    | ok updated =>
      rw [eq_of_addOrUpdateVote taken]
      exact .inr (.inr ⟨mapVotes, rfl, rfl⟩)

variable {Arrived : Vote → Prop} {book : VoteBook Vote}

theorem Sound.update
    (sound : Sound Arrived book)
    (hashes : BudgetHashes) (env : BudgetEnv Vote) (fromPeer : Bool)
    (arrived : Arrived vote) :
    Sound Arrived (book.update hashes env fromPeer vote).2 := by
  rcases update_cases hashes env fromPeer book vote with
    same | ⟨_, _, waits⟩ | ⟨mapVotes, known, taken⟩
  · rw [same]
    exact sound
  · rw [waits]
    refine ⟨sound.items, ?_⟩
    intro hash other found
    rw [SortedMap.get?_insert] at found
    split_ifs at found with named
    · cases found
      exact ⟨arrived, named.symm⟩
    · exact sound.orphans found
  · rw [taken]
    refine ⟨?_, sound.orphans⟩
    intro hash votes outpoint other item kept
    dsimp only at item
    rw [Function.update_apply] at item
    split_ifs at item with named
    · cases item
      rw [Function.update_apply] at kept
      split_ifs at kept with by_
      · cases kept
        exact ⟨arrived, named.symm, by_.symm⟩
      · exact (sound.items known kept).imp_right (And.imp_left (·.trans named.symm))
    · exact sound.items item kept

/-- An update loses no vote that arrived alone, unless it takes its place among the
waiting votes. -/
theorem holds_update
    {hashes : BudgetHashes} {env : BudgetEnv Vote} {fromPeer : Bool} {vote other : Vote}
    (arrived : Arrived vote)
    (place : fromPeer = true → book.mapItems (nItemHash vote) = none →
      ∀ waiting ∈ book.mapOrphanVotes.get? (nItemHash vote), waiting = vote)
    (holds : book.Holds other)
    (alone : Alone Arrived other) :
    (book.update hashes env fromPeer vote).2.Holds other := by
  rcases update_cases hashes env fromPeer book vote with
    same | ⟨unknown, peer, waits⟩ | ⟨mapVotes, known, taken⟩
  · rw [same]
    exact holds
  · rw [waits]
    by_cases sameItem : nItemHash other = nItemHash vote
    · rw [holds_of_unknown (by rw [sameItem]; exact unknown), sameItem] at holds
      obtain rfl := place peer unknown other holds
      exact holds_insert unknown
    · refine (holds_congr ?_ ?_).mpr holds
      · rfl
      · exact (SortedMap.get?_insert _ _ _ _).trans (if_neg sameItem)
  · rw [taken]
    by_cases sameItem : nItemHash other = nItemHash vote
    · rw [holds_of_known (by rw [sameItem]; exact known)] at holds
      rw [holds_of_known (by dsimp only; rw [sameItem, Function.update_self]),
        Function.update_apply]
      split_ifs with sameMasternode
      · rw [alone vote arrived sameItem.symm sameMasternode.symm]
      · exact holds
    · refine (holds_congr ?_ ?_).mpr holds
      · exact Function.update_of_ne sameItem _ _
      · rfl

theorem holds_update_self
    (sound : Sound Arrived book)
    (hashes : BudgetHashes) {env : BudgetEnv Vote} (fromPeer : Bool)
    {mapVotes : VoteMap Vote}
    (alone : Alone Arrived vote)
    (arrived : Arrived vote)
    (known : book.mapItems (nItemHash vote) = some mapVotes)
    (onTime : nTime vote ≤ env.time + 60 * 60) :
    (book.update hashes env fromPeer vote).2.Holds vote := by
  cases kept : mapVotes (masternode vote) with
  | some held =>
    obtain rfl := sound.eq_of_alone known kept alone
    apply holds_update arrived _ ((holds_of_known known).mpr kept) alone
    intro _ unknown
    rw [known] at unknown
    cases unknown
  | none =>
    have taken := addOrUpdateVote_of_none hashes kept onTime
    unfold update
    simp only [known, taken]
    rw [holds_of_known (Function.update_self _ _ _), Function.update_self]

theorem mapItems_checkOrphanVote_isSome
    (hashes : BudgetHashes) (env : BudgetEnv Vote) (key hash : Uint256)
    (known : (book.mapItems hash).isSome) :
    ((book.checkOrphanVote hashes env key).mapItems hash).isSome := by
  unfold checkOrphanVote
  cases book.mapOrphanVotes.get? key with
  | none => exact known
  | some vote =>
    dsimp only
    rcases update_cases hashes env false book vote with
      same | ⟨_, peer, _⟩ | ⟨mapVotes, _, taken⟩
    · rw [same]
      exact known
    · cases peer
    · rw [taken]
      dsimp only
      rw [Function.update_apply]
      split_ifs
      · rfl
      · exact known

theorem get?_checkOrphanVote_of_ne
    (hashes : BudgetHashes) (env : BudgetEnv Vote) {key hash : Uint256}
    (different : hash ≠ key) :
    (book.checkOrphanVote hashes env key).mapOrphanVotes.get? hash =
      book.mapOrphanVotes.get? hash := by
  unfold checkOrphanVote
  cases book.mapOrphanVotes.get? key with
  | none => rfl
  | some vote =>
    dsimp only
    rcases update_cases hashes env false book vote with
      same | ⟨_, peer, _⟩ | ⟨mapVotes, _, taken⟩
    · rw [same]
    · cases peer
    · rw [taken]
      exact (SortedMap.get?_erase _ _ _).trans (if_neg different)

theorem Sound.checkOrphanVote
    (sound : Sound Arrived book)
    (hashes : BudgetHashes) (env : BudgetEnv Vote) (key : Uint256) :
    Sound Arrived (book.checkOrphanVote hashes env key) := by
  unfold VoteBook.checkOrphanVote
  cases waits : book.mapOrphanVotes.get? key with
  | none => exact sound
  | some vote =>
    have updated := sound.update hashes env false (sound.orphans waits).1
    dsimp only
    generalize book.update hashes env false vote = outcome at updated ⊢
    obtain ⟨taken, next⟩ := outcome
    cases taken with
    | false => exact updated
    | true => exact ⟨updated.items, fun found => updated.orphans (SortedMap.get?_of_erase found)⟩

theorem holds_checkOrphanVote
    (sound : Sound Arrived book)
    (hashes : BudgetHashes) (env : BudgetEnv Vote) (key : Uint256) {vote : Vote}
    (holds : book.Holds vote)
    (alone : Alone Arrived vote) :
    (book.checkOrphanVote hashes env key).Holds vote := by
  unfold checkOrphanVote
  cases waits : book.mapOrphanVotes.get? key with
  | none => exact holds
  | some waiting =>
    obtain ⟨arrived, rfl⟩ := sound.orphans waits
    have updated := @holds_update _ _ _ book hashes env false waiting vote arrived
      (fun peer => by cases peer) holds alone
    dsimp only
    rcases update_cases hashes env false book waiting with
      same | ⟨_, peer, _⟩ | ⟨mapVotes, _, taken⟩
    · rw [same]
      exact holds
    · cases peer
    · rw [taken] at updated ⊢
      by_cases sameItem : nItemHash vote = nItemHash waiting
      · rw [holds_of_known (by dsimp only; rw [sameItem, Function.update_self])]
          at updated ⊢
        exact updated
      · refine (holds_congr ?_ ?_).mpr updated
        · rfl
        · exact (SortedMap.get?_erase _ _ _).trans (if_neg sameItem)

theorem holds_checkOrphanVote_self
    (sound : Sound Arrived book)
    (hashes : BudgetHashes) {env : BudgetEnv Vote}
    (alone : Alone Arrived vote)
    (known : (book.mapItems (nItemHash vote)).isSome)
    (waits : book.mapOrphanVotes.get? (nItemHash vote) = some vote)
    (onTime : nTime vote ≤ env.time + 60 * 60) :
    (book.checkOrphanVote hashes env (nItemHash vote)).Holds vote := by
  obtain ⟨mapVotes, known⟩ := Option.isSome_iff_exists.mp known
  have updated := holds_update_self sound hashes false alone (sound.orphans waits).1 known
    onTime
  unfold checkOrphanVote
  simp only [waits]
  rcases update_cases hashes env false book vote with
    same | ⟨unknown, _, _⟩ | ⟨votes, _, taken⟩
  · rw [same] at updated ⊢
    exact updated
  · rw [known] at unknown
    cases unknown
  · rw [taken] at updated ⊢
    rw [holds_of_known (Function.update_self _ _ _)] at updated ⊢
    exact updated

theorem foldl_checkOrphanVote_preserves
    (sound : Sound Arrived book)
    (hashes : BudgetHashes) (env : BudgetEnv Vote) (keys : List Uint256) :
    Sound Arrived (keys.foldl (checkOrphanVote hashes env) book) ∧
      ∀ vote, book.Holds vote → Alone Arrived vote →
        (keys.foldl (checkOrphanVote hashes env) book).Holds vote := by
  induction keys generalizing book with
  | nil => exact ⟨sound, fun _ holds _ => holds⟩
  | cons key rest ih =>
    have round := sound.checkOrphanVote hashes env key
    obtain ⟨soundRest, holdsRest⟩ := ih round
    refine ⟨soundRest, ?_⟩
    intro vote holds alone
    exact holdsRest vote (holds_checkOrphanVote sound hashes env key holds alone) alone

theorem holds_foldl_checkOrphanVote
    (sound : Sound Arrived book)
    (hashes : BudgetHashes) {keys : List Uint256}
    (alone : Alone Arrived vote)
    (known : (book.mapItems (nItemHash vote)).isSome)
    (waits : book.mapOrphanVotes.get? (nItemHash vote) = some vote)
    (onTime : nTime vote ≤ env.time + 60 * 60)
    (visited : nItemHash vote ∈ keys) :
    (keys.foldl (checkOrphanVote hashes env) book).Holds vote := by
  induction keys generalizing book with
  | nil => cases visited
  | cons key rest ih =>
    have round := sound.checkOrphanVote hashes env key
    by_cases here : nItemHash vote = key
    · subst here
      have holds := holds_checkOrphanVote_self sound hashes alone known waits onTime
      exact (foldl_checkOrphanVote_preserves round hashes env rest).2 vote holds alone
    · apply ih round
        (mapItems_checkOrphanVote_isSome hashes env key _ known)
      · rw [get?_checkOrphanVote_of_ne hashes env here]
        exact waits
      · exact (List.mem_cons.mp visited).resolve_left here

theorem Kept.checkOrphanVotes
    (kept : Kept Arrived book)
    (hashes : BudgetHashes) (env : BudgetEnv Vote) :
    Kept Arrived (book.checkOrphanVotes hashes env) := by
  obtain ⟨sound, holds⟩ := foldl_checkOrphanVote_preserves kept.toSound hashes env
    (book.mapOrphanVotes.entries.map Prod.fst)
  exact ⟨sound, fun arrived alone => holds _ (kept.holds arrived alone) alone⟩

/-- What keeps a vote that arrives: unless it is not genuine or is held already, the node
is ready and has seen no message with its hash; the item of the vote is known and the vote
is not too far ahead, or the node is synced and no vote waits for the item. -/
def FairVote (hashes : BudgetHashes) (env : BudgetEnv Vote) (book : VoteBook Vote)
    (vote : Vote) : Prop :=
  env.signatureValid vote = true →
    book.Holds vote ∨
      (env.isReady = true ∧ book.mapSeenVotes (getHash hashes vote) = none ∧
        match book.mapItems (nItemHash vote) with
        | none =>
          env.isSynced = true ∧ book.mapOrphanVotes.get? (nItemHash vote) = none
        | some _ => nTime vote ≤ env.time + 60 * 60)

/-- What keeps a vote that waits: when its item is taken, it is not too far ahead. -/
def FairItem (env : BudgetEnv Vote) (book : VoteBook Vote) (hash : Uint256) : Prop :=
  (book.processItem env hash).1 = true →
    ∀ vote ∈ book.mapOrphanVotes.get? hash, nTime vote ≤ env.time + 60 * 60

/-- What `ProcessMessage` does to a vote that is not dropped at once. -/
theorem processVote_cases
    (hashes : BudgetHashes) (env : BudgetEnv Vote) (book : VoteBook Vote) (vote : Vote) :
    (book.processVote hashes env vote = book ∧
      (env.signatureValid vote = true → env.isReady = true →
        book.mapSeenVotes (getHash hashes vote) ≠ none)) ∨
    ∃ seen : VoteBook Vote, seen.mapItems = book.mapItems ∧
      seen.mapOrphanVotes = book.mapOrphanVotes ∧
        book.processVote hashes env vote =
          if env.signatureValid vote then (seen.update hashes env true vote).2 else seen := by
  unfold processVote
  by_cases ready : env.isReady = true
  · cases known : book.mapSeenVotes (getHash hashes vote) with
    | some earlier =>
      refine .inl ⟨by simp, fun _ _ => Option.some_ne_none earlier⟩
    | none =>
      by_cases found : env.knowsMasternode (masternode vote) = true
      · refine .inr
          ⟨{ book with
              mapSeenVotes :=
                Function.update book.mapSeenVotes (getHash hashes vote) (some vote) },
            rfl, rfl, ?_⟩
        cases env.signatureValid vote <;> simp [ready, found]
      · have notGenuine : env.signatureValid vote = false := by
          simp [BudgetEnv.signatureValid, found]
        refine .inl ⟨by simp [ready, found], fun genuine => ?_⟩
        rw [notGenuine] at genuine
        cases genuine
  · exact .inl ⟨by simp [ready], fun _ nowReady => absurd nowReady ready⟩

theorem Kept.processVote
    (kept : Kept Arrived book)
    {hashes : BudgetHashes} {env : BudgetEnv Vote}
    (fair : book.FairVote hashes env vote) :
    Kept (fun other => Arrived other ∨ (other = vote ∧ env.signatureValid vote = true))
      (book.processVote hashes env vote) := by
  set Later : Vote → Prop :=
    fun other => Arrived other ∨ (other = vote ∧ env.signatureValid vote = true) with later
  have aloneBefore : ∀ {other}, Alone Later other → Alone Arrived other :=
    fun alone next arrived => alone next (.inl arrived)
  have sound : Sound Later book := kept.toSound.mono fun _ => .inl
  -- A vote that arrived before is held, and so is the new one if the book stays.
  have held : ∀ {other}, Arrived other → Alone Later other → book.Holds other :=
    fun arrived alone => kept.holds arrived (aloneBefore alone)
  rcases processVote_cases hashes env book vote with ⟨same, dropped⟩ | ⟨seen, items, orphans, taken⟩
  · rw [same]
    refine ⟨sound, ?_⟩
    rintro other (arrived | ⟨rfl, genuine⟩) alone
    · exact held arrived alone
    · rcases fair genuine with holds | ⟨ready, unseen, _⟩
      · exact holds
      · exact absurd unseen (dropped genuine ready)
  · have soundSeen : Sound Later seen := sound.congr items orphans
    have holdsSeen : ∀ {other}, book.Holds other → seen.Holds other :=
      fun holds => (holds_congr (congrFun items _) (by rw [orphans])).mpr holds
    rw [taken]
    by_cases genuine : env.signatureValid vote = true
    · rw [if_pos genuine]
      have arrivedNow : Later vote := .inr ⟨rfl, genuine⟩
      have place : true = true → seen.mapItems (nItemHash vote) = none →
          ∀ waiting ∈ seen.mapOrphanVotes.get? (nItemHash vote), waiting = vote := by
        intro _ unknown waiting waits
        rw [items] at unknown
        rw [orphans] at waits
        rcases fair genuine with holds | ⟨_, _, free⟩
        · rw [holds_of_unknown unknown] at holds
          rw [holds] at waits
          exact (Option.some.inj waits).symm
        · simp only [unknown] at free
          rw [free.2] at waits
          cases waits
      refine ⟨soundSeen.update hashes env true arrivedNow, ?_⟩
      rintro other (arrived | ⟨rfl, _⟩) alone
      · exact holds_update arrivedNow place (holdsSeen (held arrived alone)) alone
      · rcases fair genuine with holds | ⟨_, _, free⟩
        · exact holds_update arrivedNow place (holdsSeen holds) alone
        · cases known : book.mapItems (nItemHash other) with
          | none =>
            simp only [known] at free
            have unknown : seen.mapItems (nItemHash other) = none := by rw [items, known]
            unfold update
            simp only [unknown, free.1, Bool.true_and, if_true]
            exact holds_insert unknown
          | some mapVotes =>
            simp only [known] at free
            exact holds_update_self soundSeen hashes true alone arrivedNow
              ((congrFun items _).trans known) free
    · rw [if_neg genuine]
      refine ⟨soundSeen, ?_⟩
      rintro other (arrived | ⟨_, nowGenuine⟩) alone
      · exact holdsSeen (held arrived alone)
      · exact absurd nowGenuine genuine

omit [BudgetBallot Vote] in
theorem processItem_cases
    (env : BudgetEnv Vote) (book : VoteBook Vote) (hash : Uint256) :
    (book.processItem env hash).2.mapOrphanVotes = book.mapOrphanVotes ∧
      ((book.processItem env hash).2.mapItems = book.mapItems ∨
        ((book.processItem env hash).1 = true ∧ book.mapItems hash = none ∧
          (book.processItem env hash).2.mapItems =
            Function.update book.mapItems hash (some fun _ => none))) := by
  unfold processItem addItem
  dsimp only
  split_ifs <;> simp_all

/-- What an item that is taken leaves of the votes: they arrived, and each is held or
waits for the item. -/
theorem sound_processItem
    (sound : Sound Arrived book)
    (env : BudgetEnv Vote) (hash : Uint256) :
    Sound Arrived (book.processItem env hash).2 := by
  obtain ⟨orphans, same | ⟨_, _, added⟩⟩ := processItem_cases env book hash
  · exact sound.congr same orphans
  · refine ⟨?_, fun waits => sound.orphans (orphans ▸ waits)⟩
    intro other mapVotes outpoint vote known kept
    rw [added, Function.update_apply] at known
    split_ifs at known
    · cases known
      cases kept
    · exact sound.items known kept

/-- A fair item that is taken leaves all votes held, once those that wait are checked. -/
theorem Kept.processItem_checkOrphanVotes
    (kept : Kept Arrived book)
    (hashes : BudgetHashes) {env : BudgetEnv Vote} {hash : Uint256}
    (fair : book.FairItem env hash) :
    Kept Arrived ((book.processItem env hash).2.checkOrphanVotes hashes env) := by
  have sound := sound_processItem kept.toSound env hash
  obtain ⟨orphans, same | ⟨taken, unknown, added⟩⟩ := processItem_cases env book hash
  · exact (kept.congr same orphans).checkOrphanVotes hashes env
  · obtain ⟨soundAfter, holdsAfter⟩ := foldl_checkOrphanVote_preserves sound hashes env
      ((book.processItem env hash).2.mapOrphanVotes.entries.map Prod.fst)
    refine ⟨soundAfter, ?_⟩
    intro vote arrived alone
    have held := kept.holds arrived alone
    by_cases named : nItemHash vote = hash
    · subst named
      rw [holds_of_unknown unknown] at held
      have waits : (book.processItem env (nItemHash vote)).2.mapOrphanVotes.get?
          (nItemHash vote) = some vote := by rw [orphans, held]
      apply holds_foldl_checkOrphanVote sound hashes alone _ waits (fair taken vote held)
      · exact List.mem_map_of_mem ((SortedMap.get?_eq_some_iff _ _ _).mp waits)
      · rw [added, Function.update_self]
        rfl
    · apply holdsAfter vote _ alone
      refine (holds_congr ?_ ?_).mpr held
      · rw [added, Function.update_of_ne named]
      · rw [orphans]

theorem Kept.processItem_of_not_taken
    (kept : Kept Arrived book)
    (env : BudgetEnv Vote) (hash : Uint256)
    (left : (book.processItem env hash).1 = false) :
    Kept Arrived (book.processItem env hash).2 := by
  obtain ⟨orphans, same | ⟨taken, _, _⟩⟩ := processItem_cases env book hash
  · exact kept.congr same orphans
  · rw [left] at taken
    cases taken

end VoteBook

namespace CBudgetManager

/-- A vote for a proposal arrived with a valid signature. -/
def ArrivedProposalVote (trace : List BudgetMessage) (vote : CBudgetVote) : Prop :=
  ∃ env, BudgetMessage.mvote env vote ∈ trace ∧ env.signatureValid vote = true

/-- A vote for a finalized budget arrived with a valid signature. -/
def ArrivedBudgetVote (trace : List BudgetMessage) (vote : CFinalizedBudgetVote) : Prop :=
  ∃ env, BudgetMessage.fbvote env vote ∈ trace ∧ env.signatureValid vote = true

/-- A message that loses no vote. -/
def Fair (hashes : BudgetHashes) (manager : CBudgetManager) : BudgetMessage → Prop
  | .mprop env _ hash => manager.proposals.FairItem env hash
  | .mvote env vote => manager.proposals.FairVote hashes env vote
  | .fbs env _ hash => manager.finalizedBudgets.FairItem env hash
  | .fbvote env vote => manager.finalizedBudgets.FairVote hashes env vote

/-- Runs in which every message is fair where it arrives. -/
def fairSystem (hashes : BudgetHashes) : LabelledSystem CBudgetManager BudgetMessage where
  Step manager message next :=
    manager.Fair hashes message ∧ (budgetSystem hashes).Step manager message next

/-- All votes that arrived with valid signatures, each the only one of its masternode for
its item, are with their items as far as those are known. -/
structure NoVoteLost (trace : List BudgetMessage) (manager : CBudgetManager) : Prop where
  proposals : manager.proposals.NoVoteLost (ArrivedProposalVote trace)
  finalizedBudgets : manager.finalizedBudgets.NoVoteLost (ArrivedBudgetVote trace)

/-- Both books keep the votes that arrived. -/
structure KeepsVotes (trace : List BudgetMessage) (manager : CBudgetManager) : Prop where
  proposals : manager.proposals.Kept (ArrivedProposalVote trace)
  finalizedBudgets : manager.finalizedBudgets.Kept (ArrivedBudgetVote trace)

end CBudgetManager

namespace VoteBook

variable [BudgetBallot Vote]

theorem Kept.empty {Arrived : Vote → Prop} (none : ∀ vote, ¬ Arrived vote) :
    Kept Arrived (VoteBook.empty : VoteBook Vote) where
  items known := nomatch known
  orphans waits := nomatch waits
  holds arrived := absurd arrived (none _)

theorem Kept.of_iff
    {book : VoteBook Vote}
    (kept : Kept Arrived book)
    (same : ∀ vote, Later vote ↔ Arrived vote) :
    Kept Later book := by
  have equal : Later = Arrived := by
    funext vote
    exact propext (same vote)
  rw [equal]
  exact kept

end VoteBook

namespace CBudgetManager

variable {hashes : BudgetHashes} {past : List BudgetMessage} {manager : CBudgetManager}

theorem arrivedProposalVote_append (message : BudgetMessage) (vote : CBudgetVote) :
    ArrivedProposalVote (past ++ [message]) vote ↔
      ArrivedProposalVote past vote ∨
        ∃ env, message = .mvote env vote ∧ env.signatureValid vote = true := by
  simp only [ArrivedProposalVote, List.mem_append, List.mem_singleton, or_and_right,
    exists_or, eq_comm]

theorem arrivedBudgetVote_append (message : BudgetMessage) (vote : CFinalizedBudgetVote) :
    ArrivedBudgetVote (past ++ [message]) vote ↔
      ArrivedBudgetVote past vote ∨
        ∃ env, message = .fbvote env vote ∧ env.signatureValid vote = true := by
  simp only [ArrivedBudgetVote, List.mem_append, List.mem_singleton, or_and_right,
    exists_or, eq_comm]

theorem keepsVotes_processMessage
    {message : BudgetMessage}
    (keeps : KeepsVotes past manager)
    (fair : manager.Fair hashes message) :
    KeepsVotes (past ++ [message]) (manager.processMessage hashes message) := by
  cases message with
  | mprop env other hash =>
    have proposals : ∀ vote, ArrivedProposalVote (past ++ [.mprop env other hash]) vote ↔
        ArrivedProposalVote past vote := by
      intro vote
      simp [arrivedProposalVote_append]
    have budgets : ∀ vote, ArrivedBudgetVote (past ++ [.mprop env other hash]) vote ↔
        ArrivedBudgetVote past vote := by
      intro vote
      simp [arrivedBudgetVote_append]
    have checked := keeps.proposals.processItem_checkOrphanVotes hashes fair
    have left := keeps.proposals.processItem_of_not_taken env hash
    unfold processMessage
    dsimp only
    generalize manager.proposals.processItem env hash = outcome at checked left ⊢
    obtain ⟨taken, next⟩ := outcome
    cases taken with
    | true =>
      exact ⟨checked.of_iff proposals,
        (keeps.finalizedBudgets.checkOrphanVotes hashes other).of_iff budgets⟩
    | false => exact ⟨(left rfl).of_iff proposals, keeps.finalizedBudgets.of_iff budgets⟩
  | mvote env vote =>
    refine ⟨(keeps.proposals.processVote fair).of_iff ?_, keeps.finalizedBudgets.of_iff ?_⟩
    · intro other
      rw [arrivedProposalVote_append]
      apply or_congr_right
      constructor
      · rintro ⟨_, same, genuine⟩
        cases same
        exact ⟨rfl, genuine⟩
      · rintro ⟨rfl, genuine⟩
        exact ⟨env, rfl, genuine⟩
    · intro other
      simp [arrivedBudgetVote_append]
  | fbs env other hash =>
    have proposals : ∀ vote, ArrivedProposalVote (past ++ [.fbs env other hash]) vote ↔
        ArrivedProposalVote past vote := by
      intro vote
      simp [arrivedProposalVote_append]
    have budgets : ∀ vote, ArrivedBudgetVote (past ++ [.fbs env other hash]) vote ↔
        ArrivedBudgetVote past vote := by
      intro vote
      simp [arrivedBudgetVote_append]
    have checked := keeps.finalizedBudgets.processItem_checkOrphanVotes hashes fair
    have left := keeps.finalizedBudgets.processItem_of_not_taken env hash
    unfold processMessage
    dsimp only
    generalize manager.finalizedBudgets.processItem env hash = outcome at checked left ⊢
    obtain ⟨taken, next⟩ := outcome
    cases taken with
    | true =>
      exact ⟨(keeps.proposals.checkOrphanVotes hashes other).of_iff proposals,
        checked.of_iff budgets⟩
    | false => exact ⟨keeps.proposals.of_iff proposals, (left rfl).of_iff budgets⟩
  | fbvote env vote =>
    refine ⟨keeps.proposals.of_iff ?_, (keeps.finalizedBudgets.processVote fair).of_iff ?_⟩
    · intro other
      simp [arrivedProposalVote_append]
    · intro other
      rw [arrivedBudgetVote_append]
      apply or_congr_right
      constructor
      · rintro ⟨_, same, genuine⟩
        cases same
        exact ⟨rfl, genuine⟩
      · rintro ⟨rfl, genuine⟩
        exact ⟨env, rfl, genuine⟩

theorem keepsVotes_of_run
    (run : (fairSystem hashes).Run .empty trace state) :
    KeepsVotes trace state := by
  apply run.traceInvariant
  · exact ⟨.empty fun vote ⟨_, member, _⟩ => List.not_mem_nil member,
      .empty fun vote ⟨_, member, _⟩ => List.not_mem_nil member⟩
  · rintro past current message next keeps ⟨fair, rfl⟩
    exact keepsVotes_processMessage keeps fair

/-- No run of fair messages loses a vote. -/
theorem noVoteLost_of_fair_run
    {trace : List BudgetMessage} {state : CBudgetManager}
    (run : (fairSystem hashes).Run .empty trace state) :
    NoVoteLost trace state :=
  ⟨(keepsVotes_of_run run).proposals.noVoteLost,
    (keepsVotes_of_run run).finalizedBudgets.noVoteLost⟩

/-- Hashes that tell masternodes apart. -/
def masternodeHashes : BudgetHashes where
  budgetVote vin _ _ _ := vin.prevout.hash
  finalizedBudgetVote vin _ _ := vin.prevout.hash

/-- A synced node at which the signature of one byte is valid. -/
def syncedEnv {Vote : Type} (signature : Vote → List UInt8) : BudgetEnv Vote where
  fLiteMode := false
  isBlockchainSynced := true
  isSynced := true
  time := 1530000000
  knowsMasternode _ := true
  verifyVote vote := signature vote == [1]
  isBudgetCollateralValid _ := true
  isConfirmed _ := true
  isValid _ := true

/-- Votes for one proposal arrive at the node. -/
def voteArrives (masternodeHash : Uint256) (signature : List UInt8) : BudgetMessage :=
  .mvote (syncedEnv CBudgetVote.vchSig)
    ⟨⟨⟨masternodeHash, 0⟩, [], 0⟩, 100, 1, 1529990000, signature⟩

/-- The proposal arrives. -/
def proposalArrives : BudgetMessage :=
  .mprop (syncedEnv CBudgetVote.vchSig) (syncedEnv CFinalizedBudgetVote.vchSig) 100

theorem noVoteLost_of_fair_run_oneVote :
    NoVoteLost [proposalArrives, voteArrives 7 [1]]
      ((CBudgetManager.empty.processMessage masternodeHashes proposalArrives).processMessage
        masternodeHashes (voteArrives 7 [1])) := by
  have taken : (fairSystem masternodeHashes).Run .empty [proposalArrives]
      (CBudgetManager.empty.processMessage masternodeHashes proposalArrives) :=
    .snoc .nil ⟨(fun _ vote waits => nomatch waits), rfl⟩
  have voted : (fairSystem masternodeHashes).Run .empty [proposalArrives, voteArrives 7 [1]]
      ((CBudgetManager.empty.processMessage masternodeHashes proposalArrives).processMessage
        masternodeHashes (voteArrives 7 [1])) :=
    have onTime : (1529990000 : Int) ≤ 1530000000 + 60 * 60 := by decide
    .snoc taken ⟨fun _ => .inr ⟨rfl, rfl, onTime⟩, rfl⟩
  exact noVoteLost_of_fair_run voted

/-- A vote of the masternode with hash 7 arrives genuinely, and the proposal does not have
it in the end: where a message with the same hash and no signature came first, and where
another vote for the unknown proposal came after it. -/
theorem votes_lost :
    (∃ state, (budgetSystem masternodeHashes).Run .empty
        [proposalArrives, voteArrives 7 [], voteArrives 7 [1]] state ∧
      ¬ NoVoteLost [proposalArrives, voteArrives 7 [], voteArrives 7 [1]] state) ∧
    ∃ state, (budgetSystem masternodeHashes).Run .empty
        [voteArrives 7 [1], voteArrives 8 [1], proposalArrives] state ∧
      ¬ NoVoteLost [voteArrives 7 [1], voteArrives 8 [1], proposalArrives] state := by
  have arrives : ∀ {trace : List BudgetMessage}, voteArrives 7 [1] ∈ trace →
      ArrivedProposalVote trace ⟨⟨⟨7, 0⟩, [], 0⟩, 100, 1, 1529990000, [1]⟩ :=
    fun member => ⟨syncedEnv CBudgetVote.vchSig, member, rfl⟩
  have sevenOnly : ∀ {trace : List BudgetMessage},
      (∀ message ∈ trace, message = proposalArrives ∨ message = voteArrives 7 [] ∨
        message = voteArrives 7 [1] ∨ message = voteArrives 8 [1]) →
      Alone (ArrivedProposalVote trace) ⟨⟨⟨7, 0⟩, [], 0⟩, 100, 1, 1529990000, [1]⟩ := by
    rintro trace members other ⟨env, member, genuine⟩ _ sameMasternode
    rcases members _ member with same | same | same | same
    · cases same
    · cases same
      exact absurd genuine (by decide)
    · cases same
      rfl
    · cases same
      exact absurd sameMasternode (by decide)
  constructor
  · refine ⟨_, LabelledSystem.Run.foldl (fun _ _ _ => rfl) CBudgetManager.empty, ?_⟩
    intro noneLost
    have kept := noneLost.proposals 100 _ rfl _ (arrives (by simp)) (sevenOnly (by simp)) rfl
    exact absurd kept (by decide)
  · refine ⟨_, LabelledSystem.Run.foldl (fun _ _ _ => rfl) CBudgetManager.empty, ?_⟩
    intro noneLost
    have kept := noneLost.proposals 100 _ rfl _ (arrives (by simp)) (sevenOnly (by simp)) rfl
    exact absurd kept (by decide)

end CBudgetManager

end ColossusCoin
