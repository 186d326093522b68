import ColossusCoin.Library.System
import ColossusCoin.Masternode.PayeeVotes
import Mathlib.Data.Finset.Card

/-!
# The tally of the votes for payees

The tally of a height agrees with the winners that are recorded for it in every run.  That
a masternode votes for one payee at a height is left to the last height it voted for, and
holds in the runs where this is enough.
-/

namespace ColossusCoin

/-- What happens to the votes for payees: a winner arrives, the node votes itself, or old
votes are dropped. -/
inductive PayeeAction
  | mnw (env : PayeeEnv) (winner : CMasternodePaymentWinner)
  | processBlock (env : PayeeEnv) (nBlockHeight : Int)
  | cleanPaymentList (env : PayeeEnv)

namespace CMasternodePayments

/-- The state after an action. -/
def apply (hashWinner : WinnerHash) (state : CMasternodePayments) :
    PayeeAction → CMasternodePayments
  | .mnw env winner => (state.processWinner hashWinner env winner).2
  | .processBlock env nBlockHeight => (state.processBlock hashWinner env nBlockHeight).2
  | .cleanPaymentList env => state.cleanPaymentList env

/-- Runs from one action to the next. -/
def system (hashWinner : WinnerHash) : LabelledSystem CMasternodePayments PayeeAction where
  Step state action next := next = state.apply hashWinner action

/-- The masternodes with a recorded winner for a height that is a payee. -/
def voters (state : CMasternodePayments) (nBlockHeight : Int) (payee : CScript) :
    Finset COutPoint :=
  (((state.mapMasternodePayeeVotes.entries.map Prod.snd).filter fun winner =>
    winner.nBlockHeight = nBlockHeight ∧ winner.payee = payee).map fun winner =>
      winner.vinMasternode.prevout).toFinset

/-- The votes of a payee in the tally of a height. -/
def nVotes (state : CMasternodePayments) (nBlockHeight : Int) (payee : CScript) : Int :=
  match state.mapMasternodeBlocks nBlockHeight with
  | none => 0
  | some payees => payees.votesOf payee

theorem mem_voters
    {state : CMasternodePayments}
    {outpoint : COutPoint} :
    outpoint ∈ state.voters nBlockHeight payee ↔
      ∃ hash winner, state.mapMasternodePayeeVotes.get? hash = some winner ∧
        winner.nBlockHeight = nBlockHeight ∧ winner.payee = payee ∧
          winner.vinMasternode.prevout = outpoint := by
  simp only [voters, List.mem_toFinset, List.mem_map, List.mem_filter, decide_eq_true_eq,
    Prod.exists, SortedMap.get?_eq_some_iff]
  constructor
  · rintro ⟨_, ⟨⟨hash, winner, member, rfl⟩, height, paid⟩, votes⟩
    exact ⟨hash, winner, member, height, paid, votes⟩
  · rintro ⟨hash, winner, member, height, paid, votes⟩
    exact ⟨winner, ⟨⟨hash, winner, member, rfl⟩, height, paid⟩, votes⟩

/-- Winners are recorded under their hashes, and each tally counts the masternodes. -/
structure Tallied (hashWinner : WinnerHash) (state : CMasternodePayments) : Prop where
  keyed : ∀ {hash winner}, state.mapMasternodePayeeVotes.get? hash = some winner →
    hash = winner.getHash hashWinner
  counted : ∀ nBlockHeight payee,
    state.nVotes nBlockHeight payee = (state.voters nBlockHeight payee).card

/-- No masternode has recorded winners for two payees of a height. -/
def VotesOnce (state : CMasternodePayments) : Prop :=
  ∀ outpoint nBlockHeight payee other, outpoint ∈ state.voters nBlockHeight payee →
    outpoint ∈ state.voters nBlockHeight other → payee = other

variable {hashWinner : WinnerHash} {state : CMasternodePayments}

theorem tallied_empty : Tallied hashWinner empty where
  keyed found := by cases found
  counted nBlockHeight payee := by simp [nVotes, voters, empty]

theorem votesOnce_empty : VotesOnce empty := by
  intro outpoint nBlockHeight payee other votes
  obtain ⟨hash, winner, found, _⟩ := mem_voters.mp votes
  cases found

variable {other : CMasternodePayments}

theorem Tallied.congr
    (tallied : Tallied hashWinner state)
    (winners : other.mapMasternodePayeeVotes = state.mapMasternodePayeeVotes)
    (blocks : other.mapMasternodeBlocks = state.mapMasternodeBlocks) :
    Tallied hashWinner other where
  keyed found := tallied.keyed (winners ▸ found)
  counted nBlockHeight payee := by
    simpa only [nVotes, voters, winners, blocks] using tallied.counted nBlockHeight payee

theorem voters_congr
    (winners : other.mapMasternodePayeeVotes = state.mapMasternodePayeeVotes)
    (nBlockHeight : Int) (payee : CScript) :
    other.voters nBlockHeight payee = state.voters nBlockHeight payee := by
  simp only [voters, winners]

theorem VotesOnce.of_subset
    (once : VotesOnce state)
    (fewer : ∀ nBlockHeight payee,
      other.voters nBlockHeight payee ⊆ state.voters nBlockHeight payee) :
    VotesOnce other := by
  intro outpoint nBlockHeight payee second votes votesSecond
  exact once outpoint nBlockHeight payee second (fewer _ _ votes) (fewer _ _ votesSecond)

theorem VotesOnce.congr
    (once : VotesOnce state)
    (winners : other.mapMasternodePayeeVotes = state.mapMasternodePayeeVotes) :
    VotesOnce other := by
  apply once.of_subset
  intro nBlockHeight payee
  rw [voters_congr winners]

theorem addWinningMasternode_cases
    (hashWinner : WinnerHash) (env : PayeeEnv) (state : CMasternodePayments)
    (winnerIn : CMasternodePaymentWinner) :
    (state.addWinningMasternode hashWinner env winnerIn = (false, state)) ∨
      (env.hasBlockHash (winnerIn.nBlockHeight - 100) = true ∧
        state.mapMasternodePayeeVotes.get? (winnerIn.getHash hashWinner) = none ∧
        state.addWinningMasternode hashWinner env winnerIn =
          (true,
            { state with
              mapMasternodePayeeVotes :=
                state.mapMasternodePayeeVotes.insert (winnerIn.getHash hashWinner) winnerIn
              mapMasternodeBlocks :=
                Function.update state.mapMasternodeBlocks winnerIn.nBlockHeight
                  (some (((state.mapMasternodeBlocks winnerIn.nBlockHeight).getD
                    ⟨winnerIn.nBlockHeight, []⟩).addPayee winnerIn.payee 1)) })) := by
  unfold addWinningMasternode
  split_ifs with unknown recorded
  · exact .inl rfl
  · exact .inl rfl
  · have known : env.hasBlockHash (winnerIn.nBlockHeight - 100) = true := by simpa using unknown
    have fresh : state.mapMasternodePayeeVotes.get? (winnerIn.getHash hashWinner) = none := by
      simpa [SortedMap.contains] using recorded
    exact .inr ⟨known, fresh, rfl⟩

theorem voters_insert
    {next : CMasternodePayments} {hash : Uint256}
    (fresh : state.mapMasternodePayeeVotes.get? hash = none)
    (winners : next.mapMasternodePayeeVotes = state.mapMasternodePayeeVotes.insert hash winner)
    (nBlockHeight : Int) (payee : CScript) :
    next.voters nBlockHeight payee =
      if winner.nBlockHeight = nBlockHeight ∧ winner.payee = payee then
        insert winner.vinMasternode.prevout (state.voters nBlockHeight payee)
      else state.voters nBlockHeight payee := by
  ext outpoint
  have members : outpoint ∈ next.voters nBlockHeight payee ↔
      (winner.nBlockHeight = nBlockHeight ∧ winner.payee = payee ∧
        winner.vinMasternode.prevout = outpoint) ∨
      outpoint ∈ state.voters nBlockHeight payee := by
    rw [mem_voters, mem_voters, winners]
    constructor
    · rintro ⟨key, recorded, found, height, paid, votes⟩
      rw [SortedMap.get?_insert] at found
      split_ifs at found with same
      · cases found
        exact .inl ⟨height, paid, votes⟩
      · exact .inr ⟨key, recorded, found, height, paid, votes⟩
    · rintro (⟨height, paid, votes⟩ | ⟨key, recorded, found, rest⟩)
      · exact ⟨hash, winner, SortedMap.get?_insert_self _ _ _, height, paid, votes⟩
      · have different : key ≠ hash := by
          rintro rfl
          rw [fresh] at found
          cases found
        refine ⟨key, recorded, ?_, rest⟩
        rw [SortedMap.get?_insert, if_neg different, found]
  rw [members]
  split_ifs with named
  · rw [Finset.mem_insert, @eq_comm _ outpoint]
    simp [named.1, named.2]
  · apply or_iff_right
    rintro ⟨height, paid, _⟩
    exact named ⟨height, paid⟩

theorem Tallied.addWinningMasternode
    (tallied : Tallied hashWinner state)
    (env : PayeeEnv) (winnerIn : CMasternodePaymentWinner) :
    Tallied hashWinner (state.addWinningMasternode hashWinner env winnerIn).2 := by
  rcases addWinningMasternode_cases hashWinner env state winnerIn with
    same | ⟨_, fresh, added⟩
  · rw [same]
    exact tallied
  · rw [added]
    constructor
    · intro hash winner found
      rw [SortedMap.get?_insert] at found
      split_ifs at found with same
      · cases found
        exact same
      · exact tallied.keyed found
    · intro nBlockHeight payee
      rw [voters_insert fresh rfl]
      have before := tallied.counted nBlockHeight payee
      unfold nVotes at before ⊢
      dsimp only
      rw [Function.update_apply]
      by_cases height : nBlockHeight = winnerIn.nBlockHeight
      · subst height
        have votesBefore :
            ((state.mapMasternodeBlocks winnerIn.nBlockHeight).getD
              ⟨winnerIn.nBlockHeight, []⟩).votesOf payee =
              (state.voters winnerIn.nBlockHeight payee).card := by
          rw [← before]
          cases state.mapMasternodeBlocks winnerIn.nBlockHeight with
          | none => rfl
          | some payees => rfl
        simp only [if_true, CMasternodeBlockPayees.votesOf_addPayee, votesBefore, true_and]
        by_cases paid : payee = winnerIn.payee
        · subst paid
          -- The masternode had no such vote, for that would be recorded under this hash.
          have notYet : winnerIn.vinMasternode.prevout ∉
              state.voters winnerIn.nBlockHeight winnerIn.payee := by
            intro votes
            obtain ⟨hash, winner, found, height, paid, by_⟩ := mem_voters.mp votes
            have sameHash : hash = winnerIn.getHash hashWinner := by
              rw [tallied.keyed found, CMasternodePaymentWinner.getHash, height, paid, by_]
              rfl
            rw [sameHash, fresh] at found
            cases found
          simp [Finset.card_insert_of_notMem notYet]
        · simp [paid, Ne.symm paid]
      · simpa [height, Ne.symm height] using before

/-- Adding a winner keeps masternodes to one payee of a height, if the masternode has no
other payee there. -/
theorem VotesOnce.addWinningMasternode
    (once : VotesOnce state)
    {env : PayeeEnv} {winnerIn : CMasternodePaymentWinner}
    (only : env.hasBlockHash (winnerIn.nBlockHeight - 100) = true →
      ∀ payee, winnerIn.vinMasternode.prevout ∈ state.voters winnerIn.nBlockHeight payee →
        payee = winnerIn.payee) :
    VotesOnce (state.addWinningMasternode hashWinner env winnerIn).2 := by
  rcases addWinningMasternode_cases hashWinner env state winnerIn with
    same | ⟨known, fresh, added⟩
  · rw [same]
    exact once
  · rw [added]
    -- A vote is an old one or the one that is added.
    have votes : ∀ {outpoint nBlockHeight payee},
        outpoint ∈ voters
          { state with
            mapMasternodePayeeVotes :=
              state.mapMasternodePayeeVotes.insert (winnerIn.getHash hashWinner) winnerIn
            mapMasternodeBlocks :=
              Function.update state.mapMasternodeBlocks winnerIn.nBlockHeight
                (some (((state.mapMasternodeBlocks winnerIn.nBlockHeight).getD
                  ⟨winnerIn.nBlockHeight, []⟩).addPayee winnerIn.payee 1)) }
          nBlockHeight payee →
        outpoint ∈ state.voters nBlockHeight payee ∨
          (outpoint = winnerIn.vinMasternode.prevout ∧
            nBlockHeight = winnerIn.nBlockHeight ∧ payee = winnerIn.payee) := by
      intro outpoint nBlockHeight payee member
      rw [voters_insert fresh rfl] at member
      split_ifs at member with named
      · rcases Finset.mem_insert.mp member with rfl | old
        · exact .inr ⟨rfl, named.1.symm, named.2.symm⟩
        · exact .inl old
      · exact .inl member
    intro outpoint nBlockHeight payee other first second
    rcases votes first with old | ⟨rfl, rfl, rfl⟩
    · rcases votes second with oldSecond | ⟨rfl, rfl, rfl⟩
      · exact once outpoint nBlockHeight payee other old oldSecond
      · exact only known payee old
    · rcases votes second with oldSecond | ⟨_, _, paid⟩
      · exact (only known other oldSecond).symm
      · exact paid.symm

theorem get?_cleanWinner
    (env : PayeeEnv) (nHeight : Int) (state : CMasternodePayments) (hash key : Uint256) :
    (state.cleanWinner env nHeight hash).mapMasternodePayeeVotes.get? key =
      if key = hash then
        (state.mapMasternodePayeeVotes.get? key).filter fun winner =>
          !isOld env nHeight winner.nBlockHeight
      else state.mapMasternodePayeeVotes.get? key := by
  unfold cleanWinner
  cases found : state.mapMasternodePayeeVotes.get? hash with
  | none =>
    split_ifs with same
    · rw [same, found]
      rfl
    · rfl
  | some winner =>
    dsimp only
    by_cases old : isOld env nHeight winner.nBlockHeight = true
    · rw [if_pos old]
      rw [SortedMap.get?_erase]
      split_ifs with same
      · rw [same, found, Option.filter_some, old]
        rfl
      · rfl
    · rw [if_neg old]
      split_ifs with same
      · rw [same, found, Option.filter_some, Bool.eq_false_iff.mpr old]
        rfl
      · rfl

theorem mapMasternodeBlocks_cleanWinner
    (env : PayeeEnv) (nHeight : Int) (state : CMasternodePayments) (hash : Uint256)
    (nBlockHeight : Int) :
    ((state.cleanWinner env nHeight hash).mapMasternodeBlocks nBlockHeight =
        state.mapMasternodeBlocks nBlockHeight ∧
      (isOld env nHeight nBlockHeight = true →
        ∀ winner ∈ state.mapMasternodePayeeVotes.get? hash, winner.nBlockHeight ≠ nBlockHeight)) ∨
    ((state.cleanWinner env nHeight hash).mapMasternodeBlocks nBlockHeight = none ∧
      isOld env nHeight nBlockHeight = true) := by
  unfold cleanWinner
  cases state.mapMasternodePayeeVotes.get? hash with
  | none => exact .inl ⟨rfl, fun _ winner found => by cases found⟩
  | some winner =>
    dsimp only
    by_cases same : winner.nBlockHeight = nBlockHeight
    · subst same
      split_ifs with old
      · exact .inr ⟨Function.update_self _ _ _, old⟩
      · exact .inl ⟨rfl, fun nowOld => absurd nowOld old⟩
    · refine .inl ⟨?_, ?_⟩
      · split_ifs with old
        · exact Function.update_of_ne (Ne.symm same) _ _
        · rfl
      · intro _ other found
        cases found
        exact same

/-- What the rounds of `CleanPaymentList` leave: the winners that are not old, the tallies
of the heights that are not old, and none of an old height that had a winner. -/
theorem foldl_cleanWinner
    (env : PayeeEnv) (nHeight : Int) (keys : List Uint256) (state : CMasternodePayments) :
    (∀ key, (keys.foldl (cleanWinner env nHeight) state).mapMasternodePayeeVotes.get? key =
      if key ∈ keys then
        (state.mapMasternodePayeeVotes.get? key).filter fun winner =>
          !isOld env nHeight winner.nBlockHeight
      else state.mapMasternodePayeeVotes.get? key) ∧
    ∀ nBlockHeight,
      ((keys.foldl (cleanWinner env nHeight) state).mapMasternodeBlocks nBlockHeight =
          state.mapMasternodeBlocks nBlockHeight ∧
        (isOld env nHeight nBlockHeight = true →
          ∀ key ∈ keys, ∀ winner ∈ state.mapMasternodePayeeVotes.get? key,
            winner.nBlockHeight ≠ nBlockHeight)) ∨
      ((keys.foldl (cleanWinner env nHeight) state).mapMasternodeBlocks nBlockHeight = none ∧
        isOld env nHeight nBlockHeight = true) := by
  induction keys generalizing state with
  | nil =>
    refine ⟨fun key => rfl, fun nBlockHeight => .inl ⟨rfl, ?_⟩⟩
    intro _ key member
    cases member
  | cons hash rest ih =>
    obtain ⟨winners, blocks⟩ := ih (state.cleanWinner env nHeight hash)
    rw [List.foldl_cons]
    constructor
    · intro key
      rw [winners key, get?_cleanWinner]
      by_cases here : key = hash
      · subst here
        simp [Option.filter_filter]
      · simp [here]
    · intro nBlockHeight
      rcases blocks nBlockHeight with ⟨same, noWinner⟩ | ⟨dropped, old⟩
      · rcases mapMasternodeBlocks_cleanWinner env nHeight state hash nBlockHeight with
          ⟨sameHere, notHere⟩ | ⟨droppedHere, old⟩
        · refine .inl ⟨same.trans sameHere, ?_⟩
          intro old key member winner found
          rcases List.mem_cons.mp member with rfl | later
          · exact notHere old winner found
          · by_cases here : key = hash
            · subst here
              exact notHere old winner found
            · apply noWinner old key later winner
              rw [get?_cleanWinner, if_neg here]
              exact found
        · exact .inr ⟨same.trans droppedHere, old⟩
      · exact .inr ⟨dropped, old⟩

theorem voters_cleanPaymentList
    (env : PayeeEnv) {nHeight : Int}
    (tip : env.tipHeight = some nHeight)
    (nBlockHeight : Int) (payee : CScript) :
    (state.cleanPaymentList env).voters nBlockHeight payee =
      if isOld env nHeight nBlockHeight then ∅ else state.voters nBlockHeight payee := by
  unfold cleanPaymentList
  simp only [tip]
  obtain ⟨winners, _⟩ := foldl_cleanWinner env nHeight
    (state.mapMasternodePayeeVotes.entries.map Prod.fst) state
  have found : ∀ key,
      ((state.mapMasternodePayeeVotes.entries.map Prod.fst).foldl (cleanWinner env nHeight)
        state).mapMasternodePayeeVotes.get? key =
        (state.mapMasternodePayeeVotes.get? key).filter fun winner =>
          !isOld env nHeight winner.nBlockHeight := by
    intro key
    rw [winners key]
    split_ifs with visited
    · rfl
    · cases absent : state.mapMasternodePayeeVotes.get? key with
      | none => rfl
      | some winner =>
        have member := (SortedMap.get?_eq_some_iff _ _ _).mp absent
        exact absurd (List.mem_map_of_mem member) visited
  ext outpoint
  rw [mem_voters]
  split_ifs with old
  · simp only [Finset.notMem_empty, iff_false, not_exists, not_and]
    intro key winner kept height
    rw [found key, Option.filter_eq_some_iff] at kept
    rw [height, old] at kept
    exact absurd kept.2 (by simp)
  · rw [mem_voters]
    constructor
    · rintro ⟨key, winner, kept, rest⟩
      rw [found key, Option.filter_eq_some_iff] at kept
      exact ⟨key, winner, kept.1, rest⟩
    · rintro ⟨key, winner, kept, height, rest⟩
      refine ⟨key, winner, ?_, height, rest⟩
      rw [found key, Option.filter_eq_some_iff]
      exact ⟨kept, by simpa [height] using old⟩

/-- Dropping old winners keeps the tallies right. -/
theorem Tallied.cleanPaymentList
    (tallied : Tallied hashWinner state)
    (env : PayeeEnv) :
    Tallied hashWinner (state.cleanPaymentList env) := by
  cases tip : env.tipHeight with
  | none =>
    unfold CMasternodePayments.cleanPaymentList
    simp only [tip]
    exact tallied
  | some nHeight =>
    obtain ⟨winners, blocks⟩ := foldl_cleanWinner env nHeight
      (state.mapMasternodePayeeVotes.entries.map Prod.fst) state
    have cleaned : state.cleanPaymentList env =
        (state.mapMasternodePayeeVotes.entries.map Prod.fst).foldl
          (cleanWinner env nHeight) state := by
      unfold CMasternodePayments.cleanPaymentList
      simp only [tip]
    constructor
    · intro hash winner kept
      rw [cleaned, winners hash] at kept
      split_ifs at kept
      · exact tallied.keyed (Option.filter_eq_some_iff.mp kept).1
      · exact tallied.keyed kept
    · intro nBlockHeight payee
      rw [voters_cleanPaymentList env tip]
      have before := tallied.counted nBlockHeight payee
      unfold nVotes at before ⊢
      rw [cleaned]
      rcases blocks nBlockHeight with ⟨same, noWinner⟩ | ⟨dropped, old⟩
      · rw [same, before]
        split_ifs with old
        · -- An old height whose tally stays had no winner.
          have noVoter : state.voters nBlockHeight payee = ∅ := by
            apply Finset.eq_empty_of_forall_notMem
            intro outpoint votes
            obtain ⟨key, winner, found, height, _⟩ := mem_voters.mp votes
            have member := (SortedMap.get?_eq_some_iff _ _ _).mp found
            exact noWinner old key (List.mem_map_of_mem member) winner found height
          rw [noVoter]
        · rfl
      · simp [dropped, old]

theorem VotesOnce.cleanPaymentList
    (once : VotesOnce state)
    (env : PayeeEnv) :
    VotesOnce (state.cleanPaymentList env) := by
  cases tip : env.tipHeight with
  | none =>
    unfold CMasternodePayments.cleanPaymentList
    simp only [tip]
    exact once
  | some nHeight =>
    apply once.of_subset
    intro nBlockHeight payee
    rw [voters_cleanPaymentList env tip]
    split_ifs
    · exact Finset.empty_subset _
    · exact Finset.Subset.refl _

/-- What an action may add keeps each masternode to one payee of a height: a winner that
arrives is stopped by a check, or is for a height that its masternode voted for last, where
the masternode has another payee there; the node itself does not vote twice. -/
def Fair (hashWinner : WinnerHash) (state : CMasternodePayments) : PayeeAction → Prop
  | .mnw env winner =>
    state.reachesVote hashWinner env winner = true → env.signatureValid winner = true →
      env.hasBlockHash (winner.nBlockHeight - 100) = true →
        (∃ payee, payee ≠ winner.payee ∧
          winner.vinMasternode.prevout ∈ state.voters winner.nBlockHeight payee) →
          state.mapMasternodesLastVote (lastVoteKey winner.vinMasternode.prevout) =
            some winner.nBlockHeight
  | .processBlock env nBlockHeight =>
    ∀ winner ∈ state.ownWinner env nBlockHeight,
      env.hasBlockHash (winner.nBlockHeight - 100) = true →
        ∀ payee, winner.vinMasternode.prevout ∈ state.voters winner.nBlockHeight payee →
          payee = winner.payee
  | .cleanPaymentList _ => True

/-- Runs in which every action is fair where it happens. -/
def fairSystem (hashWinner : WinnerHash) :
    LabelledSystem CMasternodePayments PayeeAction where
  Step state action next :=
    state.Fair hashWinner action ∧ (system hashWinner).Step state action next

/-- What the handler of a winner can do. -/
theorem processWinner_cases
    (hashWinner : WinnerHash) (env : PayeeEnv) (state : CMasternodePayments)
    (winner : CMasternodePaymentWinner) :
    ∃ voted : CMasternodePayments,
      voted.mapMasternodePayeeVotes = state.mapMasternodePayeeVotes ∧
      voted.mapMasternodeBlocks = state.mapMasternodeBlocks ∧
      ((state.processWinner hashWinner env winner).2 = voted ∨
        (state.reachesVote hashWinner env winner = true ∧
          env.signatureValid winner = true ∧
          state.mapMasternodesLastVote (lastVoteKey winner.vinMasternode.prevout) ≠
            some winner.nBlockHeight ∧
          (state.processWinner hashWinner env winner).2 =
            (voted.addWinningMasternode hashWinner env winner).2)) := by
  unfold processWinner
  by_cases reaches : state.reachesVote hashWinner env winner = true
  · rcases canVote_cases state winner.vinMasternode.prevout winner.nBlockHeight with
      ⟨_, refused⟩ | ⟨notBefore, voted⟩
    · exact ⟨state, rfl, rfl, .inl (by simp [reaches, refused])⟩
    · by_cases genuine : env.signatureValid winner = true
      · refine ⟨{ state with
            mapMasternodesLastVote :=
              Function.update state.mapMasternodesLastVote
                (lastVoteKey winner.vinMasternode.prevout) (some winner.nBlockHeight) },
          rfl, rfl, .inr ⟨reaches, genuine, notBefore, ?_⟩⟩
        simp [reaches, voted, genuine]
      · refine ⟨{ state with
            mapMasternodesLastVote :=
              Function.update state.mapMasternodesLastVote
                (lastVoteKey winner.vinMasternode.prevout) (some winner.nBlockHeight) },
          rfl, rfl, .inl ?_⟩
        simp [reaches, voted, genuine]
  · exact ⟨state, rfl, rfl, .inl (by simp [reaches])⟩

theorem processBlock_cases
    (hashWinner : WinnerHash) (env : PayeeEnv) (state : CMasternodePayments)
    (nBlockHeight : Int) :
    (state.processBlock hashWinner env nBlockHeight).2 = state ∨
    ∃ winner ∈ state.ownWinner env nBlockHeight,
      (state.processBlock hashWinner env nBlockHeight).2.mapMasternodePayeeVotes =
          (state.addWinningMasternode hashWinner env winner).2.mapMasternodePayeeVotes ∧
        (state.processBlock hashWinner env nBlockHeight).2.mapMasternodeBlocks =
          (state.addWinningMasternode hashWinner env winner).2.mapMasternodeBlocks := by
  unfold processBlock
  cases state.ownWinner env nBlockHeight with
  | none => exact .inl rfl
  | some winner =>
    refine .inr ⟨winner, rfl, ?_⟩
    dsimp only
    generalize state.addWinningMasternode hashWinner env winner = outcome
    obtain ⟨added, next⟩ := outcome
    cases added with
    | false => exact ⟨rfl, rfl⟩
    | true => exact ⟨rfl, rfl⟩

theorem Tallied.apply
    (tallied : Tallied hashWinner state)
    (action : PayeeAction) :
    Tallied hashWinner (state.apply hashWinner action) := by
  cases action with
  | mnw env winner =>
    obtain ⟨voted, winners, blocks, same | ⟨_, _, _, added⟩⟩ :=
      processWinner_cases hashWinner env state winner
    · exact tallied.congr ((congrArg _ same).trans winners) ((congrArg _ same).trans blocks)
    · show Tallied hashWinner (state.processWinner hashWinner env winner).2
      rw [added]
      exact (tallied.congr winners blocks).addWinningMasternode env winner
  | processBlock env nBlockHeight =>
    rcases processBlock_cases hashWinner env state nBlockHeight with
      same | ⟨winner, _, winners, blocks⟩
    · show Tallied hashWinner (state.processBlock hashWinner env nBlockHeight).2
      rw [same]
      exact tallied
    · exact (tallied.addWinningMasternode env winner).congr winners blocks
  | cleanPaymentList env => exact tallied.cleanPaymentList env

theorem VotesOnce.apply
    (once : VotesOnce state)
    {action : PayeeAction}
    (fair : state.Fair hashWinner action) :
    VotesOnce (state.apply hashWinner action) := by
  cases action with
  | mnw env winner =>
    obtain ⟨voted, winners, blocks, same | ⟨reaches, genuine, notBefore, added⟩⟩ :=
      processWinner_cases hashWinner env state winner
    · exact once.congr ((congrArg _ same).trans winners)
    · show VotesOnce (state.processWinner hashWinner env winner).2
      rw [added]
      apply (once.congr winners).addWinningMasternode
      intro known payee votes
      rw [voters_congr winners] at votes
      by_contra different
      exact notBefore (fair reaches genuine known ⟨payee, different, votes⟩)
  | processBlock env nBlockHeight =>
    rcases processBlock_cases hashWinner env state nBlockHeight with
      same | ⟨winner, chosen, winners, _⟩
    · show VotesOnce (state.processBlock hashWinner env nBlockHeight).2
      rw [same]
      exact once
    · have added := @VotesOnce.addWinningMasternode hashWinner state once env winner
        (fair winner chosen)
      exact added.congr winners
  | cleanPaymentList env => exact once.cleanPaymentList env

/-- In every run the votes of a payee of a height are the masternodes whose recorded winner
for the height it is. -/
theorem tallied_of_run
    (run : (system hashWinner).Run empty trace state) :
    Tallied hashWinner state := by
  apply run.invariant tallied_empty
  rintro current action next tallied rfl
  exact tallied.apply action

/-- In every run of fair actions, each masternode votes for at most one payee of a height,
and the votes of a payee are the masternodes that vote for it. -/
theorem votesOnce_of_fair_run
    {trace : List PayeeAction}
    (run : (fairSystem hashWinner).Run empty trace state) :
    VotesOnce state ∧ ∀ nBlockHeight payee,
      state.nVotes nBlockHeight payee = (state.voters nBlockHeight payee).card := by
  have plain : (system hashWinner).Run empty trace state := run.mono fun step => step.2
  refine ⟨?_, (tallied_of_run plain).counted⟩
  apply run.invariant votesOnce_empty
  rintro current action next once ⟨fair, rfl⟩
  exact once.apply fair

/-- The node takes one winner. -/
theorem votesOnce_of_fair_run_oneWinner :
    VotesOnce (empty.apply plainWinnerHash (.mnw payeeEnv (winnerOf 1010 1 [1]))) ∧
      ∀ nBlockHeight payee,
        (empty.apply plainWinnerHash (.mnw payeeEnv (winnerOf 1010 1 [1]))).nVotes
            nBlockHeight payee =
          ((empty.apply plainWinnerHash (.mnw payeeEnv (winnerOf 1010 1 [1]))).voters
            nBlockHeight payee).card := by
  have run : (fairSystem plainWinnerHash).Run empty
      [.mnw payeeEnv (winnerOf 1010 1 [1])]
      (empty.apply plainWinnerHash (.mnw payeeEnv (winnerOf 1010 1 [1]))) := by
    refine .snoc .nil ⟨?_, rfl⟩
    rintro _ _ _ ⟨payee, _, votes⟩
    obtain ⟨hash, winner, found, _⟩ := mem_voters.mp votes
    cases found
  exact votesOnce_of_fair_run run

/-- Between its two votes for one height a masternode votes for another height, and both
of them are recorded. -/
theorem votes_twice :
    ∃ state, (system plainWinnerHash).Run empty
      [.mnw payeeEnv (winnerOf 1010 1 [1]), .mnw payeeEnv (winnerOf 1011 1 [1]),
        .mnw payeeEnv (winnerOf 1010 2 [1])] state ∧
      ¬ VotesOnce state ∧ state.nVotes 1010 [81] = 1 ∧ state.nVotes 1010 [81, 81] = 1 := by
  refine ⟨_, LabelledSystem.Run.foldl (fun _ _ _ => rfl) empty, ?_, by decide, by decide⟩
  intro once
  have same := once ⟨7, 0⟩ 1010 [81] [81, 81] (by decide) (by decide)
  cases same

end CMasternodePayments

end ColossusCoin
