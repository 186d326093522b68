import ColossusCoin.SwiftTx.LockedInputs
import Mathlib.Data.Finset.Card

/-!
# Conflicting locks

Each request selects the height whose masternodes may vote for it.  Two complete locks of
conflicting transactions need twelve masternodes between them, if none votes for both, so
they exclude each other where fewer can be elected.  The heights come from the first inputs
alone, and conflicting transactions with different first inputs can elect twelve.
-/

namespace ColossusCoin

/-- Two transactions spend a common output. -/
def Conflicting (tx other : CTransaction) : Prop :=
  tx.hash ≠ other.hash ∧
    ∃ outpoint, outpoint ∈ tx.vin.map CTxIn.prevout ∧ outpoint ∈ other.vin.map CTxIn.prevout

/-- A vote arrived with a valid signature. -/
def SignedIn (trace : List SwiftTxAction) (vote : CConsensusVote) : Prop :=
  ∃ env, SwiftTxAction.txlvote env vote ∈ trace ∧ env.signatureValid vote = true

/-- No masternode signed votes for two conflicting transactions. -/
def NoDoubleVote (trace : List SwiftTxAction) : Prop :=
  ∀ tx other, Conflicting tx other →
    ∀ vote twin, SignedIn trace vote → SignedIn trace twin →
      vote.txHash = tx.hash → twin.txHash = other.hash →
        vote.vinMasternode.prevout ≠ twin.vinMasternode.prevout

/-- When some vote arrives, a masternode is ranked high enough at a height that a request
for the transaction selects. -/
def Electable (trace : List SwiftTxAction) (txHash : Uint256) (prevout : COutPoint) : Prop :=
  ∃ env vote nBlockHeight vin,
    SwiftTxAction.txlvote env vote ∈ trace ∧ SelectedIn trace txHash nBlockHeight ∧
      vin.prevout = prevout ∧ env.getMasternodeRank vin nBlockHeight ≠ -1 ∧
        env.getMasternodeRank vin nBlockHeight ≤ swiftTxSignaturesTotal

/-- Fewer masternodes can be elected for either transaction than two complete locks take. -/
def FewElectable (trace : List SwiftTxAction) (txHash : Uint256)
    (otherTrace : List SwiftTxAction) (otherHash : Uint256) : Prop :=
  ∃ elected : Finset COutPoint,
    elected.card < swiftTxSignaturesRequired + swiftTxSignaturesRequired ∧
      (∀ prevout, Electable trace txHash prevout → prevout ∈ elected) ∧
        ∀ prevout, Electable otherTrace otherHash prevout → prevout ∈ elected

variable {prevout : COutPoint} {collaterals : List COutPoint} {trace : List SwiftTxAction}

theorem RankedIn.signedIn
    (ranked : RankedIn trace vote) :
    SignedIn trace vote := by
  obtain ⟨env, arrived, valid⟩ := ranked
  simp only [SwiftTxEnv.votesValidly, Bool.and_eq_true] at valid
  exact ⟨env, arrived, valid.2⟩

theorem SignedIn.mono
    (signed : SignedIn past vote)
    (included : past ⊆ trace) :
    SignedIn trace vote := by
  obtain ⟨env, arrived, valid⟩ := signed
  exact ⟨env, included arrived, valid⟩

theorem lt_findRank
    (ranked : SwiftTxEnv.findRank prevout collaterals rank ≠ -1) :
    rank < SwiftTxEnv.findRank prevout collaterals rank := by
  induction collaterals generalizing rank with
  | nil => exact absurd rfl ranked
  | cons collateral rest ih =>
    unfold SwiftTxEnv.findRank at ranked ⊢
    split_ifs at ranked ⊢ with here
    · omega
    · have later := ih ranked
      omega

/-- A masternode whose rank is at most a number is among as many first collaterals. -/
theorem mem_take_of_findRank_le
    {n : Nat}
    (ranked : SwiftTxEnv.findRank prevout collaterals rank ≠ -1)
    (high : SwiftTxEnv.findRank prevout collaterals rank ≤ rank + n) :
    prevout ∈ collaterals.take n := by
  induction collaterals generalizing rank n with
  | nil => exact absurd rfl ranked
  | cons collateral rest ih =>
    have above := lt_findRank ranked
    obtain ⟨fewer, rfl⟩ : ∃ fewer, n = fewer + 1 := ⟨n - 1, by omega⟩
    unfold SwiftTxEnv.findRank at ranked high
    rw [List.take_succ_cons, List.mem_cons]
    split_ifs at ranked high with here
    · exact .inl here.symm
    · right
      apply ih ranked
      omega

/-- Few masternodes can be elected where both requests select one height and the nodes agree
on its ten highest masternodes. -/
theorem fewElectable_of_sameHeight
    {trace otherTrace : List SwiftTxAction} {txHash otherHash : Uint256}
    {nBlockHeight : Int} {collaterals : List COutPoint}
    (selected : ∀ height, SelectedIn trace txHash height → height = nBlockHeight)
    (otherSelected : ∀ height, SelectedIn otherTrace otherHash height → height = nBlockHeight)
    (agreed : ∀ env vote, SwiftTxAction.txlvote env vote ∈ trace ++ otherTrace →
      ∀ scores, env.masternodeScores nBlockHeight = some scores →
        scores.take swiftTxSignaturesTotal = collaterals.take swiftTxSignaturesTotal) :
    FewElectable trace txHash otherTrace otherHash := by
  have ranked_mem : ∀ env vote, SwiftTxAction.txlvote env vote ∈ trace ++ otherTrace →
      ∀ vin, env.getMasternodeRank vin nBlockHeight ≠ -1 →
        env.getMasternodeRank vin nBlockHeight ≤ swiftTxSignaturesTotal →
          vin.prevout ∈ collaterals.take swiftTxSignaturesTotal := by
    intro env vote arrived vin ranked high
    unfold SwiftTxEnv.getMasternodeRank at ranked high
    cases scored : env.masternodeScores nBlockHeight with
    | none =>
      rw [scored] at ranked
      exact absurd rfl ranked
    | some scores =>
      rw [scored] at ranked high
      rw [← agreed env vote arrived scores scored]
      apply mem_take_of_findRank_le ranked
      simpa using high
  refine ⟨(collaterals.take swiftTxSignaturesTotal).toFinset, ?_, ?_, ?_⟩
  · have atMost := List.toFinset_card_le (collaterals.take swiftTxSignaturesTotal)
    rw [List.length_take] at atMost
    unfold swiftTxSignaturesTotal at atMost ⊢
    unfold swiftTxSignaturesRequired
    omega
  · rintro prevout ⟨env, vote, height, vin, arrived, chosen, rfl, ranked, high⟩
    rw [selected height chosen] at ranked high
    exact List.mem_toFinset.mpr
      (ranked_mem env vote (List.mem_append_left _ arrived) vin ranked high)
  · rintro prevout ⟨env, vote, height, vin, arrived, chosen, rfl, ranked, high⟩
    rw [otherSelected height chosen] at ranked high
    exact List.mem_toFinset.mpr
      (ranked_mem env vote (List.mem_append_right _ arrived) vin ranked high)

/-- Two lists without repetitions that hold more than a set does between them share a
member. -/
theorem exists_mem_of_card_lt
    [DecidableEq Member] {members : Finset Member}
    {left right : List Member}
    (leftNodup : left.Nodup)
    (rightNodup : right.Nodup)
    (leftIn : ∀ member ∈ left, member ∈ members)
    (rightIn : ∀ member ∈ right, member ∈ members)
    (crowded : members.card < left.length + right.length) :
    ∃ member ∈ left, member ∈ right := by
  rw [← List.toFinset_card_of_nodup leftNodup, ← List.toFinset_card_of_nodup rightNodup]
    at crowded
  have shared := Finset.inter_nonempty_of_card_lt_card_add_card
    (fun member inLeft => leftIn member (List.mem_toFinset.mp inLeft))
    (fun member inRight => rightIn member (List.mem_toFinset.mp inRight)) crowded
  obtain ⟨member, inBoth⟩ := shared
  rw [Finset.mem_inter, List.mem_toFinset, List.mem_toFinset] at inBoth
  exact ⟨member, inBoth.1, inBoth.2⟩

theorem SwiftTxState.isComplete_of_signatures
    {state : SwiftTxState}
    (signed : swiftTxSignaturesRequired ≤ state.getTransactionLockSignatures env txHash) :
    state.isComplete txHash = true := by
  unfold SwiftTxState.getTransactionLockSignatures at signed
  unfold SwiftTxState.isComplete
  split_ifs at signed
  · omega
  · omega
  · split at signed
    · omega
    · exact decide_eq_true signed

/-- A complete lock has the votes of enough masternodes that could be elected for its
transaction. -/
theorem VotesKept.voters_of_isComplete
    (kept : VotesKept trace state)
    (complete : state.isComplete txHash = true) :
    ∃ voters : List COutPoint,
      voters.Nodup ∧ swiftTxSignaturesRequired ≤ voters.length ∧
        ∀ voter ∈ voters, Electable trace txHash voter ∧
          ∃ vote, vote.vinMasternode.prevout = voter ∧ vote.txHash = txHash ∧
            SignedIn trace vote := by
  have selected := kept.selected txHash ((state.isComplete_iff txHash).mp complete).1
  obtain ⟨lock, held⟩ := kept.completeLock_of_isComplete complete
  rw [SwiftTxState.heightFor_eq held.found] at selected
  refine ⟨lock.countedVotes.map fun vote => vote.vinMasternode.prevout, held.distinct, ?_, ?_⟩
  · rw [List.length_map]
    exact held.enough
  · intro voter member
    obtain ⟨vote, counted, rfl⟩ := List.mem_map.mp member
    obtain ⟨named, ranked⟩ := held.ranked vote counted
    have sameHeight : vote.nBlockHeight = lock.nBlockHeight :=
      beq_iff_eq.mp (List.mem_filter.mp counted).2
    refine ⟨?_, vote, rfl, named, ranked.signedIn⟩
    obtain ⟨env, arrived, valid⟩ := ranked
    simp only [SwiftTxEnv.votesValidly, Bool.and_eq_true, bne_iff_ne, decide_eq_true_eq,
      sameHeight] at valid
    exact ⟨env, vote, lock.nBlockHeight, vote.vinMasternode, arrived, selected, rfl,
      valid.1.1, valid.1.2⟩

/-- Where no masternode votes for conflicting transactions and fewer than twelve can be
elected for two of them, not both obtain a complete lock, in whatever order the requests,
votes and cleanups come, on one node or on two. -/
theorem conflictingLocks_exclude
    {trace otherTrace : List SwiftTxAction} {state otherState : SwiftTxState}
    {tx other : CTransaction}
    (run : swiftTxSystem.Run .empty trace state)
    (otherRun : swiftTxSystem.Run .empty otherTrace otherState)
    (conflicting : Conflicting tx other)
    (honest : NoDoubleVote (trace ++ otherTrace))
    (few : FewElectable trace tx.hash otherTrace other.hash)
    (env otherEnv : SwiftTxEnv) :
    ¬ (swiftTxSignaturesRequired ≤ state.getTransactionLockSignatures env tx.hash ∧
      swiftTxSignaturesRequired ≤
        otherState.getTransactionLockSignatures otherEnv other.hash) := by
  rintro ⟨signed, otherSigned⟩
  obtain ⟨elected, fewer, electedFirst, electedSecond⟩ := few
  obtain ⟨voters, nodup, enough, voted⟩ := (VotesKept.of_run run).voters_of_isComplete
    (SwiftTxState.isComplete_of_signatures signed)
  obtain ⟨others, othersNodup, othersEnough, othersVoted⟩ :=
    (VotesKept.of_run otherRun).voters_of_isComplete
      (SwiftTxState.isComplete_of_signatures otherSigned)
  have crowded : elected.card < voters.length + others.length := by omega
  obtain ⟨voter, first, second⟩ := exists_mem_of_card_lt nodup othersNodup
    (fun voter member => electedFirst voter (voted voter member).1)
    (fun voter member => electedSecond voter (othersVoted voter member).1) crowded
  obtain ⟨vote, voteBy, voteFor, voteSigned⟩ := (voted voter first).2
  obtain ⟨twin, twinBy, twinFor, twinSigned⟩ := (othersVoted voter second).2
  apply honest tx other conflicting vote twin
    (voteSigned.mono (List.subset_append_left _ _))
    (twinSigned.mono (List.subset_append_right _ _)) voteFor twinFor
  rw [voteBy, twinBy]

/-- A rival payment is requested after the votes for the first one. -/
def rivalRequest : List SwiftTxAction :=
  sixVotes ++ [.ix (lockingEnv false) rivalPayment]

theorem conflictingLocks_exclude_rivalRequest :
    (6 : Int) ≤ (rivalRequest.foldl SwiftTxAction.apply .empty).getTransactionLockSignatures
        (lockingEnv true) 500 ∧
      ¬ (6 : Int) ≤
        (rivalRequest.foldl SwiftTxAction.apply .empty).getTransactionLockSignatures
          (lockingEnv true) 501 := by
  have first : (6 : Int) ≤
      (rivalRequest.foldl SwiftTxAction.apply .empty).getTransactionLockSignatures
        (lockingEnv true) 500 := by
    decide
  refine ⟨first, fun second => ?_⟩
  have run : swiftTxSystem.Run .empty rivalRequest
      (rivalRequest.foldl SwiftTxAction.apply .empty) :=
    LabelledSystem.Run.foldl (fun _ _ _ => rfl) _
  have conflicting : Conflicting lockedPayment rivalPayment := by
    refine ⟨by decide, ⟨900, 0⟩, by decide, by decide⟩
  have happened : ∀ action ∈ rivalRequest,
      action = .ix (lockingEnv true) lockedPayment ∨
        (∃ n, action = .txlvote (lockingEnv true) (voteForPayment n)) ∨
          action = .ix (lockingEnv false) rivalPayment := by
    intro action member
    simp only [rivalRequest, sixVotes, List.cons_append, List.mem_cons, List.mem_append,
      List.mem_map, List.not_mem_nil, or_false] at member
    rcases member with rfl | ⟨n, -, rfl⟩ | rfl
    · exact .inl rfl
    · exact .inr (.inl ⟨n, rfl⟩)
    · exact .inr (.inr rfl)
  have honest : NoDoubleVote (rivalRequest ++ rivalRequest) := by
    rintro tx other ⟨apart, -⟩ vote twin ⟨env, arrived, -⟩ ⟨twinEnv, twinArrived, -⟩ named twinNamed
    have forPayment : ∀ env vote,
        SwiftTxAction.txlvote env vote ∈ rivalRequest ++ rivalRequest → vote.txHash = 500 := by
      intro env vote arrived
      rw [List.mem_append, or_self] at arrived
      rcases happened _ arrived with none | ⟨n, voted⟩ | none
      · cases none
      · cases voted
        rfl
      · cases none
    rw [forPayment env vote arrived] at named
    rw [forPayment twinEnv twin twinArrived] at twinNamed
    exact absurd (named.symm.trans twinNamed) apart
  have selected : ∀ txHash height, SelectedIn rivalRequest txHash height → height = 93 := by
    rintro txHash height ⟨env, tx, requested | requested, -, computed⟩
    · rcases happened _ requested with first | ⟨n, voted⟩ | last
      · cases first
        exact (Option.some.inj computed).symm
      · cases voted
      · cases last
        exact (Option.some.inj computed).symm
    · rcases happened _ requested with first | ⟨n, voted⟩ | last
      · cases first
      · cases voted
      · cases last
  have few : FewElectable rivalRequest 500 rivalRequest 501 := by
    refine @fewElectable_of_sameHeight _ _ _ _ 93 ((List.range 10).map fun n => ⟨n + 1, 0⟩)
      (selected 500) (selected 501) ?_
    intro env vote arrived scores scored
    rw [List.mem_append, or_self] at arrived
    rcases happened _ arrived with none | ⟨n, voted⟩ | none
    · cases none
    · cases voted
      rw [← Option.some.inj scored]
    · cases none
  exact conflictingLocks_exclude run run conflicting honest few _ _ ⟨first, second⟩

/-- A node with coins of different heights and with twenty masternodes, of which other ten
are highest at height 203. -/
def twoQuorumsEnv : SwiftTxEnv :=
  { lockingEnv true with
    tipHeight := 1000
    coinsHeight := fun txHash => some (if txHash = 902 then 200 else 100)
    acceptToMemoryPool := fun tx => tx.hash == 600
    masternodeScores := fun nBlockHeight =>
      if nBlockHeight = 203 then some ((List.range 20).map fun n => ⟨(n + 10) % 20 + 1, 0⟩)
      else some ((List.range 20).map fun n => ⟨n + 1, 0⟩) }

/-- A payment of an older coin, with a shared one. -/
def olderPayment : CTransaction where
  hash := 600
  nVersion := 1
  vin := [⟨⟨901, 0⟩, [], 0⟩, ⟨⟨903, 0⟩, [], 0⟩]
  vout := []
  nLockTime := 0

/-- A payment of a newer coin, with the same shared one. -/
def newerPayment : CTransaction where
  hash := 601
  nVersion := 1
  vin := [⟨⟨902, 0⟩, [], 0⟩, ⟨⟨903, 0⟩, [], 0⟩]
  vout := []
  nLockTime := 0

/-- Both payments are requested.  Masternodes 1 to 6 vote for the first one and 11 to 16
for the second one, each at the height that the payment selects. -/
def twoQuorums : List SwiftTxAction :=
  [.ix twoQuorumsEnv olderPayment, .ix twoQuorumsEnv newerPayment] ++
    (List.range 6).map (fun n =>
      .txlvote twoQuorumsEnv ⟨⟨⟨n + 1, 0⟩, [], 0⟩, 600, 103, []⟩) ++
    (List.range 6).map fun n =>
      .txlvote twoQuorumsEnv ⟨⟨⟨n + 11, 0⟩, [], 0⟩, 601, 203, []⟩

/-- Two transactions that share their second input both obtain a complete lock on one node,
with no masternode voting for both. -/
theorem conflictingLocks_twoQuorums :
    ∃ trace state, swiftTxSystem.Run .empty trace state ∧
      Conflicting olderPayment newerPayment ∧ NoDoubleVote trace ∧
        (swiftTxSignaturesRequired ≤
            state.getTransactionLockSignatures twoQuorumsEnv olderPayment.hash ∧
          swiftTxSignaturesRequired ≤
            state.getTransactionLockSignatures twoQuorumsEnv newerPayment.hash) := by
  refine ⟨twoQuorums, twoQuorums.foldl SwiftTxAction.apply .empty,
    LabelledSystem.Run.foldl (fun _ _ _ => rfl) _, ?_, ?_, ?_⟩
  · refine ⟨by decide, ⟨903, 0⟩, by decide, by decide⟩
  · have forOne : ∀ env vote, SwiftTxAction.txlvote env vote ∈ twoQuorums →
        vote.txHash = 600 ∧ vote.vinMasternode.prevout.hash ≤ 6 ∨
          vote.txHash = 601 ∧ 10 < vote.vinMasternode.prevout.hash := by
      intro env vote arrived
      simp only [twoQuorums, List.mem_append, List.mem_cons, List.mem_map, List.mem_range,
        List.not_mem_nil, or_false] at arrived
      rcases arrived with (none | ⟨n, small, voted⟩) | ⟨n, small, voted⟩
      · rcases none with none | none <;> cases none
      · cases voted
        exact .inl ⟨rfl, Nat.succ_le_of_lt small⟩
      · cases voted
        exact .inr ⟨rfl, Nat.lt_add_of_pos_left (Nat.succ_pos n)⟩
    rintro tx other ⟨apart, -⟩ vote twin ⟨env, arrived, -⟩ ⟨twinEnv, twinArrived, -⟩
      named twinNamed same
    rcases forOne env vote arrived with ⟨hash, low⟩ | ⟨hash, high⟩ <;>
      rcases forOne twinEnv twin twinArrived with ⟨twinHash, twinLow⟩ | ⟨twinHash, twinHigh⟩
    · exact apart (by rw [← named, ← twinNamed, hash, twinHash])
    · rw [same] at low
      exact absurd (Nat.lt_of_lt_of_le twinHigh low) (by decide)
    · rw [same] at high
      exact absurd (Nat.lt_of_lt_of_le high twinLow) (by decide)
    · exact apart (by rw [← named, ← twinNamed, hash, twinHash])
  · decide

end ColossusCoin
