import ColossusCoin.Library.LatestWins
import ColossusCoin.Primitives.Transaction
import Mathlib.Data.Finset.Max

/-!
# Votes for the budget

Masternodes vote for proposals and for finalized budgets.  A proposal and a finalized
budget keep one vote of each masternode, here under its outpoint instead of the hash of
that, and take a new one only some time after the one they keep.
-/

namespace ColossusCoin

/-- `BUDGET_VOTE_UPDATE_MIN`, in seconds. -/
def budgetVoteUpdateMin : Int := 60 * 60

structure CBudgetVote where
  vin : CTxIn
  nProposalHash : Uint256
  nVote : Int
  nTime : Int
  vchSig : List UInt8
  deriving DecidableEq, Repr

structure CFinalizedBudgetVote where
  vin : CTxIn
  nBudgetHash : Uint256
  nTime : Int
  vchSig : List UInt8
  deriving DecidableEq, Repr

/-- How the fields of votes are hashed. -/
structure BudgetHashes where
  budgetVote : CTxIn → Uint256 → Int → Int → Uint256
  finalizedBudgetVote : CTxIn → Uint256 → Int → Uint256

/-- What the two kinds of votes have in common. -/
class BudgetBallot (Vote : Type) where
  vin : Vote → CTxIn
  /-- The proposal or the finalized budget that is voted for. -/
  nItemHash : Vote → Uint256
  nTime : Vote → Int
  /-- `GetHash`, which leaves the signature out. -/
  getHash : BudgetHashes → Vote → Uint256

instance : BudgetBallot CBudgetVote where
  vin := CBudgetVote.vin
  nItemHash := CBudgetVote.nProposalHash
  nTime := CBudgetVote.nTime
  getHash hashes vote :=
    hashes.budgetVote vote.vin vote.nProposalHash vote.nVote vote.nTime

instance : BudgetBallot CFinalizedBudgetVote where
  vin := CFinalizedBudgetVote.vin
  nItemHash := CFinalizedBudgetVote.nBudgetHash
  nTime := CFinalizedBudgetVote.nTime
  getHash hashes vote := hashes.finalizedBudgetVote vote.vin vote.nBudgetHash vote.nTime

/-- The votes that are kept, each under the outpoint of its masternode. -/
abbrev VoteMap (Vote : Type) := COutPoint → Option Vote

/-- Why a vote is not taken. -/
inductive VoteError
  | olderThanExisting (hash : Uint256)
  | tooSoon (hash : Uint256) (gap : Int)
  | tooFarAhead (hash : Uint256) (nTime maxTime : Int)
  deriving DecidableEq, Repr

/-- `uint256::ToString`. -/
def uint256ToString (hash : Uint256) : String :=
  let digits := Nat.toDigits 16 hash
  String.ofList (List.replicate (64 - digits.length) '0' ++ digits)

/-- The text of an error. -/
def VoteError.strError : VoteError → String
  | olderThanExisting hash =>
    "new vote older than existing vote - " ++ uint256ToString hash ++ "\n"
  | tooSoon hash gap =>
    "time between votes is too soon - " ++ uint256ToString hash ++ " - " ++
      toString gap ++ " sec < " ++ toString budgetVoteUpdateMin ++ " sec\n"
  | tooFarAhead hash nTime maxTime =>
    "new vote is too far ahead of current time - " ++ uint256ToString hash ++
      " - nTime " ++ toString nTime ++ " - Max Time " ++ toString maxTime ++ "\n"

namespace BudgetBallot

variable [BudgetBallot Vote]

/-- The masternode of a vote. -/
def masternode (vote : Vote) : COutPoint := (vin vote).prevout

/-- What the vote that is kept has against a new one. -/
def refusal (hashes : BudgetHashes) (mapVotes : VoteMap Vote) (vote : Vote) :
    Option VoteError :=
  match mapVotes (masternode vote) with
  | none => none
  | some held =>
    if nTime vote < nTime held then some (.olderThanExisting (getHash hashes vote))
    else if nTime vote - nTime held < budgetVoteUpdateMin then
      some (.tooSoon (getHash hashes vote) (nTime vote - nTime held))
    else none

/-- `AddOrUpdateVote`, for both kinds of votes. -/
def addOrUpdateVote (hashes : BudgetHashes) (time : Int) (mapVotes : VoteMap Vote)
    (vote : Vote) : Except VoteError (VoteMap Vote) :=
  match refusal hashes mapVotes vote with
  | some error => .error error
  | none =>
    if time + 60 * 60 < nTime vote then
      .error (.tooFarAhead (getHash hashes vote) (nTime vote) (time + 60 * 60))
    else .ok (Function.update mapVotes (masternode vote) (some vote))

/-- The votes that are kept after one arrived that `AddOrUpdateVote` may take. -/
def receiveVote (update : Int → VoteMap Vote → Vote → Except VoteError (VoteMap Vote))
    (mapVotes : VoteMap Vote) (delivery : Int × Vote) : VoteMap Vote :=
  match update delivery.1 mapVotes delivery.2 with
  | .error _ => mapVotes
  | .ok updated => updated

/-- The votes that are kept after deliveries, each a vote with the time it arrives at. -/
def receiveVotes (update : Int → VoteMap Vote → Vote → Except VoteError (VoteMap Vote))
    (mapVotes : VoteMap Vote) (deliveries : List (Int × Vote)) : VoteMap Vote :=
  deliveries.foldl (receiveVote update) mapVotes

/-- Deliveries of all votes of a set and no others, none of them too far ahead of the time
it arrives at. -/
structure Delivers (votes : Finset Vote) (deliveries : List (Int × Vote)) : Prop where
  covers : ∀ vote, vote ∈ deliveries.map Prod.snd ↔ vote ∈ votes
  acceptable : ∀ delivery ∈ deliveries, nTime delivery.2 ≤ delivery.1 + 60 * 60

/-- A vote may take the place of another one. -/
def Updates (held vote : Vote) : Prop :=
  nTime held + budgetVoteUpdateMin ≤ nTime vote

instance : DecidableRel (@Updates Vote _) :=
  fun held vote => inferInstanceAs (Decidable (nTime held + budgetVoteUpdateMin ≤ nTime vote))

instance : IsStrictOrder Vote Updates where
  irrefl vote := by
    unfold Updates budgetVoteUpdateMin
    omega
  trans first second third := by
    unfold Updates budgetVoteUpdateMin
    omega

/-- A vote of a set that is kept whenever it arrives first: it may replace the vote kept
before, and no vote of its masternode is later by as much as an update has to be. -/
structure Lasting (mapVotes : VoteMap Vote) (votes : Finset Vote) (vote : Vote) : Prop where
  mem : vote ∈ votes
  updates : ∀ held ∈ mapVotes (masternode vote), nTime held + budgetVoteUpdateMin ≤ nTime vote
  last : ∀ other ∈ votes, masternode other = masternode vote →
    nTime other < nTime vote + budgetVoteUpdateMin

theorem receiveVote_eq
    (hashes : BudgetHashes) (mapVotes : VoteMap Vote)
    (acceptable : nTime delivery.2 ≤ delivery.1 + 60 * 60) :
    receiveVote (addOrUpdateVote hashes) mapVotes delivery =
      LatestWins.deliver Updates (fun vote => some (masternode vote)) mapVotes delivery.2 := by
  obtain ⟨time, vote⟩ := delivery
  unfold receiveVote addOrUpdateVote refusal LatestWins.deliver
  have onTime : ¬ time + 3600 < nTime vote := not_lt.mpr acceptable
  cases kept : mapVotes (masternode vote) with
  | none => simp [onTime, kept]
  | some held =>
    by_cases updates : Updates held vote
    · have later : ¬ nTime vote < nTime held ∧
          ¬ nTime vote - nTime held < budgetVoteUpdateMin := by
        unfold Updates budgetVoteUpdateMin at updates
        unfold budgetVoteUpdateMin
        omega
      simp [onTime, kept, updates, later.1, later.2]
    · have soon : nTime vote < nTime held ∨
          nTime vote - nTime held < budgetVoteUpdateMin := by
        unfold Updates at updates
        omega
      have stays : Function.update mapVotes (masternode vote) (some held) = mapVotes := by
        rw [← kept, Function.update_eq_self]
      by_cases older : nTime vote < nTime held
      · simp [kept, updates, older, stays]
      · simp [kept, updates, older, soon.resolve_left older, stays]

theorem receiveVotes_eq
    (hashes : BudgetHashes) (mapVotes : VoteMap Vote)
    (acceptable : ∀ delivery ∈ deliveries, nTime delivery.2 ≤ delivery.1 + 60 * 60) :
    receiveVotes (addOrUpdateVote hashes) mapVotes deliveries =
      (deliveries.map Prod.snd).foldl
        (LatestWins.deliver Updates fun vote => some (masternode vote)) mapVotes := by
  unfold receiveVotes
  induction deliveries generalizing mapVotes with
  | nil => rfl
  | cons delivery rest ih =>
    rw [List.forall_mem_cons] at acceptable
    rw [List.foldl_cons, receiveVote_eq hashes mapVotes acceptable.1,
      ih _ acceptable.2, List.map_cons, List.foldl_cons]

theorem final_iff_lasting
    (mapVotes : VoteMap Vote) (votes : Finset Vote) (outpoint : COutPoint) (vote : Vote) :
    LatestWins.Final Updates (fun vote => some (masternode vote)) mapVotes votes outpoint vote ↔
      Lasting mapVotes votes vote ∧ masternode vote = outpoint := by
  constructor
  · rintro ⟨member, keyed, taken, latest⟩
    obtain rfl := Option.some.inj keyed
    refine ⟨⟨member, taken, ?_⟩, rfl⟩
    intro other otherMember same
    exact not_le.mp (latest other otherMember (congrArg some same))
  · rintro ⟨⟨member, updates, last⟩, rfl⟩
    refine ⟨member, rfl, updates, ?_⟩
    intro other otherMember keyed
    exact not_le.mpr (last other otherMember (Option.some.inj keyed))

theorem delivers_arrivals
    (hashes : BudgetHashes) (mapVotes : VoteMap Vote)
    {arrivals : List Vote}
    (covers : ∀ vote, vote ∈ arrivals ↔ vote ∈ votes) :
    Delivers votes (arrivals.map fun vote => (nTime vote, vote)) ∧
      receiveVotes (addOrUpdateVote hashes) mapVotes (arrivals.map fun vote => (nTime vote, vote)) =
        arrivals.foldl (LatestWins.deliver Updates fun vote => some (masternode vote))
          mapVotes := by
  have acceptable : ∀ delivery ∈ arrivals.map fun vote => (nTime vote, vote),
      nTime delivery.2 ≤ delivery.1 + 60 * 60 := by
    intro delivery member
    obtain ⟨vote, _, rfl⟩ := List.mem_map.mp member
    show nTime vote ≤ nTime vote + 60 * 60
    omega
  have arrived : (arrivals.map fun vote => (nTime vote, vote)).map Prod.snd = arrivals := by
    rw [List.map_map]
    exact List.map_id arrivals
  refine ⟨⟨by rw [arrived]; exact covers, acceptable⟩, ?_⟩
  rw [receiveVotes_eq hashes mapVotes acceptable, arrived]

/-- All orders of delivery end alike. -/
def Converges (update : Int → VoteMap Vote → Vote → Except VoteError (VoteMap Vote))
    (mapVotes : VoteMap Vote) (votes : Finset Vote) : Prop :=
  ∀ first second : List (Int × Vote), Delivers votes first → Delivers votes second →
    receiveVotes update mapVotes first = receiveVotes update mapVotes second

/-- No masternode has two lasting votes. -/
def OneLasting (mapVotes : VoteMap Vote) (votes : Finset Vote) : Prop :=
  ∀ vote other, Lasting mapVotes votes vote → Lasting mapVotes votes other →
    masternode vote = masternode other → vote = other

/-- Of each masternode that voted its latest vote is kept. -/
def KeepsLatest (votes : Finset Vote) (mapVotes : VoteMap Vote) : Prop :=
  ∀ vote ∈ votes,
    (∀ other ∈ votes, masternode other = masternode vote → nTime other ≤ nTime vote) →
      mapVotes (masternode vote) = some vote

theorem converges_iff
    (hashes : BudgetHashes) (mapVotes : VoteMap Vote) (votes : Finset Vote) :
    Converges (addOrUpdateVote hashes) mapVotes votes ↔ OneLasting mapVotes votes := by
  have registers : Converges (addOrUpdateVote hashes) mapVotes votes ↔
      ∀ first second : List Vote,
        (∀ vote, vote ∈ first ↔ vote ∈ votes) → (∀ vote, vote ∈ second ↔ vote ∈ votes) →
          first.foldl (LatestWins.deliver Updates fun vote => some (masternode vote)) mapVotes =
            second.foldl (LatestWins.deliver Updates fun vote => some (masternode vote))
              mapVotes := by
    constructor
    · intro converges first second coversFirst coversSecond
      obtain ⟨delivers, received⟩ := delivers_arrivals hashes mapVotes coversFirst
      obtain ⟨delivers', received'⟩ := delivers_arrivals hashes mapVotes coversSecond
      rw [← received, ← received']
      exact converges _ _ delivers delivers'
    · intro converges first second delivers delivers'
      rw [receiveVotes_eq hashes mapVotes delivers.acceptable,
        receiveVotes_eq hashes mapVotes delivers'.acceptable]
      exact converges _ _ delivers.covers delivers'.covers
  rw [registers, LatestWins.converges_iff]
  constructor
  · intro unique vote other lasting otherLasting same
    exact unique (masternode vote) vote other ((final_iff_lasting _ _ _ _).mpr ⟨lasting, rfl⟩)
      ((final_iff_lasting _ _ _ _).mpr ⟨otherLasting, same.symm⟩)
  · intro unique outpoint vote other final otherFinal
    obtain ⟨lasting, named⟩ := (final_iff_lasting _ _ _ _).mp final
    obtain ⟨otherLasting, otherNamed⟩ := (final_iff_lasting _ _ _ _).mp otherFinal
    exact unique vote other lasting otherLasting (named.trans otherNamed.symm)

/-- Where there were no votes, the latest votes are kept whatever the order exactly when
no masternode has two lasting votes. -/
theorem keepsLatest_iff (hashes : BudgetHashes) (votes : Finset Vote) :
    (∀ deliveries, Delivers votes deliveries →
      KeepsLatest votes (receiveVotes (addOrUpdateVote hashes) (fun _ => none) deliveries)) ↔
      OneLasting (fun _ => none) votes := by
  constructor
  · intro keeps vote other lasting otherLasting same
    -- A lasting vote is kept when it comes first, and so is the latest one.
    have latest : ∀ first, Lasting (fun _ => none) votes first →
        ∀ final ∈ votes,
          (∀ next ∈ votes, masternode next = masternode final → nTime next ≤ nTime final) →
            masternode final = masternode first → final = first := by
      intro first firstLasting final finalMember greatest sameMasternode
      have covers : ∀ next, next ∈ votes.toList ↔ next ∈ votes := fun next => Finset.mem_toList
      have coversFrom : ∀ next, next ∈ first :: votes.toList ↔ next ∈ votes := by
        intro next
        rw [List.mem_cons, Finset.mem_toList]
        exact or_iff_right_of_imp fun named => named ▸ firstLasting.mem
      obtain ⟨delivers, received⟩ := delivers_arrivals hashes (fun _ => none) coversFrom
      have kept := keeps _ delivers final finalMember greatest
      rw [received, sameMasternode, LatestWins.foldl_deliver_first
        ((final_iff_lasting _ _ _ _).mpr ⟨firstLasting, rfl⟩) covers] at kept
      exact (Option.some.inj kept).symm
    obtain ⟨final, finalMember, greatest⟩ := Finset.exists_max_image
      (votes.filter fun next => masternode next = masternode vote) nTime
      ⟨vote, Finset.mem_filter.mpr ⟨lasting.mem, rfl⟩⟩
    rw [Finset.mem_filter] at finalMember
    have greatestOfAll : ∀ next ∈ votes, masternode next = masternode final →
        nTime next ≤ nTime final := by
      intro next member named
      exact greatest next (Finset.mem_filter.mpr ⟨member, named.trans finalMember.2⟩)
    rw [← latest vote lasting final finalMember.1 greatestOfAll finalMember.2,
      ← latest other otherLasting final finalMember.1 greatestOfAll (finalMember.2.trans same)]
  · intro unique deliveries delivers vote member greatest
    have lasting : Lasting (fun _ => none) votes vote := by
      refine ⟨member, (fun held kept => nomatch kept), ?_⟩
      intro other otherMember same
      have earlier := greatest other otherMember same
      unfold budgetVoteUpdateMin
      omega
    rw [receiveVotes_eq hashes _ delivers.acceptable]
    rcases LatestWins.foldl_deliver_spec Updates (fun vote => some (masternode vote))
      (fun _ => none) delivers.covers (masternode vote) with ⟨_, noFinal⟩ | ⟨final, isFinal, found⟩
    · exact absurd ((final_iff_lasting _ _ _ _).mpr ⟨lasting, rfl⟩) (noFinal vote)
    · obtain ⟨finalLasting, named⟩ := (final_iff_lasting _ _ _ _).mp isFinal
      rw [found, unique final vote finalLasting lasting named]

end BudgetBallot

open BudgetBallot

/-- `CBudgetProposal::AddOrUpdateVote`, on the votes of the proposal. -/
def CBudgetProposal.addOrUpdateVote (hashes : BudgetHashes) :
    Int → VoteMap CBudgetVote → CBudgetVote → Except VoteError (VoteMap CBudgetVote) :=
  BudgetBallot.addOrUpdateVote hashes

/-- `CFinalizedBudget::AddOrUpdateVote`, on the votes of the finalized budget. -/
def CFinalizedBudget.addOrUpdateVote (hashes : BudgetHashes) :
    Int → VoteMap CFinalizedBudgetVote → CFinalizedBudgetVote →
      Except VoteError (VoteMap CFinalizedBudgetVote) :=
  BudgetBallot.addOrUpdateVote hashes

/-- The votes for a proposal, and those for a finalized budget, end alike in all orders of
delivery exactly when no masternode has two lasting votes; starting from none, the latest
votes are kept under that same condition. -/
theorem budgetVotes_converge_iff (hashes : BudgetHashes) :
    (∀ (mapVotes : VoteMap CBudgetVote) (votes : Finset CBudgetVote),
      Converges (CBudgetProposal.addOrUpdateVote hashes) mapVotes votes ↔
        OneLasting mapVotes votes) ∧
    (∀ (mapVotes : VoteMap CFinalizedBudgetVote) (votes : Finset CFinalizedBudgetVote),
      Converges (CFinalizedBudget.addOrUpdateVote hashes) mapVotes votes ↔
        OneLasting mapVotes votes) ∧
    (∀ votes : Finset CBudgetVote,
      (∀ deliveries, Delivers votes deliveries →
        KeepsLatest votes
          (receiveVotes (CBudgetProposal.addOrUpdateVote hashes) (fun _ => none) deliveries)) ↔
        OneLasting (fun _ => none) votes) ∧
    ∀ votes : Finset CFinalizedBudgetVote,
      (∀ deliveries, Delivers votes deliveries →
        KeepsLatest votes
          (receiveVotes (CFinalizedBudget.addOrUpdateVote hashes) (fun _ => none)
            deliveries)) ↔
        OneLasting (fun _ => none) votes :=
  ⟨converges_iff hashes, converges_iff hashes, keepsLatest_iff hashes, keepsLatest_iff hashes⟩

/-- Hashes that tell nothing apart. -/
def noHashes : BudgetHashes where
  budgetVote _ _ _ _ := 0
  finalizedBudgetVote _ _ _ := 0

/-- A vote of one masternode for a proposal. -/
def proposalVote (nVote nTime : Int) : CBudgetVote where
  vin := ⟨⟨7, 0⟩, [], 0⟩
  nProposalHash := 100
  nVote := nVote
  nTime := nTime
  vchSig := []

/-- A vote of the same masternode for a finalized budget. -/
def finalizedVote (nTime : Int) : CFinalizedBudgetVote where
  vin := ⟨⟨7, 0⟩, [], 0⟩
  nBudgetHash := 100
  nTime := nTime
  vchSig := []

/-- Two votes that are less than an hour apart: the one that arrives first is kept. -/
theorem receiveVotes_diverge :
    let first := (1530003000, proposalVote 1 1530000000)
    let second := (1530003000, proposalVote 2 1530003000)
    let ofProposal := receiveVotes (CBudgetProposal.addOrUpdateVote noHashes) fun _ => none
    let third := (1530003000, finalizedVote 1530000000)
    let fourth := (1530003000, finalizedVote 1530003000)
    let ofBudget := receiveVotes (CFinalizedBudget.addOrUpdateVote noHashes) fun _ => none
    ofProposal [first, second] ⟨7, 0⟩ = some (proposalVote 1 1530000000) ∧
      ofProposal [second, first] ⟨7, 0⟩ = some (proposalVote 2 1530003000) ∧
      ofBudget [third, fourth] ⟨7, 0⟩ = some (finalizedVote 1530000000) ∧
      ofBudget [fourth, third] ⟨7, 0⟩ = some (finalizedVote 1530003000) := by
  decide

end ColossusCoin
