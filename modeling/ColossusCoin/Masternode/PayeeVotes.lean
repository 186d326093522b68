import ColossusCoin.Library.SortedMap
import ColossusCoin.Primitives.Transaction

/-!
# Votes for the payees of blocks

Masternodes vote for who is paid in a block: a node records the winners that arrive and
those it chooses itself, tallies them for each height, and remembers the height a
masternode voted for last.  What a node goes by when a message arrives, its chain, the
masternodes with their ranks and the signatures, is for it to say.  Relaying, requests to
peers, penalties and the counters of the synchronisation are left out.
-/

namespace ColossusCoin

structure CMasternodePayee where
  scriptPubKey : CScript
  nVotes : Int
  deriving DecidableEq, Repr

structure CMasternodeBlockPayees where
  nBlockHeight : Int
  vecPayments : List CMasternodePayee
  deriving DecidableEq, Repr

namespace CMasternodeBlockPayees

/-- The loop of `AddPayee`. -/
def addPayeeTo (payeeIn : CScript) (nIncrement : Int) :
    List CMasternodePayee → List CMasternodePayee
  | [] => [⟨payeeIn, nIncrement⟩]
  | payee :: rest =>
    if payee.scriptPubKey = payeeIn then
      { payee with nVotes := payee.nVotes + nIncrement } :: rest
    else payee :: addPayeeTo payeeIn nIncrement rest

def addPayee (payees : CMasternodeBlockPayees) (payeeIn : CScript) (nIncrement : Int) :
    CMasternodeBlockPayees :=
  { payees with vecPayments := addPayeeTo payeeIn nIncrement payees.vecPayments }

/-- The votes of a payee, none where it is not listed. -/
def votesOf (payees : CMasternodeBlockPayees) (payee : CScript) : Int :=
  ((payees.vecPayments.find? fun listed => listed.scriptPubKey = payee).map
    CMasternodePayee.nVotes).getD 0

theorem votesOf_addPayee
    (payees : CMasternodeBlockPayees) (payeeIn : CScript) (nIncrement : Int)
    (payee : CScript) :
    (payees.addPayee payeeIn nIncrement).votesOf payee =
      payees.votesOf payee + if payee = payeeIn then nIncrement else 0 := by
  obtain ⟨nBlockHeight, vecPayments⟩ := payees
  simp only [addPayee, votesOf]
  induction vecPayments with
  | nil =>
    by_cases same : payee = payeeIn
    · simp [addPayeeTo, same]
    · simp [addPayeeTo, same, Ne.symm same]
  | cons listed rest ih =>
    unfold addPayeeTo
    by_cases here : listed.scriptPubKey = payeeIn
    · by_cases same : payee = payeeIn
      · simp [here, same]
      · simp [here, same, Ne.symm same]
    · by_cases found : listed.scriptPubKey = payee
      · have different : payee ≠ payeeIn := fun same => here (found.trans same)
        simp [found, different]
      · simpa [here, found] using ih

end CMasternodeBlockPayees

structure CMasternodePaymentWinner where
  vinMasternode : CTxIn
  nBlockHeight : Int
  payee : CScript
  vchSig : List UInt8
  deriving DecidableEq, Repr

/-- What a node goes by when it handles votes for payees. -/
structure PayeeEnv where
  fLiteMode : Bool
  isBlockchainSynced : Bool
  /-- The peer speaks a version of the protocol that is active. -/
  isPeerActive : Bool
  /-- The height of the tip, if there is one and the chain is not locked. -/
  tipHeight : Option Int
  /-- `mnodeman.CountEnabled`. -/
  countEnabled : Nat
  /-- `mnodeman.size`. -/
  countMasternodes : Nat
  /-- `ActiveProtocol`. -/
  activeProtocol : Int
  /-- `GetMasternodePaymentSigTotal`. -/
  nPaymentSigTotal : Int
  /-- The protocol version of a masternode that `mnodeman.Find` finds. -/
  protocolVersion : COutPoint → Option Int
  /-- `GetMasternodeRank`. -/
  getMasternodeRank : COutPoint → Int → Int
  /-- `SignatureValid` of a winner. -/
  signatureValid : CMasternodePaymentWinner → Bool
  /-- `GetBlockHash` finds a block. -/
  hasBlockHash : Int → Bool
  /-- The node's own masternode, if it runs one. -/
  activeMasternode : Option CTxIn
  /-- `budget.IsBudgetPaymentBlock`. -/
  isBudgetPaymentBlock : Int → Bool
  /-- The script of `GetNextMasternodeInQueueForPayment`. -/
  nextPayee : Int → Option CScript
  /-- `Sign` of a winner, with the key of the node. -/
  sign : CMasternodePaymentWinner → Option (List UInt8)

/-- How the payee, the height and the masternode of a winner are hashed. -/
abbrev WinnerHash := CScript → Int → COutPoint → Uint256

namespace CMasternodePaymentWinner

def getHash (hashWinner : WinnerHash) (winner : CMasternodePaymentWinner) : Uint256 :=
  hashWinner winner.payee winner.nBlockHeight winner.vinMasternode.prevout

def isValid (env : PayeeEnv) (winner : CMasternodePaymentWinner) : Bool :=
  match env.protocolVersion winner.vinMasternode.prevout with
  | none => false
  | some protocolVersion =>
    env.activeProtocol ≤ protocolVersion &&
      env.getMasternodeRank winner.vinMasternode.prevout (winner.nBlockHeight - 100) ≤
        env.nPaymentSigTotal

end CMasternodePaymentWinner

/-- `outMasternode.hash + outMasternode.n`, a sum of 256-bit numbers. -/
def lastVoteKey (outMasternode : COutPoint) : Uint256 :=
  (outMasternode.hash + outMasternode.n) % 2 ^ 256

structure CMasternodePayments where
  nLastBlockHeight : Int
  mapMasternodePayeeVotes : SortedMap Uint256 CMasternodePaymentWinner
  mapMasternodeBlocks : Int → Option CMasternodeBlockPayees
  mapMasternodesLastVote : Uint256 → Option Int

namespace CMasternodePayments

/-- `CMasternodePayments()`. -/
def empty : CMasternodePayments where
  nLastBlockHeight := 0
  mapMasternodePayeeVotes := .empty
  mapMasternodeBlocks _ := none
  mapMasternodesLastVote _ := none

/-- `CanVote`, which records the vote where it answers yes. -/
def canVote (state : CMasternodePayments) (outMasternode : COutPoint)
    (nBlockHeight : Int) : Bool × CMasternodePayments :=
  if state.mapMasternodesLastVote (lastVoteKey outMasternode) = some nBlockHeight then
    (false, state)
  else
    (true,
      { state with
        mapMasternodesLastVote :=
          Function.update state.mapMasternodesLastVote (lastVoteKey outMasternode)
            (some nBlockHeight) })

def addWinningMasternode (hashWinner : WinnerHash) (env : PayeeEnv) (state : CMasternodePayments)
    (winnerIn : CMasternodePaymentWinner) : Bool × CMasternodePayments :=
  if !env.hasBlockHash (winnerIn.nBlockHeight - 100) then (false, state)
  else if state.mapMasternodePayeeVotes.contains (winnerIn.getHash hashWinner) then (false, state)
  else
    let blockPayees :=
      (state.mapMasternodeBlocks winnerIn.nBlockHeight).getD ⟨winnerIn.nBlockHeight, []⟩
    (true,
      { state with
        mapMasternodePayeeVotes :=
          state.mapMasternodePayeeVotes.insert (winnerIn.getHash hashWinner) winnerIn
        mapMasternodeBlocks :=
          Function.update state.mapMasternodeBlocks winnerIn.nBlockHeight
            (some (blockPayees.addPayee winnerIn.payee 1)) })

/-- The first block for which winners are taken: `nHeight` less 1.25 times the number of
masternodes, rounded towards zero. -/
def firstBlock (env : PayeeEnv) (nHeight : Int) : Int :=
  (4 * nHeight - 5 * env.countEnabled).tdiv 4

/-- A winner gets as far as `CanVote`: the node and the peer are ready, the winner was not
recorded yet, its height is in range and its masternode may vote. -/
def reachesVote (hashWinner : WinnerHash) (env : PayeeEnv) (state : CMasternodePayments)
    (winner : CMasternodePaymentWinner) : Bool :=
  env.isBlockchainSynced && !env.fLiteMode && env.isPeerActive &&
    match env.tipHeight with
    | none => false
    | some nHeight =>
      !state.mapMasternodePayeeVotes.contains (winner.getHash hashWinner) &&
        firstBlock env nHeight ≤ winner.nBlockHeight &&
        winner.nBlockHeight ≤ nHeight + 20 && winner.isValid env

/-- The `mnw` handler, and whether it adds the winner. -/
def processWinner (hashWinner : WinnerHash) (env : PayeeEnv) (state : CMasternodePayments)
    (winner : CMasternodePaymentWinner) : Bool × CMasternodePayments :=
  if !state.reachesVote hashWinner env winner then (false, state)
  else
    match state.canVote winner.vinMasternode.prevout winner.nBlockHeight with
    | (false, refused) => (false, refused)
    | (true, voted) =>
      if !env.signatureValid winner then (false, voted)
      else voted.addWinningMasternode hashWinner env winner

/-- The winner that `ProcessBlock` chooses for a height; its height and payee stay unset
where the budget pays the block or no masternode waits for a payment. -/
def newWinner (env : PayeeEnv) (vin : CTxIn) (nBlockHeight : Int) :
    CMasternodePaymentWinner :=
  match (if env.isBudgetPaymentBlock nBlockHeight then none else env.nextPayee nBlockHeight) with
  | none => ⟨vin, 0, [], []⟩
  | some payee => ⟨vin, nBlockHeight, payee, []⟩

/-- The winner that `ProcessBlock` signs, if it comes to that. -/
def ownWinner (env : PayeeEnv) (state : CMasternodePayments) (nBlockHeight : Int) :
    Option CMasternodePaymentWinner :=
  match env.activeMasternode with
  | none => none
  | some vin =>
    let n := env.getMasternodeRank vin.prevout (nBlockHeight - 100)
    if n = -1 then none
    else if env.nPaymentSigTotal < n then none
    else if nBlockHeight ≤ state.nLastBlockHeight then none
    else
      let winner := newWinner env vin nBlockHeight
      (env.sign winner).map fun vchSig => { winner with vchSig := vchSig }

def processBlock (hashWinner : WinnerHash) (env : PayeeEnv) (state : CMasternodePayments)
    (nBlockHeight : Int) : Bool × CMasternodePayments :=
  match state.ownWinner env nBlockHeight with
  | none => (false, state)
  | some winner =>
    match state.addWinningMasternode hashWinner env winner with
    | (false, same) => (false, same)
    | (true, added) => (true, { added with nLastBlockHeight := nBlockHeight })

/-- A height is so far below another one that its votes are dropped. -/
def isOld (env : PayeeEnv) (nHeight nBlockHeight : Int) : Bool :=
  max ((5 * env.countMasternodes / 4 : Nat) : Int) 1000 < nHeight - nBlockHeight

/-- One round of `CleanPaymentList`, at the winner under a key. -/
def cleanWinner (env : PayeeEnv) (nHeight : Int) (state : CMasternodePayments)
    (hash : Uint256) : CMasternodePayments :=
  match state.mapMasternodePayeeVotes.get? hash with
  | none => state
  | some winner =>
    if isOld env nHeight winner.nBlockHeight then
      { state with
        mapMasternodePayeeVotes := state.mapMasternodePayeeVotes.erase hash
        mapMasternodeBlocks :=
          Function.update state.mapMasternodeBlocks winner.nBlockHeight none }
    else state

def cleanPaymentList (env : PayeeEnv) (state : CMasternodePayments) : CMasternodePayments :=
  match env.tipHeight with
  | none => state
  | some nHeight =>
    (state.mapMasternodePayeeVotes.entries.map Prod.fst).foldl (cleanWinner env nHeight)
      state

/-- `CanVote` refuses a masternode that voted for the height last, and else records the
vote. -/
theorem canVote_cases (state : CMasternodePayments) (outMasternode : COutPoint)
    (nBlockHeight : Int) :
    (state.mapMasternodesLastVote (lastVoteKey outMasternode) = some nBlockHeight ∧
      state.canVote outMasternode nBlockHeight = (false, state)) ∨
    (state.mapMasternodesLastVote (lastVoteKey outMasternode) ≠ some nBlockHeight ∧
      state.canVote outMasternode nBlockHeight =
        (true,
          { state with
            mapMasternodesLastVote :=
              Function.update state.mapMasternodesLastVote (lastVoteKey outMasternode)
                (some nBlockHeight) })) := by
  unfold canVote
  split_ifs with before
  · exact .inl ⟨before, rfl⟩
  · exact .inr ⟨before, rfl⟩

/-- A winner that was not recorded is added where a block is known for its height. -/
theorem addWinningMasternode_fst
    (hashWinner : WinnerHash) (env : PayeeEnv) (state : CMasternodePayments)
    (winnerIn : CMasternodePaymentWinner) :
    (state.addWinningMasternode hashWinner env winnerIn).1 = true ↔
      env.hasBlockHash (winnerIn.nBlockHeight - 100) = true ∧
        state.mapMasternodePayeeVotes.contains (winnerIn.getHash hashWinner) = false := by
  unfold addWinningMasternode
  split_ifs with unknown recorded
  · simp_all
  · simp_all
  · simp_all

theorem addWinningMasternode_snd_of_not
    {state : CMasternodePayments}
    (refused : (state.addWinningMasternode hashWinner env winnerIn).1 = false) :
    (state.addWinningMasternode hashWinner env winnerIn).2 = state := by
  unfold addWinningMasternode at refused ⊢
  split_ifs at refused ⊢ <;> rfl

/-- What gets as far as `CanVote` was not recorded. -/
theorem not_contains_of_reachesVote
    {state : CMasternodePayments}
    (reaches : state.reachesVote hashWinner env winner = true) :
    state.mapMasternodePayeeVotes.contains (winner.getHash hashWinner) = false := by
  unfold reachesVote at reaches
  cases tip : env.tipHeight with
  | none => simp [tip] at reaches
  | some nHeight =>
    simp only [tip, Bool.and_eq_true, Bool.not_eq_true'] at reaches
    exact reaches.2.1.1.1

/-- A winner that is not added leaves the votes as they were exactly when it does not get
past `CanVote`, or has a valid signature and a known block for its height. -/
theorem processWinner_rejected_iff (hashWinner : WinnerHash) (env : PayeeEnv)
    (state : CMasternodePayments) (winner : CMasternodePaymentWinner) :
    ((state.processWinner hashWinner env winner).1 = false →
        (state.processWinner hashWinner env winner).2 = state) ↔
      (state.reachesVote hashWinner env winner = true →
        state.mapMasternodesLastVote (lastVoteKey winner.vinMasternode.prevout) ≠
          some winner.nBlockHeight →
        env.signatureValid winner = true ∧
          env.hasBlockHash (winner.nBlockHeight - 100) = true) := by
  unfold processWinner
  by_cases reaches : state.reachesVote hashWinner env winner = true
  · have unrecorded := not_contains_of_reachesVote reaches
    simp only [reaches, Bool.not_true, Bool.false_eq_true, if_false, true_implies]
    rcases canVote_cases state winner.vinMasternode.prevout winner.nBlockHeight with
      ⟨before, refused⟩ | ⟨notBefore, voted⟩
    · simp [before, refused]
    · simp only [voted]
      set recorded : CMasternodePayments :=
        { state with
          mapMasternodesLastVote :=
            Function.update state.mapMasternodesLastVote
              (lastVoteKey winner.vinMasternode.prevout) (some winner.nBlockHeight) }
        with recordedIs
      have changed : recorded ≠ state := by
        intro same
        apply notBefore
        rw [← same, recordedIs]
        exact Function.update_self _ _ _
      have adds := addWinningMasternode_fst hashWinner env recorded winner
      by_cases genuine : env.signatureValid winner = true
      · by_cases found : env.hasBlockHash (winner.nBlockHeight - 100) = true
        · have added := adds.mpr ⟨found, unrecorded⟩
          simp [genuine, found, added]
        · have refused : (recorded.addWinningMasternode hashWinner env winner).1 = false := by
            simpa [found] using adds
          have stays := addWinningMasternode_snd_of_not refused
          simp [genuine, found, refused, stays, changed, notBefore]
      · simp [genuine, changed, notBefore]
  · simp [reaches]

/-- A synced node at height 1000 that knows all masternodes, and at which the signature of
one byte is valid. -/
def payeeEnv : PayeeEnv where
  fLiteMode := false
  isBlockchainSynced := true
  isPeerActive := true
  tipHeight := some 1000
  countEnabled := 100
  countMasternodes := 100
  activeProtocol := 70000
  nPaymentSigTotal := 10
  protocolVersion _ := some 70000
  getMasternodeRank _ _ := 1
  signatureValid winner := winner.vchSig == [1]
  hasBlockHash _ := true
  activeMasternode := none
  isBudgetPaymentBlock _ := false
  nextPayee _ := none
  sign _ := none

/-- Hashes that tell masternodes, heights and payees of different lengths apart. -/
def plainWinnerHash : WinnerHash := fun payee nBlockHeight outpoint =>
  1000000 * payee.length + 10000 * outpoint.hash + nBlockHeight.toNat

/-- A winner of one masternode, for a payee of some length. -/
def winnerOf (nBlockHeight : Int) (size : Nat) (vchSig : List UInt8) :
    CMasternodePaymentWinner :=
  ⟨⟨⟨7, 0⟩, [], 0⟩, nBlockHeight, List.replicate size 81, vchSig⟩

/-- A message without a signature is rejected, and the genuine winner of the masternode
for that height, which would have been added, is rejected after it. -/
theorem processWinner_usedUp :
    (processWinner plainWinnerHash payeeEnv empty (winnerOf 1010 1 [])).1 = false ∧
      (processWinner plainWinnerHash payeeEnv empty
        (winnerOf 1010 1 [])).2.mapMasternodesLastVote 7 = some 1010 ∧
      (processWinner plainWinnerHash payeeEnv
        (processWinner plainWinnerHash payeeEnv empty (winnerOf 1010 1 [])).2
        (winnerOf 1010 2 [1])).1 = false ∧
      (processWinner plainWinnerHash payeeEnv empty (winnerOf 1010 2 [1])).1 = true := by
  decide

end CMasternodePayments

end ColossusCoin
