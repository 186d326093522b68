import ColossusCoin.Library.System
import ColossusCoin.Masternode.Entries

/-!
# The block hashes that masternodes are scored with

`GetBlockHash` keeps the hashes that it finds by height, and blocks that are disconnected
leave their hashes there.  Its answers follow the active chain throughout a run exactly when
no block is disconnected whose hash was kept, and none connected or disconnected while a
hash is kept for a negative height, which stands for the tip.
-/

namespace ColossusCoin

/-- A node, as far as masternodes are scored there: the hashes of the active chain with the
tip first, and `mapCacheBlockHashes`. -/
structure ScoringNode where
  chainActive : List Uint256
  mapCacheBlockHashes : Int → Option Uint256

/-- `nHeight` of the tip. -/
def tipHeight (chain : List Uint256) : Int :=
  chain.length - 1

/-- The loop of `GetBlockHash`, from the tip down to the block above genesis. -/
def findBlock (nBlocksAgo : Int) : Int → List Uint256 → Option Uint256
  | n, hash :: previous :: rest =>
    if nBlocksAgo ≤ n then some hash else findBlock nBlocksAgo (n + 1) (previous :: rest)
  | _, _ => none

namespace ScoringNode

/-- A height of zero stands for that of the tip. -/
def resolve (node : ScoringNode) (nBlockHeight : Int) : Int :=
  if nBlockHeight = 0 then tipHeight node.chainActive else nBlockHeight

/-- `GetBlockHash`.  Its assertion holds: a height above the next one has been refused. -/
def getBlockHash (node : ScoringNode) (nBlockHeight : Int) : Option Uint256 × ScoringNode :=
  if node.chainActive = [] then (none, node)
  else
    let height := tipHeight node.chainActive
    let wanted := node.resolve nBlockHeight
    match node.mapCacheBlockHashes wanted with
    | some hash => (some hash, node)
    | none =>
      if height = 0 ∨ height + 1 < wanted then (none, node)
      else
        let nBlocksAgo := if 0 < wanted then height + 1 - wanted else 0
        match findBlock nBlocksAgo 0 node.chainActive with
        | none => (none, node)
        | some hash =>
          (some hash,
            { node with
              mapCacheBlockHashes :=
                Function.update node.mapCacheBlockHashes wanted (some hash) })

end ScoringNode

/-- How `CalculateScore` hashes a block hash, and a block hash with an input. -/
structure ScoreHash where
  ofBlock : Uint256 → Uint256
  ofInput : Uint256 → Uint256 → Uint256

/-- `CalculateScore` with the answer of `GetBlockHash`. -/
def calculateScore (hashing : ScoreHash) (blockHash : Option Uint256) (vin : CTxIn) :
    Uint256 :=
  match blockHash with
  | none => 0
  | some hash =>
    let aux := (vin.prevout.hash + vin.prevout.n) % 2 ^ 256
    let hash2 := hashing.ofBlock hash
    let hash3 := hashing.ofInput hash aux
    if hash2 < hash3 then hash3 - hash2 else hash2 - hash3

/-- A chain without its tip.  The genesis block is never disconnected. -/
def disconnectTip : List Uint256 → List Uint256
  | _ :: previous :: rest => previous :: rest
  | chain => chain

/-- What happens to the active chain of a node and to the hashes it keeps. -/
inductive ScoringEvent where
  | connect (hash : Uint256)
  | disconnect
  | query (nBlockHeight : Int)

namespace ScoringNode

/-- A node that has the genesis block only. -/
def genesis (hash : Uint256) : ScoringNode where
  chainActive := [hash]
  mapCacheBlockHashes _ := none

/-- The node after an event: the hashes that are kept stay when the chain changes. -/
def apply (node : ScoringNode) : ScoringEvent → ScoringNode
  | .connect hash => { node with chainActive := hash :: node.chainActive }
  | .disconnect => { node with chainActive := disconnectTip node.chainActive }
  | .query nBlockHeight => (node.getBlockHash nBlockHeight).2

end ScoringNode

/-- The block of a chain at a height above that of genesis. -/
def blockAt (chain : List Uint256) (height : Int) : Option Uint256 :=
  if 0 < height then chain.reverse[height.toNat]? else none

/-- The height of the block that scores a height: the one before.  Zero stands for the
height of the tip, and what is below zero scores with the tip. -/
def scoringHeight (chain : List Uint256) (nBlockHeight : Int) : Int :=
  if nBlockHeight = 0 then tipHeight chain - 1
  else if nBlockHeight < 0 then tipHeight chain
  else nBlockHeight - 1

/-- The hash that scores a height, by the chain alone. -/
def chainHash (chain : List Uint256) (nBlockHeight : Int) : Option Uint256 :=
  blockAt chain (scoringHeight chain nBlockHeight)

/-- The answers of a node at all heights are those of its active chain. -/
def ScoringNode.FollowsChain (node : ScoringNode) : Prop :=
  ∀ nBlockHeight, (node.getBlockHash nBlockHeight).1 = chainHash node.chainActive nBlockHeight

/-- An event leaves no kept hash behind: the hash of the block it disconnects is not kept,
and what is kept below zero is the hash of the new tip. -/
def ScoringNode.Forgets (node : ScoringNode) : ScoringEvent → Prop
  | .connect hash =>
    ∀ wanted kept, wanted < 0 → node.mapCacheBlockHashes wanted = some kept → kept = hash
  | .disconnect =>
    node.mapCacheBlockHashes (tipHeight node.chainActive + 1) = none ∧
      ∀ wanted kept, wanted < 0 → node.mapCacheBlockHashes wanted = some kept →
        chainHash (disconnectTip node.chainActive) wanted = some kept
  | .query _ => True

section Blocks

variable {hash : Uint256}

theorem blockAt_nil (height : Int) : blockAt [] height = none := by
  unfold blockAt
  split_ifs <;> rfl

theorem blockAt_of_height_lt
    (above : tipHeight chain < height) :
    blockAt chain height = none := by
  unfold tipHeight at above
  unfold blockAt
  split_ifs
  · rw [List.getElem?_eq_none]
    rw [List.length_reverse]
    omega
  · rfl

theorem blockAt_cons_self
    (nonempty : chain ≠ []) :
    blockAt (hash :: chain) (tipHeight (hash :: chain)) = some hash := by
  have positive := List.length_pos_iff.mpr nonempty
  have index : (tipHeight (hash :: chain)).toNat = chain.reverse.length := by
    unfold tipHeight
    rw [List.length_cons, List.length_reverse]
    omega
  have above : 0 < tipHeight (hash :: chain) := by
    unfold tipHeight
    rw [List.length_cons]
    omega
  unfold blockAt
  rw [if_pos above, index, List.reverse_cons, List.getElem?_concat_length]

theorem blockAt_cons
    (below : height ≤ tipHeight chain) :
    blockAt (hash :: chain) height = blockAt chain height := by
  unfold tipHeight at below
  unfold blockAt
  split_ifs with positive
  · rw [List.reverse_cons, List.getElem?_append_left]
    rw [List.length_reverse]
    omega
  · rfl

theorem findBlock_eq
    (notPast : n ≤ nBlocksAgo) :
    findBlock nBlocksAgo n chain = blockAt chain (tipHeight chain - (nBlocksAgo - n)) := by
  induction chain generalizing n with
  | nil => exact (blockAt_nil _).symm
  | cons hash rest ih =>
    cases rest with
    | nil =>
      have low : ¬0 < tipHeight [hash] - (nBlocksAgo - n) := by
        unfold tipHeight
        rw [List.length_singleton]
        omega
      unfold findBlock blockAt
      rw [if_neg low]
    | cons previous rest =>
      unfold findBlock
      split_ifs with reached
      · have here : tipHeight (hash :: previous :: rest) - (nBlocksAgo - n) =
            tipHeight (hash :: previous :: rest) := by
          omega
        rw [here, blockAt_cons_self (List.cons_ne_nil previous rest)]
      · rw [ih (by omega)]
        have same : tipHeight (hash :: previous :: rest) - (nBlocksAgo - n) =
            tipHeight (previous :: rest) - (nBlocksAgo - (n + 1)) := by
          unfold tipHeight
          rw [List.length_cons]
          omega
        rw [same]
        exact (blockAt_cons (by omega)).symm

/-- A height that stands for itself. -/
theorem chainHash_of_pos
    (positive : 0 < nBlockHeight) :
    chainHash chain nBlockHeight = blockAt chain (nBlockHeight - 1) := by
  unfold chainHash scoringHeight
  rw [if_neg (by omega), if_neg (by omega)]

theorem chainHash_of_neg
    (negative : nBlockHeight < 0) :
    chainHash chain nBlockHeight = blockAt chain (tipHeight chain) := by
  unfold chainHash scoringHeight
  rw [if_neg (by omega), if_pos negative]

theorem tipHeight_cons (hash : Uint256) (chain : List Uint256) :
    tipHeight (hash :: chain) = tipHeight chain + 1 := by
  unfold tipHeight
  rw [List.length_cons]
  omega

theorem tipHeight_nonneg
    (nonempty : chain ≠ []) :
    0 ≤ tipHeight chain := by
  have positive := List.length_pos_iff.mpr nonempty
  unfold tipHeight
  omega

theorem disconnectTip_ne_nil
    (nonempty : chain ≠ []) :
    disconnectTip chain ≠ [] := by
  cases chain with
  | nil => exact nonempty
  | cons hash rest =>
    cases rest with
    | nil => exact nonempty
    | cons previous rest => exact List.cons_ne_nil previous rest

theorem blockAt_disconnectTip
    (apart : height ≠ tipHeight chain) :
    blockAt (disconnectTip chain) height = blockAt chain height := by
  cases chain with
  | nil => rfl
  | cons hash rest =>
    cases rest with
    | nil => rfl
    | cons previous rest =>
      rw [tipHeight_cons] at apart
      by_cases below : height ≤ tipHeight (previous :: rest)
      · exact (blockAt_cons below).symm
      · have above : tipHeight (hash :: previous :: rest) < height := by
          rw [tipHeight_cons]
          omega
        have aboveRest : tipHeight (previous :: rest) < height := Int.not_le.mp below
        exact (blockAt_of_height_lt aboveRest).trans (blockAt_of_height_lt above).symm

theorem blockAt_disconnectTip_tip :
    blockAt (disconnectTip chain) (tipHeight chain) = none := by
  cases chain with
  | nil => exact blockAt_nil _
  | cons hash rest =>
    cases rest with
    | nil => exact if_neg (Int.lt_irrefl 0)
    | cons previous rest =>
      refine blockAt_of_height_lt ?_
      rw [tipHeight_cons]
      exact Int.lt_succ _

end Blocks

/-! ## The answers of a node -/

namespace ScoringNode

variable {node : ScoringNode}

theorem chainHash_resolve
    (nonempty : node.chainActive ≠ []) :
    chainHash node.chainActive (node.resolve nBlockHeight) =
      chainHash node.chainActive nBlockHeight := by
  have height := tipHeight_nonneg nonempty
  unfold resolve
  split_ifs with zero
  · unfold chainHash scoringHeight
    rw [if_pos zero]
    split_ifs with tipZero
    · rfl
    · omega
    · rfl
  · rfl

theorem tipHeight_of_resolve_eq_zero
    (zero : node.resolve nBlockHeight = 0) :
    tipHeight node.chainActive = 0 := by
  unfold resolve at zero
  split_ifs at zero with isZero
  · exact zero
  · exact absurd zero isZero

end ScoringNode

/-- What the node looks up where it keeps no hash is what the chain has. -/
theorem search_eq
    {chain : List Uint256} {wanted : Int}
    (nonempty : chain ≠ [])
    (resolved : wanted = 0 → tipHeight chain = 0) :
    (if tipHeight chain = 0 ∨ tipHeight chain + 1 < wanted then none
      else findBlock (if 0 < wanted then tipHeight chain + 1 - wanted else 0) 0 chain) =
        chainHash chain wanted := by
  have height := tipHeight_nonneg nonempty
  by_cases positive : 0 < wanted
  · rw [chainHash_of_pos positive, if_pos positive]
    split_ifs with refused
    · by_cases one : wanted = 1
      · have none_at_zero : blockAt chain 0 = none := if_neg (by omega)
        rw [one]
        exact none_at_zero.symm
      · exact (blockAt_of_height_lt (by omega)).symm
    · rw [findBlock_eq (by omega)]
      refine congrArg (blockAt chain) ?_
      omega
  · by_cases zero : wanted = 0
    · have tipZero := resolved zero
      rw [if_pos (Or.inl tipZero)]
      unfold chainHash scoringHeight blockAt
      rw [if_pos zero, if_neg (by omega)]
    · rw [chainHash_of_neg (by omega), if_neg positive]
      split_ifs with refused
      · have tipZero : tipHeight chain = 0 := by omega
        rw [tipZero]
        exact (if_neg (by omega)).symm
      · rw [findBlock_eq (by omega)]
        refine congrArg (blockAt chain) ?_
        omega

namespace ScoringNode

variable {node : ScoringNode}

theorem getBlockHash_fst
    (nonempty : node.chainActive ≠ []) :
    (node.getBlockHash nBlockHeight).1 =
      (node.mapCacheBlockHashes (node.resolve nBlockHeight)).or
        (chainHash node.chainActive nBlockHeight) := by
  have search := @search_eq node.chainActive (node.resolve nBlockHeight) nonempty
    tipHeight_of_resolve_eq_zero
  rw [chainHash_resolve nonempty] at search
  unfold getBlockHash
  rw [if_neg nonempty, ← search]
  dsimp only
  cases node.mapCacheBlockHashes (node.resolve nBlockHeight) with
  | some kept => rfl
  | none =>
    rw [Option.none_or]
    split_ifs
    · rfl
    · cases findBlock _ 0 node.chainActive <;> rfl
    · cases findBlock _ 0 node.chainActive <;> rfl

/-- A query keeps what it answers under the height that it stands for. -/
theorem getBlockHash_snd
    (nonempty : node.chainActive ≠ []) :
    (node.getBlockHash nBlockHeight).2 =
      { node with
        mapCacheBlockHashes :=
          Function.update node.mapCacheBlockHashes (node.resolve nBlockHeight)
            (node.getBlockHash nBlockHeight).1 } := by
  have unchanged : ∀ answer, node.mapCacheBlockHashes (node.resolve nBlockHeight) = answer →
      node = { node with
        mapCacheBlockHashes :=
          Function.update node.mapCacheBlockHashes (node.resolve nBlockHeight) answer } := by
    intro answer here
    rw [← here, Function.update_eq_self]
  unfold getBlockHash
  rw [if_neg nonempty]
  dsimp only
  cases kept : node.mapCacheBlockHashes (node.resolve nBlockHeight) with
  | some hash => exact unchanged (some hash) kept
  | none =>
    by_cases refused : tipHeight node.chainActive = 0 ∨
        tipHeight node.chainActive + 1 < node.resolve nBlockHeight
    · rw [if_pos refused]
      exact unchanged none kept
    · rw [if_neg refused]
      cases findBlock _ 0 node.chainActive with
      | none => exact unchanged none kept
      | some hash => rfl

/-- Every kept hash is the one that the chain has, and none is kept for zero. -/
structure Sound (node : ScoringNode) : Prop where
  nonempty : node.chainActive ≠ []
  zero : node.mapCacheBlockHashes 0 = none
  kept : ∀ wanted hash, node.mapCacheBlockHashes wanted = some hash →
    chainHash node.chainActive wanted = some hash

theorem sound_genesis (hash : Uint256) : (genesis hash).Sound where
  nonempty := List.cons_ne_nil hash []
  zero := rfl
  kept _ _ := nofun

theorem Sound.followsChain
    (sound : node.Sound) :
    node.FollowsChain := by
  intro nBlockHeight
  rw [getBlockHash_fst sound.nonempty]
  cases kept : node.mapCacheBlockHashes (node.resolve nBlockHeight) with
  | none => exact Option.none_or
  | some hash =>
    have same := sound.kept _ hash kept
    rw [chainHash_resolve sound.nonempty] at same
    rw [same, Option.or_some]
    rfl

theorem FollowsChain.sound
    (follows : node.FollowsChain)
    (nonempty : node.chainActive ≠ [])
    (zero : node.mapCacheBlockHashes 0 = none) :
    node.Sound := by
  refine Sound.mk nonempty zero ?_
  intro wanted hash kept
  have nonzero : wanted ≠ 0 := by
    intro isZero
    rw [isZero, zero] at kept
    cases kept
  have answer := follows wanted
  have itself : node.resolve wanted = wanted := if_neg nonzero
  rw [getBlockHash_fst nonempty, itself, kept, Option.some_or] at answer
  exact answer.symm

theorem nonempty_apply
    (nonempty : node.chainActive ≠ []) (event : ScoringEvent) :
    (node.apply event).chainActive ≠ [] := by
  cases event with
  | connect hash => exact List.cons_ne_nil hash _
  | disconnect => exact disconnectTip_ne_nil nonempty
  | query nBlockHeight =>
    unfold apply
    dsimp only
    rw [getBlockHash_snd nonempty]
    exact nonempty

theorem Sound.zero_apply
    (sound : node.Sound) (event : ScoringEvent) :
    (node.apply event).mapCacheBlockHashes 0 = none := by
  cases event with
  | connect hash => exact sound.zero
  | disconnect => exact sound.zero
  | query nBlockHeight =>
    have follows := sound.followsChain nBlockHeight
    unfold apply
    dsimp only
    rw [getBlockHash_snd sound.nonempty]
    by_cases isZero : node.resolve nBlockHeight = 0
    · have tipZero := tipHeight_of_resolve_eq_zero isZero
      have unknown : chainHash node.chainActive nBlockHeight = none := by
        rw [← chainHash_resolve sound.nonempty, isZero]
        unfold chainHash scoringHeight blockAt
        rw [if_pos rfl, if_neg (by omega)]
      dsimp only
      rw [follows, unknown, isZero]
      exact Function.update_self _ _ _
    · exact (Function.update_of_ne (Ne.symm isZero) _ _).trans sound.zero

/-- The events that leave the answers right are those that leave no kept hash behind. -/
theorem followsChain_apply_iff
    (event : ScoringEvent)
    (sound : node.Sound) :
    (node.apply event).FollowsChain ↔ node.Forgets event := by
  have soundAfter : (node.apply event).FollowsChain ↔
      ∀ wanted hash, (node.apply event).mapCacheBlockHashes wanted = some hash →
        chainHash (node.apply event).chainActive wanted = some hash := by
    refine Iff.intro ?_ ?_
    · exact fun follows =>
        (follows.sound (nonempty_apply sound.nonempty event) (sound.zero_apply event)).kept
    · exact fun kept => Sound.followsChain
        (Sound.mk (nonempty_apply sound.nonempty event) (sound.zero_apply event) kept)
  rw [soundAfter]
  cases event with
  | connect hash =>
    refine Iff.intro ?_ ?_
    · intro kept wanted old negative here
      have now := kept wanted old here
      rw [chainHash_of_neg negative] at now
      exact (Option.some.inj ((blockAt_cons_self sound.nonempty).symm.trans now)).symm
    · intro forgets wanted old here
      change node.mapCacheBlockHashes wanted = some old at here
      have before := sound.kept wanted old here
      rcases Int.lt_trichotomy wanted 0 with negative | isZero | positive
      · rw [chainHash_of_neg negative, forgets wanted old negative here]
        exact blockAt_cons_self sound.nonempty
      · rw [isZero, sound.zero] at here
        cases here
      · rw [chainHash_of_pos positive] at before ⊢
        rw [← before]
        refine blockAt_cons ?_
        by_contra above
        rw [blockAt_of_height_lt (by omega)] at before
        cases before
  | disconnect =>
    refine Iff.intro ?_ ?_
    · intro kept
      refine And.intro ?_ fun wanted old _ here => kept wanted old here
      rcases Option.eq_none_or_eq_some
        (node.mapCacheBlockHashes (tipHeight node.chainActive + 1)) with absent | ⟨old, here⟩
      · exact absent
      · have now := kept _ old here
        have height := tipHeight_nonneg sound.nonempty
        rw [chainHash_of_pos (by omega), Int.add_sub_cancel] at now
        exact absurd (blockAt_disconnectTip_tip.symm.trans now) nofun
    · rintro ⟨absent, negatives⟩ wanted old here
      change node.mapCacheBlockHashes wanted = some old at here
      have before := sound.kept wanted old here
      rcases Int.lt_trichotomy wanted 0 with negative | isZero | positive
      · exact negatives wanted old negative here
      · rw [isZero, sound.zero] at here
        cases here
      · rw [chainHash_of_pos positive] at before ⊢
        rw [← before]
        refine blockAt_disconnectTip ?_
        intro atTip
        have itsKey : wanted = tipHeight node.chainActive + 1 := by omega
        rw [itsKey, absent] at here
        cases here
  | query nBlockHeight =>
    refine iff_of_true ?_ trivial
    have follows := sound.followsChain nBlockHeight
    unfold apply
    dsimp only
    rw [getBlockHash_snd sound.nonempty]
    intro wanted old here
    dsimp only at here ⊢
    by_cases asked : wanted = node.resolve nBlockHeight
    · subst asked
      rw [Function.update_self, follows] at here
      rw [chainHash_resolve sound.nonempty]
      exact here
    · rw [Function.update_of_ne asked] at here
      exact sound.kept wanted old here

end ScoringNode

/-- The node after a history from its genesis block. -/
def ScoringNode.after (genesisHash : Uint256) (trace : List ScoringEvent) : ScoringNode :=
  trace.foldl ScoringNode.apply (.genesis genesisHash)

/-- In a history, every answer of `GetBlockHash` is that of the active chain in every state
if and only if no event leaves a kept hash behind; and two nodes with such histories and the
same active chain score every masternode the same, at every height. -/
theorem getBlockHash_followsChain_iff
    (genesisHash : Uint256) (trace : List ScoringEvent) :
    ((∀ past, past <+: trace → (ScoringNode.after genesisHash past).FollowsChain) ↔
        ∀ past event, past ++ [event] <+: trace →
          (ScoringNode.after genesisHash past).Forgets event) ∧
      ∀ other : List ScoringEvent,
        (∀ past event, past ++ [event] <+: trace →
          (ScoringNode.after genesisHash past).Forgets event) →
        (∀ past event, past ++ [event] <+: other →
          (ScoringNode.after genesisHash past).Forgets event) →
        (ScoringNode.after genesisHash trace).chainActive =
          (ScoringNode.after genesisHash other).chainActive →
          ∀ (hashing : ScoreHash) (vin : CTxIn) (nBlockHeight : Int),
            calculateScore hashing
                ((ScoringNode.after genesisHash trace).getBlockHash nBlockHeight).1 vin =
              calculateScore hashing
                ((ScoringNode.after genesisHash other).getBlockHash nBlockHeight).1 vin := by
  have exact_iff : ∀ history : List ScoringEvent,
      (∀ past, past <+: history → (ScoringNode.after genesisHash past).FollowsChain) ↔
        ∀ past event, past ++ [event] <+: history →
          (ScoringNode.after genesisHash past).Forgets event :=
    foldl_holds_iff (ScoringNode.sound_genesis genesisHash)
      (fun _ sound => sound.followsChain)
      (fun _ event sound => ScoringNode.followsChain_apply_iff event sound)
      fun _ event sound follows =>
        follows.sound (ScoringNode.nonempty_apply sound.nonempty event) (sound.zero_apply event)
  refine And.intro (exact_iff trace) ?_
  intro other forgets otherForgets sameChain hashing vin nBlockHeight
  have first := (exact_iff trace).mpr forgets trace List.prefix_rfl nBlockHeight
  have second := (exact_iff other).mpr otherForgets other List.prefix_rfl nBlockHeight
  rw [first, second, sameChain]

/-- A hash of numbers that tells blocks apart. -/
def plainScoreHash : ScoreHash where
  ofBlock hash := hash
  ofInput hash aux := 10 * hash + aux

/-- Two nodes, one of which left a fork before it kept a hash, score alike. -/
theorem getBlockHash_followsChain_iff_earlyFork :
    calculateScore plainScoreHash
        ((ScoringNode.after 1 [.connect 2, .query 2]).getBlockHash 2).1 .empty =
      calculateScore plainScoreHash
        ((ScoringNode.after 1 [.connect 3, .disconnect, .connect 2]).getBlockHash 2).1
        .empty := by
  refine (getBlockHash_followsChain_iff 1 [.connect 2, .query 2]).2
    [.connect 3, .disconnect, .connect 2] ?_ ?_ rfl plainScoreHash .empty 2
  · rw [steps_cons_iff, steps_cons_iff, steps_nil_iff]
    exact ⟨nofun, trivial, trivial⟩
  · rw [steps_cons_iff, steps_cons_iff, steps_cons_iff, steps_nil_iff]
    exact ⟨nofun, And.intro rfl nofun, nofun, trivial⟩

/-- A hash that was kept is answered after its block was replaced, and scores otherwise than
that of a node that was never on the fork. -/
theorem stale_hash_scores :
    let left := ScoringNode.after 1 [.connect 2, .connect 3, .query 3, .disconnect, .connect 4]
    let stayed := ScoringNode.after 1 [.connect 2, .connect 4]
    left.chainActive = stayed.chainActive ∧
      (left.getBlockHash 3).1 = some 3 ∧ (stayed.getBlockHash 3).1 = some 4 ∧
      calculateScore plainScoreHash (left.getBlockHash 3).1 .empty ≠
        calculateScore plainScoreHash (stayed.getBlockHash 3).1 .empty := by
  decide

end ColossusCoin
