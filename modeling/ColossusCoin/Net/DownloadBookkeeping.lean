import ColossusCoin.Library.LocatedIndex
import ColossusCoin.Net.BlocksInFlight

/-!
# The bookkeeping of downloads

Every block in flight is filed under its hash, at the peer that it was asked from and at its
position there, and a peer counts its blocks in flight.  The number of queued validated headers
goes wrong with the first peer that leaves with a block in flight whose headers are validated:
`FinalizeNode` does not subtract what `MarkBlockAsReceived` does.
-/

namespace ColossusCoin

namespace CNodeState

/-- The number of blocks in flight from a peer that have validated headers. -/
def validated (peer : CNodeState) : Int :=
  peer.vBlocksInFlight.countP fun entry => entry.2.fValidatedHeaders

theorem validated_nonneg (peer : CNodeState) : 0 ≤ peer.validated :=
  Int.natCast_nonneg _

theorem validated_eq_zero_iff (peer : CNodeState) :
    peer.validated = 0 ↔ ∀ entry ∈ peer.vBlocksInFlight, entry.2.fValidatedHeaders = false := by
  unfold validated
  rw [Int.natCast_eq_zero, List.countP_eq_zero]
  simp

theorem countP_cons_validated (entry : Nat × QueuedBlock) (entries : List (Nat × QueuedBlock)) :
    (((entry :: entries).countP fun entry => entry.2.fValidatedHeaders : Nat) : Int) =
      entry.2.fValidatedHeaders.toInt +
        (entries.countP fun entry => entry.2.fValidatedHeaders : Nat) := by
  rw [List.countP_cons, add_comm]
  cases entry.2.fValidatedHeaders <;> simp

theorem validated_receivedFrom
    (found : KeyedList.find Prod.fst position peer.vBlocksInFlight = some entry) :
    peer.validated =
      entry.2.fValidatedHeaders.toInt + (DownloadState.receivedFrom peer position).validated := by
  unfold validated
  rw [(KeyedList.perm_cons_erase found).countP_eq, countP_cons_validated]
  rfl

theorem validated_askedFor (peer : CNodeState) (position : Nat) (entry : QueuedBlock) :
    (DownloadState.askedFor peer position entry).validated =
      entry.fValidatedHeaders.toInt + peer.validated := by
  have perm : (peer.vBlocksInFlight ++ [(position, entry)]).Perm
      ((position, entry) :: peer.vBlocksInFlight) :=
    List.perm_append_singleton (position, entry) peer.vBlocksInFlight
  unfold validated
  rw [← countP_cons_validated (position, entry), ← perm.countP_eq]
  rfl

/-- The positions in the list of a peer are different, and its length is counted. -/
structure Sound (peer : CNodeState) : Prop where
  distinct : KeyedList.Distinct Prod.fst peer.vBlocksInFlight
  counted : peer.nBlocksInFlight = peer.vBlocksInFlight.length

theorem sound_initial : CNodeState.initial.Sound where
  distinct := List.nodup_nil
  counted := rfl

theorem Sound.receivedFrom
    (sound : peer.Sound)
    (found : KeyedList.find Prod.fst position peer.vBlocksInFlight = some entry) :
    (DownloadState.receivedFrom peer position).Sound where
  distinct := sound.distinct.erase
  counted := by
    have shorter := (KeyedList.perm_cons_erase found).length_eq
    have counted := sound.counted
    rw [List.length_cons] at shorter
    simp only [DownloadState.receivedFrom]
    omega

theorem Sound.askedFor
    (sound : peer.Sound)
    (fresh : ∀ entry ∈ peer.vBlocksInFlight, entry.1 < position)
    (entry : QueuedBlock) :
    (DownloadState.askedFor peer position entry).Sound where
  distinct := by
    refine sound.distinct.snoc (KeyedList.find_eq_none_iff.mpr ?_)
    intro member
    obtain ⟨old, here, same⟩ := List.mem_map.mp member
    exact (fresh old here).ne same
  counted := by
    have counted := sound.counted
    simp only [DownloadState.askedFor, List.length_append, List.length_singleton]
    omega

end CNodeState

namespace DownloadState

variable {state next : DownloadState}

/-- A block is in flight from a peer, at a position in its list. -/
def Lists (state : DownloadState) (nodeid : NodeId) (position : Nat) (block : QueuedBlock) :
    Prop :=
  ∃ peer, state.mapNodeState.get? nodeid = some peer ∧ (position, block) ∈ peer.vBlocksInFlight

/-- What the maps and the counters are meant to say. -/
structure Bookkept (state : DownloadState) : Prop where
  /-- A hash is mapped to a position whose entry has that hash and belongs to that peer only. -/
  located : ∀ {hash nodeid position},
    state.mapBlocksInFlight.get? hash = some (nodeid, position) →
      ∃ block : QueuedBlock, block.hash = hash ∧
        ∀ other entry, state.Lists other position entry ↔ other = nodeid ∧ entry = block
  counted : ∀ {nodeid peer}, state.mapNodeState.get? nodeid = some peer →
    peer.nBlocksInFlight = peer.vBlocksInFlight.length
  validated : state.nQueuedValidatedHeaders = state.mapNodeState.total CNodeState.validated

/-- The part of the bookkeeping that no call breaks. -/
structure Filed (state : DownloadState) : Prop where
  indexed : IsIndex QueuedBlock.hash state.Lists state.mapBlocksInFlight.get?
  sound : ∀ {nodeid peer}, state.mapNodeState.get? nodeid = some peer → peer.Sound
  fresh : ∀ {nodeid position block}, state.Lists nodeid position block →
    position < state.nextPosition

/-- How much the counter of validated headers is above what is in flight. -/
def excess (state : DownloadState) : Int :=
  state.nQueuedValidatedHeaders - state.mapNodeState.total CNodeState.validated

theorem Filed.bookkept_iff (filed : state.Filed) : state.Bookkept ↔ state.excess = 0 := by
  unfold excess
  constructor
  · intro bookkept
    rw [bookkept.validated, sub_self]
  · intro level
    exact {
      located := filed.indexed.located
      counted := fun found => (filed.sound found).counted
      validated := sub_eq_zero.mp level
    }

variable {orphans : OrphanTransactions} {hash : Uint256} {nodeid : NodeId}

theorem lists_of_insert
    (changed : next.mapNodeState = state.mapNodeState.insert nodeid peer)
    (other : NodeId) (position : Nat) (block : QueuedBlock) :
    next.Lists other position block ↔
      if other = nodeid then (position, block) ∈ peer.vBlocksInFlight
      else state.Lists other position block := by
  unfold Lists
  rw [changed, SortedMap.get?_insert]
  by_cases here : other = nodeid
  · simp [here]
  · simp [here]

theorem lists_of_found
    (found : state.mapNodeState.get? nodeid = some peer)
    {block : QueuedBlock} :
    state.Lists nodeid position block ↔ (position, block) ∈ peer.vBlocksInFlight := by
  unfold Lists
  rw [found]
  simp

theorem sound_of_insert
    (filed : state.Filed)
    (sound : peer.Sound)
    (changed : next.mapNodeState = state.mapNodeState.insert nodeid peer)
    (found : next.mapNodeState.get? other = some known) :
    known.Sound := by
  rw [changed, SortedMap.get?_insert] at found
  split_ifs at found
  · cases found
    exact sound
  · exact filed.sound found

theorem excess_of_insert
    (found : state.mapNodeState.get? nodeid = some peer)
    (inserted : next.mapNodeState = state.mapNodeState.insert nodeid changed)
    (counted : next.nQueuedValidatedHeaders - changed.validated =
      state.nQueuedValidatedHeaders - peer.validated) :
    next.excess = state.excess := by
  have moved := SortedMap.total_insert_of_found found CNodeState.validated changed
  unfold excess
  rw [inserted]
  omega

/-! ## The calls -/

theorem filed_initial (orphans : OrphanTransactions) : (initial orphans).Filed where
  indexed := by
    refine IsIndex.empty.congr ?_
    intro nodeid position block
    simp [Lists, initial]
  sound := by
    intro nodeid peer found
    cases found
  fresh := by
    rintro nodeid position block ⟨peer, found, _⟩
    cases found

theorem lists_initializeNode
    (nodeid : NodeId) (pnode : CNode)
    (other : NodeId) (position : Nat) (block : QueuedBlock) :
    (state.initializeNode nodeid pnode).Lists other position block ↔
      state.Lists other position block := by
  rw [lists_of_insert (rfl : (state.initializeNode nodeid pnode).mapNodeState = _)]
  by_cases here : other = nodeid
  · subst here
    rcases Option.eq_none_or_eq_some (state.mapNodeState.get? other) with absent | ⟨peer, found⟩
    · simp [Lists, absent, CNodeState.initial]
    · simp [Lists, found]
  · simp [here]

theorem filed_initializeNode
    (filed : state.Filed) (nodeid : NodeId) (pnode : CNode) :
    (state.initializeNode nodeid pnode).Filed where
  indexed := filed.indexed.congr (lists_initializeNode nodeid pnode)
  sound := by
    refine sound_of_insert filed ?_ rfl
    have known : ((state.mapNodeState.get? nodeid).getD .initial).Sound := by
      rcases Option.eq_none_or_eq_some (state.mapNodeState.get? nodeid) with
        absent | ⟨peer, found⟩
      · rw [absent]
        exact CNodeState.sound_initial
      · rw [found]
        exact filed.sound found
    exact ⟨known.distinct, known.counted⟩
  fresh := by
    intro other position block listed
    exact filed.fresh ((lists_initializeNode nodeid pnode other position block).mp listed)

theorem excess_initializeNode (nodeid : NodeId) (pnode : CNode) :
    (state.initializeNode nodeid pnode).excess = state.excess := by
  rcases Option.eq_none_or_eq_some (state.mapNodeState.get? nodeid) with absent | ⟨peer, found⟩
  · have added := SortedMap.total_insert_of_fresh absent CNodeState.validated
      { CNodeState.initial with name := pnode.addrName, address := pnode.addr }
    unfold excess initializeNode
    rw [absent, Option.getD_none, added]
    simp [CNodeState.validated, CNodeState.initial]
  · refine excess_of_insert found rfl ?_
    simp [initializeNode, found, CNodeState.validated]

theorem Filed.markBlockAsReceived_eq
    (filed : state.Filed)
    (found : state.mapBlocksInFlight.get? hash = some (nodeid, position)) :
    ∃ peer block, block.hash = hash ∧ state.mapNodeState.get? nodeid = some peer ∧
      KeyedList.find Prod.fst position peer.vBlocksInFlight = some (position, block) ∧
      state.markBlockAsReceived hash = some { state with
        nQueuedValidatedHeaders :=
          state.nQueuedValidatedHeaders - block.fValidatedHeaders.toInt
        mapNodeState := state.mapNodeState.insert nodeid (receivedFrom peer position)
        mapBlocksInFlight := state.mapBlocksInFlight.erase hash } := by
  obtain ⟨block, here, peer, known, member⟩ := filed.indexed.filed found
  have entry : KeyedList.find Prod.fst position peer.vBlocksInFlight = some (position, block) :=
    (filed.sound known).distinct.find_eq_some_iff.mpr ⟨member, rfl⟩
  refine ⟨peer, block, here, known, entry, ?_⟩
  unfold markBlockAsReceived
  simp [found, known, entry]

theorem lists_received
    (filed : state.Filed)
    (known : state.mapNodeState.get? nodeid = some peer)
    (held : state.Lists nodeid position block)
    (changed : next.mapNodeState = state.mapNodeState.insert nodeid (receivedFrom peer position))
    (other : NodeId) (elsewhere : Nat) (another : QueuedBlock) :
    next.Lists other elsewhere another ↔
      state.Lists other elsewhere another ∧ elsewhere ≠ position := by
  rw [lists_of_insert changed]
  by_cases here : other = nodeid
  · rw [if_pos here, here, lists_of_found known]
    exact (filed.sound known).distinct.mem_erase
  · rw [if_neg here]
    refine (and_iff_left_of_imp ?_).symm
    rintro listed rfl
    exact here (filed.indexed.alone held listed).1

/-- A block that is received is in flight no more, and the counter moves with the lists. -/
theorem Filed.markBlockAsReceived
    (filed : state.Filed)
    (received : state.markBlockAsReceived hash = some next) :
    next.Filed ∧ next.excess = state.excess ∧ next.mapBlocksInFlight.get? hash = none := by
  rcases Option.eq_none_or_eq_some (state.mapBlocksInFlight.get? hash) with
    absent | ⟨⟨nodeid, position⟩, found⟩
  · unfold DownloadState.markBlockAsReceived at received
    rw [absent] at received
    cases received
    exact ⟨filed, rfl, absent⟩
  · obtain ⟨peer, block, rfl, known, entry, result⟩ := filed.markBlockAsReceived_eq found
    rw [result] at received
    cases received
    have held : state.Lists nodeid position block :=
      (lists_of_found known).mpr (KeyedList.mem_of_find entry)
    have erased : (state.mapBlocksInFlight.erase block.hash).get? block.hash = none :=
      SortedMap.get?_erase_self _ _
    refine ⟨{ indexed := ?_, sound := ?_, fresh := ?_ }, ?_, erased⟩
    · refine filed.indexed.taken held (lists_received filed known held rfl) erased ?_
      intro wanted apart
      simp only [SortedMap.get?_erase, if_neg apart]
    · exact sound_of_insert filed ((filed.sound known).receivedFrom entry) rfl
    · intro other elsewhere another listed
      exact filed.fresh ((lists_received filed known held rfl other elsewhere another).mp listed).1
    · refine excess_of_insert known rfl ?_
      have fewer := CNodeState.validated_receivedFrom entry
      simp only at fewer ⊢
      omega

theorem lists_recorded
    (known : state.mapNodeState.get? nodeid = some peer)
    (changed : next.mapNodeState = state.mapNodeState.insert nodeid (askedFor peer position entry))
    (other : NodeId) (elsewhere : Nat) (another : QueuedBlock) :
    next.Lists other elsewhere another ↔
      state.Lists other elsewhere another ∨
        other = nodeid ∧ elsewhere = position ∧ another = entry := by
  rw [lists_of_insert changed]
  by_cases here : other = nodeid
  · rw [if_pos here, here, lists_of_found known]
    simp [askedFor]
  · simp [here]

/-- A block that is listed nowhere is filed where it is asked for. -/
theorem Filed.recordInFlight
    (filed : state.Filed)
    (unlisted : state.mapBlocksInFlight.get? entry.hash = none)
    (recorded : state.recordInFlight nodeid entry = some next) :
    next.Filed ∧ next.excess = state.excess := by
  obtain ⟨peer, known, rfl⟩ := Option.map_eq_some_iff.mp recorded
  have below : ∀ old ∈ peer.vBlocksInFlight, old.1 < state.nextPosition := by
    intro old member
    exact filed.fresh ((lists_of_found known).mpr member)
  refine ⟨{ indexed := ?_, sound := ?_, fresh := ?_ }, ?_⟩
  · refine filed.indexed.added ?_ unlisted (lists_recorded known rfl)
      (SortedMap.get?_insert_self _ _ _) ?_
    · intro other another listed
      exact lt_irrefl _ (filed.fresh listed)
    · intro wanted apart
      simp only [SortedMap.get?_insert, if_neg apart]
  · exact sound_of_insert filed ((filed.sound known).askedFor below entry) rfl
  · intro other elsewhere another listed
    rcases (lists_recorded known rfl other elsewhere another).mp listed with old | ⟨_, rfl, _⟩
    · exact Nat.lt_succ_of_lt (filed.fresh old)
    · exact Nat.lt_succ_self _
  · refine excess_of_insert known rfl ?_
    simp only [CNodeState.validated_askedFor]
    omega

/-- Asking a peer for a block keeps the bookkeeping, also when another peer was asked before. -/
theorem Filed.markBlockAsInFlight
    (filed : state.Filed)
    (marked : state.markBlockAsInFlight nodeid hash pindex nTime = some next) :
    next.Filed ∧ next.excess = state.excess := by
  unfold DownloadState.markBlockAsInFlight at marked
  split_ifs at marked
  obtain ⟨unlisted, received, recorded⟩ := Option.bind_eq_some_iff.mp marked
  obtain ⟨unlistedFiled, level, absent⟩ := filed.markBlockAsReceived received
  obtain ⟨nextFiled, nextLevel⟩ := unlistedFiled.recordInFlight absent recorded
  exact ⟨nextFiled, nextLevel.trans level⟩

theorem get?_eraseHashes
    (entries : List (Nat × QueuedBlock)) (filed : SortedMap Uint256 (NodeId × Nat))
    (wanted : Uint256) :
    (entries.foldl (fun filed entry => filed.erase entry.2.hash) filed).get? wanted =
      if ∃ entry ∈ entries, wanted = entry.2.hash then none else filed.get? wanted := by
  induction entries generalizing filed with
  | nil => simp
  | cons entry rest ih =>
    rw [List.foldl_cons, ih, SortedMap.get?_erase]
    by_cases later : ∃ other ∈ rest, wanted = other.2.hash
    · rw [if_pos later, if_pos ((List.exists_mem_cons_iff _ _ _).mpr (.inr later))]
    · rw [if_neg later]
      refine if_congr ?_ rfl rfl
      rw [List.exists_mem_cons_iff, or_iff_left later]

theorem lists_of_erase
    (left : next.mapNodeState = state.mapNodeState.erase nodeid)
    (other : NodeId) (position : Nat) (block : QueuedBlock) :
    next.Lists other position block ↔ state.Lists other position block ∧ other ≠ nodeid := by
  unfold Lists
  rw [left, SortedMap.get?_erase]
  by_cases here : other = nodeid
  · simp [here]
  · simp [here]

/-- A peer that leaves is unfiled with its blocks, and the counter keeps counting those of them
that have validated headers. -/
theorem Filed.finalizeNode
    (filed : state.Filed)
    (known : state.mapNodeState.get? nodeid = some peer)
    (finalized : state.finalizeNode nodeid = some next) :
    next.Filed ∧ next.excess = state.excess + peer.validated := by
  unfold DownloadState.finalizeNode at finalized
  rw [known] at finalized
  cases finalized
  refine ⟨{ indexed := ?_, sound := ?_, fresh := ?_ }, ?_⟩
  · refine filed.indexed.left (lists_of_erase rfl) ?_ ?_ ?_
    · intro position block listed
      exact (get?_eraseHashes _ _ _).trans
        (if_pos ⟨(position, block), (lists_of_found known).mp listed, rfl⟩)
    · intro wanted none
      refine (get?_eraseHashes _ _ _).trans (if_neg ?_)
      rintro ⟨entry, member, same⟩
      exact none entry.1 entry.2 ((lists_of_found known).mpr member) same
    · intro wanted found still
      simp only [get?_eraseHashes] at still
      split_ifs at still
      exact still
  · intro other known' found
    exact filed.sound (SortedMap.get?_of_erase found)
  · intro other position block listed
    exact filed.fresh ((lists_of_erase rfl other position block).mp listed).1
  · have lost := SortedMap.total_erase_of_found known CNodeState.validated
    simp only [excess]
    omega

/-- No block in flight from a peer has validated headers. -/
def LosesNothing (state : DownloadState) (nodeid : NodeId) : Prop :=
  ∀ position block, state.Lists nodeid position block → block.fValidatedHeaders = false

/-- A peer that leaves raises the excess, unless none of its blocks in flight has validated
headers. -/
theorem Filed.excess_finalizeNode
    (filed : state.Filed)
    (finalized : state.finalizeNode nodeid = some next) :
    next.Filed ∧ state.excess ≤ next.excess ∧
      (next.excess = state.excess ↔ state.LosesNothing nodeid) := by
  obtain ⟨peer, known, _⟩ := Option.map_eq_some_iff.mp finalized
  obtain ⟨nextFiled, raised⟩ := filed.finalizeNode known finalized
  have nonneg := peer.validated_nonneg
  have loses : peer.validated = 0 ↔ state.LosesNothing nodeid := by
    rw [peer.validated_eq_zero_iff, LosesNothing]
    simp [lists_of_found known]
  refine ⟨nextFiled, by omega, ?_⟩
  rw [← loses]
  omega

/-- A call keeps the filing.  It leaves the excess, or raises it where a peer leaves with a
block in flight that has validated headers. -/
theorem Filed.afterCall
    (filed : state.Filed)
    (called : state.afterCall call = some next) :
    next.Filed ∧ state.excess ≤ next.excess ∧
      (next.excess = state.excess ↔
        ∀ nodeid, call = .finalizeNode nodeid → state.LosesNothing nodeid) := by
  cases call with
  | initializeNode nodeid pnode =>
    cases called
    have level := state.excess_initializeNode nodeid pnode
    refine ⟨filed_initializeNode filed nodeid pnode, level.ge, iff_of_true level ?_⟩
    intro other same
    cases same
  | finalizeNode nodeid =>
    obtain ⟨nextFiled, above, level⟩ := filed.excess_finalizeNode called
    refine ⟨nextFiled, above, level.trans ?_⟩
    simp
  | markBlockAsReceived hash =>
    obtain ⟨nextFiled, level, _⟩ := filed.markBlockAsReceived called
    refine ⟨nextFiled, level.ge, iff_of_true level ?_⟩
    intro other same
    cases same
  | markBlockAsInFlight nodeid hash pindex nTime =>
    obtain ⟨nextFiled, level⟩ := filed.markBlockAsInFlight called
    refine ⟨nextFiled, level.ge, iff_of_true level ?_⟩
    intro other same
    cases same

/-- Each peer that left did so when none of its blocks in flight had validated headers. -/
def LeavesCleanly (orphans : OrphanTransactions) (calls : List DownloadCall) : Prop :=
  ∀ past nodeid before, past ++ [.finalizeNode nodeid] <+: calls →
    afterCalls orphans past = some before → before.LosesNothing nodeid

theorem leavesCleanly_nil (orphans : OrphanTransactions) : LeavesCleanly orphans [] := by
  intro past nodeid before earlier
  have empty := List.prefix_nil.mp earlier
  exact absurd empty (List.append_ne_nil_of_right_ne_nil past (List.cons_ne_nil _ []))

theorem leavesCleanly_snoc_iff
    (reached : afterCalls orphans past = some state) :
    LeavesCleanly orphans (past ++ [call]) ↔
      LeavesCleanly orphans past ∧
        ∀ nodeid, call = .finalizeNode nodeid → state.LosesNothing nodeid := by
  constructor
  · intro cleanly
    constructor
    · intro earlier nodeid before inside
      exact cleanly earlier nodeid before (inside.trans (List.prefix_append past [call]))
    · rintro nodeid rfl
      exact cleanly past nodeid state (List.prefix_refl _) reached
  · rintro ⟨cleanly, last⟩ earlier nodeid before inside
    rcases List.prefix_concat_iff.mp inside with whole | inside
    · obtain ⟨rfl, same⟩ := List.append_inj' whole rfl
      rw [reached]
      rintro ⟨⟩
      exact last nodeid (List.singleton_inj.mp same).symm
    · exact cleanly earlier nodeid before inside

/-- After any calls the filing is right, and the counter of validated headers is never too low:
it is exact if and only if every peer left cleanly. -/
theorem filed_afterCalls
    (reached : afterCalls orphans calls = some state) :
    state.Filed ∧ 0 ≤ state.excess ∧ (state.excess = 0 ↔ LeavesCleanly orphans calls) := by
  induction calls using List.reverseRecOn generalizing state with
  | nil =>
    cases reached
    exact ⟨filed_initial orphans, le_refl 0, iff_of_true rfl (leavesCleanly_nil orphans)⟩
  | append_singleton past call ih =>
    rw [afterCalls_snoc] at reached
    obtain ⟨before, pastReached, called⟩ := Option.bind_eq_some_iff.mp reached
    obtain ⟨filed, nonneg, exact_⟩ := ih pastReached
    obtain ⟨nextFiled, above, level⟩ := filed.afterCall called
    refine ⟨nextFiled, nonneg.trans above, ?_⟩
    rw [leavesCleanly_snoc_iff pastReached, ← exact_, ← level]
    omega

/-- The bookkeeping of downloads is right after some calls if and only if no peer left while a
block with validated headers was in flight from it. -/
theorem bookkept_iff_leavesCleanly
    {orphans : OrphanTransactions} {calls : List DownloadCall} {state : DownloadState}
    (reached : afterCalls orphans calls = some state) :
    state.Bookkept ↔ LeavesCleanly orphans calls := by
  obtain ⟨filed, _, level⟩ := filed_afterCalls reached
  exact filed.bookkept_iff.trans level

/-- Two peers connect, the second is asked for a block that the first was asked for, and the
first leaves. -/
theorem bookkept_iff_leavesCleanly_rerequested :
    ∃ state, afterCalls ⟨.empty, .empty⟩
        [.initializeNode 1 ⟨"peer", "192.0.2.1:51572", 51572⟩,
          .initializeNode 2 ⟨"other", "192.0.2.2:51572", 51572⟩,
          .markBlockAsInFlight 1 7 (some [7, 3]) 100,
          .markBlockAsInFlight 2 7 (some [7, 3]) 200,
          .finalizeNode 1] = some state ∧
      state.nQueuedValidatedHeaders = 1 ∧
      (state.Bookkept ↔ LeavesCleanly ⟨.empty, .empty⟩
        [.initializeNode 1 ⟨"peer", "192.0.2.1:51572", 51572⟩,
          .initializeNode 2 ⟨"other", "192.0.2.2:51572", 51572⟩,
          .markBlockAsInFlight 1 7 (some [7, 3]) 100,
          .markBlockAsInFlight 2 7 (some [7, 3]) 200,
          .finalizeNode 1]) :=
  ⟨_, rfl, rfl, bookkept_iff_leavesCleanly rfl⟩

/-- A peer connects, is asked for a block with validated headers, and leaves: no block is in
flight, and the counter stays at one. -/
theorem left_peer_stays_counted :
    ∃ state, afterCalls ⟨.empty, .empty⟩
        [.initializeNode 1 ⟨"peer", "192.0.2.1:51572", 51572⟩,
          .markBlockAsInFlight 1 7 (some [7, 3]) 100,
          .finalizeNode 1] = some state ∧
      state.mapNodeState.entries = [] ∧ state.nQueuedValidatedHeaders = 1 ∧
      ¬state.Bookkept := by
  refine ⟨_, rfl, rfl, rfl, ?_⟩
  intro bookkept
  have level := bookkept.validated
  cases level

end DownloadState

end ColossusCoin
