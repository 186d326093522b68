import ColossusCoin.Chain.SkipList

/-!
# Common ancestors

From the same height two entries of one tree are followed up, step by step, until they meet; where
they meet is below all other ancestors that they have in common.
-/

namespace ColossusCoin

open Loops

namespace BlockMemory

variable {memory : BlockMemory} {skipped : List Nat} {pa pb : Nat} {nodeA nodeB : BlockIndexNode}

/-- An entry, or one that is reached from it by following `pprev`. -/
def IsAncestor (memory : BlockMemory) (ancestor pindex : Nat) : Prop :=
  ∃ steps, memory.walk steps pindex = some ancestor

/-- The deepest entry that is an ancestor of both. -/
structure IsLastCommon (memory : BlockMemory) (last pa pb : Nat) : Prop where
  first : memory.IsAncestor last pa
  second : memory.IsAncestor last pb
  deepest : ∀ other, memory.IsAncestor other pa → memory.IsAncestor other pb →
    memory.IsAncestor other last

theorem Linked.meetLoop_spec
    (linked : memory.Linked)
    (foundA : memory[pa]? = some nodeA)
    (foundB : memory[pb]? = some nodeB)
    (level : nodeA.nHeight = nodeB.nHeight)
    (meet : memory.walk nodeA.nHeight pa = memory.walk nodeA.nHeight pb) :
    ∃ steps last, Ends (fun fuel => memory.meetLoop fuel (some pa) (some pb))
        (some last, some last) ∧
      memory.walk steps pa = some last ∧ memory.walk steps pb = some last ∧
      ∀ fewer, fewer < steps → memory.walk fewer pa ≠ memory.walk fewer pb := by
  induction height : nodeA.nHeight generalizing pa pb nodeA nodeB with
  | zero =>
    rw [height] at meet
    obtain rfl := Option.some.inj meet
    refine ⟨0, pa, ends_of_succ fun less => ?_, rfl, rfl, fun _ none => absurd none (by omega)⟩
    simp only [meetLoop, if_neg (not_not_intro rfl)]
  | succ lower ih =>
    by_cases same : pa = pb
    · subst same
      refine ⟨0, pa, ends_of_succ fun less => ?_, rfl, rfl, fun _ none => absurd none (by omega)⟩
      simp only [meetLoop, if_neg (not_not_intro rfl)]
    · obtain ⟨upA, parentA⟩ : ∃ pprev, nodeA.pprev = some pprev := by
        refine Option.ne_none_iff_exists'.mp fun none => ?_
        have root := linked.roots pa nodeA foundA none
        omega
      obtain ⟨upB, parentB⟩ : ∃ pprev, nodeB.pprev = some pprev := by
        refine Option.ne_none_iff_exists'.mp fun none => ?_
        have root := linked.roots pb nodeB foundB none
        omega
      obtain ⟨upperA, hereA, heightA⟩ := linked.parents pa nodeA foundA upA parentA
      obtain ⟨upperB, hereB, heightB⟩ := linked.parents pb nodeB foundB upB parentB
      have walkA : ∀ steps, memory.walk (steps + 1) pa = memory.walk steps upA := fun steps => by
        rw [walk_succ foundA, parentA, Option.bind_some]
      have walkB : ∀ steps, memory.walk (steps + 1) pb = memory.walk steps upB := fun steps => by
        rw [walk_succ foundB, parentB, Option.bind_some]
      have size : upperA.nHeight = lower := by omega
      rw [height, walkA, walkB, ← size] at meet
      obtain ⟨steps, last, ends, reachedA, reachedB, apart⟩ :=
        ih hereA hereB (by omega) meet size
      refine ⟨steps + 1, last, ends.succ fun less after => ?_, ?_, ?_, ?_⟩
      · have different : some pa ≠ some pb := fun equal => same (Option.some.inj equal)
        simp only [meetLoop, if_pos different, foundA, foundB, Option.bind_eq_bind,
          Option.bind_some, parentA, parentB]
        exact after
      · rw [walkA, reachedA]
      · rw [walkB, reachedB]
      · intro fewer before
        cases fewer with
        | zero => exact fun equal => same (Option.some.inj equal)
        | succ fewer =>
          rw [walkA, walkB]
          exact apart fewer (by omega)

/-- To the height of the lower one of two entries `GetAncestor` is called, unless it is the entry's
own. -/
theorem Skips.ends_level
    (skips : memory.Skips skipped)
    (member : pa ∈ skipped)
    (found : memory[pa]? = some nodeA)
    (height : Nat) :
    Ends (fun fuel => if height < nodeA.nHeight then memory.getAncestor pa height fuel
      else pure (some pa)) (memory.walk (nodeA.nHeight - height) pa) := by
  by_cases higher : height < nodeA.nHeight
  · simp only [if_pos higher]
    exact skips.ends_getAncestor member found higher.le
  · have none : nodeA.nHeight - height = 0 := by omega
    simp only [if_neg higher, none]
    exact ends_some (some pa)

theorem Skips.lastCommonAncestor_spec
    (skips : memory.Skips skipped)
    (memberA : pa ∈ skipped)
    (memberB : pb ∈ skipped)
    (oneTree : ∃ root, memory.IsAncestor root pa ∧ memory.IsAncestor root pb) :
    ∃ last, Ends (memory.lastCommonAncestor pa pb) (some last) ∧
      memory.IsLastCommon last pa pb := by
  obtain ⟨nodeA, foundA⟩ := skips.known pa memberA
  obtain ⟨nodeB, foundB⟩ := skips.known pb memberB
  have levelA := skips.ends_level memberA foundA nodeB.nHeight
  have levelB := skips.ends_level memberB foundB nodeA.nHeight
  obtain ⟨a, lowA, walkA, hereA, sumA⟩ := skips.linked.walk_spec foundA
    (Nat.sub_le nodeA.nHeight nodeB.nHeight)
  obtain ⟨b, lowB, walkB, hereB, sumB⟩ := skips.linked.walk_spec foundB
    (Nat.sub_le nodeB.nHeight nodeA.nHeight)
  rw [walkA] at levelA
  rw [walkB] at levelB
  have level : lowA.nHeight = lowB.nHeight := by omega
  -- A common ancestor is as many steps from one entry at the common height as from the other.
  have common : ∀ other, memory.IsAncestor other pa → memory.IsAncestor other pb →
      ∃ steps, steps ≤ lowA.nHeight ∧ memory.walk steps a = some other ∧
        memory.walk steps b = some other := by
    rintro other ⟨stepsA, reachedA⟩ ⟨stepsB, reachedB⟩
    obtain ⟨lower, here, countA⟩ := skips.linked.walk_of_some foundA reachedA
    obtain ⟨lower', here', countB⟩ := skips.linked.walk_of_some foundB reachedB
    obtain rfl := Option.some.inj (here.symm.trans here')
    have splitA : stepsA = (nodeA.nHeight - nodeB.nHeight) +
        (lowA.nHeight - lower.nHeight) := by omega
    have splitB : stepsB = (nodeB.nHeight - nodeA.nHeight) +
        (lowA.nHeight - lower.nHeight) := by omega
    rw [splitA, walk_add, walkA, Option.bind_some] at reachedA
    rw [splitB, walk_add, walkB, Option.bind_some] at reachedB
    exact ⟨lowA.nHeight - lower.nHeight, Nat.sub_le _ _, reachedA, reachedB⟩
  have meet : memory.walk lowA.nHeight a = memory.walk lowA.nHeight b := by
    obtain ⟨root, above, below⟩ := oneTree
    obtain ⟨steps, inside, reachedA, reachedB⟩ := common root above below
    have split : lowA.nHeight = steps + (lowA.nHeight - steps) := by omega
    rw [split, walk_add, walk_add, reachedA, reachedB]
  obtain ⟨steps, last, ends, reachedA, reachedB, apart⟩ :=
    skips.linked.meetLoop_spec hereA hereB level meet
  refine ⟨last, ?_, ⟨(nodeA.nHeight - nodeB.nHeight) + steps, ?_⟩,
    ⟨(nodeB.nHeight - nodeA.nHeight) + steps, ?_⟩, ?_⟩
  · obtain ⟨enoughA, givesA⟩ := levelA
    obtain ⟨enoughB, givesB⟩ := levelB
    obtain ⟨enough, gives⟩ := ends
    refine ⟨max enoughA (max enoughB enough), fun fuel above => ?_⟩
    have hereA := givesA fuel (by omega)
    have hereB := givesB fuel (by omega)
    have here := gives fuel (by omega)
    simp only [lastCommonAncestor, foundA, foundB, Option.bind_eq_bind, Option.bind_some]
    split_ifs at hereA hereB ⊢
    all_goals
      simp only [hereA, hereB, here, Option.bind_some, if_true]
      rfl
  · rw [walk_add, walkA, Option.bind_some, reachedA]
  · rw [walk_add, walkB, Option.bind_some, reachedB]
  · intro other above below
    obtain ⟨more, -, otherA, otherB⟩ := common other above below
    have notBefore : steps ≤ more := by
      by_contra before
      exact apart more (not_le.mp before) (otherA.trans otherB.symm)
    refine ⟨more - steps, ?_⟩
    have split : more = steps + (more - steps) := by omega
    rw [split, walk_add, reachedA, Option.bind_some] at otherA
    exact otherA

/-- In every history of the index `GetAncestor` of an entry whose ancestors have had `BuildSkip`
finds the entry that following `pprev` leads to, and no null pointer is followed; and
`LastCommonAncestor` of two such entries of one tree is their deepest common ancestor. -/
theorem ancestors_found
    {history : SkipHistory} {events : List IndexEvent}
    (run : skipSystem.Run ⟨[], []⟩ events history) :
    (∀ pindex ∈ history.skipped, ∃ node, history.memory[pindex]? = some node ∧
        ∀ height : Int, 0 ≤ height → height ≤ node.nHeight →
          ∃ ancestor, history.memory.walk (node.nHeight - height.toNat) pindex = some ancestor ∧
            Ends (history.memory.getAncestor pindex height) (some ancestor)) ∧
      ∀ pa ∈ history.skipped, ∀ pb ∈ history.skipped,
        (∃ root, history.memory.IsAncestor root pa ∧ history.memory.IsAncestor root pb) →
          ∃ last, Ends (history.memory.lastCommonAncestor pa pb) (some last) ∧
            history.memory.IsLastCommon last pa pb := by
  have skips := skips_of_run run
  constructor
  · intro pindex member
    obtain ⟨node, found⟩ := skips.known pindex member
    refine ⟨node, found, fun height notBelow notAbove => ?_⟩
    obtain ⟨lower, rfl⟩ := Int.eq_ofNat_of_zero_le notBelow
    have ends := skips.ends_getAncestor member found (Int.ofNat_le.mp notAbove)
    obtain ⟨ancestor, -, walked, -⟩ := skips.linked.walk_spec found
      (Nat.sub_le node.nHeight lower)
    rw [Int.toNat_natCast]
    exact ⟨ancestor, walked, walked ▸ ends⟩
  · intro pa memberA pb memberB oneTree
    exact skips.lastCommonAncestor_spec memberA memberB oneTree

/-- A root and a child to which `BuildSkip` was applied. -/
def rootAndChild : SkipHistory where
  memory := [⟨none, none, 0⟩, ⟨some 0, some 0, 1⟩]
  skipped := [1, 0]

theorem run_rootAndChild :
    skipSystem.Run ⟨[], []⟩ [.link none, .link (some 0), .buildSkip 1] rootAndChild := by
  have root : skipSystem.Run ⟨[], []⟩ [.link none] ⟨[⟨none, none, 0⟩], [0]⟩ :=
    .snoc .nil (@SkipHistory.Step.root [] [])
  have child : skipSystem.Run ⟨[], []⟩ [.link none, .link (some 0)]
      ⟨[⟨none, none, 0⟩, ⟨some 0, none, 1⟩], [0]⟩ := 
    .snoc root (@SkipHistory.Step.child [⟨none, none, 0⟩] [0] 0 ⟨none, none, 0⟩ rfl)
  refine .snoc child (.inOrder rfl rfl List.mem_cons_self (ends_of_succ fun less => ?_))
  rfl

theorem ancestors_found_rootAndChild :
    ∃ last, Ends (rootAndChild.memory.lastCommonAncestor 1 1) (some last) ∧
      rootAndChild.memory.IsLastCommon last 1 1 :=
  (ancestors_found run_rootAndChild).2 1 List.mem_cons_self 1 List.mem_cons_self
    ⟨1, ⟨0, rfl⟩, ⟨0, rfl⟩⟩

end BlockMemory

end ColossusCoin
