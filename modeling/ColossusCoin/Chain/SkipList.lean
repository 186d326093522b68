import ColossusCoin.Library.Loops
import ColossusCoin.Library.System
import Mathlib.Data.Nat.Bitwise

/-!
# Skip pointers of the block index

Entries of the block index are linked to their parents, and `BuildSkip` gives each of them a
pointer further down.  A pointer is the place where an entry was allocated; a null pointer must not
be followed.
-/

namespace ColossusCoin

open Loops

/-- The links and the height of a `CBlockIndex`. -/
structure BlockIndexNode where
  pprev : Option Nat
  pskip : Option Nat
  nHeight : Nat
  deriving DecidableEq, Repr

/-- The entries in the order of their allocation. -/
abbrev BlockMemory := List BlockIndexNode

def invertLowestOne (n : Nat) : Nat := n &&& (n - 1)

def getSkipHeight (height : Nat) : Nat :=
  if height < 2 then 0
  else if height &&& 1 ≠ 0 then invertLowestOne (invertLowestOne (height - 1)) + 1
  else invertLowestOne height

theorem invertLowestOne_le (n : Nat) : invertLowestOne n ≤ n - 1 := Nat.and_le_right

/-- Skipping leads to a strictly lower height. -/
theorem getSkipHeight_lt
    (positive : 0 < height) :
    getSkipHeight height < height := by
  rw [getSkipHeight]
  split_ifs with small odd
  · exact positive
  · have inner := invertLowestOne_le (height - 1)
    have outer := invertLowestOne_le (invertLowestOne (height - 1))
    omega
  · have lower := invertLowestOne_le height
    omega

namespace BlockMemory

/-- The loop of `GetAncestor`: `none` at a null pointer that is followed, or without fuel. -/
def getAncestorLoop (memory : BlockMemory) (height : Nat) :
    Nat → Option Nat → Nat → Option (Option Nat)
  | 0, _, _ => none
  | fuel + 1, pindexWalk, heightWalk =>
    if height < heightWalk then
      let heightSkip := getSkipHeight heightWalk
      let heightSkipPrev := getSkipHeight (heightWalk - 1)
      match pindexWalk.bind fun walk => memory[walk]? with
      | none => none
      | some node =>
        -- `heightSkipPrev < heightSkip - 2` is a comparison of signed numbers.
        if heightSkip = height ∨ height < heightSkip ∧
            ¬(heightSkipPrev + 2 < heightSkip ∧ height ≤ heightSkipPrev) then
          getAncestorLoop memory height fuel node.pskip heightSkip
        else getAncestorLoop memory height fuel node.pprev (heightWalk - 1)
    else some pindexWalk

/-- `CBlockIndex::GetAncestor`, which may return a null pointer. -/
def getAncestor (memory : BlockMemory) (pindex : Nat) (height : Int) (fuel : Nat) :
    Option (Option Nat) := do
  let node ← memory[pindex]?
  if node.nHeight < height ∨ height < 0 then pure none
  else getAncestorLoop memory height.toNat fuel (some pindex) node.nHeight

/-- `CBlockIndex::BuildSkip`. -/
def buildSkip (memory : BlockMemory) (pindex : Nat) (fuel : Nat) : Option BlockMemory := do
  let node ← memory[pindex]?
  match node.pprev with
  | none => pure memory
  | some pprev =>
    let pskip ← getAncestor memory pprev (getSkipHeight node.nHeight) fuel
    pure (memory.set pindex { node with pskip := pskip })

/-- The loop of `LastCommonAncestor`. -/
def meetLoop (memory : BlockMemory) :
    Nat → Option Nat → Option Nat → Option (Option Nat × Option Nat)
  | 0, _, _ => none
  | fuel + 1, pa, pb =>
    if pa ≠ pb then
      match pa, pb with
      | some a, some b => do
          let nodeA ← memory[a]?
          let nodeB ← memory[b]?
          meetLoop memory fuel nodeA.pprev nodeB.pprev
      | _, _ => some (pa, pb)
    else some (pa, pb)

/-- `LastCommonAncestor`; `none` also where its assertion fails. -/
def lastCommonAncestor (memory : BlockMemory) (pa pb : Nat) (fuel : Nat) :
    Option (Option Nat) := do
  let nodeA ← memory[pa]?
  let nodeB ← memory[pb]?
  let levelA ← if nodeB.nHeight < nodeA.nHeight then getAncestor memory pa nodeB.nHeight fuel
    else pure (some pa)
  let levelB ← if nodeA.nHeight < nodeB.nHeight then getAncestor memory pb nodeA.nHeight fuel
    else pure (some pb)
  let met ← meetLoop memory fuel levelA levelB
  if met.1 = met.2 then pure met.1 else none

/-- Following `pprev` so many times. -/
def walk (memory : BlockMemory) : Nat → Nat → Option Nat
  | 0, pindex => some pindex
  | steps + 1, pindex => do
      let node ← memory[pindex]?
      let pprev ← node.pprev
      walk memory steps pprev

end BlockMemory

/-- The entries, and those of them to which `BuildSkip` was applied after it was to their parents;
an entry without a parent has nothing to build. -/
structure SkipHistory where
  memory : BlockMemory
  skipped : List Nat

/-- What is done with the index: a new entry is linked to its parent, if it has one, and `BuildSkip`
is applied to an entry. -/
inductive IndexEvent
  | link (pprev : Option Nat)
  | buildSkip (pindex : Nat)

/-- A step of the index. -/
inductive SkipHistory.Step : SkipHistory → IndexEvent → SkipHistory → Prop
  | root {memory : BlockMemory} {skipped : List Nat} :
      Step ⟨memory, skipped⟩ (.link none) ⟨memory ++ [⟨none, none, 0⟩], memory.length :: skipped⟩
  | child {memory : BlockMemory} {skipped : List Nat} {pprev : Nat} {parent : BlockIndexNode}
      (found : memory[pprev]? = some parent) :
      Step ⟨memory, skipped⟩ (.link (some pprev))
        ⟨memory ++ [⟨some pprev, none, parent.nHeight + 1⟩], skipped⟩
  | inOrder {memory next : BlockMemory} {skipped : List Nat} {pindex pprev : Nat}
      {node : BlockIndexNode}
      (found : memory[pindex]? = some node)
      (parent : node.pprev = some pprev)
      (earlier : pprev ∈ skipped)
      (built : Ends (memory.buildSkip pindex) next) :
      Step ⟨memory, skipped⟩ (.buildSkip pindex) ⟨next, pindex :: skipped⟩
  | outOfOrder {memory next : BlockMemory} {skipped : List Nat} {pindex : Nat}
      (built : Ends (memory.buildSkip pindex) next) :
      Step ⟨memory, skipped⟩ (.buildSkip pindex) ⟨next, skipped⟩

/-- The block index under any sequence of such events. -/
def skipSystem : LabelledSystem SkipHistory IndexEvent := ⟨SkipHistory.Step⟩

namespace BlockMemory

variable {memory : BlockMemory}

theorem walk_succ
    (found : memory[pindex]? = some node)
    (steps : Nat) :
    memory.walk (steps + 1) pindex = node.pprev.bind (memory.walk steps) := by
  rw [walk, found]
  rfl

theorem walk_add (first second pindex : Nat) :
    memory.walk (first + second) pindex = (memory.walk first pindex).bind (memory.walk second) := by
  induction first generalizing pindex with
  | zero => rw [Nat.zero_add, walk, Option.bind_some]
  | succ first ih =>
    cases found : memory[pindex]? with
    | none => simp [Nat.succ_add, walk, found]
    | some node =>
      rw [Nat.succ_add, walk_succ found, walk_succ found, Option.bind_assoc]
      exact congrArg node.pprev.bind (funext ih)

/-- Entries are linked to earlier ones that are one lower, and those without a parent are at
height zero. -/
structure Linked (memory : BlockMemory) : Prop where
  parents : ∀ (pindex : Nat) (node : BlockIndexNode), memory[pindex]? = some node →
    ∀ pprev, node.pprev = some pprev →
      ∃ parent : BlockIndexNode, memory[pprev]? = some parent ∧ node.nHeight = parent.nHeight + 1
  roots : ∀ (pindex : Nat) (node : BlockIndexNode), memory[pindex]? = some node →
    node.pprev = none → node.nHeight = 0

theorem Linked.walk_spec
    (linked : memory.Linked)
    (found : memory[pindex]? = some node)
    (inside : steps ≤ node.nHeight) :
    ∃ reached lower, memory.walk steps pindex = some reached ∧ memory[reached]? = some lower ∧
      lower.nHeight + steps = node.nHeight := by
  induction steps generalizing pindex node with
  | zero => exact ⟨pindex, node, rfl, found, rfl⟩
  | succ steps ih =>
    cases parented : node.pprev with
    | none =>
      have none := linked.roots pindex node found parented
      omega
    | some pprev =>
      obtain ⟨parent, foundParent, height⟩ := linked.parents pindex node found pprev parented
      obtain ⟨reached, lower, walked, here, sum⟩ :=
        ih foundParent (by omega)
      refine ⟨reached, lower, ?_, here, by omega⟩
      rw [walk_succ found, parented, Option.bind_some, walked]

/-- A walk does not lead below the root. -/
theorem Linked.walk_of_some
    (linked : memory.Linked)
    (found : memory[pindex]? = some node)
    (walked : memory.walk steps pindex = some reached) :
    ∃ lower, memory[reached]? = some lower ∧ lower.nHeight + steps = node.nHeight := by
  induction steps generalizing pindex node with
  | zero =>
    obtain rfl := Option.some.inj walked
    exact ⟨node, found, rfl⟩
  | succ steps ih =>
    rw [walk_succ found] at walked
    obtain ⟨pprev, parented, walked⟩ := Option.bind_eq_some_iff.mp walked
    obtain ⟨parent, foundParent, height⟩ := linked.parents pindex node found pprev parented
    obtain ⟨lower, here, sum⟩ := ih foundParent walked
    exact ⟨lower, here, by omega⟩

/-- The skip pointers of some entries and of all their ancestors lead where walking leads. -/
structure Skips (memory : BlockMemory) (skipped : List Nat) : Prop where
  linked : memory.Linked
  known : ∀ pindex ∈ skipped, ∃ node : BlockIndexNode, memory[pindex]? = some node
  parents : ∀ pindex ∈ skipped, ∀ node : BlockIndexNode, memory[pindex]? = some node →
    ∀ pprev, node.pprev = some pprev → pprev ∈ skipped
  pointers : ∀ pindex ∈ skipped, ∀ node : BlockIndexNode, memory[pindex]? = some node →
    node.pprev ≠ none → node.pskip = memory.walk (node.nHeight - getSkipHeight node.nHeight) pindex

section

variable (skips : memory.Skips skipped)
include skips

/-- Ancestors have their skip pointers too. -/
theorem Skips.walk_mem
    (member : pindex ∈ skipped)
    (walked : memory.walk steps pindex = some reached) :
    reached ∈ skipped := by
  induction steps generalizing pindex with
  | zero => exact Option.some.inj walked ▸ member
  | succ steps ih =>
    obtain ⟨node, found⟩ := skips.known pindex member
    rw [walk_succ found] at walked
    obtain ⟨pprev, parented, walked⟩ := Option.bind_eq_some_iff.mp walked
    exact ih (skips.parents pindex member node found pprev parented) walked

theorem Skips.getAncestorLoop_eq
    (member : pindex ∈ skipped)
    (found : memory[pindex]? = some node)
    (above : height ≤ node.nHeight)
    (enough : node.nHeight < fuel) :
    memory.getAncestorLoop height fuel (some pindex) node.nHeight =
      some (memory.walk (node.nHeight - height) pindex) := by
  induction fuel generalizing pindex node with
  | zero => omega
  | succ fuel ih =>
    rw [getAncestorLoop]
    by_cases higher : height < node.nHeight
    · rw [if_pos higher]
      simp only [Option.bind_some, found]
      -- Either pointer leads to an ancestor that is not below the height.
      have onward : ∀ steps, 0 < steps → height + steps ≤ node.nHeight →
          memory.getAncestorLoop height fuel (memory.walk steps pindex) (node.nHeight - steps) =
            some (memory.walk (node.nHeight - height) pindex) := by
        intro steps some notBelow
        obtain ⟨reached, lower, walked, here, sum⟩ :=
          skips.linked.walk_spec found (show steps ≤ node.nHeight by omega)
        have height' : node.nHeight - steps = lower.nHeight := by omega
        have split : node.nHeight - height = steps + (lower.nHeight - height) := by omega
        rw [walked, height', ih (skips.walk_mem member walked) here (by omega)
          (by omega), split, walk_add, walked, Option.bind_some]
      have lowered := getSkipHeight_lt (show 0 < node.nHeight by omega)
      split_ifs with skip
      · cases parented : node.pprev with
        | none =>
          have none := skips.linked.roots pindex node found parented
          omega
        | some pprev =>
          have pointer := skips.pointers pindex member node found (by simp [parented])
          have skipped := onward (node.nHeight - getSkipHeight node.nHeight) (by omega) (by omega)
          rw [Nat.sub_sub_self lowered.le] at skipped
          rw [pointer]
          exact skipped
      · have single : memory.walk 1 pindex = node.pprev := by
          rw [walk_succ found]
          cases node.pprev with
          | none => rfl
          | some pprev => rfl
        rw [← single]
        exact onward 1 (by omega) (by omega)
    · have same : node.nHeight - height = 0 := by omega
      rw [if_neg higher, same, walk]

theorem Skips.ends_getAncestor
    (member : pindex ∈ skipped)
    (found : memory[pindex]? = some node)
    (inside : height ≤ node.nHeight) :
    Ends (memory.getAncestor pindex height) (memory.walk (node.nHeight - height) pindex) := by
  refine ⟨node.nHeight + 1, fun fuel enough => ?_⟩
  have notAbove : ¬((node.nHeight : Int) < height ∨ (height : Int) < 0) := by omega
  rw [getAncestor, found]
  change (if (node.nHeight : Int) < height ∨ (height : Int) < 0 then some none
    else memory.getAncestorLoop (height : Int).toNat fuel (some pindex) node.nHeight) = _
  rw [if_neg notAbove, Int.toNat_natCast]
  exact skips.getAncestorLoop_eq member found inside enough

end

/-- Walks stay when entries are added. -/
theorem walk_append
    (more : BlockMemory)
    (walked : memory.walk steps pindex = some reached) :
    BlockMemory.walk (memory ++ more) steps pindex = some reached := by
  induction steps generalizing pindex with
  | zero => exact walked
  | succ steps ih =>
    cases found : memory[pindex]? with
    | none => simp [walk, found] at walked
    | some node =>
      have still : (memory ++ more)[pindex]? = some node := by
        rw [List.getElem?_append_left (List.getElem?_eq_some_iff.mp found).1, found]
      rw [walk_succ found] at walked
      obtain ⟨pprev, parented, walked⟩ := Option.bind_eq_some_iff.mp walked
      rw [walk_succ still, parented, Option.bind_some]
      exact ih walked

theorem walk_set
    (found : memory[pindex]? = some node)
    (pskip : Option Nat) (steps start : Nat) :
    BlockMemory.walk (memory.set pindex { node with pskip := pskip }) steps start =
      memory.walk steps start := by
  induction steps generalizing start with
  | zero => rfl
  | succ steps ih =>
    by_cases here : pindex = start
    · subst here
      have changed : (memory.set pindex { node with pskip := pskip })[pindex]? =
          some { node with pskip := pskip } :=
        List.getElem?_set_self (List.getElem?_eq_some_iff.mp found).1
      rw [walk_succ changed, walk_succ found]
      exact congrArg node.pprev.bind (funext ih)
    · have same : (memory.set pindex { node with pskip := pskip })[start]? = memory[start]? :=
        List.getElem?_set_ne here
      cases other : memory[start]? with
      | none => simp [walk, same, other]
      | some lower =>
        rw [walk_succ (same.trans other), walk_succ other]
        exact congrArg lower.pprev.bind (funext ih)

theorem getElem?_set_pskip
    (found : memory[pindex]? = some node)
    (here : (memory.set pindex { node with pskip := pskip })[other]? = some after) :
    ∃ before, memory[other]? = some before ∧ after.pprev = before.pprev ∧
      after.nHeight = before.nHeight ∧
      (other ≠ pindex ∧ after = before ∨ other = pindex ∧ after.pskip = pskip) := by
  by_cases same : pindex = other
  · subst same
    rw [List.getElem?_set_self (List.getElem?_eq_some_iff.mp found).1] at here
    obtain rfl := Option.some.inj here
    exact ⟨node, found, rfl, rfl, .inr ⟨rfl, rfl⟩⟩
  · rw [List.getElem?_set_ne same] at here
    exact ⟨after, here, rfl, rfl, .inl ⟨Ne.symm same, rfl⟩⟩

/-- Setting a skip pointer keeps those of other entries, and may give the entry the right one. -/
theorem Skips.set
    (skips : memory.Skips skipped)
    (found : memory[pindex]? = some node)
    (known : ∀ other ∈ more, other ∈ skipped ∨ other = pindex)
    (parent : pindex ∈ more → ∀ pprev, node.pprev = some pprev → pprev ∈ more)
    (kept : ∀ other ∈ skipped, other ∈ more)
    (right : pindex ∈ more → node.pprev ≠ none →
      pskip = memory.walk (node.nHeight - getSkipHeight node.nHeight) pindex) :
    BlockMemory.Skips (memory.set pindex { node with pskip := pskip }) more := by
  refine ⟨⟨?_, ?_⟩, ?_, ?_, ?_⟩
  · intro other after here pprev parented
    obtain ⟨before, there, parents, height, -⟩ := getElem?_set_pskip found here
    obtain ⟨upper, foundUpper, sum⟩ :=
      skips.linked.parents other before there pprev (parents ▸ parented)
    by_cases same : pindex = pprev
    · subst same
      obtain rfl := Option.some.inj (found.symm.trans foundUpper)
      exact ⟨{ node with pskip := pskip },
        List.getElem?_set_self (List.getElem?_eq_some_iff.mp found).1, height.trans sum⟩
    · exact ⟨upper, by rw [List.getElem?_set_ne same, foundUpper], height.trans sum⟩
  · intro other after here none
    obtain ⟨before, there, parents, height, -⟩ := getElem?_set_pskip found here
    exact height.trans (skips.linked.roots other before there (parents ▸ none))
  · intro other member
    by_cases same : pindex = other
    · subst same
      exact ⟨_, List.getElem?_set_self (List.getElem?_eq_some_iff.mp found).1⟩
    · obtain ⟨before, there⟩ := skips.known other ((known other member).resolve_right
        (Ne.symm same))
      exact ⟨before, by rw [List.getElem?_set_ne same, there]⟩
  · intro other member after here pprev parented
    obtain ⟨before, there, parents, -, -⟩ := getElem?_set_pskip found here
    rcases known other member with old | rfl
    · exact kept pprev (skips.parents other old before there pprev (parents ▸ parented))
    · obtain rfl := Option.some.inj (found.symm.trans there)
      exact parent member pprev (parents ▸ parented)
  · intro other member after here some
    obtain ⟨before, there, parents, height, outcome⟩ := getElem?_set_pskip found here
    rw [walk_set found, height]
    rcases outcome with ⟨different, rfl⟩ | ⟨rfl, pointer⟩
    · exact skips.pointers other ((known other member).resolve_right different) after there some
    · obtain rfl := Option.some.inj (found.symm.trans there)
      exact pointer.trans (right member (parents ▸ some))

theorem Skips.append
    (skips : memory.Skips skipped)
    (parented : ∀ pprev, new.pprev = some pprev →
      ∃ parent : BlockIndexNode, memory[pprev]? = some parent ∧ new.nHeight = parent.nHeight + 1)
    (rooted : new.pprev = none → new.nHeight = 0)
    (known : ∀ other ∈ more, other ∈ skipped ∨ other = memory.length ∧ new.pprev = none)
    (kept : ∀ other ∈ skipped, other ∈ more) :
    BlockMemory.Skips (memory ++ [new]) more := by
  have split : ∀ (other : Nat) (node : BlockIndexNode), (memory ++ [new])[other]? = some node →
      memory[other]? = some node ∨ other = memory.length ∧ node = new := by
    intro other node here
    rw [List.getElem?_append] at here
    split_ifs at here with inside
    · exact .inl here
    · rw [List.getElem?_singleton] at here
      split_ifs at here with last
      exact .inr ⟨by omega, (Option.some.inj here).symm⟩
  have extends_ : ∀ (other : Nat) (node : BlockIndexNode), memory[other]? = some node →
      (memory ++ [new])[other]? = some node := by
    intro other node here
    rw [List.getElem?_append_left (List.getElem?_eq_some_iff.mp here).1, here]
  have last : (memory ++ [new])[memory.length]? = some new := by simp
  refine ⟨⟨?_, ?_⟩, ?_, ?_, ?_⟩
  · intro other node here pprev parent
    rcases split other node here with old | ⟨rfl, rfl⟩
    · obtain ⟨upper, found, sum⟩ := skips.linked.parents other node old pprev parent
      exact ⟨upper, extends_ _ _ found, sum⟩
    · obtain ⟨upper, found, sum⟩ := parented pprev parent
      exact ⟨upper, extends_ _ _ found, sum⟩
  · intro other node here none
    rcases split other node here with old | ⟨rfl, rfl⟩
    · exact skips.linked.roots other node old none
    · exact rooted none
  · intro other member
    rcases known other member with old | ⟨rfl, -⟩
    · obtain ⟨node, found⟩ := skips.known other old
      exact ⟨node, extends_ _ _ found⟩
    · exact ⟨new, last⟩
  · intro other member node here pprev parent
    rcases known other member with old | ⟨rfl, none⟩
    · obtain ⟨before, found⟩ := skips.known other old
      obtain rfl := Option.some.inj ((extends_ _ _ found).symm.trans here)
      exact kept pprev (skips.parents other old before found pprev parent)
    · obtain rfl := Option.some.inj (last.symm.trans here)
      rw [none] at parent
      cases parent
  · intro other member node here some
    rcases known other member with old | ⟨rfl, none⟩
    · obtain ⟨before, found⟩ := skips.known other old
      obtain rfl := Option.some.inj ((extends_ _ _ found).symm.trans here)
      obtain ⟨reached, lower, walked, -⟩ := skips.linked.walk_spec found
        (Nat.sub_le before.nHeight (getSkipHeight before.nHeight))
      rw [skips.pointers other old before found some, walked]
      exact (walk_append [new] walked).symm
    · obtain rfl := Option.some.inj (last.symm.trans here)
      exact absurd none some

theorem buildSkip_cases
    (built : Ends (memory.buildSkip pindex) next) :
    ∃ node, memory[pindex]? = some node ∧
      (node.pprev = none ∧ next = memory ∨
        ∃ pprev enough, node.pprev = some pprev ∧ ∀ fuel, enough ≤ fuel → ∃ pskip,
          memory.getAncestor pprev (getSkipHeight node.nHeight) fuel = some pskip ∧
            next = memory.set pindex { node with pskip := pskip }) := by
  obtain ⟨enough, gives⟩ := built
  cases found : memory[pindex]? with
  | none =>
    have here := gives enough (le_refl enough)
    rw [buildSkip, found] at here
    cases here
  | some node =>
    refine ⟨node, rfl, ?_⟩
    cases parented : node.pprev with
    | none =>
      have here := gives enough (le_refl enough)
      simp only [buildSkip, found, parented, Option.bind_eq_bind, Option.bind_some] at here
      exact .inl ⟨rfl, (Option.some.inj here).symm⟩
    | some pprev =>
      refine .inr ⟨pprev, enough, rfl, fun fuel above => ?_⟩
      have here := gives fuel above
      simp only [buildSkip, found, parented, Option.bind_eq_bind, Option.bind_some] at here
      obtain ⟨pskip, ancestor, result⟩ := Option.bind_eq_some_iff.mp here
      exact ⟨pskip, ancestor, (Option.some.inj result).symm⟩

/-- Applied to an entry whose parent has its skip pointer, `BuildSkip` gives it the right one. -/
theorem Skips.buildSkip_of_mem
    (skips : memory.Skips skipped)
    (found : memory[pindex]? = some node)
    (parented : node.pprev = some pprev)
    (earlier : pprev ∈ skipped)
    (built : Ends (memory.buildSkip pindex) next) :
    next.Skips (pindex :: skipped) := by
  obtain ⟨parent, foundParent, height⟩ := skips.linked.parents pindex node found pprev parented
  have lowered := getSkipHeight_lt (show 0 < node.nHeight by omega)
  have ancestor := skips.ends_getAncestor earlier foundParent
    (show getSkipHeight node.nHeight ≤ parent.nHeight by omega)
  obtain ⟨same, found', outcome⟩ := buildSkip_cases built
  obtain rfl := Option.some.inj (found.symm.trans found')
  rcases outcome with ⟨none, -⟩ | ⟨pprev', enough, parented', gives⟩
  · rw [parented] at none
    cases none
  · obtain rfl := Option.some.inj (parented.symm.trans parented')
    obtain ⟨plenty, settled⟩ := ancestor
    obtain ⟨pskip, here, rfl⟩ := gives (max enough plenty) (Nat.le_max_left _ _)
    obtain rfl := Option.some.inj ((settled _ (Nat.le_max_right _ _)).symm.trans here)
    refine skips.set found ?_ ?_ ?_ ?_
    · intro other member
      exact (List.mem_cons.mp member).symm
    · intro _ other parent
      obtain rfl := Option.some.inj (parented.symm.trans parent)
      exact List.mem_cons_of_mem _ earlier
    · intro other member
      exact List.mem_cons_of_mem _ member
    · intro _ _
      have steps : node.nHeight - getSkipHeight node.nHeight =
          1 + (parent.nHeight - getSkipHeight node.nHeight) := by omega
      rw [steps, walk_add, walk_succ found, parented]
      rfl

/-- Wherever it is applied `BuildSkip` spoils no skip pointer that is right. -/
theorem Skips.buildSkip
    (skips : memory.Skips skipped)
    (built : Ends (memory.buildSkip pindex) next) :
    next.Skips skipped := by
  obtain ⟨node, found, outcome⟩ := buildSkip_cases built
  rcases outcome with ⟨-, rfl⟩ | ⟨pprev, enough, parented, gives⟩
  · exact skips
  · by_cases member : pindex ∈ skipped
    · have earlier := skips.parents pindex member node found pprev parented
      have right := skips.buildSkip_of_mem found parented earlier built
      refine ⟨right.linked, ?_, ?_, ?_⟩
      · exact fun other inside => right.known other (List.mem_cons_of_mem _ inside)
      · intro other inside after here parent up
        rcases List.mem_cons.mp (right.parents other (List.mem_cons_of_mem _ inside) after here
          parent up) with rfl | old
        · exact member
        · exact old
      · exact fun other inside => right.pointers other (List.mem_cons_of_mem _ inside)
    · obtain ⟨pskip, -, rfl⟩ := gives enough (le_refl enough)
      exact skips.set found (fun other inside => .inl inside) (fun inside => absurd inside member)
        (fun other inside => inside) fun inside => absurd inside member

theorem Skips.step
    {history next : SkipHistory} {event : IndexEvent}
    (skips : history.memory.Skips history.skipped)
    (step : skipSystem.Step history event next) :
    next.memory.Skips next.skipped := by
  cases step with
  | root =>
    refine skips.append (fun _ none => nomatch none) (fun _ => rfl) ?_ fun other member =>
      List.mem_cons_of_mem _ member
    intro other member
    rcases List.mem_cons.mp member with rfl | old
    · exact .inr ⟨rfl, rfl⟩
    · exact .inl old
  | child found =>
    refine skips.append ?_ (fun none => nomatch none) (fun other member => .inl member)
      fun other member => member
    intro pprev parented
    obtain rfl := Option.some.inj parented
    exact ⟨_, found, rfl⟩
  | inOrder found parented earlier built =>
    exact skips.buildSkip_of_mem found parented earlier built
  | outOfOrder built => exact skips.buildSkip built

theorem skips_empty : BlockMemory.Skips [] [] where
  linked := ⟨(fun _ _ none => nomatch none), (fun _ _ none => nomatch none)⟩
  known := fun _ none => absurd none List.not_mem_nil
  parents := fun _ none => absurd none List.not_mem_nil
  pointers := fun _ none => absurd none List.not_mem_nil

theorem skips_of_run
    (run : skipSystem.Run ⟨[], []⟩ events history) :
    history.memory.Skips history.skipped :=
  run.invariant skips_empty fun skips step => Skips.step skips step

end BlockMemory

end ColossusCoin
