import ColossusCoin.Library.System
import ColossusCoin.Zerocoin.Denominations
import Mathlib.Data.Nat.Bitwise

/-!
# Accumulator checkpoints

A checkpoint packs the checksums of eight accumulators, whose values the database keeps under
the checksums.  Blocks that are connected add values; `EraseAccumulatorValues` and
`EraseCheckpoints` take out those of a block that is disconnected and of a range of blocks.
The values of the active chain stay in the database throughout a run exactly when no value is
taken out whose checksum a block of the chain still has.
-/

namespace ColossusCoin

open CoinDenomination

/-- `GetChecksum`, by the hash of an accumulator value. -/
def getChecksum (hashValue : CBigNum → Uint256) (bnValue : CBigNum) : Nat :=
  hashValue bnValue % 2 ^ 32

/-- `AccumulatorMap::GetCheckpoint`. -/
def getCheckpoint (hashValue : CBigNum → Uint256)
    (mapAccumulators : CoinDenomination → CBigNum) : Uint256 :=
  zerocoinDenomList.foldl (fun nCheckpoint denom =>
    (nCheckpoint <<< 32) % 2 ^ 256 ||| getChecksum hashValue (mapAccumulators denom)) 0

/-- The active chain, by the checkpoints of its blocks with the tip first, and the
database. -/
structure CheckpointState where
  chainActive : List Uint256
  zerocoinDB : CZerocoinDB

namespace CheckpointState

/-- `chainActive.Height()`. -/
def height (state : CheckpointState) : Int :=
  state.chainActive.length - 1

/-- The genesis block has no checkpoint. -/
def genesis : CheckpointState where
  chainActive := [0]
  zerocoinDB := .empty

def databaseChecksums (hashValue : CBigNum → Uint256)
    (mapAccumulators : CoinDenomination → CBigNum) (db : CZerocoinDB) : CZerocoinDB :=
  zerocoinDenomList.foldl (fun current denom =>
    current.writeAccumulatorValue (getChecksum hashValue (mapAccumulators denom))
      (mapAccumulators denom)) db

/-- What `ConnectBlock` does.  `ValidateAccumulatorCheckpoint` lets a block repeat the
checkpoint before it, between checkpoints and where no mints were found, and takes that of
the accumulators otherwise. -/
def connectBlock (hashValue : CBigNum → Uint256) (state : CheckpointState)
    (nAccumulatorCheckpoint : Uint256) (mapAccumulators : CoinDenomination → CBigNum) :
    CheckpointState :=
  match state.chainActive with
  | [] => state
  | previous :: rest =>
    if nAccumulatorCheckpoint = previous ∨
        nAccumulatorCheckpoint = getCheckpoint hashValue mapAccumulators then
      { chainActive := nAccumulatorCheckpoint :: previous :: rest
        zerocoinDB := databaseChecksums hashValue mapAccumulators state.zerocoinDB }
    else state

/-- What `DisconnectBlock` does, of a block that is not genesis. -/
def disconnectBlock (state : CheckpointState) : CheckpointState :=
  match state.chainActive with
  | nCheckpoint :: previous :: rest =>
    { chainActive := previous :: rest
      zerocoinDB :=
        if nCheckpoint ≠ previous then
          eraseAccumulatorValues state.zerocoinDB nCheckpoint previous
        else state.zerocoinDB }
  | _ => state

/-- The checkpoints of the blocks from one height up to another, but of the first block at
least. -/
def blockRange (state : CheckpointState) (nStartHeight nEndHeight : Int) : List Uint256 :=
  (state.chainActive.reverse.drop nStartHeight.toNat).take
    (max 1 (min state.height nEndHeight - nStartHeight + 1)).toNat

/-- `listCheckpointsPrev`: the checksums of the block before a height. -/
def checksumsBefore (state : CheckpointState) (nStartHeight : Int) : List Nat :=
  let nCheckpointPrev := (state.chainActive.reverse[(nStartHeight - 1).toNat]?).getD 0
  zerocoinDenomList.map (parseChecksum nCheckpointPrev)

/-- `EraseCheckpoints`.  It looks for the checkpoint that it deletes, and not for its
checksums, among the checksums before.  Its caller starts above the genesis block. -/
def eraseCheckpoints (state : CheckpointState) (nStartHeight nEndHeight : Int) :
    Bool × CheckpointState :=
  if nStartHeight < 1 ∨ state.height < nStartHeight then (false, state)
  else
    let listCheckpointsPrev := state.checksumsBefore nStartHeight
    (true,
      { state with
        zerocoinDB := (state.blockRange nStartHeight nEndHeight).foldl
          (fun current nCheckpointDelete =>
            zerocoinDenomList.foldl (fun db denom =>
              if listCheckpointsPrev.contains nCheckpointDelete then db
              else db.eraseAccumulatorValue (parseChecksum nCheckpointDelete denom)) current)
          state.zerocoinDB })

end CheckpointState

/-- What happens to the active chain and to the accumulator values. -/
inductive CheckpointEvent where
  | connect (nAccumulatorCheckpoint : Uint256) (mapAccumulators : CoinDenomination → CBigNum)
  | disconnect
  | erase (nStartHeight nEndHeight : Int)

namespace CheckpointState

/-- The state after an event. -/
def apply (hashValue : CBigNum → Uint256) (state : CheckpointState) :
    CheckpointEvent → CheckpointState
  | .connect nAccumulatorCheckpoint mapAccumulators =>
    state.connectBlock hashValue nAccumulatorCheckpoint mapAccumulators
  | .disconnect => state.disconnectBlock
  | .erase nStartHeight nEndHeight => (state.eraseCheckpoints nStartHeight nEndHeight).2

/-- The state after a history. -/
def after (hashValue : CBigNum → Uint256) (trace : List CheckpointEvent) : CheckpointState :=
  trace.foldl (apply hashValue) .genesis

end CheckpointState

/-- A checksum that a checkpoint packs; zero stands for none. -/
def PacksChecksum (nCheckpoint : Uint256) (nChecksum : Nat) : Prop :=
  nChecksum ≠ 0 ∧ ∃ denom ∈ zerocoinDenomList, parseChecksum nCheckpoint denom = nChecksum

/-- Every checksum of the active chain can be read. -/
def CheckpointState.Available (state : CheckpointState) : Prop :=
  ∀ nCheckpoint ∈ state.chainActive, ∀ nChecksum, PacksChecksum nCheckpoint nChecksum →
    (state.zerocoinDB.accumulators nChecksum).isSome = true

/-- The checksums that an event erases. -/
def CheckpointState.erases (state : CheckpointState) : CheckpointEvent → List Nat
  | .connect _ _ => []
  | .disconnect =>
    match state.chainActive with
    | nCheckpoint :: previous :: _ =>
      (zerocoinDenomList.filter fun denom =>
        parseChecksum nCheckpoint denom ≠ parseChecksum previous denom).map
          (parseChecksum nCheckpoint)
    | _ => []
  | .erase nStartHeight nEndHeight =>
    if nStartHeight < 1 ∨ state.height < nStartHeight then []
    else
      ((state.blockRange nStartHeight nEndHeight).filter fun nCheckpointDelete =>
        !(state.checksumsBefore nStartHeight).contains nCheckpointDelete).flatMap
          fun nCheckpointDelete => zerocoinDenomList.map (parseChecksum nCheckpointDelete)

/-- The blocks that an event leaves in the active chain. -/
def CheckpointState.remaining (state : CheckpointState) : CheckpointEvent → List Uint256
  | .connect _ _ => state.chainActive
  | .disconnect =>
    match state.chainActive with
    | _ :: previous :: rest => previous :: rest
    | chain => chain
  | .erase _ _ => state.chainActive

/-- An event takes out nothing that the chain needs.  A checksum by which the checkpoint of a
disconnected block differs from the one before it is in no block that is left; and a range
that is erased has only checkpoints of zero, but for those that are themselves one of the
checksums of the block before it. -/
def CheckpointState.Spares (state : CheckpointState) : CheckpointEvent → Prop
  | .connect _ _ => True
  | .disconnect =>
    match state.chainActive with
    | nCheckpoint :: previous :: rest =>
      ∀ denom ∈ zerocoinDenomList,
        parseChecksum nCheckpoint denom ≠ parseChecksum previous denom →
          ∀ other ∈ previous :: rest,
            ¬PacksChecksum other (parseChecksum nCheckpoint denom)
    | _ => True
  | .erase nStartHeight nEndHeight =>
    (nStartHeight < 1 ∨ state.height < nStartHeight) ∨
      ∀ nCheckpointDelete ∈ state.blockRange nStartHeight nEndHeight,
        nCheckpointDelete ∈ state.checksumsBefore nStartHeight ∨
          ∀ denom ∈ zerocoinDenomList, parseChecksum nCheckpointDelete denom = 0

section Packing

/-- The digits of a number that is written to the base `2 ^ 32`, the last one first. -/
theorem digit_foldr
    {digits : List Nat}
    (small : ∀ digit ∈ digits, digit < 2 ^ 32)
    (place : Nat)
    (inside : place < digits.length) :
    (digits.foldr (fun digit number => number * 2 ^ 32 + digit) 0) / 2 ^ (32 * place) %
        2 ^ 32 = digits[place] := by
  induction digits generalizing place with
  | nil => exact absurd inside (Nat.not_lt_zero place)
  | cons digit rest ih =>
    have head := small digit List.mem_cons_self
    cases place with
    | zero =>
      rw [List.foldr_cons, Nat.mul_zero, Nat.pow_zero, Nat.div_one, List.getElem_cons_zero]
      omega
    | succ place =>
      have shifted (number : Nat) : (number * 2 ^ 32 + digit) / 2 ^ 32 = number := by
        omega
      rw [List.foldr_cons, List.getElem_cons_succ, Nat.mul_succ, Nat.add_comm (32 * place),
        Nat.pow_add, ← Nat.div_div_eq_div_mul, shifted]
      exact ih (fun other member => small other
        (List.mem_cons_of_mem digit member)) place (Nat.lt_of_succ_lt_succ inside)

/-- Shifting in at most eight digits of 32 bits is writing them to the base `2 ^ 32`. -/
theorem foldl_shiftLeft_or
    {digits : List Nat}
    (small : ∀ digit ∈ digits, digit < 2 ^ 32)
    {number places : Nat}
    (bounded : number < 2 ^ (32 * places))
    (fits : places + digits.length ≤ 8) :
    digits.foldl (fun total digit => (total <<< 32) % 2 ^ 256 ||| digit) number =
      digits.foldl (fun total digit => total * 2 ^ 32 + digit) number := by
  induction digits generalizing number places with
  | nil => rfl
  | cons digit rest ih =>
    have head := small digit List.mem_cons_self
    rw [List.length_cons] at fits
    have next : number * 2 ^ 32 + digit < 2 ^ (32 * (places + 1)) := by
      rw [Nat.mul_succ, Nat.pow_add]
      omega
    have inRange : number <<< 32 < 2 ^ 256 := by
      rw [Nat.shiftLeft_eq]
      calc number * 2 ^ 32 ≤ number * 2 ^ 32 + digit := Nat.le_add_right _ _
        _ < 2 ^ (32 * (places + 1)) := next
        _ ≤ 2 ^ 256 := Nat.pow_le_pow_right Nat.two_pos (by omega)
    rw [List.foldl_cons, List.foldl_cons, Nat.mod_eq_of_lt inRange,
      ← Nat.shiftLeft_add_eq_or_of_lt head, Nat.shiftLeft_eq]
    exact ih (fun other member => small other (List.mem_cons_of_mem digit member)) next (by omega)

/-- A checkpoint gives back the checksums that it was made of. -/
theorem parseChecksum_getCheckpoint
    (hashValue : CBigNum → Uint256)
    (mapAccumulators : CoinDenomination → CBigNum)
    {denom : CoinDenomination}
    (listed : denom ∈ zerocoinDenomList) :
    parseChecksum (getCheckpoint hashValue mapAccumulators) denom =
      getChecksum hashValue (mapAccumulators denom) := by
  let checksum (denom : CoinDenomination) := getChecksum hashValue (mapAccumulators denom)
  have small : ∀ digit ∈ zerocoinDenomList.map checksum, digit < 2 ^ 32 := by
    intro digit member
    obtain ⟨other, -, rfl⟩ := List.mem_map.mp member
    exact Nat.mod_lt _ (Nat.two_pow_pos 32)
  have packed : getCheckpoint hashValue mapAccumulators =
      (zerocoinDenomList.map checksum).reverse.foldr
        (fun digit number => number * 2 ^ 32 + digit) 0 := by
    rw [List.foldr_reverse, ← @foldl_shiftLeft_or _ small 0 0 (Nat.one_pos) (Nat.le_refl 8),
      List.foldl_map]
    rfl
  have place : zerocoinDenomList.idxOf denom < zerocoinDenomList.length :=
    List.idxOf_lt_length_of_mem listed
  have digit := @digit_foldr (zerocoinDenomList.map checksum).reverse
    (fun digit member => small digit (List.mem_reverse.mp member))
    (zerocoinDenomList.length - 1 - zerocoinDenomList.idxOf denom)
    (by rw [List.length_reverse, List.length_map]; omega)
  have mirrored : (zerocoinDenomList.map checksum).length - 1 -
      (zerocoinDenomList.length - 1 - zerocoinDenomList.idxOf denom) =
        zerocoinDenomList.idxOf denom := by
    rw [List.length_map]
    omega
  rw [parseChecksum, packed, Nat.shiftRight_eq_div_pow, digit, List.getElem_reverse,
    List.getElem_map]
  simp only [mirrored, List.getElem_idxOf]
  rfl

end Packing

section Values

theorem accumulators_foldl_erase
    (checksums : List Nat)
    (db : CZerocoinDB)
    (nChecksum : Nat) :
    (checksums.foldl CZerocoinDB.eraseAccumulatorValue db).accumulators nChecksum =
      if nChecksum ∈ checksums then none else db.accumulators nChecksum := by
  induction checksums generalizing db with
  | nil => simp
  | cons erased rest ih =>
    rw [List.foldl_cons, ih]
    by_cases same : nChecksum = erased
    · simp [CZerocoinDB.eraseAccumulatorValue, same]
    · simp [CZerocoinDB.eraseAccumulatorValue, same]

/-- A fold that erases where a condition holds erases what is filtered. -/
theorem foldl_erase_filter
    (keeps : CoinDenomination → Prop)
    [DecidablePred keeps]
    (checksum : CoinDenomination → Nat)
    (denominations : List CoinDenomination)
    (db : CZerocoinDB) :
    denominations.foldl (fun current denomination =>
      if keeps denomination then current
      else current.eraseAccumulatorValue (checksum denomination)) db =
      ((denominations.filter fun denomination => ¬keeps denomination).map checksum).foldl
        CZerocoinDB.eraseAccumulatorValue db := by
  induction denominations generalizing db with
  | nil => rfl
  | cons denomination rest ih =>
    by_cases kept : keeps denomination
    · simp [kept, ih]
    · simp [kept, ih]

/-- `DatabaseChecksums` keeps what can be read, and adds the checksums. -/
theorem isSome_databaseChecksums
    (hashValue : CBigNum → Uint256)
    (mapAccumulators : CoinDenomination → CBigNum)
    (db : CZerocoinDB)
    (nChecksum : Nat)
    (readable : (∃ denom ∈ zerocoinDenomList,
      getChecksum hashValue (mapAccumulators denom) = nChecksum) ∨
        (db.accumulators nChecksum).isSome = true) :
    ((CheckpointState.databaseChecksums hashValue mapAccumulators db).accumulators
      nChecksum).isSome = true := by
  rw [CheckpointState.databaseChecksums]
  generalize zerocoinDenomList = denominations at readable ⊢
  induction denominations generalizing db with
  | nil =>
    rcases readable with ⟨denom, member, -⟩ | readable
    · exact absurd member List.not_mem_nil
    · exact readable
  | cons denom rest ih =>
    rw [List.foldl_cons]
    apply ih
    by_cases same : nChecksum = getChecksum hashValue (mapAccumulators denom)
    · right
      simp [CZerocoinDB.writeAccumulatorValue, same]
    · rcases readable with ⟨other, member, rfl⟩ | readable
      · rcases List.mem_cons.mp member with rfl | member
        · exact absurd rfl same
        · exact Or.inl ⟨other, member, rfl⟩
      · right
        simpa [CZerocoinDB.writeAccumulatorValue, same] using readable

end Values

namespace CheckpointState

section Steps

variable (hashValue : CBigNum → Uint256) (state : CheckpointState)

/-- A disconnected block leaves the blocks before it, and erases its own checksums. -/
theorem apply_disconnect :
    state.apply hashValue .disconnect =
      { chainActive := state.remaining .disconnect
        zerocoinDB :=
          (state.erases .disconnect).foldl CZerocoinDB.eraseAccumulatorValue state.zerocoinDB } := by
  obtain ⟨chainActive, zerocoinDB⟩ := state
  rcases chainActive with _ | ⟨nCheckpoint, _ | ⟨previous, rest⟩⟩
  · rfl
  · rfl
  · by_cases same : nCheckpoint = previous
    · simp [apply, disconnectBlock, erases, remaining, same]
    · simp only [apply, disconnectBlock, erases, remaining, same, ne_eq, not_false_eq_true,
        if_true, eraseAccumulatorValues]
      rw [foldl_erase_filter]

theorem apply_erase
    (nStartHeight nEndHeight : Int) :
    state.apply hashValue (.erase nStartHeight nEndHeight) =
      { chainActive := state.chainActive
        zerocoinDB := (state.erases (.erase nStartHeight nEndHeight)).foldl
          CZerocoinDB.eraseAccumulatorValue state.zerocoinDB } := by
  by_cases outside : nStartHeight < 1 ∨ state.height < nStartHeight
  · simp [apply, eraseCheckpoints, erases, outside]
  · simp only [apply, eraseCheckpoints, erases, outside, if_false]
    generalize state.blockRange nStartHeight nEndHeight = range
    generalize state.zerocoinDB = db
    congr 1
    induction range generalizing db with
    | nil => rfl
    | cons nCheckpointDelete rest ih =>
      rw [List.foldl_cons, ih, foldl_erase_filter]
      by_cases listed : nCheckpointDelete ∈ state.checksumsBefore nStartHeight
      · simp [listed]
      · simp [listed]

/-- Of values that can be read, those stay that are not erased. -/
theorem available_foldl_erase
    {state : CheckpointState}
    (available : state.Available)
    {remaining : List Uint256}
    (kept : ∀ nCheckpoint ∈ remaining, nCheckpoint ∈ state.chainActive)
    (checksums : List Nat) :
    CheckpointState.Available
        { chainActive := remaining
          zerocoinDB := checksums.foldl CZerocoinDB.eraseAccumulatorValue state.zerocoinDB } ↔
      ∀ nChecksum ∈ checksums, ∀ nCheckpoint ∈ remaining, ¬PacksChecksum nCheckpoint nChecksum := by
  simp only [Available, accumulators_foldl_erase]
  constructor
  · intro readable nChecksum erased nCheckpoint member packs
    have read := readable nCheckpoint member nChecksum packs
    rw [if_pos erased] at read
    exact absurd read Bool.false_ne_true
  · intro spares nCheckpoint member nChecksum packs
    rw [if_neg fun erased => spares nChecksum erased nCheckpoint member packs]
    exact available nCheckpoint (kept nCheckpoint member) nChecksum packs

/-- A connected block adds what its checkpoint packs, and takes nothing out. -/
theorem available_connectBlock
    {state : CheckpointState}
    (available : state.Available)
    (nAccumulatorCheckpoint : Uint256)
    (mapAccumulators : CoinDenomination → CBigNum) :
    (state.connectBlock hashValue nAccumulatorCheckpoint mapAccumulators).Available := by
  obtain ⟨chainActive, zerocoinDB⟩ := state
  rcases chainActive with _ | ⟨previous, rest⟩
  · exact available
  simp only [connectBlock]
  split_ifs with valid
  · intro nCheckpoint member nChecksum packs
    apply isSome_databaseChecksums
    rcases List.mem_cons.mp member with rfl | member
    · rcases valid with repeated | computed
      · -- The block repeats the checkpoint before it.
        exact Or.inr (available previous List.mem_cons_self nChecksum (repeated ▸ packs))
      · obtain ⟨-, denom, listed, parsed⟩ := packs
        rw [computed, parseChecksum_getCheckpoint hashValue mapAccumulators listed] at parsed
        exact Or.inl ⟨denom, listed, parsed⟩
    · exact Or.inr (available nCheckpoint member nChecksum packs)
  · exact available

theorem mem_chainActive_of_mem_blockRange
    (member : nCheckpoint ∈ state.blockRange nStartHeight nEndHeight) :
    nCheckpoint ∈ state.chainActive :=
  List.mem_reverse.mp (List.mem_of_mem_drop (List.mem_of_mem_take member))

theorem erases_spares_iff
    (event : CheckpointEvent) :
    (∀ nChecksum ∈ state.erases event, ∀ nCheckpoint ∈ state.remaining event,
      ¬PacksChecksum nCheckpoint nChecksum) ↔ state.Spares event := by
  cases event with
  | connect nAccumulatorCheckpoint mapAccumulators =>
    refine iff_of_true ?_ trivial
    intro nChecksum erased
    exact absurd erased List.not_mem_nil
  | disconnect =>
    obtain ⟨chainActive, zerocoinDB⟩ := state
    rcases chainActive with _ | ⟨nCheckpoint, _ | ⟨previous, rest⟩⟩
    · simp [erases, Spares]
    · simp [erases, Spares]
    · constructor
      · intro spares denom listed differs
        refine spares (parseChecksum nCheckpoint denom) ?_
        refine List.mem_map.mpr ⟨denom, List.mem_filter.mpr (And.intro listed ?_), rfl⟩
        exact decide_eq_true differs
      · intro spares nChecksum erased
        obtain ⟨denom, kept, rfl⟩ := List.mem_map.mp erased
        obtain ⟨listed, differs⟩ := List.mem_filter.mp kept
        exact spares denom listed (of_decide_eq_true differs)
  | erase nStartHeight nEndHeight =>
    simp only [erases, remaining, Spares]
    split_ifs with outside
    · simp [outside]
    · rw [or_iff_right outside]
      constructor
      · intro spares nCheckpointDelete member
        by_cases listed : nCheckpointDelete ∈ state.checksumsBefore nStartHeight
        · exact Or.inl listed
        · right
          intro denom denomListed
          by_contra nonzero
          -- The block that is erased is itself in the chain.
          refine spares (parseChecksum nCheckpointDelete denom) ?_ nCheckpointDelete
            (state.mem_chainActive_of_mem_blockRange member)
            (And.intro nonzero ⟨denom, denomListed, rfl⟩)
          refine List.mem_flatMap.mpr ⟨nCheckpointDelete, ?_, List.mem_map_of_mem denomListed⟩
          simp [member, listed]
      · intro spares nChecksum erased nCheckpoint _ packs
        obtain ⟨nCheckpointDelete, kept, parsed⟩ := List.mem_flatMap.mp erased
        obtain ⟨denom, denomListed, rfl⟩ := List.mem_map.mp parsed
        obtain ⟨member, unlisted⟩ := List.mem_filter.mp kept
        rcases spares nCheckpointDelete member with listed | zero
        · simp [listed] at unlisted
        · exact packs.1 (zero denom denomListed)

/-- An event keeps every checksum of the chain readable exactly when it spares them. -/
theorem available_apply
    {state : CheckpointState}
    (available : state.Available)
    (event : CheckpointEvent) :
    (state.apply hashValue event).Available ↔ state.Spares event := by
  rw [← erases_spares_iff]
  cases event with
  | connect nAccumulatorCheckpoint mapAccumulators =>
    refine iff_of_true
      (available_connectBlock hashValue available nAccumulatorCheckpoint mapAccumulators) ?_
    intro nChecksum erased
    exact absurd erased List.not_mem_nil
  | disconnect =>
    rw [apply_disconnect, available_foldl_erase available]
    obtain ⟨chainActive, zerocoinDB⟩ := state
    rcases chainActive with _ | ⟨nCheckpoint, _ | ⟨previous, rest⟩⟩
    · exact fun _ member => member
    · exact fun _ member => member
    · exact fun _ member => List.mem_cons_of_mem nCheckpoint member
  | erase nStartHeight nEndHeight =>
    rw [apply_erase, available_foldl_erase available fun _ member => member]
    rfl

/-- The genesis block packs no checksum. -/
theorem available_genesis : genesis.Available := by
  intro nCheckpoint member nChecksum packs
  obtain ⟨nonzero, denom, -, parsed⟩ := packs
  rw [List.mem_singleton.mp member, parseChecksum, Nat.zero_shiftRight, Nat.zero_mod] at parsed
  exact absurd parsed.symm nonzero

/-- **The checksums of the active chain can be read throughout a history exactly when no
event takes out one that a block left in the chain packs.** -/
theorem checksums_available_iff
    (trace : List CheckpointEvent) :
    (∀ past, past <+: trace → (after hashValue past).Available) ↔
      ∀ past event, past ++ [event] <+: trace → (after hashValue past).Spares event :=
  foldl_holds_iff available_genesis (fun _ available => available)
    (fun _ event available => available_apply hashValue available event)
    (fun _ _ _ available => available) trace

/-- A block repeats the checkpoint of the block before it, and its own is erased: the one
before loses its checksums. -/
theorem checksums_lost :
    ¬∀ (hashValue : CBigNum → Uint256) (trace : List CheckpointEvent),
      (after hashValue trace).Available := by
  intro available
  let hashValue (_ : CBigNum) : Uint256 := 7
  let nCheckpoint := getCheckpoint hashValue fun _ => 0
  have read := available hashValue
    [.connect nCheckpoint fun _ => 0, .connect nCheckpoint fun _ => 0, .erase 2 2]
    nCheckpoint (by decide) 7 (And.intro (by decide) ⟨zqOne, by decide, by decide⟩)
  exact absurd read (by decide)

end Steps

end CheckpointState

end ColossusCoin
