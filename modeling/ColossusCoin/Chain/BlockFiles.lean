import ColossusCoin.Library.FilledRanges
import ColossusCoin.Library.Loops
import ColossusCoin.Library.System

/-!
# Positions in the block files

Where new blocks and their undo data are put: each at the end of what its file already holds, a
block in the first file from the last one on that has room for it.
-/

namespace ColossusCoin

open FilledRanges Loops

def maxBlockfileSize : Nat := 0x8000000

def blockfileChunkSize : Nat := 0x1000000

def undofileChunkSize : Nat := 0x100000

/-- `CBlockFileInfo`, whose numbers are `unsigned int` but for the times. -/
structure CBlockFileInfo where
  nBlocks : Nat
  nSize : Nat
  nUndoSize : Nat
  nHeightFirst : Nat
  nHeightLast : Nat
  nTimeFirst : Nat
  nTimeLast : Nat
  deriving DecidableEq, Repr

namespace CBlockFileInfo

/-- `CBlockFileInfo()`. -/
def null : CBlockFileInfo where
  nBlocks := 0
  nSize := 0
  nUndoSize := 0
  nHeightFirst := 0
  nHeightLast := 0
  nTimeFirst := 0
  nTimeLast := 0

def addBlock (info : CBlockFileInfo) (nHeightIn nTimeIn : Nat) : CBlockFileInfo :=
  { info with
    nHeightFirst :=
      if info.nBlocks = 0 ∨ nHeightIn < info.nHeightFirst then nHeightIn else info.nHeightFirst
    nTimeFirst :=
      if info.nBlocks = 0 ∨ nTimeIn < info.nTimeFirst then nTimeIn else info.nTimeFirst
    nBlocks := (info.nBlocks + 1) % 2 ^ 32
    nHeightLast := if info.nHeightLast < nHeightIn then nHeightIn else info.nHeightLast
    nTimeLast := if info.nTimeLast < nTimeIn then nTimeIn else info.nTimeLast }

end CBlockFileInfo

structure CDiskBlockPos where
  nFile : Nat
  nPos : Nat
  deriving DecidableEq, Repr

/-- `vinfoBlockFile` and `nLastBlockFile`. -/
structure BlockFiles where
  vinfoBlockFile : List CBlockFileInfo
  nLastBlockFile : Nat
  deriving DecidableEq, Repr

namespace BlockFiles

/-- No files. -/
def empty : BlockFiles where
  vinfoBlockFile := []
  nLastBlockFile := 0

/-- Make room for the information of a file. -/
def resize (vinfoBlockFile : List CBlockFileInfo) (nFile : Nat) : List CBlockFileInfo :=
  if vinfoBlockFile.length ≤ nFile then
    vinfoBlockFile ++ List.replicate (nFile + 1 - vinfoBlockFile.length) CBlockFileInfo.null
  else vinfoBlockFile

/-- The information of a file, null where there is none. -/
def infoOf (vinfoBlockFile : List CBlockFileInfo) (nFile : Nat) : CBlockFileInfo :=
  vinfoBlockFile.getD nFile CBlockFileInfo.null

/-- A file has no room for so many bytes; the sum is an `unsigned int`. -/
def isFull (nAddSize : Nat) (vinfoBlockFile : List CBlockFileInfo) (nFile : Nat) : Bool :=
  maxBlockfileSize ≤ ((infoOf vinfoBlockFile nFile).nSize + nAddSize) % 2 ^ 32

/-- The loop of `FindBlockPos` that leaves one file after another. -/
def findFile (nAddSize : Nat) (fuel : Nat) (vinfoBlockFile : List CBlockFileInfo) (nFile : Nat) :
    Option (List CBlockFileInfo × Nat) :=
  let again := fun state : List CBlockFileInfo × Nat => isFull nAddSize state.1 state.2
  doWhile (fun state =>
    if again state then (resize state.1 (state.2 + 1), state.2 + 1) else state)
    again fuel (vinfoBlockFile, nFile)

/-- Whether a file grows into another chunk. -/
def newChunks (chunkSize nPos nNewSize : Nat) : Bool :=
  (nPos + chunkSize - 1) % 2 ^ 32 / chunkSize < (nNewSize + chunkSize - 1) % 2 ^ 32 / chunkSize

/-- `FindBlockPos`: whether it succeeds, the position and the files after it.  A known position is
given; `fDiskSpace` says whether there is space for the chunks that are allocated. -/
def findBlockPos (fDiskSpace : Bool) (files : BlockFiles) (known : Option CDiskBlockPos)
    (nAddSize nHeight nTime : Nat) (fuel : Nat) : Option (Bool × CDiskBlockPos × BlockFiles) :=
  match known with
  | some pos =>
    let vinfoBlockFile := resize files.vinfoBlockFile pos.nFile
    let info := (infoOf vinfoBlockFile pos.nFile).addBlock nHeight nTime
    some (true, pos,
      { vinfoBlockFile := vinfoBlockFile.set pos.nFile
          { info with nSize := max ((pos.nPos + nAddSize) % 2 ^ 32) info.nSize }
        nLastBlockFile := pos.nFile })
  | none =>
    findFile nAddSize fuel (resize files.vinfoBlockFile files.nLastBlockFile)
        files.nLastBlockFile >>= fun found =>
      let info := infoOf found.1 found.2
      let nNewSize := (info.nSize + nAddSize) % 2 ^ 32
      some (!newChunks blockfileChunkSize info.nSize nNewSize || fDiskSpace,
        ⟨found.2, info.nSize⟩,
        { vinfoBlockFile := found.1.set found.2
            { info.addBlock nHeight nTime with nSize := nNewSize }
          nLastBlockFile := found.2 })

/-- `FindUndoPos`.  There is no result for a file that is not there. -/
def findUndoPos (fDiskSpace : Bool) (files : BlockFiles) (nFile nAddSize : Nat) :
    Option (Bool × CDiskBlockPos × BlockFiles) :=
  match files.vinfoBlockFile[nFile]? with
  | none => none
  | some info =>
    let nNewSize := (info.nUndoSize + nAddSize) % 2 ^ 32
    some (!newChunks undofileChunkSize info.nUndoSize nNewSize || fDiskSpace,
      ⟨nFile, info.nUndoSize⟩,
      { files with
        vinfoBlockFile := files.vinfoBlockFile.set nFile { info with nUndoSize := nNewSize } })

end BlockFiles

/-- A call and the position that it sets. -/
inductive FileCall
  | findBlockPos (nAddSize nHeight nTime : Nat) (fDiskSpace : Bool) (pos : CDiskBlockPos)
  | findUndoPos (nFile nAddSize : Nat) (fDiskSpace : Bool) (pos : CDiskBlockPos)
  deriving DecidableEq, Repr

/-- The files under calls for new blocks and for undo data. -/
def blockFileSystem : LabelledSystem BlockFiles FileCall where
  Step files call next :=
    match call with
    | .findBlockPos nAddSize nHeight nTime fDiskSpace pos =>
      ∃ success, Ends (files.findBlockPos fDiskSpace none nAddSize nHeight nTime)
        (success, pos, next)
    | .findUndoPos nFile nAddSize fDiskSpace pos =>
      ∃ success, files.findUndoPos fDiskSpace nFile nAddSize = some (success, pos, next)

/-- A block with the range of its file that it was given. -/
structure StoredBlock where
  range : Range
  nHeight : Nat
  nTime : Nat
  deriving DecidableEq, Repr

/-- The block that a call put into a file. -/
def FileCall.block? (nFile : Nat) : FileCall → Option StoredBlock
  | .findBlockPos nAddSize nHeight nTime _ pos =>
    if pos.nFile = nFile then some ⟨⟨pos.nPos, nAddSize⟩, nHeight, nTime⟩ else none
  | .findUndoPos _ _ _ _ => none

/-- The range that a call gave to undo data in a file. -/
def FileCall.undo? (nFile : Nat) : FileCall → Option Range
  | .findBlockPos _ _ _ _ _ => none
  | .findUndoPos _ nAddSize _ pos =>
    if pos.nFile = nFile then some ⟨pos.nPos, nAddSize⟩ else none

/-- The blocks that calls put into a file, in their order. -/
def blocksIn (nFile : Nat) (calls : List FileCall) : List StoredBlock :=
  calls.filterMap (FileCall.block? nFile)

/-- The ranges that calls gave to undo data in a file, in their order. -/
def undosIn (nFile : Nat) (calls : List FileCall) : List Range :=
  calls.filterMap (FileCall.undo? nFile)

theorem blocksIn_snoc (nFile : Nat) (calls : List FileCall) (call : FileCall) :
    blocksIn nFile (calls ++ [call]) = blocksIn nFile calls ++ (call.block? nFile).toList := by
  rw [blocksIn, List.filterMap_append, ← blocksIn]
  cases added : call.block? nFile with
  | none => rw [List.filterMap_cons_none added, List.filterMap_nil, Option.toList_none]
  | some block => rw [List.filterMap_cons_some added, List.filterMap_nil, Option.toList_some]

theorem undosIn_snoc (nFile : Nat) (calls : List FileCall) (call : FileCall) :
    undosIn nFile (calls ++ [call]) = undosIn nFile calls ++ (call.undo? nFile).toList := by
  rw [undosIn, List.filterMap_append, ← undosIn]
  cases added : call.undo? nFile with
  | none => rw [List.filterMap_cons_none added, List.filterMap_nil, Option.toList_none]
  | some range => rw [List.filterMap_cons_some added, List.filterMap_nil, Option.toList_some]

/-- A block has bytes and is small enough for an empty file. -/
def FileCall.Sized : FileCall → Prop
  | .findBlockPos nAddSize _ _ _ _ => 0 < nAddSize ∧ nAddSize < maxBlockfileSize
  | .findUndoPos _ _ _ _ => True

/-- The blocks are sized and the undo data of each file stays below 2 ** 32 bytes. -/
structure Sized (calls : List FileCall) : Prop where
  blocks : ∀ call ∈ calls, call.Sized
  undos : ∀ nFile, ((undosIn nFile calls).map Range.length).sum < 2 ^ 32

theorem Sized.past
    (sized : Sized (calls ++ [call])) :
    Sized calls where
  blocks := fun earlier member => sized.blocks earlier (List.mem_append_left [call] member)
  undos := fun nFile => by
    have all := sized.undos nFile
    rw [undosIn_snoc, List.map_append, List.sum_append] at all
    omega

/-- What the information of a file says of the blocks and of the undo data in it. -/
structure CBlockFileInfo.Describes
    (info : CBlockFileInfo)
    (blocks : List StoredBlock)
    (undos : List Range) :
    Prop where
  blocksFilled : Filled (blocks.map StoredBlock.range) info.nSize
  undosFilled : Filled undos info.nUndoSize
  room : info.nSize < maxBlockfileSize
  some : ∀ block ∈ blocks, 0 < block.range.length
  counted : info.nBlocks = blocks.length
  heights : ∀ block ∈ blocks,
    info.nHeightFirst ≤ block.nHeight ∧ block.nHeight ≤ info.nHeightLast
  times : ∀ block ∈ blocks, info.nTimeFirst ≤ block.nTime ∧ block.nTime ≤ info.nTimeLast

namespace CBlockFileInfo

variable {info : CBlockFileInfo}

theorem null_describes : null.Describes [] [] where
  blocksFilled := .nil
  undosFilled := .nil
  room := by decide
  some := fun _ member => by cases member
  counted := rfl
  heights := fun _ member => by cases member
  times := fun _ member => by cases member

theorem Describes.length_le
    (describes : info.Describes blocks undos) :
    blocks.length ≤ info.nSize := by
  have sizes := describes.blocksFilled.size_eq
  rw [List.map_map] at sizes
  have counted := List.length_le_sum_of_one_le
    (blocks.map (Range.length ∘ StoredBlock.range)) (by
      intro length member
      obtain ⟨block, inFile, rfl⟩ := List.mem_map.mp member
      exact describes.some block inFile)
  rw [List.length_map] at counted
  omega

theorem bounds_add
    {value : StoredBlock → Nat}
    (counted : count = blocks.length)
    (bounds : ∀ block ∈ blocks, first ≤ value block ∧ value block ≤ last)
    (added : StoredBlock) :
    ∀ block ∈ blocks ++ [added],
      (if count = 0 ∨ value added < first then value added else first) ≤ value block ∧
        value block ≤ if last < value added then value added else last := by
  intro block member
  rcases List.mem_append.mp member with earlier | isAdded
  · have some : count ≠ 0 := by
      rw [counted]
      exact Nat.ne_of_gt (List.length_pos_of_mem earlier)
    have bound := bounds block earlier
    split_ifs <;> omega
  · rw [List.mem_singleton.mp isAdded]
    split_ifs <;> omega

theorem Describes.addBlock
    (describes : info.Describes blocks undos)
    {nAddSize : Nat}
    (some : 0 < nAddSize)
    (fits : info.nSize + nAddSize < maxBlockfileSize)
    (nHeight nTime : Nat) :
    Describes { info.addBlock nHeight nTime with nSize := (info.nSize + nAddSize) % 2 ^ 32 }
      (blocks ++ [⟨⟨info.nSize, nAddSize⟩, nHeight, nTime⟩]) undos := by
  have few := describes.length_le
  have counted := describes.counted
  have limit : maxBlockfileSize = 134217728 := rfl
  have size : (info.nSize + nAddSize) % 2 ^ 32 = info.nSize + nAddSize :=
    Nat.mod_eq_of_lt (by omega)
  refine { blocksFilled := ?_, undosFilled := describes.undosFilled, room := ?_, some := ?_,
           counted := ?_, heights := ?_, times := ?_ }
  · rw [List.map_append, List.map_singleton, size]
    exact .snoc nAddSize describes.blocksFilled
  · rw [size]
    exact fits
  · intro block member
    rcases List.mem_append.mp member with earlier | last
    · exact describes.some block earlier
    · rw [List.mem_singleton.mp last]
      exact some
  · rw [List.length_append, List.length_singleton, ← counted]
    exact Nat.mod_eq_of_lt (by omega)
  · exact bounds_add describes.counted describes.heights ⟨⟨info.nSize, nAddSize⟩, nHeight, nTime⟩
  · exact bounds_add describes.counted describes.times ⟨⟨info.nSize, nAddSize⟩, nHeight, nTime⟩

theorem Describes.addUndo
    (describes : info.Describes blocks undos)
    (fits : info.nUndoSize + nAddSize < 2 ^ 32) :
    Describes { info with nUndoSize := (info.nUndoSize + nAddSize) % 2 ^ 32 } blocks
      (undos ++ [⟨info.nUndoSize, nAddSize⟩]) :=
  { describes with
    undosFilled := by
      rw [Nat.mod_eq_of_lt fits]
      exact .snoc nAddSize describes.undosFilled }

end CBlockFileInfo

namespace BlockFiles

variable {vinfoBlockFile : List CBlockFileInfo} {nFile : Nat}

theorem infoOf_resize : infoOf (resize vinfoBlockFile nFile) = infoOf vinfoBlockFile := by
  funext other
  rw [resize]
  split_ifs
  · rw [infoOf, infoOf, List.getD_eq_getElem?_getD, List.getD_eq_getElem?_getD,
      List.getElem?_append]
    split_ifs with known
    · rfl
    · rw [List.getElem?_replicate, List.getElem?_eq_none (Nat.not_lt.mp known)]
      split_ifs <;> rfl
  · rfl

theorem lt_length_resize : nFile < (resize vinfoBlockFile nFile).length := by
  rw [resize]
  split_ifs
  · rw [List.length_append, List.length_replicate]
    omega
  · omega

theorem infoOf_set
    (inside : nFile < vinfoBlockFile.length)
    (info : CBlockFileInfo)
    (other : Nat) :
    infoOf (vinfoBlockFile.set nFile info) other =
      if other = nFile then info else infoOf vinfoBlockFile other := by
  rw [infoOf, infoOf, List.getD_eq_getElem?_getD, List.getD_eq_getElem?_getD]
  split_ifs with same
  · rw [same, List.getElem?_set_self inside, Option.getD_some]
  · rw [List.getElem?_set_ne (Ne.symm same)]

/-- The loop of `FindBlockPos` ends at a file with room; it only adds files without data. -/
theorem yields_findFile
    (fits : nAddSize < maxBlockfileSize)
    (inside : nFile < vinfoBlockFile.length) :
    Yields (fun fuel => findFile nAddSize fuel vinfoBlockFile nFile) fun found =>
      (infoOf found.1 = infoOf vinfoBlockFile ∧ found.2 < found.1.length) ∧
        isFull nAddSize found.1 found.2 = false := by
  refine yields_doWhile_guarded
    (fun state : List CBlockFileInfo × Nat =>
      infoOf state.1 = infoOf vinfoBlockFile ∧ state.2 < state.1.length)
    (fun state : List CBlockFileInfo × Nat => vinfoBlockFile.length - state.2) ?_ ⟨rfl, inside⟩
  rintro ⟨infos, nFile⟩ ⟨same, _⟩ full
  have known : nFile < vinfoBlockFile.length := by
    by_contra beyond
    have null : infoOf vinfoBlockFile nFile = CBlockFileInfo.null := by
      rw [infoOf, List.getD_eq_getElem?_getD, List.getElem?_eq_none (Nat.not_lt.mp beyond)]
      rfl
    rw [isFull, same, null, CBlockFileInfo.null, decide_eq_true_eq, Nat.zero_add,
      Nat.mod_eq_of_lt (by omega)] at full
    omega
  refine ⟨⟨infoOf_resize.trans same, lt_length_resize⟩, ?_⟩
  omega

/-- `FindBlockPos` ends for a block that fits an empty file: the position is the end of a file that
has room for the block, and the information of this file alone is changed. -/
theorem yields_findBlockPos
    (fits : nAddSize < maxBlockfileSize)
    (fDiskSpace : Bool)
    (files : BlockFiles)
    (nHeight nTime : Nat) :
    Yields (files.findBlockPos fDiskSpace none nAddSize nHeight nTime) fun result =>
      let info := infoOf files.vinfoBlockFile result.2.1.nFile
      result.2.1.nPos = info.nSize ∧ (info.nSize + nAddSize) % 2 ^ 32 < maxBlockfileSize ∧
        ∀ nFile, infoOf result.2.2.vinfoBlockFile nFile =
          if nFile = result.2.1.nFile then
            { info.addBlock nHeight nTime with nSize := (info.nSize + nAddSize) % 2 ^ 32 }
          else infoOf files.vinfoBlockFile nFile := by
  refine (yields_findFile fits lt_length_resize).bind ?_
  rintro ⟨infos, nFile⟩ ⟨⟨same, inside⟩, room⟩
  rw [infoOf_resize] at same
  rw [isFull, decide_eq_false_iff_not, Nat.not_le, same] at room
  refine yields_some ⟨?_, room, ?_⟩
  · rw [same]
  · intro other
    rw [infoOf_set inside, same]

theorem describes_step
    (describes : ∀ nFile,
      (infoOf files.vinfoBlockFile nFile).Describes (blocksIn nFile calls) (undosIn nFile calls))
    (sized : Sized (calls ++ [call]))
    (step : blockFileSystem.Step files call next)
    (nFile : Nat) :
    (infoOf next.vinfoBlockFile nFile).Describes (blocksIn nFile (calls ++ [call]))
      (undosIn nFile (calls ++ [call])) := by
  have here := describes nFile
  have undos := sized.undos nFile
  have ofCall := sized.blocks call (List.mem_append_right calls (List.mem_singleton_self call))
  rw [undosIn_snoc] at undos
  rw [blocksIn_snoc, undosIn_snoc]
  cases call with
  | findBlockPos nAddSize nHeight nTime fDiskSpace pos =>
    obtain ⟨success, ends⟩ := step
    obtain ⟨result, endsAt, position, room, changed⟩ :=
      yields_findBlockPos ofCall.2 fDiskSpace files nHeight nTime
    obtain rfl := ends.unique endsAt
    dsimp only at position room changed
    have limit : maxBlockfileSize = 134217728 := rfl
    have before := (describes pos.nFile).room
    rw [Nat.mod_eq_of_lt (by have := ofCall.2; omega)] at room
    rw [FileCall.undo?, Option.toList_none, List.append_nil, FileCall.block?, changed]
    by_cases same : nFile = pos.nFile
    · rw [if_pos same, if_pos same.symm, position, Option.toList_some, ← same]
      rw [← same] at room
      exact here.addBlock ofCall.1 room nHeight nTime
    · rw [if_neg same, if_neg (Ne.symm same), Option.toList_none, List.append_nil]
      exact here
  | findUndoPos file nAddSize fDiskSpace pos =>
    obtain ⟨success, found⟩ := step
    rw [findUndoPos] at found
    cases known : files.vinfoBlockFile[file]? with
    | none =>
      rw [known] at found
      cases found
    | some info =>
      rw [known] at found
      have isInfo : infoOf files.vinfoBlockFile file = info := by
        rw [infoOf, List.getD_eq_getElem?_getD, known, Option.getD_some]
      obtain ⟨_, position⟩ := Prod.mk.inj (Option.some.inj found)
      obtain ⟨rfl, rfl⟩ := Prod.mk.inj position
      have inside := (List.getElem?_eq_some_iff.mp known).1
      rw [FileCall.block?, Option.toList_none, List.append_nil, FileCall.undo?, infoOf_set inside]
      rw [FileCall.undo?] at undos
      by_cases same : nFile = file
      · rw [same, isInfo] at here
        rw [if_pos same.symm, same, Option.toList_some, List.map_append, List.sum_append,
          ← here.undosFilled.size_eq, List.map_singleton, List.sum_singleton] at undos
        rw [if_pos same, if_pos same.symm, same, Option.toList_some]
        exact here.addUndo undos
      · rw [if_neg same, if_neg (Ne.symm same), Option.toList_none, List.append_nil]
        exact here

/-- After every sequence of calls for blocks that fit an empty file, and for less than 2 ** 32
bytes of undo data to a file: the ranges in each file are apart, those of the blocks and those of
the undo data; the sizes of the file are the ends of the last ones; its heights and times bound
those of the blocks in it; and the next call for such a block ends. -/
theorem file_ranges_apart
    {calls : List FileCall}
    {files : BlockFiles}
    (run : blockFileSystem.Run .empty calls files)
    (sized : Sized calls) :
    (∀ nFile,
      ((blocksIn nFile calls).map StoredBlock.range).Pairwise Range.Apart ∧
      (undosIn nFile calls).Pairwise Range.Apart ∧
      (infoOf files.vinfoBlockFile nFile).nSize =
        lastFinish ((blocksIn nFile calls).map StoredBlock.range) ∧
      (infoOf files.vinfoBlockFile nFile).nUndoSize = lastFinish (undosIn nFile calls) ∧
      ∀ block ∈ blocksIn nFile calls,
        ((infoOf files.vinfoBlockFile nFile).nHeightFirst ≤ block.nHeight ∧
          block.nHeight ≤ (infoOf files.vinfoBlockFile nFile).nHeightLast) ∧
        (infoOf files.vinfoBlockFile nFile).nTimeFirst ≤ block.nTime ∧
          block.nTime ≤ (infoOf files.vinfoBlockFile nFile).nTimeLast) ∧
    ∀ fDiskSpace nAddSize nHeight nTime, nAddSize < maxBlockfileSize →
      ∃ result, Ends (files.findBlockPos fDiskSpace none nAddSize nHeight nTime) result := by
  have describes : Sized calls → ∀ nFile, (infoOf files.vinfoBlockFile nFile).Describes
      (blocksIn nFile calls) (undosIn nFile calls) := by
    refine @LabelledSystem.Run.traceInvariant _ _ _ _ _ _
      (fun calls files => Sized calls → ∀ nFile, (infoOf files.vinfoBlockFile nFile).Describes
        (blocksIn nFile calls) (undosIn nFile calls)) run ?_ ?_
    · exact fun _ _ => CBlockFileInfo.null_describes
    · intro past current call next holds step sized
      exact describes_step (holds sized.past) sized step
  refine ⟨fun nFile => ?_, ?_⟩
  · have here := describes sized nFile
    exact ⟨here.blocksFilled.pairwise_apart, here.undosFilled.pairwise_apart,
      here.blocksFilled.lastFinish_eq.symm, here.undosFilled.lastFinish_eq.symm,
      fun block member => ⟨here.heights block member, here.times block member⟩⟩
  · intro fDiskSpace nAddSize nHeight nTime fits
    obtain ⟨result, ends, _⟩ := yields_findBlockPos fits fDiskSpace files nHeight nTime
    exact ⟨result, ends⟩

theorem step_findBlockPos
    {files : BlockFiles}
    {nAddSize nPos : Nat}
    (room : isFull nAddSize (resize files.vinfoBlockFile files.nLastBlockFile)
      files.nLastBlockFile = false)
    (position : (infoOf (resize files.vinfoBlockFile files.nLastBlockFile)
      files.nLastBlockFile).nSize = nPos)
    (fDiskSpace : Bool)
    (nHeight nTime : Nat) :
    blockFileSystem.Step files
      (.findBlockPos nAddSize nHeight nTime fDiskSpace ⟨files.nLastBlockFile, nPos⟩)
      { vinfoBlockFile := (resize files.vinfoBlockFile files.nLastBlockFile).set
          files.nLastBlockFile
          { (infoOf (resize files.vinfoBlockFile files.nLastBlockFile)
              files.nLastBlockFile).addBlock nHeight nTime with
            nSize := (nPos + nAddSize) % 2 ^ 32 }
        nLastBlockFile := files.nLastBlockFile } := by
  subst position
  have found : Ends (fun fuel => findFile nAddSize fuel
      (resize files.vinfoBlockFile files.nLastBlockFile) files.nLastBlockFile)
      (resize files.vinfoBlockFile files.nLastBlockFile, files.nLastBlockFile) := by
    have once := @ends_doWhile_once _
      (fun state : List CBlockFileInfo × Nat =>
        if isFull nAddSize state.1 state.2 then (resize state.1 (state.2 + 1), state.2 + 1)
        else state)
      (fun state => isFull nAddSize state.1 state.2)
      (resize files.vinfoBlockFile files.nLastBlockFile, files.nLastBlockFile)
    rw [if_neg (Bool.eq_false_iff.mp room)] at once
    exact once room
  exact ⟨_, found.bind (ends_some _)⟩

/-- A call for undo data, which is given the end of that of its file. -/
theorem step_findUndoPos
    {files : BlockFiles}
    {nFile nPos : Nat}
    (inside : nFile < files.vinfoBlockFile.length)
    (position : (infoOf files.vinfoBlockFile nFile).nUndoSize = nPos)
    (nAddSize : Nat)
    (fDiskSpace : Bool) :
    blockFileSystem.Step files (.findUndoPos nFile nAddSize fDiskSpace ⟨nFile, nPos⟩)
      { files with
        vinfoBlockFile := files.vinfoBlockFile.set nFile
          { infoOf files.vinfoBlockFile nFile with nUndoSize := (nPos + nAddSize) % 2 ^ 32 } } := by
  subst position
  have known : files.vinfoBlockFile[nFile]? = some (infoOf files.vinfoBlockFile nFile) := by
    rw [infoOf, List.getD_eq_getElem?_getD, List.getElem?_eq_getElem inside, Option.getD_some]
  refine ⟨!newChunks undofileChunkSize (infoOf files.vinfoBlockFile nFile).nUndoSize
    (((infoOf files.vinfoBlockFile nFile).nUndoSize + nAddSize) % 2 ^ 32) || fDiskSpace, ?_⟩
  rw [findUndoPos, known]

/-- One file with a block of 100 bytes. -/
def oneBlock : BlockFiles where
  vinfoBlockFile := [{ CBlockFileInfo.null.addBlock 1 5 with nSize := 100 }]
  nLastBlockFile := 0

theorem run_oneBlock :
    blockFileSystem.Run .empty [.findBlockPos 100 1 5 true ⟨0, 0⟩] oneBlock :=
  .snoc .nil (step_findBlockPos (by decide) (by decide) true 1 5)

theorem file_ranges_apart_oneBlock :
    ((blocksIn 0 [.findBlockPos 100 1 5 true ⟨0, 0⟩]).map StoredBlock.range).Pairwise
        Range.Apart ∧
      (infoOf oneBlock.vinfoBlockFile 0).nSize = 100 := by
  have apart := file_ranges_apart run_oneBlock
    { blocks := fun call member => by
        rw [List.mem_singleton.mp member]
        exact ⟨by decide, by decide⟩
      undos := fun nFile => (by decide : 0 < 2 ^ 32) }
  exact ⟨(apart.1 0).1, by decide⟩

/-- Undo data of 4 GiB wraps the size of the undo file around, and a block of nearly 4 GiB that of
the block file: the next range overlaps the first one. -/
theorem wrapped_ranges_overlap :
    (∃ calls files, blockFileSystem.Run .empty calls files ∧
      ¬(undosIn 0 calls).Pairwise Range.Apart) ∧
    ∃ calls files, blockFileSystem.Run .empty calls files ∧
      ¬((blocksIn 0 calls).map StoredBlock.range).Pairwise Range.Apart := by
  constructor
  · have first := run_oneBlock.snoc
      (@step_findUndoPos oneBlock 0 0 (by decide) (by decide) 4294967295 true)
    have second := first.snoc
      (@step_findUndoPos _ 0 4294967295 (by decide) (by decide) 2 true)
    have third := second.snoc (@step_findUndoPos _ 0 1 (by decide) (by decide) 1 true)
    exact ⟨_, _, third, by decide⟩
  · have second := run_oneBlock.snoc
      (@step_findBlockPos oneBlock 4294967246 100 (by decide) (by decide) true 2 6)
    have third := second.snoc (@step_findBlockPos _ 60 50 (by decide) (by decide) true 3 7)
    exact ⟨_, _, third, by decide⟩

end BlockFiles

end ColossusCoin
