import ColossusCoin.Library.ByteReaders
import ColossusCoin.Library.Loops
import ColossusCoin.Primitives.Script

/-!
# Scripts that are written and read back

`operator<<` appends an opcode, a number or a byte vector to a script, and `GetOp2` reads an
instruction at an iterator.  Both know four forms of a push.
-/

namespace ColossusCoin

open Loops

namespace CScript

/-- What `operator<<` takes. -/
inductive Item where
  | opcode (opcode : Int)
  | integer (n : Int)
  | scriptNum (n : Int)
  | data (b : List UInt8)
  deriving DecidableEq, Repr

/-- `operator<<` of a byte vector; a length that does not fit four bytes is cut off. -/
def pushData (script : CScript) (b : List UInt8) : CScript :=
  if b.length < 0x4c then script ++ [UInt8.ofNat b.length] ++ b
  else if b.length ≤ 0xff then script ++ [Opcode.pushData1] ++ [UInt8.ofNat b.length] ++ b
  else if b.length ≤ 0xffff then
    script ++ [Opcode.pushData2] ++ ByteReaders.littleEndian 2 b.length ++ b
  else script ++ [Opcode.pushData4] ++ ByteReaders.littleEndian 4 b.length ++ b

/-- `push_int64`. -/
def appendInt64 (script : CScript) (n : Int) : CScript :=
  if n = -1 ∨ 1 ≤ n ∧ n ≤ 16 then script ++ [UInt8.ofNat (n + (0x51 - 1)).toNat]
  else if n = 0 then script ++ [0]
  else pushData script (serializeNumber n)

/-- `operator<<`; no result where it throws. -/
def append (script : CScript) : Item → Option CScript
  | .opcode opcode =>
    if opcode < 0 ∨ 0xff < opcode then none
    else some (script ++ [UInt8.ofNat opcode.toNat])
  | .integer n => some (appendInt64 script n)
  | .scriptNum n => some (pushData script (serializeNumber n))
  | .data b => some (pushData script b)

/-- The bytes from a place on; no result where the script ends before. -/
def readBytes (script : CScript) : Nat → Nat → Option (List UInt8)
  | _, 0 => some []
  | pc, n + 1 => do
      let byte ← script[pc]?
      let bytes ← readBytes script (pc + 1) n
      pure (byte :: bytes)

/-- What `GetOp2` returns, with the iterator and the arguments that it sets. -/
structure ReadOp where
  fRet : Bool
  pc : Nat
  opcodeRet : UInt8
  vchRet : List UInt8
  deriving DecidableEq, Repr

/-- `GetOp2` fails. -/
def ReadOp.failed (pc : Nat) : ReadOp := ⟨false, pc, Opcode.invalidOpcode, []⟩

@[simp] theorem ReadOp.pc_failed (pc : Nat) : (ReadOp.failed pc).pc = pc := rfl

/-- The size of a push, from so many bytes, if they are there. -/
def readSize (script : CScript) (pc bytes : Nat) : Option (Option (Nat × Nat)) :=
  if script.length - pc < bytes then some none
  else do
    let read ← readBytes script pc bytes
    pure (some (littleEndian read, pc + bytes))

/-- The size that an opcode of a push announces, and the place behind it. -/
def readOperandSize (script : CScript) (pc : Nat) (opcode : UInt8) : Option (Option (Nat × Nat)) :=
  if opcode < Opcode.pushData1 then some (some (opcode.toNat, pc))
  else if opcode = Opcode.pushData1 then readSize script pc 1
  else if opcode = Opcode.pushData2 then readSize script pc 2
  else readSize script pc 4

/-- `GetOp2`; no result where a byte past the end is read. -/
def getOp2 (script : CScript) (pc : Nat) : Option ReadOp :=
  if script.length ≤ pc then some (.failed pc)
  else do
    let opcode ← script[pc]?
    if opcode ≤ Opcode.pushData4 then
      match ← readOperandSize script (pc + 1) opcode with
      | none => pure (.failed (pc + 1))
      | some (nSize, start) =>
        -- What remains is compared as an `unsigned int`.
        if (script.length - start) % 2 ^ 32 < nSize then pure (.failed start)
        else
          let vch ← readBytes script start nSize
          pure ⟨true, start + nSize, opcode, vch⟩
    else pure ⟨true, pc + 1, opcode, []⟩

/-- `GetOp` until it fails: the opcodes with their data, and the place where it fails. -/
def getOps (script : CScript) : Nat → Nat → Option (List (UInt8 × List UInt8) × Nat)
  | 0, _ => none
  | fuel + 1, pc => do
      let read ← getOp2 script pc
      if read.fRet then
        let rest ← getOps script fuel read.pc
        pure ((read.opcodeRet, read.vchRet) :: rest.1, rest.2)
      else pure ([], pc)

section Places

variable {script : CScript}

theorem readBytes_eq
    (there : n ≤ (script.drop pc).length) :
    readBytes script pc n = some ((script.drop pc).take n) := by
  induction n generalizing pc with
  | zero => rfl
  | succ n ih =>
    obtain ⟨byte, after, front⟩ := List.exists_cons_of_length_pos
      (Nat.lt_of_lt_of_le (Nat.succ_pos n) there)
    have next : script.drop (pc + 1) = after := by
      rw [← List.tail_drop, front, List.tail_cons]
    have here : script[pc]? = some byte := by
      rw [← List.head?_drop, front, List.head?_cons]
    rw [front, List.length_cons] at there
    have onward := @ih (pc + 1) (next ▸ Nat.le_of_succ_le_succ there)
    simp only [readBytes, here, onward, front, next, Option.bind_eq_bind, Option.bind_some,
      List.take_succ_cons]
    rfl

/-- The number of bytes that announce the size of a push. -/
def sizeBytes (opcode : UInt8) : Nat :=
  if opcode < Opcode.pushData1 then 0
  else if opcode = Opcode.pushData1 then 1
  else if opcode = Opcode.pushData2 then 2
  else 4

theorem sizeBytes_pushData1 : sizeBytes Opcode.pushData1 = 1 := by decide

theorem sizeBytes_pushData2 : sizeBytes Opcode.pushData2 = 2 := by decide

theorem sizeBytes_pushData4 : sizeBytes Opcode.pushData4 = 4 := by decide

/-- The size that a push announces, with what follows its opcode. -/
def announced (opcode : UInt8) (rest : CScript) : Nat :=
  if opcode < Opcode.pushData1 then opcode.toNat
  else littleEndian (rest.take (sizeBytes opcode))

theorem readSize_eq (after : script.drop pc = rest) (bytes : Nat) :
    readSize script pc bytes =
      some (if rest.length < bytes then none
        else some (littleEndian (rest.take bytes), pc + bytes)) := by
  have remains : script.length - pc = rest.length := by rw [← after, List.length_drop]
  rw [readSize, remains]
  split_ifs with short
  · rfl
  · rw [readBytes_eq (after ▸ not_lt.mp short), after]
    rfl

theorem readOperandSize_eq (after : script.drop pc = rest) (opcode : UInt8) :
    readOperandSize script pc opcode =
      some (if rest.length < sizeBytes opcode then none
        else some (announced opcode rest, pc + sizeBytes opcode)) := by
  rw [readOperandSize, sizeBytes, announced, sizeBytes]
  by_cases short : opcode < Opcode.pushData1
  · rw [if_pos short, if_pos short, if_pos short, if_neg (Nat.not_lt_zero _), Nat.add_zero]
  · rw [if_neg short, if_neg short, if_neg short]
    by_cases one : opcode = Opcode.pushData1
    · rw [if_pos one, if_pos one]
      exact readSize_eq after 1
    · rw [if_neg one, if_neg one]
      by_cases two : opcode = Opcode.pushData2
      · rw [if_pos two, if_pos two]
        exact readSize_eq after 2
      · rw [if_neg two, if_neg two]
        exact readSize_eq after 4

theorem getOp2_of_end (ended : script.length ≤ pc) : getOp2 script pc = some (.failed pc) :=
  if_pos ended

/-- What stands at a place, from what follows it. -/
theorem place_of_drop
    (there : script.drop pc = opcode :: rest) :
    script[pc]? = some opcode ∧ script.drop (pc + 1) = rest ∧
      script.length = pc + 1 + rest.length := by
  have length := congrArg List.length there
  rw [List.length_drop, List.length_cons] at length
  refine ⟨?_, ?_, by omega⟩
  · rw [← List.head?_drop, there, List.head?_cons]
  · rw [← List.tail_drop, there, List.tail_cons]

theorem getOp2_of_plain
    (there : script.drop pc = opcode :: rest)
    (plain : ¬opcode ≤ Opcode.pushData4) :
    getOp2 script pc = some ⟨true, pc + 1, opcode, []⟩ := by
  obtain ⟨here, -, length⟩ := place_of_drop there
  rw [getOp2, if_neg (by omega), here]
  simp only [Option.bind_eq_bind, Option.bind_some, if_neg plain]
  rfl

theorem getOp2_of_push
    (there : script.drop pc = opcode :: rest)
    (push : opcode ≤ Opcode.pushData4) :
    getOp2 script pc = some (
      let start := pc + 1 + sizeBytes opcode
      let nSize := announced opcode rest
      if rest.length < sizeBytes opcode then .failed (pc + 1)
      else if (rest.length - sizeBytes opcode) % 2 ^ 32 < nSize then .failed start
      else ⟨true, start + nSize, opcode, (rest.drop (sizeBytes opcode)).take nSize⟩) := by
  obtain ⟨here, after, length⟩ := place_of_drop there
  rw [getOp2, if_neg (by omega), here]
  simp only [Option.bind_eq_bind, Option.bind_some, if_pos push, readOperandSize_eq after]
  by_cases short : rest.length < sizeBytes opcode
  · rw [if_pos short, if_pos short]
    rfl
  · have remains : script.length - (pc + 1 + sizeBytes opcode) =
        rest.length - sizeBytes opcode := by omega
    have start : script.drop (pc + 1 + sizeBytes opcode) = rest.drop (sizeBytes opcode) := by
      rw [← after, List.drop_drop]
    rw [if_neg short, if_neg short]
    dsimp only
    rw [remains]
    by_cases fewer : (rest.length - sizeBytes opcode) % 2 ^ 32 < announced opcode rest
    · rw [if_pos fewer, if_pos fewer]
      rfl
    · have enough : announced opcode rest ≤ (rest.drop (sizeBytes opcode)).length := by
        rw [List.length_drop]
        omega
      rw [if_neg fewer, if_neg fewer, readBytes_eq (start ▸ enough), start]
      rfl

end Places

/-- `GetOp2` never reads past the end, and moves the iterator on within the script.  It fails
exactly at the end, where the bytes that give the size of a push are missing, and where fewer bytes
remain, as an `unsigned int`, than a push announces. -/
theorem getOp2_spec (script : CScript) (pc : Nat) :
    ∃ read, getOp2 script pc = some read ∧ pc ≤ read.pc ∧ read.pc ≤ max pc script.length ∧
      (read.fRet = true → pc < read.pc) ∧
      (read.fRet = false ↔ script.length ≤ pc ∨ ∃ opcode rest, script.drop pc = opcode :: rest ∧
        opcode ≤ Opcode.pushData4 ∧ (rest.length < sizeBytes opcode ∨
          (rest.length - sizeBytes opcode) % 2 ^ 32 < announced opcode rest)) := by
  cases there : script.drop pc with
  | nil =>
    have ended := List.drop_eq_nil_iff.mp there
    refine ⟨_, getOp2_of_end ended, le_refl _, le_max_left _ _, nofun, ?_⟩
    exact iff_of_true rfl (.inl ended)
  | cons opcode rest =>
    obtain ⟨-, -, length⟩ := place_of_drop there
    have onlyHere : ∀ {P : UInt8 → CScript → Prop},
        (∃ other others, opcode :: rest = other :: others ∧ P other others) ↔ P opcode rest := by
      intro P
      constructor
      · rintro ⟨other, others, same, holds⟩
        obtain ⟨rfl, rfl⟩ := List.cons.inj same
        exact holds
      · exact fun holds => ⟨opcode, rest, rfl, holds⟩
    have notEnded : ¬script.length ≤ pc := by omega
    rw [onlyHere]
    by_cases push : opcode ≤ Opcode.pushData4
    · refine ⟨_, getOp2_of_push there push, ?_⟩
      by_cases short : rest.length < sizeBytes opcode
      · rw [if_pos short]
        refine ⟨Nat.le_succ pc, ?_, nofun, iff_of_true rfl (.inr ⟨push, .inl short⟩)⟩
        exact le_max_of_le_right (by rw [ReadOp.pc_failed]; omega)
      · rw [if_neg short]
        by_cases fewer : (rest.length - sizeBytes opcode) % 2 ^ 32 < announced opcode rest
        · rw [if_pos fewer]
          refine ⟨?_, ?_, nofun, iff_of_true rfl (.inr ⟨push, .inr fewer⟩)⟩
          · rw [ReadOp.pc_failed]
            omega
          · exact le_max_of_le_right (by rw [ReadOp.pc_failed]; omega)
        · have modulus := Nat.mod_le (rest.length - sizeBytes opcode) (2 ^ 32)
          rw [if_neg fewer]
          refine ⟨by dsimp only; omega, le_max_of_le_right (by dsimp only; omega),
            fun _ => by dsimp only; omega, iff_of_false nofun ?_⟩
          rintro (ended | ⟨-, fails⟩)
          · exact notEnded ended
          · exact fails.elim short fewer
    · refine ⟨_, getOp2_of_plain there push, Nat.le_succ pc, ?_, fun _ => Nat.lt_succ_self pc, ?_⟩
      · exact le_max_of_le_right (by dsimp only; omega)
      · refine iff_of_false nofun ?_
        rintro (ended | ⟨pushed, -⟩)
        · exact notEnded ended
        · exact push pushed

theorem getOp_of_push
    (push : opcode ≤ Opcode.pushData4) (rest : CScript) :
    getOp (opcode :: rest) =
      if rest.length < sizeBytes opcode then none
      else takeOperand opcode (announced opcode rest) (rest.drop (sizeBytes opcode)) := by
  rw [getOp, sizeBytes, announced, sizeBytes]
  by_cases short : opcode < Opcode.pushData1
  · rw [if_pos short, if_pos short, if_pos short, if_neg (Nat.not_lt_zero _), List.drop_zero]
  · rw [if_neg short, if_neg short, if_neg short]
    by_cases one : opcode = Opcode.pushData1
    · rw [if_pos one, if_pos one]
    · rw [if_neg one, if_neg one]
      by_cases two : opcode = Opcode.pushData2
      · rw [if_pos two, if_pos two]
      · have four : opcode = Opcode.pushData4 := by
          refine UInt8.toNat.inj ?_
          have most : opcode.toNat ≤ 78 := UInt8.le_iff_toNat_le.mp push
          have least : 76 ≤ opcode.toNat := UInt8.le_iff_toNat_le.mp (UInt8.not_lt.mp short)
          have notOne : opcode.toNat ≠ 76 := fun same => one (UInt8.toNat.inj same)
          have notTwo : opcode.toNat ≠ 77 := fun same => two (UInt8.toNat.inj same)
          change opcode.toNat = 78
          omega
        rw [if_neg two, if_neg two, if_pos four]

/-- Where no more than four gigabytes remain, `getOp` of what remains is `GetOp2` at the place. -/
theorem getOp_drop
    (bounded : (script.drop pc).length ≤ 2 ^ 32) :
    getOp (script.drop pc) = (getOp2 script pc).bind fun read =>
      if read.fRet then some (read.opcodeRet, read.vchRet, script.drop read.pc) else none := by
  cases there : script.drop pc with
  | nil =>
    rw [getOp2_of_end (List.drop_eq_nil_iff.mp there)]
    rfl
  | cons opcode rest =>
    obtain ⟨-, after, -⟩ := place_of_drop there
    by_cases push : opcode ≤ Opcode.pushData4
    · rw [there, List.length_cons] at bounded
      have small : (rest.length - sizeBytes opcode) % 2 ^ 32 =
          (rest.drop (sizeBytes opcode)).length := by
        rw [List.length_drop, Nat.mod_eq_of_lt (by omega)]
      rw [getOp_of_push push, getOp2_of_push there push, Option.bind_some, small]
      by_cases short : rest.length < sizeBytes opcode
      · rw [if_pos short, if_pos short]
        rfl
      · rw [if_neg short, if_neg short, takeOperand]
        by_cases fewer : (rest.drop (sizeBytes opcode)).length < announced opcode rest
        · rw [if_pos fewer, if_pos fewer]
          rfl
        · rw [if_neg fewer, if_neg fewer, if_pos rfl, ← List.drop_drop, ← List.drop_drop, after]
    · rw [getOp2_of_plain there push, getOp_of_pushData4_lt (UInt8.not_le.mp push),
        Option.bind_some, if_pos rfl, after]

namespace Item

/-- The opcode of a push of a byte vector. -/
def pushOpcode (b : List UInt8) : UInt8 :=
  if b.length < 0x4c then UInt8.ofNat b.length
  else if b.length ≤ 0xff then Opcode.pushData1
  else if b.length ≤ 0xffff then Opcode.pushData2
  else Opcode.pushData4

/-- The bytes of a push that give its size. -/
def sizeField (b : List UInt8) : List UInt8 :=
  ByteReaders.littleEndian (sizeBytes (pushOpcode b)) b.length

/-- The opcode and the data of an item, as `GetOp` is to return them. -/
def parsed : Item → UInt8 × List UInt8
  | .opcode op => (UInt8.ofNat op.toNat, [])
  | .integer n =>
    if n = -1 ∨ 1 ≤ n ∧ n ≤ 16 then (UInt8.ofNat (n + (0x51 - 1)).toNat, [])
    else if n = 0 then (0, [])
    else (pushOpcode (serializeNumber n), serializeNumber n)
  | .scriptNum n => (pushOpcode (serializeNumber n), serializeNumber n)
  | .data b => (pushOpcode b, b)

/-- The bytes of an item. -/
def encode (item : Item) : List UInt8 :=
  if item.parsed.1 ≤ Opcode.pushData4 then
    item.parsed.1 :: (sizeField item.parsed.2 ++ item.parsed.2)
  else [item.parsed.1]

/-- An opcode that is appended as such is none of a push that takes operands, and a byte vector has
less than four gigabytes. -/
def IsPlain : Item → Prop
  | .opcode op => 0 ≤ op ∧ op ≤ 0xff ∧ (op = 0 ∨ 0x4e < op)
  | .integer _ => True
  | .scriptNum _ => True
  | .data b => b.length < 2 ^ 32

/-- Without more than one byte for its size a push has few bytes. -/
theorem pushOpcode_of_short (short : b.length < 0x4c) :
    pushOpcode b = UInt8.ofNat b.length ∧ (pushOpcode b).toNat = b.length ∧
      pushOpcode b < Opcode.pushData1 := by
  have own : pushOpcode b = UInt8.ofNat b.length := if_pos short
  have number : (UInt8.ofNat b.length).toNat = b.length :=
    UInt8.toNat_ofNat_of_lt' (by change b.length < 256; omega)
  refine ⟨own, own ▸ number, UInt8.lt_iff_toNat_lt.mpr ?_⟩
  rw [own, number]
  exact short

theorem pushOpcode_of_long
    (long : ¬b.length < 0x4c)
    (bounded : b.length < 2 ^ 32) :
    ¬pushOpcode b < Opcode.pushData1 ∧ b.length < 256 ^ sizeBytes (pushOpcode b) := by
  rw [pushOpcode, if_neg long]
  split_ifs with one two
  · exact ⟨by decide, Nat.lt_of_le_of_lt one (by decide)⟩
  · exact ⟨by decide, Nat.lt_of_le_of_lt two (by decide)⟩
  · exact ⟨by decide, Nat.lt_of_lt_of_le bounded (by decide)⟩

theorem pushOpcode_le (b : List UInt8) : pushOpcode b ≤ Opcode.pushData4 := by
  by_cases short : b.length < 0x4c
  · exact UInt8.le_trans (UInt8.le_of_lt (pushOpcode_of_short short).2.2) (by decide)
  · rw [pushOpcode, if_neg short]
    split_ifs <;> decide

end Item

theorem length_littleEndian (width value : Nat) :
    (ByteReaders.littleEndian width value).length = width := by
  induction width generalizing value with
  | zero => rfl
  | succ width ih =>
    rw [ByteReaders.littleEndian, List.length_cons, ih]

/-- Digits give their number back. -/
theorem littleEndian_littleEndian
    (bounded : value < 256 ^ width) :
    littleEndian (ByteReaders.littleEndian width value) = value := by
  induction width generalizing value with
  | zero =>
    rw [Nat.pow_zero, Nat.lt_one_iff] at bounded
    rw [bounded]
    rfl
  | succ width ih =>
    have high : value / 256 < 256 ^ width := by
      rw [Nat.div_lt_iff_lt_mul (by decide), ← Nat.pow_succ]
      exact bounded
    have low : (UInt8.ofNat value).toNat = value % 256 := UInt8.toNat_ofNat'
    rw [ByteReaders.littleEndian, littleEndian, ih high, low]
    omega

namespace Item

theorem announced_pushOpcode
    (bounded : b.length < 2 ^ 32)
    (rest : List UInt8) :
    announced (pushOpcode b) (sizeField b ++ rest) = b.length := by
  rw [announced]
  by_cases short : b.length < 0x4c
  · obtain ⟨-, number, below⟩ := pushOpcode_of_short short
    rw [if_pos below, number]
  · obtain ⟨notBelow, fits⟩ := pushOpcode_of_long short bounded
    rw [if_neg notBelow, sizeField, List.take_left' (length_littleEndian _ _),
      littleEndian_littleEndian fits]

/-- `operator<<` of a byte vector appends the opcode, the size and the bytes. -/
theorem pushData_eq (script : CScript) (b : List UInt8) :
    pushData script b = script ++ pushOpcode b :: (sizeField b ++ b) := by
  rw [pushData, sizeField]
  by_cases short : b.length < 0x4c
  · obtain ⟨own, -, below⟩ := pushOpcode_of_short short
    have none : sizeBytes (pushOpcode b) = 0 := if_pos below
    rw [if_pos short, none, own]
    simp [ByteReaders.littleEndian]
  · have opcode : pushOpcode b = if b.length ≤ 0xff then Opcode.pushData1
        else if b.length ≤ 0xffff then Opcode.pushData2 else Opcode.pushData4 := if_neg short
    rw [if_neg short, opcode]
    split_ifs
    · simp [sizeBytes_pushData1, ByteReaders.littleEndian]
    · simp [sizeBytes_pushData2]
    · simp [sizeBytes_pushData4]

theorem length_magnitudeBytes_le (fuel absvalue : Nat) :
    (magnitudeBytes fuel absvalue).length ≤ fuel := by
  induction fuel generalizing absvalue with
  | zero => exact Nat.le_refl 0
  | succ fuel ih =>
    rw [magnitudeBytes]
    split_ifs
    · exact Nat.zero_le _
    · exact Nat.succ_le_succ (ih _)

/-- A number has at most nine bytes. -/
theorem length_serializeNumber_le (n : Int) : (serializeNumber n).length ≤ 9 := by
  have bytes := length_magnitudeBytes_le 8 n.natAbs
  rw [serializeNumber]
  split
  · exact Nat.zero_le 9
  · split_ifs
    · rw [List.length_append, List.length_singleton]
      omega
    · rw [List.length_append, List.length_singleton]
      omega
    · rw [List.length_append, List.length_singleton, List.length_dropLast]
      omega
    · omega

variable {items : List Item}

theorem encode_cases
    (plain : item.IsPlain) :
    (∃ opcode : UInt8, ¬opcode ≤ Opcode.pushData4 ∧ item.parsed = (opcode, []) ∧
        ∀ script, append script item = some (script ++ [opcode])) ∨
      ∃ b : List UInt8, b.length < 2 ^ 32 ∧ item.parsed = (pushOpcode b, b) ∧
        ∀ script, append script item = some (pushData script b) := by
  have number : ∀ n, (serializeNumber n).length < 2 ^ 32 := fun n =>
    Nat.lt_of_le_of_lt (length_serializeNumber_le n) (by decide)
  cases item with
  | opcode op =>
    obtain ⟨notBelow, notAbove, zero | above⟩ := plain
    · subst zero
      exact .inr ⟨[], by decide, rfl, fun script => (congrArg some (List.append_nil _)).symm⟩
    · refine .inl ⟨UInt8.ofNat op.toNat, ?_, rfl, fun script => if_neg (by omega)⟩
      rw [UInt8.not_le, UInt8.lt_iff_toNat_lt, UInt8.toNat_ofNat']
      change 78 < _
      omega
  | integer n =>
    by_cases small : n = -1 ∨ 1 ≤ n ∧ n ≤ 16
    · refine .inl ⟨UInt8.ofNat (n + (0x51 - 1)).toNat, ?_, if_pos small, fun script =>
        congrArg some (if_pos small)⟩
      rw [UInt8.not_le, UInt8.lt_iff_toNat_lt, UInt8.toNat_ofNat']
      change 78 < _
      omega
    · by_cases zero : n = 0
      · subst zero
        exact .inr ⟨[], by decide, rfl, fun script => (congrArg some (List.append_nil _)).symm⟩
      · refine .inr ⟨serializeNumber n, number n, ?_, fun script => ?_⟩
        · rw [parsed, if_neg small, if_neg zero]
        · rw [append, appendInt64, if_neg small, if_neg zero]
  | scriptNum n => exact .inr ⟨serializeNumber n, number n, rfl, fun script => rfl⟩
  | data b => exact .inr ⟨b, plain, rfl, fun script => rfl⟩

/-- `operator<<` appends the bytes of an item. -/
theorem append_eq
    (plain : item.IsPlain)
    (script : CScript) :
    append script item = some (script ++ encode item) := by
  rcases encode_cases plain with ⟨opcode, above, parsed, appended⟩ | ⟨b, -, parsed, appended⟩
  · rw [appended, encode, parsed, if_neg above]
  · rw [appended, pushData_eq, encode, parsed, if_pos (pushOpcode_le b)]

/-- `GetOp` reads an item where it stands, unless what remains of the script does not fit an
`unsigned int`. -/
theorem getOp2_encode
    (plain : item.IsPlain)
    (there : script.drop pc = encode item ++ rest)
    (fits : item.parsed.2 = [] ∨ item.parsed.2.length + rest.length < 2 ^ 32) :
    getOp2 script pc = some ⟨true, pc + (encode item).length, item.parsed.1, item.parsed.2⟩ := by
  rcases encode_cases plain with ⟨opcode, above, parsed, -⟩ | ⟨b, bounded, parsed, -⟩
  · rw [encode, parsed, if_neg above] at there ⊢
    exact getOp2_of_plain there above
  · rw [parsed] at fits
    rw [encode, parsed, if_pos (pushOpcode_le b)] at there ⊢
    dsimp only at fits there ⊢
    have size : (sizeField b).length = sizeBytes (pushOpcode b) := length_littleEndian _ _
    have split : (pushOpcode b :: (sizeField b ++ b)) ++ rest =
        pushOpcode b :: (sizeField b ++ (b ++ rest)) := by
      rw [List.cons_append, List.append_assoc]
    rw [split] at there
    have data : (sizeField b ++ (b ++ rest)).drop (sizeBytes (pushOpcode b)) = b ++ rest :=
      List.drop_left' size
    have remains : (sizeField b ++ (b ++ rest)).length - sizeBytes (pushOpcode b) =
        b.length + rest.length := by
      rw [List.length_append, List.length_append]
      omega
    have enough : ¬(sizeField b ++ (b ++ rest)).length < sizeBytes (pushOpcode b) := by
      rw [List.length_append]
      omega
    have whole : ¬(b.length + rest.length) % 2 ^ 32 < b.length := by
      rcases fits with rfl | fits
      · exact Nat.not_lt_zero _
      · rw [Nat.mod_eq_of_lt fits]
        omega
    have taken : (b ++ rest).take b.length = b := List.take_left
    have place : pc + 1 + sizeBytes (pushOpcode b) + b.length =
        pc + (pushOpcode b :: (sizeField b ++ b)).length := by
      rw [List.length_cons, List.length_append]
      omega
    rw [getOp2_of_push there (pushOpcode_le b), announced_pushOpcode bounded, remains, data]
    rw [if_neg enough, if_neg whole, taken, place]

/-- What stands behind the size of each push is less than four gigabytes. -/
def Fits : List Item → Prop
  | [] => True
  | item :: rest =>
    (item.parsed.2 = [] ∨ item.parsed.2.length + (rest.flatMap encode).length < 2 ^ 32) ∧
      Fits rest

/-- Items that are appended one after another stand in the script in their order. -/
theorem foldlM_append
    (plain : ∀ item ∈ items, item.IsPlain)
    (script : CScript) :
    items.foldlM append script = some (script ++ items.flatMap encode) := by
  induction items generalizing script with
  | nil => simp
  | cons item rest ih =>
    obtain ⟨here, others⟩ := List.forall_mem_cons.mp plain
    rw [List.foldlM_cons, append_eq here, Option.bind_eq_bind, Option.bind_some,
      ih others, List.flatMap_cons, List.append_assoc]

/-- Read from the place where they stand, items are read one after another to the end. -/
theorem ends_getOps
    (plain : ∀ item ∈ items, item.IsPlain)
    (fits : Fits items)
    (there : script.drop pc = items.flatMap encode)
    (inside : pc ≤ script.length) :
    Ends (fun fuel => getOps script fuel pc) (items.map parsed, script.length) := by
  induction items generalizing pc with
  | nil =>
    obtain rfl : pc = script.length := le_antisymm inside (List.drop_eq_nil_iff.mp there)
    refine ends_of_succ fun less => ?_
    simp only [getOps, getOp2_of_end (le_refl script.length), ReadOp.failed,
      Option.bind_eq_bind, Option.bind_some, Bool.false_eq_true, if_false]
    rfl
  | cons item rest ih =>
    obtain ⟨here, others⟩ := List.forall_mem_cons.mp plain
    rw [List.flatMap_cons] at there
    have read := getOp2_encode here there fits.1
    have length := congrArg List.length there
    rw [List.length_drop, List.length_append] at length
    have onward : script.drop (pc + (encode item).length) = rest.flatMap encode := by
      rw [← List.drop_drop, there, List.drop_left]
    refine (ih others fits.2 onward (by omega)).succ fun less after => ?_
    simp only [getOps, read, after, Option.bind_eq_bind, Option.bind_some, if_true]
    rfl

end Item

theorem ends_getOps_some (script : CScript) (pc : Nat) :
    ∃ result, Ends (fun fuel => getOps script fuel pc) result := by
  induction remaining : script.length - pc using Nat.strongRecOn generalizing pc with
  | ind size ih =>
    obtain ⟨read, result, -, -, moves, fails⟩ := getOp2_spec script pc
    cases succeeded : read.fRet with
    | false =>
      refine ⟨([], pc), ends_of_succ fun less => ?_⟩
      simp only [getOps, result, succeeded, Option.bind_eq_bind, Option.bind_some,
        Bool.false_eq_true, if_false]
      rfl
    | true =>
      have notEnded : pc < script.length := by
        by_contra ended
        rw [fails.mpr (.inl (not_lt.mp ended))] at succeeded
        cases succeeded
      have onward := moves succeeded
      clear fails
      obtain ⟨rest, ends⟩ := ih (script.length - read.pc) (by omega) read.pc rfl
      refine ⟨((read.opcodeRet, read.vchRet) :: rest.1, rest.2),
        ends.succ fun less after => ?_⟩
      simp only [getOps, result, succeeded, after, Option.bind_eq_bind, Option.bind_some, if_true]
      rfl

/-- Opcodes that are no raw pushes, numbers and byte vectors that are appended to a script are read
back by `GetOp`, one after another, and then the script ends.  On every byte string `GetOp` reads
nothing past the end and can only be repeated until it fails; where no more than four gigabytes
remain it fails exactly at the end, where the bytes that give the size of a push are missing, and
where fewer bytes remain than a push announces. -/
theorem getOps_append :
    (∀ items : List Item, (∀ item ∈ items, item.IsPlain) → Item.Fits items →
      ∃ script, items.foldlM append [] = some script ∧
        Ends (fun fuel => getOps script fuel 0) (items.map Item.parsed, script.length)) ∧
    ∀ script pc, (∃ result, Ends (fun fuel => getOps script fuel pc) result) ∧
      ∃ read, getOp2 script pc = some read ∧ pc ≤ read.pc ∧ read.pc ≤ max pc script.length ∧
        (read.fRet = true → pc < read.pc) ∧
        ((script.drop pc).length ≤ 2 ^ 32 → (read.fRet = false ↔ script.length ≤ pc ∨
          ∃ opcode rest, script.drop pc = opcode :: rest ∧ opcode ≤ Opcode.pushData4 ∧
            (rest.length < sizeBytes opcode ∨
              (rest.drop (sizeBytes opcode)).length < announced opcode rest))) := by
  constructor
  · intro items plain fits
    exact ⟨_, Item.foldlM_append plain [], Item.ends_getOps plain fits rfl (Nat.zero_le _)⟩
  · intro script pc
    refine And.intro (ends_getOps_some script pc) ?_
    obtain ⟨read, result, behind, within, moves, fails⟩ := getOp2_spec script pc
    refine ⟨read, result, behind, within, moves, fun bounded => fails.trans (or_congr_right ?_)⟩
    refine exists_congr fun opcode => exists_congr fun rest => and_congr_right fun there =>
      and_congr_right fun _ => or_congr_right ?_
    rw [there, List.length_cons] at bounded
    rw [List.length_drop, Nat.mod_eq_of_lt (by omega)]

/-- A push whose bytes with those behind it make four gigabytes is not read. -/
theorem getOp2_of_four_gigabytes
    (bounded : b.length < 2 ^ 32)
    (some : b ≠ [])
    (whole : b.length + rest.length = 2 ^ 32) :
    (getOp2 (pushData [] b ++ rest) 0).map ReadOp.fRet = Option.some false := by
  have there : (pushData [] b ++ rest).drop 0 =
      Item.pushOpcode b :: (Item.sizeField b ++ (b ++ rest)) := by
    rw [Item.pushData_eq, List.drop_zero, List.nil_append, List.cons_append, List.append_assoc]
  have size : (Item.sizeField b).length = sizeBytes (Item.pushOpcode b) := length_littleEndian _ _
  have positive := List.length_pos_iff.mpr some
  have remains : (Item.sizeField b ++ (b ++ rest)).length - sizeBytes (Item.pushOpcode b) =
      2 ^ 32 := by
    rw [List.length_append, List.length_append]
    omega
  rw [getOp2_of_push there (Item.pushOpcode_le b), Item.announced_pushOpcode bounded, remains]
  dsimp only
  rw [Nat.mod_self, if_pos positive]
  split_ifs <;> rfl

/-- A raw push opcode takes the opcode behind it for its size; `GetOp` fails at the end, although
nothing is announced there; and a push of `2 ^ 32 - 1` bytes is not read where another byte follows
it. -/
theorem getOps_append_raw :
    ([.opcode 0x4c, .opcode 0].foldlM append [] = some [0x4c, 0] ∧
      Ends (fun fuel => getOps [0x4c, 0] fuel 0) ([(0x4c, [])], 2)) ∧
    (getOp2 [] 0).map ReadOp.fRet = some false ∧
    (getOp2 (pushData [] (List.replicate (2 ^ 32 - 1) 0) ++ [0x61]) 0).map ReadOp.fRet =
      some false := by
  refine ⟨⟨rfl, 2, fun fuel above => ?_⟩, rfl, ?_⟩
  · obtain ⟨less, rfl⟩ := Nat.exists_eq_add_of_le' above
    rfl
  · have length := @List.length_replicate UInt8 (2 ^ 32 - 1) 0
    generalize List.replicate (2 ^ 32 - 1) (0 : UInt8) = b at length ⊢
    refine getOp2_of_four_gigabytes (by omega) ?_ ?_
    · rintro rfl
      rw [List.length_nil] at length
      omega
    · rw [List.length_singleton]
      omega

end CScript

end ColossusCoin
