import Mathlib.Algebra.Order.Ring.Nat
import Mathlib.Data.List.Basic
import Mathlib.Data.Nat.Bitwise

/-!
# Readers of bytes

A reader takes a value off the front of a string of bytes.  What a writer writes is read back
when the reader takes exactly those bytes, whatever follows them, and this composes along the
steps of the reader.
-/

namespace ByteReaders

/-- A reader fails, or leaves a value and the bytes it has not taken. -/
abbrev Reader (α : Type) := StateT (List UInt8) Option α

/-- The reader takes these bytes off any string that starts with them, as this value. -/
def Reads {α : Type} (read : Reader α) (bytes : List UInt8) (value : α) : Prop :=
  ∀ rest, read.run (bytes ++ rest) = some (value, rest)

/-- The reader fails on every string that starts with these bytes. -/
def Fails {α : Type} (read : Reader α) (bytes : List UInt8) : Prop :=
  ∀ rest, read.run (bytes ++ rest) = none

variable {read : Reader α}

theorem Reads.pure (value : α) : Reads (pure value) [] value := fun _ => rfl

theorem Reads.bind
    (next : α → Reader β)
    (here : Reads read bytes value)
    (after : Reads (next value) others result) :
    Reads (read >>= next) (bytes ++ others) result := by
  intro rest
  rw [StateT.run_bind, List.append_assoc, here, Option.bind_eq_bind, Option.bind_some, after]

/-- The last step of a reader. -/
theorem Reads.map
    (function : α → β)
    (here : Reads read bytes value) :
    Reads (read >>= fun value => Pure.pure (function value)) bytes (function value) := by
  have steps := here.bind (fun value => Pure.pure (function value)) (Reads.pure (function value))
  rwa [List.append_nil] at steps

theorem Reads.checked
    [DecidablePred refused]
    (here : Reads read bytes value)
    (accepted : ¬refused value) :
    Reads (read >>= fun value => if refused value then failure else Pure.pure value)
      bytes value := by
  have after : Reads (if refused value then failure else Pure.pure value : Reader α) [] value := by
    rw [if_neg accepted]
    exact Reads.pure value
  have steps := here.bind (fun value => if refused value then failure else Pure.pure value) after
  rwa [List.append_nil] at steps

theorem Reads.bind_fails
    (next : α → Reader β)
    (here : Reads read bytes value)
    (after : Fails (next value) others) :
    Fails (read >>= next) (bytes ++ others) := by
  intro rest
  rw [StateT.run_bind, List.append_assoc, here, Option.bind_eq_bind, Option.bind_some, after]

theorem Fails.bind
    (next : α → Reader β)
    (here : Fails read bytes) :
    Fails (read >>= next) bytes := by
  intro rest
  rw [StateT.run_bind, here, Option.bind_eq_bind, Option.bind_none]

theorem Fails.append
    (here : Fails read bytes) :
    Fails read (bytes ++ others) := by
  intro rest
  rw [List.append_assoc]
  exact here (others ++ rest)

theorem Reads.refused
    {refused : α → Prop} [DecidablePred refused]
    (here : Reads read bytes value)
    (refuses : refused value) :
    Fails (read >>= fun value => if refused value then failure else Pure.pure value) bytes := by
  intro rest
  rw [StateT.run_bind, here, Option.bind_eq_bind, Option.bind_some, if_pos refuses]
  rfl

/-- Read under a condition, with a default where it fails. -/
def readIf (condition : Bool) (read : Reader α) (default : α) : Reader α :=
  if condition then read else pure default

/-- Write under a condition. -/
def writeIf (condition : Bool) (bytes : List UInt8) : List UInt8 :=
  if condition then bytes else []

theorem reads_writeIf
    {condition : Bool} {default : α}
    (here : condition = true → Reads read bytes value) :
    Reads (readIf condition read default) (writeIf condition bytes)
      (if condition then value else default) := by
  cases condition with
  | false => exact Reads.pure default
  | true => exact here rfl

/-- One byte. -/
def readByte : Reader UInt8
  | [] => none
  | byte :: rest => some (byte, rest)

/-- A number of bytes as they stand. -/
def readBytes (count : Nat) : Reader (List UInt8) := fun bytes =>
  if bytes.length < count then none else some (bytes.take count, bytes.drop count)

/-- A number of values, one after the other. -/
def readMany (read : Reader α) : Nat → Reader (List α)
  | 0 => pure []
  | count + 1 => do
      let value ← read
      let values ← readMany read count
      pure (value :: values)

theorem reads_readByte (byte : UInt8) : Reads readByte [byte] byte := fun _ => rfl

theorem reads_readBytes (bytes : List UInt8) : Reads (readBytes bytes.length) bytes bytes := by
  intro rest
  have enough : ¬(bytes ++ rest).length < bytes.length := by simp
  change (if (bytes ++ rest).length < bytes.length then none else _) = _
  rw [if_neg enough, List.take_left, List.drop_left]

theorem reads_readMany_map
    {write : α → List UInt8} {values : List α}
    (function : α → α)
    (each : ∀ value ∈ values, Reads read (write value) (function value)) :
    Reads (readMany read values.length) (values.flatMap write) (values.map function) := by
  induction values with
  | nil => exact Reads.pure []
  | cons first rest ih =>
    rw [List.forall_mem_cons] at each
    rw [List.flatMap_cons]
    exact each.1.bind (fun value => readMany read rest.length >>= fun values =>
      pure (value :: values)) ((ih each.2).map (function first :: ·))

theorem reads_readMany
    {write : α → List UInt8} {values : List α}
    (each : ∀ value ∈ values, Reads read (write value) value) :
    Reads (readMany read values.length) (values.flatMap write) values := by
  have images := reads_readMany_map id each
  rwa [List.map_id] at images

/-- The low digits of a number in base 256, the lowest first. -/
def littleEndian : Nat → Nat → List UInt8
  | 0, _ => []
  | width + 1, value => UInt8.ofNat value :: littleEndian width (value / 256)

/-- A number of so many digits. -/
def readLittleEndian : Nat → Reader Nat
  | 0 => pure 0
  | width + 1 => do
      let low ← readByte
      let high ← readLittleEndian width
      pure (low.toNat + 256 * high)

/-- A number below the bound of its width is read back. -/
theorem reads_littleEndian
    {width value : Nat}
    (bounded : value < 256 ^ width) :
    Reads (readLittleEndian width) (littleEndian width value) value := by
  induction width generalizing value with
  | zero =>
    have zero : value = 0 := by simpa using bounded
    rw [zero]
    exact Reads.pure 0
  | succ width ih =>
    have high : value / 256 < 256 ^ width := by
      rw [Nat.div_lt_iff_lt_mul (by omega)]
      rwa [Nat.pow_succ] at bounded
    have whole : (UInt8.ofNat value).toNat + 256 * (value / 256) = value := by
      rw [UInt8.toNat_ofNat']
      exact Nat.mod_add_div value 256
    have steps := (reads_readByte (UInt8.ofNat value)).bind
      (fun low => readLittleEndian width >>= fun high => pure (low.toNat + 256 * high))
      ((ih high).map fun high => (UInt8.ofNat value).toNat + 256 * high)
    rwa [whole] at steps

/-- The number whose binary digits are these flags, the lowest first. -/
def flagsNumber : List Bool → Nat
  | [] => 0
  | flag :: flags => Nat.bit flag (flagsNumber flags)

theorem testBit_flagsNumber (flags : List Bool) (place : Nat) :
    (flagsNumber flags).testBit place = flags.getD place false := by
  induction flags generalizing place with
  | nil => simp [flagsNumber]
  | cons flag flags ih =>
    cases place with
    | zero => rw [flagsNumber, Nat.testBit_bit_zero, List.getD_cons_zero]
    | succ place =>
      rw [flagsNumber, Nat.testBit_bit_succ, ih, List.getD_cons_succ]

theorem flagsNumber_lt (flags : List Bool) : flagsNumber flags < 2 ^ flags.length := by
  induction flags with
  | nil => simp [flagsNumber]
  | cons flag flags ih =>
    rw [flagsNumber, List.length_cons, Nat.pow_succ]
    have := Bool.toNat_le flag
    rw [Nat.bit_val]
    omega

/-- Eight flags to a byte, the first in the lowest place. -/
def packFlags (flags : List Bool) : List UInt8 :=
  (List.range ((flags.length + 7) / 8)).map fun byte =>
    UInt8.ofNat (flagsNumber ((flags.drop (8 * byte)).take 8))

/-- The flags of bytes. -/
def unpackFlags (bytes : List UInt8) : List Bool :=
  (List.range (8 * bytes.length)).map fun place =>
    (bytes.getD (place / 8) 0).toNat.testBit (place % 8)

@[simp] theorem length_packFlags (flags : List Bool) :
    (packFlags flags).length = (flags.length + 7) / 8 := by
  rw [packFlags, List.length_map, List.length_range]

@[simp] theorem length_unpackFlags (bytes : List UInt8) :
    (unpackFlags bytes).length = 8 * bytes.length := by
  rw [unpackFlags, List.length_map, List.length_range]

/-- Unpacking gives the flags back, and fills up the last byte. -/
theorem unpackFlags_packFlags (flags : List Bool) :
    unpackFlags (packFlags flags) =
      flags ++ List.replicate (8 * ((flags.length + 7) / 8) - flags.length) false := by
  apply List.ext_getElem
  · simp
    omega
  · intro place low _
    simp only [length_unpackFlags, length_packFlags] at low
    have byte : place / 8 < (flags.length + 7) / 8 := by omega
    have small := flagsNumber_lt ((flags.drop (8 * (place / 8))).take 8)
    have below : flagsNumber ((flags.drop (8 * (place / 8))).take 8) < 2 ^ 8 :=
      small.trans_le (Nat.pow_le_pow_right (by omega) (by simp))
    have packed : ((packFlags flags).getD (place / 8) 0).toNat =
        flagsNumber ((flags.drop (8 * (place / 8))).take 8) := by
      rw [List.getD_eq_getElem _ _ (by simpa using byte)]
      simp only [packFlags, List.getElem_map, List.getElem_range, UInt8.toNat_ofNat']
      exact Nat.mod_eq_of_lt below
    simp only [unpackFlags, List.getElem_map, List.getElem_range, packed, testBit_flagsNumber]
    have inByte : place % 8 < 8 := Nat.mod_lt _ (by omega)
    have whole : 8 * (place / 8) + place % 8 = place := Nat.div_add_mod place 8
    rw [List.getD_eq_getElem?_getD, List.getElem?_take_of_lt inByte, List.getElem?_drop, whole,
      List.getElem_append]
    split_ifs with within
    · rw [List.getElem?_eq_getElem within, Option.getD_some]
    · rw [List.getElem?_eq_none (by omega), Option.getD_none, List.getElem_replicate]

end ByteReaders

/-!
## Readers that take what is written

A reader is exact for a writer when the bytes that it takes off a string are the bytes that the
writer writes of the value it leaves.  Then no two strings are read as one value.  Along the steps
of a reader the bytes that earlier steps have taken are kept in front.
-/

namespace ByteReaders

variable {read : Reader α}

/-- With these bytes in front, what the reader takes is what is written of its value, and the
value is an accepted one. -/
def ExactAfter (before : List UInt8) (read : Reader α) (write : α → List UInt8)
    (accepted : α → Prop) : Prop :=
  ∀ bytes value rest, read.run bytes = some (value, rest) →
    accepted value ∧ before ++ bytes = write value ++ rest

/-- What the reader takes is what is written of its value, and the value is an accepted one. -/
def Exact (read : Reader α) (write : α → List UInt8) (accepted : α → Prop) : Prop :=
  ExactAfter [] read write accepted

namespace Exact

theorem accepts
    (exact : Exact read write accepted)
    (done : read.run bytes = some (value, rest)) :
    accepted value :=
  (exact bytes value rest done).1

theorem bytes_eq
    (exact : Exact read write accepted)
    (done : read.run bytes = some (value, rest)) :
    bytes = write value ++ rest :=
  (exact bytes value rest done).2

theorem injective
    (exact : Exact read write accepted)
    (done : read.run bytes = some (value, []))
    (again : read.run others = some (value, [])) :
    bytes = others :=
  (exact.bytes_eq done).trans (exact.bytes_eq again).symm

theorem bind
    (here : Exact read write accepted)
    (after : ∀ value, accepted value →
      ExactAfter (before ++ write value) (next value) writeNext acceptedNext) :
    ExactAfter before (read >>= next) writeNext acceptedNext := by
  intro bytes result rest done
  rw [StateT.run_bind, Option.bind_eq_bind] at done
  obtain ⟨⟨value, others⟩, taken, done⟩ := Option.bind_eq_some_iff.mp done
  have step := after value (here.accepts taken) others result rest done
  rw [here.bytes_eq taken, ← List.append_assoc]
  exact step

theorem checked
    [DecidablePred refused]
    (here : Exact read write accepted) :
    Exact (read >>= fun value => if refused value then failure else Pure.pure value) write
      (fun value => accepted value ∧ ¬refused value) := by
  intro bytes result rest done
  rw [StateT.run_bind, Option.bind_eq_bind] at done
  obtain ⟨⟨value, others⟩, taken, done⟩ := Option.bind_eq_some_iff.mp done
  by_cases refuses : refused value
  · rw [if_pos refuses] at done
    exact nomatch done
  · rw [if_neg refuses] at done
    cases done
    exact ⟨⟨here.accepts taken, refuses⟩, here.bytes_eq taken⟩

theorem mono
    (here : Exact read write accepted)
    (weaker : ∀ value, accepted value → others value) :
    Exact read write others := by
  intro bytes value rest done
  exact ⟨weaker value (here.accepts done), here.bytes_eq done⟩

end Exact

theorem ExactAfter.pure
    (accepts : accepted value)
    (written : before = write value) :
    ExactAfter before (Pure.pure value) write accepted := by
  intro bytes result rest done
  cases done
  exact ⟨accepts, by rw [written]⟩

/-- The last step of a reader. -/
theorem Exact.map
    {function : α → β}
    (here : Exact read write accepted)
    (accepts : ∀ value, accepted value → acceptedNext (function value))
    (written : ∀ value, accepted value → before ++ write value = writeNext (function value)) :
    ExactAfter before (read >>= fun value => Pure.pure (function value)) writeNext acceptedNext :=
  here.bind fun value accepted => ExactAfter.pure (accepts value accepted) (written value accepted)

/-- A value that is there only sometimes. -/
theorem exact_readIf
    {default : α}
    (here : Exact read write accepted) :
    Exact (readIf condition read default) (fun value => writeIf condition (write value))
      (fun value => if condition then accepted value else value = default) := by
  cases condition with
  | false => exact ExactAfter.pure rfl rfl
  | true => exact here

theorem exact_readByte : Exact readByte (fun byte => [byte]) (fun _ => True) := by
  intro bytes value rest done
  cases bytes with
  | nil => exact nomatch done
  | cons byte bytes =>
    cases done
    exact ⟨trivial, rfl⟩

theorem exact_readBytes (count : Nat) :
    Exact (readBytes count) id (fun bytes => bytes.length = count) := by
  intro bytes value rest done
  change (if bytes.length < count then none else some (bytes.take count, bytes.drop count)) =
    some (value, rest) at done
  by_cases short : bytes.length < count
  · rw [if_pos short] at done
    exact nomatch done
  · rw [if_neg short] at done
    cases done
    exact ⟨by simp; omega, (List.take_append_drop count bytes).symm⟩

theorem exact_readMany
    (here : Exact read write accepted)
    (count : Nat) :
    Exact (readMany read count) (List.flatMap write)
      (fun values => values.length = count ∧ ∀ value ∈ values, accepted value) := by
  induction count with
  | zero => exact ExactAfter.pure ⟨rfl, by simp⟩ rfl
  | succ count ih =>
    refine here.bind fun value accepts => ih.map ?_ ?_
    · intro values done
      exact ⟨by rw [List.length_cons, done.1], List.forall_mem_cons.mpr ⟨accepts, done.2⟩⟩
    · intro values _
      rw [List.flatMap_cons, List.nil_append]

/-- A number of so many digits is below their bound. -/
theorem exact_readLittleEndian (width : Nat) :
    Exact (readLittleEndian width) (littleEndian width) (fun value => value < 256 ^ width) := by
  induction width with
  | zero => exact ExactAfter.pure (by omega) rfl
  | succ width ih =>
    refine exact_readByte.bind fun low _ => ih.map ?_ ?_
    · intro high bounded
      have digit := low.toNat_lt
      rw [Nat.pow_succ]
      omega
    · intro high _
      have digit : UInt8.ofNat (low.toNat + 256 * high) = low := by
        rw [← UInt8.toNat_inj, UInt8.toNat_ofNat']
        have := low.toNat_lt
        omega
      have others : (low.toNat + 256 * high) / 256 = high := by
        have := low.toNat_lt
        omega
      rw [littleEndian, digit, others]
      rfl

end ByteReaders
