import ColossusCoin.Library.BaseConversion
import ColossusCoin.Primitives.MoneyStrings

/-!
# Base58

Bytes are written as a string over an alphabet of 58 characters, and read back.  Both directions
convert between bases in a buffer, whose places are numbers below the base; leading zeros are
carried over one by one.
-/

namespace ColossusCoin
namespace Base58

open BaseConversion MoneyStrings

def pszBase58 : List Char :=
  "123456789ABCDEFGHJKLMNPQRSTUVWXYZabcdefghijkmnopqrstuvwxyz".toList

/-- `EncodeBase58`; no result where `assert(carry == 0)` fails or a character past the alphabet is
read. -/
def encodeBase58 (vch : List UInt8) : Option (List Char) := do
  let zeroes := (vch.takeWhile (· == 0)).length
  let bytes := (vch.dropWhile (· == 0)).map UInt8.toNat
  let b58 ← takeIn 58 256 (List.replicate (bytes.length * 138 / 100 + 1) 0) bytes
  let str ← (stripped b58).mapM (pszBase58[·]?)
  pure (List.replicate zeroes '1' ++ str)

/-- `strchr(pszBase58, c) - pszBase58`. -/
def decodeChar (c : Char) : Option Nat :=
  if c ∈ pszBase58 then some (pszBase58.idxOf c) else none

/-- The loop over the characters in `DecodeBase58`: the buffer and what follows the characters, or
that one is not of the alphabet; no result where `assert(carry == 0)` fails. -/
def decodeLoop : List Nat → List Char → Option (Option (List Nat × List Char))
  | b256, [] => some (some (b256, []))
  | b256, c :: psz =>
    if isSpace c then some (some (b256, c :: psz))
    else
      match decodeChar c with
      | none => some none
      | some ch =>
        let next := mulAdd 256 58 b256 ch
        if next.2 ≠ 0 then none else decodeLoop next.1 psz

/-- `DecodeBase58`: the bytes, or that it fails; no result where the assertion fails. -/
def decodeBase58 (str : List Char) : Option (Option (List UInt8)) := do
  let psz := (str.takeWhile (· ≠ '\x00')).dropWhile isSpace
  let zeroes := (psz.takeWhile (· == '1')).length
  let psz := psz.dropWhile (· == '1')
  match ← decodeLoop (List.replicate (psz.length * 733 / 1000 + 1) 0) psz with
  | none => pure none
  | some (b256, psz) =>
    if psz.dropWhile isSpace ≠ [] then pure none
    else pure (some (List.replicate zeroes 0 ++ (stripped b256).map UInt8.ofNat))

theorem decodeChar_getElem
    (below : digit < 58) :
    ∃ c, pszBase58[digit]? = some c ∧ decodeChar c = some digit := by
  have all : ∀ digit : Fin 58, (pszBase58[digit.val]?.bind decodeChar) = some digit.val := by
    decide +kernel
  obtain ⟨c, found, decoded⟩ := Option.bind_eq_some_iff.mp (all ⟨digit, below⟩)
  exact ⟨c, found, decoded⟩

theorem decodeChar_spec
    (decoded : decodeChar c = some digit) :
    digit < 58 ∧ pszBase58[digit]? = some c ∧ (digit = 0 ↔ c = '1') ∧
      isSpace c = false ∧ c ≠ '\x00' := by
  rw [decodeChar] at decoded
  split_ifs at decoded with member
  cases decoded
  have place := List.idxOf_lt_length_of_mem member
  refine ⟨place, ?_, ?_, ?_⟩
  · rw [List.getElem?_eq_getElem place, List.getElem_idxOf]
  · have first : pszBase58.all (fun c => pszBase58.idxOf c = 0 ↔ c = '1') = true := by
      decide +kernel
    simpa using List.all_eq_true.mp first c member
  · have plain : pszBase58.all (fun c => isSpace c = false ∧ c ≠ '\x00') = true := by
      decide +kernel
    simpa using List.all_eq_true.mp plain c member

/-- The characters of digits. -/
def characters (digits : List Nat) : List Char :=
  digits.map fun digit => pszBase58.getD digit '1'

theorem mapM_characters
    (below : ∀ digit ∈ digits, digit < 58) :
    digits.mapM (pszBase58[·]?) = some (characters digits) ∧
      (characters digits).mapM decodeChar = some digits := by
  induction digits with
  | nil => exact ⟨rfl, rfl⟩
  | cons digit digits ih =>
    rw [List.forall_mem_cons] at below
    obtain ⟨found, decoded⟩ := ih below.2
    obtain ⟨c, here, back⟩ := decodeChar_getElem below.1
    have first : pszBase58.getD digit '1' = c := by rw [List.getD, here, Option.getD_some]
    rw [characters, List.map_cons, first, ← characters]
    constructor
    · rw [List.mapM_cons, here, found]
      rfl
    · rw [List.mapM_cons, back, decoded]
      rfl

/-- Leading elements are told from what follows them. -/
theorem split_replicate
    [BEq α] [LawfulBEq α] {rest : List α}
    (count : Nat)
    (different : rest.head? ≠ some element) :
    (List.replicate count element ++ rest).takeWhile (· == element) =
        List.replicate count element ∧
      (List.replicate count element ++ rest).dropWhile (· == element) = rest := by
  have none_more : rest.takeWhile (· == element) = [] ∧ rest.dropWhile (· == element) = rest := by
    cases rest with
    | nil => exact ⟨rfl, rfl⟩
    | cons first rest =>
      have other : (first == element) = false := by
        rw [beq_eq_false_iff_ne]
        rintro rfl
        exact different rfl
      rw [List.takeWhile_cons, List.dropWhile_cons, other]
      exact ⟨rfl, rfl⟩
  induction count with
  | zero => exact none_more
  | succ count ih =>
    rw [List.replicate_succ, List.cons_append, List.takeWhile_cons, List.dropWhile_cons,
      beq_self_eq_true, if_pos rfl, if_pos rfl, ih.1, ih.2]
    exact ⟨rfl, rfl⟩

theorem exists_of_mapM
    {chars : List Char}
    (decoded : chars.mapM decodeChar = some digits) :
    ∀ c ∈ chars, ∃ digit, decodeChar c = some digit := by
  induction chars generalizing digits with
  | nil => simp
  | cons c chars ih =>
    rw [List.mapM_cons, Option.bind_eq_bind, Option.bind_eq_some_iff] at decoded
    obtain ⟨digit, found, more⟩ := decoded
    obtain ⟨others, rest, -⟩ := Option.bind_eq_some_iff.mp more
    exact List.forall_mem_cons.mpr ⟨⟨digit, found⟩, ih rest⟩

theorem encodeBase58_spec
    (zeroes : Nat) {bytes : List UInt8}
    (numeral : IsNumeral 256 (bytes.map UInt8.toNat)) :
    ∃ digits, IsNumeral 58 digits ∧ value 58 digits = value 256 (bytes.map UInt8.toNat) ∧
      encodeBase58 (List.replicate zeroes 0 ++ bytes) =
        some (List.replicate zeroes '1' ++ characters digits) := by
  have room := @pow_le_pow_of_ratio 58 256 138 100 (by decide) (by decide +kernel) (by decide)
    (bytes.map UInt8.toNat).length
  obtain ⟨after, taken, isNumeral, same⟩ := takeIn_replicate_zero (by decide) numeral.below room
  refine ⟨stripped after, isNumeral, same, ?_⟩
  have first : bytes.head? ≠ some 0 := fun zero => numeral.leading (by rw [List.head?_map, zero]; rfl)
  obtain ⟨takes, drops⟩ := split_replicate zeroes first
  rw [encodeBase58, takes, drops]
  simp only [taken, (mapM_characters isNumeral.below).1, Option.bind_eq_bind, Option.bind_some,
    List.length_replicate]
  rfl

/-- Characters of the alphabet are taken into the buffer as their digits. -/
theorem decodeLoop_of_mapM
    (decoded : psz.mapM decodeChar = some digits)
    (b256 : List Nat) :
    decodeLoop b256 psz = (takeIn 256 58 b256 digits).map fun after => some (after, []) := by
  induction psz generalizing b256 digits with
  | nil =>
    cases decoded
    rfl
  | cons c psz ih =>
    rw [List.mapM_cons, Option.bind_eq_bind, Option.bind_eq_some_iff] at decoded
    obtain ⟨ch, found, more⟩ := decoded
    obtain ⟨others, rest, same⟩ := Option.bind_eq_some_iff.mp more
    cases same
    have noSpace := (decodeChar_spec found).2.2.2.1
    rw [decodeLoop, noSpace, if_neg Bool.false_ne_true, found, takeIn]
    dsimp only
    split_ifs
    · rfl
    · exact ih rest _

/-- Whatever the characters, the assertion can only fail for digits that do not fit. -/
theorem decodeLoop_ne_none (psz : List Char) :
    ∃ digits, digits.length ≤ psz.length ∧ (∀ digit ∈ digits, digit < 58) ∧
      ∀ b256, takeIn 256 58 b256 digits ≠ none → decodeLoop b256 psz ≠ none := by
  induction psz with
  | nil => exact ⟨[], le_refl _, by simp, fun _ _ => Option.some_ne_none _⟩
  | cons c psz ih =>
    by_cases space : isSpace c = true
    · refine ⟨[], Nat.zero_le _, by simp, fun b256 _ => ?_⟩
      rw [decodeLoop, if_pos space]
      exact Option.some_ne_none _
    · cases found : decodeChar c with
      | none =>
        refine ⟨[], Nat.zero_le _, by simp, fun b256 _ => ?_⟩
        rw [decodeLoop, if_neg space, found]
        exact Option.some_ne_none _
      | some ch =>
        obtain ⟨digits, short, below, passes⟩ := ih
        refine ⟨ch :: digits, Nat.succ_le_succ short,
          List.forall_mem_cons.mpr ⟨(decodeChar_spec found).1, below⟩, fun b256 => ?_⟩
        rw [decodeLoop, if_neg space, found, takeIn]
        dsimp only
        split_ifs
        · exact fun nothing => absurd rfl nothing
        · exact passes _

theorem decodeBase58_spec
    (zeroes : Nat) {digits : List Nat}
    (numeral : IsNumeral 58 digits) :
    ∃ bytes, IsNumeral 256 (bytes.map UInt8.toNat) ∧
      value 256 (bytes.map UInt8.toNat) = value 58 digits ∧
      decodeBase58 (List.replicate zeroes '1' ++ characters digits) =
        some (some (List.replicate zeroes 0 ++ bytes)) := by
  obtain ⟨-, decoded⟩ := mapM_characters numeral.below
  have size : (characters digits).length = digits.length := List.length_map _
  have room := @pow_le_pow_of_ratio 256 58 733 1000 (by decide) (by decide +kernel) (by decide)
    digits.length
  obtain ⟨after, taken, isNumeral, same⟩ := takeIn_replicate_zero (by decide) numeral.below room
  have bytes : ((stripped after).map UInt8.ofNat).map UInt8.toNat = stripped after := by
    rw [List.map_map]
    refine (List.map_congr_left fun digit member => ?_).trans (List.map_id _)
    have below := isNumeral.below digit member
    rw [Function.comp_apply, UInt8.toNat_ofNat', Nat.mod_eq_of_lt (by omega), id]
  have plain : ∀ c ∈ List.replicate zeroes '1' ++ characters digits,
      isSpace c = false ∧ c ≠ '\x00' := by
    intro c member
    obtain one | inside := List.mem_append.mp member
    · rw [List.eq_of_mem_replicate one]
      decide
    · obtain ⟨digit, found⟩ := exists_of_mapM decoded c inside
      exact (decodeChar_spec found).2.2.2
  have noEnd := List.takeWhile_eq_self_iff.mpr fun c member => decide_eq_true (plain c member).2
  have noSpace := List.dropWhile_eq_self_iff.mpr fun nonempty =>
    Bool.eq_false_iff.mp (plain _ (List.getElem_mem nonempty)).1
  have first : (characters digits).head? ≠ some '1' := by
    intro one
    cases digits with
    | nil => cases one
    | cons digit digits =>
      obtain ⟨c, here, back⟩ := decodeChar_getElem (numeral.below digit List.mem_cons_self)
      rw [characters, List.map_cons, List.head?_cons, List.getD, here, Option.getD_some,
        Option.some.injEq] at one
      exact numeral.leading (congrArg some ((decodeChar_spec back).2.2.1.mpr one))
  obtain ⟨takes, drops⟩ := split_replicate zeroes first
  refine ⟨(stripped after).map UInt8.ofNat, by rwa [bytes], by rw [bytes, same], ?_⟩
  rw [decodeBase58, noEnd, noSpace, takes, drops]
  simp [size, decodeLoop_of_mapM decoded, taken, -List.dropWhile_eq_nil_iff]

/-- Bytes and characters come as leading zeros and a numeral. -/
theorem exists_replicate_append
    {α : Type} [DecidableEq α] (element : α) (list : List α) :
    ∃ count rest, list = List.replicate count element ++ rest ∧ rest.head? ≠ some element := by
  induction list with
  | nil => exact ⟨0, [], rfl, (Option.some_ne_none element).symm⟩
  | cons first list ih =>
    by_cases same : first = element
    · obtain ⟨count, rest, rfl, different⟩ := ih
      exact ⟨count + 1, rest, by rw [same, List.replicate_succ, List.cons_append], different⟩
    · exact ⟨0, first :: list, rfl, fun here => same (Option.some.inj here)⟩

theorem exists_numeral_of_bytes (vch : List UInt8) :
    ∃ zeroes bytes, vch = List.replicate zeroes 0 ++ bytes ∧
      IsNumeral 256 (bytes.map UInt8.toNat) := by
  obtain ⟨zeroes, bytes, same, different⟩ := exists_replicate_append 0 vch
  refine ⟨zeroes, bytes, same, fun digit member => ?_, fun zero => ?_⟩
  · obtain ⟨byte, -, rfl⟩ := List.mem_map.mp member
    exact byte.toNat_lt
  · rw [List.head?_map, Option.map_eq_some_iff] at zero
    obtain ⟨byte, first, isZero⟩ := zero
    exact different (first.trans (congrArg some (UInt8.toNat_inj.mp isZero)))

theorem exists_numeral_of_alphabet
    (alphabet : ∀ c ∈ str, c ∈ pszBase58) :
    ∃ zeroes digits, str = List.replicate zeroes '1' ++ characters digits ∧
      IsNumeral 58 digits := by
  obtain ⟨zeroes, rest, rfl, different⟩ := exists_replicate_append '1' str
  have decoded : ∀ c ∈ rest, decodeChar c = some (pszBase58.idxOf c) := fun c member =>
    if_pos (alphabet c (List.mem_append_right _ member))
  refine ⟨zeroes, rest.map pszBase58.idxOf, ?_, fun digit member => ?_, fun zero => ?_⟩
  · rw [characters, List.map_map, List.append_cancel_left_eq]
    refine (List.map_id rest).symm.trans (List.map_congr_left fun c member => ?_)
    rw [Function.comp_apply, List.getD, (decodeChar_spec (decoded c member)).2.1]
    rfl
  · obtain ⟨c, inside, rfl⟩ := List.mem_map.mp member
    exact (decodeChar_spec (decoded c inside)).1
  · rw [List.head?_map, Option.map_eq_some_iff] at zero
    obtain ⟨c, first, isZero⟩ := zero
    have here := decoded c (List.mem_of_head? first)
    exact different (first.trans (congrArg some ((decodeChar_spec here).2.2.1.mp isZero)))

/-- Bytes are read back from what they are written as, strings of the alphabet are written back
from what they are read as, and the assertions never fail. -/
theorem base58_exact :
    (∀ vch, ∃ str, encodeBase58 vch = some str ∧ decodeBase58 str = some (some vch)) ∧
      (∀ str, (∀ c ∈ str, c ∈ pszBase58) →
        ∃ vch, decodeBase58 str = some (some vch) ∧ encodeBase58 vch = some str) ∧
      ∀ str, decodeBase58 str ≠ none := by
  refine ⟨fun vch => ?_, fun str alphabet => ?_, fun str => ?_⟩
  · obtain ⟨zeroes, bytes, rfl, numeral⟩ := exists_numeral_of_bytes vch
    obtain ⟨digits, isNumeral, same, written⟩ := encodeBase58_spec zeroes numeral
    obtain ⟨back, isBack, sameBack, read⟩ := decodeBase58_spec zeroes isNumeral
    have equal := isBack.eq_of_value (by decide) numeral (sameBack.trans same)
    rw [List.map_injective_iff.mpr (fun _ _ => UInt8.toNat_inj.mp) equal] at read
    exact ⟨_, written, read⟩
  · obtain ⟨zeroes, digits, rfl, numeral⟩ := exists_numeral_of_alphabet alphabet
    obtain ⟨bytes, isNumeral, same, read⟩ := decodeBase58_spec zeroes numeral
    obtain ⟨back, isBack, sameBack, written⟩ := encodeBase58_spec zeroes isNumeral
    rw [isBack.eq_of_value (by decide) numeral (sameBack.trans same)] at written
    exact ⟨_, read, written⟩
  · rw [decodeBase58]
    generalize ((str.takeWhile _).dropWhile isSpace).dropWhile (· == '1') = psz
    obtain ⟨digits, short, below, passes⟩ := decodeLoop_ne_none psz
    have room := @pow_le_pow_of_ratio 256 58 733 1000 (by decide) (by decide +kernel) (by decide)
      psz.length
    obtain ⟨after, taken, -⟩ := takeIn_replicate_zero (by decide) below
      ((Nat.pow_le_pow_right (by decide) short).trans room)
    obtain ⟨result, found⟩ := Option.ne_none_iff_exists'.mp
      (passes _ (taken ▸ Option.some_ne_none after))
    rw [found]
    rcases result with - | ⟨b256, left⟩
    · exact Option.some_ne_none _
    · simp only [Option.bind_eq_bind, Option.bind_some]
      split_ifs
      · exact Option.some_ne_none _
      · exact Option.some_ne_none _

end Base58
end ColossusCoin
