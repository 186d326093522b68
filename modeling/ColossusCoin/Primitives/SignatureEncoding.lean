import Mathlib.Data.List.Basic

/-!
# Strict signature encodings

`IsValidSignatureEncoding` looks for bytes at offsets that other bytes give.  What it accepts is
a sequence of two integers in their shortest form and a hash type, and it reads nothing outside
of the signature.
-/

namespace ColossusCoin
namespace SignatureEncoding

/-- The checks of R or of S, whose type stands at an index; `none` where they read outside of
the signature. -/
def checkElement (sig : List UInt8) (start len : Nat) : Option Bool :=
  sig[start]?.bind fun type =>
    if type ≠ 0x02 then some false
    else if len = 0 then some false
    else
      sig[start + 2]?.bind fun first =>
        if first &&& 0x80 ≠ 0 then some false
        else if 1 < len ∧ first = 0x00 then
          sig[start + 3]?.map fun second => decide (second &&& 0x80 ≠ 0)
        else some true

/-- `IsValidSignatureEncoding`, `none` where it reads outside of the signature. -/
def isValidSignatureEncoding (sig : List UInt8) : Option Bool :=
  if sig.length < 9 then some false
  else if 73 < sig.length then some false
  else
    sig[0]?.bind fun compound =>
      if compound ≠ 0x30 then some false
      else
        sig[1]?.bind fun total =>
          if total.toNat ≠ sig.length - 3 then some false
          else
            sig[3]?.bind fun lenR =>
              if sig.length ≤ 5 + lenR.toNat then some false
              else
                sig[5 + lenR.toNat]?.bind fun lenS =>
                  if lenR.toNat + lenS.toNat + 7 ≠ sig.length then some false
                  else
                    (checkElement sig 2 lenR.toNat).bind fun validR =>
                      if validR then checkElement sig (lenR.toNat + 4) lenS.toNat
                      else some false

/-- An integer that is not negative, in its shortest big-endian form. -/
def IsInteger : List UInt8 → Prop
  | [] => False
  | [first] => first < 0x80
  | first :: second :: _ => first < 0x80 ∧ (first = 0x00 → 0x80 ≤ second)

/-- The form 30 L 02 r R 02 s S h. -/
def IsStrict (sig : List UInt8) : Prop :=
  9 ≤ sig.length ∧ sig.length ≤ 73 ∧ ∃ total lenR lenS hashType r s,
    sig = 0x30 :: total :: 0x02 :: lenR :: (r ++ 0x02 :: lenS :: (s ++ [hashType])) ∧
      total.toNat + 3 = sig.length ∧ lenR.toNat = r.length ∧ lenS.toNat = s.length ∧
      IsInteger r ∧ IsInteger s

theorem and_128_eq_zero_iff (byte : UInt8) : byte &&& 0x80 = 0 ↔ byte < 0x80 := by
  obtain ⟨⟨byte⟩⟩ := byte
  revert byte
  decide +kernel

/-- An element that stands in the signature is read in it, and checked for its form. -/
theorem checkElement_eq
    (before bytes after : List UInt8)
    (type len : UInt8) :
    ∃ valid,
      checkElement (before ++ type :: len :: (bytes ++ after)) before.length bytes.length =
          some valid ∧
        (valid = true ↔ type = 0x02 ∧ IsInteger bytes) := by
  have type_at : (before ++ type :: len :: (bytes ++ after))[before.length]? = some type := by
    simp
  have byte_at : ∀ i (byte : UInt8), bytes[i]? = some byte →
      (before ++ type :: len :: (bytes ++ after))[before.length + (i + 2)]? = some byte := by
    intro i byte found
    have inside := (List.getElem?_eq_some_iff.mp found).1
    rw [List.getElem?_append_right (Nat.le_add_right _ _), Nat.add_sub_cancel_left]
    simpa [List.getElem?_append_left inside] using found
  rw [checkElement, type_at, Option.bind_some]
  by_cases typed : type = 0x02
  · rw [if_neg (not_not.mpr typed)]
    cases bytes with
    | nil => exact ⟨false, by simp, by simp [IsInteger]⟩
    | cons first rest =>
      rw [if_neg (by simp), byte_at 0 first rfl, Option.bind_some]
      cases rest with
      | nil =>
        refine ⟨decide (first &&& 0x80 = 0), ?_, ?_⟩
        · by_cases sign : first &&& 0x80 = 0 <;> simp [sign]
        · simp [IsInteger, typed, and_128_eq_zero_iff]
      | cons second rest =>
        rw [byte_at 1 second rfl]
        refine ⟨decide (first &&& 0x80 = 0 ∧ (first = 0x00 → second &&& 0x80 ≠ 0)), ?_, ?_⟩
        · by_cases sign : first &&& 0x80 = 0 <;> by_cases zero : first = 0x00 <;>
            simp [sign, zero]
        · simp only [IsInteger, typed, and_128_eq_zero_iff, UInt8.not_lt, ne_eq, decide_eq_true_eq,
            true_and]
  · exact ⟨false, if_pos typed, by simp [typed]⟩

theorem getElem?_byteS (compound total typeR byteR typeS byteS : UInt8) (r tail : List UInt8) :
    (compound :: total :: typeR :: byteR :: (r ++ typeS :: byteS :: tail))[5 + r.length]? =
      some byteS := by
  have place : 5 + r.length = r.length + 1 + 4 := by omega
  rw [place]
  simp

/-- A signature with lengths that add up to its own consists of its parts. -/
theorem exists_parts
    {sig : List UInt8} {lenR lenS : Nat}
    (sums : lenR + lenS + 7 = sig.length) :
    ∃ compound total typeR byteR typeS byteS hashType r s,
      sig = compound :: total :: typeR :: byteR :: (r ++ typeS :: byteS :: (s ++ [hashType])) ∧
        r.length = lenR ∧ s.length = lenS := by
  rcases sig with _ | ⟨compound, _ | ⟨total, _ | ⟨typeR, _ | ⟨byteR, rest⟩⟩⟩⟩
  case cons.cons.cons.cons =>
    simp only [List.length_cons] at sums
    have after : (rest.drop lenR).length = lenS + 3 := by
      rw [List.length_drop]
      omega
    rcases split : rest.drop lenR with _ | ⟨typeS, _ | ⟨byteS, tail⟩⟩
    case cons.cons =>
      rw [split, List.length_cons, List.length_cons] at after
      have nonempty : tail ≠ [] := by
        rintro rfl
        simp at after
      refine ⟨compound, total, typeR, byteR, typeS, byteS, tail.getLast nonempty, rest.take lenR,
        tail.dropLast, ?_, ?_, ?_⟩
      · rw [List.dropLast_append_getLast, ← split, List.take_append_drop]
      · rw [List.length_take]
        omega
      · rw [List.length_dropLast]
        omega
    all_goals simp [split] at after
  all_goals simp at sums

/-- Every read is inside of the signature, and what is accepted is exactly the strict form. -/
theorem isValidSignatureEncoding_spec (sig : List UInt8) :
    ∃ valid, isValidSignatureEncoding sig = some valid ∧ (valid = true ↔ IsStrict sig) := by
  have refuse : ¬ IsStrict sig →
      ∃ valid, some false = some valid ∧ (valid = true ↔ IsStrict sig) :=
    fun loose => ⟨false, rfl, by simp [loose]⟩
  have read : ∀ i < sig.length, ∃ byte, sig[i]? = some byte :=
    fun i inside => ⟨_, List.getElem?_eq_getElem inside⟩
  rw [isValidSignatureEncoding]
  by_cases short : sig.length < 9
  · rw [if_pos short]
    exact refuse fun strict => absurd strict.1 (by omega)
  by_cases long : 73 < sig.length
  · rw [if_neg short, if_pos long]
    exact refuse fun strict => absurd strict.2.1 (by omega)
  rw [if_neg short, if_neg long]
  obtain ⟨compound, at0⟩ := read 0 (by omega)
  obtain ⟨total, at1⟩ := read 1 (by omega)
  obtain ⟨lenR, at3⟩ := read 3 (by omega)
  rw [at0, at1, at3]
  simp only [Option.bind_some]
  split_ifs with compoundType totalSum inside
  · refine refuse ?_
    rintro ⟨-, -, _, _, _, _, _, _, rfl, -⟩
    simp at at0
    exact compoundType at0.symm
  · refine refuse ?_
    rintro ⟨-, -, _, _, _, _, _, _, rfl, sum, -⟩
    simp at at1
    subst at1
    omega
  · refine refuse ?_
    rintro ⟨-, -, _, _, _, _, r, s, rfl, -, length, -⟩
    simp at at3 inside
    subst at3
    omega
  obtain ⟨lenS, at5⟩ := read (5 + lenR.toNat) (by omega)
  rw [at5, Option.bind_some]
  split_ifs with sums
  · refine refuse ?_
    rintro ⟨-, -, _, _, _, _, r, s, rfl, -, lengthR, lengthS, -⟩
    simp only [List.getElem?_cons_succ, List.getElem?_cons_zero, Option.some.injEq] at at3
    subst at3
    rw [lengthR, getElem?_byteS, Option.some.injEq] at at5
    subst at5
    simp at sums
    omega
  obtain ⟨compound', total', typeR, byteR, typeS, byteS, hashType, r, s, rfl, lengthR, lengthS⟩ :=
    exists_parts (not_not.mp sums)
  simp only [List.getElem?_cons_succ, List.getElem?_cons_zero, Option.some.injEq] at at0 at1 at3
  subst at0 at1 at3
  rw [← lengthR, getElem?_byteS, Option.some.injEq] at at5
  subst at5
  rw [not_not] at compoundType totalSum
  subst compoundType
  obtain ⟨validR, checkedR, isR⟩ := checkElement_eq [0x30, total'] r
    (typeS :: byteS :: (s ++ [hashType])) typeR byteR
  obtain ⟨validS, checkedS, isS⟩ := checkElement_eq (0x30 :: total' :: typeR :: byteR :: r) s
    [hashType] typeS byteS
  simp only [List.cons_append, List.nil_append, List.length_cons, List.length_nil, Nat.reduceAdd]
    at checkedR checkedS
  have strict : IsStrict (0x30 :: total' :: typeR :: byteR ::
      (r ++ typeS :: byteS :: (s ++ [hashType]))) ↔ validR = true ∧ validS = true := by
    rw [isR, isS]
    constructor
    · rintro ⟨-, -, _, _, _, _, r', s', same, -, lengthR', lengthS', integerR, integerS⟩
      simp only [List.cons.injEq, true_and] at same
      obtain ⟨-, rfl, rfl, same⟩ := same
      obtain ⟨rfl, tails⟩ := List.append_inj same (by omega)
      simp only [List.cons.injEq] at tails
      obtain ⟨rfl, rfl, tails⟩ := tails
      obtain ⟨rfl, -⟩ := List.append_inj tails (by omega)
      exact ⟨⟨rfl, integerR⟩, rfl, integerS⟩
    · rintro ⟨⟨rfl, integerR⟩, rfl, integerS⟩
      exact ⟨by omega, by omega, _, _, _, _, r, s, rfl, by omega, lengthR.symm, lengthS.symm,
        integerR, integerS⟩
  rw [strict, ← lengthR, ← lengthS, checkedR, Option.bind_some, checkedS]
  cases validR with
  | false => exact ⟨false, rfl, by simp⟩
  | true => exact ⟨validS, rfl, by simp⟩

end SignatureEncoding
end ColossusCoin
