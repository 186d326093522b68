import ColossusCoin.Library.MultiWord
import ColossusCoin.Pow
import Mathlib.Data.Nat.Bitwise

/-!
# The work of a block

`GetBlockProof` on the eight words of a `uint256`.  The identity with the complement and the
division by shifting and subtracting give the quotient of 2 ** 256, which has no place in a
`uint256`, for every compact encoding.
-/

namespace ColossusCoin

open MultiWord

/-! ## Compact encodings -/

/-- The size of the number that a compact encoding stands for, without its sign and however
large. -/
def compactMagnitude (nCompact : Nat) : Nat :=
  let exponent := nCompact / 2 ^ 24
  let mantissa := nCompact % 2 ^ 23
  if exponent ≤ 3 then mantissa / 256 ^ (3 - exponent) else mantissa * 256 ^ (exponent - 3)

/-- The number that a compact encoding stands for. -/
def compactNumber (nCompact : Nat) : Int :=
  if nCompact / 2 ^ 23 % 2 = 1 then -(compactMagnitude nCompact : Int)
  else compactMagnitude nCompact

/-- The mantissa as `SetCompact` moves it down. -/
def shortMantissa (nCompact : Nat) : Nat :=
  if nCompact / 2 ^ 24 ≤ 3 then nCompact % 2 ^ 23 / 256 ^ (3 - nCompact / 2 ^ 24)
  else nCompact % 2 ^ 23

theorem shortMantissa_lt (nCompact : Nat) : shortMantissa nCompact < 2 ^ 23 := by
  have small := Nat.mod_lt nCompact (Nat.two_pow_pos 23)
  unfold shortMantissa
  split_ifs
  · exact Nat.lt_of_le_of_lt (Nat.div_le_self _ _) small
  · exact small

theorem compactMagnitude_eq (nCompact : Nat) :
    compactMagnitude nCompact = shortMantissa nCompact * 256 ^ (nCompact / 2 ^ 24 - 3) := by
  unfold compactMagnitude shortMantissa
  dsimp only
  split_ifs with short
  · rw [Nat.sub_eq_zero_of_le short, Nat.pow_zero, Nat.mul_one]
  · rfl

theorem setCompact_parts (nCompact : Nat) :
    setCompact nCompact =
      (compactMagnitude nCompact % 2 ^ 256,
        shortMantissa nCompact != 0 && nCompact &&& 0x00800000 != 0,
        shortMantissa nCompact != 0 &&
          (34 < nCompact / 2 ^ 24 || (0xff < shortMantissa nCompact && 33 < nCompact / 2 ^ 24) ||
            (0xffff < shortMantissa nCompact && 32 < nCompact / 2 ^ 24))) := by
  have mask : 0x007fffff = 2 ^ 23 - 1 := rfl
  have power : ∀ bytes, (2 : Nat) ^ (8 * bytes) = 256 ^ bytes := fun bytes => Nat.pow_mul 2 8 bytes
  have bounded := shortMantissa_lt nCompact
  unfold setCompact
  rw [compactMagnitude_eq, mask, Nat.and_two_pow_sub_one_eq_mod, Nat.shiftRight_eq_div_pow _ 24]
  dsimp only
  rw [Nat.shiftRight_eq_div_pow, Nat.shiftLeft_eq, power, power]
  unfold shortMantissa at bounded ⊢
  split_ifs with short
  · rw [if_pos short] at bounded
    have fits : nCompact % 2 ^ 23 / 256 ^ (3 - nCompact / 2 ^ 24) % 2 ^ 256 = _ :=
      Nat.mod_eq_of_lt (Nat.lt_trans bounded (by decide))
    rw [Nat.sub_eq_zero_of_le short, Nat.pow_zero, Nat.mul_one, fits]
  · rfl

/-- The overflow flag says that the number has no place in 256 bits. -/
theorem setCompact_overflow (nCompact : Nat) :
    (setCompact nCompact).2.2 = decide (2 ^ 256 ≤ compactMagnitude nCompact) := by
  have bounded := shortMantissa_lt nCompact
  rw [setCompact_parts, compactMagnitude_eq, Bool.eq_iff_iff]
  simp only [Bool.and_eq_true, Bool.or_eq_true, bne_iff_ne, decide_eq_true_eq]
  generalize shortMantissa nCompact = word at bounded ⊢
  generalize nCompact / 2 ^ 24 = size
  rcases Nat.lt_trichotomy size 33 with below | rfl | above
  · have power : 256 ^ (size - 3) ≤ 256 ^ 29 := Nat.pow_le_pow_right (by decide) (by omega)
    have product := Nat.mul_le_mul (Nat.le_of_lt bounded) power
    omega
  · omega
  · rcases Nat.lt_trichotomy size 34 with below | rfl | above
    · omega
    · omega
    · have power : 256 ^ 32 ≤ 256 ^ (size - 3) := Nat.pow_le_pow_right (by decide) (by omega)
      have product : word ≠ 0 → 256 ^ 32 ≤ word * 256 ^ (size - 3) := fun some =>
        power.trans (Nat.le_mul_of_pos_left _ (Nat.pos_of_ne_zero some))
      rcases Nat.eq_zero_or_pos word with rfl | positive
      · omega
      · have product := product (by omega)
        omega

/-- A number that has a place in 256 bits leaves the lowest ones clear there. -/
theorem compactMagnitude_succ_lt
    (fits : compactMagnitude nCompact < 2 ^ 256) :
    compactMagnitude nCompact + 1 < 2 ^ 256 := by
  have bounded := shortMantissa_lt nCompact
  rw [compactMagnitude_eq] at fits ⊢
  rcases Nat.eq_zero_or_pos (nCompact / 2 ^ 24 - 3) with short | long
  · rw [short, Nat.pow_zero, Nat.mul_one]
    exact Nat.lt_trans (Nat.succ_lt_succ bounded) (by decide)
  · obtain ⟨bytes, size⟩ := Nat.exists_eq_succ_of_ne_zero (Nat.ne_of_gt long)
    have product : shortMantissa nCompact * 256 ^ (bytes + 1) =
        shortMantissa nCompact * 256 ^ bytes * 256 := by rw [Nat.pow_succ, Nat.mul_assoc]
    rw [size, Nat.succ_eq_add_one, product] at fits ⊢
    have limit : (2 : Nat) ^ 256 = 2 ^ 248 * 256 := by norm_num
    rw [limit] at fits ⊢
    have below : shortMantissa nCompact * 256 ^ bytes + 1 ≤ 2 ^ 248 :=
      Nat.lt_of_mul_lt_mul_right fits
    calc shortMantissa nCompact * 256 ^ bytes * 256 + 1
        < (shortMantissa nCompact * 256 ^ bytes + 1) * 256 := by
          rw [Nat.succ_mul]
          exact Nat.add_lt_add_left (by decide) _
      _ ≤ 2 ^ 248 * 256 := Nat.mul_le_mul_right _ below

theorem setCompact_negative (nCompact : Nat) :
    (setCompact nCompact).2.1 =
      decide (nCompact / 2 ^ 23 % 2 = 1 ∧ compactMagnitude nCompact ≠ 0) := by
  have sign : nCompact &&& 0x00800000 = nCompact / 2 ^ 23 % 2 * 2 ^ 23 := by
    have power : 0x00800000 = 2 ^ 23 := rfl
    rw [power, Nat.and_two_pow, Nat.toNat_testBit]
  have power : 0 < 256 ^ (nCompact / 2 ^ 24 - 3) := Nat.pow_pos (by decide)
  rw [setCompact_parts, compactMagnitude_eq, Bool.eq_iff_iff, sign]
  simp only [Bool.and_eq_true, bne_iff_ne, decide_eq_true_eq, ne_eq, Nat.mul_eq_zero]
  omega

theorem setCompact_eq_flags (nCompact : Nat) :
    setCompact nCompact =
      (compactMagnitude nCompact % 2 ^ 256,
        decide (nCompact / 2 ^ 23 % 2 = 1 ∧ compactMagnitude nCompact ≠ 0),
        decide (2 ^ 256 ≤ compactMagnitude nCompact)) := by
  rw [← setCompact_negative, ← setCompact_overflow, setCompact_parts]

/-- `GetBlockProof` is the quotient over the unbounded integers: the number is neither negative
nor zero nor too large for 256 bits, or the result is zero. -/
theorem getBlockProof_eq_quotient (nBits : Nat) :
    (getBlockProof nBits : Int) =
      if 0 < compactNumber nBits ∧ compactNumber nBits < 2 ^ 256 then
        2 ^ 256 / (compactNumber nBits + 1)
      else 0 := by
  have positive : 0 < compactNumber nBits ∧ compactNumber nBits < 2 ^ 256 ↔
      ¬ (nBits / 2 ^ 23 % 2 = 1 ∧ compactMagnitude nBits ≠ 0) ∧
        ¬ 2 ^ 256 ≤ compactMagnitude nBits ∧ compactMagnitude nBits ≠ 0 := by
    unfold compactNumber
    split_ifs with signed
    · omega
    · omega
  rw [getBlockProof, setCompact_eq_flags]
  dsimp only
  by_cases valid : 0 < compactNumber nBits ∧ compactNumber nBits < 2 ^ 256
  · obtain ⟨unsigned, fits, some⟩ := positive.mp valid
    have same : compactNumber nBits = compactMagnitude nBits := by
      exact if_neg fun signed => unsigned ⟨signed, some⟩
    have target : compactMagnitude nBits % 2 ^ 256 = compactMagnitude nBits :=
      Nat.mod_eq_of_lt (Nat.not_le.mp fits)
    have work : (2 ^ 256 - 1 - compactMagnitude nBits) / (compactMagnitude nBits + 1) + 1 =
        2 ^ 256 / (compactMagnitude nBits + 1) := by
      rw [← Nat.add_div_right _ (Nat.succ_pos (compactMagnitude nBits))]
      congr 1
      omega
    have notZero : (compactMagnitude nBits == 0) = false := beq_eq_false_iff_ne.mpr some
    rw [if_pos valid, decide_eq_false unsigned, decide_eq_false fits, same, target, notZero,
      Bool.or_self, Bool.or_self, if_neg Bool.false_ne_true, work]
    rfl
  · rw [if_neg valid]
    have invalid : (nBits / 2 ^ 23 % 2 = 1 ∧ compactMagnitude nBits ≠ 0) ∨
        2 ^ 256 ≤ compactMagnitude nBits ∨ compactMagnitude nBits = 0 := by
      omega
    rcases invalid with negative | large | zero
    · rw [decide_eq_true negative, Bool.true_or, Bool.true_or, if_pos rfl]
      rfl
    · rw [decide_eq_true large, Bool.or_true, Bool.true_or, if_pos rfl]
      rfl
    · rw [zero, Nat.zero_mod, beq_self_eq_true, Bool.or_true, if_pos rfl]
      rfl

namespace BaseUint

/-- The number of words of a `uint256`. -/
def width : Nat := 8

/-- The conversion from an `uint64_t`. -/
def ofUint64 (b : BitVec 64) : List (BitVec 32) :=
  b.setWidth 32 :: (b >>> 32).setWidth 32 :: List.replicate (width - 2) 0

def equalTo : List (BitVec 32) → BitVec 64 → Bool
  | low :: high :: rest, b =>
    rest.all (· == 0) && high == (b >>> 32).setWidth 32 && low == b.setWidth 32
  | _, _ => false

def setCompact (nCompact : BitVec 32) : List (BitVec 32) × Bool × Bool :=
  let nSize := (nCompact >>> 24).toNat
  let nWord := nCompact &&& 0x007fffff
  let nWord := if nSize ≤ 3 then nWord >>> (8 * (3 - nSize)) else nWord
  (if nSize ≤ 3 then ofUint64 (nWord.setWidth 64)
    else shiftLeft (8 * (nSize - 3)) (ofUint64 (nWord.setWidth 64)),
    nWord != 0 && nCompact &&& 0x00800000 != 0,
    nWord != 0 &&
      (34 < nSize || (0xff < nWord && 33 < nSize) || (0xffff < nWord && 32 < nSize)))

/-- `GetBlockProof` of an entry with these bits, which fails where the division would. -/
def getBlockProof (nBits : BitVec 32) : Option (List (BitVec 32)) :=
  match setCompact nBits with
  | (bnTarget, fNegative, fOverflow) =>
    if fNegative || fOverflow || equalTo bnTarget 0 then some (ofUint64 0)
    else
      (divide (MultiWord.complement bnTarget) (add bnTarget (ofUint64 1))).map fun quotient =>
        add quotient (ofUint64 1)

@[simp] theorem length_ofUint64 (b : BitVec 64) : (ofUint64 b).length = width := rfl

theorem value_ofUint64 (b : BitVec 64) : value (ofUint64 b) = b.toNat := by
  have rest : value (List.replicate (width - 2) (0 : BitVec 32)) = 0 := value_zeros _
  rw [ofUint64, value, value, rest, BitVec.toNat_setWidth, BitVec.toNat_setWidth,
    BitVec.toNat_ushiftRight, Nat.shiftRight_eq_div_pow]
  omega

theorem equalTo_zero_iff
    (eight : words.length = width) :
    equalTo words 0 = true ↔ value words = 0 := by
  have zero : ∀ rest : List (BitVec 32), rest.all (· == 0) = true ↔ value rest = 0 := by
    intro rest
    induction rest with
    | nil => exact ⟨fun _ => rfl, fun _ => rfl⟩
    | cons word rest ih =>
      have word_zero : word = 0 ↔ word.toNat = 0 := BitVec.toNat_eq
      rw [List.all_cons, Bool.and_eq_true, ih, beq_iff_eq, word_zero, value]
      omega
  obtain ⟨low, others, rfl⟩ := List.exists_cons_of_length_eq_add_one eight
  obtain ⟨high, rest, rfl⟩ := List.exists_cons_of_length_eq_add_one (Nat.succ.inj eight)
  have low_zero : low = 0 ↔ low.toNat = 0 := BitVec.toNat_eq
  have high_zero : high = 0 ↔ high.toNat = 0 := BitVec.toNat_eq
  have lowPart : (0 : BitVec 64).setWidth 32 = 0 := rfl
  have highPart : ((0 : BitVec 64) >>> 32).setWidth 32 = 0 := rfl
  rw [equalTo, Bool.and_eq_true, Bool.and_eq_true, zero, beq_iff_eq, beq_iff_eq, lowPart,
    highPart, low_zero, high_zero, value, value]
  omega

theorem ne_zero_iff (word : BitVec 32) : (word != 0) = (word.toNat != 0) := by
  have zero : word = 0 ↔ word.toNat = 0 := BitVec.toNat_eq
  rw [Bool.eq_iff_iff, bne_iff_ne, bne_iff_ne, ne_eq, ne_eq, zero]

/-- The mantissa of a compact encoding, moved down where the number is short. -/
theorem toNat_mantissa (nCompact : BitVec 32) :
    (if (nCompact >>> 24).toNat ≤ 3 then
        (nCompact &&& 0x007fffff) >>> (8 * (3 - (nCompact >>> 24).toNat))
      else nCompact &&& 0x007fffff).toNat =
      if nCompact.toNat >>> 24 ≤ 3 then
        (nCompact.toNat &&& 0x007fffff) >>> (8 * (3 - nCompact.toNat >>> 24))
      else nCompact.toNat &&& 0x007fffff := by
  rw [BitVec.toNat_ushiftRight]
  split_ifs
  · rw [BitVec.toNat_ushiftRight, BitVec.toNat_and]
    rfl
  · rw [BitVec.toNat_and]
    rfl

theorem setCompact_eq (nCompact : BitVec 32) :
    (setCompact nCompact).1.length = width ∧
      value (setCompact nCompact).1 = (ColossusCoin.setCompact nCompact.toNat).1 ∧
      (setCompact nCompact).2 = (ColossusCoin.setCompact nCompact.toNat).2 := by
  have mantissa := toNat_mantissa nCompact
  have exponent : (nCompact >>> 24).toNat = nCompact.toNat >>> 24 := BitVec.toNat_ushiftRight ..
  have sign : (nCompact &&& 0x00800000).toNat = nCompact.toNat &&& 0x00800000 := BitVec.toNat_and ..
  unfold setCompact ColossusCoin.setCompact
  dsimp only
  generalize (if (nCompact >>> 24).toNat ≤ 3 then
        (nCompact &&& 0x007fffff) >>> (8 * (3 - (nCompact >>> 24).toNat))
      else nCompact &&& 0x007fffff) = nWord at mantissa
  rw [← mantissa, exponent]
  have wide : (nWord.setWidth 64).toNat = nWord.toNat := BitVec.toNat_setWidth_of_le (by decide)
  refine ⟨?_, ?_, ?_⟩
  · split_ifs
    · rfl
    · exact length_shiftLeft _ _
  · split_ifs
    · rw [value_ofUint64, wide]
    · rw [value_shiftLeft (by decide), value_ofUint64, wide, Nat.shiftLeft_eq]
      rfl
  · rw [ne_zero_iff, ne_zero_iff, sign]
    rfl

/-- The words that `GetBlockProof` computes hold the number of the model on numbers. -/
theorem getBlockProof_eq (nBits : BitVec 32) :
    ∃ proof, getBlockProof nBits = some proof ∧ proof.length = width ∧
      value proof = ColossusCoin.getBlockProof nBits.toNat := by
  obtain ⟨eight, number, flags⟩ := setCompact_eq nBits
  have one : value (ofUint64 1) = 1 := value_ofUint64 1
  rw [getBlockProof, ColossusCoin.getBlockProof]
  rw [setCompact_eq_flags] at number flags ⊢
  generalize setCompact nBits = read at eight number flags ⊢
  obtain ⟨bnTarget, fNegative, fOverflow⟩ := read
  obtain ⟨rfl, rfl⟩ := Prod.mk.inj flags
  dsimp only at eight number ⊢
  have zero : (compactMagnitude nBits.toNat % 2 ^ 256 == 0) = equalTo bnTarget 0 := by
    rw [Bool.eq_iff_iff, equalTo_zero_iff eight, number, beq_iff_eq]
  rw [zero]
  split_ifs with none
  · exact ⟨_, rfl, rfl, value_ofUint64 0⟩
  · have small : value bnTarget + 1 < 2 ^ 256 := by
      rw [number]
      by_cases fits : compactMagnitude nBits.toNat < 2 ^ 256
      · rw [Nat.mod_eq_of_lt fits]
        exact compactMagnitude_succ_lt fits
      · rw [decide_eq_true (Nat.not_lt.mp fits), Bool.or_true, Bool.true_or] at none
        exact absurd rfl none
    have next : value (add bnTarget (ofUint64 1)) = value bnTarget + 1 := by
      rw [add, value_addCarry 0 eight, eight, one, Nat.zero_add]
      exact Nat.mod_eq_of_lt small
    have nextLength : (add bnTarget (ofUint64 1)).length = width := by
      rw [add, length_addCarry 0 eight, eight]
    obtain ⟨quotient, divided, length, result⟩ := value_divide (by decide)
      ((length_complement bnTarget).trans (eight.trans nextLength.symm))
      (by rw [next]; exact Nat.succ_pos _)
    rw [length_complement, eight] at length
    rw [value_complement, eight, next] at result
    rw [divided, Option.map_some]
    refine ⟨_, rfl, by rw [add, length_addCarry 0 length, length], ?_⟩
    have limit : MultiWord.limit 32 width = 2 ^ 256 := rfl
    have some : 0 < value bnTarget := by
      refine Nat.pos_of_ne_zero fun zero => none ?_
      rw [(equalTo_zero_iff eight).mpr zero, Bool.or_true]
    have bounded : value quotient + 1 < 2 ^ 256 := by
      have half : value quotient ≤ (2 ^ 256 - 1 - value bnTarget) / 2 := by
        rw [result, limit]
        exact Nat.div_le_div_left (by omega) Nat.two_pos
      omega
    rw [add, value_addCarry 0 length, length, limit, one, Nat.zero_add, Nat.mod_eq_of_lt bounded,
      result, limit, number]

/-- For every compact encoding: the division does not fail, the words hold the quotient of 2 ** 256
by the successor of the target over the unbounded integers, or zero where the encoding is negative,
zero or too large; and a larger target has no more work. -/
theorem blockProof_exact (nBits : BitVec 32) :
    (∃ proof, getBlockProof nBits = some proof ∧ proof.length = width ∧
      (value proof : Int) =
        if 0 < compactNumber nBits.toNat ∧ compactNumber nBits.toNat < 2 ^ 256 then
          2 ^ 256 / (compactNumber nBits.toNat + 1)
        else 0) ∧
    ∀ easier : BitVec 32,
      0 < compactNumber nBits.toNat →
      compactNumber nBits.toNat ≤ compactNumber easier.toNat →
      ∃ proof less, getBlockProof nBits = some proof ∧ getBlockProof easier = some less ∧
        value less ≤ value proof := by
  obtain ⟨proof, computed, length, work⟩ := getBlockProof_eq nBits
  have exact := getBlockProof_eq_quotient nBits.toNat
  refine ⟨⟨proof, computed, length, by rw [work, exact]⟩, ?_⟩
  intro easier positive larger
  obtain ⟨less, computedEasier, _, lessWork⟩ := getBlockProof_eq easier
  have exactEasier := getBlockProof_eq_quotient easier.toNat
  refine ⟨proof, less, computed, computedEasier, ?_⟩
  rw [work, lessWork, ← Int.ofNat_le, exact, exactEasier]
  split_ifs with fitsEasier fits fits
  · refine Int.le_ediv_of_mul_le (by omega) ?_
    have nonneg : 0 ≤ 2 ^ 256 / (compactNumber easier.toNat + 1) :=
      Int.ediv_nonneg (by decide) (by omega)
    calc 2 ^ 256 / (compactNumber easier.toNat + 1) * (compactNumber nBits.toNat + 1)
        ≤ 2 ^ 256 / (compactNumber easier.toNat + 1) * (compactNumber easier.toNat + 1) :=
          Int.mul_le_mul_of_nonneg_left (by omega) nonneg
      _ ≤ 2 ^ 256 := Int.ediv_mul_le _ (by omega)
  · exact absurd ⟨positive, Int.lt_of_le_of_lt larger fitsEasier.2⟩ fits
  · exact Int.ediv_nonneg (by decide) (by omega)
  · exact le_refl _

/-- The work at the first target of the chain, and at an easier one. -/
theorem blockProof_exact_genesis :
    (∃ proof, getBlockProof 0x1e0ffff0 = some proof ∧ proof.length = width ∧
      (value proof : Int) = 2 ^ 256 / (0x0ffff0 * 256 ^ 27 + 1)) ∧
    ∃ proof less, getBlockProof 0x1e0ffff0 = some proof ∧ getBlockProof 0x207fffff = some less ∧
      value less ≤ value proof := by
  have exact := blockProof_exact 0x1e0ffff0
  exact ⟨exact.1, exact.2 0x207fffff (by decide) (by decide)⟩

end BaseUint

end ColossusCoin
