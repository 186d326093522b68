import ColossusCoin.Chain.BlockProof
import ColossusCoin.Chain.Retarget
import ColossusCoin.Primitives.BaseUint

/-!
# Compact targets

`SetCompact` and `GetCompact` on the words of a `uint256`: what the encoding keeps of a number, that
it keeps the order, and what the two flags say.
-/

namespace ColossusCoin

open LeadingBits

namespace Words256

/-- The conversion from an `uint64_t`. -/
def ofUint64 (b : BitVec 64) : Words256 :=
  ⟨#v[b.setWidth 32, (b >>> 32).setWidth 32, 0, 0, 0, 0, 0, 0]⟩

def getLow64 (a : Words256) : BitVec 64 :=
  (a.pn[0]).setWidth 64 ||| (a.pn[1]).setWidth 64 <<< 32

/-- `SetCompact`: the number, the sign and the overflow. -/
def setCompact (nCompact : BitVec 32) : Words256 × Bool × Bool :=
  let nSize := (nCompact >>> 24).toNat
  let nWord := nCompact &&& 0x007fffff
  let nWord := if nSize ≤ 3 then nWord >>> (8 * (3 - nSize)) else nWord
  (if nSize ≤ 3 then ofUint64 (nWord.setWidth 64)
    else BaseUint.shlAssign (ofUint64 (nWord.setWidth 64)) (8 * (nSize - 3)),
    nWord != 0 && nCompact &&& 0x00800000 != 0,
    nWord != 0 &&
      (34 < nSize || (0xff < nWord && 33 < nSize) || (0xffff < nWord && 32 < nSize)))

/-- The end of `GetCompact`: the assertions, the exponent and the sign. -/
def packCompact (nCompact : BitVec 32) (nSize : Nat) (fNegative : Bool) : Option (BitVec 32) :=
  if nCompact &&& ~~~0x007fffff != 0 then none
  else if 256 ≤ nSize then none
  else
    let nCompact := nCompact ||| BitVec.ofNat 32 nSize <<< 24
    some (nCompact |||
      if fNegative && nCompact &&& 0x007fffff != 0 then 0x00800000 else 0)

/-- `GetCompact`, which fails where one of its assertions does. -/
def getCompact (a : Words256) (fNegative : Bool) : Option (BitVec 32) :=
  let nSize := (BaseUint.bits a + 7) / 8
  let nCompact : BitVec 32 :=
    if nSize ≤ 3 then (getLow64 a <<< (8 * (3 - nSize))).setWidth 32
    else (getLow64 (BaseUint.shrAssign a (8 * (nSize - 3)))).setWidth 32
  -- a mantissa with the bit of the sign loses its last byte
  if nCompact &&& 0x00800000 != 0 then packCompact (nCompact >>> 8) (nSize + 1) fNegative
  else packCompact nCompact nSize fNegative

theorem toNat_ofUint64 (b : BitVec 64) : (ofUint64 b).toNat = b.toNat :=
  BaseUint.value_ofUint64 b

theorem toNat_getLow64 (a : Words256) : (getLow64 a).toNat = a.toNat % 2 ^ 64 := by
  have first := (a.pn[0]).isLt
  have two : BaseUint.low a.pn 2 = (a.pn[0]).toNat + 2 ^ 32 * (a.pn[1]).toNat := by
    rw [BaseUint.low_succ a.pn (by decide : 1 < 8), BaseUint.low_succ a.pn (by decide : 0 < 8),
      BaseUint.low_zero]
    omega
  have high : ((a.pn[1]).setWidth 64 <<< 32).toNat = 2 ^ 32 * (a.pn[1]).toNat := by
    rw [BitVec.toNat_shiftLeft, BitVec.toNat_setWidth_of_le (by decide), Nat.shiftLeft_eq,
      Nat.mod_eq_of_lt (by omega), Nat.mul_comm]
  have whole := BaseUint.low_eq_mod a 2
  rw [two] at whole
  rw [getLow64, BitVec.toNat_or, high, BitVec.toNat_setWidth_of_le (by decide), Nat.or_comm,
    ← Nat.two_pow_add_eq_or_of_lt first, Nat.add_comm]
  exact whole

theorem setCompact_eq_words (nCompact : BitVec 32) :
    (setCompact nCompact).1.pn.toList = (BaseUint.setCompact nCompact).1 ∧
      (setCompact nCompact).2 = (BaseUint.setCompact nCompact).2 := by
  refine ⟨?_, rfl⟩
  unfold setCompact BaseUint.setCompact
  dsimp only
  split_ifs
  · rfl
  · rw [BaseUint.toList_shlAssign]
    rfl

theorem setCompact_eq_number (nCompact : BitVec 32) :
    (setCompact nCompact).1.toNat = (ColossusCoin.setCompact nCompact.toNat).1 ∧
      (setCompact nCompact).2 = (ColossusCoin.setCompact nCompact.toNat).2 := by
  obtain ⟨words, flags⟩ := setCompact_eq_words nCompact
  obtain ⟨_, number, sameFlags⟩ := BaseUint.setCompact_eq nCompact
  rw [BaseUint.toNat, words, number, flags, sameFlags]
  exact ⟨rfl, rfl⟩

theorem and_sign_ne_zero_iff
    {raw : BitVec 32}
    (small : raw.toNat < 2 ^ 24) :
    (raw &&& 0x00800000 != 0) = decide (2 ^ 23 ≤ raw.toNat) := by
  have sign : (raw &&& 0x00800000).toNat = raw.toNat / 2 ^ 23 % 2 * 2 ^ 23 := by
    have power : (0x00800000 : BitVec 32).toNat = 2 ^ 23 := rfl
    rw [BitVec.toNat_and, power, Nat.and_two_pow, Nat.toNat_testBit]
  rw [BaseUint.ne_zero_iff, sign, Bool.eq_iff_iff, bne_iff_ne, decide_eq_true_eq]
  omega

/-- A mantissa without the bit of the sign passes the assertion, and gets the exponent above. -/
theorem packCompact_eq
    (small : nCompact.toNat < 2 ^ 23)
    (short : nSize < 256) :
    ∃ packed, packCompact nCompact nSize false = some packed ∧
      packed.toNat = nCompact.toNat + nSize * 2 ^ 24 := by
  have mask : (0x007fffff : BitVec 32).toNat = 2 ^ 23 - 1 := rfl
  have masked : nCompact &&& 0x007fffff = nCompact := by
    refine BitVec.eq_of_toNat_eq ?_
    rw [BitVec.toNat_and, mask, Nat.and_two_pow_sub_one_eq_mod, Nat.mod_eq_of_lt small]
  have asserted : nCompact &&& ~~~0x007fffff = 0#32 := by
    rw [← masked, BitVec.and_assoc, BitVec.and_not_self]
    exact BitVec.and_zero
  have high : (BitVec.ofNat 32 nSize <<< 24).toNat = 2 ^ 24 * nSize := by
    rw [BitVec.toNat_shiftLeft, BitVec.toNat_ofNat, Nat.shiftLeft_eq]
    omega
  refine ⟨nCompact ||| BitVec.ofNat 32 nSize <<< 24, ?_, ?_⟩
  · rw [packCompact, asserted, BitVec.ofNat_eq_ofNat, bne_self_eq_false,
      if_neg Bool.false_ne_true, if_neg (Nat.not_le.mpr short)]
    dsimp only
    rw [Bool.false_and, if_neg Bool.false_ne_true, BitVec.or_zero]
  · rw [BitVec.toNat_or, high, Nat.or_comm, ← Nat.two_pow_add_eq_or_of_lt (by omega),
      Nat.add_comm, Nat.mul_comm]

theorem getCompact_eq_number (a : Words256) :
    ∃ nCompact, getCompact a false = some nCompact ∧
      nCompact.toNat = ColossusCoin.getCompact a.toNat := by
  have bounded : Nat.size a.toNat ≤ 256 := Nat.size_le.mpr (BaseUint.toNat_lt a)
  rw [getCompact, BaseUint.bits_eq_size, getCompact_eq_leadingBytes]
  have small : leadingBytes a.toNat ((Nat.size a.toNat + 7) / 8) < 2 ^ 24 :=
    leadingBytes_lt (by omega)
  have read : (if (Nat.size a.toNat + 7) / 8 ≤ 3 then
        (getLow64 a <<< (8 * (3 - (Nat.size a.toNat + 7) / 8))).setWidth 32
      else (getLow64 (BaseUint.shrAssign a (8 * ((Nat.size a.toNat + 7) / 8 - 3)))).setWidth
        32 : BitVec 32).toNat = leadingBytes a.toNat ((Nat.size a.toNat + 7) / 8) := by
    unfold leadingBytes at small ⊢
    split_ifs at small ⊢ with short
    · have shifted : a.toNat % 2 ^ 64 * 2 ^ (8 * (3 - (Nat.size a.toNat + 7) / 8)) % 2 ^ 64 %
          2 ^ 32 = a.toNat * 2 ^ (8 * (3 - (Nat.size a.toNat + 7) / 8)) := by
        rw [Nat.mod_mul_mod, Nat.mod_mod_of_dvd _ (by decide : 2 ^ 32 ∣ 2 ^ 64),
          Nat.mod_eq_of_lt (Nat.lt_trans small (by decide))]
      rw [BitVec.toNat_setWidth, BitVec.toNat_shiftLeft, toNat_getLow64, Nat.shiftLeft_eq, shifted]
    · rw [BitVec.toNat_setWidth, toNat_getLow64, BaseUint.toNat_shrAssign,
        Nat.mod_mod_of_dvd _ (by decide : 2 ^ 32 ∣ 2 ^ 64),
        Nat.mod_eq_of_lt (Nat.lt_trans small (by decide))]
  rw [← read] at small ⊢
  generalize (if (Nat.size a.toNat + 7) / 8 ≤ 3 then
        (getLow64 a <<< (8 * (3 - (Nat.size a.toNat + 7) / 8))).setWidth 32
      else (getLow64 (BaseUint.shrAssign a (8 * ((Nat.size a.toNat + 7) / 8 - 3)))).setWidth
        32 : BitVec 32) = raw at small ⊢
  rw [and_sign_ne_zero_iff small]
  by_cases long : 2 ^ 23 ≤ raw.toNat
  · have shorter : (raw >>> 8).toNat = raw.toNat / 2 ^ 8 := by
      rw [BitVec.toNat_ushiftRight, Nat.shiftRight_eq_div_pow]
    rw [decide_eq_true long, if_pos rfl, if_pos long, ← shorter]
    exact packCompact_eq (by omega) (by omega)
  · rw [decide_eq_false long, if_neg Bool.false_ne_true, if_neg long]
    exact packCompact_eq (by omega) (by omega)

end Words256

/-- The bytes that the encoding drops: all but three, or all but two when the highest bit of the
leading byte is set. -/
def droppedBytes (number : Uint256) : Nat :=
  let bytes := (Nat.size number + 7) / 8
  if number.testBit (8 * bytes - 1) then bytes - 2 else bytes - 3

/-- The highest bit of the leading byte is set when the bits fill all the bytes. -/
theorem testBit_leading_iff
    (positive : 0 < number) :
    number.testBit (8 * ((Nat.size number + 7) / 8) - 1) = true ↔ Nat.size number % 8 = 0 := by
  have long : 0 < Nat.size number := Nat.size_pos.mpr positive
  constructor
  · intro isSet
    have highest := Nat.lt_size.mpr (Nat.ge_two_pow_of_testBit isSet)
    omega
  · intro whole
    have place : 8 * ((Nat.size number + 7) / 8) - 1 = Nat.size number - 1 := by omega
    have atLeast : 2 ^ (Nat.size number - 1) ≤ number := Nat.lt_size.mp (by omega)
    have below : number < 2 ^ (Nat.size number - 1) * 2 := by
      rw [← Nat.pow_succ, Nat.succ_eq_add_one, Nat.sub_add_cancel long]
      exact Nat.lt_size_self number
    have one : number / 2 ^ (Nat.size number - 1) = 1 := by
      exact Nat.div_eq_of_lt_le (by rwa [Nat.one_mul]) (by rwa [Nat.mul_comm])
    rw [place, Nat.testBit_eq_decide_div_mod_eq, one]
    rfl

theorem droppedBytes_eq (number : Uint256) :
    droppedBytes number = Nat.size number / 8 - 2 := by
  unfold droppedBytes
  dsimp only
  rcases Nat.eq_zero_or_pos number with rfl | positive
  · rfl
  · have long : 0 < Nat.size number := Nat.size_pos.mpr positive
    split_ifs with isSet
    · rw [testBit_leading_iff positive] at isSet
      omega
    · rw [testBit_leading_iff positive] at isSet
      omega

theorem leading_eq_dropped (number : Uint256) :
    leading (fun size => 8 * (size / 8 - 2)) number =
      number / 256 ^ droppedBytes number * 256 ^ droppedBytes number := by
  have power : 2 ^ (8 * (Nat.size number / 8 - 2)) = 256 ^ (Nat.size number / 8 - 2) :=
    Nat.pow_mul 2 8 _
  rw [leading, droppedBytes_eq, power]

/-- What is read back is encoded as before. -/
theorem getCompact_leading (number : Uint256) :
    getCompact (leading (fun size => 8 * (size / 8 - 2)) number) = getCompact number := by
  have keeps : ∀ size, 0 < size → 8 * (size / 8 - 2) < size := by
    intro size positive
    omega
  rcases Nat.eq_zero_or_pos number with rfl | positive
  · rfl
  · have same := size_leading keeps number
    rw [getCompact_eq (leading_pos keeps positive), getCompact_eq positive, compactMantissa,
      compactMantissa, compactExponent, compactExponent, same]
    congr 1
    unfold leadingBytes leading
    dsimp only
    split_ifs with small
    · have nothing : 8 * (Nat.size number / 8 - 2) = 0 := by omega
      rw [nothing, Nat.pow_zero, Nat.div_one, Nat.mul_one]
    · have places : 8 * (Nat.size number / 8 + 1 - 3) = 8 * (Nat.size number / 8 - 2) := by omega
      rw [places, Nat.mul_div_cancel _ (Nat.two_pow_pos _)]

/-- A larger number has no smaller encoding. -/
theorem getCompact_mono
    (ordered : number ≤ other) :
    getCompact number ≤ getCompact other := by
  rcases Nat.eq_zero_or_pos number with rfl | positive
  · exact Nat.zero_le _
  · have mantissa := compactMantissa_lt number
    have sizes := Nat.size_le_size ordered
    rw [getCompact_eq positive, getCompact_eq (Nat.lt_of_lt_of_le positive ordered)]
    rcases Nat.lt_or_ge (compactExponent number) (compactExponent other) with shorter | longer
    · omega
    · have same : compactExponent number = compactExponent other := by
        unfold compactExponent at longer ⊢
        omega
      have less : compactMantissa number ≤ compactMantissa other := by
        unfold compactMantissa leadingBytes
        rw [same]
        split_ifs
        · exact Nat.mul_le_mul_right _ ordered
        · exact Nat.div_le_div_right ordered
      omega

namespace Words256

/-- The encoding of the words of a `uint256`: no assertion of `GetCompact` fails; `SetCompact` reads
back the number with all but its leading bytes cleared, and that has the same encoding; a larger
number has no smaller encoding.  For every word: the overflow flag says that the number it stands
for has no place in 256 bits, and the other one that the sign is set and that the mantissa, moved
down where the number is short, is not zero. -/
theorem compact_exact :
    (∃ compact : Words256 → BitVec 32,
      (∀ x, getCompact x false = some (compact x)) ∧
      (∀ x, (setCompact (compact x)).1.toNat =
        x.toNat / 256 ^ droppedBytes x.toNat * 256 ^ droppedBytes x.toNat) ∧
      (∀ x, compact (setCompact (compact x)).1 = compact x) ∧
      ∀ x y, x.toNat ≤ y.toNat → (compact x).toNat ≤ (compact y).toNat) ∧
    ∀ c : BitVec 32,
      ((setCompact c).2.2 = true ↔ 2 ^ 256 ≤ compactMagnitude c.toNat) ∧
      ((setCompact c).2.1 = true ↔ c.getLsbD 23 = true ∧ shortMantissa c.toNat ≠ 0) := by
  choose compact computed exact using getCompact_eq_number
  have back : ∀ x, (setCompact (compact x)).1.toNat =
      leading (fun size => 8 * (size / 8 - 2)) x.toNat := by
    intro x
    rw [(setCompact_eq_number _).1, exact, setCompact_getCompact (BaseUint.toNat_lt x)]
  refine ⟨⟨compact, computed, ?_, ?_, ?_⟩, ?_⟩
  · intro x
    rw [back, leading_eq_dropped]
  · intro x
    refine BitVec.eq_of_toNat_eq ?_
    rw [exact, exact, back, getCompact_leading]
  · intro x y ordered
    rw [exact, exact]
    exact getCompact_mono ordered
  · intro c
    have power : 0 < 256 ^ (c.toNat / 2 ^ 24 - 3) := Nat.pow_pos (by decide)
    rw [(setCompact_eq_number c).2, setCompact_overflow, setCompact_negative, decide_eq_true_eq,
      decide_eq_true_eq, compactMagnitude_eq, ← BitVec.testBit_toNat,
      Nat.testBit_eq_decide_div_mod_eq, decide_eq_true_eq]
    exact ⟨Iff.rfl, by rw [ne_eq, Nat.mul_eq_zero]; omega⟩

/-- A word with the sign and a mantissa that is not zero, but is moved out. -/
theorem negative_not_mantissa :
    ¬ ∀ c : BitVec 32,
      (setCompact c).2.1 = true ↔ c.getLsbD 23 = true ∧ c.toNat % 2 ^ 23 ≠ 0 := by
  intro claimed
  have reported := (claimed 0x01803456).mpr ⟨by decide, by decide⟩
  exact absurd reported (by decide)

end Words256

end ColossusCoin
