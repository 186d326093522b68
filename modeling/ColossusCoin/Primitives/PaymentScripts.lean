import ColossusCoin.Primitives.ScriptPushes

/-!
# Normal payment scripts

`IsNormalPaymentScript` walks a script of 25 bytes by instructions and looks at the opcodes at
their places.  It does not look at what the third one pushes, and a script may end before its
last checks.
-/

namespace ColossusCoin
namespace CScript

/-- Where a script stands after an instruction that does not parse: behind its opcode, and behind
the size of the operand if there is one. -/
def afterFailedOp : CScript → CScript
  | [] => []
  | opcode :: rest =>
    if opcode = Opcode.pushData1 then rest.drop 1
    else if opcode = Opcode.pushData2 then if rest.length < 2 then rest else rest.drop 2
    else if opcode = Opcode.pushData4 then if rest.length < 4 then rest else rest.drop 4
    else rest

/-- The next opcode and what follows it, where the result of `GetOp` is not looked at. -/
def uncheckedOp (script : CScript) : UInt8 × CScript :=
  match getOp script with
  | some (opcode, _, rest) => (opcode, rest)
  | none => (Opcode.invalidOpcode, afterFailedOp script)

/-- The loop of `IsNormalPaymentScript` from the instruction with a number. -/
def isNormalPaymentLoop : Nat → Nat → CScript → Bool
  | 0, _, _ => true
  | _ + 1, _, [] => true
  | fuel + 1, i, byte :: rest =>
    if i = 0 ∧ (uncheckedOp (byte :: rest)).1 ≠ Opcode.dup then false
    else if i = 1 ∧ (uncheckedOp (byte :: rest)).1 ≠ Opcode.hash160 then false
    else if i = 3 ∧ (uncheckedOp (byte :: rest)).1 ≠ Opcode.equalVerify then false
    else if i = 4 ∧ (uncheckedOp (byte :: rest)).1 ≠ Opcode.checkSig then false
    else if i = 5 then false
    else isNormalPaymentLoop fuel (i + 1) (uncheckedOp (byte :: rest)).2

def isNormalPaymentScript (script : CScript) : Bool :=
  script.length == 25 && isNormalPaymentLoop 25 0 script

/-- The script that pays to the hash of a public key. -/
def payToPubKeyHash (hash : List UInt8) : CScript :=
  Opcode.dup :: Opcode.hash160 :: 20 :: hash ++ [Opcode.equalVerify, Opcode.checkSig]

/-- The script pays to the hash of a public key. -/
def IsPayToPubKeyHash (script : CScript) : Prop :=
  ∃ hash : List UInt8, hash.length = 20 ∧ script = payToPubKeyHash hash

/-- A script of 25 bytes that starts as one that pays to a hash, and whose third instruction is a
push that reaches to the end, or to a last byte `OP_EQUALVERIFY`, or leaves the last two opcodes
but is not a direct push of 20 bytes. -/
def ShadowsPayment (script : CScript) : Prop :=
  script.length = 25 ∧ ∃ third opcode vch rest,
    script = Opcode.dup :: Opcode.hash160 :: third ∧ getOp third = some (opcode, vch, rest) ∧
      (rest = [] ∨ rest = [Opcode.equalVerify] ∨
        opcode ≠ 20 ∧ rest = [Opcode.equalVerify, Opcode.checkSig])

/-- An opcode that is no push and not invalid is read where it stands, and nowhere else. -/
theorem uncheckedOp_eq_iff
    (plain : Opcode.pushData4 < op)
    (valid : Opcode.invalidOpcode ≠ op) :
    (uncheckedOp (byte :: rest)).1 = op ↔ byte = op := by
  by_cases push : byte ≤ Opcode.pushData4
  · have different : byte ≠ op := by
      rintro rfl
      exact UInt8.not_le.mpr plain push
    refine iff_of_false ?_ different
    rw [uncheckedOp, getOp_of_push push, takeOperand]
    split_ifs
    · exact valid
    · exact valid
    · exact different
  · rw [uncheckedOp, getOp_of_pushData4_lt (UInt8.not_le.mp push)]

theorem uncheckedOp_of_plain (plain : Opcode.pushData4 < op) :
    (uncheckedOp (op :: rest)).2 = rest := by
  rw [uncheckedOp, getOp_of_pushData4_lt plain]

/-- The opcode that is looked for at an instruction. -/
def expectedOpcode : Nat → Option UInt8
  | 0 => some Opcode.dup
  | 1 => some Opcode.hash160
  | 3 => some Opcode.equalVerify
  | 4 => some Opcode.checkSig
  | _ => none

/-- Where an opcode is looked for, the walk goes on behind it or ends. -/
theorem isNormalPaymentLoop_of_expected
    (expected : expectedOpcode i = some op) :
    isNormalPaymentLoop (fuel + 1) i (byte :: rest) =
      (decide (byte = op) && isNormalPaymentLoop fuel (i + 1) rest) := by
  have places : Opcode.pushData4 < op ∧ Opcode.invalidOpcode ≠ op ∧
      (i = 0 ∧ op = Opcode.dup ∨ i = 1 ∧ op = Opcode.hash160 ∨ i = 3 ∧ op = Opcode.equalVerify ∨
        i = 4 ∧ op = Opcode.checkSig) := by
    unfold expectedOpcode at expected
    split at expected <;> cases expected <;> decide
  obtain ⟨plain, valid, places⟩ := places
  have stands := @uncheckedOp_eq_iff op byte rest plain valid
  by_cases here : byte = op
  · subst here
    have opcode := stands.mpr rfl
    rw [isNormalPaymentLoop, opcode, uncheckedOp_of_plain plain]
    obtain ⟨rfl, rfl⟩ | ⟨rfl, rfl⟩ | ⟨rfl, rfl⟩ | ⟨rfl, rfl⟩ := places <;> simp
  · have different := mt stands.mp here
    rw [isNormalPaymentLoop]
    obtain ⟨rfl, rfl⟩ | ⟨rfl, rfl⟩ | ⟨rfl, rfl⟩ | ⟨rfl, rfl⟩ := places <;> simp [different, here]

/-- What the walk asks for behind the third instruction: a sixth one is too many. -/
theorem isNormalPaymentLoop_three_iff :
    isNormalPaymentLoop (fuel + 3) 3 rest = true ↔
      rest = [] ∨ rest = [Opcode.equalVerify] ∨
        rest = [Opcode.equalVerify, Opcode.checkSig] := by
  have third : expectedOpcode 3 = some Opcode.equalVerify := rfl
  have fourth : expectedOpcode 4 = some Opcode.checkSig := rfl
  rcases rest with - | ⟨first, - | ⟨second, - | ⟨another, more⟩⟩⟩
  · simp [isNormalPaymentLoop]
  · rw [isNormalPaymentLoop_of_expected third]
    simp [isNormalPaymentLoop]
  · rw [isNormalPaymentLoop_of_expected third, isNormalPaymentLoop_of_expected fourth]
    simp [isNormalPaymentLoop]
  · rw [isNormalPaymentLoop_of_expected third, isNormalPaymentLoop_of_expected fourth]
    simp [isNormalPaymentLoop]

theorem isNormalPaymentScript_iff (script : CScript) :
    isNormalPaymentScript script = true ↔
      script.length = 25 ∧ ∃ third, script = Opcode.dup :: Opcode.hash160 :: third ∧
        ((uncheckedOp third).2 = [] ∨ (uncheckedOp third).2 = [Opcode.equalVerify] ∨
          (uncheckedOp third).2 = [Opcode.equalVerify, Opcode.checkSig]) := by
  rw [isNormalPaymentScript, Bool.and_eq_true, beq_iff_eq]
  refine and_congr_right fun size => ?_
  rcases script with - | ⟨first, - | ⟨second, - | ⟨opcode, rest⟩⟩⟩
  · cases size
  · cases size
  · cases size
  · have walk : isNormalPaymentLoop 23 2 (opcode :: rest) =
        isNormalPaymentLoop 22 3 (uncheckedOp (opcode :: rest)).2 := by
      simp [isNormalPaymentLoop]
    rw [isNormalPaymentLoop_of_expected (rfl : expectedOpcode 0 = _),
      isNormalPaymentLoop_of_expected (rfl : expectedOpcode 1 = _), walk, Bool.and_eq_true,
      Bool.and_eq_true, isNormalPaymentLoop_three_iff, decide_eq_true_eq, decide_eq_true_eq]
    constructor
    · rintro ⟨rfl, rfl, ends⟩
      exact ⟨opcode :: rest, rfl, ends⟩
    · rintro ⟨third, same, ends⟩
      cases same
      exact ⟨rfl, rfl, ends⟩

/-- What is left behind an instruction that does not parse is too long to be accepted. -/
theorem length_afterFailedOp (script : CScript) :
    script.length ≤ (afterFailedOp script).length + 5 := by
  cases script with
  | nil => exact Nat.zero_le _
  | cons opcode rest =>
    rw [afterFailedOp]
    split_ifs <;> simp only [List.length_cons, List.length_drop] <;> omega

/-- A third instruction that pushes 20 bytes. -/
theorem getOp_twenty
    (third : CScript)
    (found : getOp third = some (20, vch, rest)) :
    vch.length = 20 ∧ third = 20 :: vch ++ rest := by
  cases third with
  | nil => cases found
  | cons opcode bytes =>
    by_cases push : opcode ≤ Opcode.pushData4
    · rw [getOp_of_push push, takeOperand] at found
      split_ifs at found with short few
      cases found
      rw [show announced 20 bytes = 20 by rfl, show sizeBytes 20 = 0 by rfl, List.drop_zero]
        at few ⊢
      exact ⟨List.length_take_of_le (not_lt.mp few), by rw [List.cons_append, List.take_append_drop]⟩
    · rw [getOp_of_pushData4_lt (UInt8.not_le.mp push)] at found
      cases found
      exact absurd (by decide) push

/-- What is accepted pays to a hash or shadows such a script, never both. -/
theorem isNormalPaymentScript_iff_or (script : CScript) :
    (isNormalPaymentScript script = true ↔ IsPayToPubKeyHash script ∨ ShadowsPayment script) ∧
      ¬(IsPayToPubKeyHash script ∧ ShadowsPayment script) := by
  have twenty : ∀ hash, hash.length = 20 → ∀ rest,
      getOp (20 :: hash ++ rest) = some (20, hash, rest) := by
    intro hash length rest
    have enough : ¬(hash ++ rest).length < 20 := by simp [length]
    rw [List.cons_append, getOp_of_push (by decide), takeOperand,
      show announced 20 (hash ++ rest) = 20 by rfl, show sizeBytes 20 = 0 by rfl,
      if_neg (Nat.not_lt_zero _), List.drop_zero, if_neg enough, List.take_left' length,
      List.drop_left' length]
  rw [isNormalPaymentScript_iff]
  refine ⟨⟨?_, ?_⟩, ?_⟩
  · rintro ⟨size, third, rfl, ends⟩
    rw [List.length_cons, List.length_cons] at size
    cases parsed : getOp third with
    | none =>
      have long := length_afterFailedOp third
      rw [uncheckedOp, parsed] at ends
      obtain nothing | one | two := ends <;> simp_all
    | some instruction =>
      obtain ⟨opcode, vch, rest⟩ := instruction
      rw [uncheckedOp, parsed] at ends
      by_cases direct : opcode = 20
      · subst direct
        obtain ⟨length, rfl⟩ := getOp_twenty third parsed
        obtain nothing | one | two := ends
        · exact .inr ⟨by simpa using size, _, _, _, _, rfl, parsed, .inl nothing⟩
        · exact .inr ⟨by simpa using size, _, _, _, _, rfl, parsed, .inr (.inl one)⟩
        · exact .inl ⟨vch, length, by rw [payToPubKeyHash, ← two]; rfl⟩
      · exact .inr ⟨by simpa using size, third, opcode, vch, rest, rfl, parsed,
          ends.imp_right (Or.imp_right fun both => ⟨direct, both⟩)⟩
  · rintro (⟨hash, length, rfl⟩ | ⟨size, third, opcode, vch, rest, rfl, parsed, ends⟩)
    · refine ⟨by simp [payToPubKeyHash, length], 20 :: hash ++ _, rfl, .inr (.inr ?_)⟩
      rw [uncheckedOp, twenty hash length]
    · refine ⟨size, third, rfl, ?_⟩
      rw [uncheckedOp, parsed]
      exact ends.imp_right (Or.imp_right And.right)
  · rintro ⟨⟨hash, length, rfl⟩, -, third, opcode, vch, rest, same, parsed, ends⟩
    have tail : 20 :: hash ++ [Opcode.equalVerify, Opcode.checkSig] = third :=
      (List.cons.inj (List.cons.inj same).2).2
    rw [← tail, twenty hash length, Option.some.injEq] at parsed
    cases parsed
    simp at ends

/-- The walk answers as a test for scripts that pay to a hash exactly on the scripts that do not
shadow one. -/
theorem isNormalPaymentScript_exact_iff (script : CScript) :
    (isNormalPaymentScript script = true ↔ IsPayToPubKeyHash script) ↔ ¬ShadowsPayment script := by
  obtain ⟨accepted, exclusive⟩ := isNormalPaymentScript_iff_or script
  tauto

/-- `OP_DUP OP_HASH160` and a push of the 22 bytes that remain are accepted. -/
theorem isNormalPaymentScript_of_longPush :
    ¬∀ script, isNormalPaymentScript script = true ↔ IsPayToPubKeyHash script := by
  intro exact_scripts
  obtain ⟨hash, -, same⟩ := (exact_scripts
    (Opcode.dup :: Opcode.hash160 :: 22 :: List.replicate 22 0)).mp (by decide)
  simp [payToPubKeyHash] at same

end CScript
end ColossusCoin
