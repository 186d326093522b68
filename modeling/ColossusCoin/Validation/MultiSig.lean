import ColossusCoin.Primitives.ScriptNumbers
import ColossusCoin.Primitives.SignatureEncoding
import ColossusCoin.Validation.SignatureHash
import Mathlib.Data.List.NodupEquivFin

/-!
# Multisignatures

`OP_CHECKMULTISIG` goes once through the keys, from the top of the stack, and gives each
signature the first key that verifies it.  This finds an assignment in the order of both lists
whenever there is one.
-/

namespace ColossusCoin
namespace MultiSig

open CScript SignatureEncoding

/-- The errors of the operation. -/
inductive ScriptError
  | unknownError
  | opCount
  | sigCount
  | pubKeyCount
  | checkMultiSigVerify
  | invalidStackOperation
  | sigHashType
  | sigDer
  | sigHighS
  | sigNullDummy
  | pubKeyType
deriving DecidableEq, Repr

/-- The verification flags that the operation reads. -/
structure Flags where
  strictEnc : Bool
  derSig : Bool
  lowS : Bool
  nullDummy : Bool
  minimalData : Bool

/-- The last loop of `CompareBigEndian`, over numbers of the same length. -/
def compareBytes : List UInt8 → List UInt8 → Ordering
  | byte1 :: c1, byte2 :: c2 =>
    if byte2 < byte1 then .gt else if byte1 < byte2 then .lt else compareBytes c1 c2
  | _, _ => .eq

/-- `CompareBigEndian`. -/
def compareBigEndian (c1 c2 : List UInt8) : Ordering :=
  if (c1.take (c1.length - c2.length)).any (· ≠ 0) then .gt
  else if (c2.take (c2.length - c1.length)).any (· ≠ 0) then .lt
  else compareBytes (c1.drop (c1.length - c2.length)) (c2.drop (c2.length - c1.length))

/-- `vchMaxModHalfOrder`. -/
def vchMaxModHalfOrder : List UInt8 :=
  [0x7F, 0xFF, 0xFF, 0xFF, 0xFF, 0xFF, 0xFF, 0xFF, 0xFF, 0xFF, 0xFF, 0xFF, 0xFF, 0xFF, 0xFF, 0xFF,
    0x5D, 0x57, 0x6E, 0x73, 0x57, 0xA4, 0x50, 0x1D, 0xDF, 0xE9, 0x2F, 0x46, 0x68, 0x1B, 0x20, 0xA0]

/-- `CheckSignatureElement` of half the order. -/
def checkSignatureElement (vch : List UInt8) : Bool :=
  compareBigEndian vch [] = .gt ∧ compareBigEndian vch vchMaxModHalfOrder ≠ .gt

/-- The S value that `IsLowDERSignature` takes from a signature of valid form. -/
def elementS (vchSig : List UInt8) : List UInt8 :=
  let nLenR := (vchSig.getD 3 0).toNat
  (vchSig.drop (6 + nLenR)).take (vchSig.getD (5 + nLenR) 0).toNat

/-- `IsDefinedHashtypeSignature`. -/
def isDefinedHashtypeSignature (vchSig : List UInt8) : Bool :=
  match vchSig.getLast? with
  | none => false
  | some byte => 1 ≤ byte &&& 0x7f ∧ byte &&& 0x7f ≤ 3

/-- `CheckSignatureEncoding`. -/
def checkSignatureEncoding (vchSig : List UInt8) (flags : Flags) : Except ScriptError Unit :=
  if vchSig.length = 0 then .ok ()
  else if (flags.derSig || flags.lowS || flags.strictEnc) ∧
      isValidSignatureEncoding vchSig ≠ some true then .error .sigDer
  else if flags.lowS ∧ ¬checkSignatureElement (elementS vchSig) then .error .sigHighS
  else if flags.strictEnc ∧ ¬isDefinedHashtypeSignature vchSig then .error .sigHashType
  else .ok ()

/-- `IsCompressedOrUncompressedPubKey`. -/
def isCompressedOrUncompressedPubKey (vchPubKey : List UInt8) : Bool :=
  if vchPubKey.length < 33 then false
  else if vchPubKey[0]? = some 0x04 then vchPubKey.length = 65
  else if vchPubKey[0]? = some 0x02 ∨ vchPubKey[0]? = some 0x03 then vchPubKey.length = 33
  else false

/-- `CheckPubKeyEncoding`. -/
def checkPubKeyEncoding (vchPubKey : List UInt8) (flags : Flags) : Except ScriptError Unit :=
  if flags.strictEnc ∧ ¬isCompressedOrUncompressedPubKey vchPubKey then .error .pubKeyType
  else .ok ()

/-- `stacktop(-i)`, of a stack with its top first. -/
def stackTop (stack : List (List UInt8)) (i : Nat) : Option (List UInt8) := stack[i - 1]?

/-- A count on the stack.  What the constructor of the number throws is caught by `EvalScript`. -/
def readCount (flags : Flags) (vch : List UInt8) : Except ScriptError Int :=
  match CScriptNum.ofVch vch flags.minimalData CScriptNum.nDefaultMaxNumSize with
  | some (.ok value) => .ok (max (-2 ^ 31) (min value (2 ^ 31 - 1)))
  | _ => .error .unknownError

section Operation

variable (checkSig : List UInt8 → List UInt8 → CScript → Bool) (flags : Flags)
  (scriptCode : CScript) (stack : List (List UInt8))

/-- The loop over the keys, with the number of keys that are left, the places of the next key
and of the next signature, and the number of signatures that are left. -/
def matchLoop : Nat → Nat → Nat → Nat → Except ScriptError Bool
  | _, _, _, 0 => .ok true
  -- Never with signatures left: there are at least as many keys.
  | 0, _, _, _ => .ok false
  | nKeysCount + 1, ikey, isig, nSigsCount + 1 =>
    match stackTop stack isig, stackTop stack ikey with
    | some vchSig, some vchPubKey => do
      checkSignatureEncoding vchSig flags
      checkPubKeyEncoding vchPubKey flags
      if checkSig vchSig vchPubKey scriptCode then
        if nKeysCount < nSigsCount then .ok false
        else matchLoop nKeysCount (ikey + 1) (isig + 1) nSigsCount
      else
        if nKeysCount < nSigsCount + 1 then .ok false
        else matchLoop nKeysCount (ikey + 1) isig (nSigsCount + 1)
    | _, _ => .error .unknownError

/-- The script code without the signatures. -/
def dropSignatures (sigs : List (List UInt8)) : CScript :=
  sigs.foldl (fun code vchSig => (SignatureHash.findAndDelete code (pushData [] vchSig)).1) scriptCode

/-- What is left on the stack when `i - 1` arguments and the dummy are taken, and the result is
pushed. -/
def finish (fVerify fSuccess : Bool) (i : Nat) : Except ScriptError (List (List UInt8)) :=
  match stack.drop (i - 1) with
  | [] => .error .invalidStackOperation
  | dummy :: rest =>
    if flags.nullDummy ∧ dummy.length ≠ 0 then .error .sigNullDummy
    else if fVerify then if fSuccess then .ok rest else .error .checkMultiSigVerify
    else .ok ((if fSuccess then [1] else []) :: rest)

/-- `OP_CHECKMULTISIG`, and `OP_CHECKMULTISIGVERIFY` with `fVerify`: the stack and `nOpCount`
after it. -/
def opCheckMultiSig (fVerify : Bool) (nOpCount : Nat) :
    Except ScriptError (List (List UInt8) × Nat) :=
  match stackTop stack 1 with
  | none => .error .invalidStackOperation
  | some vchKeysCount => do
    let nKeysCount ← readCount flags vchKeysCount
    if nKeysCount < 0 ∨ 20 < nKeysCount then .error .pubKeyCount
    else if 201 < nOpCount + nKeysCount.toNat then .error .opCount
    else
      match stackTop stack (2 + nKeysCount.toNat) with
      | none => .error .invalidStackOperation
      | some vchSigsCount => do
        let nSigsCount ← readCount flags vchSigsCount
        if nSigsCount < 0 ∨ nKeysCount < nSigsCount then .error .sigCount
        else
          let isig := 3 + nKeysCount.toNat
          if stack.length < isig + nSigsCount.toNat then .error .invalidStackOperation
          else
            let sigs := (stack.drop (isig - 1)).take nSigsCount.toNat
            let fSuccess ← matchLoop checkSig flags (dropSignatures scriptCode sigs) stack
              nKeysCount.toNat 2 isig nSigsCount.toNat
            let left ← finish flags stack fVerify fSuccess (isig + nSigsCount.toNat)
            .ok (left, nOpCount + nKeysCount.toNat)

end Operation

section Matching

variable {α β : Type} {verifies : α → β → Prop} {sigs : List α} {keys : List β}

/-- An assignment of all signatures to distinct keys, in the order of both lists. -/
def Assignable (verifies : α → β → Prop) (sigs : List α) (keys : List β) : Prop :=
  ∃ place : Fin sigs.length → Fin keys.length,
    StrictMono place ∧ ∀ sig, verifies (sigs.get sig) (keys.get (place sig))

/-- The keys of an assignment are a sublist of the keys. -/
theorem assignable_iff_sublist :
    Assignable verifies sigs keys ↔
      ∃ used, used.Sublist keys ∧ List.Forall₂ verifies sigs used := by
  constructor
  · rintro ⟨place, increasing, verified⟩
    refine ⟨List.ofFn fun sig => keys.get (place sig), ?_, ?_⟩
    · rw [List.sublist_iff_exists_fin_orderEmbedding_get_eq]
      refine ⟨.ofStrictMono (fun sig => place (sig.cast List.length_ofFn)) ?_, ?_⟩
      · exact fun _ _ lt => increasing lt
      · exact fun sig => List.get_ofFn _ sig
    · rw [List.forall₂_iff_get]
      exact ⟨by simp, fun sig below _ => by simpa using verified ⟨sig, below⟩⟩
  · rintro ⟨used, part, verified⟩
    obtain ⟨sameLength, verified⟩ := List.forall₂_iff_get.mp verified
    obtain ⟨place, at_place⟩ := List.sublist_iff_exists_fin_orderEmbedding_get_eq.mp part
    refine ⟨fun sig => place (sig.cast sameLength), ?_, ?_⟩
    · exact fun _ _ lt => place.strictMono lt
    · intro sig
      rw [← at_place]
      exact verified sig sig.isLt (sameLength ▸ sig.isLt)

theorem assignable_nil : Assignable verifies [] keys :=
  assignable_iff_sublist.mpr ⟨[], List.nil_sublist _, .nil⟩

theorem Assignable.length_le (assignable : Assignable verifies sigs keys) :
    sigs.length ≤ keys.length := by
  obtain ⟨used, part, verified⟩ := assignable_iff_sublist.mp assignable
  exact verified.length_eq ▸ part.length_le

/-- A key that verifies the first signature can be taken for it: the key that an assignment gives
it comes no earlier. -/
theorem assignable_cons_of_verifies (verified : verifies sig key) :
    Assignable verifies (sig :: sigs) (key :: keys) ↔ Assignable verifies sigs keys := by
  simp only [assignable_iff_sublist]
  constructor
  · rintro ⟨used, part, matched⟩
    cases matched with
    | cons _ matched =>
      refine ⟨_, ?_, matched⟩
      cases part with
      | cons _ later => exact (List.sublist_cons_self _ _).trans later
      | cons_cons _ rest => exact rest
  · rintro ⟨used, part, matched⟩
    exact ⟨key :: used, part.cons_cons key, .cons verified matched⟩

/-- A key that does not verify the first signature verifies no later one in an assignment. -/
theorem assignable_cons_of_not_verifies (unverified : ¬verifies sig key) :
    Assignable verifies (sig :: sigs) (key :: keys) ↔ Assignable verifies (sig :: sigs) keys := by
  simp only [assignable_iff_sublist]
  constructor
  · rintro ⟨used, part, matched⟩
    cases matched with
    | cons verified matched =>
      cases part with
      | cons _ later => exact ⟨_, later, .cons verified matched⟩
      | cons_cons _ rest => exact absurd verified unverified
  · rintro ⟨used, part, matched⟩
    exact ⟨used, part.cons key, matched⟩

end Matching

/-- Whether a key verifies a signature. -/
def Verifies
    (checkSig : List UInt8 → List UInt8 → CScript → Bool)
    (scriptCode : CScript)
    (sig key : List UInt8) : Prop :=
  checkSig sig key scriptCode = true

/-- What stands at a place of the stack, and what stands below it. -/
theorem stackTop_of_drop
    {stack : List (List UInt8)}
    (below : stack.drop place = element :: rest) :
    stackTop stack (place + 1) = some element ∧ stack.drop (place + 1) = rest := by
  constructor
  · rw [stackTop, Nat.add_sub_cancel, ← List.head?_drop, below, List.head?_cons]
  · rw [← List.tail_drop, below, List.tail_cons]

/-- The loop succeeds when there is an assignment, and fails otherwise. -/
theorem matchLoop_eq
    (checkSig : List UInt8 → List UInt8 → CScript → Bool)
    (scriptCode : CScript)
    (keys sigs : List (List UInt8))
    (keysAt : stack.drop ikey = keys ++ belowKeys)
    (sigsAt : stack.drop isig = sigs ++ belowSigs)
    (sigsPass : ∀ sig ∈ sigs, checkSignatureEncoding sig flags = .ok ())
    (keysPass : ∀ key ∈ keys, checkPubKeyEncoding key flags = .ok ())
    (fits : sigs.length ≤ keys.length) :
    ∃ fSuccess,
      matchLoop checkSig flags scriptCode stack keys.length (ikey + 1) (isig + 1) sigs.length =
          .ok fSuccess ∧
        (fSuccess = true ↔ Assignable (Verifies checkSig scriptCode) sigs keys) := by
  induction keys generalizing ikey isig sigs with
  | nil =>
    obtain rfl := List.length_eq_zero_iff.mp (Nat.le_zero.mp fits)
    exact ⟨true, by simp [matchLoop], by simp [assignable_nil]⟩
  | cons key keys ih =>
    cases sigs with
    | nil => exact ⟨true, by simp [matchLoop], by simp [assignable_nil]⟩
    | cons sig sigs =>
      obtain ⟨keyTop, keysAt⟩ := stackTop_of_drop keysAt
      obtain ⟨sigTop, restAt⟩ := stackTop_of_drop sigsAt
      have keysPass' := fun other member => keysPass other (List.mem_cons_of_mem key member)
      rw [List.length_cons, List.length_cons, matchLoop, sigTop, keyTop]
      simp only [sigsPass sig List.mem_cons_self, keysPass key List.mem_cons_self,
        bind, Except.bind]
      by_cases verified : Verifies checkSig scriptCode sig key
      · have fits : sigs.length ≤ keys.length := Nat.le_of_succ_le_succ fits
        have sigsPass := fun other member => sigsPass other (List.mem_cons_of_mem sig member)
        obtain ⟨fSuccess, run, found⟩ := ih sigs keysAt restAt sigsPass keysPass' fits
        rw [assignable_cons_of_verifies verified]
        rw [Verifies] at verified
        exact ⟨fSuccess, by simpa [verified, Nat.not_lt.mpr fits] using run, found⟩
      · rw [assignable_cons_of_not_verifies verified]
        rw [Verifies] at verified
        by_cases exhausted : keys.length < sigs.length + 1
        · refine ⟨false, by simp [verified, exhausted], ?_⟩
          have unassigned : ¬Assignable (Verifies checkSig scriptCode) (sig :: sigs) keys :=
            fun assignable => absurd exhausted (Nat.not_lt.mpr assignable.length_le)
          simpa using unassigned
        · have fits : (sig :: sigs).length ≤ keys.length := Nat.not_lt.mp exhausted
          obtain ⟨fSuccess, run, found⟩ := ih (sig :: sigs) keysAt sigsAt sigsPass keysPass' fits
          exact ⟨fSuccess, by simpa [verified, exhausted] using run, found⟩

/-- On its arguments, `OP_CHECKMULTISIG` replaces them and one more element by whether the
signatures can be assigned to keys in their order. -/
theorem opCheckMultiSig_matches
    (checkSig : List UInt8 → List UInt8 → CScript → Bool)
    (flags : Flags)
    (scriptCode : CScript)
    (vchKeysCount vchSigsCount dummy : List UInt8)
    (keys sigs rest : List (List UInt8))
    (nOpCount : Nat)
    (keysCounted : readCount flags vchKeysCount = .ok keys.length)
    (sigsCounted : readCount flags vchSigsCount = .ok sigs.length)
    (fewKeys : keys.length ≤ 20)
    (fewOps : nOpCount + keys.length ≤ 201)
    (fits : sigs.length ≤ keys.length)
    (sigsPass : ∀ sig ∈ sigs, checkSignatureEncoding sig flags = .ok ())
    (keysPass : ∀ key ∈ keys, checkPubKeyEncoding key flags = .ok ())
    (dummyPasses : flags.nullDummy = true → dummy = []) :
    ∃ fSuccess : Bool,
      opCheckMultiSig checkSig flags scriptCode
          (vchKeysCount :: keys ++ vchSigsCount :: sigs ++ dummy :: rest) false nOpCount =
        .ok ((if fSuccess then [1] else []) :: rest, nOpCount + keys.length) ∧
      (fSuccess = true ↔
        Assignable (Verifies checkSig (dropSignatures scriptCode sigs)) sigs keys) := by
  generalize isStack :
    vchKeysCount :: keys ++ vchSigsCount :: sigs ++ dummy :: rest = stack
  have keysAt : stack.drop 1 = keys ++ (vchSigsCount :: (sigs ++ dummy :: rest)) := by
    simp [← isStack]
  have countAt : stack.drop (1 + keys.length) = vchSigsCount :: (sigs ++ dummy :: rest) := by
    rw [← List.drop_drop, keysAt, List.drop_left]
  obtain ⟨countTop, sigsAt⟩ := stackTop_of_drop countAt
  have dummyAt : stack.drop (1 + keys.length + 1 + sigs.length) = dummy :: rest := by
    rw [← List.drop_drop, sigsAt, List.drop_left]
  have sigsTaken : (stack.drop (1 + keys.length + 1)).take sigs.length = sigs := by
    rw [sigsAt, List.take_left]
  obtain ⟨fSuccess, run, found⟩ :=
    matchLoop_eq checkSig (dropSignatures scriptCode sigs) keys sigs keysAt sigsAt sigsPass keysPass fits
  refine ⟨fSuccess, ?_, found⟩
  have top : stackTop stack 1 = some vchKeysCount := by simp [← isStack, stackTop]
  have enough : 3 + keys.length + sigs.length ≤ stack.length := by
    simp only [← isStack, List.length_append, List.length_cons]
    omega
  have countAt : 2 + keys.length = 1 + keys.length + 1 := by omega
  have sigAt : 3 + keys.length = 1 + keys.length + 1 + 1 := by omega
  have restAt : 1 + keys.length + 1 + 1 + sigs.length - 1 = 1 + keys.length + 1 + sigs.length := by
    omega
  have keysInRange : ¬((keys.length : Int) < 0 ∨ 20 < (keys.length : Int)) := by omega
  have sigsInRange : ¬((sigs.length : Int) < 0 ∨ (keys.length : Int) < sigs.length) := by omega
  have dummyKept : ¬(flags.nullDummy = true ∧ dummy.length ≠ 0) := by
    rintro ⟨checked, long⟩
    exact long (by rw [dummyPasses checked, List.length_nil])
  have finished : finish flags stack false fSuccess (1 + keys.length + 1 + 1 + sigs.length) =
      .ok ((if fSuccess then [1] else []) :: rest) := by
    rw [finish, restAt, dummyAt]
    simp only [if_neg dummyKept, Bool.false_eq_true, if_false]
  rw [opCheckMultiSig, top]
  simp only [keysCounted, bind, Except.bind, if_neg keysInRange, Int.toNat_natCast,
    if_neg (Nat.not_lt.mpr fewOps), countAt, countTop, sigsCounted, if_neg sigsInRange,
    if_neg (Nat.not_lt.mpr enough)]
  rw [sigAt, Nat.add_sub_cancel, sigsTaken, run]
  simp only [finished]

/-- One signature, which the second of two keys verifies. -/
theorem opCheckMultiSig_matches_second :
    ∃ fSuccess : Bool,
      opCheckMultiSig (fun sig key _ => sig = key) ⟨false, false, false, true, true⟩ []
          ([2] :: [[3], [4]] ++ [1] :: [[4]] ++ [] :: [[9]]) false 0 =
        .ok ((if fSuccess then [1] else []) :: [[9]], 0 + 2) ∧
      (fSuccess = true ↔
        Assignable (Verifies (fun sig key _ => sig = key) (dropSignatures [] [[4]]))
          [[4]] [[3], [4]]) :=
  opCheckMultiSig_matches _ _ [] [2] [1] [] [[3], [4]] [[4]] [[9]] 0 (by decide) (by decide)
    (by decide) (by decide) (by decide) (by decide) (by decide) (fun _ => rfl)

end MultiSig
end ColossusCoin
