import ColossusCoin.Coins.Compressor

/-!
# Compressed outputs are read back

An amount that the money supply allows is far enough below the limit of 64 bits for its
compressed form, and each of the six special forms of a script tells the script.
-/

namespace ColossusCoin

open ByteReaders

namespace CTxOutCompressor

/-- The division by ten leaves a number and how often it was divided; it stops before the limit
only at a last digit other than zero. -/
theorem stripZeros_spec (more n e : Nat) :
    ∃ rest count, stripZeros more n e = (rest, e + count) ∧ n = rest * 10 ^ count ∧
      count ≤ more ∧ (count < more → rest % 10 ≠ 0) := by
  induction more generalizing n e with
  | zero => exact ⟨n, 0, rfl, by simp, by simp, by simp⟩
  | succ more ih =>
    rw [stripZeros]
    split_ifs with divides
    · obtain ⟨rest, count, stripped, whole, limit, stops⟩ := ih (n / 10) (e + 1)
      refine ⟨rest, count + 1, ?_, ?_, by omega, fun before => stops (by omega)⟩
      · rw [stripped, Nat.add_assoc, Nat.add_comm 1 count]
      · rw [Nat.pow_succ, ← Nat.mul_assoc, ← whole]
        omega
    · exact ⟨n, 0, rfl, by simp, by simp, fun _ => divides⟩

theorem addZeros_eq
    (bounded : n * 10 ^ e < 2 ^ 64) :
    addZeros e n = n * 10 ^ e := by
  induction e generalizing n with
  | zero => simp [addZeros]
  | succ e ih =>
    have step : n * 10 ^ (e + 1) = n * 10 * 10 ^ e := by
      rw [Nat.pow_succ, Nat.mul_comm (10 ^ e), Nat.mul_assoc]
    have positive : 0 < 10 ^ e := Nat.pow_pos (by omega)
    have small : n * 10 < 2 ^ 64 :=
      Nat.lt_of_le_of_lt (Nat.le_mul_of_pos_right _ positive) (step ▸ bounded)
    rw [addZeros, Nat.mod_eq_of_lt small, ih (step ▸ bounded), step]

/-- The compressed form of an amount, by its digits after the zeros are taken off. -/
theorem compressedAmount_cases
    (positive : 0 < n) :
    ∃ rest count, n = rest * 10 ^ count ∧ 0 < rest ∧
      (count < 9 ∧ rest % 10 ≠ 0 ∧
          compressedAmount n = 1 + (rest / 10 * 9 + rest % 10 - 1) * 10 + count ∨
        count = 9 ∧ compressedAmount n = 1 + (rest - 1) * 10 + 9) := by
  obtain ⟨rest, count, stripped, whole, limit, stops⟩ := stripZeros_spec 9 n 0
  rw [Nat.zero_add] at stripped
  have some : 0 < rest := by
    rcases Nat.eq_zero_or_pos rest with zero | some
    · rw [zero, Nat.zero_mul] at whole
      omega
    · exact some
  refine ⟨rest, count, whole, some, ?_⟩
  rw [compressedAmount, if_neg (by omega)]
  simp only [stripped]
  by_cases before : count < 9
  · rw [if_pos before]
    exact Or.inl ⟨before, stops before, rfl⟩
  · rw [if_neg before]
    exact Or.inr ⟨by omega, rfl⟩

theorem compressedAmount_lt
    (money : n ≤ 2000000000000000000) :
    compressedAmount n < 2 ^ 64 := by
  rcases Nat.eq_zero_or_pos n with rfl | positive
  · simp [compressedAmount]
  · obtain ⟨rest, count, whole, _, form⟩ := compressedAmount_cases positive
    rcases form with ⟨_, _, form⟩ | ⟨rfl, form⟩
    · have small : rest ≤ n := by
        rw [whole]
        exact Nat.le_mul_of_pos_right rest (Nat.pow_pos (by omega))
      omega
    · omega

theorem decompressAmount_compressedAmount
    (fits : n < 2 ^ 64) :
    decompressAmount (compressedAmount n) = n := by
  rcases Nat.eq_zero_or_pos n with rfl | positive
  · simp [compressedAmount, decompressAmount]
  · obtain ⟨rest, count, whole, some, form⟩ := compressedAmount_cases positive
    have small : rest ≤ n := by
      rw [whole]
      exact Nat.le_mul_of_pos_right rest (Nat.pow_pos (by omega))
    have scaled : addZeros count (rest % 2 ^ 64) = n := by
      rw [Nat.mod_eq_of_lt (by omega), addZeros_eq (whole ▸ fits), ← whole]
    rw [decompressAmount]
    rcases form with ⟨before, lastDigit, form⟩ | ⟨rfl, form⟩
    · have exponent : (compressedAmount n - 1) % 10 = count := by omega
      have digits : (compressedAmount n - 1) / 10 / 9 * 10 +
          ((compressedAmount n - 1) / 10 % 9 + 1) = rest := by omega
      rw [if_neg (by omega)]
      simp only [exponent, if_pos before, digits, scaled]
    · have exponent : (compressedAmount n - 1) % 10 = 9 := by omega
      have digits : (compressedAmount n - 1) / 10 + 1 = rest := by omega
      rw [if_neg (by omega)]
      simp only [exponent, Nat.lt_irrefl, if_false, digits, scaled]

end CTxOutCompressor

/-! ## Scripts -/

namespace CScriptCompressor

variable {curve : CurvePoints}

theorem drop_eq_cons
    {list : List α}
    (there : list[place]? = some x) :
    list.drop place = x :: list.drop (place + 1) := by
  obtain ⟨within, rfl⟩ := List.getElem?_eq_some_iff.mp there
  exact List.drop_eq_getElem_cons within

theorem drop_eq_take_append
    (list : List α) (first count : Nat) :
    list.drop first = (list.drop first).take count ++ list.drop (first + count) := by
  rw [← List.drop_drop, List.take_append_drop]

/-- The script for a key hash is its frame around the hash. -/
theorem decompress_keyID
    {keyID : List UInt8}
    (isKeyID : isToKeyID script = some keyID) :
    keyID.length = 20 ∧ decompress curve 0 keyID = some script := by
  rw [isToKeyID] at isKeyID
  split_ifs at isKeyID with form
  obtain ⟨size, first, second, third, fourth, fifth⟩ := form
  obtain rfl := Option.some.inj isKeyID
  have start := drop_eq_cons first
  rw [List.drop_zero, drop_eq_cons second, drop_eq_cons third,
    drop_eq_take_append script 3 20, drop_eq_cons fourth, drop_eq_cons fifth,
    List.drop_eq_nil_of_le (Nat.le_of_eq size)] at start
  refine And.intro ?_ (congrArg some ?_)
  · rw [List.length_take, List.length_drop]
    omega
  · rw [List.append_assoc]
    exact start.symm

/-- The script for a script hash is its frame around the hash. -/
theorem decompress_scriptID
    {scriptID : List UInt8}
    (isScriptID : isToScriptID script = some scriptID) :
    scriptID.length = 20 ∧ decompress curve 1 scriptID = some script := by
  rw [isToScriptID] at isScriptID
  split_ifs at isScriptID with form
  obtain ⟨size, first, second, third⟩ := form
  obtain rfl := Option.some.inj isScriptID
  have start := drop_eq_cons first
  rw [List.drop_zero, drop_eq_cons second, drop_eq_take_append script 2 20,
    drop_eq_cons third, List.drop_eq_nil_of_le (Nat.le_of_eq size)] at start
  refine And.intro ?_ (congrArg some ?_)
  · rw [List.length_take, List.length_drop]
    omega
  · rw [List.append_assoc]
    exact start.symm

/-- A special form tells its kind by the first byte, and the script by the others. -/
def TellsScript (curve : CurvePoints) (out : List UInt8) (script : CScript) : Prop :=
  ∃ kind body, out = kind :: body ∧ kind.toNat < nSpecialScripts ∧
    body.length = getSpecialSize kind.toNat ∧ decompress curve kind.toNat body = some script

theorem tellsScript_compressed
    (compressed : header = 2 ∨ header = 3)
    (sized : coordinate.length = 32)
    (isScript : script = 33 :: header :: (coordinate ++ [Opcode.checkSig]))
    (isOut : compressKey (CPubKey.set (header :: coordinate)) = some out) :
    TellsScript curve out script := by
  have key : CPubKey.set (header :: coordinate) = header :: coordinate := by
    refine CPubKey.set_of_getLen ?_
    rw [CPubKey.getLen, if_pos compressed, List.length_cons, sized]
  have form : some (header :: coordinate) = some out := by
    rw [key, compressKey, if_pos (by simpa using compressed)] at isOut
    simpa [List.take_of_length_le (Nat.le_of_eq sized)] using isOut
  refine ⟨header, coordinate, (Option.some.inj form).symm, ?_⟩
  rcases compressed with rfl | rfl
  · exact ⟨by decide, sized, congrArg some isScript.symm⟩
  · exact ⟨by decide, sized, congrArg some isScript.symm⟩

theorem and_one_cases (byte : UInt8) : byte &&& 1 = 0 ∨ byte &&& 1 = 1 := by
  have bit : (byte &&& 1).toNat = byte.toNat % 2 := by
    rw [UInt8.toNat_and]
    exact Nat.and_one_is_mod byte.toNat
  rcases Nat.mod_two_eq_zero_or_one byte.toNat with even | odd
  · exact Or.inl (UInt8.toNat_inj.mp (bit.trans even))
  · exact Or.inr (UInt8.toNat_inj.mp (bit.trans odd))

section

variable (assumed : curve.DecompressesCompressed)
include assumed

theorem tellsScript_uncompressed
    (sized : coordinates.length = 64)
    (valid : curve.isFullyValid (4 :: coordinates) = true)
    (isScript : script = 65 :: 4 :: (coordinates ++ [Opcode.checkSig]))
    (isOut : compressKey (4 :: coordinates) = some out) :
    TellsScript curve out script := by
  have form : some ((4 ||| (coordinates.getD 63 0 &&& 1)) :: coordinates.take 32) = some out := by
    rw [compressKey, if_neg (by simp), if_pos List.getElem?_cons_zero] at isOut
    exact isOut
  have half : (coordinates.take 32).length = 32 := by
    rw [List.length_take]
    omega
  have found := assumed coordinates sized valid
  refine ⟨_, _, (Option.some.inj form).symm, ?_⟩
  rcases and_one_cases (coordinates.getD 63 0) with even | odd
  · rw [even] at found ⊢
    refine ⟨by decide, half, ?_⟩
    change (curve.decompress (2 :: coordinates.take 32)).map _ = some script
    rw [show (2 : UInt8) = 2 ||| 0 from rfl, found, isScript]
    rfl
  · rw [odd] at found ⊢
    refine ⟨by decide, half, ?_⟩
    change (curve.decompress (3 :: coordinates.take 32)).map _ = some script
    rw [show (3 : UInt8) = 2 ||| 1 from rfl, found, isScript]
    rfl

theorem tellsScript_pubKey
    {pubkey : CPubKey}
    (isPubKey : isToPubKey curve script = some pubkey)
    (isOut : compressKey pubkey = some out) :
    TellsScript curve out script := by
  rw [isToPubKey] at isPubKey
  split_ifs at isPubKey with short long valid
  · obtain ⟨size, first, last, second⟩ := short
    obtain rfl := Option.some.inj isPubKey
    have framed : ∀ header, script[1]? = some header → (header = 2 ∨ header = 3) →
        TellsScript curve out script := by
      intro header there compressed
      have start := drop_eq_cons first
      rw [List.drop_zero, drop_eq_cons there, drop_eq_take_append script 2 32,
        drop_eq_cons last, List.drop_eq_nil_of_le (Nat.le_of_eq size)] at start
      rw [drop_eq_cons there, List.take_succ_cons] at isOut
      refine tellsScript_compressed compressed ?_ start isOut
      rw [List.length_take, List.length_drop]
      omega
    rcases second with two | three
    · exact framed 2 two (Or.inl rfl)
    · exact framed 3 three (Or.inr rfl)
  · obtain ⟨size, first, last, second⟩ := long
    obtain rfl := Option.some.inj isPubKey
    have start := drop_eq_cons first
    rw [List.drop_zero, drop_eq_cons second, drop_eq_take_append script 2 64,
      drop_eq_cons last, List.drop_eq_nil_of_le (Nat.le_of_eq size)] at start
    have sized : ((script.drop 2).take 64).length = 64 := by
      rw [List.length_take, List.length_drop]
      omega
    have key : CPubKey.set ((script.drop 1).take 65) = 4 :: (script.drop 2).take 64 := by
      rw [drop_eq_cons second, List.take_succ_cons]
      refine CPubKey.set_of_getLen ?_
      rw [List.length_cons, sized]
      decide
    rw [key] at valid isOut
    exact tellsScript_uncompressed assumed sized valid start isOut

theorem tellsScript_of_compress
    (compressed : compress curve script = some out) :
    TellsScript curve out script := by
  rw [compress] at compressed
  cases isKeyID : isToKeyID script with
  | some keyID =>
    rw [isKeyID] at compressed
    obtain rfl := Option.some.inj compressed
    exact ⟨0, keyID, rfl, by decide, decompress_keyID isKeyID⟩
  | none =>
    rw [isKeyID] at compressed
    cases isScriptID : isToScriptID script with
    | some scriptID =>
      rw [isScriptID] at compressed
      obtain rfl := Option.some.inj compressed
      exact ⟨1, scriptID, rfl, by decide, decompress_scriptID isScriptID⟩
    | none =>
      rw [isScriptID] at compressed
      obtain ⟨pubkey, isPubKey, isOut⟩ := Option.bind_eq_some_iff.mp compressed
      exact tellsScript_pubKey assumed isPubKey isOut

end

theorem reads_readVarInt_small
    (small : byte.toNat < 128)
    (wide : 128 ≤ 2 ^ width) :
    Reads (readVarInt width) [byte] byte.toNat := by
  intro rest
  have low : byte.toNat % 128 = byte.toNat := Nat.mod_eq_of_lt small
  change readVarIntLoop width 0 (byte :: rest) = _
  rw [readVarIntLoop_cons, if_pos small, low, Nat.zero_mul, Nat.zero_add,
    Nat.mod_eq_of_lt (Nat.lt_of_lt_of_le small wide)]

/-- A script whose size leaves room for the special forms in 32 bits is read back. -/
theorem reads_serialize
    {old : CScript}
    (assumed : curve.DecompressesCompressed)
    (short : script.length + nSpecialScripts < 2 ^ 32) :
    Reads (unserialize curve old) (serialize curve script) script := by
  rw [serialize]
  cases compressed : compress curve script with
  | some out =>
    obtain ⟨kind, body, rfl, special, sized, tells⟩ := tellsScript_of_compress assumed compressed
    have six : nSpecialScripts = 6 := rfl
    have size : Reads (readVarInt 32) [kind] kind.toNat :=
      reads_readVarInt_small (by omega) (by decide)
    have read : Reads (readBytes (getSpecialSize kind.toNat)) body body :=
      sized ▸ reads_readBytes body
    have after := read.map fun vch => (decompress curve kind.toNat vch).getD old
    rw [tells, Option.getD_some] at after
    refine size.bind (unserializeSized curve old) ?_
    rw [unserializeSized, if_pos special]
    exact after
  | none =>
    rw [Nat.mod_eq_of_lt short]
    refine (reads_writeVarInt short).bind (unserializeSized curve old) ?_
    rw [unserializeSized, if_neg (by omega), Nat.add_sub_cancel]
    exact reads_readBytes script

end CScriptCompressor

theorem CChainParams.IsNetwork.nMaxMoneyOut_eq
    {params : CChainParams}
    (network : params.IsNetwork) :
    params.nMaxMoneyOut = 20000000000 * coin := by
  rcases network with rfl | rfl | rfl <;> rfl

namespace CTxOutCompressor

theorem ofUInt64_natCast
    {n : Nat}
    (fits : n < 2 ^ 63) :
    ofUInt64 n = n := by
  rw [ofUInt64, if_pos fits]

theorem reads_serialize
    {curve : CurvePoints} {txout old : CTxOut}
    (assumed : curve.DecompressesCompressed)
    (short : txout.scriptPubKey.length + nSpecialScripts < 2 ^ 32) :
    Reads (unserialize curve old) (serialize curve txout)
      { old with
        nValue := ofUInt64 (decompressAmount (compressAmount (toUInt64 txout.nValue)))
        scriptPubKey := txout.scriptPubKey } := by
  have bounded : compressAmount (toUInt64 txout.nValue) < 2 ^ 64 := Nat.mod_lt _ (by decide)
  have script := @CScriptCompressor.reads_serialize curve txout.scriptPubKey old.scriptPubKey
    assumed short
  rw [serialize]
  exact (reads_writeVarInt bounded).bind (unserializeValued curve old)
    (script.map fun script =>
      ({ old with
          nValue := ofUInt64 (decompressAmount (compressAmount (toUInt64 txout.nValue)))
          scriptPubKey := script } : CTxOut))

/-- An output with an amount of money is read back from its compressed form, whatever follows
it. -/
theorem txout_round_trip
    {params : CChainParams} {curve : CurvePoints} {txout old : CTxOut}
    (network : params.IsNetwork)
    (assumed : curve.DecompressesCompressed)
    (nonnegative : 0 ≤ txout.nValue)
    (money : txout.nValue ≤ params.nMaxMoneyOut)
    (short : txout.scriptPubKey.length + nSpecialScripts < 2 ^ 32) :
    Reads (unserialize curve old) (serialize curve txout)
        { old with nValue := txout.nValue, scriptPubKey := txout.scriptPubKey } ∧
      compressedAmount txout.nValue.toNat < 2 ^ 64 ∧
      decompressAmount (compressAmount txout.nValue.toNat) = txout.nValue.toNat := by
  rw [network.nMaxMoneyOut_eq, coin] at money
  have limit : txout.nValue.toNat ≤ 2000000000000000000 := by omega
  have fits := compressedAmount_lt limit
  have amount : decompressAmount (compressAmount txout.nValue.toNat) = txout.nValue.toNat := by
    rw [compressAmount, Nat.mod_eq_of_lt fits]
    exact decompressAmount_compressedAmount (by omega)
  refine ⟨?_, fits, amount⟩
  have unsigned : toUInt64 txout.nValue = txout.nValue.toNat := by
    rw [toUInt64]
    omega
  have value : ofUInt64 (decompressAmount (compressAmount txout.nValue.toNat)) =
      txout.nValue := by
    rw [amount, ofUInt64_natCast (by omega)]
    omega
  have read := @reads_serialize curve txout old assumed short
  rwa [unsigned, value] at read

/-- A library that accepts no key. -/
def noKeys : CurvePoints where
  isFullyValid _ := false
  decompress _ := none

theorem noKeys_decompressesCompressed : noKeys.DecompressesCompressed :=
  fun _ _ valid => absurd valid Bool.false_ne_true

/-- One coin to the hash of a key. -/
def coinToKeyID : CTxOut where
  nValue := coin
  scriptPubKey := [Opcode.dup, Opcode.hash160, 20] ++ List.replicate 20 7 ++
    [Opcode.equalVerify, Opcode.checkSig]

theorem txout_round_trip_coin :
    Reads (unserialize noKeys CTxOut.null) (serialize noKeys coinToKeyID) coinToKeyID ∧
      compressedAmount coinToKeyID.nValue.toNat < 2 ^ 64 ∧
      decompressAmount (compressAmount coinToKeyID.nValue.toNat) = coinToKeyID.nValue.toNat :=
  txout_round_trip (Or.inl rfl) noKeys_decompressesCompressed (by decide)
    (show coin ≤ 20000000000 * coin by rw [coin]; omega) (by decide)

/-- The size of a script that wraps to zero makes it the script for a key hash. -/
theorem not_reads_of_wrapped
    (wrapped : script.length = 4294967290) :
    ¬Reads (unserialize noKeys CTxOut.null) (serialize noKeys ⟨0, script, -10⟩)
      ⟨0, script, -10⟩ := by
  have compressed : CScriptCompressor.compress noKeys script = none := by
    have keyID : CScriptCompressor.isToKeyID script = none := if_neg (by omega)
    have scriptID : CScriptCompressor.isToScriptID script = none := if_neg (by omega)
    have pubKey : CScriptCompressor.isToPubKey noKeys script = none := by
      rw [CScriptCompressor.isToPubKey, if_neg (by omega), if_neg (by omega)]
    rw [CScriptCompressor.compress, keyID, scriptID, pubKey]
    rfl
  have written : serialize noKeys ⟨0, script, -10⟩ =
      writeVarInt 0 ++ (writeVarInt 0 ++ script) := by
    rw [serialize, CScriptCompressor.serialize, compressed, wrapped]
    rfl
  have size : (script.take 20).length = 20 := by
    rw [List.length_take]
    omega
  have body := reads_readBytes (script.take 20)
  rw [size] at body
  have read : Reads (CScriptCompressor.unserialize noKeys []) (writeVarInt 0 ++ script.take 20)
      ([Opcode.dup, Opcode.hash160, 20] ++ script.take 20 ++
        [Opcode.equalVerify, Opcode.checkSig]) :=
    (reads_writeVarInt (by omega)).bind (CScriptCompressor.unserializeSized noKeys [])
      (body.map fun vch => (CScriptCompressor.decompress noKeys 0 vch).getD [])
  have output := (@reads_writeVarInt 64 0 (by omega)).bind
    (unserializeValued noKeys CTxOut.null)
    (read.map fun script => CTxOut.mk (ofUInt64 (decompressAmount 0)) script (-10))
  intro whole
  have all := whole []
  have part := output (script.drop 20)
  rw [written, List.append_nil] at all
  rw [List.append_assoc, List.append_assoc, List.take_append_drop] at part
  have same := Option.some.inj (all.symm.trans part)
  have none : script.drop 20 = [] := (Prod.mk.inj same).2.symm
  rw [List.drop_eq_nil_iff] at none
  omega

/-- A script of `2 ^ 32 - 6` zeros is not read back. -/
theorem long_script_not_reads :
    CChainParams.main.IsNetwork ∧ noKeys.DecompressesCompressed ∧
      0 ≤ CChainParams.main.nMaxMoneyOut ∧
      ¬Reads (unserialize noKeys CTxOut.null)
        (serialize noKeys ⟨0, List.replicate 4294967290 0, -10⟩)
        ⟨0, List.replicate 4294967290 0, -10⟩ :=
  ⟨Or.inl rfl, noKeys_decompressesCompressed,
    show 0 ≤ 20000000000 * coin by rw [coin]; omega,
    not_reads_of_wrapped List.length_replicate⟩

end CTxOutCompressor

end ColossusCoin
