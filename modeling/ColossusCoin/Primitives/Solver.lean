import ColossusCoin.Primitives.Script
import Mathlib.Data.List.Nodup

/-!
# Standard scripts

`Solver` compares a script with some templates, and returns the public keys and hashes that
stand where a template has a placeholder.  So their number and lengths are those that the
placeholders of the template ask for.
-/

namespace ColossusCoin

namespace Opcode

def smallInteger : UInt8 := 0xfa
def pubKeys : UInt8 := 0xfb
def pubKeyHash : UInt8 := 0xfd
def pubKey : UInt8 := 0xfe

end Opcode

inductive TxnOutType
  | nonstandard
  | pubKey
  | pubKeyHash
  | scriptHash
  | multiSig
  | nullData
  | zerocoinMint
  deriving DecidableEq, Repr

namespace CScript

/-- The loop of `IsPushOnly`; every pass consumes a byte, so the length of the script is fuel
enough. -/
def isPushOnlyLoop : Nat → CScript → Bool
  | 0, _ => true
  | _ + 1, [] => true
  | fuel + 1, byte :: rest =>
    match getOp (byte :: rest) with
    | none => false
    | some (opcode, _, remaining) =>
      if Opcode.op16 < opcode then false else isPushOnlyLoop fuel remaining

def isPushOnly (script : CScript) : Bool :=
  isPushOnlyLoop script.length script

end CScript

/-- An instruction, its immediate operand and what follows it. -/
abbrev ScriptRead := UInt8 × List UInt8 × CScript

/-- The operands of a run of public keys, with the first instruction that is none.  Where the
script ends there, that instruction is invalid and no template goes on. -/
def takePubKeys : Nat → ScriptRead → List (List UInt8) → ScriptRead × List (List UInt8)
  | 0, read, vSolutions => (read, vSolutions)
  | fuel + 1, (opcode1, vch1, pc1), vSolutions =>
    if 33 ≤ vch1.length ∧ vch1.length ≤ 65 then
      match CScript.getOp pc1 with
      | none => ((Opcode.invalidOpcode, [], []), vSolutions ++ [vch1])
      | some read => takePubKeys fuel read (vSolutions ++ [vch1])
    else ((opcode1, vch1, pc1), vSolutions)

/-- What a template with `OP_PUBKEYS` here skips, and the instructions to compare then. -/
def skipPubKeys (read1 read2 : ScriptRead) (vSolutions : List (List UInt8)) :
    Option (ScriptRead × ScriptRead × List (List UInt8)) :=
  if read2.1 = Opcode.pubKeys then
    (CScript.getOp read2.2.2).map fun next2 =>
      ((takePubKeys (read1.2.2.length + 1) read1 vSolutions).1, next2,
        (takePubKeys (read1.2.2.length + 1) read1 vSolutions).2)
  else some (read1, read2, vSolutions)

/-- The comparison of two instructions, with the solution that a placeholder gives. -/
def compareOps (opcode1 : UInt8) (vch1 : List UInt8) (opcode2 : UInt8) (vch2 : List UInt8) :
    Option (List (List UInt8)) :=
  if opcode2 = Opcode.pubKey then
    if vch1.length < 33 ∨ 65 < vch1.length then none else some [vch1]
  else if opcode2 = Opcode.pubKeyHash then
    if vch1.length ≠ 20 then none else some [vch1]
  else if opcode2 = Opcode.smallInteger then
    if opcode1 = 0 then some [[0]]
    else if Opcode.op1 ≤ opcode1 ∧ opcode1 ≤ Opcode.op16 then
      some [[opcode1 - (Opcode.op1 - 1)]]
    else none
  else if opcode1 ≠ opcode2 ∨ vch1 ≠ vch2 then none
  else some []

/-- The comparison of a script with a template; every pass consumes a byte of the template, and
the last one finds both at their ends. -/
def matchTemplate : Nat → CScript → CScript → List (List UInt8) → Option (List (List UInt8))
  | 0, _, _, _ => none
  | fuel + 1, pc1, pc2, vSolutions =>
    if pc1 = [] ∧ pc2 = [] then some vSolutions
    else do
      let read1 ← CScript.getOp pc1
      let read2 ← CScript.getOp pc2
      let compared ← skipPubKeys read1 read2 vSolutions
      let solution ← compareOps compared.1.1 compared.1.2.1 compared.2.1.1 compared.2.1.2.1
      matchTemplate fuel compared.1.2.2 compared.2.1.2.2 (compared.2.2 ++ solution)

/-- `mTemplates`, in the order of their types. -/
def mTemplates : List (TxnOutType × CScript) :=
  [(.pubKey, [Opcode.pubKey, Opcode.checkSig]),
    (.pubKeyHash, [Opcode.dup, Opcode.hash160, Opcode.pubKeyHash, Opcode.equalVerify,
      Opcode.checkSig]),
    (.multiSig, [Opcode.smallInteger, Opcode.pubKeys, Opcode.smallInteger,
      Opcode.checkMultiSig])]

/-- The additional checks for `TX_MULTISIG`. -/
def isMultiSig (vSolutions : List (List UInt8)) : Bool :=
  match vSolutions.head?.bind List.head?, vSolutions.getLast?.bind List.head? with
  | some m, some n =>
    1 ≤ m.toNat && 1 ≤ n.toNat && m.toNat ≤ n.toNat && vSolutions.length - 2 == n.toNat
  | _, _ => false

/-- What `Solver` returns, with its output arguments. -/
structure SolverResult where
  solved : Bool
  typeRet : TxnOutType
  vSolutionsRet : List (List UInt8)
  deriving DecidableEq, Repr

/-- The scan of the templates. -/
def scanTemplates (scriptPubKey : CScript) : List (TxnOutType × CScript) → SolverResult
  | [] => ⟨false, .nonstandard, []⟩
  | (type, script2) :: rest =>
    match matchTemplate (script2.length + 1) scriptPubKey script2 [] with
    | none => scanTemplates scriptPubKey rest
    | some vSolutions => ⟨decide (type ≠ .multiSig) || isMultiSig vSolutions, type, vSolutions⟩

/-- `Solver`, with what its output argument holds before.  It has no result where a mint of a
single byte makes it copy from behind the end of the script. -/
def solver (scriptPubKey : CScript) (vSolutionsRet : List (List UInt8)) : Option SolverResult :=
  if scriptPubKey.isPayToScriptHash then
    some ⟨true, .scriptHash, vSolutionsRet ++ [(scriptPubKey.drop 2).take 20]⟩
  else if scriptPubKey.isZerocoinMint then
    if 150 < scriptPubKey.length then some ⟨false, .zerocoinMint, vSolutionsRet⟩
    else if scriptPubKey.length < 2 then none
    else some ⟨true, .zerocoinMint, vSolutionsRet ++ [scriptPubKey.drop 2]⟩
  else if scriptPubKey.head? = some Opcode.opReturn ∧
      CScript.isPushOnly scriptPubKey.tail = true then
    some ⟨true, .nullData, vSolutionsRet⟩
  else some (scanTemplates scriptPubKey mTemplates)

/-- The opcodes of a template for which a match returns a solution. -/
def isPlaceholder (opcode2 : UInt8) : Bool :=
  opcode2 == Opcode.pubKey || opcode2 == Opcode.pubKeyHash || opcode2 == Opcode.smallInteger

/-- A solution has a length that its placeholder allows. -/
def Fits (opcode2 : UInt8) (vch : List UInt8) : Prop :=
  if opcode2 = Opcode.pubKey then 33 ≤ vch.length ∧ vch.length ≤ 65
  else if opcode2 = Opcode.pubKeyHash then vch.length = 20
  else vch.length = 1

/-- A comparison gives a solution that fits where the template has a placeholder, and none
elsewhere. -/
theorem fits_of_compareOps
    (compared : compareOps opcode1 vch1 opcode2 vch2 = some solution) :
    List.Forall₂ Fits ([opcode2].filter isPlaceholder) solution := by
  unfold compareOps at compared
  by_cases key : opcode2 = Opcode.pubKey
  · rw [if_pos key, Option.ite_none_left_eq_some] at compared
    obtain ⟨sized, same⟩ := compared
    cases same
    rw [key]
    refine .cons ?_ .nil
    rw [Fits, if_pos rfl]
    omega
  · rw [if_neg key] at compared
    by_cases keyHash : opcode2 = Opcode.pubKeyHash
    · rw [if_pos keyHash, Option.ite_none_left_eq_some] at compared
      obtain ⟨sized, same⟩ := compared
      cases same
      rw [keyHash]
      exact .cons (not_not.mp sized) .nil
    · rw [if_neg keyHash] at compared
      by_cases small : opcode2 = Opcode.smallInteger
      · rw [if_pos small] at compared
        rw [small]
        split_ifs at compared <;> cases compared <;> exact .cons rfl .nil
      · rw [if_neg small, Option.ite_none_left_eq_some] at compared
        obtain ⟨_, same⟩ := compared
        cases same
        simp [isPlaceholder, key, keyHash, small]

theorem fits_of_matchTemplate
    (plain : ∀ opcode ∈ pc2, Opcode.pushData4 < opcode ∧ opcode ≠ Opcode.pubKeys)
    (matched : matchTemplate fuel pc1 pc2 vSolutions = some result) :
    ∃ added, result = vSolutions ++ added ∧
      List.Forall₂ Fits (pc2.filter isPlaceholder) added := by
  induction fuel generalizing pc1 pc2 vSolutions with
  | zero => cases matched
  | succ fuel ih =>
    unfold matchTemplate at matched
    split_ifs at matched with ended
    · cases matched
      rw [ended.2]
      exact ⟨[], (List.append_nil _).symm, .nil⟩
    · cases pc2 with
      | nil =>
        obtain ⟨read1, _, matched⟩ := Option.bind_eq_some_iff.mp matched
        cases matched
      | cons opcode2 rest =>
        obtain ⟨here, later⟩ := List.forall_mem_cons.mp plain
        obtain ⟨read1, _, matched⟩ := Option.bind_eq_some_iff.mp matched
        rw [CScript.getOp_of_pushData4_lt here.1] at matched
        have kept : skipPubKeys read1 (opcode2, [], rest) vSolutions =
            some (read1, (opcode2, [], rest), vSolutions) := if_neg here.2
        simp only [Option.bind_eq_bind, Option.bind_some, kept] at matched
        obtain ⟨solution, compared, matched⟩ := Option.bind_eq_some_iff.mp matched
        obtain ⟨added, rfl, fits⟩ := ih later matched
        refine ⟨solution ++ added, List.append_assoc _ _ _, ?_⟩
        have first := fits_of_compareOps compared
        rw [← List.singleton_append, List.filter_append]
        exact List.rel_append first fits

theorem mem_of_scanTemplates
    (solved : (scanTemplates scriptPubKey templates).solved = true) :
    ∃ template ∈ templates, (scanTemplates scriptPubKey templates).typeRet = template.1 ∧
      matchTemplate (template.2.length + 1) scriptPubKey template.2 [] =
        some (scanTemplates scriptPubKey templates).vSolutionsRet := by
  induction templates with
  | nil => cases solved
  | cons template rest ih =>
    obtain ⟨type, script2⟩ := template
    unfold scanTemplates at solved ⊢
    rcases Option.eq_none_or_eq_some
      (matchTemplate (script2.length + 1) scriptPubKey script2 []) with missed | ⟨found, matched⟩
    · rw [missed] at solved ⊢
      obtain ⟨template, member, same⟩ := ih solved
      exact ⟨template, List.mem_cons_of_mem _ member, same⟩
    · rw [matched] at solved ⊢
      exact ⟨(type, script2), List.mem_cons_self, rfl, matched⟩

theorem matchTemplate_of_solver
    (run : solver scriptPubKey vSolutions = some result)
    (solved : result.solved = true)
    (type : result.typeRet = .pubKey ∨ result.typeRet = .pubKeyHash) :
    ∃ template ∈ mTemplates, result.typeRet = template.1 ∧
      matchTemplate (template.2.length + 1) scriptPubKey template.2 [] =
        some result.vSolutionsRet := by
  unfold solver at run
  split_ifs at run
  · cases run
    simp at type
  · cases run
    simp at type
  · cases run
    simp at type
  · cases run
    simp at type
  · cases run
    exact mem_of_scanTemplates solved

theorem plain_of_mem_mTemplates
    (member : template ∈ mTemplates)
    (single : template.1 = .pubKey ∨ template.1 = .pubKeyHash) :
    ∀ opcode ∈ template.2, Opcode.pushData4 < opcode ∧ opcode ≠ Opcode.pubKeys := by
  intro opcode used
  simp only [mTemplates, List.mem_cons, List.not_mem_nil, or_false] at member
  rcases member with rfl | rfl | rfl
  · simp only [List.mem_cons, List.not_mem_nil, or_false] at used
    rcases used with rfl | rfl <;> exact ⟨by decide, by decide⟩
  · simp only [List.mem_cons, List.not_mem_nil, or_false] at used
    rcases used with rfl | rfl | rfl | rfl | rfl <;> exact ⟨by decide, by decide⟩
  · simp at single

theorem fits_of_solver
    (run : solver scriptPubKey vSolutions = some result)
    (solved : result.solved = true)
    (single : result.typeRet = .pubKey ∨ result.typeRet = .pubKeyHash)
    (listed : (result.typeRet, template) ∈ mTemplates) :
    List.Forall₂ Fits (template.filter isPlaceholder) result.vSolutionsRet := by
  obtain ⟨found, member, same, matched⟩ := matchTemplate_of_solver run solved single
  have types : (mTemplates.map Prod.fst).Nodup := by decide
  have which : (result.typeRet, template) = found :=
    List.inj_on_of_nodup_map types listed member same
  rw [← which] at matched
  obtain ⟨added, rest, fits⟩ :=
    fits_of_matchTemplate (plain_of_mem_mTemplates listed single) matched
  rw [rest, List.nil_append]
  exact fits

/-- A pay-to-pubkey script has one solution, as long as a public key may be. -/
theorem solver_pubKey
    (run : solver scriptPubKey vSolutions = some result)
    (solved : result.solved = true)
    (type : result.typeRet = .pubKey) :
    ∃ vchPubKey, result.vSolutionsRet = [vchPubKey] ∧
      33 ≤ vchPubKey.length ∧ vchPubKey.length ≤ 65 := by
  have listed : (result.typeRet, [Opcode.pubKey, Opcode.checkSig]) ∈ mTemplates := by
    rw [type]
    exact List.mem_cons_self
  have fits : List.Forall₂ Fits [Opcode.pubKey] result.vSolutionsRet :=
    fits_of_solver run solved (.inl type) listed
  generalize result.vSolutionsRet = solutions at fits
  cases fits with
  | cons sized tail =>
    cases tail
    exact ⟨_, rfl, sized⟩

theorem solver_pubKeyHash
    (run : solver scriptPubKey vSolutions = some result)
    (solved : result.solved = true)
    (type : result.typeRet = .pubKeyHash) :
    ∃ hash, result.vSolutionsRet = [hash] ∧ hash.length = 20 := by
  have listed : (result.typeRet, [Opcode.dup, Opcode.hash160, Opcode.pubKeyHash,
      Opcode.equalVerify, Opcode.checkSig]) ∈ mTemplates := by
    rw [type]
    exact List.mem_cons_of_mem _ List.mem_cons_self
  have fits : List.Forall₂ Fits [Opcode.pubKeyHash] result.vSolutionsRet :=
    fits_of_solver run solved (.inr type) listed
  generalize result.vSolutionsRet = solutions at fits
  cases fits with
  | cons sized tail =>
    cases tail
    exact ⟨_, rfl, sized⟩

end ColossusCoin
