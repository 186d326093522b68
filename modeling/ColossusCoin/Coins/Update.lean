import ColossusCoin.Coins.CacheSound

/-!
# Inputs and outputs of a transaction in a view

What a transaction finds in a view of the unspent outputs, and what applying it
does: the outputs it spends are blanked one by one, each with an undo record,
and its own outputs are added.  The lookups here leave the view as it is, since
the entries that the source fetches on the way change no answer.
-/

namespace ColossusCoin

/-- `CTxUndo`: an undo record for each input. -/
structure CTxUndo where
  vprevout : List CTxInUndo
  deriving DecidableEq, Repr

namespace CCoinsViewCache

/-- The coins that `AccessCoins` points to, `none` for the null pointer. -/
def accessCoins (view : CCoinsViewCache) (txid : Uint256) : Option CCoins :=
  (view.toView.getCoins txid).1

/-- The test of `HaveInputs` on one input. -/
def haveInput (view : CCoinsViewCache) (txin : CTxIn) : Bool :=
  match view.accessCoins txin.prevout.hash with
  | none => false
  | some coins => coins.isAvailable txin.prevout.n

def haveInputs (view : CCoinsViewCache) (tx : CTransaction) : Bool :=
  tx.spendsNoCoins || tx.vin.all view.haveInput

/-- `GetOutputFor`, `none` where its assertion fails. -/
def getOutputFor (view : CCoinsViewCache) (txin : CTxIn) : Option CTxOut :=
  if view.haveInput txin then
    (view.accessCoins txin.prevout.hash).bind fun coins => coins.vout[txin.prevout.n]?
  else none

/-- The edit that `CCoins::Spend` makes; a failed spend edits nothing. -/
def spendEdit (n : Nat) (coins : CCoins) : Option CTxInUndo × CCoins :=
  match coins.spend n with
  | none => (none, coins)
  | some (remaining, undo) => (some undo, remaining)

/-- The loop of `UpdateCoins` over the inputs, `none` where its assertion
fails. -/
def spendInputs : List CTxIn → CCoinsViewCache →
    Option (List CTxInUndo × CCoinsViewCache)
  | [], view => some ([], view)
  | txin :: rest, view =>
    match view.modifyCoins txin.prevout.hash (spendEdit txin.prevout.n) with
    | (none, _) => none
    | (some undo, spent) =>
      (spendInputs rest spent).map fun (undos, final) => (undo :: undos, final)

/-- `UpdateCoins`, with the undo record it fills, `none` where its assertion
fails. -/
def updateCoins (tx : CTransaction) (view : CCoinsViewCache) (nHeight : Int) :
    Option (CTxUndo × CCoinsViewCache) :=
  (if tx.spendsNoCoins then some ([], view) else spendInputs tx.vin view).map
    fun (vprevout, spent) =>
      ({ vprevout := vprevout },
        (spent.modifyCoins tx.hash fun _ => ((), CCoins.fromTx tx nHeight)).2)

/-- `UpdateCoins` for the transactions of a block, in order. -/
def updateCoinsAll : List CTransaction → CCoinsViewCache → Int →
    Option (List CTxUndo × CCoinsViewCache)
  | [], view, _ => some ([], view)
  | tx :: rest, view, nHeight =>
    match updateCoins tx view nHeight with
    | none => none
    | some (txundo, updated) =>
      (updateCoinsAll rest updated nHeight).map fun (txundos, final) =>
        (txundo :: txundos, final)

/-- What the views of a node keep: sound flags, and well-formed coins for every
transaction. -/
structure Valid (view : CCoinsViewCache) : Prop where
  sound : view.toView.Sound
  wellFormed : ∀ txid, (view.toView.coinsAt txid).WellFormed

theorem Valid.modified
    {before after : CCoinsViewCache}
    (valid : before.Valid)
    (modified : Modified before.toView after.toView txid edited)
    (wellFormed : edited.cleanup.WellFormed) :
    after.Valid where
  sound := modified.sound
  wellFormed := by
    intro other
    by_cases same : other = txid
    · subst same
      exact wellFormed.of_same (CCoinsView.cleanup_coinsAt modified.sound other) modified.answer
    · rw [modified.others other same]
      exact valid.wellFormed other

/-- A view over a database with the coins of one transaction. -/
def overSingle (txid : Uint256) (coins : CCoins) (hashBlock : Uint256) :
    CCoinsViewCache where
  cacheCoins := ∅
  hashBlock := hashBlock
  base := .db (AList.singleton txid coins) hashBlock

theorem coinsAt_overSingle
    (txid : Uint256)
    (coins : CCoins)
    (hashBlock other : Uint256) :
    (overSingle txid coins hashBlock).toView.coinsAt other = coins.cleanup ∨
      (overSingle txid coins hashBlock).toView.coinsAt other = CCoins.cleared := by
  simp only [overSingle, toView, CCoinsView.coinsAt, AList.lookup_empty, ← AList.insert_empty]
  by_cases stored : other = txid
  · subst stored
    rw [AList.lookup_insert]
    exact Or.inl rfl
  · rw [AList.lookup_insert_ne stored]
    exact Or.inr rfl

theorem valid_overSingle
    (wellFormed : coins.cleanup.WellFormed) (hashBlock : Uint256) :
    (overSingle txid coins hashBlock).Valid where
  sound := ⟨trivial, fun other entry found => by simp [overSingle] at found⟩
  wellFormed := by
    intro other
    rcases coinsAt_overSingle txid coins hashBlock other with answer | answer <;> rw [answer]
    exacts [wellFormed, CCoins.wellFormed_cleared]

/-- A successful spend of one input, read off the views. -/
theorem modifyCoins_spendEdit
    {view next : CCoinsViewCache} {txin : CTxIn}
    (valid : view.Valid)
    (spent : view.modifyCoins txin.prevout.hash (spendEdit txin.prevout.n) =
      (some undo, next)) :
    ∃ remaining,
      (view.toView.coinsAt txin.prevout.hash).spend txin.prevout.n =
        some (remaining, undo) ∧
      (next.toView.coinsAt txin.prevout.hash).same remaining = true ∧
      (∀ other, other ≠ txin.prevout.hash →
        next.toView.coinsAt other = view.toView.coinsAt other) ∧
      next.Valid := by
  obtain ⟨result, modified⟩ := modifyCoins_of_sound valid.sound txin.prevout.hash
    (spendEdit txin.prevout.n)
  rw [spent] at result modified
  cases spends : (view.toView.coinsAt txin.prevout.hash).spend txin.prevout.n with
  | none =>
    rw [spendEdit, spends] at result
    cases result
  | some outcome =>
    obtain ⟨remaining, record⟩ := outcome
    have remainingWellFormed : remaining.WellFormed :=
      (valid.wellFormed txin.prevout.hash).spend spends
    rw [spendEdit, spends] at result modified
    cases result
    have answer := modified.answer
    rw [remainingWellFormed.trimmed] at answer
    refine ⟨remaining, rfl, answer, modified.others, valid.modified modified ?_⟩
    rw [remainingWellFormed.trimmed]
    exact remainingWellFormed

variable {view : CCoinsViewCache}

/-- What spending a list of inputs did: the first one, then the rest. -/
theorem spendInputs_cons_eq_some
    (spent : spendInputs (txin :: rest) view = some (undos, final)) :
    ∃ undo next undosRest,
      view.modifyCoins txin.prevout.hash (spendEdit txin.prevout.n) = (some undo, next) ∧
      spendInputs rest next = some (undosRest, final) ∧ undos = undo :: undosRest := by
  rw [spendInputs] at spent
  split at spent
  · cases spent
  · rename_i undo next spends
    simp only [Option.map_eq_some_iff, Prod.mk.injEq] at spent
    obtain ⟨⟨undosRest, finalRest⟩, spentRest, rfl, finalEq⟩ := spent
    exact ⟨undo, next, undosRest, spends, finalEq ▸ spentRest, rfl⟩

theorem spendInputs_of_valid
    {view final : CCoinsViewCache}
    (valid : view.Valid)
    (spent : spendInputs txins view = some (undos, final)) :
    final.Valid ∧ undos.length = txins.length := by
  induction txins generalizing view undos with
  | nil =>
    obtain ⟨rfl, rfl⟩ := spent
    exact ⟨valid, rfl⟩
  | cons txin rest ih =>
    obtain ⟨undo, next, undosRest, spends, spentRest, rfl⟩ :=
      spendInputs_cons_eq_some spent
    obtain ⟨_, _, _, _, nextValid⟩ := modifyCoins_spendEdit valid spends
    obtain ⟨finalValid, lengths⟩ := ih nextValid spentRest
    exact ⟨finalValid, by rw [List.length_cons, List.length_cons, lengths]⟩

theorem haveInput_eq (view : CCoinsViewCache) (txin : CTxIn) :
    view.haveInput txin = (view.toView.coinsAt txin.prevout.hash).isAvailable txin.prevout.n := by
  rw [← CCoinsView.getD_getCoins]
  unfold haveInput accessCoins
  cases (view.toView.getCoins txin.prevout.hash).1 with
  | none => rfl
  | some coins => rfl

theorem getOutputFor_of_haveInput
    (have' : view.haveInput txin = true) :
    view.getOutputFor txin = (view.toView.coinsAt txin.prevout.hash).vout[txin.prevout.n]? := by
  have answer := CCoinsView.getD_getCoins view.toView txin.prevout.hash
  unfold getOutputFor
  rw [if_pos have']
  rw [haveInput] at have'
  unfold accessCoins at have' ⊢
  cases found : (view.toView.getCoins txin.prevout.hash).1 with
  | none =>
    rw [found] at have'
    cases have'
  | some coins =>
    rw [found] at answer
    rw [← answer]
    rfl

/-- An available output can be spent, and spending it leaves the inputs that name
other outputs theirs. -/
theorem modifyCoins_spendEdit_of_haveInput
    (valid : view.Valid)
    (have' : view.haveInput txin = true) :
    ∃ undo next,
      view.modifyCoins txin.prevout.hash (spendEdit txin.prevout.n) =
        (some undo, next) ∧ next.Valid ∧
      ∀ other, other.prevout ≠ txin.prevout → view.haveInput other = true →
        next.haveInput other = true := by
  have result := (modifyCoins_of_sound valid.sound txin.prevout.hash
    (spendEdit txin.prevout.n)).1
  have spendable : ((view.toView.coinsAt txin.prevout.hash).spend
      txin.prevout.n).isSome = true := by
    rw [haveInput_eq] at have'
    rw [CCoins.spend_isSome_iff]
    unfold CCoins.isAvailable at have'
    cases atPosition : (view.toView.coinsAt txin.prevout.hash).vout[txin.prevout.n]? with
    | none => simp [atPosition] at have'
    | some txout =>
      simp only [atPosition, Bool.and_eq_true, Bool.not_eq_true'] at have'
      exact ⟨txout, rfl, have'.1⟩
  obtain ⟨⟨remaining, undo⟩, spends⟩ := Option.isSome_iff_exists.mp spendable
  have modified : view.modifyCoins txin.prevout.hash (spendEdit txin.prevout.n) =
      (some undo, (view.modifyCoins txin.prevout.hash (spendEdit txin.prevout.n)).2) := by
    rw [spendEdit, spends] at result
    exact Prod.ext result rfl
  obtain ⟨remaining', spends', answer, others, nextValid⟩ :=
    modifyCoins_spendEdit valid modified
  refine ⟨undo, _, modified, nextValid, ?_⟩
  intro other different available
  rw [haveInput_eq] at available ⊢
  by_cases sameHash : other.prevout.hash = txin.prevout.hash
  · have otherN : other.prevout.n ≠ txin.prevout.n := by
      intro sameN
      exact different (COutPoint.ext sameHash sameN)
    rw [sameHash] at available ⊢
    have kept := CCoins.isAvailable_of_spend spends' otherN available
    have unspent : remaining'.isPruned = false := by
      unfold CCoins.isAvailable at kept
      cases atOther : remaining'.vout[other.prevout.n]? with
      | none => simp [atOther] at kept
      | some txout =>
        simp only [atOther, Bool.and_eq_true, Bool.not_eq_true'] at kept
        rw [CCoins.isPruned, List.all_eq_false]
        exact ⟨txout, List.mem_of_getElem? atOther, by simp [kept.1]⟩
    rw [CCoins.same_comm] at answer
    rw [← CCoins.eq_of_same answer unspent]
    exact kept
  · rw [others _ sameHash]
    exact available

/-- Inputs with distinct outpoints that have their coins are all spent. -/
theorem spendInputs_isSome
    (valid : view.Valid)
    (distinct : (txins.map CTxIn.prevout).Nodup)
    (available : ∀ txin ∈ txins, view.haveInput txin = true) :
    (spendInputs txins view).isSome = true := by
  induction txins generalizing view with
  | nil => rfl
  | cons txin rest ih =>
    rw [List.map_cons, List.nodup_cons] at distinct
    obtain ⟨undo, next, spends, nextValid, kept⟩ :=
      modifyCoins_spendEdit_of_haveInput valid (available txin List.mem_cons_self)
    have others : ∀ other ∈ rest, next.haveInput other = true := by
      intro other member
      apply kept other
      · intro equal
        exact distinct.1 (equal ▸ List.mem_map_of_mem member)
      · exact available other (List.mem_cons_of_mem _ member)
    have spentRest := ih nextValid distinct.2 others
    rw [spendInputs, spends]
    simpa using spentRest

/-- Adding the outputs of a transaction without negative ones. -/
theorem modified_fromTx
    (nHeight : Int)
    (valid : view.Valid)
    (nonneg : ∀ txout ∈ tx.vout, 0 ≤ txout.nValue) :
    let next := (view.modifyCoins tx.hash fun _ => ((), CCoins.fromTx tx nHeight)).2
    (next.toView.coinsAt tx.hash).same (CCoins.fromTx tx nHeight) = true ∧
      (∀ other, other ≠ tx.hash →
        next.toView.coinsAt other = view.toView.coinsAt other) ∧
      next.Valid := by
  intro next
  have modified := (modifyCoins_of_sound valid.sound tx.hash fun _ =>
    ((), CCoins.fromTx tx nHeight)).2
  have made := CCoins.wellFormed_fromTx nonneg nHeight
  have answer := modified.answer
  rw [made.trimmed] at answer
  refine ⟨answer, modified.others, valid.modified modified ?_⟩
  rw [made.trimmed]
  exact made

/-- What a successful `UpdateCoins` did: it spent the inputs, unless the
transaction spends none from the view, and added the outputs. -/
theorem updateCoins_eq_some
    (updated : updateCoins tx view nHeight = some (txundo, final)) :
    ∃ spent, (if tx.spendsNoCoins then some ([], view) else spendInputs tx.vin view) =
        some (txundo.vprevout, spent) ∧
      final = (spent.modifyCoins tx.hash fun _ => ((), CCoins.fromTx tx nHeight)).2 := by
  simp only [updateCoins, Option.map_eq_some_iff, Prod.mk.injEq] at updated
  obtain ⟨⟨vprevout, spent⟩, spends, rfl, rfl⟩ := updated
  exact ⟨spent, spends, rfl⟩

theorem updateCoins_of_valid
    (valid : view.Valid)
    (nonneg : ∀ txout ∈ tx.vout, 0 ≤ txout.nValue)
    (updated : updateCoins tx view nHeight = some (txundo, final)) :
    final.Valid := by
  obtain ⟨spent, spends, rfl⟩ := updateCoins_eq_some updated
  have spentValid : spent.Valid := by
    by_cases exempt : tx.spendsNoCoins = true
    · rw [if_pos exempt, Option.some.injEq, Prod.mk.injEq] at spends
      exact spends.2 ▸ valid
    · rw [if_neg exempt] at spends
      exact (spendInputs_of_valid valid spends).1
  exact (modified_fromTx nHeight spentValid nonneg).2.2

/-- What applying a list of transactions did: the first one, then the rest. -/
theorem updateCoinsAll_cons_eq_some
    (updated : updateCoinsAll (tx :: rest) view nHeight = some (txundos, final)) :
    ∃ txundo next txundosRest, updateCoins tx view nHeight = some (txundo, next) ∧
      updateCoinsAll rest next nHeight = some (txundosRest, final) ∧
      txundos = txundo :: txundosRest := by
  rw [updateCoinsAll] at updated
  split at updated
  · cases updated
  · rename_i txundo next updatesOne
    simp only [Option.map_eq_some_iff, Prod.mk.injEq] at updated
    obtain ⟨⟨txundosRest, finalRest⟩, updatedRest, rfl, finalEq⟩ := updated
    exact ⟨txundo, next, txundosRest, updatesOne, finalEq ▸ updatedRest, rfl⟩

theorem updateCoinsAll_of_valid
    (valid : view.Valid)
    (nonneg : ∀ tx ∈ txs, ∀ txout ∈ tx.vout, 0 ≤ txout.nValue)
    (updated : updateCoinsAll txs view nHeight = some (txundos, final)) :
    final.Valid := by
  induction txs generalizing view txundos with
  | nil =>
    simp only [updateCoinsAll, Option.some.injEq, Prod.mk.injEq] at updated
    exact updated.2 ▸ valid
  | cons tx rest ih =>
    obtain ⟨txundo, next, txundosRest, updatesOne, updatedRest, _⟩ :=
      updateCoinsAll_cons_eq_some updated
    exact ih
      (updateCoins_of_valid valid (nonneg tx List.mem_cons_self) updatesOne)
      (fun other present => nonneg other (List.mem_cons_of_mem _ present)) updatedRest

end CCoinsViewCache
end ColossusCoin
