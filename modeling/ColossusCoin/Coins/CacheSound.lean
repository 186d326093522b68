import ColossusCoin.Coins.Cache

/-!
# What the operations of a cache do

One lemma for each operation on a view whose caches are sound: what it answers,
what the view answers afterwards, and that the flags of every layer still say
the truth about the layer below.
-/

namespace ColossusCoin
namespace CCoinsView

theorem EntrySound.rebase
    {base other : CCoinsView}
    (sound : base.EntrySound txid entry)
    (answers : (other.coinsAt txid).same (base.coinsAt txid) = true)
    (held : entry.fresh = false → base.Holds txid → other.Holds txid) :
    other.EntrySound txid entry where
  trimmed := sound.trimmed
  fresh := by
    intro fresh
    rw [CCoins.isPruned_eq_of_same answers]
    exact sound.fresh fresh
  held := fun notFresh => held notFresh (sound.held notFresh)
  current := by
    intro notDirty
    rw [CCoins.same_comm] at answers
    exact CCoins.same_trans (sound.current notDirty) answers

variable {view : CCoinsView}

/-- A cache stays sound over another base with the same answers, when that base
still holds what the cache fetched. -/
theorem Sound.rebase
    {hashBlock hashBlockNext : Uint256}
    (sound : (cache cacheCoins hashBlock base).Sound)
    (otherSound : other.Sound)
    (answers : ∀ txid entry, cacheCoins.lookup txid = some entry →
      (other.coinsAt txid).same (base.coinsAt txid) = true)
    (held : ∀ txid entry, cacheCoins.lookup txid = some entry →
      entry.fresh = false → base.Holds txid → other.Holds txid) :
    (cache cacheCoins hashBlockNext other).Sound :=
  ⟨otherSound, fun txid entry found =>
    (sound.2 txid entry found).rebase (answers txid entry found) (held txid entry found)⟩

theorem coinsAt_of_lookup
    (found : cacheCoins.lookup txid = some entry) :
    (cache cacheCoins hashBlock base).coinsAt txid = entry.coins := by
  simp only [coinsAt, found]

theorem coinsAt_of_lookup_eq_none
    (absent : cacheCoins.lookup txid = none) :
    (cache cacheCoins hashBlock base).coinsAt txid = base.coinsAt txid := by
  simp only [coinsAt, absent]

theorem cleanup_coinsAt
    (sound : view.Sound)
    (txid : Uint256) :
    (view.coinsAt txid).cleanup = view.coinsAt txid := by
  induction view with
  | db stored hashBestChain =>
    simp only [coinsAt]
    cases stored.lookup txid with
    | none => rfl
    | some coins => exact CCoins.cleanup_cleanup coins
  | cache cacheCoins hashBlock base ih =>
    cases found : cacheCoins.lookup txid with
    | none =>
      rw [coinsAt_of_lookup_eq_none found]
      exact ih sound.1
    | some entry =>
      rw [coinsAt_of_lookup found]
      exact (sound.2 txid entry found).trimmed

/-- The second view came from the first by filling caches. -/
structure Fetched (view fetched : CCoinsView) : Prop where
  answers : ∀ txid, fetched.coinsAt txid = view.coinsAt txid
  holds : ∀ txid, view.Holds txid → fetched.Holds txid
  sound : view.Sound → fetched.Sound

theorem Fetched.refl (view : CCoinsView) : Fetched view view where
  answers := fun _ => rfl
  holds := fun _ => id
  sound := id

theorem Fetched.rebase
    (fetched : Fetched base fetchedBase) :
    Fetched (cache cacheCoins hashBlock base) (cache cacheCoins hashBlock fetchedBase) where
  answers := by
    intro txid
    simp only [coinsAt, fetched.answers]
  holds := fun _ => id
  sound := fun sound =>
    sound.rebase (fetched.sound sound.1)
      (fun txid _ _ => by rw [fetched.answers]; exact CCoins.same_refl _)
      (fun txid _ _ _ => fetched.holds txid)

/-- `GetCoins` answers with the view's coins, or not at all where those are
cleared. -/
theorem getD_getCoins (view : CCoinsView) (txid : Uint256) :
    (view.getCoins txid).1.getD CCoins.cleared = view.coinsAt txid := by
  induction view with
  | db stored hashBestChain => rfl
  | cache cacheCoins hashBlock base ih =>
    unfold getCoins
    cases found : cacheCoins.lookup txid with
    | some entry => rw [coinsAt_of_lookup found]; rfl
    | none =>
      rw [coinsAt_of_lookup_eq_none found, ← ih]
      rcases base.getCoins txid with ⟨_ | coins, fetchedBase⟩ <;> rfl

private theorem insert_fetchedEntry
    (absent : cacheCoins.lookup txid = none)
    (fetched : Fetched base fetchedBase)
    (holds : fetchedBase.Holds txid) :
    Fetched (cache cacheCoins hashBlock base)
      (cache (cacheCoins.insert txid (fetchedEntry (base.coinsAt txid)))
        hashBlock fetchedBase) where
  answers := by
    intro other
    by_cases same : other = txid
    · subst same
      rw [coinsAt_of_lookup (AList.lookup_insert cacheCoins), coinsAt_of_lookup_eq_none absent]
      rfl
    · simp only [coinsAt, AList.lookup_insert_ne same, fetched.answers]
  holds := by
    intro other held
    by_cases same : other = txid
    · subst same
      simp [Holds, AList.lookup_insert]
    · simpa only [Holds, AList.lookup_insert_ne same] using held
  sound := by
    intro sound
    refine ⟨fetched.sound sound.1, ?_⟩
    intro other entry found
    by_cases same : other = txid
    · subst same
      rw [AList.lookup_insert, Option.some.injEq] at found
      subst found
      refine ⟨cleanup_coinsAt sound.1 other, ?_, fun _ => holds, ?_⟩
      · intro pruned
        rw [fetched.answers]
        exact pruned
      · intro _
        rw [fetched.answers]
        exact CCoins.same_refl _
    · rw [AList.lookup_insert_ne same] at found
      exact (fetched.rebase.sound sound).2 other entry found

/-- What `GetCoins` leaves: the same answers, and an entry for the coins it
returned. -/
theorem fetched_getCoins (view : CCoinsView) (txid : Uint256) :
    Fetched view (view.getCoins txid).2 ∧
      ((view.getCoins txid).1.isSome = true → (view.getCoins txid).2.Holds txid) := by
  induction view with
  | db stored hashBestChain => exact ⟨Fetched.refl _, fun _ => trivial⟩
  | cache cacheCoins hashBlock base ih =>
    have answer := getD_getCoins base txid
    unfold getCoins
    cases found : cacheCoins.lookup txid with
    | some entry =>
      refine ⟨Fetched.refl _, fun _ => ?_⟩
      simp [Holds, found]
    | none =>
      cases fetch : base.getCoins txid with
      | mk coins fetchedBase =>
        rw [fetch] at ih answer
        cases coins with
        | none =>
          refine ⟨ih.1.rebase, fun returned => ?_⟩
          cases returned
        | some coins =>
          subst answer
          refine ⟨insert_fetchedEntry found ih.1 (ih.2 rfl), fun _ => ?_⟩
          simp [Holds, AList.lookup_insert]

theorem haveCoins_eq
    (sound : view.Sound)
    (txid : Uint256) :
    (view.haveCoins txid).1 = !(view.coinsAt txid).isPruned := by
  have answer := getD_getCoins view txid
  have trimmed := cleanup_coinsAt sound txid
  unfold haveCoins
  cases fetch : view.getCoins txid with
  | mk coins fetched =>
    rw [fetch] at answer
    cases coins with
    | none =>
      rw [← answer]
      rfl
    | some coins =>
      rw [← answer] at trimmed ⊢
      exact congrArg (!·) (CCoins.isEmpty_vout_of_trimmed trimmed)

/-! ## Taking over a child's entries -/

/-- Two pruned coins are equal. -/
private theorem same_of_isPruned
    {left right : CCoins}
    (leftPruned : left.isPruned = true)
    (rightPruned : right.isPruned = true) :
    left.same right = true :=
  (CCoins.same_iff left right).mpr (Or.inl ⟨leftPruned, rightPruned⟩)

/-- What is left of an entry and its child's is sound over the base and answers
what the child answered. -/
structure Absorbed (base : CCoinsView) (txid : Uint256)
    (theirs : CCoinsCacheEntry) (merged : Option CCoinsCacheEntry) : Prop where
  sound : ∀ entry, merged = some entry → base.EntrySound txid entry
  answer : (merged.elim (base.coinsAt txid) CCoinsCacheEntry.coins).same
    theirs.coins = true

private theorem Absorbed.none
    (answer : (base.coinsAt txid).same theirs.coins = true) :
    Absorbed base txid theirs none where
  sound := by simp
  answer := answer

private theorem Absorbed.some
    (sound : base.EntrySound txid entry)
    (answer : entry.coins.same theirs.coins = true) :
    Absorbed base txid theirs (some entry) where
  sound := by
    intro other equal
    rw [Option.some.injEq] at equal
    exact equal ▸ sound
  answer := answer

private theorem mergedEntry_of_absent
    (found : cacheCoins.lookup txid = none)
    (theirsSound : (cache cacheCoins hashBlock base).EntrySound txid theirs) :
    ∃ merged, mergedEntry none theirs = some merged ∧
      Absorbed base txid theirs merged := by
  have answer : (cache cacheCoins hashBlock base).coinsAt txid = base.coinsAt txid :=
    coinsAt_of_lookup_eq_none found
  -- An entry that is not fresh was fetched through this cache, which has none.
  have fresh : theirs.fresh = true := by
    by_contra notFresh
    have held := theirsSound.held (by simpa using notFresh)
    simp [Holds, found] at held
  have basePruned : (base.coinsAt txid).isPruned = true := by
    rw [← answer]
    exact theirsSound.fresh fresh
  unfold mergedEntry
  cases dirty : theirs.dirty with
  | false =>
    refine ⟨none, rfl, Absorbed.none ?_⟩
    rw [CCoins.same_comm, ← answer]
    exact theirsSound.current dirty
  | true =>
    cases pruned : theirs.coins.isPruned with
    | true =>
      exact ⟨none, rfl, Absorbed.none (same_of_isPruned basePruned pruned)⟩
    | false =>
      refine ⟨some { coins := theirs.coins, dirty := true, fresh := true },
        by rw [fresh]; rfl, Absorbed.some ?_ (CCoins.same_refl _)⟩
      exact ⟨theirsSound.trimmed, fun _ => basePruned, nofun, nofun⟩

private theorem mergedEntry_of_present
    (found : cacheCoins.lookup txid = some ours)
    (oursSound : base.EntrySound txid ours)
    (theirsSound : (cache cacheCoins hashBlock base).EntrySound txid theirs) :
    ∃ merged, mergedEntry (some ours) theirs = some merged ∧
      Absorbed base txid theirs merged := by
  have answer : (cache cacheCoins hashBlock base).coinsAt txid = ours.coins :=
    coinsAt_of_lookup found
  unfold mergedEntry
  cases dirty : theirs.dirty with
  | false =>
    refine ⟨some ours, rfl, Absorbed.some oursSound ?_⟩
    rw [CCoins.same_comm, ← answer]
    exact theirsSound.current dirty
  | true =>
    cases dropped : (ours.fresh && theirs.coins.isPruned) with
    | true =>
      refine ⟨none, by simp only [dropped]; rfl, Absorbed.none ?_⟩
      rw [Bool.and_eq_true] at dropped
      exact same_of_isPruned (oursSound.fresh dropped.1) dropped.2
    | false =>
      refine ⟨some { ours with coins := theirs.coins, dirty := true },
        by simp only [dropped]; rfl, Absorbed.some ?_ (CCoins.same_refl _)⟩
      exact ⟨theirsSound.trimmed, oursSound.fresh, oursSound.held, nofun⟩

theorem mergedEntry_of_sound
    (sound : (cache cacheCoins hashBlock base).Sound)
    (theirsSound : (cache cacheCoins hashBlock base).EntrySound txid theirs) :
    ∃ merged, mergedEntry (cacheCoins.lookup txid) theirs = some merged ∧
      Absorbed base txid theirs merged := by
  cases found : cacheCoins.lookup txid with
  | none => exact mergedEntry_of_absent found theirsSound
  | some ours =>
    exact mergedEntry_of_present found (sound.2 txid ours found) theirsSound

theorem storedEntry_of_sound
    (theirsSound : (db stored hashBestChain).EntrySound txid theirs) :
    ∃ written, storedEntry (stored.lookup txid) theirs = some written ∧
      (((written.map CCoins.cleanup).getD CCoins.cleared).same theirs.coins = true) := by
  unfold storedEntry
  cases dirty : theirs.dirty with
  | false =>
    refine ⟨_, rfl, ?_⟩
    rw [CCoins.same_comm]
    exact theirsSound.current dirty
  | true =>
    cases pruned : theirs.coins.isPruned with
    | true => exact ⟨none, rfl, same_of_isPruned CCoins.isPruned_cleared pruned⟩
    | false =>
      refine ⟨some theirs.coins, rfl, ?_⟩
      rw [Option.map_some, Option.getD_some, theirsSound.trimmed]
      exact CCoins.same_refl _

private theorem batchWrite_db
    (sound : (cache cacheCoins hashBlock (db stored hashBestChain)).Sound) :
    ∃ written, (db stored hashBestChain).batchWrite cacheCoins hashBlock =
        some written ∧ written.Sound ∧
      ∀ txid, (written.coinsAt txid).same
        ((cache cacheCoins hashBlock (db stored hashBestChain)).coinsAt txid) =
          true := by
  have succeeds : (KeyedMerge.merge storedEntry stored cacheCoins).isSome = true := by
    apply KeyedMerge.merge_isSome
    intro txid theirs found
    obtain ⟨written, stores, _⟩ := storedEntry_of_sound (sound.2 txid theirs found)
    rw [stores]
    rfl
  obtain ⟨written, merged⟩ := Option.isSome_iff_exists.mp succeeds
  refine ⟨db written _, by rw [batchWrite, merged]; rfl, trivial, ?_⟩
  intro txid
  cases found : cacheCoins.lookup txid with
  | none =>
    rw [coinsAt_of_lookup_eq_none found]
    simp only [coinsAt, KeyedMerge.lookup_of_merge merged found, CCoins.same_refl]
  | some theirs =>
    obtain ⟨result, stores, answer⟩ :=
      storedEntry_of_sound (sound.2 txid theirs found)
    rw [KeyedMerge.combine_of_merge merged found, Option.some.injEq] at stores
    rw [coinsAt_of_lookup found, coinsAt, stores]
    exact answer

private theorem batchWrite_cache
    (sound : (cache cacheCoins hashBlock (cache own hashOwn below)).Sound) :
    ∃ written, (cache own hashOwn below).batchWrite cacheCoins hashBlock =
        some written ∧ written.Sound ∧
      ∀ txid, (written.coinsAt txid).same
        ((cache cacheCoins hashBlock (cache own hashOwn below)).coinsAt txid) =
          true := by
  obtain ⟨ownSound, entriesSound⟩ := sound
  have succeeds : (KeyedMerge.merge mergedEntry own cacheCoins).isSome = true := by
    apply KeyedMerge.merge_isSome
    intro txid theirs found
    obtain ⟨result, merges, _⟩ :=
      mergedEntry_of_sound ownSound (entriesSound txid theirs found)
    rw [merges]
    rfl
  obtain ⟨written, merged⟩ := Option.isSome_iff_exists.mp succeeds
  have absorbed : ∀ txid theirs, cacheCoins.lookup txid = some theirs →
      Absorbed below txid theirs (written.lookup txid) := by
    intro txid theirs found
    obtain ⟨result, merges, absorbed⟩ :=
      mergedEntry_of_sound ownSound (entriesSound txid theirs found)
    rw [KeyedMerge.combine_of_merge merged found, Option.some.injEq] at merges
    rw [merges]
    exact absorbed
  refine ⟨cache written hashBlock below, by rw [batchWrite, merged]; rfl, ⟨ownSound.1, ?_⟩, ?_⟩
  · intro txid entry present
    cases found : cacheCoins.lookup txid with
    | none =>
      rw [KeyedMerge.lookup_of_merge merged found] at present
      exact ownSound.2 txid entry present
    | some theirs => exact (absorbed txid theirs found).sound entry present
  · intro txid
    cases found : cacheCoins.lookup txid with
    | none =>
      rw [coinsAt_of_lookup_eq_none found]
      simp only [coinsAt, KeyedMerge.lookup_of_merge merged found, CCoins.same_refl]
    | some theirs =>
      have answer := (absorbed txid theirs found).answer
      rw [coinsAt_of_lookup found, coinsAt]
      cases left : written.lookup txid with
      | none =>
        rw [left] at answer
        exact answer
      | some entry =>
        rw [left] at answer
        exact answer

/-- Writing a sound cache back meets no failing assertion; the base is sound
again and answers what the cache answered. -/
theorem batchWrite_of_sound
    (sound : (cache cacheCoins hashBlock base).Sound) :
    ∃ written, base.batchWrite cacheCoins hashBlock = some written ∧
      written.Sound ∧
      ∀ txid, (written.coinsAt txid).same
        ((cache cacheCoins hashBlock base).coinsAt txid) = true := by
  cases base with
  | db stored hashBestChain => exact batchWrite_db sound
  | cache own hashOwn below => exact batchWrite_cache sound

end CCoinsView

namespace CCoinsViewCache

open CCoinsView

/-- The entry that `ModifyCoins` hands out holds the cache's coins, and would be
sound over the base that was asked. -/
theorem modifiedEntry_of_sound
    {cache : CCoinsViewCache}
    (sound : cache.toView.Sound)
    (txid : Uint256) :
    (cache.modifiedEntry txid).1.coins = cache.toView.coinsAt txid ∧
      (cache.modifiedEntry txid).1.dirty = true ∧
      Fetched cache.base (cache.modifiedEntry txid).2 ∧
      (cache.modifiedEntry txid).2.EntrySound txid (cache.modifiedEntry txid).1 := by
  obtain ⟨cacheCoins, hashBlock, base⟩ := cache
  unfold modifiedEntry
  cases found : cacheCoins.lookup txid with
  | some entry =>
    have entrySound := sound.2 txid entry found
    refine ⟨(coinsAt_of_lookup found).symm, rfl, Fetched.refl _, ?_⟩
    exact ⟨entrySound.trimmed, entrySound.fresh, entrySound.held, nofun⟩
  | none =>
    have answer := getD_getCoins base txid
    have fetched := fetched_getCoins base txid
    have trimmed := cleanup_coinsAt sound.1 txid
    have below : (CCoinsView.cache cacheCoins hashBlock base).coinsAt txid = base.coinsAt txid :=
      coinsAt_of_lookup_eq_none found
    simp only [toView, below]
    cases fetch : base.getCoins txid with
    | mk coins fetchedBase =>
      rw [fetch] at answer fetched
      cases coins with
      | none =>
        refine ⟨answer, rfl, fetched.1, rfl, fun _ => ?_, nofun, nofun⟩
        rw [fetched.1.answers, ← answer]
        rfl
      | some coins =>
        subst answer
        refine ⟨rfl, rfl, fetched.1, trimmed, fun pruned => ?_, fun _ => fetched.2 rfl, nofun⟩
        rw [fetched.1.answers]
        exact pruned

/-- What the cache answers after a modification, at the edited transaction and
elsewhere. -/
structure Modified (before after : CCoinsView) (txid : Uint256) (edited : CCoins) :
    Prop where
  sound : after.Sound
  answer : (after.coinsAt txid).same edited.cleanup = true
  others : ∀ other, other ≠ txid → after.coinsAt other = before.coinsAt other

/-- An edit through `ModifyCoins` meets the cache's coins and takes effect there
alone. -/
theorem modifyCoins_of_sound
    {cache : CCoinsViewCache}
    (sound : cache.toView.Sound)
    (txid : Uint256) (edit : CCoins → α × CCoins) :
    (cache.modifyCoins txid edit).1 = (edit (cache.toView.coinsAt txid)).1 ∧
      Modified cache.toView (cache.modifyCoins txid edit).2.toView txid
        (edit (cache.toView.coinsAt txid)).2 := by
  obtain ⟨coinsEq, dirty, fetched, entrySound⟩ := modifiedEntry_of_sound sound txid
  rw [← coinsEq]
  unfold modifyCoins
  cases modified : cache.modifiedEntry txid with
  | mk entry fetchedBase =>
    rw [modified] at fetched entrySound dirty
    refine ⟨rfl, ⟨⟨fetched.sound sound.1, ?_⟩, ?_, ?_⟩⟩
    · intro other found present
      by_cases same : other = txid
      · subst same
        rw [KeyedMerge.lookup_put] at present
        unfold settledEntry at present
        split at present
        · cases present
        · rw [Option.some.injEq] at present
          subst present
          refine ⟨CCoins.cleanup_cleanup _, entrySound.fresh, entrySound.held, ?_⟩
          intro notDirty
          rw [dirty] at notDirty
          cases notDirty
      · rw [KeyedMerge.lookup_put_ne same] at present
        exact (fetched.rebase.sound sound).2 other found present
    · simp only [toView, coinsAt, KeyedMerge.lookup_put]
      unfold settledEntry
      cases dropped : (entry.fresh && (edit entry.coins).2.cleanup.isPruned) with
      | true =>
        rw [if_pos rfl]
        rw [Bool.and_eq_true] at dropped
        exact same_of_isPruned (entrySound.fresh dropped.1) dropped.2
      | false =>
        rw [if_neg Bool.false_ne_true]
        exact CCoins.same_refl _
    · intro other different
      simp only [toView, coinsAt, KeyedMerge.lookup_put_ne different, fetched.answers]

/-- A modification leaves the entries of the other transactions. -/
theorem holds_modifyCoins
    {cache : CCoinsViewCache}
    (edit : CCoins → α × CCoins)
    (different : other ≠ txid)
    (holds : cache.toView.Holds other) :
    (cache.modifyCoins txid edit).2.toView.Holds other := by
  change ((KeyedMerge.put cache.cacheCoins txid _).lookup other).isSome = true
  rw [KeyedMerge.lookup_put_ne different]
  exact holds

/-- Flushing a sound cache meets no failing assertion and changes no answer. -/
theorem flush_of_sound
    {cache : CCoinsViewCache}
    (sound : cache.toView.Sound) :
    ∃ flushed, cache.flush = some flushed ∧ flushed.toView.Sound ∧
      ∀ txid, (flushed.toView.coinsAt txid).same (cache.toView.coinsAt txid) =
        true := by
  obtain ⟨written, writes, writtenSound, answers⟩ := batchWrite_of_sound sound
  refine ⟨{ cache with cacheCoins := ∅, base := written }, ?_,
    ⟨writtenSound, fun txid entry present => ?_⟩, answers⟩
  · rw [flush, writes]
    rfl
  · rw [AList.lookup_empty] at present
    cases present

end CCoinsViewCache
end ColossusCoin
