import ColossusCoin.Coins.CacheSound
import ColossusCoin.Library.System

/-!
# A stack of caches is one map

Operations at any layer of a stack of caches, and the plain map from
transaction ids to coins that explains what they return.  The flags are sound
in every state that permitted operations reach, no permitted operation meets a
failing assertion, and the top layer answers what the map answers.
-/

namespace ColossusCoin

/-- An operation on the cache at a layer, the top one being layer zero. -/
inductive CoinsOp where
  | modifyCoins (layer : Nat) (txid : Uint256) (edit : CCoins → CCoins)
  | accessCoins (layer : Nat) (txid : Uint256)
  | haveCoins (layer : Nat) (txid : Uint256)
  | flush (layer : Nat)

/-- What an operation shows to the outside.  `GetCoins` and `AccessCoins` show
the same; an answer below the top layer is not shown. -/
inductive CoinsEvent where
  | modified (txid : Uint256) (handed edited : CCoins)
  | answered (txid : Uint256) (coins : Option CCoins)
  | had (txid : Uint256) (answer : Bool)
  | internal

/-- The layer an operation works on. -/
def CoinsOp.layer : CoinsOp → Nat
  | modifyCoins layer _ _ => layer
  | accessCoins layer _ => layer
  | haveCoins layer _ => layer
  | flush layer => layer

namespace CCoinsView

/-- Number of caches above the database. -/
def depth : CCoinsView → Nat
  | db _ _ => 0
  | cache _ _ base => base.depth + 1

/-- Empty caches over a view. -/
def emptyCaches : Nat → CCoinsView → CCoinsView
  | 0, view => view
  | layers + 1, view => cache ∅ 0 (emptyCaches layers view)

/-- Work on the cache at a layer and put it back in its place. -/
def atLayer (act : CCoinsViewCache → Option (α × CCoinsViewCache)) :
    Nat → CCoinsView → Option (α × CCoinsView)
  | _, db _ _ => none
  | 0, cache cacheCoins hashBlock base =>
    (act { cacheCoins := cacheCoins, hashBlock := hashBlock, base := base }).map
      fun (result, next) => (result, next.toView)
  | layer + 1, cache cacheCoins hashBlock base =>
    (atLayer act layer base).map
      fun (result, next) => (result, cache cacheCoins hashBlock next)

/-- Ask the view whose top is the cache at a layer. -/
def askLayer (ask : CCoinsView → α × CCoinsView) :
    Nat → CCoinsView → Option (α × CCoinsView)
  | _, db _ _ => none
  | 0, view => some (ask view)
  | layer + 1, cache cacheCoins hashBlock base =>
    (askLayer ask layer base).map
      fun (result, next) => (result, cache cacheCoins hashBlock next)

/-- One operation, `none` where an assertion fails or there is no such layer. -/
def step (view : CCoinsView) : CoinsOp → Option (CoinsEvent × CCoinsView)
  | .modifyCoins layer txid edit =>
    view.atLayer (fun cache => some (cache.modifyCoins txid fun coins =>
      (CoinsEvent.modified txid coins (edit coins), edit coins))) layer
  | .accessCoins layer txid =>
    (view.askLayer (fun layerView => layerView.getCoins txid) layer).map
      fun (coins, next) =>
        (if layer = 0 then .answered txid coins else .internal, next)
  | .haveCoins layer txid =>
    (view.askLayer (fun layerView => layerView.haveCoins txid) layer).map
      fun (answer, next) =>
        (if layer = 0 then .had txid answer else .internal, next)
  | .flush layer =>
    view.atLayer (fun cache =>
      cache.flush.map fun flushed => (CoinsEvent.internal, flushed)) layer

/-- No layer above the given one has an entry for the transaction. -/
def Uncached (txid : Uint256) : Nat → CCoinsView → Prop
  | 0, _ => True
  | _ + 1, db _ _ => True
  | layer + 1, cache cacheCoins _ base =>
    cacheCoins.lookup txid = none ∧ base.Uncached txid layer

/-- The layer directly above the given one relies on none of its entries: all it
has are `FRESH`. -/
def Released : Nat → CCoinsView → Prop
  | 0, _ => True
  | _ + 1, db _ _ => True
  | 1, cache cacheCoins _ _ =>
    ∀ txid entry, cacheCoins.lookup txid = some entry → entry.fresh = true
  | layer + 2, cache _ _ base => base.Released (layer + 1)

/-- The operation names a cache of the stack. -/
def HasLayer (view : CCoinsView) (op : CoinsOp) : Prop :=
  op.layer < view.depth

/-- How a stack of caches is used: coins are modified below no cached copy of
them, and a cache is flushed under a cache that fetched nothing through it. -/
def Permits (view : CCoinsView) (op : CoinsOp) : Prop :=
  view.HasLayer op ∧
    match op with
    | .modifyCoins layer txid _ => view.Uncached txid layer
    | .flush layer => view.Released layer
    | .accessCoins _ _ | .haveCoins _ _ => True

/-- Every `FRESH` entry of every layer has no unpruned coins in its parent. -/
def FreshSound : CCoinsView → Prop
  | db _ _ => True
  | cache cacheCoins _ base =>
    base.FreshSound ∧
      ∀ txid entry, cacheCoins.lookup txid = some entry → entry.fresh = true →
        (base.coinsAt txid).isPruned = true

end CCoinsView

/-- Stacks of caches, with the operations that are permitted. -/
def coinsSystem (permitted : CCoinsView → CoinsOp → Prop) :
    LabelledSystem CCoinsView CoinsEvent where
  Step stack event next :=
    ∃ op, permitted stack op ∧ stack.step op = some (event, next)

/-- One plain map from transaction ids to coins, cleared coins standing for
absent ones, with answers up to `operator==`. -/
def coinsMapSystem : LabelledSystem (Uint256 → CCoins) CoinsEvent where
  Step map event next :=
    match event with
    | .modified txid handed edited =>
      handed.same (map txid) = true ∧
        next = Function.update map txid edited.cleanup
    | .answered txid coins =>
      (coins.getD CCoins.cleared).same (map txid) = true ∧ next = map
    | .had txid answer => answer = !(map txid).isPruned ∧ next = map
    | .internal => next = map

namespace CCoinsView

variable {view : CCoinsView}

theorem freshSound_of_sound
    (sound : view.Sound) :
    view.FreshSound := by
  induction view with
  | db stored hashBestChain => trivial
  | cache cacheCoins hashBlock base ih =>
    exact ⟨ih sound.1, fun txid entry found =>
      (sound.2 txid entry found).fresh⟩

theorem sound_emptyCaches
    (sound : view.Sound)
    (layers : Nat) :
    (emptyCaches layers view).Sound := by
  induction layers with
  | zero => exact sound
  | succ layers ih =>
    refine ⟨ih, fun txid entry found => ?_⟩
    rw [AList.lookup_empty] at found
    cases found

theorem coinsAt_emptyCaches
    (layers : Nat) (view : CCoinsView) (txid : Uint256) :
    (emptyCaches layers view).coinsAt txid = view.coinsAt txid := by
  induction layers with
  | zero => rfl
  | succ layers ih =>
    rw [emptyCaches, coinsAt_of_lookup_eq_none (AList.lookup_empty txid), ih]

/-- A modification below no cached copy takes effect on the whole stack. -/
theorem modifyCoins_atLayer
    (edit : CCoins → α × CCoins)
    (sound : view.Sound)
    (hasLayer : layer < view.depth)
    (uncached : view.Uncached txid layer) :
    ∃ next, view.atLayer (fun cache => some (cache.modifyCoins txid edit)) layer =
        some ((edit (view.coinsAt txid)).1, next) ∧
      CCoinsViewCache.Modified view next txid (edit (view.coinsAt txid)).2 ∧
      ∀ other, other ≠ txid → view.Holds other → next.Holds other := by
  induction view generalizing layer with
  | db stored hashBestChain => cases hasLayer
  | cache cacheCoins hashBlock base ih =>
    cases layer with
    | zero =>
      have spec := @CCoinsViewCache.modifyCoins_of_sound α
        ⟨cacheCoins, hashBlock, base⟩ sound txid edit
      refine ⟨_, ?_, spec.2, fun other different held =>
        CCoinsViewCache.holds_modifyCoins edit different held⟩
      exact congrArg (fun result => some (result, _)) spec.1
    | succ layer =>
      obtain ⟨absent, uncachedBelow⟩ := uncached
      obtain ⟨next, reached, modified, holds⟩ := ih sound.1
        (Nat.lt_of_succ_lt_succ hasLayer) uncachedBelow
      have answer : (cache cacheCoins hashBlock base).coinsAt txid = base.coinsAt txid :=
        coinsAt_of_lookup_eq_none absent
      have elsewhere : ∀ other entry, cacheCoins.lookup other = some entry →
          other ≠ txid := by
        rintro other entry found rfl
        rw [absent] at found
        cases found
      refine ⟨cache cacheCoins hashBlock next, ?_, ⟨?_, ?_, ?_⟩, fun other _ => id⟩
      · rw [atLayer, reached, answer]
        rfl
      · refine sound.rebase modified.sound ?_ ?_
        · intro other entry found
          rw [modified.others other (elsewhere other entry found)]
          exact CCoins.same_refl _
        · intro other entry found _
          exact holds other (elsewhere other entry found)
      · rw [coinsAt_of_lookup_eq_none absent, answer]
        exact modified.answer
      · intro other different
        simp only [coinsAt, modified.others other different]

/-- Flushing under a cache that fetched nothing through the flushed one changes
no answer of the stack. -/
theorem flush_atLayer
    (result : α)
    (sound : view.Sound)
    (hasLayer : layer < view.depth)
    (released : view.Released layer) :
    ∃ next, view.atLayer
        (fun cache => cache.flush.map fun flushed => (result, flushed)) layer =
        some (result, next) ∧
      next.Sound ∧
      (∀ txid, (next.coinsAt txid).same (view.coinsAt txid) = true) ∧
      (0 < layer → ∀ txid, view.Holds txid → next.Holds txid) := by
  induction view generalizing layer with
  | db stored hashBestChain => cases hasLayer
  | cache cacheCoins hashBlock base ih =>
    cases layer with
    | zero =>
      obtain ⟨flushed, flushes, flushedSound, answers⟩ :=
        @CCoinsViewCache.flush_of_sound ⟨cacheCoins, hashBlock, base⟩ sound
      refine ⟨flushed.toView, ?_, flushedSound, answers, nofun⟩
      rw [atLayer, flushes]
      rfl
    | succ layer =>
      have releasedBelow : base.Released layer := by
        cases layer with
        | zero => trivial
        | succ layer => exact released
      obtain ⟨next, reached, nextSound, answers, holds⟩ :=
        ih sound.1 (Nat.lt_of_succ_lt_succ hasLayer) releasedBelow
      refine ⟨cache cacheCoins hashBlock next, ?_, ?_, ?_, fun _ _ => id⟩
      · rw [atLayer, reached]
        rfl
      · refine sound.rebase nextSound (fun txid _ _ => answers txid) ?_
        intro txid entry found notFresh held
        cases layer with
        | zero =>
          rw [released txid entry found] at notFresh
          cases notFresh
        | succ layer => exact holds (Nat.succ_pos layer) txid held
      · intro txid
        cases found : cacheCoins.lookup txid with
        | none =>
          rw [coinsAt_of_lookup_eq_none found, coinsAt_of_lookup_eq_none found]
          exact answers txid
        | some entry =>
          rw [coinsAt_of_lookup found, coinsAt_of_lookup found]
          exact CCoins.same_refl _

theorem fetched_askLayer
    {ask : CCoinsView → α × CCoinsView}
    (asks : ∀ view, Fetched view (ask view).2)
    (hasLayer : layer < view.depth) :
    ∃ result next, view.askLayer ask layer = some (result, next) ∧
      Fetched view next ∧ (layer = 0 → result = (ask view).1) := by
  induction view generalizing layer with
  | db stored hashBestChain => cases hasLayer
  | cache cacheCoins hashBlock base ih =>
    cases layer with
    | zero => exact ⟨_, _, rfl, asks _, fun _ => rfl⟩
    | succ layer =>
      obtain ⟨result, next, reached, fetched, _⟩ :=
        ih (Nat.lt_of_succ_lt_succ hasLayer)
      refine ⟨result, cache cacheCoins hashBlock next, ?_, fetched.rebase, nofun⟩
      rw [askLayer, reached]
      rfl

theorem fetched_haveCoins (view : CCoinsView) (txid : Uint256) :
    Fetched view (view.haveCoins txid).2 := by
  have fetched := (fetched_getCoins view txid).1
  unfold haveCoins
  cases fetch : view.getCoins txid with
  | mk coins next =>
    rw [fetch] at fetched
    cases coins with
    | none => exact fetched
    | some coins => exact fetched

/-- The map answers what the top of a sound stack answers. -/
def Represents (view : CCoinsView) (map : Uint256 → CCoins) : Prop :=
  view.Sound ∧ ∀ txid, (view.coinsAt txid).same (map txid) = true

theorem Represents.fetched
    (represents : view.Represents map)
    (fetched : Fetched view next) :
    next.Represents map :=
  ⟨fetched.sound represents.1, fun txid => by
    rw [fetched.answers]
    exact represents.2 txid⟩

/-- A permitted operation succeeds, and the map explains what it shows. -/
theorem step_of_permits
    {op : CoinsOp}
    (represents : view.Represents map)
    (permits : view.Permits op) :
    ∃ event next nextMap, view.step op = some (event, next) ∧
      coinsMapSystem.Step map event nextMap ∧ next.Represents nextMap := by
  obtain ⟨sound, answers⟩ := represents
  obtain ⟨hasLayer, permitted⟩ := permits
  cases op with
  | modifyCoins layer txid edit =>
    obtain ⟨next, reached, modified, _⟩ := modifyCoins_atLayer
      (fun coins => (CoinsEvent.modified txid coins (edit coins), edit coins))
      sound hasLayer permitted
    refine ⟨_, next, Function.update map txid (edit (view.coinsAt txid)).cleanup,
      reached, ⟨answers txid, rfl⟩, modified.sound, fun other => ?_⟩
    by_cases same : other = txid
    · subst same
      rw [Function.update_self]
      exact modified.answer
    · rw [Function.update_of_ne same, modified.others other same]
      exact answers other
  | accessCoins layer txid =>
    change layer < view.depth at hasLayer
    obtain ⟨coins, next, reached, fetched, atTop⟩ := fetched_askLayer
      (fun layerView => (fetched_getCoins layerView txid).1) hasLayer
    refine ⟨if layer = 0 then .answered txid coins else .internal, next, map,
      ?_, ?_, Represents.fetched ⟨sound, answers⟩ fetched⟩
    · rw [step, reached]
      rfl
    · by_cases top : layer = 0
      · rw [if_pos top]
        refine ⟨?_, rfl⟩
        rw [atTop top, getD_getCoins]
        exact answers txid
      · rw [if_neg top]
        rfl
  | haveCoins layer txid =>
    change layer < view.depth at hasLayer
    obtain ⟨answer, next, reached, fetched, atTop⟩ := fetched_askLayer
      (fun layerView => fetched_haveCoins layerView txid) hasLayer
    refine ⟨if layer = 0 then .had txid answer else .internal, next, map,
      ?_, ?_, Represents.fetched ⟨sound, answers⟩ fetched⟩
    · rw [step, reached]
      rfl
    · by_cases top : layer = 0
      · rw [if_pos top]
        refine ⟨?_, rfl⟩
        rw [atTop top, haveCoins_eq sound, CCoins.isPruned_eq_of_same (answers txid)]
      · rw [if_neg top]
        rfl
  | flush layer =>
    obtain ⟨next, reached, nextSound, unchanged, _⟩ :=
      flush_atLayer CoinsEvent.internal sound hasLayer permitted
    exact ⟨.internal, next, map, reached, rfl, nextSound, fun txid =>
      CCoins.same_trans (unchanged txid) (answers txid)⟩

/-- Stacks used as permitted refine the plain map. -/
theorem coins_simulation :
    (coinsSystem Permits).Simulation coinsMapSystem Represents where
  step := by
    rintro view next event map represents ⟨op, permits, steps⟩
    obtain ⟨event', next', nextMap, steps', mapStep, nextRepresents⟩ :=
      step_of_permits represents permits
    rw [steps, Option.some.injEq, Prod.mk.injEq] at steps'
    obtain ⟨rfl, rfl⟩ := steps'
    exact ⟨nextMap, mapStep, nextRepresents⟩

/-- The coins of a database, before any operation. -/
def mapOfStored (stored : AList fun _ : Uint256 => CCoins) (txid : Uint256) :
    CCoins :=
  ((stored.lookup txid).map CCoins.cleanup).getD CCoins.cleared

/-- A run of permitted operations over any number of caches and any database is
a run of the plain map: it shows what the map shows, the `FRESH` flags are right
in the state it reaches, and there no permitted operation meets a failing
assertion. -/
theorem layeredCaches_refine_map
    {stored : AList fun _ : Uint256 => CCoins} {hashBestChain : Uint256}
    {layers : Nat} {trace : List CoinsEvent} {stack : CCoinsView}
    (run : (coinsSystem Permits).Run (emptyCaches layers (db stored hashBestChain))
      trace stack) :
    stack.FreshSound ∧
      (∀ op, stack.Permits op → (stack.step op).isSome = true) ∧
      ∃ map, coinsMapSystem.Run (mapOfStored stored) trace map ∧
        ∀ txid,
          ((stack.getCoins txid).1.getD CCoins.cleared).same (map txid) = true ∧
            (stack.haveCoins txid).1 = !(map txid).isPruned := by
  have start : (emptyCaches layers (db stored hashBestChain)).Represents
      (mapOfStored stored) := by
    refine ⟨@sound_emptyCaches (db stored hashBestChain) trivial layers,
      fun txid => ?_⟩
    rw [coinsAt_emptyCaches]
    exact CCoins.same_refl _
  obtain ⟨map, mapRun, represents⟩ := coins_simulation.run start run
  refine ⟨freshSound_of_sound represents.1, fun op permits => ?_,
    map, mapRun, fun txid => ⟨?_, ?_⟩⟩
  · obtain ⟨event, next, _, steps, _⟩ := step_of_permits represents permits
    rw [steps]
    rfl
  · rw [getD_getCoins]
    exact represents.2 txid
  · rw [haveCoins_eq represents.1, CCoins.isPruned_eq_of_same (represents.2 txid)]

/-- Coins with one unspent output. -/
def oneOutput : CCoins where
  fCoinBase := false
  fCoinStake := false
  vout := [{ nValue := 5, scriptPubKey := [] }]
  nHeight := 7
  nVersion := 1

/-- Two caches over an empty database: coins written through the top cache and
flushed once are answered again. -/
theorem layeredCaches_refine_map_written :
    ∃ stack : CCoinsView, stack.FreshSound ∧
      (stack.getCoins 1).1 = some oneOutput := by
  let written := (coinsSystem Permits).Run (emptyCaches 2 (db ∅ 0))
  have first : written [.modified 1 CCoins.cleared oneOutput]
      (cache (AList.singleton 1 ⟨oneOutput, true, true⟩) 0 (cache ∅ 0 (db ∅ 0))) :=
    .snoc .nil ⟨.modifyCoins 0 1 fun _ => oneOutput,
      ⟨Nat.succ_pos 1, trivial⟩, rfl⟩
  have second : written ([.modified 1 CCoins.cleared oneOutput] ++ [.internal])
      (cache ∅ 0 (cache (AList.singleton 1 ⟨oneOutput, true, true⟩) 0 (db ∅ 0))) :=
    .snoc first ⟨.flush 0, ⟨Nat.succ_pos 1, trivial⟩, rfl⟩
  exact ⟨_, (layeredCaches_refine_map second).1, rfl⟩

/-- Without the conditions on their use the caches fail: the middle cache is
flushed under a copy that the top one fetched through it, and the top one's
changes then find no entry to go to. -/
theorem layeredCaches_without_permits :
    ¬ ∀ (stored : AList fun _ : Uint256 => CCoins) (trace : List CoinsEvent)
        (stack : CCoinsView),
      (coinsSystem HasLayer).Run (emptyCaches 2 (db stored 0)) trace stack →
        ∀ op, stack.HasLayer op → (stack.step op).isSome = true := by
  intro neverFails
  let stored : AList fun _ : Uint256 => CCoins := AList.singleton 1 oneOutput
  let unspent : CCoinsMap := AList.singleton 1 ⟨oneOutput, false, false⟩
  have accessed : (coinsSystem HasLayer).Run (emptyCaches 2 (db stored 0))
      ([] ++ [.answered 1 oneOutput]) (cache unspent 0 (cache unspent 0 (db stored 0))) :=
    .snoc .nil ⟨.accessCoins 0 1, Nat.succ_pos 1, rfl⟩
  have flushed : (coinsSystem HasLayer).Run (emptyCaches 2 (db stored 0))
      ([] ++ [.answered 1 oneOutput] ++ [.internal])
      (cache unspent 0 (cache ∅ 0 (db stored 0))) :=
    .snoc accessed ⟨.flush 1, Nat.lt_succ_self 1, rfl⟩
  have modified : (coinsSystem HasLayer).Run (emptyCaches 2 (db stored 0))
      ([] ++ [.answered 1 oneOutput] ++ [.internal] ++
        [.modified 1 oneOutput oneOutput])
      (cache (AList.singleton 1 ⟨oneOutput, true, false⟩) 0 (cache ∅ 0 (db stored 0))) :=
    .snoc flushed ⟨.modifyCoins 0 1 id, Nat.succ_pos 1, rfl⟩
  have fails := neverFails stored _ _ modified (.flush 0) (Nat.succ_pos 1)
  exact absurd fails (by decide)

end CCoinsView
end ColossusCoin
