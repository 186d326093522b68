import ColossusCoin.Library.LatestWins
import ColossusCoin.Sporks.SignedStrings

/-!
# Convergence of the sporks

The active sporks of a node are registers that keep the message signed last.  Nodes that
process the same messages in different orders agree unless two messages about a spork
were signed at the same, latest time.
-/

namespace ColossusCoin

namespace CSporkMessage

/-- A message was signed after another one. -/
def SignedAfter (earlier later : CSporkMessage) : Prop :=
  earlier.nTimeSigned < later.nTimeSigned

instance : DecidableRel SignedAfter :=
  fun earlier later => inferInstanceAs (Decidable (earlier.nTimeSigned < later.nTimeSigned))

instance : IsStrictOrder CSporkMessage SignedAfter where
  irrefl spork := lt_irrefl spork.nTimeSigned
  trans _ _ _ before after := lt_trans before after

/-- The spork that a message is about, if it is in use. -/
def knownID (spork : CSporkMessage) : Option Int :=
  if getSporkNameByID spork.nSporkID = "Unknown" then none else some spork.nSporkID

end CSporkMessage

namespace SporkEnv

/-- The node handles spork messages. -/
structure Handles (env : SporkEnv) : Prop where
  full : env.fLiteMode = false
  tip : env.hasTip = true

end SporkEnv

namespace SporkState

/-- Process messages in their order. -/
def processSporks (env : SporkEnv) (state : SporkState) (sporks : List CSporkMessage) :
    SporkState :=
  sporks.foldl (fun current spork => (current.processSpork env spork).2) state

theorem mapSporksActive_processSpork
    (handles : env.Handles)
    (signed : spork.checkSignature env = true)
    (state : SporkState) :
    (state.processSpork env spork).2.mapSporksActive =
      LatestWins.deliver CSporkMessage.SignedAfter CSporkMessage.knownID
        state.mapSporksActive spork := by
  unfold processSpork LatestWins.deliver CSporkMessage.knownID
  rw [handles.full, handles.tip]
  by_cases unknown : getSporkNameByID spork.nSporkID = "Unknown"
  · simp [unknown]
  · simp only [unknown, signed, isSeen]
    cases active : state.mapSporksActive spork.nSporkID with
    | none => simp [active]
    | some held =>
      by_cases seen : spork.nTimeSigned ≤ held.nTimeSigned
      · have stale : ¬ CSporkMessage.SignedAfter held spork := not_lt.mpr seen
        simp [active, seen, stale]
      · have newer : CSporkMessage.SignedAfter held spork := not_le.mp seen
        simp [active, seen, newer]

theorem mapSporksActive_processSporks
    (handles : env.Handles)
    (signed : ∀ spork ∈ sporks, spork.checkSignature env = true)
    (state : SporkState) :
    (state.processSporks env sporks).mapSporksActive =
      sporks.foldl (LatestWins.deliver CSporkMessage.SignedAfter CSporkMessage.knownID)
        state.mapSporksActive := by
  induction sporks generalizing state with
  | nil => rfl
  | cons spork rest ih =>
    rw [List.forall_mem_cons] at signed
    have first := mapSporksActive_processSpork handles signed.1 state
    have remaining := ih signed.2 (state.processSpork env spork).2
    rw [List.foldl_cons, ← first, ← remaining]
    rfl

/-- A message that is about a spork in use, newer than the setting of the node, and not
older than any message of a set about its spork. -/
structure Latest
    (state : SporkState) (sporks : Finset CSporkMessage) (spork : CSporkMessage) : Prop where
  mem : spork ∈ sporks
  known : getSporkNameByID spork.nSporkID ≠ "Unknown"
  unseen : state.isSeen spork = false
  greatest : ∀ other ∈ sporks, other.nSporkID = spork.nSporkID →
    other.nTimeSigned ≤ spork.nTimeSigned

theorem final_iff_latest
    (state : SporkState) (sporks : Finset CSporkMessage) (nSporkID : Int)
    (spork : CSporkMessage) :
    LatestWins.Final CSporkMessage.SignedAfter CSporkMessage.knownID state.mapSporksActive
        sporks nSporkID spork ↔
      state.Latest sporks spork ∧ spork.nSporkID = nSporkID := by
  have knownID_eq : ∀ other : CSporkMessage, other.knownID = some nSporkID ↔
      getSporkNameByID nSporkID ≠ "Unknown" ∧ other.nSporkID = nSporkID := by
    intro other
    unfold CSporkMessage.knownID
    split_ifs with unknown
    · simp only [false_iff, not_and]
      rintro known rfl
      exact known unknown
    · rw [Option.some.injEq]
      exact (and_iff_right_of_imp fun same => same ▸ unknown).symm
  constructor
  · rintro ⟨member, keyed, taken, latest⟩
    obtain ⟨known, rfl⟩ := (knownID_eq spork).mp keyed
    refine ⟨⟨member, known, ?_, ?_⟩, rfl⟩
    · unfold isSeen
      cases active : state.mapSporksActive spork.nSporkID with
      | none => rfl
      | some held => exact decide_eq_false (not_le.mpr (taken held active))
    · intro other otherMember same
      exact not_lt.mp (latest other otherMember ((knownID_eq other).mpr ⟨known, same⟩))
  · rintro ⟨⟨member, known, unseen, greatest⟩, rfl⟩
    refine ⟨member, (knownID_eq spork).mpr ⟨known, rfl⟩, ?_, ?_⟩
    · intro held active
      unfold isSeen at unseen
      rw [active] at unseen
      exact not_le.mp (of_decide_eq_false unseen)
    · intro other otherMember keyed
      exact not_lt.mpr (greatest other otherMember ((knownID_eq other).mp keyed).2)

/-- Two nodes that start with the same active sporks and process the same valid messages
agree in the end, whatever the orders, exactly when no spork has two different messages
that were signed at its latest time. -/
theorem processSporks_converge_iff
    {env env' : SporkEnv} {state state' : SporkState} {sporks : Finset CSporkMessage}
    (handles : env.Handles)
    (handles' : env'.Handles)
    (same : state.mapSporksActive = state'.mapSporksActive)
    (signed : ∀ spork ∈ sporks,
      spork.checkSignature env = true ∧ spork.checkSignature env' = true) :
    (∀ first second : List CSporkMessage,
      (∀ spork, spork ∈ first ↔ spork ∈ sporks) →
      (∀ spork, spork ∈ second ↔ spork ∈ sporks) →
        (state.processSporks env first).mapSporksActive =
          (state'.processSporks env' second).mapSporksActive) ↔
      ∀ spork other, state.Latest sporks spork → state.Latest sporks other →
        spork.nSporkID = other.nSporkID → spork = other := by
  have registers : (∀ first second : List CSporkMessage,
      (∀ spork, spork ∈ first ↔ spork ∈ sporks) →
      (∀ spork, spork ∈ second ↔ spork ∈ sporks) →
        (state.processSporks env first).mapSporksActive =
          (state'.processSporks env' second).mapSporksActive) ↔
      ∀ first second : List CSporkMessage,
        (∀ spork, spork ∈ first ↔ spork ∈ sporks) →
        (∀ spork, spork ∈ second ↔ spork ∈ sporks) →
          first.foldl (LatestWins.deliver CSporkMessage.SignedAfter CSporkMessage.knownID)
              state.mapSporksActive =
            second.foldl (LatestWins.deliver CSporkMessage.SignedAfter CSporkMessage.knownID)
              state.mapSporksActive := by
    refine forall₄_congr fun first second coversFirst coversSecond => ?_
    rw [mapSporksActive_processSporks handles
        (fun spork member => (signed spork ((coversFirst spork).mp member)).1) state,
      mapSporksActive_processSporks handles'
        (fun spork member => (signed spork ((coversSecond spork).mp member)).2) state', same]
  rw [registers, LatestWins.converges_iff]
  constructor
  · intro unique spork other latest otherLatest sameSpork
    exact unique spork.nSporkID spork other
      ((final_iff_latest _ _ _ _).mpr ⟨latest, rfl⟩)
      ((final_iff_latest _ _ _ _).mpr ⟨otherLatest, sameSpork.symm⟩)
  · intro unique nSporkID spork other final otherFinal
    obtain ⟨latest, named⟩ := (final_iff_latest _ _ _ _).mp final
    obtain ⟨otherLatest, otherNamed⟩ := (final_iff_latest _ _ _ _).mp otherFinal
    exact unique spork other latest otherLatest (named.trans otherNamed.symm)

/-- A node without settings. -/
def noSporks : SporkState where
  mapSporks _ := none
  mapSporksActive _ := none
  sporkDB _ := none

/-- Superblocks are switched on. -/
def superblocksOn : CSporkMessage :=
  CSporkMessage.plainlySigned 10012 1530000000 1530000100

/-- Superblocks are switched off, later. -/
def superblocksOff : CSporkMessage :=
  CSporkMessage.plainlySigned 10012 4070908800 1530000200

/-- Superblocks are switched off, in the second in which they were switched on. -/
def superblocksOffAtOnce : CSporkMessage :=
  CSporkMessage.plainlySigned 10012 4070908800 1530000100

theorem plainSporkEnv_handles : plainSporkEnv.Handles := ⟨rfl, rfl⟩

theorem processSporks_converge_iff_onOff :
    (∀ first second : List CSporkMessage,
      (∀ spork, spork ∈ first ↔ spork ∈ ({superblocksOn, superblocksOff} : Finset _)) →
      (∀ spork, spork ∈ second ↔ spork ∈ ({superblocksOn, superblocksOff} : Finset _)) →
        (noSporks.processSporks plainSporkEnv first).mapSporksActive =
          (noSporks.processSporks plainSporkEnv second).mapSporksActive) ↔
      ∀ spork other, noSporks.Latest {superblocksOn, superblocksOff} spork →
        noSporks.Latest {superblocksOn, superblocksOff} other →
          spork.nSporkID = other.nSporkID → spork = other := by
  apply processSporks_converge_iff plainSporkEnv_handles plainSporkEnv_handles rfl
  intro spork member
  rcases Finset.mem_insert.mp member with rfl | member
  · have valid := CSporkMessage.checkSignature_plainlySigned 10012 1530000000 1530000100
    exact ⟨valid, valid⟩
  · obtain rfl := Finset.mem_singleton.mp member
    have valid := CSporkMessage.checkSignature_plainlySigned 10012 4070908800 1530000200
    exact ⟨valid, valid⟩

/-- Two valid messages of one second leave two nodes with different settings. -/
theorem processSporks_diverge_at_once :
    superblocksOn.checkSignature plainSporkEnv = true ∧
      superblocksOffAtOnce.checkSignature plainSporkEnv = true ∧
      ((noSporks.processSporks plainSporkEnv
          [superblocksOn, superblocksOffAtOnce]).mapSporksActive 10012).map
            CSporkMessage.nValue = some 1530000000 ∧
      ((noSporks.processSporks plainSporkEnv
          [superblocksOffAtOnce, superblocksOn]).mapSporksActive 10012).map
            CSporkMessage.nValue = some 4070908800 := by
  decide

/-- A message leaves an active spork, or replaces it by a later one with a valid signature. -/
theorem processSpork_advances
    (env : SporkEnv) (state : SporkState) (spork : CSporkMessage) (nSporkID : Int) :
    (state.processSpork env spork).2.mapSporksActive nSporkID = state.mapSporksActive nSporkID ∨
      (state.processSpork env spork).2.mapSporksActive nSporkID = some spork ∧
        spork.nSporkID = nSporkID ∧ spork.checkSignature env = true ∧
        ∀ held ∈ state.mapSporksActive nSporkID, held.nTimeSigned < spork.nTimeSigned := by
  rw [processSpork]
  split_ifs with mode unknown seen forged
  · exact .inl rfl
  · exact .inl rfl
  · exact .inl rfl
  · exact .inl rfl
  · by_cases same : spork.nSporkID = nSporkID
    · subst same
      refine .inr ⟨Function.update_self _ _ _, rfl, by simpa using forged, fun held active => ?_⟩
      rw [Option.mem_def] at active
      rw [isSeen, active, decide_eq_true_iff] at seen
      exact not_le.mp seen
    · exact .inl (Function.update_of_ne (Ne.symm same) _ _)

/-- Through any messages an active spork stays, or gives way to one of the messages that is validly
signed at a later time: a replay sets no spork back. -/
theorem processSporks_advances
    (env : SporkEnv) (state : SporkState) (sporks : List CSporkMessage) (nSporkID : Int) :
    (state.processSporks env sporks).mapSporksActive nSporkID = state.mapSporksActive nSporkID ∨
      ∃ spork ∈ sporks,
        (state.processSporks env sporks).mapSporksActive nSporkID = some spork ∧
          spork.nSporkID = nSporkID ∧ spork.checkSignature env = true ∧
          ∀ held ∈ state.mapSporksActive nSporkID, held.nTimeSigned < spork.nTimeSigned := by
  induction sporks generalizing state with
  | nil => exact .inl rfl
  | cons first rest ih =>
    have step := processSpork_advances env state first nSporkID
    rcases ih (state.processSpork env first).2 with same | ⟨spork, member, active, about, valid, later⟩
    · rcases step with unchanged | ⟨replaced, about, valid, later⟩
      · exact .inl (same.trans unchanged)
      · exact .inr ⟨first, List.mem_cons_self, same.trans replaced, about, valid, later⟩
    · refine .inr ⟨spork, List.mem_cons_of_mem first member, active, about, valid, ?_⟩
      rcases step with unchanged | ⟨replaced, -, -, earlier⟩
      · exact unchanged ▸ later
      · exact fun held was => (earlier held was).trans (later first replaced)

end SporkState

end ColossusCoin
