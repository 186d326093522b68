import ColossusCoin.Library.Pipeline

/-!
# The validation state

What a validation leaves for its caller: whether it found a violation of the
network's rules or a run-time error, how much a peer is to be punished for it,
and whether the data may have been corrupted on the way.
-/

namespace ColossusCoin

inductive ModeState where
  | valid
  | invalid
  | error
  deriving DecidableEq, Repr

def rejectInvalid : Nat := 0x10

def rejectObsolete : Nat := 0x11

def rejectCheckpoint : Nat := 0x43

structure CValidationState where
  mode : ModeState
  nDoS : Int
  strRejectReason : String
  chRejectCode : Nat
  corruptionPossible : Bool
  deriving DecidableEq, Repr

namespace CValidationState

/-- `CValidationState()`. -/
def initial : CValidationState where
  mode := .valid
  nDoS := 0
  strRejectReason := ""
  chRejectCode := 0
  corruptionPossible := false

/-- `DoS`, for its effect on the state. -/
def dos (level : Int) (chRejectCodeIn : Nat := 0) (strRejectReasonIn : String := "")
    (corruptionIn : Bool := false) (state : CValidationState) : CValidationState :=
  let state :=
    { state with
      chRejectCode := chRejectCodeIn
      strRejectReason := strRejectReasonIn
      corruptionPossible := corruptionIn }
  if state.mode = .error then state
  else { state with nDoS := state.nDoS + level, mode := .invalid }

def invalid (chRejectCodeIn : Nat := 0) (strRejectReasonIn : String := "")
    (state : CValidationState) : CValidationState :=
  state.dos 0 chRejectCodeIn strRejectReasonIn

def error (strRejectReasonIn : String) (state : CValidationState) : CValidationState :=
  { state with
    mode := .error
    strRejectReason :=
      if state.mode = .valid then strRejectReasonIn else state.strRejectReason }

def isInvalid (state : CValidationState) : Bool :=
  state.mode == .invalid

end CValidationState
end ColossusCoin
