import Mathlib.Data.Rat.Defs

/-!
# Unitree SDK calls of the G1 high-level client

Library `G1`. Source: `dimos/robot/unitree/g1/effectors/high_level/dds_sdk.py`. The SDK
itself (`unitree_sdk2py`) is outside the repository: each of its calls is an outcome that
the environment chooses. Floating-point velocities and delays are exact rationals.
-/

namespace HzjDds.G1

/-- `dimos.msgs.geometry_msgs.Vector3`, as far as `move` reads it. -/
structure Vector3 where
  x : ℚ
  y : ℚ
  z : ℚ
  deriving DecidableEq, Repr

/-- `dimos.msgs.geometry_msgs.Twist`. -/
structure Twist where
  linear : Vector3
  angular : Vector3
  deriving DecidableEq, Repr

/-- `FsmState`; `dds_sdk.py:102–108`. -/
inductive FsmState where
  | ZERO_TORQUE
  | DAMP
  | SIT
  | AI_MODE
  | LIE_TO_STANDUP
  | SQUAT_STANDUP_TOGGLE
  deriving DecidableEq, Repr

/-- Integer values of the `IntEnum`; `dds_sdk.py:103–108`. -/
def FsmState.value : FsmState → ℤ
  | .ZERO_TORQUE => 0
  | .DAMP => 1
  | .SIT => 3
  | .AI_MODE => 200
  | .LIE_TO_STANDUP => 702
  | .SQUAT_STANDUP_TOGGLE => 706

/-- `G1HighLevelDdsSdkConfig`, the fields the modelled methods read; `dds_sdk.py:111–119`. -/
structure Config where
  ai_standup : Bool := true
  cmd_vel_timeout : ℚ := 1 / 5
  deriving DecidableEq, Repr

/-- Outcome of one SDK command: the call returns a code, or raises. -/
inductive SdkOutcome where
  | code (c : ℤ)
  | raised
  deriving DecidableEq, Repr

/-- The robot accepts a command exactly when the call returns code zero. -/
def SdkOutcome.accepted : SdkOutcome → Bool
  | .code c => c == 0
  | .raised => false

@[simp] theorem accepted_raised : SdkOutcome.raised.accepted = false := rfl

/-- The object an FSM-ID reply decodes to: a dict with its `data` entry, or a bare value. -/
inductive FsmPayload where
  | dict (data : Option ℤ)
  | bare (value : Option ℤ)
  deriving DecidableEq, Repr

/-- Second component of the `_Call` result. A falsy one is `null`; a string decodes by
`json.loads`, which may raise (`none`); anything else is used as it is. -/
inductive ReplyData where
  | null
  | text (decoded : Option FsmPayload)
  | dict (data : Option ℤ)
  | value (v : ℤ)
  deriving DecidableEq, Repr

/-- Outcome of `loco_client._Call(GET_FSM_ID, "{}")`. -/
inductive CallOutcome where
  | raised
  | reply (code : ℤ) (data : ReplyData)
  deriving DecidableEq, Repr

/-- `result.get("data") if isinstance(result, dict) else result`; `dds_sdk.py:528`. -/
def FsmPayload.fsm_id : FsmPayload → Option ℤ
  | .dict data => data
  | .bare value => value

/-- `_get_fsm_id`; `dds_sdk.py:523–536`. Every exception is caught and answered by `None`. -/
def getFsmId : CallOutcome → Option ℤ
  | .raised => none
  | .reply code data =>
    if code = 0 then
      match data with
      | .null => none
      | .text none => none
      | .text (some payload) => payload.fsm_id
      | .dict d => d
      | .value v => if v = 0 then none else some v
    else none

end HzjDds.G1
