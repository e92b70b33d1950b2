import HzjDds.G1.Sdk

/-!
# FSM guard of `stand_up`

Library `G1`. Source: `dds_sdk.py:323–331,385–421,523–536`. The method is run against an
environment that answers its FSM-ID queries and decides its `SetFsmId` calls; the run
leaves the trace of both. Sleeps and log lines have no effect on the trace, except that
two log lines call `get_state`, which queries the FSM ID.
-/

namespace HzjDds.G1

/-- One SDK interaction of `stand_up`. -/
inductive StandUpEvent where
  | query (answer : Option ℤ)
  | setFsmId (id : FsmState) (outcome : SdkOutcome)
  deriving DecidableEq, Repr

/-- Environment of one call: whether `start` has created `loco_client`, the outcome of the
n-th FSM-ID query and that of the n-th `SetFsmId`. -/
structure StandUpEnv where
  loco_client : Bool
  calls : ℕ → CallOutcome
  sets : ℕ → SdkOutcome

/-- Answer of the n-th query. -/
def StandUpEnv.answer (env : StandUpEnv) (n : ℕ) : Option ℤ := getFsmId (env.calls n)

/-- Counters into the environment and the trace so far. -/
structure Session where
  queries : ℕ := 0
  commands : ℕ := 0
  trace : List StandUpEvent := []

/-- The session after a query with this answer. -/
def Session.ask (s : Session) (answer : Option ℤ) : Session :=
  { s with queries := s.queries + 1, trace := s.trace ++ [StandUpEvent.query answer] }

/-- The session after a command with this outcome. -/
def Session.command (s : Session) (id : FsmState) (outcome : SdkOutcome) : Session :=
  { s with commands := s.commands + 1, trace := s.trace ++ [StandUpEvent.setFsmId id outcome] }

@[simp] theorem Session.queries_ask (s : Session) (answer : Option ℤ) :
    (s.ask answer).queries = s.queries + 1 := rfl

/-- Statements of the method body: they extend the trace and may raise. -/
abbrev SdkM := ExceptT Unit (StateM Session)

variable (env : StandUpEnv)

/-- One `_get_fsm_id` call. -/
def queryFsmId : SdkM (Option ℤ) := do
  let s ← get
  let answer := env.answer s.queries
  set (s.ask answer)
  return answer

/-- One `loco_client.SetFsmId` call; its code is not looked at. -/
def commandFsmId (id : FsmState) : SdkM Unit := do
  let s ← get
  let outcome := env.sets s.commands
  set (s.command id outcome)
  match outcome with
  | .code _ => return ()
  | .raised => throw ()

/-- `get_state`; `dds_sdk.py:323–331`. -/
def getState : SdkM (Option ℤ) := queryFsmId env

/-- `self._get_fsm_id() or FsmState.DAMP`: zero is as falsy as `None`; `dds_sdk.py:403`. -/
def orDamp : Option ℤ → ℤ
  | none => FsmState.DAMP.value
  | some v => if v = 0 then FsmState.DAMP.value else v

/-- The toggle and the final log line; `dds_sdk.py:412–417`. -/
def squatStandUp : SdkM Bool := do
  commandFsmId env .SQUAT_STANDUP_TOGGLE
  let _ ← getState env
  return true

/-- The `try` block; `dds_sdk.py:388–418`. -/
def standUpBody (config : Config) : SdkM Bool := do
  let _ ← getState env
  if config.ai_standup then
    match ← queryFsmId env with
    | none => return false
    | some first =>
      let mut fsm_id := first
      if fsm_id = FsmState.ZERO_TORQUE.value then
        commandFsmId env .DAMP
        fsm_id := orDamp (← queryFsmId env)
      if fsm_id ≠ FsmState.AI_MODE.value then
        commandFsmId env .AI_MODE
  else
    commandFsmId env .DAMP
  squatStandUp env

/-- How a call of `stand_up` ends. -/
inductive StandUpResult where
  | returned (ok : Bool)
  | assertionError
  deriving DecidableEq, Repr

/-- Result and trace of a `try` block whose handler logs and returns `False`. -/
def finish : Except Unit Bool × Session → StandUpResult × List StandUpEvent
  | (.ok ok, s) => (.returned ok, s.trace)
  | (.error _, s) => (.returned false, s.trace)

/-- `stand_up`; `dds_sdk.py:385–421`. -/
def standUp (config : Config) : StandUpResult × List StandUpEvent :=
  if env.loco_client then finish ((standUpBody env config).run.run {})
  else (.assertionError, [])

/-! ### The guard as a property of the trace -/

/-- Answer of the last query of a trace, starting from an earlier one. -/
def latestQueryFrom (latest : Option (Option ℤ)) : List StandUpEvent → Option (Option ℤ)
  | [] => latest
  | .query answer :: rest => latestQueryFrom (some answer) rest
  | .setFsmId _ _ :: rest => latestQueryFrom latest rest

/-- Neither mode command is issued while the latest query before it read zero torque. -/
def NeverAtZeroTorque (trace : List StandUpEvent) : Prop :=
  ∀ before id outcome after, trace = before ++ .setFsmId id outcome :: after →
    id = .AI_MODE ∨ id = .SQUAT_STANDUP_TOGGLE →
    latestQueryFrom none before ≠ some (some FsmState.ZERO_TORQUE.value)

/-- When the query inside the `ai_standup` branch (the second of the run) fails, the call
issues no command and returns `False`. -/
def AbortsOnFailedQuery (result : StandUpResult × List StandUpEvent) : Prop :=
  result.2[1]? = some (.query none) →
    (∀ id outcome, .setFsmId id outcome ∉ result.2) ∧ result.1 = .returned false

/-- The FSM guard: both the abort and the zero-torque rule. -/
def FsmGuard (result : StandUpResult × List StandUpEvent) : Prop :=
  AbortsOnFailedQuery result ∧ NeverAtZeroTorque result.2

/-- The zero-torque rule read along the trace, from an earlier latest answer. -/
def GuardedFrom (latest : Option (Option ℤ)) : List StandUpEvent → Prop
  | [] => True
  | .query answer :: rest => GuardedFrom (some answer) rest
  | .setFsmId id _ :: rest =>
    (id = .AI_MODE ∨ id = .SQUAT_STANDUP_TOGGLE →
      latest ≠ some (some FsmState.ZERO_TORQUE.value)) ∧ GuardedFrom latest rest

private theorem guardedFrom_iff (latest : Option (Option ℤ)) (trace : List StandUpEvent) :
    GuardedFrom latest trace ↔
      ∀ before id outcome after, trace = before ++ .setFsmId id outcome :: after →
        id = .AI_MODE ∨ id = .SQUAT_STANDUP_TOGGLE →
        latestQueryFrom latest before ≠ some (some FsmState.ZERO_TORQUE.value) := by
  induction trace generalizing latest with
  | nil => simp [GuardedFrom]
  | cons event rest ih =>
    constructor
    · intro h before id outcome after heq hid
      cases before with
      | nil =>
        obtain ⟨rfl, rfl⟩ := List.cons.inj heq
        exact h.1 hid
      | cons first before =>
        obtain ⟨rfl, hrest⟩ := List.cons.inj heq
        cases event with
        | query answer => exact (ih _).mp h before id outcome after hrest hid
        | setFsmId _ _ => exact (ih _).mp h.2 before id outcome after hrest hid
    · intro h
      cases event with
      | query answer =>
        apply (ih _).mpr
        intro before id outcome after hrest hid
        exact h (.query answer :: before) id outcome after (by rw [hrest]; rfl) hid
      | setFsmId id outcome =>
        refine ⟨fun hid ↦ h [] id outcome rest rfl hid, (ih _).mpr ?_⟩
        intro before id' outcome' after hrest hid
        exact h (.setFsmId id outcome :: before) id' outcome' after (by rw [hrest]; rfl) hid

private theorem neverAtZeroTorque_iff (trace : List StandUpEvent) :
    NeverAtZeroTorque trace ↔ GuardedFrom none trace := (guardedFrom_iff none trace).symm

/-! ### Runs of the method -/

@[simp] theorem queryFsmId_bind {β : Type} (f : Option ℤ → SdkM β) (s : Session) :
    (queryFsmId env >>= f).run.run s =
      (f (env.answer s.queries)).run.run (s.ask (env.answer s.queries)) := rfl

/-- A command extends the trace by its outcome; a raising one ends the body. -/
@[simp] theorem commandFsmId_bind {β : Type} (id : FsmState) (f : Unit → SdkM β) (s : Session) :
    (commandFsmId env id >>= f).run.run s =
      match env.sets s.commands with
      | .code c => (f ()).run.run (s.command id (.code c))
      | .raised => (.error (), s.command id .raised) := by
  change ((match env.sets s.commands with
      | .code _ => pure ()
      | .raised => throw () : SdkM Unit) >>= f).run.run (s.command id (env.sets s.commands)) = _
  cases env.sets s.commands <;> rfl

private theorem squatStandUp_run (s : Session) : finish ((squatStandUp env).run.run s) =
    match env.sets s.commands with
    | .code c => (.returned true, s.trace ++
        [.setFsmId .SQUAT_STANDUP_TOGGLE (.code c), .query (env.answer s.queries)])
    | .raised => (.returned false, s.trace ++ [.setFsmId .SQUAT_STANDUP_TOGGLE .raised]) := by
  simp only [squatStandUp, getState, commandFsmId_bind, queryFsmId_bind]
  cases env.sets s.commands with
  | code c =>
    change (StandUpResult.returned true, (s.trace ++ [_]) ++ [_]) = _
    rw [List.append_assoc]
    rfl
  | raised => rfl

private theorem squatStandUp_suffix (s : Session) : ∃ suffix,
    (finish ((squatStandUp env).run.run s)).2 = s.trace ++ suffix ∧
    ∀ latest, GuardedFrom latest suffix ↔ latest ≠ some (some FsmState.ZERO_TORQUE.value) := by
  rw [squatStandUp_run]
  cases env.sets s.commands with
  | code c => exact ⟨_, rfl, fun latest ↦ by simp [GuardedFrom]⟩
  | raised => exact ⟨_, rfl, fun latest ↦ by simp [GuardedFrom]⟩

private theorem aiMode_suffix (s : Session) (fsm_id : ℤ) : ∃ suffix,
    (finish ((if fsm_id ≠ FsmState.AI_MODE.value then do
        commandFsmId env .AI_MODE
        squatStandUp env
      else squatStandUp env : SdkM Bool).run.run s)).2 = s.trace ++ suffix ∧
    ∀ latest, GuardedFrom latest suffix ↔ latest ≠ some (some FsmState.ZERO_TORQUE.value) := by
  split
  · rw [commandFsmId_bind]
    cases env.sets s.commands with
    | code c =>
      obtain ⟨suffix, hs, hg⟩ := squatStandUp_suffix env (s.command .AI_MODE (.code c))
      refine ⟨.setFsmId .AI_MODE (.code c) :: suffix, ?_, fun latest ↦ ?_⟩
      · simpa [Session.command] using hs
      · simp [GuardedFrom, hg]
    | raised => exact ⟨[.setFsmId .AI_MODE .raised], rfl, fun latest ↦ by simp [GuardedFrom]⟩
  · exact squatStandUp_suffix env s

private theorem guardedFrom_append (latest : Option (Option ℤ)) (xs ys : List StandUpEvent) :
    GuardedFrom latest (xs ++ ys) ↔
      GuardedFrom latest xs ∧ GuardedFrom (latestQueryFrom latest xs) ys := by
  induction xs generalizing latest with
  | nil => simp [GuardedFrom, latestQueryFrom]
  | cons event xs ih =>
    cases event with
    | query answer => simp [GuardedFrom, latestQueryFrom, ih]
    | setFsmId id outcome => simp [GuardedFrom, latestQueryFrom, ih, and_assoc]

private theorem fsmGuard_of_suffix {result : StandUpResult × List StandUpEvent}
    {xs suffix : List StandUpEvent} {first : ℤ} (hres : result.2 = xs ++ suffix)
    (hsecond : xs[1]? = some (.query (some first))) (hxs : GuardedFrom none xs)
    (hg : ∀ latest, GuardedFrom latest suffix ↔
      latest ≠ some (some FsmState.ZERO_TORQUE.value)) :
    FsmGuard result ↔
      latestQueryFrom none xs ≠ some (some FsmState.ZERO_TORQUE.value) := by
  have habort : AbortsOnFailedQuery result := by
    intro hnone
    rw [hres, List.getElem?_append_left (List.getElem?_eq_some_iff.mp hsecond).1, hsecond] at hnone
    simp at hnone
  rw [FsmGuard, neverAtZeroTorque_iff, hres, guardedFrom_append, hg]
  exact ⟨fun h ↦ h.2.2, fun h ↦ ⟨habort, hxs, h⟩⟩

/-- The defect: the first query of the branch reads zero torque, the damp command returns,
and the re-query succeeds and reads zero torque again. -/
def RequeryReadsZeroTorque : Prop :=
  env.loco_client = true ∧ env.answer 1 = some FsmState.ZERO_TORQUE.value ∧
    env.sets 0 ≠ .raised ∧ env.answer 2 = some FsmState.ZERO_TORQUE.value

/-- With `ai_standup` enabled the guard holds exactly when the re-query does not succeed
with zero torque: `or` replaces that answer by `DAMP` just as it replaces a failure. -/
theorem standUp_fsmGuard_iff (config : Config) :
    FsmGuard (standUp env { config with ai_standup := true }) ↔
      ¬ RequeryReadsZeroTorque env := by
  unfold standUp
  split
  · next hloco =>
    simp only [standUpBody, getState, queryFsmId_bind, if_true, Session.queries_ask]
    cases h1 : env.answer 1 with
    | none =>
      have hguard : FsmGuard (.returned false, [.query (env.answer 0), .query none]) := by
        simp [FsmGuard, AbortsOnFailedQuery, neverAtZeroTorque_iff, GuardedFrom]
      exact iff_of_true hguard (by simp [RequeryReadsZeroTorque, h1])
    | some first =>
      let asked : Session := (({} : Session).ask (env.answer 0)).ask (some first)
      by_cases hfirst : first = FsmState.ZERO_TORQUE.value
      · subst hfirst
        simp only [if_true, commandFsmId_bind]
        change FsmGuard (finish (match env.sets 0 with | .code _ => _ | .raised => _)) ↔ _
        cases h0 : env.sets 0 with
        | raised =>
          have hguard : FsmGuard (.returned false,
              [.query (env.answer 0), .query (some 0), .setFsmId .DAMP .raised]) := by
            simp [FsmGuard, AbortsOnFailedQuery, neverAtZeroTorque_iff, GuardedFrom]
          exact iff_of_true hguard (by simp [RequeryReadsZeroTorque, h0])
        | code c =>
          simp only [queryFsmId_bind]
          let damped : Session := (asked.command .DAMP (.code c)).ask (env.answer 2)
          obtain ⟨suffix, hs, hg⟩ := aiMode_suffix env damped (orDamp (env.answer 2))
          refine (fsmGuard_of_suffix hs rfl ?_ hg).trans ?_
          · simp [damped, asked, Session.ask, Session.command, GuardedFrom]
          · simp [RequeryReadsZeroTorque, hloco, h1, h0, damped, asked, Session.ask,
              Session.command, latestQueryFrom]
      · simp only [hfirst, if_false]
        obtain ⟨suffix, hs, hg⟩ := aiMode_suffix env asked first
        refine (fsmGuard_of_suffix hs rfl ?_ hg).trans ?_
        · simp [asked, Session.ask, GuardedFrom]
        · simp [RequeryReadsZeroTorque, h1, hfirst, asked, Session.ask, latestQueryFrom]
  · next hloco =>
    exact iff_of_true
      ⟨by simp [AbortsOnFailedQuery], by simp [neverAtZeroTorque_iff, GuardedFrom]⟩
      (fun h ↦ hloco h.1)

/-- The guard fails on a robot that answers zero torque to every query. -/
theorem standUp_breaks_guard :
    ¬ FsmGuard (standUp
      ⟨true, fun _ ↦ .reply 0 (.text (some (.dict (some 0)))), fun _ ↦ .code 0⟩ {}) := by
  intro h
  apply h.2 [.query (some 0), .query (some 0), .setFsmId .DAMP (.code 0), .query (some 0)]
    .AI_MODE (.code 0) [.setFsmId .SQUAT_STANDUP_TOGGLE (.code 0), .query (some 0)]
  · decide
  · exact Or.inl rfl
  · rfl

end HzjDds.G1
