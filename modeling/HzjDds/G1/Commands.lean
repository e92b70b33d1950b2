import HzjDds.G1.DeadMan
import HzjDds.G1.StandUp

/-!
# Results of the robot commands

Library `G1`. Source: `dds_sdk.py:285–321,385–445`. An operation issues its commands one after the
other; the n-th of them has the n-th outcome. A command that raises ends the `try` block of the
operation.
-/

namespace HzjDds.G1

/-- A command to the robot. -/
inductive SdkCommand where
  | SetVelocity (vx vy omega duration : ℚ)
  | Move (vx vy vyaw : ℚ)
  | SetFsmId (id : FsmState)
  | StandUp2Squat
  | Damp
  deriving DecidableEq, Repr

/-- What an operation did: the commands that it issued, in order, and how it ended. -/
structure Performed where
  issued : List (SdkCommand × SdkOutcome)
  result : CallResult
  deriving DecidableEq, Repr

/-- How the SDK answers during one operation: its FSM-ID queries and its commands. -/
structure SdkAnswers where
  calls : ℕ → CallOutcome
  commands : ℕ → SdkOutcome

/-- The command of `move`. -/
def moveCommand (twist : Twist) (duration : ℚ) : SdkCommand :=
  if duration > 0 then .SetVelocity twist.linear.x twist.linear.y twist.angular.z duration
  else .Move twist.linear.x twist.linear.y twist.angular.z

/-- The commands of a trace of `stand_up`. -/
def sent (trace : List StandUpEvent) : List (SdkCommand × SdkOutcome) :=
  trace.filterMap fun
    | .query _ => none
    | .setFsmId id outcome => some (.SetFsmId id, outcome)

/-- The text that `move_velocity` returns; `str` writes a number. -/
def startedMoving (str : ℚ → String) (x y yaw duration : ℚ) : String :=
  "Started moving with velocity=(" ++ str x ++ ", " ++ str y ++ ", " ++ str yaw ++ ") for " ++
    str duration ++ " seconds"

/-- How a skill ends. -/
inductive SkillResult where
  | text (message : String)
  | assertionError
  deriving DecidableEq, Repr

/-- The end of a `stand_up` as the end of a call. -/
def StandUpResult.toCall : StandUpResult → CallResult
  | .returned ok => .returned ok
  | .assertionError => .assertionError

@[simp] theorem StandUpResult.toCall_eq_true_iff (result : StandUpResult) :
    result.toCall = .returned true ↔ result = .returned true := by
  cases result <;> simp [toCall]

namespace Client

/-- A call of `move`. -/
def performMove (s : Client) (answers : SdkAnswers) (twist : Twist) (duration : ℚ) : Performed where
  issued := if s.loco_client then [(moveCommand twist duration, answers.commands 0)] else []
  result := (s.move twist duration (answers.commands 0)).1

/-- A call of `stand_up`. -/
def performStandUp (s : Client) (answers : SdkAnswers) : Performed :=
  let (result, trace) := standUp ⟨s.loco_client, answers.calls, answers.commands⟩ s.config
  ⟨sent trace, result.toCall⟩

/-- `lie_down`; `dds_sdk.py:423–433`. -/
def lieDown (s : Client) (answers : SdkAnswers) : Performed :=
  if s.loco_client then
    match answers.commands 0 with
    | .raised => ⟨[(.StandUp2Squat, .raised)], .returned false⟩
    | .code c =>
      match answers.commands 1 with
      | .raised => ⟨[(.StandUp2Squat, .code c), (.Damp, .raised)], .returned false⟩
      | .code d => ⟨[(.StandUp2Squat, .code c), (.Damp, .code d)], .returned true⟩
  else ⟨[], .assertionError⟩

/-- `move_velocity`; `dds_sdk.py:438–445`. The flag that `move` returns is not looked at. -/
def moveVelocity (s : Client) (answers : SdkAnswers) (str : ℚ → String) (x y yaw duration : ℚ) :
    SkillResult :=
  match (s.move ⟨⟨x, y, 0⟩, ⟨0, 0, yaw⟩⟩ duration (answers.commands 0)).1 with
  | .assertionError => .assertionError
  | _ => .text (startedMoving str x y yaw duration)

end Client

/-- An operation that returns `True` has had all its commands accepted, and none is issued after one
that was rejected. -/
structure Performed.Truthful (p : Performed) : Prop where
  accepted : p.result = .returned true → ∀ command ∈ p.issued, command.2.accepted = true
  stops : ∀ before command after, p.issued = before ++ command :: after →
    command.2.accepted = false → after = []

/-- The operations that command the robot. -/
inductive RobotCall where
  | move (twist : Twist) (duration : ℚ)
  | standUp
  | lieDown
  | moveVelocity (x y yaw duration : ℚ)
  deriving DecidableEq, Repr

/-- The result of an operation is true of what the robot accepted. -/
def Truthful (str : ℚ → String) (s : Client) (answers : SdkAnswers) : RobotCall → Prop
  | .move twist duration => (s.performMove answers twist duration).Truthful
  | .standUp => (s.performStandUp answers).Truthful
  | .lieDown => (s.lieDown answers).Truthful
  | .moveVelocity x y yaw duration =>
    s.moveVelocity answers str x y yaw duration = .text (startedMoving str x y yaw duration) →
      (s.move ⟨⟨x, y, 0⟩, ⟨0, 0, yaw⟩⟩ duration (answers.commands 0)).1 = .returned true

/-- None of the first commands returns a code other than zero, up to the first one that raises. -/
def NoCodeIgnored (outcomes : ℕ → SdkOutcome) (count : ℕ) : Prop :=
  ∀ i < count, (∀ j < i, outcomes j ≠ .raised) → ∀ c, outcomes i = .code c → c = 0

/-- The commands of `stand_up` when none of them raises, from the answers to its queries. -/
def standUpCommands (config : Config) (env : StandUpEnv) : List FsmState :=
  if config.ai_standup then
    match env.answer 1 with
    | none => []
    | some first =>
      let zeroTorque := first = FsmState.ZERO_TORQUE.value
      let fsm_id := if zeroTorque then orDamp (env.answer 2) else first
      (if zeroTorque then [.DAMP] else []) ++
        (if fsm_id ≠ FsmState.AI_MODE.value then [.AI_MODE] else []) ++ [.SQUAT_STANDUP_TOGGLE]
  else [.DAMP, .SQUAT_STANDUP_TOGGLE]

/-- No outcome is ignored: `move` looks at the code of `SetVelocity` alone, `stand_up` and `lie_down`
at none, and `move_velocity` not at the flag of its `move`. -/
def Heeded (s : Client) (answers : SdkAnswers) : RobotCall → Prop
  | .move _ duration => s.loco_client = true → duration ≤ 0 → NoCodeIgnored answers.commands 1
  | .standUp => s.loco_client = true → NoCodeIgnored answers.commands
      (standUpCommands s.config ⟨s.loco_client, answers.calls, answers.commands⟩).length
  | .lieDown => s.loco_client = true → NoCodeIgnored answers.commands 2
  | .moveVelocity _ _ _ duration => s.loco_client = true → ¬ MoveFails duration (answers.commands 0)

/-! ### Commands whose codes are not looked at -/

/-- Commands are issued, the first with the k-th outcome, until one raises. -/
def issue (outcomes : ℕ → SdkOutcome) : ℕ → List SdkCommand → List (SdkCommand × SdkOutcome)
  | _, [] => []
  | k, command :: rest =>
    (command, outcomes k) :: if outcomes k = .raised then [] else issue outcomes (k + 1) rest

/-- None of the commands raises, the first having the k-th outcome. -/
def Completes (outcomes : ℕ → SdkOutcome) (k : ℕ) (commands : List SdkCommand) : Prop :=
  ∀ i < commands.length, outcomes (k + i) ≠ .raised

variable {outcomes : ℕ → SdkOutcome}

@[simp] theorem completes_nil (k : ℕ) : Completes outcomes k [] := by
  intro i hi
  contradiction

private theorem completes_cons (k : ℕ) (command : SdkCommand) (rest : List SdkCommand) :
    Completes outcomes k (command :: rest) ↔
      outcomes k ≠ .raised ∧ Completes outcomes (k + 1) rest := by
  constructor
  · intro h
    refine ⟨h 0 (Nat.succ_pos _), fun i hi ↦ ?_⟩
    rw [Nat.add_right_comm]
    exact h (i + 1) (Nat.succ_lt_succ hi)
  · rintro ⟨hfirst, hrest⟩ i hi
    cases i with
    | zero => exact hfirst
    | succ i =>
      rw [← Nat.add_assoc, Nat.add_right_comm]
      exact hrest i (Nat.lt_of_succ_lt_succ hi)

private theorem issue_cons_of_returned {k : ℕ} (h : outcomes k ≠ .raised) (command : SdkCommand)
    (rest : List SdkCommand) :
    issue outcomes k (command :: rest) = (command, outcomes k) :: issue outcomes (k + 1) rest := by
  rw [issue, if_neg h]

private theorem issue_cons_of_raised {k : ℕ} (h : outcomes k = .raised) (command : SdkCommand)
    (rest : List SdkCommand) : issue outcomes k (command :: rest) = [(command, .raised)] := by
  rw [issue, if_pos h, h]

private theorem issue_after_raised {k : ℕ} {commands : List SdkCommand}
    {before after : List (SdkCommand × SdkOutcome)} {command : SdkCommand × SdkOutcome}
    (h : issue outcomes k commands = before ++ command :: after) (hraised : command.2 = .raised) :
    after = [] := by
  induction commands generalizing k before with
  | nil =>
    rw [issue] at h
    simp at h
  | cons first rest ih =>
    by_cases hfirst : outcomes k = .raised
    · rw [issue_cons_of_raised hfirst] at h
      cases before with
      | nil => exact (List.cons.inj h).2.symm
      | cons _ before => simp at h
    · rw [issue_cons_of_returned hfirst] at h
      cases before with
      | nil =>
        obtain ⟨rfl, -⟩ := List.cons.inj h
        exact (hfirst hraised).elim
      | cons _ before => exact ih (List.cons.inj h).2

private theorem completes_iff (k : ℕ) (commands : List SdkCommand) :
    Completes outcomes k commands ↔
      ∀ command ∈ issue outcomes k commands, command.2 ≠ .raised := by
  induction commands generalizing k with
  | nil => simp [issue]
  | cons first rest ih =>
    rw [completes_cons]
    by_cases hfirst : outcomes k = .raised
    · rw [issue_cons_of_raised hfirst]
      simp [hfirst]
    · rw [issue_cons_of_returned hfirst, List.forall_mem_cons, ih]

/-- No code is ignored exactly when every command that is issued and returns was accepted. -/
theorem noCodeIgnored_iff (outcomes : ℕ → SdkOutcome) (k : ℕ) (commands : List SdkCommand) :
    NoCodeIgnored (fun i ↦ outcomes (k + i)) commands.length ↔
      ∀ command ∈ issue outcomes k commands, ∀ c, command.2 = .code c → c = 0 := by
  induction commands generalizing k with
  | nil => simp [NoCodeIgnored, issue]
  | cons first rest ih =>
    have hshift : ∀ i, outcomes (k + 1 + i) = outcomes (k + (i + 1)) := fun i ↦ by
      rw [Nat.add_right_comm, Nat.add_assoc]
    have hih := ih (k + 1)
    simp only [hshift] at hih
    constructor
    · intro h
      have hzero : ∀ c, outcomes k = .code c → c = 0 := h 0 (Nat.succ_pos _) fun j hj ↦ by
        contradiction
      by_cases hfirst : outcomes k = .raised
      · rw [issue_cons_of_raised hfirst]
        simp
      · rw [issue_cons_of_returned hfirst, List.forall_mem_cons]
        refine ⟨hzero, hih.mp fun i hi hbefore ↦ h (i + 1) (Nat.succ_lt_succ hi) fun j hj ↦ ?_⟩
        cases j with
        | zero => exact hfirst
        | succ j => exact hbefore j (Nat.lt_of_succ_lt_succ hj)
    · intro h i hi hbefore
      cases i with
      | zero =>
        refine h (first, outcomes k) ?_
        rw [issue]
        exact List.mem_cons_self
      | succ i =>
        have hfirst : outcomes k ≠ .raised := hbefore 0 (Nat.succ_pos _)
        rw [issue_cons_of_returned hfirst, List.forall_mem_cons] at h
        exact hih.mpr h.2 i (Nat.lt_of_succ_lt_succ hi) fun j hj ↦
          hbefore (j + 1) (Nat.succ_lt_succ hj)

private theorem completes_of_last {k : ℕ} {commands : List SdkCommand}
    {before : List (SdkCommand × SdkOutcome)} {command : SdkCommand × SdkOutcome}
    (hsplit : issue outcomes k commands = before ++ [command]) (hreturned : command.2 ≠ .raised) :
    Completes outcomes k commands := by
  rw [completes_iff, hsplit]
  intro other hother hraised
  rcases List.mem_append.mp hother with hbefore | hlast
  · obtain ⟨xs, ys, hxs⟩ := List.append_of_mem hbefore
    have hother : issue outcomes k commands = xs ++ other :: (ys ++ [command]) := by
      rw [hsplit, hxs, List.append_assoc]
      rfl
    have hafter := issue_after_raised hother hraised
    simp at hafter
  · rw [List.mem_singleton.mp hlast] at hraised
    exact hreturned hraised

/-- An operation that looks at no code is truthful exactly when none of its commands returns a code
other than zero. -/
theorem truthful_iff_of_issue {p : Performed} {commands : List SdkCommand}
    (hissued : p.issued = issue outcomes 0 commands)
    (hresult : p.result = .returned true ↔ commands ≠ [] ∧ Completes outcomes 0 commands) :
    p.Truthful ↔ NoCodeIgnored outcomes commands.length := by
  have hcodes := noCodeIgnored_iff outcomes 0 commands
  simp only [Nat.zero_add] at hcodes
  rw [hcodes, ← hissued]
  constructor
  · intro h command hcommand c hc
    by_contra hne
    have hrejected : command.2.accepted = false := by
      rw [hc]
      exact beq_false_of_ne hne
    -- it is the last command, so nothing raised and the operation returned `True`
    obtain ⟨before, after, hsplit⟩ := List.append_of_mem hcommand
    obtain rfl := h.stops before command after hsplit hrejected
    have hcompletes : Completes outcomes 0 commands :=
      completes_of_last (hissued.symm.trans hsplit) (by rw [hc]; exact SdkOutcome.noConfusion)
    have hne : commands ≠ [] := by
      rintro rfl
      rw [hissued] at hcommand
      contradiction
    have haccepted := h.accepted (hresult.mpr ⟨hne, hcompletes⟩) command hcommand
    rw [hrejected] at haccepted
    contradiction
  · intro h
    constructor
    case accepted =>
      intro htrue command hcommand
      have hreturned := (completes_iff 0 commands).mp (hresult.mp htrue).2 command
        (hissued ▸ hcommand)
      cases houtcome : command.2 with
      | raised => exact (hreturned houtcome).elim
      | code c => exact beq_iff_eq.mpr (h command hcommand c houtcome)
    case stops =>
      intro before command after hsplit hrejected
      rw [hissued] at hsplit
      refine issue_after_raised hsplit ?_
      cases houtcome : command.2 with
      | raised => rfl
      | code c =>
        have hzero := h command (by rw [hissued, hsplit]; simp) c houtcome
        rw [houtcome, hzero] at hrejected
        contradiction

/-! ### The operations -/

private theorem truthful_singleton {command : SdkCommand × SdkOutcome} {result : CallResult}
    (h : result = .returned true → command.2.accepted = true) :
    Performed.Truthful ⟨[command], result⟩ := by
  constructor
  case accepted =>
    intro htrue other hother
    rw [List.mem_singleton.mp hother]
    exact h htrue
  case stops =>
    intro before other after hsplit _
    cases before with
    | nil => exact (List.cons.inj hsplit).2.symm
    | cons _ before => simp at hsplit

private theorem truthful_nil (result : CallResult) : Performed.Truthful ⟨[], result⟩ :=
  ⟨fun _ _ h ↦ by contradiction, fun _ _ _ h ↦ by simp at h⟩

/-- `move` looks at the code of `SetVelocity`, not at that of `Move`. -/
theorem truthful_move_iff (s : Client) (answers : SdkAnswers) (twist : Twist) (duration : ℚ) :
    (s.performMove answers twist duration).Truthful ↔
      (s.loco_client = true → duration ≤ 0 → NoCodeIgnored answers.commands 1) := by
  cases hclient : s.loco_client with
  | false =>
    refine iff_of_true ?_ fun h ↦ by contradiction
    rw [Client.performMove, hclient]
    exact truthful_nil _
  | true =>
    by_cases hduration : duration > 0
    · refine iff_of_true ?_ fun _ hle ↦ (Rat.not_lt.mpr hle hduration).elim
      rw [Client.performMove, hclient]
      refine truthful_singleton fun htrue ↦ ?_
      simp only [Client.move, hclient, hduration, if_true] at htrue
      cases houtcome : answers.commands 0 with
      | raised => simp [houtcome] at htrue
      | code c => simpa [houtcome, SdkOutcome.accepted] using htrue
    · refine Iff.trans ?_ ⟨fun h _ _ ↦ h, fun h ↦ h rfl (Rat.not_lt.mp hduration)⟩
      have hissued : (s.performMove answers twist duration).issued =
          issue answers.commands 0 [moveCommand twist duration] := by
        rw [Client.performMove, hclient, issue, issue, ite_self]
        rfl
      refine truthful_iff_of_issue hissued ?_
      simp only [Client.performMove, Client.move, hclient, hduration, if_true, if_false]
      cases houtcome : answers.commands 0 with
      | raised => simp [completes_cons, houtcome]
      | code c => simp [completes_cons, houtcome]

/-- `lie_down` looks at no code. -/
theorem truthful_lieDown_iff (s : Client) (answers : SdkAnswers) :
    (s.lieDown answers).Truthful ↔ (s.loco_client = true → NoCodeIgnored answers.commands 2) := by
  unfold Client.lieDown
  cases s.loco_client with
  | false => exact iff_of_true (truthful_nil _) fun h ↦ by contradiction
  | true =>
    refine Iff.trans ?_ (forall_prop_of_true rfl).symm
    have hiff : ∀ p : Performed, p.issued = issue answers.commands 0 [.StandUp2Squat, .Damp] →
        (p.result = .returned true ↔ Completes answers.commands 0 [.StandUp2Squat, .Damp]) →
        (p.Truthful ↔ NoCodeIgnored answers.commands 2) := fun p hissued hresult ↦
      truthful_iff_of_issue hissued (hresult.trans (and_iff_right (List.cons_ne_nil _ _)).symm)
    simp only [if_true]
    cases hfirst : answers.commands 0 with
    | raised =>
      refine hiff _ ?_ ?_
      · rw [issue_cons_of_raised hfirst]
      · simp [completes_cons, hfirst]
    | code c =>
      have hreturned : answers.commands 0 ≠ .raised := by simp [hfirst]
      cases hsecond : answers.commands 1 with
      | raised =>
        refine hiff _ ?_ ?_
        · rw [issue_cons_of_returned hreturned, issue_cons_of_raised hsecond, hfirst]
        · simp [completes_cons, hsecond]
      | code d =>
        refine hiff _ ?_ ?_
        · simp [issue, hfirst, hsecond]
        · simp [completes_cons, hfirst, hsecond]

/-- From a session on, a part of `stand_up` issues these commands and returns `True` when none of them
raises. -/
def Issues (env : StandUpEnv) (body : SdkM Bool) (s : Session) (ids : List FsmState) : Prop :=
  let run := finish (body.run.run s)
  sent run.2 = sent s.trace ++ issue env.sets s.commands (ids.map .SetFsmId) ∧
    (run.1 = .returned true ↔ Completes env.sets s.commands (ids.map .SetFsmId))

variable {env : StandUpEnv}

/-- A query is not a command. -/
theorem Issues.query {f : Option ℤ → SdkM Bool} {s : Session} {ids : List FsmState}
    (h : Issues env (f (env.answer s.queries)) (s.ask (env.answer s.queries)) ids) :
    Issues env (queryFsmId env >>= f) s ids := by
  rw [Issues, queryFsmId_bind]
  have hsent : sent (s.ask (env.answer s.queries)).trace = sent s.trace := by
    simp [sent, Session.ask]
  rw [← hsent]
  exact h

/-- A command whose code is not looked at. -/
theorem Issues.command {id : FsmState} {f : Unit → SdkM Bool} {s : Session} {ids : List FsmState}
    (h : ∀ c, env.sets s.commands = .code c →
      Issues env (f ()) (s.command id (.code c)) ids) :
    Issues env (commandFsmId env id >>= f) s (id :: ids) := by
  rw [Issues, commandFsmId_bind, List.map_cons, completes_cons]
  cases houtcome : env.sets s.commands with
  | raised =>
    rw [issue_cons_of_raised houtcome]
    exact ⟨by simp [finish, sent, Session.command], by simp [finish]⟩
  | code c =>
    have hreturned : env.sets s.commands ≠ .raised := by simp [houtcome]
    obtain ⟨hsent, hresult⟩ := h c houtcome
    rw [issue_cons_of_returned hreturned, houtcome]
    refine ⟨hsent.trans ?_, hresult.trans (and_iff_right (by simp)).symm⟩
    simp [sent, Session.command]

/-- The end of the method. -/
theorem Issues.done (s : Session) : Issues env (pure true) s [] :=
  ⟨(List.append_nil _).symm, iff_of_true rfl (completes_nil _)⟩

private theorem issues_squatStandUp (s : Session) :
    Issues env (squatStandUp env) s [.SQUAT_STANDUP_TOGGLE] :=
  Issues.command fun _ _ ↦ Issues.query (Issues.done _)

private theorem issues_aiMode (s : Session) (fsm_id : ℤ) :
    Issues env (if fsm_id ≠ FsmState.AI_MODE.value then do
        commandFsmId env .AI_MODE
        squatStandUp env
      else squatStandUp env) s
      ((if fsm_id ≠ FsmState.AI_MODE.value then [.AI_MODE] else []) ++ [.SQUAT_STANDUP_TOGGLE]) := by
  split
  · exact Issues.command fun _ _ ↦ issues_squatStandUp _
  · exact issues_squatStandUp s

private theorem standUp_aborts (config : Config) (hclient : env.loco_client = true)
    (hai : config.ai_standup = true) (hanswer : env.answer 1 = none) :
    sent (standUp env config).2 = [] ∧ (standUp env config).1 = .returned false := by
  simp only [standUp, hclient, if_true, standUpBody, hai, getState, queryFsmId_bind,
    Session.queries_ask, hanswer]
  exact ⟨rfl, rfl⟩

private theorem issues_standUp (config : Config)
    (h : config.ai_standup = true → env.answer 1 ≠ none) :
    Issues env (standUpBody env config) {} (standUpCommands config env) := by
  unfold standUpBody standUpCommands
  refine Issues.query ?_
  cases hai : config.ai_standup with
  | false =>
    simp only [Bool.false_eq_true, if_false]
    exact Issues.command fun _ _ ↦ issues_squatStandUp _
  | true =>
    simp only [if_true]
    refine Issues.query ?_
    simp only [Session.queries_ask]
    cases hfirst : env.answer 1 with
    | none => exact (h hai hfirst).elim
    | some first =>
      by_cases hzero : first = FsmState.ZERO_TORQUE.value
      · simp only [hzero, if_true]
        exact Issues.command fun c _ ↦ Issues.query (issues_aiMode _ _)
      · simp only [hzero, if_false]
        exact issues_aiMode _ first

private theorem standUpCommands_eq_nil_iff (config : Config) (env : StandUpEnv) :
    standUpCommands config env = [] ↔ config.ai_standup = true ∧ env.answer 1 = none := by
  unfold standUpCommands
  cases config.ai_standup with
  | false => simp
  | true => cases env.answer 1 <;> simp

private theorem standUp_issued (env : StandUpEnv) (config : Config) (hclient : env.loco_client = true) :
    let commands := (standUpCommands config env).map SdkCommand.SetFsmId
    sent (standUp env config).2 = issue env.sets 0 commands ∧
      ((standUp env config).1 = .returned true ↔
        commands ≠ [] ∧ Completes env.sets 0 commands) := by
  by_cases habort : config.ai_standup = true ∧ env.answer 1 = none
  · obtain ⟨hsent, hresult⟩ := standUp_aborts config hclient habort.1 habort.2
    simp only [(standUpCommands_eq_nil_iff config env).mpr habort, hsent, hresult]
    exact ⟨rfl, by simp⟩
  · have hissues := issues_standUp config (not_and.mp habort)
    have hne : (standUpCommands config env).map SdkCommand.SetFsmId ≠ [] := by
      rwa [Ne, List.map_eq_nil_iff, standUpCommands_eq_nil_iff]
    simp only [standUp, hclient, if_true]
    exact ⟨hissues.1, hissues.2.trans (and_iff_right hne).symm⟩

/-- `stand_up` looks at no code. -/
theorem truthful_standUp_iff (s : Client) (answers : SdkAnswers) :
    (s.performStandUp answers).Truthful ↔
      (s.loco_client = true → NoCodeIgnored answers.commands
        (standUpCommands s.config ⟨s.loco_client, answers.calls, answers.commands⟩).length) := by
  cases hclient : s.loco_client with
  | false =>
    refine iff_of_true ?_ fun h ↦ by contradiction
    rw [Client.performStandUp, hclient]
    exact truthful_nil _
  | true =>
    refine Iff.trans ?_ (forall_prop_of_true rfl).symm
    obtain ⟨hissued, hresult⟩ :=
      standUp_issued ⟨true, answers.calls, answers.commands⟩ s.config rfl
    rw [← List.length_map SdkCommand.SetFsmId]
    refine truthful_iff_of_issue ?_ ?_
    · rw [Client.performStandUp, hclient]
      exact hissued
    · rw [Client.performStandUp, hclient]
      exact (StandUpResult.toCall_eq_true_iff _).trans hresult

/-- `move_velocity` says that the motion has started whether it has or not. -/
theorem moveVelocity_iff (str : ℚ → String) (s : Client) (answers : SdkAnswers)
    (x y yaw duration : ℚ) :
    Truthful str s answers (.moveVelocity x y yaw duration) ↔
      (s.loco_client = true → ¬ MoveFails duration (answers.commands 0)) := by
  simp only [Truthful, Client.moveVelocity, Client.move, MoveFails]
  cases s.loco_client with
  | false => simp
  | true =>
    by_cases hduration : duration > 0
    · simp only [hduration, if_true]
      cases answers.commands 0 with
      | raised => simp
      | code c => by_cases hc : c = 0 <;> simp [hc, SdkOutcome.accepted]
    · simp only [hduration, if_false, if_true]
      cases answers.commands 0 with
      | raised => simp
      | code c => simp

/-- The result of an operation is true of what the robot accepted exactly when none of its outcomes is
ignored. -/
theorem truthful_iff_heeded (str : ℚ → String) (s : Client) (answers : SdkAnswers)
    (call : RobotCall) : Truthful str s answers call ↔ Heeded s answers call := by
  cases call with
  | move twist duration => exact truthful_move_iff s answers twist duration
  | standUp => exact truthful_standUp_iff s answers
  | lieDown => exact truthful_lieDown_iff s answers
  | moveVelocity x y yaw duration => exact moveVelocity_iff str s answers x y yaw duration

/-- A robot that rejects `StandUp2Squat` is damped, and reported to lie. -/
theorem rejected_lieDown_returns_true : ¬ ∀ str s answers call, Truthful str s answers call := by
  intro h
  have htruthful := h (fun _ ↦ "") (Client.initial {} true)
    ⟨fun _ ↦ .raised, fun n ↦ if n = 0 then .code 7301 else .code 0⟩ .lieDown
  have hlast := htruthful.stops [] (.StandUp2Squat, .code 7301) [(.Damp, .code 0)] rfl rfl
  contradiction

end HzjDds.G1
