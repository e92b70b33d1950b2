import HzjDds.Cpp.UnorderedVector
import HzjDds.Rmw.Reader
import Mathlib.Tactic.Simps.Basic

/-!
# Wait sets and the conditions attached to them

Library `Rmw`. Source: `vendor/Fast-DDS/src/cpp/fastdds/core/condition`: `WaitSetImpl.cpp`,
`ConditionNotifier.cpp`, `StatusConditionImpl.cpp`, `GuardCondition.cpp`. Threads change conditions,
attach them to wait sets and wait, one section under a mutex at a time; a wait looks at its
conditions one by one while it holds the mutex of the wait set. Conditions and wait sets are not
destroyed here.
-/

namespace HzjDds.Rmw

open HzjDds.Cpp HzjDds.Transition

universe u v w

/-- A condition; `GuardCondition` keeps its trigger value in an atomic. -/
inductive Condition where
  | status (condition : StatusCondition)
  | guard (trigger_value : Bool)
  deriving DecidableEq

/-- The calls that change a condition. -/
inductive Change where
  | setStatus (status : StatusMask) (trigger_value : Bool)
  | setEnabledStatuses (mask : StatusMask)
  | setTriggerValue (value : Bool)
  deriving DecidableEq

/-- Whether a change is a call of `GuardCondition`. -/
def Change.ofGuard : Change → Bool
  | setTriggerValue _ => true
  | _ => false

namespace Condition

/-- `get_trigger_value`; `StatusConditionImpl.cpp:42–46`, `GuardCondition.cpp:36–39`. -/
def getTriggerValue : Condition → Bool
  | status c => c.getTriggerValue
  | guard value => value

/-- A change and whether the notifier has to be called after it; `StatusConditionImpl.cpp:48–65`,
`83–108`, `GuardCondition.cpp:41–51`. A status condition has no trigger value to set, a guard
condition no statuses. -/
def change : Condition → Change → Option (Condition × Bool)
  | status c, .setStatus bits trigger_value =>
    let changed := c.setStatus bits trigger_value
    if trigger_value then
      some (.status changed, !c.getTriggerValue && changed.getTriggerValue)
    else some (.status changed, false)
  | status c, .setEnabledStatuses mask =>
    let changed := { c with mask }
    some (.status changed, !c.getTriggerValue && changed.getTriggerValue)
  | guard old_value, .setTriggerValue value => some (.guard value, !old_value && value)
  | _, _ => none

/-- Whether a condition is a `GuardCondition`. -/
def isGuard : Condition → Bool
  | status _ => false
  | guard _ => true

/-- The notifier is called whenever the trigger value rises. -/
theorem notify_of_rising {c d : Condition} {change : Change} {notify : Bool}
    (h : c.change change = some (d, notify)) (hc : c.getTriggerValue = false)
    (hd : d.getTriggerValue = true) : notify = true := by
  cases c with
  | status c =>
    cases change with
    | setStatus bits trigger_value =>
      cases trigger_value with
      | true =>
        obtain ⟨rfl, rfl⟩ := Prod.mk.inj (Option.some.inj h)
        simp_all [getTriggerValue]
      | false =>
        obtain ⟨rfl, rfl⟩ := Prod.mk.inj (Option.some.inj h)
        -- statuses that are taken away trigger nothing
        simp only [getTriggerValue, StatusCondition.getTriggerValue, StatusCondition.setStatus,
          Bool.false_eq_true, if_false, decide_eq_true_eq, decide_eq_false_iff_not] at hc hd
        exact absurd (hd.mono (Finset.inter_subset_inter_left Finset.sdiff_subset)) hc
    | setEnabledStatuses mask =>
      obtain ⟨rfl, rfl⟩ := Prod.mk.inj (Option.some.inj h)
      simp_all [getTriggerValue]
    | setTriggerValue value => contradiction
  | guard old_value =>
    cases change with
    | setTriggerValue value =>
      obtain ⟨rfl, rfl⟩ := Prod.mk.inj (Option.some.inj h)
      simp_all [getTriggerValue]
    | _ => contradiction

/-- The calls that fit a condition are those of its own class. -/
theorem isSome_change (c : Condition) (change : Change) :
    (c.change change).isSome = (c.isGuard == change.ofGuard) := by
  cases c <;> rcases change with ⟨bits, _ | _⟩ | _ | _ <;> rfl

/-- A condition stays of its class. -/
theorem isGuard_change {c d : Condition} {change : Change} {notify : Bool}
    (h : c.change change = some (d, notify)) : d.isGuard = c.isGuard := by
  cases c <;> rcases change with ⟨bits, _ | _⟩ | _ | _ <;> cases h <;> rfl

end Condition

/-- A call of a wait set or of a condition; `timed` says that a wait has a finite timeout. -/
inductive WaitSetCall (ω : Type v) (κ : Type w) where
  | change (condition : κ) (change : Change)
  | attach_condition (wait_set : ω) (condition : κ)
  | detach_condition (wait_set : ω) (condition : κ)
  | wait (wait_set : ω) (timed : Bool)
  deriving DecidableEq

/-- Next section of a call. `notify` and `waking` are `ConditionNotifier::notify`, before its mutex
is taken and at the wait sets `rest` that it has not woken yet; `filling` is a look of `wait` at the
conditions, with those not looked at yet and the triggered ones, `last` after the timeout. -/
inductive WaitSetPc (ω : Type v) (κ : Type w) where
  | change (condition : κ) (change : Change)
  | notify (condition : κ)
  | waking (condition : κ) (rest : List ω)
  | attach (wait_set : ω) (condition : κ)
  | attachTo (wait_set : ω) (condition : κ)
  | attachCheck (wait_set : ω) (condition : κ)
  | detach (wait_set : ω) (condition : κ)
  | detachFrom (wait_set : ω) (condition : κ)
  | wait (wait_set : ω) (timed : Bool)
  | filling (wait_set : ω) (rest active_conditions : List κ) (timed last : Bool)
  | blocked (wait_set : ω) (timed : Bool)
  | timedOut (wait_set : ω)
  deriving DecidableEq

/-- What a wait or a change of the attached conditions returns. -/
inductive WaitSetCode where
  | OK
  | TIMEOUT
  | PRECONDITION_NOT_MET
  deriving DecidableEq, Repr

/-- A returned call of a wait set, its code and its active conditions. -/
structure WaitSetAnswer (θ : Type u) (ω : Type v) (κ : Type w) where
  thread : θ
  call : WaitSetCall ω κ
  code : WaitSetCode
  active_conditions : List κ := []
  deriving DecidableEq

/-- `WaitSetImpl`; `asleep` is the thread that sleeps in its condition variable. `is_waiting` lets
one thread at a time get there. -/
structure WaitSetImpl (θ : Type u) (κ : Type w) where
  mutex : Option θ := none
  entries : List κ := []
  is_waiting : Bool := false
  asleep : Option θ := none

/-- `ConditionNotifier`: the wait sets its condition is attached to. -/
structure ConditionNotifier (θ : Type u) (ω : Type v) where
  mutex : Option θ := none
  entries : List ω := []

/-- Wait sets, conditions and the calls in progress; `answers` records the calls of wait sets that
have returned. -/
structure WaitSets (θ : Type u) (ω : Type v) (κ : Type w) where
  wait_sets : ω → WaitSetImpl θ κ := fun _ ↦ {}
  conditions : κ → Condition
  notifiers : κ → ConditionNotifier θ ω := fun _ ↦ {}
  calls : θ → Option (WaitSetPc ω κ) := fun _ ↦ none
  answers : List (WaitSetAnswer θ ω κ) := []

/-- A thread makes a call, executes the next section of its call, wakes up by itself, or finds its
timeout over. -/
inductive WaitSetAction (θ : Type u) (ω : Type v) (κ : Type w) where
  | call (thread : θ) (call : WaitSetCall ω κ)
  | next (thread : θ)
  | wakeUp (thread : θ)
  | timeout (thread : θ)
  deriving DecidableEq

variable {θ : Type u} {ω : Type v} {κ : Type w} [DecidableEq θ] [DecidableEq ω] [DecidableEq κ]

/-- First section of a call. -/
def WaitSetCall.first : WaitSetCall ω κ → WaitSetPc ω κ
  | change c ch => .change c ch
  | attach_condition w c => .attach w c
  | detach_condition w c => .detach w c
  | wait w timed => .wait w timed

namespace WaitSets

/-- The call of a thread goes on at a section, or is over. -/
@[simps calls wait_sets notifiers conditions]
def goto (s : WaitSets θ ω κ) (t : θ) (pc : Option (WaitSetPc ω κ)) : WaitSets θ ω κ :=
  { s with calls := Function.update s.calls t pc }

omit [DecidableEq ω] [DecidableEq κ] in
/-- Where the thread is now. -/
theorem calls_goto_self (s : WaitSets θ ω κ) (t : θ) (pc : Option (WaitSetPc ω κ)) :
    (s.goto t pc).calls t = pc := Function.update_self ..

/-- The call of a thread returns. -/
@[simps]
def answer (s : WaitSets θ ω κ) (t : θ) (call : WaitSetCall ω κ) (code : WaitSetCode)
    (active_conditions : List κ) : WaitSets θ ω κ :=
  { s with
    calls := Function.update s.calls t none
    answers := s.answers ++ [⟨t, call, code, active_conditions⟩] }

omit [DecidableEq θ] [DecidableEq κ] in
/-- Another state of one wait set. -/
@[simps calls wait_sets notifiers conditions]
def setWaitSet (s : WaitSets θ ω κ) (w : ω) (impl : WaitSetImpl θ κ) : WaitSets θ ω κ :=
  { s with wait_sets := Function.update s.wait_sets w impl }

omit [DecidableEq θ] [DecidableEq ω] in
/-- Another state of one notifier. -/
@[simps calls wait_sets notifiers conditions]
def setNotifier (s : WaitSets θ ω κ) (c : κ) (notifier : ConditionNotifier θ ω) :
    WaitSets θ ω κ :=
  { s with notifiers := Function.update s.notifiers c notifier }

omit [DecidableEq θ] [DecidableEq ω] in
/-- Another state of one condition. -/
@[simps calls wait_sets notifiers conditions]
def setCondition (s : WaitSets θ ω κ) (c : κ) (condition : Condition) : WaitSets θ ω κ :=
  { s with conditions := Function.update s.conditions c condition }

/-- `attach_condition`; `WaitSetImpl.cpp:52–83`. -/
def attachCondition (s : WaitSets θ ω κ) (t : θ) (w : ω) (c : κ) : WaitSets θ ω κ :=
  let impl := s.wait_sets w
  let renewed := s.setWaitSet w { impl with entries := renew impl.entries c }
  if c ∈ impl.entries then renewed.answer t (.attach_condition w c) .OK []
  else renewed.goto t (some (.attachTo w c))

/-- `detach_condition`; `WaitSetImpl.cpp:85–105`. -/
def detachCondition (s : WaitSets θ ω κ) (t : θ) (w : ω) (c : κ) : WaitSets θ ω κ :=
  let impl := s.wait_sets w
  if c ∈ impl.entries then
    (s.setWaitSet w { impl with entries := remove impl.entries c }).goto t (some (.detachFrom w c))
  else s.answer t (.detach_condition w c) .PRECONDITION_NOT_MET []

/-- A look of `wait` at the conditions begins; the thread has taken the mutex. -/
def fill (s : WaitSets θ ω κ) (t : θ) (w : ω) (timed last : Bool) : WaitSets θ ω κ :=
  let impl := s.wait_sets w
  (s.setWaitSet w { impl with mutex := some t, is_waiting := true }).goto t
    (some (.filling w impl.entries [] timed last))

/-- A look of `wait` at the conditions is over: the wait returns, or the thread goes to sleep and
gives the mutex back; `WaitSetImpl.cpp:133–147`. -/
def filled (s : WaitSets θ ω κ) (t : θ) (w : ω) (active : List κ) (timed last : Bool) :
    WaitSets θ ω κ :=
  let impl := s.wait_sets w
  if active ≠ [] then
    (s.setWaitSet w { impl with mutex := none, is_waiting := false }).answer t (.wait w timed)
      .OK active
  else if last then
    (s.setWaitSet w { impl with mutex := none, is_waiting := false }).answer t (.wait w timed)
      .TIMEOUT []
  else
    (s.setWaitSet w { impl with mutex := none, asleep := some t }).goto t (some (.blocked w timed))

/-- Next section of a call; `none` where it waits for a mutex or for a notification. -/
def next (s : WaitSets θ ω κ) (t : θ) : WaitSetPc ω κ → Option (WaitSets θ ω κ)
  | .change c change => ((s.conditions c).change change).map fun (changed, notify) ↦
      (s.setCondition c changed).goto t (if notify then some (.notify c) else none)
  | .notify c =>
    let notifier := s.notifiers c
    if notifier.mutex = none then
      some ((s.setNotifier c { notifier with mutex := some t }).goto t
        (some (.waking c notifier.entries)))
    else none
  | .waking c [] => some ((s.setNotifier c { s.notifiers c with mutex := none }).goto t none)
  | .waking c (w :: rest) =>
    let impl := s.wait_sets w
    if impl.mutex = none then
      some ((s.setWaitSet w { impl with asleep := none }).goto t (some (.waking c rest)))
    else none
  | .attach w c => if (s.wait_sets w).mutex = none then some (s.attachCondition t w c) else none
  | .attachTo w c =>
    let notifier := s.notifiers c
    if notifier.mutex = none then
      some ((s.setNotifier c { notifier with entries := renew notifier.entries w }).goto t
        (some (.attachCheck w c)))
    else none
  | .attachCheck w c =>
    let impl := s.wait_sets w
    if impl.mutex = none then
      let notified := impl.is_waiting && (s.conditions c).getTriggerValue
      some ((s.setWaitSet w { impl with asleep := if notified then none else impl.asleep }).answer
        t (.attach_condition w c) .OK [])
    else none
  | .detach w c => if (s.wait_sets w).mutex = none then some (s.detachCondition t w c) else none
  | .detachFrom w c =>
    let notifier := s.notifiers c
    if notifier.mutex = none then
      some ((s.setNotifier c { notifier with entries := remove notifier.entries w }).answer t
        (.detach_condition w c) .OK [])
    else none
  | .wait w timed =>
    let impl := s.wait_sets w
    if impl.mutex = none then
      if impl.is_waiting then some (s.answer t (.wait w timed) .PRECONDITION_NOT_MET [])
      else some (s.fill t w timed false)
    else none
  | .filling w (c :: rest) active timed last =>
    let active := if (s.conditions c).getTriggerValue then active ++ [c] else active
    some (s.goto t (some (.filling w rest active timed last)))
  | .filling w [] active timed last => some (s.filled t w active timed last)
  | .blocked w timed =>
    let impl := s.wait_sets w
    if impl.mutex = none ∧ impl.asleep ≠ some t then some (s.fill t w timed false) else none
  | .timedOut w => if (s.wait_sets w).mutex = none then some (s.fill t w true true) else none

omit [DecidableEq θ] [DecidableEq ω] [DecidableEq κ] in
/-- The class of the condition has the method that is called. -/
def fits (s : WaitSets θ ω κ) : WaitSetCall ω κ → Bool
  | .change c change => ((s.conditions c).change change).isSome
  | _ => true

/-- One step. -/
def step (s : WaitSets θ ω κ) : WaitSetAction θ ω κ → Option (WaitSets θ ω κ)
  | .call t call =>
    if s.calls t = none ∧ s.fits call then some (s.goto t (some call.first)) else none
  | .next t => (s.calls t).bind (s.next t)
  | .wakeUp t =>
    match s.calls t with
    | some (.blocked w timed) =>
      let impl := s.wait_sets w
      if impl.asleep = some t then
        some ((s.setWaitSet w { impl with asleep := none }).goto t (some (.blocked w timed)))
      else none
    | _ => none
  | .timeout t =>
    match s.calls t with
    | some (.blocked w true) =>
      let impl := s.wait_sets w
      some ((s.setWaitSet w { impl with
        asleep := if impl.asleep = some t then none else impl.asleep }).goto t
          (some (.timedOut w)))
    | _ => none

end WaitSets

end HzjDds.Rmw
