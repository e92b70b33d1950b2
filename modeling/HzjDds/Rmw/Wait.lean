import HzjDds.Rmw.Reader

/-!
# `__rmw_wait` and its readiness marking

Library `Rmw`. Source: `vendor/rmw_fastrtps/rmw_fastrtps_shared_cpp/src/rmw_wait.cpp`, with
the local change of the marking phase that `vendor/VERSIONS.md` records. The call sees the
readers twice: when it checks whether to wait at all, and when it marks what is ready. The
marking phase is a parameter: the patched one asks the status conditions first, the
unpatched one always asks for an untaken sample.
-/

namespace HzjDds.Rmw

open HzjDds.Transition

variable {α : Type}

/-- `CustomSubscriberInfo`, its readers; the cpu and accel readers may be null pointers. -/
structure CustomSubscriberInfo where
  data_reader : ℕ
  cpu_data_reader : Option ℕ := none
  accel_data_reader : Option ℕ := none
  deriving DecidableEq, Repr

/-- An event to wait for: its listener and the status its type maps to. -/
structure RmwEvent where
  listener : ℕ
  event_type : StatusKind
  deriving DecidableEq, Repr

/-- The five arrays of a wait, each possibly a null pointer. -/
structure Entities where
  subscriptions : Option (List CustomSubscriberInfo) := none
  guard_conditions : Option (List ℕ) := none
  services : Option (List ℕ) := none
  clients : Option (List ℕ) := none
  events : Option (List RmwEvent) := none

/-- Trigger state of guard conditions and of event listeners. -/
structure Conditions where
  guard : ℕ → Bool := fun _ ↦ false
  status_condition : ℕ → StatusCondition := fun _ ↦ ⟨∅, ∅⟩
  event_guard : ℕ → StatusKind → Bool := fun _ _ ↦ false

/-- `data_reader_has_data`; `rmw_wait.cpp:32–42`. -/
def dataReaderHasData (readers : Readers α) : Option ℕ → Bool
  | none => false
  | some r => (readers r).getFirstUntakenInfo == .OK

/-- `reader_status_active`; `rmw_wait.cpp:56–61`. -/
def readerStatusActive (readers : Readers α) : Option ℕ → Bool
  | none => false
  | some r => (readers r).condition.getTriggerValue

/-- `subscription_has_data`; `rmw_wait.cpp:63–83`. -/
def subscriptionHasData (readers : Readers α) (info : CustomSubscriberInfo) : Bool :=
  if dataReaderHasData readers (some info.data_reader) then true
  else if info.cpu_data_reader.isSome && dataReaderHasData readers info.cpu_data_reader then true
  else if info.accel_data_reader.isSome && dataReaderHasData readers info.accel_data_reader then
    true
  else false

/-- `has_triggered_condition`; `rmw_wait.cpp:98–164`. -/
def hasTriggeredCondition (readers : Readers α) (conditions : Conditions)
    (entities : Entities) : Bool :=
  (entities.guard_conditions.getD []).any conditions.guard ||
  (entities.events.getD []).any (fun e ↦
    (conditions.status_condition e.listener).getTriggerValue ||
      conditions.event_guard e.listener e.event_type) ||
  (entities.subscriptions.getD []).any (subscriptionHasData readers) ||
  (entities.clients.getD []).any (fun c ↦ dataReaderHasData readers (some c)) ||
  (entities.services.getD []).any (fun s ↦ dataReaderHasData readers (some s))

/-- The two versions of the marking phase. -/
inductive Marking where
  | patched
  | unpatched
  deriving DecidableEq, Repr

/-- Whether the marking phase keeps a subscription: the patched version first looks for an
active status, `rmw_wait.cpp:292–308`, then both look for an untaken sample. -/
def Marking.keeps (readers : Readers α) (info : CustomSubscriberInfo) : Marking → Bool
  | .patched =>
    let maybe_data := readerStatusActive readers (some info.data_reader) ||
      readerStatusActive readers info.cpu_data_reader ||
      readerStatusActive readers info.accel_data_reader
    if !maybe_data then false else subscriptionHasData readers info
  | .unpatched => subscriptionHasData readers info

/-- Clear the array entries that are not ready; a ready one makes the wait a success. -/
def markReady {β : Type} (ready : β → Bool) (entries : Option (List β)) (wait_result : Bool) :
    Option (List (Option β)) × Bool :=
  (entries.map (List.map fun e ↦ if ready e then some e else none),
    wait_result || (entries.getD []).any ready)

/-- Marking of events: a triggered event guard is reset; `rmw_wait.cpp:355–392`. -/
def markEvents (conditions : Conditions) :
    List RmwEvent → (ℕ → StatusKind → Bool) → Bool →
      List (Option RmwEvent) × (ℕ → StatusKind → Bool) × Bool
  | [], guards, wait_result => ([], guards, wait_result)
  | e :: rest, guards, wait_result =>
    let changed := e.event_type ∈ (conditions.status_condition e.listener).status
    let triggered := guards e.listener e.event_type
    let active := wait_result && (decide changed || triggered)
    let guards := if wait_result && triggered then
      Function.update guards e.listener (Function.update (guards e.listener) e.event_type false)
    else guards
    let (marked, guards, wait_result) := markEvents conditions rest guards (wait_result || active)
    ((if active then some e else none) :: marked, guards, wait_result)

/-- Marking of guard conditions: a triggered one is reset; `rmw_wait.cpp:394–407`. -/
def markGuards : List ℕ → (ℕ → Bool) → Bool → List (Option ℕ) × (ℕ → Bool) × Bool
  | [], guards, wait_result => ([], guards, wait_result)
  | g :: rest, guards, wait_result =>
    let triggered := guards g
    let (marked, guards, wait_result) :=
      markGuards rest (Function.update guards g false) (wait_result || triggered)
    ((if triggered then some g else none) :: marked, guards, wait_result)

/-- `rmw_ret_t`. -/
inductive RmwRet where
  | OK
  | TIMEOUT
  | INVALID_ARGUMENT
  | INCORRECT_RMW_IMPLEMENTATION
  deriving DecidableEq, Repr

/-- Everything one call is given: the arrays, the trigger state before the wait and when
the wait set returns, and whether `WaitSet::wait` returns `RETCODE_OK`. -/
structure WaitCall where
  identifier : String
  wait_set : Option String
  entities : Entities
  conditions : Conditions := {}
  woken : Conditions := {}
  wait_ok : Bool := false

/-- What the call leaves behind: the marked arrays, the reset trigger state, the code. -/
structure WaitResult where
  ret : RmwRet
  subscriptions : Option (List (Option CustomSubscriberInfo))
  guard_conditions : Option (List (Option ℕ))
  services : Option (List (Option ℕ))
  clients : Option (List (Option ℕ))
  events : Option (List (Option RmwEvent))
  conditions : Conditions

namespace WaitCall

/-- A call that fails its argument checks leaves the arrays as they are. -/
def refuse (call : WaitCall) (ret : RmwRet) : WaitResult where
  ret := ret
  subscriptions := call.entities.subscriptions.map (List.map some)
  guard_conditions := call.entities.guard_conditions.map (List.map some)
  services := call.entities.services.map (List.map some)
  clients := call.entities.clients.map (List.map some)
  events := call.entities.events.map (List.map some)
  conditions := call.conditions

/-- The wait is skipped when something is ready already. -/
def skipWait (call : WaitCall) (before : Readers α) : Bool :=
  hasTriggeredCondition before call.conditions call.entities

/-- The marking phase; `rmw_wait.cpp:286–409`. -/
def mark (call : WaitCall) (marking : Marking) (readers : Readers α) (conditions : Conditions)
    (skip_wait wait_result : Bool) : WaitResult :=
  let (subscriptions, wait_result) :=
    markReady (marking.keeps readers) call.entities.subscriptions wait_result
  let (clients, wait_result) :=
    markReady (fun c ↦ dataReaderHasData readers (some c)) call.entities.clients wait_result
  let (services, wait_result) :=
    markReady (fun s ↦ dataReaderHasData readers (some s)) call.entities.services wait_result
  let (events, event_guard, wait_result) :=
    markEvents conditions (call.entities.events.getD []) conditions.event_guard wait_result
  let (guards, guard, wait_result) :=
    markGuards (call.entities.guard_conditions.getD []) conditions.guard wait_result
  { ret := if skip_wait || wait_result then .OK else .TIMEOUT
    subscriptions
    guard_conditions := call.entities.guard_conditions.map fun _ ↦ guards
    services
    clients
    events := call.entities.events.map fun _ ↦ events
    conditions := { conditions with guard, event_guard } }

/-- `__rmw_wait`; `rmw_wait.cpp:166–411`. `before` are the readers at the check whether to
wait, `after` the readers when `WaitSet::wait` has returned. -/
def rmwWait (call : WaitCall) (marking : Marking) (before after : Readers α) : WaitResult :=
  match call.wait_set with
  | none => call.refuse .INVALID_ARGUMENT
  | some implementation =>
    if implementation ≠ call.identifier then call.refuse .INCORRECT_RMW_IMPLEMENTATION
    else if call.skipWait before then call.mark marking before call.conditions true true
    else call.mark marking after call.woken false call.wait_ok

/-- Readers the marking phase looks at. -/
def marked (call : WaitCall) (before after : Readers α) : Readers α :=
  if call.skipWait before then before else after

/-- The array position of `info` still holds it after the call. -/
def ReturnsReady (result : WaitResult) (i : ℕ) (info : CustomSubscriberInfo) : Prop :=
  ∃ marks, result.subscriptions = some marks ∧ marks[i]? = some (some info)

/-- The patched call means what the unpatched one does: it clears the same subscriptions,
none of those that hold an untaken sample, and none of those whose data made it skip the
wait. -/
structure KeepsMeaning (call : WaitCall) (before after : Readers α) : Prop where
  same : (call.rmwWait .patched before after).subscriptions =
    (call.rmwWait .unpatched before after).subscriptions
  untaken : ∀ infos i info, call.entities.subscriptions = some infos → infos[i]? = some info →
    subscriptionHasData (call.marked before after) info = true →
    ReturnsReady (call.rmwWait .patched before after) i info
  skipped : ∀ infos i info, call.entities.subscriptions = some infos → infos[i]? = some info →
    subscriptionHasData before info = true →
    ReturnsReady (call.rmwWait .patched before after) i info

private theorem subscriptions_mark (call : WaitCall) (marking : Marking) (readers : Readers α)
    (conditions : Conditions) (skip_wait wait_result : Bool) :
    (call.mark marking readers conditions skip_wait wait_result).subscriptions =
      call.entities.subscriptions.map
        (List.map fun e ↦ if marking.keeps readers e then some e else none) := rfl

private theorem subscriptions_rmwWait (call : WaitCall) (marking : Marking) (before after : Readers α) :
    (call.rmwWait marking before after).subscriptions =
      call.entities.subscriptions.map (List.map fun e ↦
        if call.wait_set ≠ some call.identifier ∨
          marking.keeps (call.marked before after) e = true then some e else none) := by
  unfold rmwWait
  cases hset : call.wait_set with
  | none => simp [refuse]
  | some implementation =>
    by_cases himpl : implementation = call.identifier
    · by_cases hskip : call.skipWait before = true
      · simp [himpl, hskip, subscriptions_mark, marked]
      · simp [himpl, hskip, subscriptions_mark, marked]
    · simp [himpl, refuse]

end WaitCall

private theorem dataReaderHasData_some (readers : Readers α) (r : ℕ) :
    dataReaderHasData readers (some r) = true ↔ (readers r).untaken ≠ [] := by
  cases h : (readers r).untaken <;>
    simp [dataReaderHasData, DataReader.getFirstUntakenInfo, h]

private theorem readerStatusActive_of_hasData {readers : Readers α} (h : readers.Announced)
    {r : Option ℕ} (hr : dataReaderHasData readers r = true) :
    readerStatusActive readers r = true := by
  cases r with
  | none => contradiction
  | some r => exact h r ((dataReaderHasData_some readers r).mp hr)

private theorem keeps_patched {readers : Readers α} (h : readers.Announced)
    (info : CustomSubscriberInfo) :
    Marking.patched.keeps readers info = Marking.unpatched.keeps readers info := by
  have hdata := readerStatusActive_of_hasData h (r := some info.data_reader)
  have hcpu := readerStatusActive_of_hasData h (r := info.cpu_data_reader)
  have haccel := readerStatusActive_of_hasData h (r := info.accel_data_reader)
  simp only [Marking.keeps]
  split
  · next hquiet =>
    simp only [Bool.not_eq_true', Bool.or_eq_false_iff] at hquiet
    obtain ⟨⟨hd, hc⟩, ha⟩ := hquiet
    simp only [hd, hc, ha, Bool.false_eq_true, imp_false, Bool.not_eq_true] at hdata hcpu haccel
    simp [subscriptionHasData, hdata, hcpu, haccel]
  · rfl

/-- With every sample announced at both looks, the patched call keeps its meaning. -/
theorem keepsMeaning_of_announced (call : WaitCall) {before after : Readers α}
    (hbefore : before.Announced) (hafter : after.Announced) :
    call.KeepsMeaning before after := by
  have hmarked : (call.marked before after).Announced := by
    unfold WaitCall.marked
    split <;> assumption
  have hready : ∀ infos i info, call.entities.subscriptions = some infos →
      infos[i]? = some info → subscriptionHasData (call.marked before after) info = true →
      WaitCall.ReturnsReady (call.rmwWait .patched before after) i info := by
    intro infos i info hinfos hi hhas
    have hkeeps : Marking.patched.keeps (call.marked before after) info = true := by
      rw [keeps_patched hmarked]
      exact hhas
    rw [WaitCall.ReturnsReady, call.subscriptions_rmwWait, hinfos]
    exact ⟨_, rfl, by simp [hi, hkeeps]⟩
  constructor
  case same => simp only [call.subscriptions_rmwWait, keeps_patched hmarked]
  case untaken => exact hready
  case skipped =>
    intro infos i info hinfos hi hhas
    have hskip : call.skipWait before = true := by
      have hany : (infos.any (subscriptionHasData before)) = true :=
        List.any_eq_true.mpr ⟨info, List.mem_of_getElem? hi, hhas⟩
      simp [WaitCall.skipWait, hasTriggeredCondition, hinfos, hany]
    apply hready infos i info hinfos hi
    rw [WaitCall.marked, if_pos hskip]
    exact hhas

/-- Every call made during a history, seeing the readers at any two of its moments, keeps
its meaning. -/
def WaitsKeepMeaning (history : List (ReaderStep α)) : Prop :=
  ∀ before during s t call, before ++ during <+: history →
    run Readers.step Readers.fresh before = some s → run Readers.step s during = some t →
    WaitCall.KeepsMeaning call s t

/-- The wait on one plain subscription. -/
def WaitCall.single (r : ℕ) : WaitCall where
  identifier := "rmw_fastrtps_cpp"
  wait_set := some "rmw_fastrtps_cpp"
  entities := { subscriptions := some [{ data_reader := r }] }

private theorem announced_of_single {s : Readers α} {r : ℕ}
    (h : (WaitCall.single r).KeepsMeaning s s) : (s r).Announced := by
  intro hne
  have hhas : dataReaderHasData s (some r) = true := (dataReaderHasData_some s r).mpr hne
  have hready := h.untaken [{ data_reader := r }] 0 { data_reader := r } rfl rfl (by
    simp [WaitCall.marked, subscriptionHasData, hhas])
  rw [WaitCall.ReturnsReady, WaitCall.subscriptions_rmwWait] at hready
  obtain ⟨marks, hmarks, hi⟩ := hready
  simp only [WaitCall.single, Option.map_some, List.map_cons, List.map_nil,
    Option.some.injEq] at hmarks
  subst hmarks
  by_contra hoff
  simp [Marking.keeps, readerStatusActive, hoff, WaitCall.marked] at hi

/-- The patched marking keeps its meaning throughout a history exactly when no take of the
history leaves an untaken sample behind. -/
theorem rmwWait_keepsMeaning_iff (history : List (ReaderStep α)) :
    WaitsKeepMeaning history ↔ AllSteps Readers.step TakeEmpties Readers.fresh history := by
  rw [← announced_run_iff]
  constructor
  · intro h bs s hbs hs r
    apply announced_of_single
    apply h bs [] s s (WaitCall.single r) _ hs rfl
    rwa [List.append_nil]
  · intro h before during s t call hpre hs ht
    have hrun : run Readers.step Readers.fresh (before ++ during) = some t := by
      rw [run_append, hs]
      exact ht
    apply keepsMeaning_of_announced call
    · exact h before s ((List.prefix_append _ _).trans hpre) hs
    · exact h _ t hpre hrun

/-- A burst of two samples and one take: the subscription still holds the second sample,
the call skips the wait because of it, and the patched marking clears it. -/
theorem rmwWait_clears_burst :
    ¬ ∀ history : List (ReaderStep ℕ), WaitsKeepMeaning history := by
  intro h
  have hcall := h [.arrive 0 1, .arrive 0 2, .take 0 true] [.arrive 0 1, .arrive 0 2, .take 0 true]
    [] _ _ (WaitCall.single 0) (List.prefix_refl _) rfl rfl
  exact absurd hcall.same (by decide)

end HzjDds.Rmw
