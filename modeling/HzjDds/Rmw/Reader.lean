import Mathlib.Data.Finset.Lattice.Lemmas
import Mathlib.Data.Finset.SDiff
import Mathlib.Logic.Function.Basic
import HzjDds.Transition.Run

/-!
# Fast DDS readers and their status condition

Library `Rmw`. Source: `vendor/Fast-DDS/src/cpp/fastdds`: `subscriber/DataReaderImpl.cpp`
(388–418, 528–604, 802–816, 928–941), `core/condition/StatusConditionImpl.cpp` and
`subscriber/history/DataReaderHistory.cpp` (373–409). A reader is its status condition and
its untaken samples, oldest first; the enabled statuses are the ones
`rmw_fastrtps_shared_cpp/src/rmw_subscription.cpp:187` sets.
-/

namespace HzjDds.Rmw

open HzjDds.Transition

/-- Communication statuses; `fastdds/dds/core/status/StatusMask.hpp:123–250`. -/
inductive StatusKind where
  | inconsistent_topic
  | offered_deadline_missed
  | requested_deadline_missed
  | offered_incompatible_qos
  | requested_incompatible_qos
  | sample_lost
  | sample_rejected
  | data_on_readers
  | data_available
  | liveliness_lost
  | liveliness_changed
  | publication_matched
  | subscription_matched
  deriving DecidableEq, Repr

/-- `StatusMask`, a set of statuses. -/
abbrev StatusMask := Finset StatusKind

/-- `StatusConditionImpl`: the enabled statuses and the active ones. -/
structure StatusCondition where
  mask : StatusMask
  status : StatusMask
  deriving DecidableEq

namespace StatusCondition

/-- `get_trigger_value`; `StatusConditionImpl.cpp:40–44`. -/
def getTriggerValue (c : StatusCondition) : Bool := decide ((c.mask ∩ c.status).Nonempty)

/-- `set_status`; `StatusConditionImpl.cpp:85–110`. -/
def setStatus (c : StatusCondition) (status : StatusMask) (trigger_value : Bool) :
    StatusCondition :=
  if trigger_value then { c with status := c.status ∪ status }
  else { c with status := c.status \ status }

end StatusCondition

/-- `ReturnCode_t`, the codes a take can end with. -/
inductive ReturnCode where
  | OK
  | NO_DATA
  | OUT_OF_RESOURCES
  deriving DecidableEq, Repr

/-- A data reader: status condition and untaken samples. -/
structure DataReader (α : Type) where
  condition : StatusCondition
  untaken : List α
  deriving DecidableEq

namespace DataReader

variable {α : Type}

/-- A reader as `create_subscription` leaves it: nothing received, woken by data only. -/
def create : DataReader α where
  condition := { mask := {.data_available}, status := ∅ }
  untaken := []

/-- `set_read_communication_status`, the part on the reader; `DataReaderImpl.cpp:416–417`. -/
def setReadCommunicationStatus (r : DataReader α) (trigger_value : Bool) : DataReader α :=
  { r with condition := r.condition.setStatus {.data_available} trigger_value }

/-- A sample arrives: it enters the history and the status is raised;
`DataReaderImpl.cpp:928–941`. -/
def onDataAvailable (r : DataReader α) (sample : α) : DataReader α :=
  { r with untaken := r.untaken ++ [sample] }.setReadCommunicationStatus true

/-- `take` with `max_samples` 1: the status is cleared first, whatever happens then; `loan`
says whether `prepare_loan` finds the resources; `DataReaderImpl.cpp:528–604`. -/
def take (r : DataReader α) (loan : Bool) : ReturnCode × Option α × DataReader α :=
  let cleared := r.setReadCommunicationStatus false
  match cleared.untaken with
  | [] => (.NO_DATA, none, cleared)
  | sample :: rest =>
    if loan then (.OK, some sample, { cleared with untaken := rest })
    else (.OUT_OF_RESOURCES, none, cleared)

/-- `get_first_untaken_info`; `DataReaderImpl.cpp:802–816`. -/
def getFirstUntakenInfo (r : DataReader α) : ReturnCode :=
  if r.untaken.isEmpty then .NO_DATA else .OK

/-- The reader is woken by data, and only by data. -/
def WokenByData (r : DataReader α) : Prop := r.condition.mask = {.data_available}

/-- The status condition announces every untaken sample. -/
def Announced (r : DataReader α) : Prop :=
  r.untaken ≠ [] → r.condition.getTriggerValue = true

private theorem getTriggerValue_eq {r : DataReader α} (h : r.WokenByData) :
    r.condition.getTriggerValue = decide (.data_available ∈ r.condition.status) := by
  unfold StatusCondition.getTriggerValue
  rw [h]
  congr 1
  by_cases hm : .data_available ∈ r.condition.status
  · simp [Finset.singleton_inter_of_mem hm, hm]
  · simp [Finset.singleton_inter_of_notMem hm, hm]

private theorem take_state (r : DataReader α) (loan : Bool) :
    (r.take loan).2.2 =
      { condition := (r.setReadCommunicationStatus false).condition
        untaken := if loan then r.untaken.tail else r.untaken } := by
  obtain ⟨condition, untaken⟩ := r
  cases untaken with
  | nil => cases loan <;> rfl
  | cons sample rest => cases loan <;> rfl

private theorem announced_create : (create : DataReader α).Announced := fun h ↦ (h rfl).elim

private theorem wokenByData_create : (create : DataReader α).WokenByData := rfl

@[simp] theorem mask_onDataAvailable (r : DataReader α) (sample : α) :
    (r.onDataAvailable sample).condition.mask = r.condition.mask := rfl

@[simp] theorem mask_take (r : DataReader α) (loan : Bool) :
    (r.take loan).2.2.condition.mask = r.condition.mask := by
  rw [take_state]
  rfl

private theorem announced_onDataAvailable {r : DataReader α} (h : r.WokenByData) (sample : α) :
    (r.onDataAvailable sample).Announced := by
  intro _
  have hwoken : (r.onDataAvailable sample).WokenByData := h
  rw [getTriggerValue_eq hwoken]
  simp [onDataAvailable, setReadCommunicationStatus, StatusCondition.setStatus]

private theorem getTriggerValue_take {r : DataReader α} (h : r.WokenByData) (loan : Bool) :
    (r.take loan).2.2.condition.getTriggerValue = false := by
  have hmask : (r.take loan).2.2.WokenByData := (mask_take r loan).trans h
  rw [getTriggerValue_eq hmask, take_state]
  simp [setReadCommunicationStatus, StatusCondition.setStatus]

private theorem announced_take_iff {r : DataReader α} (h : r.WokenByData) (loan : Bool) :
    (r.take loan).2.2.Announced ↔ r.untaken.length ≤ if loan then 1 else 0 := by
  unfold Announced
  rw [getTriggerValue_take h, take_state]
  obtain ⟨condition, untaken⟩ := r
  cases loan with
  | false => simp
  | true => cases untaken <;> simp

end DataReader

/-! ### Histories of the readers -/

/-- All data readers of the process, by address. -/
abbrev Readers (α : Type) := ℕ → DataReader α

/-- One event in the life of the readers. -/
inductive ReaderStep (α : Type) where
  | arrive (r : ℕ) (sample : α)
  | take (r : ℕ) (loan : Bool)
  deriving DecidableEq, Repr

variable {α : Type}

/-- Readers just created. -/
def Readers.fresh : Readers α := fun _ ↦ .create

/-- One event changes one reader. -/
def Readers.step (s : Readers α) : ReaderStep α → Option (Readers α)
  | .arrive r sample => some (Function.update s r ((s r).onDataAvailable sample))
  | .take r loan => some (Function.update s r ((s r).take loan).2.2)

/-- A take finds at most the one sample it removes. -/
def TakeEmpties (s : Readers α) : ReaderStep α → Prop
  | .arrive _ _ => True
  | .take r loan => (s r).untaken.length ≤ if loan then 1 else 0

/-- Every reader is woken by data only. -/
def Readers.WokenByData (s : Readers α) : Prop := ∀ r, (s r).WokenByData

/-- Every reader announces its untaken samples. -/
def Readers.Announced (s : Readers α) : Prop := ∀ r, (s r).Announced

/-- The enabled statuses never change. -/
theorem wokenByData_step {s s' : Readers α} {a : ReaderStep α} (hw : s.WokenByData)
    (h : s.step a = some s') : s'.WokenByData := by
  intro r
  cases a with
  | arrive u sample =>
    cases h
    by_cases hr : r = u
    · subst r
      simpa [DataReader.WokenByData] using hw u
    · simpa [hr] using hw r
  | take u loan =>
    cases h
    by_cases hr : r = u
    · subst r
      simpa [DataReader.WokenByData] using hw u
    · simpa [hr] using hw r

/-- Out of a state where every sample is announced, an event reaches such a state exactly
when it is not a take that leaves samples behind. -/
theorem announced_step_iff {s s' : Readers α} {a : ReaderStep α} (hw : s.WokenByData)
    (hs : s.Announced) (h : s.step a = some s') : s'.Announced ↔ TakeEmpties s a := by
  cases a with
  | arrive u sample =>
    cases h
    apply iff_of_true _ trivial
    intro r
    by_cases hr : r = u
    · subst r
      simpa using (s u).announced_onDataAvailable (hw u) sample
    · simpa [hr] using hs r
  | take u loan =>
    cases h
    have hu : (Function.update s u ((s u).take loan).2.2 u).Announced ↔
        TakeEmpties s (.take u loan) := by
      rw [Function.update_self, DataReader.announced_take_iff (hw u)]
      rfl
    constructor
    · exact fun hall ↦ hu.mp (hall u)
    · intro hok r
      by_cases hr : r = u
      · subst r
        exact hu.mpr hok
      · simpa [hr] using hs r

/-- Every sample is announced in every state of a history exactly when no take of it leaves
samples behind. -/
theorem announced_run_iff (history : List (ReaderStep α)) :
    AllStates Readers.step Readers.Announced (Readers.fresh : Readers α) history ↔
      AllSteps Readers.step TakeEmpties Readers.fresh history :=
  allStates_iff_allSteps (I := Readers.WokenByData) (fun _ ↦ DataReader.wokenByData_create)
    (fun _ ↦ DataReader.announced_create) (fun _ _ _ hw h ↦ wokenByData_step hw h)
    (fun _ _ _ hw hs h ↦ announced_step_iff hw hs h) history

end HzjDds.Rmw
