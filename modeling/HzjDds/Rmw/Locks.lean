import HzjDds.Rmw.WaitSet
import HzjDds.Transition.Held
import HzjDds.Transition.Run

/-!
# Locks of the wait sets

Library `Rmw`. Source: `vendor/Fast-DDS/src/cpp/fastdds/core/condition`. The mutex of a wait set is
held from section to section by a thread that looks at the conditions, the mutex of a notifier by a
thread that wakes its wait sets. A notifier's mutex is taken before that of a wait set and never
after it, so that somebody can always go on.
-/

namespace HzjDds.Rmw

open HzjDds.Cpp HzjDds.Transition

universe u v w

variable {θ : Type u} {ω : Type v} {κ : Type w}

namespace WaitSetPc

/-- The wait set whose mutex is held between two sections. -/
def holdsSet : WaitSetPc ω κ → Option ω
  | filling w _ _ _ _ => some w
  | _ => none

/-- The condition whose notifier's mutex is held between two sections. -/
def holdsNotifier : WaitSetPc ω κ → Option κ
  | waking c _ => some c
  | _ => none

end WaitSetPc

namespace WaitSets

variable [DecidableEq θ] [DecidableEq ω] [DecidableEq κ]

omit [DecidableEq θ] [DecidableEq ω] [DecidableEq κ] in
/-- Each mutex is held by the thread that is in its section, and a change that is called fits its
condition. -/
structure Locked (s : WaitSets θ ω κ) : Prop where
  set_mutex : ∀ w t, (s.wait_sets w).mutex = some t ↔
    (s.calls t).bind WaitSetPc.holdsSet = some w
  notifier_mutex : ∀ c t, (s.notifiers c).mutex = some t ↔
    (s.calls t).bind WaitSetPc.holdsNotifier = some c
  fits : ∀ t c change, s.calls t = some (.change c change) →
    ((s.conditions c).change change).isSome = true

omit [DecidableEq θ] [DecidableEq ω] [DecidableEq κ] in
/-- Conditions that nobody has attached or waits for. -/
theorem locked_init (conditions : κ → Condition) :
    Locked ({ conditions } : WaitSets θ ω κ) := by
  constructor <;> simp

omit [DecidableEq ω] [DecidableEq κ] in
/-- What is read off the sections of the calls is as before if it is so for the thread that goes on. -/
theorem bind_calls {β : Type*} {s s' : WaitSets θ ω κ} {t : θ} {pc pc' : Option (WaitSetPc ω κ)}
    (hpc : s.calls t = pc) (hcalls : s'.calls = Function.update s.calls t pc')
    (f : WaitSetPc ω κ → Option β) (hsame : pc'.bind f = pc.bind f) (u : θ) :
    (s'.calls u).bind f = (s.calls u).bind f := by
  rw [hcalls]
  exact apply_update_of_eq (Option.bind · f) (by rw [hpc, hsame]) u

omit [DecidableEq ω] [DecidableEq κ] in
private theorem Locked.fits_of_calls {s s' : WaitSets θ ω κ} (h : Locked s) {t : θ}
    {pc' : Option (WaitSetPc ω κ)} (hcalls : s'.calls = Function.update s.calls t pc')
    (hconditions : ∀ c change, ((s'.conditions c).change change).isSome =
      ((s.conditions c).change change).isSome)
    (hchange : ∀ c change, pc' = some (.change c change) →
      ((s.conditions c).change change).isSome = true) (u : θ) (c : κ) (change : Change)
    (hu : s'.calls u = some (.change c change)) :
    ((s'.conditions c).change change).isSome = true := by
  rw [hconditions]
  rw [hcalls] at hu
  rcases eq_or_ne u t with rfl | hut
  · rw [Function.update_self] at hu
    exact hchange c change hu
  · rw [Function.update_of_ne hut] at hu
    exact h.fits u c change hu

omit [DecidableEq ω] [DecidableEq κ] in
/-- A thread goes on with the mutexes that it holds. -/
theorem Locked.move {s s' : WaitSets θ ω κ} (h : Locked s) {t : θ}
    {pc pc' : Option (WaitSetPc ω κ)} (hpc : s.calls t = pc)
    (hcalls : s'.calls = Function.update s.calls t pc')
    (hset : pc'.bind WaitSetPc.holdsSet = pc.bind WaitSetPc.holdsSet)
    (hnotifier : pc'.bind WaitSetPc.holdsNotifier = pc.bind WaitSetPc.holdsNotifier)
    (hsets : ∀ w, (s'.wait_sets w).mutex = (s.wait_sets w).mutex)
    (hnotifiers : ∀ c, (s'.notifiers c).mutex = (s.notifiers c).mutex)
    (hconditions : ∀ c change, ((s'.conditions c).change change).isSome =
      ((s.conditions c).change change).isSome)
    (hchange : ∀ c change, pc' = some (.change c change) →
      ((s.conditions c).change change).isSome = true) : Locked s' := by
  constructor
  case set_mutex =>
    exact HeldBy.congr h.set_mutex hsets (bind_calls hpc hcalls WaitSetPc.holdsSet hset)
  case notifier_mutex =>
    exact HeldBy.congr h.notifier_mutex hnotifiers
      (bind_calls hpc hcalls WaitSetPc.holdsNotifier hnotifier)
  case fits => exact h.fits_of_calls hcalls hconditions hchange

omit [DecidableEq κ] in
/-- A thread begins to look at the conditions, under the mutex of the wait set. -/
theorem Locked.fill {s : WaitSets θ ω κ} (h : Locked s) {t : θ} {pc : WaitSetPc ω κ}
    (hpc : s.calls t = some pc) {w : ω} (hfree : (s.wait_sets w).mutex = none)
    (hset : pc.holdsSet = none) (hnotifier : pc.holdsNotifier = none) (timed last : Bool) :
    Locked (s.fill t w timed last) := by
  simp only [WaitSets.fill]
  constructor
  case set_mutex =>
    apply HeldBy.take h.set_mutex hfree (by rw [hpc]; exact hset)
    case hr => simp
    case hmutex => exact fun x hx ↦ by simp [hx]
    case ht => simp [WaitSetPc.holdsSet]
    case hholds => exact fun u hu ↦ by simp [hu]
  case notifier_mutex =>
    exact HeldBy.congr h.notifier_mutex (fun _ ↦ rfl)
      (bind_calls hpc rfl WaitSetPc.holdsNotifier (by exact hnotifier.symm))
  case fits => exact h.fits_of_calls rfl (fun _ _ ↦ rfl) (by simp)

omit [DecidableEq κ] in
/-- A thread has looked at the conditions, and gives the mutex of the wait set back. -/
theorem Locked.leave {s s' : WaitSets θ ω κ} (h : Locked s) {t : θ} {w : ω} {rest active : List κ}
    {timed last : Bool} (hpc : s.calls t = some (.filling w rest active timed last))
    {pc' : Option (WaitSetPc ω κ)} (hcalls : s'.calls = Function.update s.calls t pc')
    (hpc' : pc' = none ∨ pc' = some (.blocked w timed)) {impl : WaitSetImpl θ κ}
    (hsets : s'.wait_sets = Function.update s.wait_sets w impl) (himpl : impl.mutex = none)
    (hnotifiers : s'.notifiers = s.notifiers) (hconditions : s'.conditions = s.conditions) :
    Locked s' := by
  have hnone : pc'.bind WaitSetPc.holdsSet = none ∧ pc'.bind WaitSetPc.holdsNotifier = none := by
    rcases hpc' with rfl | rfl <;> exact ⟨rfl, rfl⟩
  constructor
  case set_mutex =>
    apply HeldBy.give h.set_mutex (t := t) (r := w) (by rw [hpc]; rfl)
    case hr => rw [hsets, Function.update_self, himpl]
    case hmutex => exact fun x hx ↦ by rw [hsets, Function.update_of_ne hx]
    case ht => rw [hcalls, Function.update_self, hnone.1]
    case hholds => exact fun u hu ↦ by rw [hcalls, Function.update_of_ne hu]
  case notifier_mutex =>
    rw [hnotifiers]
    exact HeldBy.congr h.notifier_mutex (fun _ ↦ rfl)
      (bind_calls hpc hcalls WaitSetPc.holdsNotifier hnone.2)
  case fits =>
    refine h.fits_of_calls hcalls (fun _ _ ↦ by rw [hconditions]) ?_
    rcases hpc' with rfl | rfl <;> simp

omit [DecidableEq κ] in
/-- A thread has looked at the conditions. -/
theorem Locked.filled {s : WaitSets θ ω κ} (h : Locked s) {t : θ} {w : ω} {rest active : List κ}
    {timed last : Bool} (hpc : s.calls t = some (.filling w rest active timed last)) :
    Locked (s.filled t w active timed last) := by
  simp only [WaitSets.filled]
  split_ifs
  · exact h.leave hpc rfl (.inl rfl) rfl rfl rfl rfl
  · exact h.leave hpc rfl (.inl rfl) rfl rfl rfl rfl
  · exact h.leave hpc rfl (.inr rfl) rfl rfl rfl rfl

/-- The first section of `attach_condition`. -/
theorem Locked.attachCondition {s : WaitSets θ ω κ} (h : Locked s) {t : θ} {w : ω} {c : κ}
    (hpc : s.calls t = some (.attach w c)) : Locked (s.attachCondition t w c) := by
  have hsets : ∀ x, (Function.update s.wait_sets w { s.wait_sets w with
      entries := renew (s.wait_sets w).entries c } x).mutex = (s.wait_sets x).mutex :=
    apply_update_of_eq WaitSetImpl.mutex rfl
  simp only [WaitSets.attachCondition]
  split_ifs
  · exact h.move hpc rfl rfl rfl hsets (fun _ ↦ rfl) (fun _ _ ↦ rfl) (by simp)
  · exact h.move hpc rfl rfl rfl hsets (fun _ ↦ rfl) (fun _ _ ↦ rfl) (by simp)

/-- The first section of `detach_condition`. -/
theorem Locked.detachCondition {s : WaitSets θ ω κ} (h : Locked s) {t : θ} {w : ω} {c : κ}
    (hpc : s.calls t = some (.detach w c)) : Locked (s.detachCondition t w c) := by
  simp only [WaitSets.detachCondition]
  split_ifs
  · exact h.move hpc rfl rfl rfl (apply_update_of_eq WaitSetImpl.mutex rfl) (fun _ ↦ rfl)
      (fun _ _ ↦ rfl) (by simp)
  · exact h.move hpc rfl rfl rfl (fun _ ↦ rfl) (fun _ ↦ rfl) (fun _ _ ↦ rfl) (by simp)

omit [DecidableEq ω] in
/-- A thread takes the mutex of a notifier. -/
theorem Locked.notify {s : WaitSets θ ω κ} (h : Locked s) {t : θ} {c : κ}
    (hpc : s.calls t = some (.notify c)) (hfree : (s.notifiers c).mutex = none) (rest : List ω) :
    Locked ((s.setNotifier c { s.notifiers c with mutex := some t }).goto t
      (some (.waking c rest))) := by
  constructor
  case set_mutex =>
    exact HeldBy.congr h.set_mutex (fun _ ↦ rfl)
      (bind_calls hpc rfl WaitSetPc.holdsSet (by rfl))
  case notifier_mutex =>
    apply HeldBy.take h.notifier_mutex hfree (by rw [hpc]; rfl)
    case hr => simp
    case hmutex => exact fun d hd ↦ by simp [hd]
    case ht => simp [WaitSetPc.holdsNotifier]
    case hholds => exact fun u hu ↦ by simp [hu]
  case fits => exact h.fits_of_calls rfl (fun _ _ ↦ rfl) (by simp)

omit [DecidableEq ω] in
/-- A thread has woken the wait sets of a notifier, and gives its mutex back. -/
theorem Locked.notified {s : WaitSets θ ω κ} (h : Locked s) {t : θ} {c : κ} {rest : List ω}
    (hpc : s.calls t = some (.waking c rest)) :
    Locked ((s.setNotifier c { s.notifiers c with mutex := none }).goto t none) := by
  constructor
  case set_mutex =>
    exact HeldBy.congr h.set_mutex (fun _ ↦ rfl)
      (bind_calls hpc rfl WaitSetPc.holdsSet (by rfl))
  case notifier_mutex =>
    apply HeldBy.give h.notifier_mutex (t := t) (r := c) (by rw [hpc]; rfl)
    case hr => simp
    case hmutex => exact fun d hd ↦ by simp [hd]
    case ht => simp
    case hholds => exact fun u hu ↦ by simp [hu]
  case fits => exact h.fits_of_calls rfl (fun _ _ ↦ rfl) (by simp)

/-- The next section of a call. -/
theorem Locked.next {s s' : WaitSets θ ω κ} (h : Locked s) {t : θ} {pc : WaitSetPc ω κ}
    (hpc : s.calls t = some pc) (hs : s.next t pc = some s') : Locked s' := by
  cases pc with
  | change c change =>
    obtain ⟨⟨changed, notify⟩, hchange, rfl⟩ := Option.map_eq_some_iff.mp hs
    have hconditions : ∀ d other, ((Function.update s.conditions c changed d).change other).isSome =
        ((s.conditions d).change other).isSome := by
      intro d other
      rw [Condition.isSome_change, Condition.isSome_change,
        apply_update_of_eq Condition.isGuard (Condition.isGuard_change hchange)]
    cases notify
    · exact h.move hpc rfl rfl rfl (fun _ ↦ rfl) (fun _ ↦ rfl) hconditions (by simp)
    · exact h.move hpc rfl rfl rfl (fun _ ↦ rfl) (fun _ ↦ rfl) hconditions (by simp)
  | notify c =>
    simp only [WaitSets.next] at hs
    split at hs
    · next hfree =>
      cases hs
      exact h.notify hpc hfree _
    · contradiction
  | waking c rest =>
    cases rest with
    | nil =>
      cases hs
      exact h.notified hpc
    | cons w rest =>
      simp only [WaitSets.next] at hs
      split at hs
      · cases hs
        exact h.move hpc rfl rfl rfl (apply_update_of_eq WaitSetImpl.mutex rfl) (fun _ ↦ rfl)
          (fun _ _ ↦ rfl) (by simp)
      · contradiction
  | attach w c =>
    simp only [WaitSets.next] at hs
    split at hs
    · cases hs
      exact h.attachCondition hpc
    · contradiction
  | attachTo w c =>
    simp only [WaitSets.next] at hs
    split at hs
    · cases hs
      exact h.move hpc rfl rfl rfl (fun _ ↦ rfl) (apply_update_of_eq ConditionNotifier.mutex rfl)
        (fun _ _ ↦ rfl) (by simp)
    · contradiction
  | attachCheck w c =>
    simp only [WaitSets.next] at hs
    split at hs
    · cases hs
      exact h.move hpc rfl rfl rfl (apply_update_of_eq WaitSetImpl.mutex rfl) (fun _ ↦ rfl)
        (fun _ _ ↦ rfl) (by simp)
    · contradiction
  | detach w c =>
    simp only [WaitSets.next] at hs
    split at hs
    · cases hs
      exact h.detachCondition hpc
    · contradiction
  | detachFrom w c =>
    simp only [WaitSets.next] at hs
    split at hs
    · cases hs
      exact h.move hpc rfl rfl rfl (fun _ ↦ rfl) (apply_update_of_eq ConditionNotifier.mutex rfl)
        (fun _ _ ↦ rfl) (by simp)
    · contradiction
  | wait w timed =>
    simp only [WaitSets.next] at hs
    split at hs
    · next hfree =>
      split at hs
      · cases hs
        exact h.move hpc rfl rfl rfl (fun _ ↦ rfl) (fun _ ↦ rfl) (fun _ _ ↦ rfl) (by simp)
      · cases hs
        exact h.fill hpc hfree rfl rfl ..
    · contradiction
  | filling w rest active timed last =>
    cases rest with
    | nil =>
      cases hs
      exact h.filled hpc
    | cons c rest =>
      cases hs
      exact h.move hpc rfl rfl rfl (fun _ ↦ rfl) (fun _ ↦ rfl) (fun _ _ ↦ rfl) (by simp)
  | blocked w timed =>
    simp only [WaitSets.next] at hs
    split at hs
    · next hfree =>
      cases hs
      exact h.fill hpc hfree.1 rfl rfl ..
    · contradiction
  | timedOut w =>
    simp only [WaitSets.next] at hs
    split at hs
    · next hfree =>
      cases hs
      exact h.fill hpc hfree rfl rfl ..
    · contradiction

/-- Every step. -/
theorem locked_step (s : WaitSets θ ω κ) (a : WaitSetAction θ ω κ) (s' : WaitSets θ ω κ)
    (h : Locked s) (hs : step s a = some s') : Locked s' := by
  cases a with
  | call t call =>
    simp only [step] at hs
    split at hs
    · next hcall =>
      cases hs
      apply h.move hcall.1 rfl
      case hset => cases call <;> rfl
      case hnotifier => cases call <;> rfl
      case hsets => exact fun _ ↦ rfl
      case hnotifiers => exact fun _ ↦ rfl
      case hconditions => exact fun _ _ ↦ rfl
      case hchange =>
        intro c change hfirst
        cases call with
        | change d other =>
          cases hfirst
          exact hcall.2
        | _ => cases hfirst
    · contradiction
  | next t =>
    obtain ⟨pc, hpc, hs⟩ := Option.bind_eq_some_iff.mp hs
    exact h.next hpc hs
  | wakeUp t =>
    simp only [step] at hs
    split at hs
    · next w timed hpc =>
      split at hs
      · cases hs
        exact h.move hpc rfl rfl rfl (apply_update_of_eq WaitSetImpl.mutex rfl) (fun _ ↦ rfl)
          (fun _ _ ↦ rfl) (by simp)
      · contradiction
    · contradiction
  | timeout t =>
    simp only [step] at hs
    split at hs
    · next w hpc =>
      cases hs
      exact h.move hpc rfl rfl rfl (apply_update_of_eq WaitSetImpl.mutex rfl) (fun _ ↦ rfl)
        (fun _ _ ↦ rfl) (by simp)
    · contradiction

end WaitSets

end HzjDds.Rmw
