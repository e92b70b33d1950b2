import HzjDds.Rmw.Wakeup
import Mathlib.Data.Finset.Card
import Mathlib.Data.Finset.Filter

/-!
# The calls of wait sets come to an end

Library `Rmw`. Source: `vendor/Fast-DDS/src/cpp/fastdds/core/condition`. A notifier's mutex is taken
before that of a wait set and never after it, so no calls block one another for good. Left alone,
all calls can be brought to an end but the waits that have nothing to wake up for.
-/

namespace HzjDds.Rmw

open HzjDds.Cpp HzjDds.Transition

universe u v w

variable {θ : Type u} {ω : Type v} {κ : Type w}

namespace WaitSets

variable [DecidableEq θ] [DecidableEq ω] [DecidableEq κ]

omit [DecidableEq θ] [DecidableEq ω] [DecidableEq κ] in
/-- A thread sleeps in a wait. -/
def Asleep (s : WaitSets θ ω κ) (t : θ) : Prop :=
  ∃ w timed, s.calls t = some (.blocked w timed) ∧ (s.wait_sets w).asleep = some t

/-- Threads go on with their calls until another state is reached. -/
def Settles (s s' : WaitSets θ ω κ) : Prop :=
  ∃ ts : List θ, run step s (ts.map .next) = some s'

/-- Nobody has to go on. -/
theorem Settles.refl (s : WaitSets θ ω κ) : Settles s s := ⟨[], rfl⟩

/-- Going on twice. -/
theorem Settles.trans {s s' s'' : WaitSets θ ω κ} (h : Settles s s') (h' : Settles s' s'') :
    Settles s s'' := by
  obtain ⟨ts, hts⟩ := h
  obtain ⟨us, hus⟩ := h'
  exact ⟨ts ++ us, by rw [List.map_append, run_append, hts]; exact hus⟩

/-- A thread goes on with one section. -/
theorem Settles.next {s s' : WaitSets θ ω κ} {t : θ} {pc : WaitSetPc ω κ}
    (hpc : s.calls t = some pc) (hs : s.next t pc = some s') : Settles s s' :=
  ⟨[t], by simp [run_cons, step, hpc, hs]⟩

private theorem Settles.orderly {s s' : WaitSets θ ω κ} (hs : Settles s s') (h : Orderly s) :
    Orderly s' := by
  obtain ⟨ts, hts⟩ := hs
  have hnext : AllSteps step (fun _ a ↦ ∃ t, a = .next t) s (ts.map .next) :=
    allSteps_of_forall fun a ha ↦ by
      obtain ⟨t, -, rfl⟩ := List.mem_map.mp ha
      exact ⟨t, rfl⟩
  refine invariant_of_steps h (fun s a s' h hok hs ↦ orderly_step s a s' h ?_ hs) _ hnext hts
  obtain ⟨t, rfl⟩ := hok
  trivial

/-! ## One thread goes on to its end -/

/-- A thread has come to the end of its call, the others are where they were. -/
structure Ended (s s' : WaitSets θ ω κ) (t : θ) : Prop where
  settles : Settles s s'
  ended : s'.calls t = none
  others : ∀ u, u ≠ t → s'.calls u = s.calls u

/-- A thread has come to the end of its wait or sleeps in it, the others are where they were, those
that slept asleep. -/
structure Waited (s s' : WaitSets θ ω κ) (t : θ) : Prop where
  settles : Settles s s'
  ended : s'.calls t = none ∨ s'.Asleep t
  others : ∀ u, u ≠ t → s'.calls u = s.calls u
  asleep : ∀ u, u ≠ t → s.Asleep u → s'.Asleep u

/-- A section before the end of a call. -/
theorem Ended.cons {s s' s'' : WaitSets θ ω κ} {t : θ} {pc : WaitSetPc ω κ}
    (h : Ended s' s'' t) (hpc : s.calls t = some pc) (hs : s.next t pc = some s')
    (hothers : ∀ u, u ≠ t → s'.calls u = s.calls u) : Ended s s'' t where
  settles := (Settles.next hpc hs).trans h.settles
  ended := h.ended
  others := fun u hu ↦ (h.others u hu).trans (hothers u hu)

/-- The last section of a call. -/
theorem Ended.single {s s' : WaitSets θ ω κ} {t : θ} {pc : WaitSetPc ω κ}
    (hpc : s.calls t = some pc) (hs : s.next t pc = some s')
    (hcalls : s'.calls = Function.update s.calls t none) : Ended s s' t where
  settles := Settles.next hpc hs
  ended := by rw [hcalls, Function.update_self]
  others := fun u hu ↦ by rw [hcalls, Function.update_of_ne hu]

private theorem exists_ended_of_waking {s : WaitSets θ ω κ} {t : θ} {c : κ} {rest : List ω}
    (hfree : ∀ w, (s.wait_sets w).mutex = none) (hpc : s.calls t = some (.waking c rest)) :
    ∃ s', Ended s s' t := by
  induction rest generalizing s with
  | nil => exact ⟨_, .single hpc rfl rfl⟩
  | cons w rest ih =>
    have hs : s.next t (.waking c (w :: rest)) = some ((s.setWaitSet w
        { s.wait_sets w with asleep := none }).goto t (some (.waking c rest))) :=
      if_pos (hfree w)
    obtain ⟨s', h⟩ := ih (s := (s.setWaitSet w { s.wait_sets w with asleep := none }).goto t
      (some (.waking c rest))) (fun x ↦ by
        simp only [goto_wait_sets, setWaitSet_wait_sets, Function.update_apply]
        split <;> simp [hfree]) (by simp)
    exact ⟨s', h.cons hpc hs fun u hu ↦ by simp [hu]⟩

private theorem exists_ended_of_notify {s : WaitSets θ ω κ} {t : θ} {c : κ}
    (hsets : ∀ w, (s.wait_sets w).mutex = none) (hnotifier : (s.notifiers c).mutex = none)
    (hpc : s.calls t = some (.notify c)) : ∃ s', Ended s s' t := by
  have hs : s.next t (.notify c) = some ((s.setNotifier c
      { s.notifiers c with mutex := some t }).goto t
        (some (.waking c (s.notifiers c).entries))) := if_pos hnotifier
  obtain ⟨s', h⟩ := exists_ended_of_waking (s := (s.setNotifier c
    { s.notifiers c with mutex := some t }).goto t (some (.waking c (s.notifiers c).entries)))
    hsets (calls_goto_self ..)
  exact ⟨s', h.cons hpc hs fun u hu ↦ by simp [hu]⟩

private theorem exists_ended_of_attachTo {s : WaitSets θ ω κ} {t : θ} {w : ω} {c : κ}
    (hset : (s.wait_sets w).mutex = none) (hnotifier : (s.notifiers c).mutex = none)
    (hpc : s.calls t = some (.attachTo w c)) : ∃ s', Ended s s' t := by
  have hs : s.next t (.attachTo w c) = some ((s.setNotifier c { s.notifiers c with
      entries := renew (s.notifiers c).entries w }).goto t (some (.attachCheck w c))) :=
    if_pos hnotifier
  have hcheck : ((s.setNotifier c { s.notifiers c with
      entries := renew (s.notifiers c).entries w }).goto t (some (.attachCheck w c))).calls t =
      some (.attachCheck w c) := by simp
  exact ⟨_, (Ended.single hcheck (if_pos hset) rfl).cons hpc hs fun u hu ↦ by simp [hu]⟩

/-- With all mutexes free a call that is no wait comes to its end. -/
theorem exists_ended {s : WaitSets θ ω κ} (h : Locked s) {t : θ} {pc : WaitSetPc ω κ}
    (hsets : ∀ w, (s.wait_sets w).mutex = none) (hnotifiers : ∀ c, (s.notifiers c).mutex = none)
    (hpc : s.calls t = some pc) (hwaits : pc.waits = none)
    (hwait : ∀ w timed, pc ≠ .wait w timed) : ∃ s', Ended s s' t := by
  cases pc with
  | change c change =>
    obtain ⟨⟨changed, notify⟩, hchange⟩ := Option.isSome_iff_exists.mp (h.fits t c change hpc)
    have hs : s.next t (.change c change) = some ((s.setCondition c changed).goto t
        (if notify then some (.notify c) else none)) := by
      rw [WaitSets.next, hchange]
      rfl
    cases notify with
    | false => exact ⟨_, .single hpc hs rfl⟩
    | true =>
      obtain ⟨s', hs'⟩ := exists_ended_of_notify (s := (s.setCondition c changed).goto t
        (some (.notify c))) hsets (hnotifiers c) (calls_goto_self ..)
      exact ⟨s', hs'.cons hpc hs fun u hu ↦ by simp [hu]⟩
  | notify c => exact exists_ended_of_notify hsets (hnotifiers c) hpc
  | waking c rest => exact exists_ended_of_waking hsets hpc
  | attach w c =>
    have hs : s.next t (.attach w c) = some (s.attachCondition t w c) := if_pos (hsets w)
    by_cases hmem : c ∈ (s.wait_sets w).entries
    · rw [attachCondition, if_pos hmem] at hs
      exact ⟨_, .single hpc hs rfl⟩
    · rw [attachCondition, if_neg hmem] at hs
      obtain ⟨s', hs'⟩ := exists_ended_of_attachTo (s := (s.setWaitSet w { s.wait_sets w with
        entries := renew (s.wait_sets w).entries c }).goto t (some (.attachTo w c))) (w := w)
        (c := c) (by simp [hsets]) (hnotifiers c) (calls_goto_self ..)
      exact ⟨s', hs'.cons hpc hs fun u hu ↦ by simp [hu]⟩
  | attachTo w c => exact exists_ended_of_attachTo (hsets w) (hnotifiers c) hpc
  | attachCheck w c => exact ⟨_, .single hpc (if_pos (hsets w)) rfl⟩
  | detach w c =>
    have hs : s.next t (.detach w c) = some (s.detachCondition t w c) := if_pos (hsets w)
    by_cases hmem : c ∈ (s.wait_sets w).entries
    · rw [detachCondition, if_pos hmem] at hs
      have hfrom : ((s.setWaitSet w { s.wait_sets w with
          entries := remove (s.wait_sets w).entries c }).goto t (some (.detachFrom w c))).calls t =
          some (.detachFrom w c) := by simp
      exact ⟨_, (Ended.single hfrom (if_pos (hnotifiers c)) rfl).cons hpc hs
        fun u hu ↦ by simp [hu]⟩
    · rw [detachCondition, if_neg hmem] at hs
      exact ⟨_, .single hpc hs rfl⟩
  | detachFrom w c => exact ⟨_, .single hpc (if_pos (hnotifiers c)) rfl⟩
  | wait w timed => exact absurd rfl (hwait w timed)
  | filling w rest active timed last | blocked w timed | timedOut w => cases hwaits

/-! ## One thread waits -/

/-- A section before the end of a wait. -/
theorem Waited.cons {s s' s'' : WaitSets θ ω κ} {t : θ} {pc : WaitSetPc ω κ}
    (h : Waited s' s'' t) (hpc : s.calls t = some pc) (hs : s.next t pc = some s')
    (hothers : ∀ u, u ≠ t → s'.calls u = s.calls u)
    (hasleep : ∀ u, u ≠ t → s.Asleep u → s'.Asleep u) : Waited s s'' t where
  settles := (Settles.next hpc hs).trans h.settles
  ended := h.ended
  others := fun u hu ↦ (h.others u hu).trans (hothers u hu)
  asleep := fun u hu hs ↦ h.asleep u hu (hasleep u hu hs)

/-- The last section of a wait. -/
theorem Waited.single {s s' : WaitSets θ ω κ} {t : θ} {pc : WaitSetPc ω κ}
    (hpc : s.calls t = some pc) (hs : s.next t pc = some s')
    (hended : s'.calls t = none ∨ s'.Asleep t)
    (hothers : ∀ u, u ≠ t → s'.calls u = s.calls u)
    (hasleep : ∀ w u, u ≠ t → (s.wait_sets w).asleep = some u →
      s.calls u ≠ none → (s'.wait_sets w).asleep = some u) : Waited s s' t where
  settles := Settles.next hpc hs
  ended := hended
  others := hothers
  asleep := by
    rintro u hu ⟨w, timed, hblocked, hsleep⟩
    exact ⟨w, timed, (hothers u hu).trans hblocked, hasleep w u hu hsleep (by simp [hblocked])⟩

/-- A thread that looks at the conditions returns or goes to sleep. -/
theorem exists_waited_of_filling {s : WaitSets θ ω κ} (h : Attended s) {t : θ} {w : ω}
    {rest active : List κ} {timed last : Bool}
    (hpc : s.calls t = some (.filling w rest active timed last)) : ∃ s', Waited s s' t := by
  induction rest generalizing s active with
  | nil =>
    have hone : ∀ u, u ≠ t → (s.wait_sets w).asleep ≠ some u := by
      intro u hu hs
      obtain ⟨timed, hblocked⟩ := h.asleep w u hs
      exact hu (h.one w u t (by rw [hblocked]; rfl) (by rw [hpc]; rfl))
    refine ⟨_, .single hpc rfl ?_ ?_ ?_⟩
    · simp only [filled]
      split_ifs
      · simp
      · simp
      · exact .inr ⟨w, timed, by simp, by simp⟩
    · intro u hu
      simp only [filled]
      split_ifs <;> simp [hu]
    · intro x u hu hs _
      have hx : x ≠ w := by
        rintro rfl
        exact hone u hu hs
      simp only [filled]
      split_ifs <;> simp [hx, hs]
  | cons c rest ih =>
    have hs : s.next t (.filling w (c :: rest) active timed last) = some (s.goto t (some
        (.filling w rest (if (s.conditions c).getTriggerValue then active ++ [c] else active)
          timed last))) := rfl
    obtain ⟨s', hs'⟩ := ih (h.next hpc hs) (calls_goto_self ..)
    refine ⟨s', hs'.cons hpc hs (fun u hu ↦ by simp [hu]) ?_⟩
    rintro u hu ⟨x, timed', hblocked, hsleep⟩
    exact ⟨x, timed', by simpa [hu] using hblocked, hsleep⟩

private theorem exists_waited_of_fill {s : WaitSets θ ω κ} (h : Attended s) {t : θ} {pc : WaitSetPc ω κ}
    {w : ω} {timed last : Bool} (hpc : s.calls t = some pc)
    (hs : s.next t pc = some (s.fill t w timed last)) : ∃ s', Waited s s' t := by
  obtain ⟨s', hs'⟩ := exists_waited_of_filling (h.next hpc hs) (calls_goto_self ..)
  refine ⟨s', hs'.cons hpc hs (fun u hu ↦ by simp [fill, hu]) ?_⟩
  rintro u hu ⟨x, timed', hblocked, hsleep⟩
  refine ⟨x, timed', by simpa [fill, hu] using hblocked, ?_⟩
  simp only [fill, goto_wait_sets, setWaitSet_wait_sets, Function.update_apply]
  split
  · next hx => rwa [← hx]
  · exact hsleep

private theorem exists_waited {s : WaitSets θ ω κ} (h : Attended s) {t : θ} {pc : WaitSetPc ω κ}
    (hsets : ∀ w, (s.wait_sets w).mutex = none) (hpc : s.calls t = some pc)
    (hwaits : pc.waits ≠ none ∨ ∃ w timed, pc = .wait w timed) (hawake : ¬ s.Asleep t) :
    ∃ s', Waited s s' t := by
  cases pc with
  | wait w timed =>
    by_cases hwaiting : (s.wait_sets w).is_waiting = true
    · have hs : s.next t (.wait w timed) =
          some (s.answer t (.wait w timed) .PRECONDITION_NOT_MET []) := by
        simp only [WaitSets.next, if_pos hwaiting]
        exact if_pos (hsets w)
      exact ⟨_, .single hpc hs (.inl (by simp)) (fun u hu ↦ by simp [hu]) fun _ _ _ hs _ ↦ hs⟩
    · have hs : s.next t (.wait w timed) = some (s.fill t w timed false) := by
        simp only [WaitSets.next, if_neg hwaiting]
        exact if_pos (hsets w)
      exact exists_waited_of_fill h hpc hs
  | filling w rest active timed last => exact exists_waited_of_filling h hpc
  | blocked w timed =>
    have hsleep : (s.wait_sets w).asleep ≠ some t := fun hs ↦ hawake ⟨w, timed, hpc, hs⟩
    exact exists_waited_of_fill h hpc (if_pos ⟨hsets w, hsleep⟩)
  | timedOut w => exact exists_waited_of_fill h hpc (if_pos (hsets w))
  | _ => simp [WaitSetPc.waits] at hwaits

/-! ## All threads go on -/

omit [DecidableEq θ] [DecidableEq ω] [DecidableEq κ] in
/-- Threads that have to go on with a call that is no wait. -/
def Busy (s : WaitSets θ ω κ) (t : θ) : Prop :=
  ∃ pc, s.calls t = some pc ∧ pc.waits = none ∧ ∀ w timed, pc ≠ .wait w timed

omit [DecidableEq θ] [DecidableEq ω] [DecidableEq κ] in
/-- Threads that have to go on. -/
def Awake (s : WaitSets θ ω κ) (t : θ) : Prop := s.calls t ≠ none ∧ ¬ s.Asleep t

/-- Unless nobody has to go on, somebody comes to the end of a call, or of a wait. -/
theorem Orderly.exists_progress {s : WaitSets θ ω κ} (h : Orderly s) (hawake : ∃ t, s.Awake t) :
    (∃ t s', s.Busy t ∧ Ended s s' t) ∨ ∃ t s', s.Awake t ∧ ¬ s.Busy t ∧ Waited s s' t := by
  by_cases hfilling : ∃ t w rest active timed last,
      s.calls t = some (.filling w rest active timed last)
  · -- a thread that holds the mutex of a wait set waits for nothing
    obtain ⟨t, w, rest, active, timed, last, hpc⟩ := hfilling
    obtain ⟨s', hs'⟩ := exists_waited_of_filling h.attended hpc
    refine .inr ⟨t, s', ⟨by simp [hpc], ?_⟩, ?_, hs'⟩
    · rintro ⟨x, timed', hblocked, -⟩
      rw [hpc] at hblocked
      cases hblocked
    · rintro ⟨pc, hpc', hwaits, -⟩
      rw [hpc] at hpc'
      cases hpc'
      cases hwaits
  have hsets : ∀ w, (s.wait_sets w).mutex = none := by
    intro w
    by_contra hheld
    obtain ⟨t, ht⟩ := Option.ne_none_iff_exists'.mp hheld
    obtain ⟨pc, hpc, hholds⟩ := Option.bind_eq_some_iff.mp ((h.locked.set_mutex w t).mp ht)
    cases pc with
    | filling x rest active timed last => exact hfilling ⟨t, x, rest, active, timed, last, hpc⟩
    | _ => cases hholds
  by_cases hwaking : ∃ t c rest, s.calls t = some (.waking c rest)
  · -- a thread that holds the mutex of a notifier waits for wait sets only
    obtain ⟨t, c, rest, hpc⟩ := hwaking
    obtain ⟨s', hs'⟩ := exists_ended_of_waking hsets hpc
    exact .inl ⟨t, s', ⟨_, hpc, rfl, by simp⟩, hs'⟩
  have hnotifiers : ∀ c, (s.notifiers c).mutex = none := by
    intro c
    by_contra hheld
    obtain ⟨t, ht⟩ := Option.ne_none_iff_exists'.mp hheld
    obtain ⟨pc, hpc, hholds⟩ := Option.bind_eq_some_iff.mp ((h.locked.notifier_mutex c t).mp ht)
    cases pc with
    | waking d rest => exact hwaking ⟨t, d, rest, hpc⟩
    | _ => cases hholds
  by_cases hbusy : ∃ t, s.Busy t
  · obtain ⟨t, pc, hpc, hwaits, hwait⟩ := hbusy
    obtain ⟨s', hs'⟩ := exists_ended h.locked hsets hnotifiers hpc hwaits hwait
    exact .inl ⟨t, s', ⟨pc, hpc, hwaits, hwait⟩, hs'⟩
  · obtain ⟨t, hcall, hsleep⟩ := hawake
    obtain ⟨pc, hpc⟩ := Option.ne_none_iff_exists'.mp hcall
    have hwaits : pc.waits ≠ none ∨ ∃ w timed, pc = .wait w timed := by
      by_contra hno
      push Not at hno
      exact hbusy ⟨t, pc, hpc, hno⟩
    obtain ⟨s', hs'⟩ := exists_waited h.attended hsets hpc hwaits hsleep
    exact .inr ⟨t, s', ⟨hcall, hsleep⟩, fun hb ↦ hbusy ⟨t, hb⟩, hs'⟩

open Classical in
/-- Threads in `A` that have to go on, those in other calls than waits first. -/
noncomputable def toGo (A : Finset θ) (s : WaitSets θ ω κ) : ℕ :=
  (A.filter s.Busy).card * (A.card + 1) + (A.filter s.Awake).card

/-- A call that ends leaves less to go. -/
theorem Ended.toGo_lt {s s' : WaitSets θ ω κ} {t : θ} (h : Ended s s' t) (ht : s.Busy t)
    {A : Finset θ} (hA : t ∈ A) : s'.toGo A < s.toGo A := by
  classical
  have hbusy : A.filter s'.Busy ⊂ A.filter s.Busy := by
    refine Finset.ssubset_iff_of_subset (fun u hu ↦ ?_) |>.mpr ⟨t, by simp [hA, ht], ?_⟩
    · obtain ⟨huA, pc, hpc, hrest⟩ := Finset.mem_filter.mp hu
      have hut : u ≠ t := by
        rintro rfl
        rw [h.ended] at hpc
        cases hpc
      exact Finset.mem_filter.mpr ⟨huA, pc, by rw [← h.others u hut, hpc], hrest⟩
    · rintro hu
      obtain ⟨-, pc, hpc, -⟩ := Finset.mem_filter.mp hu
      rw [h.ended] at hpc
      cases hpc
  have hless := Nat.mul_le_mul_right (A.card + 1) (Finset.card_lt_card hbusy)
  have hmost := Finset.card_filter_le A s'.Awake
  rw [Nat.succ_mul] at hless
  simp only [toGo]
  omega

/-- A wait that ends or sleeps leaves less to go. -/
theorem Waited.toGo_lt {s s' : WaitSets θ ω κ} {t : θ} (h : Waited s s' t) (ht : s.Awake t)
    {A : Finset θ} (hA : t ∈ A) : s'.toGo A < s.toGo A := by
  classical
  have hbusy : A.filter s'.Busy ⊆ A.filter s.Busy := by
    intro u hu
    obtain ⟨huA, pc, hpc, hwaits, hwait⟩ := Finset.mem_filter.mp hu
    have hut : u ≠ t := by
      rintro rfl
      rcases h.ended with hnone | ⟨w, timed, hblocked, -⟩
      · rw [hnone] at hpc
        cases hpc
      · rw [hblocked] at hpc
        cases hpc
        cases hwaits
    exact Finset.mem_filter.mpr ⟨huA, pc, by rw [← h.others u hut, hpc], hwaits, hwait⟩
  have hawake : A.filter s'.Awake ⊂ A.filter s.Awake := by
    refine Finset.ssubset_iff_of_subset (fun u hu ↦ ?_) |>.mpr ⟨t, by simp [hA, ht], ?_⟩
    · obtain ⟨huA, hcall, hsleep⟩ := Finset.mem_filter.mp hu
      have hut : u ≠ t := by
        rintro rfl
        rcases h.ended with hnone | hasleep
        · exact hcall hnone
        · exact hsleep hasleep
      exact Finset.mem_filter.mpr ⟨huA, by rwa [← h.others u hut],
        fun hs ↦ hsleep (h.asleep u hut hs)⟩
    · intro hu
      obtain ⟨-, hcall, hsleep⟩ := Finset.mem_filter.mp hu
      exact h.ended.elim hcall hsleep
  have hmore := Nat.mul_le_mul_right (A.card + 1) (Finset.card_le_card hbusy)
  have hless := Finset.card_lt_card hawake
  simp only [toGo]
  omega

/-- Everybody comes to an end or sleeps. -/
theorem Orderly.exists_settled {A : Finset θ} {s : WaitSets θ ω κ} (h : Orderly s)
    (hA : ∀ t, s.calls t ≠ none → t ∈ A) : ∃ s', Settles s s' ∧ ∀ t, ¬ s'.Awake t := by
  induction hn : s.toGo A using Nat.strong_induction_on generalizing s with
  | h n ih =>
    by_cases hawake : ∃ t, s.Awake t
    · rcases h.exists_progress hawake with ⟨t, s', ht, hs'⟩ | ⟨t, s', ht, -, hs'⟩
      · obtain ⟨pc, hpc, -⟩ := id ht
        have htA : t ∈ A := hA t (by simp [hpc])
        have hA' : ∀ u, s'.calls u ≠ none → u ∈ A := by
          intro u hu
          by_cases hut : u = t
          · rwa [hut]
          · exact hA u (by rwa [← hs'.others u hut])
        obtain ⟨s'', hs'', hover⟩ := ih _ (hn ▸ hs'.toGo_lt ht htA)
          (hs'.settles.orderly h) hA' rfl
        exact ⟨s'', hs'.settles.trans hs'', hover⟩
      · have htA : t ∈ A := hA t ht.1
        have hA' : ∀ u, s'.calls u ≠ none → u ∈ A := by
          intro u hu
          by_cases hut : u = t
          · rwa [hut]
          · exact hA u (by rwa [← hs'.others u hut])
        obtain ⟨s'', hs'', hover⟩ := ih _ (hn ▸ hs'.toGo_lt ht htA)
          (hs'.settles.orderly h) hA' rfl
        exact ⟨s'', hs'.settles.trans hs'', hover⟩
    · exact ⟨s, .refl s, fun t ht ↦ hawake ⟨t, ht⟩⟩

/-! ## From every reachable state -/

/-- A section changes the call of its own thread only. -/
theorem calls_next {s s' : WaitSets θ ω κ} {t : θ} {pc : WaitSetPc ω κ}
    (hs : s.next t pc = some s') {u : θ} (hu : u ≠ t) : s'.calls u = s.calls u := by
  cases pc with
  | change c change =>
    obtain ⟨-, -, rfl⟩ := Option.map_eq_some_iff.mp hs
    simp [hu]
  | waking c rest =>
    cases rest with
    | nil =>
      cases hs
      simp [hu]
    | cons w rest =>
      simp only [WaitSets.next] at hs
      split_ifs at hs
      cases hs
      simp [hu]
  | filling w rest active timed last =>
    cases rest with
    | nil =>
      simp only [WaitSets.next, filled] at hs
      split_ifs at hs <;> cases hs <;> simp [hu]
    | cons c rest =>
      cases hs
      simp [hu]
  | _ =>
    simp only [WaitSets.next, attachCondition, detachCondition, fill] at hs
    split_ifs at hs <;> cases hs <;> simp [hu]

/-- A step changes the call of one thread only. -/
theorem calls_step {s s' : WaitSets θ ω κ} {a : WaitSetAction θ ω κ} (hs : step s a = some s') :
    ∃ t, ∀ u, u ≠ t → s'.calls u = s.calls u := by
  cases a with
  | call t call =>
    simp only [step] at hs
    split_ifs at hs
    cases hs
    exact ⟨t, fun u hu ↦ by simp [hu]⟩
  | next t =>
    obtain ⟨pc, -, hs⟩ := Option.bind_eq_some_iff.mp hs
    exact ⟨t, fun u hu ↦ calls_next hs hu⟩
  | wakeUp t =>
    simp only [step] at hs
    split at hs
    · split_ifs at hs
      cases hs
      exact ⟨t, fun u hu ↦ by simp [hu]⟩
    · contradiction
  | timeout t =>
    simp only [step] at hs
    split at hs
    · cases hs
      exact ⟨t, fun u hu ↦ by simp [hu]⟩
    · contradiction

/-- Finitely many threads are in a call. -/
theorem exists_callers {conditions : κ → Condition} {s : WaitSets θ ω κ}
    (h : Reachable step { conditions } s) : ∃ A : Finset θ, ∀ t, s.calls t ≠ none → t ∈ A := by
  refine h.invariant (I := fun s ↦ ∃ A : Finset θ, ∀ t, s.calls t ≠ none → t ∈ A)
    ⟨∅, by simp⟩ ?_
  rintro s a s' ⟨A, hA⟩ hs
  obtain ⟨t, ht⟩ := calls_step hs
  refine ⟨insert t A, fun u hu ↦ ?_⟩
  by_cases hut : u = t
  · exact Finset.mem_insert.mpr (.inl hut)
  · exact Finset.mem_insert_of_mem (hA u (by rwa [← ht u hut]))

omit [DecidableEq θ] [DecidableEq ω] [DecidableEq κ] in
/-- Somebody who is on the way to wake a wait set has to go on. -/
theorem Owes.awake {s : WaitSets θ ω κ} {w : ω} {c : κ} {t : θ} {pc : WaitSetPc ω κ}
    (hpc : s.calls t = some pc) (h : s.Owes w c pc) : s.Awake t := by
  refine ⟨by simp [hpc], ?_⟩
  rintro ⟨x, timed, hblocked, -⟩
  rw [hpc] at hblocked
  cases hblocked
  exact h

/-- From every state that can be reached, whatever calls are in progress and whoever holds a mutex,
the threads can go on until each call has returned, but the waits that sleep with no attached
condition triggered. -/
theorem calls_settle {conditions : κ → Condition} {as : List (WaitSetAction θ ω κ)}
    {s : WaitSets θ ω κ} (hok : AllSteps step EditsAlone { conditions } as)
    (hs : run step { conditions } as = some s) :
    ∃ (ts : List θ) (s' : WaitSets θ ω κ), run step s (ts.map .next) = some s' ∧
      ∀ t, s'.calls t = none ∨ ∃ w timed, s'.calls t = some (.blocked w timed) ∧
        (s'.wait_sets w).asleep = some t ∧
        ∀ c ∈ (s'.wait_sets w).entries, (s'.conditions c).getTriggerValue = false := by
  have h := orderly_run hok hs
  obtain ⟨A, hA⟩ := exists_callers ⟨as, hs⟩
  obtain ⟨s', hsettles, hover⟩ := h.exists_settled hA
  have h' := hsettles.orderly h
  obtain ⟨ts, hts⟩ := hsettles
  refine ⟨ts, s', hts, fun t ↦ ?_⟩
  by_cases hcall : s'.calls t = none
  · exact .inl hcall
  have hsleep : s'.Asleep t := by
    by_contra hawake
    exact hover t ⟨hcall, hawake⟩
  obtain ⟨w, timed, hblocked, hasleep⟩ := hsleep
  refine .inr ⟨w, timed, hblocked, hasleep, fun c hc ↦ ?_⟩
  -- whoever announces a triggered condition is not at rest
  by_contra htrigger
  obtain ⟨u, pc, hu, howes⟩ := h'.heard w c ⟨hc, .inl (by simp [hasleep])⟩ (by simpa using htrigger)
  exact hover u (Owes.awake hu howes)

/-- `calls_settle` where the sleeping thread is about to be woken. -/
theorem calls_settle_sleeperRun : ∃ s, run step sleeperInit sleeperRun = some s ∧
    ∃ (ts : List Bool) (s' : WaitSets Bool Unit Unit), run step s (ts.map .next) = some s' ∧
      ∀ t, s'.calls t = none ∨ ∃ w timed, s'.calls t = some (.blocked w timed) ∧
        (s'.wait_sets w).asleep = some t ∧
        ∀ c ∈ (s'.wait_sets w).entries, (s'.conditions c).getTriggerValue = false :=
  ⟨_, rfl, calls_settle editsAlone_sleeperRun rfl⟩

end WaitSets

end HzjDds.Rmw
