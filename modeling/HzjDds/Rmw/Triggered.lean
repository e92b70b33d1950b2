import HzjDds.Rmw.Wakeup

/-!
# Waits with a condition that stays triggered

Library `Rmw`. Source: `vendor/Fast-DDS/src/cpp/fastdds/core/condition/WaitSetImpl.cpp:107–148`. A
wait asks for the trigger values, not for their changes: while an attached condition is triggered
no wait sleeps and no wait times out.
-/

namespace HzjDds.Rmw

open HzjDds.Cpp HzjDds.Transition

universe u v w

variable {θ : Type u} {ω : Type v} {κ : Type w}

namespace WaitSets

/-- A condition is attached to a wait set and triggered. -/
def Triggered (w : ω) (c : κ) (s : WaitSets θ ω κ) : Prop :=
  c ∈ (s.wait_sets w).entries ∧ (s.conditions c).getTriggerValue = true

instance (w : ω) (c : κ) [DecidableEq κ] : DecidablePred (Triggered (θ := θ) w c) :=
  fun _ ↦ inferInstanceAs (Decidable (_ ∧ _))

/-- A section of a wait that has seen the condition, or will see it. -/
def Sees (w : ω) (c : κ) : WaitSetPc ω κ → Prop
  | .filling x rest active _ _ => x = w → c ∈ rest ∨ c ∈ active
  | .blocked x _ | .timedOut x => x ≠ w
  | _ => True

/-- An answer that a wait gives while the condition is triggered. -/
def Reports (w : ω) (c : κ) (a : WaitSetAnswer θ ω κ) : Prop :=
  ∀ timed, a.call = .wait w timed →
    a.code = .OK ∧ c ∈ a.active_conditions ∨ a.code = .PRECONDITION_NOT_MET

variable [DecidableEq θ] [DecidableEq ω] [DecidableEq κ]

/-- After some answers, all waits see the condition and the answers since then report it. -/
structure Watched (w : ω) (c : κ) (answers : List (WaitSetAnswer θ ω κ)) (s : WaitSets θ ω κ) :
    Prop where
  sees : ∀ t pc, s.calls t = some pc → Sees w c pc
  reports : ∃ later, s.answers = answers ++ later ∧ ∀ a ∈ later, Reports w c a

omit [DecidableEq ω] [DecidableEq κ] in
/-- A thread goes on without an answer. -/
theorem Watched.goto {w : ω} {c : κ} {answers : List (WaitSetAnswer θ ω κ)} {s s' : WaitSets θ ω κ}
    (h : Watched w c answers s) {t : θ} {pc' : Option (WaitSetPc ω κ)}
    (hcalls : s'.calls = Function.update s.calls t pc') (hanswers : s'.answers = s.answers)
    (hpc' : ∀ pc, pc' = some pc → Sees w c pc) : Watched w c answers s' where
  sees := by
    intro u pc hu
    rw [hcalls, Function.update_apply] at hu
    split at hu
    · exact hpc' pc hu
    · exact h.sees u pc hu
  reports := by
    rw [hanswers]
    exact h.reports

omit [DecidableEq ω] [DecidableEq κ] in
/-- A call returns. -/
theorem Watched.answer {w : ω} {c : κ} {answers : List (WaitSetAnswer θ ω κ)}
    {s : WaitSets θ ω κ} (h : Watched w c answers s) (t : θ) (call : WaitSetCall ω κ)
    (code : WaitSetCode) (active : List κ) (hreport : Reports w c ⟨t, call, code, active⟩) :
    Watched w c answers (s.answer t call code active) where
  sees := by
    intro u pc hu
    simp only [answer_calls, Function.update_apply] at hu
    split at hu
    · cases hu
    · exact h.sees u pc hu
  reports := by
    obtain ⟨later, hlater, hreports⟩ := h.reports
    refine ⟨later ++ [⟨t, call, code, active⟩], ?_, fun a ha ↦ ?_⟩
    · rw [answer_answers, hlater, List.append_assoc]
    · rcases List.mem_append.mp ha with ha | ha
      · exact hreports a ha
      · rw [List.mem_singleton.mp ha]
        exact hreport

omit [DecidableEq θ] [DecidableEq ω] [DecidableEq κ] in
/-- Nothing but the calls and the answers matters. -/
theorem Watched.congr {w : ω} {c : κ} {answers : List (WaitSetAnswer θ ω κ)}
    {s : WaitSets θ ω κ} (h : Watched w c answers s) (s' : WaitSets θ ω κ) (hcalls : s'.calls = s.calls)
    (hanswers : s'.answers = s.answers) : Watched w c answers s' where
  sees := by rw [hcalls]; exact h.sees
  reports := by rw [hanswers]; exact h.reports

omit [DecidableEq κ] in
/-- A wait looks at all attached conditions. -/
theorem Watched.fill {w : ω} {c : κ} {answers : List (WaitSetAnswer θ ω κ)} {s : WaitSets θ ω κ}
    (h : Watched w c answers s) (hattached : c ∈ (s.wait_sets w).entries) (t : θ) (x : ω)
    (timed last : Bool) : Watched w c answers (s.fill t x timed last) := by
  refine h.goto (t := t) rfl rfl ?_
  rintro pc ⟨⟩
  rintro rfl
  exact .inl hattached

omit [DecidableEq κ] in
/-- A wait that has looked at all conditions has seen this one. -/
theorem Watched.filled {w : ω} {c : κ} {answers : List (WaitSetAnswer θ ω κ)} {s : WaitSets θ ω κ}
    (h : Watched w c answers s) {t : θ} {x : ω} {active : List κ} {timed last : Bool}
    (hpc : s.calls t = some (.filling x [] active timed last)) :
    Watched w c answers (s.filled t x active timed last) := by
  have hseen : x = w → c ∈ active := fun hx ↦ (h.sees t _ hpc hx).resolve_left List.not_mem_nil
  have hother : active = [] → x ≠ w := by
    rintro rfl hx
    exact List.not_mem_nil (hseen hx)
  simp only [WaitSets.filled]
  split_ifs with hactive
  · refine (h.congr (s.setWaitSet x _) rfl rfl).answer t _ _ _ ?_
    rintro timed' ⟨⟩
    exact .inl ⟨rfl, hseen rfl⟩
  · refine (h.congr (s.setWaitSet x _) rfl rfl).answer t _ _ _ ?_
    rintro timed' ⟨⟩
    exact absurd rfl (hother (by simpa using hactive))
  · refine h.goto (t := t) rfl rfl ?_
    rintro pc ⟨⟩
    exact hother (by simpa using hactive)

/-- The next section of a call. -/
theorem Watched.next {w : ω} {c : κ} {answers : List (WaitSetAnswer θ ω κ)} {s s' : WaitSets θ ω κ}
    (h : Watched w c answers s) (htriggered : Triggered w c s) {t : θ} {pc : WaitSetPc ω κ}
    (hpc : s.calls t = some pc) (hs : s.next t pc = some s') : Watched w c answers s' := by
  have hreport : ∀ call code active, (∀ timed, call ≠ .wait w timed) →
      Reports w c (⟨t, call, code, active⟩ : WaitSetAnswer θ ω κ) :=
    fun call _ _ hcall timed htimed ↦ absurd htimed (hcall timed)
  cases pc with
  | change d change =>
    obtain ⟨⟨changed, notify⟩, -, rfl⟩ := Option.map_eq_some_iff.mp hs
    refine h.goto (t := t) rfl rfl ?_
    cases notify <;> rintro pc ⟨⟩
    exact trivial
  | waking d rest =>
    cases rest with
    | nil =>
      cases hs
      exact h.goto (t := t) rfl rfl (by simp)
    | cons x rest =>
      simp only [WaitSets.next] at hs
      split_ifs at hs
      cases hs
      refine h.goto (t := t) rfl rfl ?_
      rintro pc ⟨⟩
      exact trivial
  | notify d | attachTo x d =>
    simp only [WaitSets.next] at hs
    split_ifs at hs
    cases hs
    refine h.goto (t := t) rfl rfl ?_
    rintro pc ⟨⟩
    exact trivial
  | attach x d =>
    simp only [WaitSets.next, attachCondition] at hs
    split_ifs at hs
    · cases hs
      exact (h.congr (s.setWaitSet x _) rfl rfl).answer t _ _ _ (hreport _ _ _ (by simp))
    · cases hs
      refine h.goto (t := t) rfl rfl ?_
      rintro pc ⟨⟩
      exact trivial
  | attachCheck x d =>
    simp only [WaitSets.next] at hs
    split at hs
    case isFalse => contradiction
    cases hs
    exact (h.congr (s.setWaitSet x _) rfl rfl).answer t _ _ _ (hreport _ _ _ (by simp))
  | detach x d =>
    simp only [WaitSets.next, detachCondition] at hs
    split_ifs at hs
    · cases hs
      refine h.goto (t := t) rfl rfl ?_
      rintro pc ⟨⟩
      exact trivial
    · cases hs
      exact h.answer t _ _ _ (hreport _ _ _ (by simp))
  | detachFrom x d =>
    simp only [WaitSets.next] at hs
    split_ifs at hs
    cases hs
    exact (h.congr (s.setNotifier d _) rfl rfl).answer t _ _ _ (hreport _ _ _ (by simp))
  | wait x timed =>
    simp only [WaitSets.next] at hs
    split_ifs at hs
    · cases hs
      exact h.answer t _ _ _ fun _ _ ↦ .inr rfl
    · cases hs
      exact h.fill htriggered.1 t x timed false
  | filling x rest active timed last =>
    cases rest with
    | nil =>
      cases hs
      exact h.filled hpc
    | cons d rest =>
      cases hs
      refine h.goto (t := t) rfl rfl ?_
      rintro pc ⟨⟩
      intro hx
      have hseen := h.sees t _ hpc hx
      by_cases hdc : d = c
      · rw [hdc, htriggered.2]
        exact .inr (by simp)
      · rcases hseen with hrest | hactive
        · exact .inl ((List.mem_cons.mp hrest).resolve_left (Ne.symm hdc))
        · right
          split
          · exact List.mem_append_left _ hactive
          · exact hactive
  | blocked x timed =>
    simp only [WaitSets.next] at hs
    split_ifs at hs
    cases hs
    exact h.fill htriggered.1 t x timed false
  | timedOut x =>
    simp only [WaitSets.next] at hs
    split_ifs at hs
    cases hs
    exact h.fill htriggered.1 t x true true

/-- Every step from a state in which the condition is triggered. -/
theorem watched_step {w : ω} {c : κ} {answers : List (WaitSetAnswer θ ω κ)} (s : WaitSets θ ω κ)
    (a : WaitSetAction θ ω κ) (s' : WaitSets θ ω κ) (h : Watched w c answers s)
    (htriggered : Triggered w c s) (hs : step s a = some s') : Watched w c answers s' := by
  cases a with
  | call t call =>
    simp only [step] at hs
    split_ifs at hs
    cases hs
    refine h.goto (t := t) rfl rfl ?_
    rintro pc ⟨⟩
    cases call <;> exact trivial
  | next t =>
    obtain ⟨pc, hpc, hs⟩ := Option.bind_eq_some_iff.mp hs
    exact h.next htriggered hpc hs
  | wakeUp t =>
    simp only [step] at hs
    split at hs
    · next x timed hpc =>
      split_ifs at hs
      cases hs
      refine h.goto (t := t) rfl rfl ?_
      rintro pc ⟨⟩
      exact h.sees t _ hpc
    · contradiction
  | timeout t =>
    simp only [step] at hs
    split at hs
    · next x hpc =>
      cases hs
      refine h.goto (t := t) rfl rfl ?_
      rintro pc ⟨⟩
      exact h.sees t (.blocked x true) hpc
    · contradiction

/-- From any state in which nobody waits on a wait set, and for as long as one condition stays
attached to it and triggered, whatever the threads do: nobody sleeps in a wait on it, and the waits
that return report this condition or that another wait was going on. -/
theorem wait_reports {s s' : WaitSets θ ω κ} {as : List (WaitSetAction θ ω κ)} {w : ω} {c : κ}
    (hs : run step s as = some s') (hstays : AllStates step (Triggered w c) s as)
    (hnobody : ∀ t, (s.calls t).bind WaitSetPc.waits ≠ some w) :
    (∀ t timed, s'.calls t ≠ some (.blocked w timed)) ∧
      ∃ later, s'.answers = s.answers ++ later ∧ ∀ a ∈ later, ∀ timed, a.call = .wait w timed →
        a.code = .OK ∧ c ∈ a.active_conditions ∨ a.code = .PRECONDITION_NOT_MET := by
  have hsees : ∀ t pc, s.calls t = some pc → Sees w c pc := by
    intro t pc hpc
    have hwaits := hnobody t
    rw [hpc] at hwaits
    cases pc with
    | filling x rest active timed last => exact fun hx ↦ absurd (congrArg some hx) hwaits
    | blocked x timed | timedOut x => exact fun hx ↦ absurd (congrArg some hx) hwaits
    | _ => exact trivial
  have h : Watched w c s.answers s' :=
    invariant_of_steps ⟨hsees, [], by simp⟩ watched_step as hstays.allSteps hs
  exact ⟨fun t timed ht ↦ h.sees t _ ht rfl, h.reports⟩

/-- A guard condition that is attached and triggered. -/
def triggeredInit : WaitSets Bool Unit Unit where
  wait_sets := fun _ ↦ { entries := [()] }
  conditions := fun _ ↦ .guard true
  notifiers := fun _ ↦ { entries := [()] }

/-- A wait from its call to its return. -/
def waitRun : List (WaitSetAction Bool Unit Unit) :=
  [.call true (.wait () true), .next true, .next true, .next true]

private theorem allStates_waitRun : AllStates step (Triggered () ()) triggeredInit waitRun := by decide

/-- `wait_reports` for one wait. -/
theorem wait_reports_waitRun : ∃ s', run step triggeredInit waitRun = some s' ∧
    (∀ t timed, s'.calls t ≠ some (.blocked () timed)) ∧
      ∃ later, s'.answers = triggeredInit.answers ++ later ∧ ∀ a ∈ later, ∀ timed,
        a.call = .wait () timed →
          a.code = .OK ∧ () ∈ a.active_conditions ∨ a.code = .PRECONDITION_NOT_MET :=
  ⟨_, rfl, wait_reports rfl allStates_waitRun (by decide)⟩

end WaitSets

end HzjDds.Rmw
