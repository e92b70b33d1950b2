import HzjDds.Rmw.Attachment
import Mathlib.Data.Fintype.Defs

/-!
# No wake-up of a wait set is lost

Library `Rmw`. Source: `vendor/Fast-DDS/src/cpp/fastdds/core/condition`. A condition that becomes
triggered while a thread sleeps, or after it has looked at the condition, is announced by somebody
who has not come to the wait set yet. Attaching and detaching one condition at once would break this.
-/

namespace HzjDds.Rmw

open HzjDds.Cpp HzjDds.Transition

universe u v w

variable {θ : Type u} {ω : Type v} {κ : Type w}

namespace WaitSets

variable [DecidableEq θ] [DecidableEq ω] [DecidableEq κ]

omit [DecidableEq θ] [DecidableEq ω] [DecidableEq κ] in
/-- A section on the way to wake a wait set on behalf of a condition. -/
def Owes (s : WaitSets θ ω κ) (w : ω) (c : κ) : WaitSetPc ω κ → Prop
  | .notify d => d = c ∧ w ∈ (s.notifiers c).entries
  | .waking d rest => d = c ∧ w ∈ rest
  | .attachTo x d | .attachCheck x d => x = w ∧ d = c
  | _ => False

omit [DecidableEq θ] [DecidableEq ω] [DecidableEq κ] in
/-- A thread is on its way to wake a wait set on behalf of a condition. -/
def Owed (s : WaitSets θ ω κ) (w : ω) (c : κ) : Prop :=
  ∃ t pc, s.calls t = some pc ∧ s.Owes w c pc

omit [DecidableEq θ] [DecidableEq ω] [DecidableEq κ] in
/-- A thread sleeps with a condition attached, or it will go to sleep without another look at it. -/
def Unwatched (s : WaitSets θ ω κ) (w : ω) (c : κ) : Prop :=
  c ∈ (s.wait_sets w).entries ∧ ((s.wait_sets w).asleep ≠ none ∨
    ∃ t rest timed last, s.calls t = some (.filling w rest [] timed last) ∧ c ∉ rest)

omit [DecidableEq θ] [DecidableEq ω] [DecidableEq κ] in
/-- A triggered condition that is not watched is announced by somebody. -/
def Heard (s : WaitSets θ ω κ) : Prop :=
  ∀ w c, s.Unwatched w c → (s.conditions c).getTriggerValue = true → s.Owed w c

omit [DecidableEq θ] [DecidableEq ω] [DecidableEq κ] in
/-- What is known of a reachable state. -/
structure Orderly (s : WaitSets θ ω κ) : Prop where
  locked : Locked s
  attended : Attended s
  linked : Linked s
  heard : Heard s

omit [DecidableEq θ] [DecidableEq ω] [DecidableEq κ] in
private theorem Locked.asleep_of_unwatched {s : WaitSets θ ω κ} (h : Locked s) {w : ω} {c : κ}
    (hfree : (s.wait_sets w).mutex = none) (hc : s.Unwatched w c) :
    (s.wait_sets w).asleep ≠ none := by
  refine hc.2.resolve_right fun ⟨t, rest, timed, last, ht, _⟩ ↦ ?_
  rw [(h.set_mutex w t).mpr (by rw [ht]; rfl)] at hfree
  cases hfree

omit [DecidableEq θ] [DecidableEq κ] in
private theorem mem_entries_of_update {s : WaitSets θ ω κ} {w : ω} {impl : WaitSetImpl θ κ}
    (himpl : ∀ c ∈ impl.entries, c ∈ (s.wait_sets w).entries) (x : ω) (c : κ)
    (hc : c ∈ (Function.update s.wait_sets w impl x).entries) : c ∈ (s.wait_sets x).entries := by
  rcases eq_or_ne x w with rfl | hx
  · rw [Function.update_self] at hc
    exact himpl c hc
  · rwa [Function.update_of_ne hx] at hc

omit [DecidableEq θ] [DecidableEq κ] in
private theorem asleep_ne_none_of_update {s : WaitSets θ ω κ} {w : ω} {impl : WaitSetImpl θ κ}
    (himpl : impl.asleep ≠ none → (s.wait_sets w).asleep ≠ none) (x : ω)
    (hx : (Function.update s.wait_sets w impl x).asleep ≠ none) :
    (s.wait_sets x).asleep ≠ none := by
  rcases eq_or_ne x w with rfl | hxw
  · rw [Function.update_self] at hx
    exact himpl hx
  · rwa [Function.update_of_ne hxw] at hx

omit [DecidableEq ω] [DecidableEq κ] in
/-- What is not watched after a step was not watched before it, unless the thread of the step has
looked away. -/
theorem Unwatched.before {s s' : WaitSets θ ω κ} {w : ω} {c : κ} (h : s'.Unwatched w c) {t : θ}
    (pc' : Option (WaitSetPc ω κ)) (hcalls : s'.calls = Function.update s.calls t pc')
    (hentries : c ∈ (s'.wait_sets w).entries → c ∈ (s.wait_sets w).entries)
    (hasleep : (s'.wait_sets w).asleep ≠ none → (s.wait_sets w).asleep ≠ none)
    (hpc' : ∀ rest timed last, pc' = some (.filling w rest [] timed last) → c ∈ rest) :
    s.Unwatched w c := by
  refine ⟨hentries h.1, h.2.imp hasleep ?_⟩
  rintro ⟨u, rest, timed, last, hu, hc⟩
  rw [hcalls, Function.update_apply] at hu
  split at hu
  · exact absurd (hpc' rest timed last hu) hc
  · exact ⟨u, rest, timed, last, hu, hc⟩

omit [DecidableEq ω] [DecidableEq κ] in
/-- A step keeps what is heard if it announces what it triggers or leaves unwatched, and passes on
what its thread has to announce. -/
theorem Heard.move {s s' : WaitSets θ ω κ} (h : Heard s) {t : θ} {pc pc' : Option (WaitSetPc ω κ)}
    (hpc : s.calls t = pc) (hcalls : s'.calls = Function.update s.calls t pc')
    (hunwatched : ∀ w c, s'.Unwatched w c → (s'.conditions c).getTriggerValue = true →
      s.Unwatched w c ∧ (s.conditions c).getTriggerValue = true ∨ s'.Owed w c)
    (hnotifiers : ∀ w c, s'.Unwatched w c → w ∈ (s.notifiers c).entries →
      w ∈ (s'.notifiers c).entries)
    (hself : ∀ w c p, pc = some p → s.Owes w c p → s'.Unwatched w c →
      (s'.conditions c).getTriggerValue = true → s'.Owed w c) : Heard s' := by
  intro w c hc htrigger
  rcases hunwatched w c hc htrigger with ⟨hc', htrigger'⟩ | howed
  · obtain ⟨u, p, hu, howes⟩ := h w c hc' htrigger'
    by_cases hut : u = t
    · exact hself w c p (by rw [← hpc, ← hut, hu]) howes hc htrigger
    · refine ⟨u, p, by rw [hcalls, Function.update_of_ne hut, hu], ?_⟩
      cases p with
      | notify d => exact ⟨howes.1, hnotifiers w c hc howes.2⟩
      | _ => exact howes
  · exact howed

omit [DecidableEq ω] [DecidableEq κ] in
/-- A step that triggers nothing, puts nobody to sleep, attaches nothing and has nothing to
announce. -/
theorem Heard.quiet {s s' : WaitSets θ ω κ} (h : Heard s) {t : θ} {pc pc' : Option (WaitSetPc ω κ)}
    (hpc : s.calls t = pc) (hcalls : s'.calls = Function.update s.calls t pc')
    (hentries : ∀ w c, c ∈ (s'.wait_sets w).entries → c ∈ (s.wait_sets w).entries)
    (hasleep : ∀ w, (s'.wait_sets w).asleep ≠ none → (s.wait_sets w).asleep ≠ none)
    (hpc' : ∀ w c rest timed last, pc' = some (.filling w rest [] timed last) →
      c ∈ (s'.wait_sets w).entries → c ∈ rest)
    (hconditions : s'.conditions = s.conditions) (hnotifiers : s'.notifiers = s.notifiers)
    (hself : ∀ w c p, pc = some p → ¬ s.Owes w c p) : Heard s' := by
  apply h.move hpc hcalls
  case hunwatched =>
    intro w c hc htrigger
    rw [hconditions] at htrigger
    exact .inl ⟨hc.before pc' hcalls (hentries w c) (hasleep w)
      fun rest timed last he ↦ hpc' w c rest timed last he hc.1, htrigger⟩
  case hnotifiers => exact fun w c _ hw ↦ by rwa [hnotifiers]
  case hself => exact fun w c p hp howes ↦ absurd howes (hself w c p hp)

omit [DecidableEq ω] in
/-- A condition changes: the thread that made it rise is on its way to the notifier, which knows
the wait sets that the condition is attached to, or is being told. -/
theorem Orderly.heard_change {s : WaitSets θ ω κ} (h : Orderly s) {t : θ} {c : κ} {change : Change}
    {changed : Condition} {notify : Bool} (hpc : s.calls t = some (.change c change))
    (hchange : (s.conditions c).change change = some (changed, notify)) :
    Heard ((s.setCondition c changed).goto t (if notify then some (.notify c) else none)) := by
  apply h.heard.move hpc rfl
  case hunwatched =>
    intro w d hd htrigger
    have hbefore : s.Unwatched w d := hd.before _ rfl id id (by cases notify <;> simp)
    simp only [goto_conditions, setCondition_conditions, Function.update_apply] at htrigger
    by_cases hdc : d = c
    · subst hdc
      rw [if_pos rfl] at htrigger
      cases hold : (s.conditions d).getTriggerValue with
      | true => exact .inl ⟨hbefore, rfl⟩
      | false =>
        have hnotify := Condition.notify_of_rising hchange hold htrigger
        right
        rcases h.linked.linked w d hbefore.1 with hlinked | ⟨u, hu⟩
        · exact ⟨t, .notify d, by simp [hnotify], rfl, hlinked⟩
        · refine ⟨u, .attachTo w d, ?_, rfl, rfl⟩
          have hut : u ≠ t := by
            rintro rfl
            rw [hpc] at hu
            cases hu
          simpa [hut] using hu
    · rw [if_neg hdc] at htrigger
      exact .inl ⟨hbefore, htrigger⟩
  case hnotifiers => exact fun _ _ _ ↦ id
  case hself =>
    intro w d p hp howes
    cases hp
    exact howes.elim

omit [DecidableEq ω] in
private theorem Orderly.heard_notify {s : WaitSets θ ω κ} (h : Orderly s) {t : θ} {c : κ}
    (hpc : s.calls t = some (.notify c)) (mutex : Option θ) :
    Heard ((s.setNotifier c { s.notifiers c with mutex }).goto t
      (some (.waking c (s.notifiers c).entries))) := by
  apply h.heard.move hpc rfl
  case hunwatched =>
    exact fun w d hd htrigger ↦ .inl ⟨hd.before _ rfl id id (by simp), htrigger⟩
  case hnotifiers =>
    intro w d _ hw
    simp only [goto_notifiers, setNotifier_notifiers, Function.update_apply]
    split
    · next hd => rwa [← hd]
    · exact hw
  case hself =>
    intro w d p hp howes _ _
    cases hp
    obtain ⟨rfl, hw⟩ := howes
    exact ⟨t, .waking c (s.notifiers c).entries, by simp, rfl, hw⟩

omit [DecidableEq κ] in
/-- A wait set is woken. -/
theorem Orderly.heard_waking {s : WaitSets θ ω κ} (h : Orderly s) {t : θ} {c : κ} {w : ω}
    {rest : List ω} (hpc : s.calls t = some (.waking c (w :: rest)))
    (hfree : (s.wait_sets w).mutex = none) :
    Heard ((s.setWaitSet w { s.wait_sets w with asleep := none }).goto t
      (some (.waking c rest))) := by
  have hbefore : ∀ x d, ((s.setWaitSet w { s.wait_sets w with asleep := none }).goto t
      (some (.waking c rest))).Unwatched x d → s.Unwatched x d ∧ x ≠ w := by
    intro x d hd
    have hx : s.Unwatched x d := hd.before _ rfl (mem_entries_of_update (by simp) x d)
      (asleep_ne_none_of_update (by simp) x) (by simp)
    refine ⟨hx, ?_⟩
    rintro rfl
    rcases hd.2 with hasleep | ⟨u, left, timed, last, hu, _⟩
    · simp at hasleep
    · have hut : u ≠ t := by
        rintro rfl
        simp at hu
      have hheld := (h.locked.set_mutex x u).mpr (by
        simp only [goto_calls, setWaitSet_calls, Function.update_of_ne hut] at hu
        rw [hu]
        rfl)
      rw [hfree] at hheld
      cases hheld
  apply h.heard.move hpc rfl
  case hunwatched => exact fun x d hd htrigger ↦ .inl ⟨(hbefore x d hd).1, htrigger⟩
  case hnotifiers => exact fun _ _ _ ↦ id
  case hself =>
    intro x d p hp howes hd _
    cases hp
    obtain ⟨rfl, hx⟩ := howes
    have hxrest : x ∈ rest := (List.mem_cons.mp hx).resolve_left (hbefore x c hd).2
    exact ⟨t, .waking c rest, by simp, rfl, hxrest⟩

/-- A condition is attached: its notifier is about to be told. -/
theorem Orderly.heard_attach {s : WaitSets θ ω κ} (h : Orderly s) {t : θ} {w : ω} {c : κ}
    (hpc : s.calls t = some (.attach w c)) : Heard (s.attachCondition t w c) := by
  simp only [WaitSets.attachCondition]
  split
  · next hmem =>
    apply h.heard.quiet hpc rfl
    case hentries =>
      refine mem_entries_of_update fun d hd ↦ ?_
      rcases mem_renew.mp hd with hold | rfl
      · exact hold
      · exact hmem
    case hasleep => exact asleep_ne_none_of_update id
    case hpc' => simp
    case hconditions => rfl
    case hnotifiers => rfl
    case hself =>
      intro x d p hp
      cases hp
      exact id
  · next hmem =>
    apply h.heard.move hpc rfl
    case hunwatched =>
      intro x d hd htrigger
      by_cases hattached : x = w ∧ d = c
      · obtain ⟨rfl, rfl⟩ := hattached
        exact .inr ⟨t, .attachTo x d, by simp, rfl, rfl⟩
      · refine .inl ⟨hd.before _ rfl (fun hd' ↦ ?_) (asleep_ne_none_of_update (by simp) x) (by simp),
          htrigger⟩
        rw [goto_wait_sets, setWaitSet_wait_sets] at hd'
        rcases eq_or_ne x w with rfl | hx
        · rw [Function.update_self] at hd'
          exact (mem_renew.mp hd').resolve_right fun hdc ↦ hattached ⟨rfl, hdc⟩
        · rwa [Function.update_of_ne hx] at hd'
    case hnotifiers => exact fun _ _ _ ↦ id
    case hself =>
      intro x d p hp howes
      cases hp
      exact howes.elim

omit [DecidableEq κ] in
private theorem Orderly.heard_attachTo {s : WaitSets θ ω κ} [DecidableEq κ] (h : Orderly s) {t : θ} {w : ω}
    {c : κ} (hpc : s.calls t = some (.attachTo w c)) :
    Heard ((s.setNotifier c { s.notifiers c with entries := renew (s.notifiers c).entries w }).goto t
      (some (.attachCheck w c))) := by
  apply h.heard.move hpc rfl
  case hunwatched =>
    exact fun x d hd htrigger ↦ .inl ⟨hd.before _ rfl id id (by simp), htrigger⟩
  case hnotifiers =>
    intro x d _ hx
    rw [goto_notifiers, setNotifier_notifiers]
    rcases eq_or_ne d c with rfl | hdc
    · rw [Function.update_self]
      exact mem_renew.mpr (.inl hx)
    · rwa [Function.update_of_ne hdc]
  case hself =>
    intro x d p hp howes _ _
    cases hp
    exact ⟨t, .attachCheck w c, by simp, howes⟩

omit [DecidableEq κ] in
/-- The last section of `attach_condition` wakes a waiting thread if the condition is triggered. -/
theorem Orderly.heard_attachCheck {s : WaitSets θ ω κ} (h : Orderly s) {t : θ} {w : ω} {c : κ}
    (hpc : s.calls t = some (.attachCheck w c)) (hfree : (s.wait_sets w).mutex = none)
    (code : WaitSetCode) :
    Heard ((s.setWaitSet w { s.wait_sets w with
      asleep := if (s.wait_sets w).is_waiting && (s.conditions c).getTriggerValue then none
        else (s.wait_sets w).asleep }).answer t (.attach_condition w c) code []) := by
  have hbefore : ∀ x d, ((s.setWaitSet w { s.wait_sets w with
      asleep := if (s.wait_sets w).is_waiting && (s.conditions c).getTriggerValue then none
        else (s.wait_sets w).asleep }).answer t (.attach_condition w c) code []).Unwatched x d →
      s.Unwatched x d := by
    intro x d hd
    refine Unwatched.before (s := s) hd none rfl (mem_entries_of_update (by simp) x d)
      (asleep_ne_none_of_update (fun hasleep ↦ ?_) x) (by simp)
    split at hasleep
    · exact absurd rfl hasleep
    · exact hasleep
  apply h.heard.move hpc rfl
  case hunwatched => exact fun x d hd htrigger ↦ .inl ⟨hbefore x d hd, htrigger⟩
  case hnotifiers => exact fun _ _ _ ↦ id
  case hself =>
    intro x d p hp howes hd htrigger
    cases hp
    obtain ⟨rfl, rfl⟩ := howes
    obtain ⟨u, hu⟩ := Option.ne_none_iff_exists'.mp
      (h.locked.asleep_of_unwatched hfree (hbefore w c hd))
    obtain ⟨timed, hblocked⟩ := h.attended.asleep w u hu
    have hwaiting := h.attended.waiting w u (by rw [hblocked]; rfl)
    -- somebody waits and the condition is triggered, so nobody sleeps any more
    have hfree' : ((s.setWaitSet w { s.wait_sets w with
        asleep := if (s.wait_sets w).is_waiting && (s.conditions c).getTriggerValue then none
          else (s.wait_sets w).asleep }).answer t (.attach_condition w c) code []).Unwatched w c →
        False := by
      rintro ⟨_, hasleep | ⟨v, rest, timed, last, hv, _⟩⟩
      · simp only [answer_wait_sets, setWaitSet_wait_sets, Function.update_self, hwaiting,
          Bool.true_and] at hasleep
        exact hasleep (if_pos htrigger)
      · have hvt : v ≠ t := by
          rintro rfl
          simp at hv
        simp only [answer_calls, setWaitSet_calls, Function.update_of_ne hvt] at hv
        rw [(h.locked.set_mutex w v).mpr (by rw [hv]; rfl)] at hfree
        cases hfree
    exact (hfree' hd).elim

private theorem Orderly.heard_detachFrom {s : WaitSets θ ω κ} (h : Orderly s) {t : θ} {w : ω} {c : κ}
    (hpc : s.calls t = some (.detachFrom w c)) :
    Heard ((s.setNotifier c { s.notifiers c with entries := remove (s.notifiers c).entries w }).answer
      t (.detach_condition w c) .OK []) := by
  have hgone := h.linked.leaving w c t hpc
  apply h.heard.move hpc rfl
  case hunwatched =>
    exact fun x d hd htrigger ↦ .inl ⟨hd.before none rfl id id (by simp), htrigger⟩
  case hnotifiers =>
    intro x d hd hx
    have hattached : d ∈ (s.wait_sets x).entries := hd.1
    rw [answer_notifiers, setNotifier_notifiers]
    rcases eq_or_ne d c with rfl | hdc
    · have hxw : x ≠ w := by
        rintro rfl
        exact hgone hattached
      rw [Function.update_self]
      exact (mem_remove (h.linked.nodup_notifier d)).mpr ⟨hxw, hx⟩
    · rwa [Function.update_of_ne hdc]
  case hself =>
    intro x d p hp howes
    cases hp
    exact howes.elim

omit [DecidableEq ω] [DecidableEq κ] in
/-- A waiting thread looks at the next condition. -/
theorem Orderly.heard_filling {s : WaitSets θ ω κ} (h : Orderly s) {t : θ} {w : ω} {c : κ}
    {rest active : List κ} {timed last : Bool}
    (hpc : s.calls t = some (.filling w (c :: rest) active timed last)) :
    Heard (s.goto t (some (.filling w rest
      (if (s.conditions c).getTriggerValue then active ++ [c] else active) timed last))) := by
  apply h.heard.move hpc rfl
  case hunwatched =>
    intro x d hd htrigger
    refine .inl ⟨⟨hd.1, hd.2.imp_right ?_⟩, htrigger⟩
    rintro ⟨u, left, timed', last', hu, hleft⟩
    rw [goto_calls, Function.update_apply] at hu
    split at hu
    · injection hu with hu
      injection hu with hw hrest hactive
      subst hw hrest
      have hquiet : active = [] ∧ (s.conditions c).getTriggerValue = false := by
        split at hactive
        · simp at hactive
        · next hc => exact ⟨hactive, by simpa using hc⟩
      have hdc : d ≠ c := by
        rintro rfl
        exact Bool.false_ne_true (hquiet.2.symm.trans htrigger)
      exact ⟨t, c :: rest, timed, last, by rw [hpc, hquiet.1], by simp [hdc, hleft]⟩
    · exact ⟨u, left, timed', last', hu, hleft⟩
  case hnotifiers => exact fun _ _ _ ↦ id
  case hself =>
    intro x d p hp howes
    cases hp
    exact howes.elim

omit [DecidableEq κ] in
/-- A waiting thread has looked at all conditions: it sleeps only if none was triggered. -/
theorem Orderly.heard_filled {s : WaitSets θ ω κ} (h : Orderly s) {t : θ} {w : ω}
    {active : List κ} {timed last : Bool}
    (hpc : s.calls t = some (.filling w [] active timed last)) :
    Heard (s.filled t w active timed last) := by
  have hself : ∀ (x : ω) (d : κ) (p : WaitSetPc ω κ),
      some (WaitSetPc.filling w [] active timed last) = some p → ¬ s.Owes x d p := by
    intro x d p hp
    cases hp
    exact id
  simp only [WaitSets.filled]
  split_ifs with hactive
  case pos | pos =>
    apply h.heard.quiet hpc rfl
    case hentries => exact mem_entries_of_update fun _ ↦ id
    case hasleep => exact asleep_ne_none_of_update id
    case hpc' => simp
    case hconditions => rfl
    case hnotifiers => rfl
    case hself => exact hself
  case neg =>
    rw [not_not] at hactive
    subst hactive
    apply h.heard.move hpc rfl
    case hunwatched =>
      intro x d hd htrigger
      refine .inl ⟨⟨?_, ?_⟩, htrigger⟩
      · exact mem_entries_of_update (by exact fun _ ↦ id) x d hd.1
      · rcases hd.2 with hasleep | ⟨u, rest, timed', last', hu, hrest⟩
        · simp only [goto_wait_sets, setWaitSet_wait_sets, Function.update_apply] at hasleep
          split at hasleep
          · next hx => exact .inr ⟨t, [], timed, last, by rw [hpc, hx], by simp⟩
          · exact .inl hasleep
        · rw [goto_calls, Function.update_apply] at hu
          split at hu
          · cases hu
          · exact .inr ⟨u, rest, timed', last', hu, hrest⟩
    case hnotifiers => exact fun _ _ _ ↦ id
    case hself => exact fun x d p hp howes ↦ absurd howes (hself x d p hp)

omit [DecidableEq ω] [DecidableEq κ] in
/-- A call returns that has nothing to announce. -/
theorem Heard.answer {s : WaitSets θ ω κ} (h : Heard s) {t : θ} {pc : WaitSetPc ω κ}
    (hpc : s.calls t = some pc) (call : WaitSetCall ω κ) (code : WaitSetCode) (active : List κ)
    (hself : ∀ x d, ¬ s.Owes x d pc) : Heard (s.answer t call code active) := by
  apply h.quiet hpc rfl
  case hentries => exact fun _ _ ↦ id
  case hasleep => exact fun _ ↦ id
  case hpc' => simp
  case hconditions => rfl
  case hnotifiers => rfl
  case hself =>
    intro x d p hp
    cases hp
    exact hself x d

omit [DecidableEq κ] in
/-- A thread begins to look at all conditions of its wait set. -/
theorem Heard.fill {s : WaitSets θ ω κ} (h : Heard s) {t : θ} {pc : WaitSetPc ω κ}
    (hpc : s.calls t = some pc) (w : ω) (timed last : Bool) (hself : ∀ x d, ¬ s.Owes x d pc) :
    Heard (s.fill t w timed last) := by
  simp only [WaitSets.fill]
  apply h.quiet hpc rfl
  case hconditions => rfl
  case hnotifiers => rfl
  case hself =>
    intro x d p hp
    cases hp
    exact hself x d
  case hpc' =>
    intro x d rest timed' last' he hd
    cases he
    simpa using hd
  case hentries => exact mem_entries_of_update fun _ ↦ id
  case hasleep => exact asleep_ne_none_of_update id

/-- The next section of a call. -/
theorem Orderly.heard_next {s s' : WaitSets θ ω κ} (h : Orderly s) {t : θ} {pc : WaitSetPc ω κ}
    (hpc : s.calls t = some pc) (hs : s.next t pc = some s') : Heard s' := by
  cases pc with
  | change c change =>
    obtain ⟨⟨changed, notify⟩, hchange, rfl⟩ := Option.map_eq_some_iff.mp hs
    exact h.heard_change hpc hchange
  | notify c =>
    simp only [WaitSets.next] at hs
    split at hs
    · cases hs
      exact h.heard_notify hpc (some t)
    · contradiction
  | waking c rest =>
    cases rest with
    | nil =>
      cases hs
      apply h.heard.move hpc rfl
      case hunwatched =>
        exact fun x d hd htrigger ↦ .inl ⟨hd.before none rfl id id (by simp), htrigger⟩
      case hnotifiers =>
        intro x d _ hx
        rw [goto_notifiers, setNotifier_notifiers]
        rcases eq_or_ne d c with rfl | hdc
        · rwa [Function.update_self]
        · rwa [Function.update_of_ne hdc]
      case hself =>
        intro x d p hp howes
        cases hp
        exact absurd howes.2 List.not_mem_nil
    | cons w rest =>
      simp only [WaitSets.next] at hs
      split at hs
      · next hfree =>
        cases hs
        exact h.heard_waking hpc hfree
      · contradiction
  | attach w c =>
    simp only [WaitSets.next] at hs
    split at hs
    · cases hs
      exact h.heard_attach hpc
    · contradiction
  | attachTo w c =>
    simp only [WaitSets.next] at hs
    split at hs
    · cases hs
      exact h.heard_attachTo hpc
    · contradiction
  | attachCheck w c =>
    simp only [WaitSets.next] at hs
    split at hs
    · next hfree =>
      cases hs
      exact h.heard_attachCheck hpc hfree .OK
    · contradiction
  | detach w c =>
    simp only [WaitSets.next, detachCondition] at hs
    split_ifs at hs
    · cases hs
      apply h.heard.quiet hpc rfl
      case hentries =>
        exact mem_entries_of_update fun d hd ↦ ((mem_remove (h.linked.nodup_entries w)).mp hd).2
      case hasleep => exact asleep_ne_none_of_update id
      case hpc' => simp
      case hconditions => rfl
      case hnotifiers => rfl
      case hself =>
        intro x d p hp
        cases hp
        exact id
    · cases hs
      exact h.heard.answer hpc _ _ _ fun _ _ ↦ id
  | detachFrom w c =>
    simp only [WaitSets.next] at hs
    split at hs
    · cases hs
      exact h.heard_detachFrom hpc
    · contradiction
  | wait w timed =>
    simp only [WaitSets.next] at hs
    split_ifs at hs
    · cases hs
      exact h.heard.answer hpc _ _ _ fun _ _ ↦ id
    · cases hs
      exact h.heard.fill hpc w timed false fun _ _ ↦ id
  | filling w rest active timed last =>
    cases rest with
    | nil =>
      cases hs
      exact h.heard_filled hpc
    | cons c rest =>
      cases hs
      exact h.heard_filling hpc
  | blocked w timed =>
    simp only [WaitSets.next] at hs
    split at hs
    · cases hs
      exact h.heard.fill hpc w timed false fun _ _ ↦ id
    · contradiction
  | timedOut w =>
    simp only [WaitSets.next] at hs
    split at hs
    · cases hs
      exact h.heard.fill hpc w true true fun _ _ ↦ id
    · contradiction

omit [DecidableEq κ] in
/-- A thread leaves its sleep by itself. -/
theorem Heard.leaveSleep {s : WaitSets θ ω κ} (h : Heard s) {t : θ} {pc pc' : WaitSetPc ω κ}
    (hpc : s.calls t = some pc) (w : ω) (impl : WaitSetImpl θ κ)
    (hentries : impl.entries = (s.wait_sets w).entries)
    (hasleep : impl.asleep ≠ none → (s.wait_sets w).asleep ≠ none)
    (hpc' : ∀ x rest timed last, pc' ≠ .filling x rest [] timed last)
    (hself : ∀ x d, ¬ s.Owes x d pc) : Heard ((s.setWaitSet w impl).goto t (some pc')) := by
  apply h.quiet hpc rfl
  case hentries => exact mem_entries_of_update fun d hd ↦ by rwa [← hentries]
  case hasleep => exact asleep_ne_none_of_update hasleep
  case hpc' => exact fun x d rest timed last he ↦ (hpc' _ _ _ _ (Option.some.inj he)).elim
  case hconditions => rfl
  case hnotifiers => rfl
  case hself =>
    intro x d p hp
    cases hp
    exact hself x d

omit [DecidableEq θ] [DecidableEq ω] [DecidableEq κ] in
/-- Conditions that nobody has attached or waits for. -/
theorem orderly_init (conditions : κ → Condition) : Orderly ({ conditions } : WaitSets θ ω κ) where
  locked := locked_init conditions
  attended := by constructor <;> simp
  linked := by constructor <;> simp
  heard := fun w c hc ↦ absurd hc.1 List.not_mem_nil

/-- Every step that edits attachments one at a time. -/
theorem orderly_step (s : WaitSets θ ω κ) (a : WaitSetAction θ ω κ) (s' : WaitSets θ ω κ)
    (h : Orderly s) (hok : EditsAlone s a) (hs : step s a = some s') : Orderly s' where
  locked := locked_step s a s' h.locked hs
  attended := attended_step s a s' h.attended hs
  linked := linked_step s a s' h.linked hok hs
  heard := by
    cases a with
    | call t call =>
      simp only [step] at hs
      split at hs
      · next hcall =>
        cases hs
        exact h.heard.quiet hcall.1 rfl (fun _ _ ↦ id) (fun _ ↦ id)
          (by cases call <;> simp [WaitSetCall.first]) rfl rfl (by simp)
      · contradiction
    | next t =>
      obtain ⟨pc, hpc, hs⟩ := Option.bind_eq_some_iff.mp hs
      exact h.heard_next hpc hs
    | wakeUp t =>
      simp only [step] at hs
      split at hs
      · next w timed hpc =>
        split at hs
        · cases hs
          exact h.heard.leaveSleep hpc w _ rfl (by simp) (by simp) fun _ _ ↦ id
        · contradiction
      · contradiction
    | timeout t =>
      simp only [step] at hs
      split at hs
      · next w hpc =>
        cases hs
        refine h.heard.leaveSleep hpc w _ rfl (fun hasleep ↦ ?_) (by simp) fun _ _ ↦ id
        split at hasleep
        · exact absurd rfl hasleep
        · exact hasleep
      · contradiction

/-- Every reachable state. -/
theorem orderly_run {conditions : κ → Condition} {as : List (WaitSetAction θ ω κ)}
    {s : WaitSets θ ω κ} (hok : AllSteps step EditsAlone { conditions } as)
    (hs : run step { conditions } as = some s) : Orderly s :=
  invariant_of_steps (orderly_init conditions)
    (fun s a s' h hok ↦ orderly_step s a s' h hok) as hok hs

/-- However the calls of any number of threads interleave: when a thread sleeps in a wait although
an attached condition is triggered, another thread is on its way to wake it because of that
condition. -/
theorem wakeUp_owed {conditions : κ → Condition} {as : List (WaitSetAction θ ω κ)}
    {s : WaitSets θ ω κ} (hok : AllSteps step EditsAlone { conditions } as)
    (hs : run step { conditions } as = some s) {w : ω} {t : θ} {c : κ}
    (hasleep : (s.wait_sets w).asleep = some t) (hattached : c ∈ (s.wait_sets w).entries)
    (htrigger : (s.conditions c).getTriggerValue = true) :
    ∃ u pc, u ≠ t ∧ s.calls u = some pc ∧ s.Owes w c pc := by
  have h := orderly_run hok hs
  obtain ⟨u, pc, hu, howes⟩ := h.heard w c ⟨hattached, .inl (by simp [hasleep])⟩ htrigger
  refine ⟨u, pc, ?_, hu, howes⟩
  rintro rfl
  obtain ⟨timed, hblocked⟩ := h.attended.asleep w u hasleep
  rw [hu] at hblocked
  cases hblocked
  exact howes

/-- One guard condition, not triggered. -/
def sleeperInit : WaitSets Bool Unit Unit := { conditions := fun _ ↦ .guard false }

/-- A thread attaches the condition and goes to sleep, another one triggers the condition. -/
def sleeperRun : List (WaitSetAction Bool Unit Unit) :=
  [.call true (.attach_condition () ()), .next true, .next true, .next true,
    .call true (.wait () false), .next true, .next true, .next true,
    .call false (.change () (.setTriggerValue true)), .next false]

/-- Nothing is attached and detached at once. -/
theorem editsAlone_sleeperRun : AllSteps step EditsAlone sleeperInit sleeperRun := by decide

/-- `wakeUp_owed` where the condition has just been triggered. -/
theorem wakeUp_owed_sleeperRun : ∃ s, run step sleeperInit sleeperRun = some s ∧
    ∃ u pc, u ≠ true ∧ s.calls u = some pc ∧ s.Owes () () pc :=
  ⟨_, rfl, wakeUp_owed editsAlone_sleeperRun rfl rfl (by decide) rfl⟩

/-- A thread begins to detach the condition, another one attaches it again before the notifier is
told, and waits. -/
def racingRun : List (WaitSetAction Bool Unit Unit) :=
  [.call true (.attach_condition () ()), .next true, .next true, .next true,
    .call false (.detach_condition () ()), .next false,
    .call true (.attach_condition () ()), .next true, .next true, .next true, .next false,
    .call true (.wait () false), .next true, .next true, .next true,
    .call false (.change () (.setTriggerValue true)), .next false, .next false, .next false]

/-- The condition on the run is needed: two calls that edit one attachment at once lose a
wake-up. -/
theorem wakeUp_lost_racingRun : ∃ s, run step sleeperInit racingRun = some s ∧
    (s.wait_sets ()).asleep = some true ∧ () ∈ (s.wait_sets ()).entries ∧
    (s.conditions ()).getTriggerValue = true ∧ s.calls false = none :=
  ⟨_, rfl, rfl, by decide, rfl, rfl⟩

end WaitSets

end HzjDds.Rmw
