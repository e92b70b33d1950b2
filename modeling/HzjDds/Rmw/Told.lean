import HzjDds.Rmw.Wakeup

/-!
# Wait sets and notifiers agree on what is attached

Library `Rmw`. Source: `vendor/Fast-DDS/src/cpp/fastdds/core/condition`. The wait set and the
notifier of a condition hold their entries of one attachment under different mutexes. They differ
only while a call that makes or removes this attachment is between the two.
-/

namespace HzjDds.Rmw

open HzjDds.Cpp HzjDds.Transition

universe u v w

variable {θ : Type u} {ω : Type v} {κ : Type w}

namespace WaitSets

variable [DecidableEq θ] [DecidableEq ω] [DecidableEq κ]

omit [DecidableEq θ] [DecidableEq ω] [DecidableEq κ] in
/-- A wait set that a notifier knows has the condition attached, or the notifier is about to be told
that it has not; what a notifier is told is so. -/
structure Told (s : WaitSets θ ω κ) : Prop where
  told : ∀ w c, w ∈ (s.notifiers c).entries →
    c ∈ (s.wait_sets w).entries ∨ ∃ t, s.calls t = some (.detachFrom w c)
  arriving : ∀ w c t, s.calls t = some (.attachTo w c) → c ∈ (s.wait_sets w).entries

omit [DecidableEq ω] [DecidableEq κ] in
/-- A thread goes on that neither detaches nor changes what is attached. -/
theorem Told.move {s s' : WaitSets θ ω κ} (h : Told s) {t : θ} {pc pc' : Option (WaitSetPc ω κ)}
    (hpc : s.calls t = pc) (hcalls : s'.calls = Function.update s.calls t pc')
    (hentries : ∀ w, (s'.wait_sets w).entries = (s.wait_sets w).entries)
    (hnotifiers : ∀ c, (s'.notifiers c).entries = (s.notifiers c).entries)
    (hattach : ∀ w c, pc' ≠ some (.attachTo w c)) (hdetach : ∀ w c, pc ≠ some (.detachFrom w c)) :
    Told s' := by
  constructor
  case told =>
    intro w c hw
    rw [hnotifiers] at hw
    rw [hentries, hcalls]
    refine (h.told w c hw).imp_right (.imp fun u hu ↦ ?_)
    have hut : u ≠ t := by
      rintro rfl
      exact hdetach w c (hpc.symm.trans hu)
    rw [Function.update_of_ne hut, hu]
  case arriving =>
    intro w c u hu
    rw [hcalls] at hu
    rw [hentries]
    exact h.arriving w c u (ne_and_eq_of_update_eq hu (hattach w c)).2

/-- The first section of `attach_condition`: the entries of the wait set stay or grow by the
condition. -/
theorem Told.attach {s s' : WaitSets θ ω κ} (h : Told s) {t : θ} {w : ω} {c : κ}
    {pc' : Option (WaitSetPc ω κ)} (hpc : s.calls t = some (.attach w c))
    (hcalls : s'.calls = Function.update s.calls t pc')
    (hpc' : pc' = none ∨ pc' = some (.attachTo w c)) {impl : WaitSetImpl θ κ}
    (hsets : s'.wait_sets = Function.update s.wait_sets w impl)
    (himpl : impl.entries = renew (s.wait_sets w).entries c)
    (hnotifiers : s'.notifiers = s.notifiers) : Told s' := by
  have hstay : ∀ x d, d ∈ (s.wait_sets x).entries → d ∈ (s'.wait_sets x).entries := by
    intro x d hd
    rw [hsets]
    rcases eq_or_ne x w with rfl | hx
    · rw [Function.update_self, himpl]
      exact mem_renew.mpr (.inl hd)
    · rwa [Function.update_of_ne hx]
  constructor
  case told =>
    intro x d hx
    rw [hnotifiers] at hx
    refine (h.told x d hx).imp (hstay x d) (.imp fun u hu ↦ ?_)
    rw [hcalls]
    exact update_eq_of_eq hu (by simp [hpc])
  case arriving =>
    intro x d u hu
    rw [hcalls] at hu
    rcases eq_or_ne u t with rfl | hut
    · rw [Function.update_self] at hu
      rcases hpc' with rfl | rfl
      · cases hu
      · cases hu
        rw [hsets, Function.update_self, himpl]
        exact mem_renew.mpr (.inr rfl)
    · rw [Function.update_of_ne hut] at hu
      exact hstay x d (h.arriving x d u hu)

/-- The first section of `detach_condition`. -/
theorem Told.detach {s : WaitSets θ ω κ} (h : Told s) (hlinked : Linked s) {t : θ} {w : ω} {c : κ}
    (hpc : s.calls t = some (.detach w c)) : Told (s.detachCondition t w c) := by
  have halone : ∀ u, s.calls u ≠ some (.attachTo w c) := by
    intro u hu
    have htu := hlinked.one (w, c) t u (by rw [hpc]; rfl) (by rw [hu]; rfl)
    rw [← htu, hpc] at hu
    cases hu
  have hstay : ∀ x d, ¬ (x = w ∧ d = c) → d ∈ (s.wait_sets x).entries →
      d ∈ (Function.update s.wait_sets w { s.wait_sets w with
        entries := remove (s.wait_sets w).entries c } x).entries := by
    intro x d hother hd
    rcases eq_or_ne x w with rfl | hx
    · rw [Function.update_self]
      exact (mem_remove (hlinked.nodup_entries x)).mpr ⟨fun hdc ↦ hother ⟨rfl, hdc⟩, hd⟩
    · rwa [Function.update_of_ne hx]
  simp only [WaitSets.detachCondition]
  split
  · constructor
    case told =>
      intro x d hx
      rcases h.told x d hx with hold | ⟨u, hu⟩
      · by_cases hgone : x = w ∧ d = c
        · obtain ⟨rfl, rfl⟩ := hgone
          exact .inr ⟨t, Function.update_self ..⟩
        · exact .inl (hstay x d hgone hold)
      · exact .inr ⟨u, update_eq_of_eq hu (by simp [hpc])⟩
    case arriving =>
      intro x d u hu
      obtain ⟨-, hu⟩ := ne_and_eq_of_update_eq hu (by simp)
      refine hstay x d ?_ (h.arriving x d u hu)
      rintro ⟨rfl, rfl⟩
      exact halone u hu
  · exact h.move hpc rfl (fun _ ↦ rfl) (fun _ ↦ rfl) (by simp) (by simp)

/-- The notifier is told that a condition is attached. -/
theorem Told.attachTo {s s' : WaitSets θ ω κ} (h : Told s) {t : θ} {w : ω} {c : κ}
    (hpc : s.calls t = some (.attachTo w c)) (hs : s.next t (.attachTo w c) = some s') :
    Told s' := by
  have hmem := h.arriving w c t hpc
  simp only [WaitSets.next] at hs
  split at hs
  · cases hs
    constructor
    case told =>
      intro x d hx
      have hkeep : x ∈ (s.notifiers d).entries → d ∈ (s.wait_sets x).entries ∨
          ∃ u, Function.update s.calls t (some (.attachCheck w c)) u = some (.detachFrom x d) :=
        fun hold ↦ (h.told x d hold).imp_right
          (.imp fun _ hu ↦ update_eq_of_eq hu (by simp [hpc]))
      rw [goto_notifiers, setNotifier_notifiers] at hx
      rcases eq_or_ne d c with rfl | hd
      · rw [Function.update_self] at hx
        rcases mem_renew.mp hx with hold | rfl
        · exact hkeep hold
        · exact .inl hmem
      · rw [Function.update_of_ne hd] at hx
        exact hkeep hx
    case arriving =>
      intro x d u hu
      exact h.arriving x d u (ne_and_eq_of_update_eq hu (by simp)).2
  · contradiction

/-- The notifier is told that a condition is no longer attached. -/
theorem Told.detachFrom {s s' : WaitSets θ ω κ} (h : Told s) (hlinked : Linked s) {t : θ} {w : ω}
    {c : κ} (hpc : s.calls t = some (.detachFrom w c))
    (hs : s.next t (.detachFrom w c) = some s') : Told s' := by
  simp only [WaitSets.next] at hs
  split at hs
  · cases hs
    constructor
    case told =>
      intro x d hx
      have hold : x ∈ (s.notifiers d).entries ∧ ¬ (x = w ∧ d = c) := by
        rw [answer_notifiers, setNotifier_notifiers] at hx
        rcases eq_or_ne d c with rfl | hd
        · rw [Function.update_self] at hx
          obtain ⟨hne, hmem⟩ := (mem_remove (hlinked.nodup_notifier d)).mp hx
          exact ⟨hmem, fun hgone ↦ hne hgone.1⟩
        · rw [Function.update_of_ne hd] at hx
          exact ⟨hx, fun hgone ↦ hd hgone.2⟩
      refine (h.told x d hold.1).imp_right (.imp fun _ hu ↦ update_eq_of_eq hu ?_)
      rintro hsame
      rw [setNotifier_calls, hpc] at hsame
      cases hsame
      exact hold.2 ⟨rfl, rfl⟩
    case arriving =>
      intro x d u hu
      exact h.arriving x d u (ne_and_eq_of_update_eq hu (by simp)).2
  · contradiction

/-- The next section of a call. -/
theorem Told.next {s s' : WaitSets θ ω κ} (h : Told s) (hlinked : Linked s) {t : θ}
    {pc : WaitSetPc ω κ} (hpc : s.calls t = some pc) (hs : s.next t pc = some s') : Told s' := by
  cases pc with
  | change c change =>
    obtain ⟨⟨changed, notify⟩, hchange, rfl⟩ := Option.map_eq_some_iff.mp hs
    exact h.move hpc rfl (fun _ ↦ rfl) (fun _ ↦ rfl) (by cases notify <;> simp) (by simp)
  | notify c =>
    simp only [WaitSets.next] at hs
    split at hs
    · cases hs
      exact h.move hpc rfl (fun _ ↦ rfl) (apply_update_of_eq ConditionNotifier.entries rfl)
        (by simp) (by simp)
    · contradiction
  | waking c rest =>
    cases rest with
    | nil =>
      cases hs
      exact h.move hpc rfl (fun _ ↦ rfl) (apply_update_of_eq ConditionNotifier.entries rfl)
        (by simp) (by simp)
    | cons w rest =>
      simp only [WaitSets.next] at hs
      split at hs
      · cases hs
        exact h.move hpc rfl (apply_update_of_eq WaitSetImpl.entries rfl) (fun _ ↦ rfl)
          (by simp) (by simp)
      · contradiction
  | attach w c =>
    simp only [WaitSets.next, attachCondition] at hs
    split_ifs at hs with hfree hmem
    · cases hs
      exact h.attach hpc rfl (.inl rfl) rfl rfl rfl
    · cases hs
      exact h.attach hpc rfl (.inr rfl) rfl rfl rfl
  | attachTo w c => exact h.attachTo hpc hs
  | attachCheck w c =>
    simp only [WaitSets.next] at hs
    split at hs
    · cases hs
      exact h.move hpc rfl (apply_update_of_eq WaitSetImpl.entries rfl) (fun _ ↦ rfl) (by simp)
        (by simp)
    · contradiction
  | detach w c =>
    simp only [WaitSets.next] at hs
    split at hs
    · cases hs
      exact h.detach hlinked hpc
    · contradiction
  | detachFrom w c => exact h.detachFrom hlinked hpc hs
  | wait w timed =>
    simp only [WaitSets.next, fill] at hs
    split_ifs at hs
    · cases hs
      exact h.move hpc rfl (fun _ ↦ rfl) (fun _ ↦ rfl) (by simp) (by simp)
    · cases hs
      exact h.move hpc rfl (apply_update_of_eq WaitSetImpl.entries rfl) (fun _ ↦ rfl) (by simp)
        (by simp)
  | filling w rest active timed last =>
    cases rest with
    | nil =>
      simp only [WaitSets.next, filled] at hs
      split_ifs at hs
      all_goals
        cases hs
        exact h.move hpc rfl (apply_update_of_eq WaitSetImpl.entries rfl) (fun _ ↦ rfl) (by simp)
          (by simp)
    | cons c rest =>
      cases hs
      exact h.move hpc rfl (fun _ ↦ rfl) (fun _ ↦ rfl) (by simp) (by simp)
  | blocked w timed | timedOut w =>
    simp only [WaitSets.next, fill] at hs
    split_ifs at hs
    cases hs
    exact h.move hpc rfl (apply_update_of_eq WaitSetImpl.entries rfl) (fun _ ↦ rfl) (by simp)
      (by simp)

/-- Every step that edits attachments one at a time. -/
theorem told_step (s : WaitSets θ ω κ) (a : WaitSetAction θ ω κ) (s' : WaitSets θ ω κ)
    (h : Told s) (hlinked : Linked s) (hs : step s a = some s') : Told s' := by
  cases a with
  | call t call =>
    simp only [step] at hs
    split at hs
    · next hcall =>
      cases hs
      apply h.move hcall.1 rfl
      case hattach => cases call <;> simp [WaitSetCall.first]
      case hdetach => simp
      all_goals exact fun _ ↦ rfl
    · contradiction
  | next t =>
    obtain ⟨pc, hpc, hs⟩ := Option.bind_eq_some_iff.mp hs
    exact h.next hlinked hpc hs
  | wakeUp t =>
    simp only [step] at hs
    split at hs
    · next w timed hpc =>
      split at hs
      · cases hs
        exact h.move hpc rfl (apply_update_of_eq WaitSetImpl.entries rfl) (fun _ ↦ rfl) (by simp)
          (by simp)
      · contradiction
    · contradiction
  | timeout t =>
    simp only [step] at hs
    split at hs
    · next w hpc =>
      cases hs
      exact h.move hpc rfl (apply_update_of_eq WaitSetImpl.entries rfl) (fun _ ↦ rfl) (by simp)
        (by simp)
    · contradiction

/-- Every reachable state. -/
theorem told_run {conditions : κ → Condition} {as : List (WaitSetAction θ ω κ)}
    {s : WaitSets θ ω κ} (hok : AllSteps step EditsAlone { conditions } as)
    (hs : run step { conditions } as = some s) : Told s :=
  (invariant_of_steps (I := fun s ↦ Linked s ∧ Told s)
    ⟨(orderly_init conditions).linked, by constructor <;> simp⟩
    (fun s a s' h hok hs ↦ ⟨linked_step s a s' h.1 hok hs, told_step s a s' h.2 h.1 hs⟩)
    as hok hs).2

/-- However calls interleave, an attachment is entered twice or nowhere unless a call is just
editing it, and never more than once in a wait set or in a notifier. -/
theorem attached_iff {conditions : κ → Condition} {as : List (WaitSetAction θ ω κ)}
    {s : WaitSets θ ω κ} (hok : AllSteps step EditsAlone { conditions } as)
    (hs : run step { conditions } as = some s) :
    (∀ w, (s.wait_sets w).entries.Nodup) ∧ (∀ c, (s.notifiers c).entries.Nodup) ∧
      ∀ w c, (∀ t, (s.calls t).bind WaitSetPc.edits ≠ some (w, c)) →
        (c ∈ (s.wait_sets w).entries ↔ w ∈ (s.notifiers c).entries) := by
  have hlinked := (orderly_run hok hs).linked
  have htold := told_run hok hs
  refine ⟨hlinked.nodup_entries, hlinked.nodup_notifier, fun w c halone ↦ ⟨fun hc ↦ ?_, fun hw ↦ ?_⟩⟩
  · refine (hlinked.linked w c hc).resolve_right fun ⟨t, ht⟩ ↦ halone t ?_
    rw [ht]
    rfl
  · refine (htold.told w c hw).resolve_right fun ⟨t, ht⟩ ↦ halone t ?_
    rw [ht]
    rfl

/-- `attached_iff` after an attachment and a wait. -/
theorem attached_iff_sleeperRun : ∃ s, run step sleeperInit sleeperRun = some s ∧
    (∀ w, (s.wait_sets w).entries.Nodup) ∧ (∀ c, (s.notifiers c).entries.Nodup) ∧
      ∀ w c, (∀ t, (s.calls t).bind WaitSetPc.edits ≠ some (w, c)) →
        (c ∈ (s.wait_sets w).entries ↔ w ∈ (s.notifiers c).entries) :=
  ⟨_, rfl, attached_iff editsAlone_sleeperRun rfl⟩

end WaitSets

end HzjDds.Rmw
