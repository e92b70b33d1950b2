import HzjDds.Rmw.Locks
import Mathlib.Data.Fintype.Defs

/-!
# Who waits on a wait set and what is attached to it

Library `Rmw`. Source: `vendor/Fast-DDS/src/cpp/fastdds/core/condition`. `is_waiting_` keeps waits
apart. An attached condition is entered in two places, each under a mutex of its own: in the wait
set first, then in the condition's notifier, and it is taken out in the same order.
-/

namespace HzjDds.Rmw

open HzjDds.Cpp HzjDds.Transition

universe u v w

variable {θ : Type u} {ω : Type v} {κ : Type w}

namespace WaitSetPc

/-- The wait set that a thread waits on. -/
def waits : WaitSetPc ω κ → Option ω
  | filling w _ _ _ _ | blocked w _ | timedOut w => some w
  | _ => none

/-- The attachment that a thread makes or removes. -/
def edits : WaitSetPc ω κ → Option (ω × κ)
  | attach w c | attachTo w c | attachCheck w c | detach w c | detachFrom w c => some (w, c)
  | _ => none

end WaitSetPc

namespace WaitSets

variable [DecidableEq θ] [DecidableEq ω] [DecidableEq κ]

/-! ## Who waits -/

omit [DecidableEq θ] [DecidableEq ω] [DecidableEq κ] in
/-- One thread at a time waits on a wait set, and a thread that sleeps is in its wait. -/
structure Attended (s : WaitSets θ ω κ) : Prop where
  waiting : ∀ w t, (s.calls t).bind WaitSetPc.waits = some w →
    (s.wait_sets w).is_waiting = true
  one : ∀ w t u, (s.calls t).bind WaitSetPc.waits = some w →
    (s.calls u).bind WaitSetPc.waits = some w → t = u
  asleep : ∀ w t, (s.wait_sets w).asleep = some t → ∃ timed, s.calls t = some (.blocked w timed)

omit [DecidableEq ω] [DecidableEq κ] in
/-- A thread goes on within its wait, or outside of any. -/
theorem Attended.move {s s' : WaitSets θ ω κ} (h : Attended s) {t : θ}
    {pc pc' : Option (WaitSetPc ω κ)} (hpc : s.calls t = pc)
    (hcalls : s'.calls = Function.update s.calls t pc')
    (hwaits : pc'.bind WaitSetPc.waits = pc.bind WaitSetPc.waits)
    (hwaiting : ∀ w, (s'.wait_sets w).is_waiting = (s.wait_sets w).is_waiting)
    (hasleep : ∀ w u, (s'.wait_sets w).asleep = some u →
      u ≠ t ∧ (s.wait_sets w).asleep = some u ∨ u = t ∧ ∃ timed, pc' = some (.blocked w timed)) :
    Attended s' := by
  have hsame := bind_calls hpc hcalls WaitSetPc.waits hwaits
  constructor
  case waiting =>
    intro w u hu
    rw [hsame] at hu
    rw [hwaiting]
    exact h.waiting w u hu
  case one =>
    intro w u v hu hv
    rw [hsame] at hu hv
    exact h.one w u v hu hv
  case asleep =>
    intro w u hu
    rw [hcalls]
    rcases hasleep w u hu with ⟨hne, hu⟩ | ⟨rfl, hblocked⟩
    · rw [Function.update_of_ne hne]
      exact h.asleep w u hu
    · rwa [Function.update_self]

omit [DecidableEq θ] [DecidableEq ω] [DecidableEq κ] in
private theorem Attended.ne_of_asleep {s : WaitSets θ ω κ} (h : Attended s) {t u : θ}
    {pc : Option (WaitSetPc ω κ)} (hpc : s.calls t = pc) {w : ω}
    (hblocked : ∀ timed, pc ≠ some (.blocked w timed)) (hu : (s.wait_sets w).asleep = some u) :
    u ≠ t := by
  rintro rfl
  obtain ⟨timed, hcall⟩ := h.asleep w u hu
  exact hblocked timed (hpc.symm.trans hcall)

omit [DecidableEq ω] [DecidableEq κ] in
/-- A thread that does not sleep goes on, and may wake others. -/
theorem Attended.pass {s s' : WaitSets θ ω κ} (h : Attended s) {t : θ}
    {pc pc' : Option (WaitSetPc ω κ)} (hpc : s.calls t = pc)
    (hcalls : s'.calls = Function.update s.calls t pc')
    (hwaits : pc'.bind WaitSetPc.waits = pc.bind WaitSetPc.waits)
    (hwaiting : ∀ w, (s'.wait_sets w).is_waiting = (s.wait_sets w).is_waiting)
    (hblocked : ∀ w timed, pc ≠ some (.blocked w timed))
    (hasleep : ∀ w u, (s'.wait_sets w).asleep = some u → (s.wait_sets w).asleep = some u) :
    Attended s' :=
  h.move hpc hcalls hwaits hwaiting fun w u hu ↦
    .inl ⟨h.ne_of_asleep hpc (hblocked w) (hasleep w u hu), hasleep w u hu⟩

omit [DecidableEq θ] [DecidableEq κ] in
private theorem asleep_of_update {s : WaitSets θ ω κ} {w : ω} {impl : WaitSetImpl θ κ}
    (himpl : ∀ u, impl.asleep = some u → (s.wait_sets w).asleep = some u) (x : ω) (u : θ)
    (hu : (Function.update s.wait_sets w impl x).asleep = some u) :
    (s.wait_sets x).asleep = some u := by
  rcases eq_or_ne x w with rfl | hx
  · rw [Function.update_self] at hu
    exact himpl u hu
  · rwa [Function.update_of_ne hx] at hu

omit [DecidableEq κ] in
/-- A thread begins to look at the conditions, in a wait of its own. -/
theorem Attended.fill {s : WaitSets θ ω κ} (h : Attended s) {t : θ} {pc : WaitSetPc ω κ}
    (hpc : s.calls t = some pc) {w : ω}
    (hwaits : pc.waits = some w ∨ pc.waits = none ∧ (s.wait_sets w).is_waiting = false)
    (hasleep : (s.wait_sets w).asleep ≠ some t) (timed last : Bool) :
    Attended (s.fill t w timed last) := by
  -- nobody else waits here
  have halone : ∀ u, (s.calls u).bind WaitSetPc.waits = some w → u = t := by
    intro u hu
    rcases hwaits with hw | ⟨-, hfree⟩
    · exact h.one w u t hu (by rw [hpc]; exact hw)
    · rw [h.waiting w u hu] at hfree
      cases hfree
  simp only [WaitSets.fill]
  constructor
  case waiting =>
    intro x u hu
    rcases eq_or_ne x w with rfl | hx
    · simp
    · have hut : u ≠ t := by
        rintro rfl
        simp [WaitSetPc.waits] at hu
        exact hx hu.symm
      rw [goto_calls, Function.update_of_ne hut] at hu
      rw [goto_wait_sets, setWaitSet_wait_sets, Function.update_of_ne hx]
      exact h.waiting x u hu
  case one =>
    refine Alone.move h.one (t := t) (fun u hu ↦ by simp [hu]) fun x hx ↦ ?_
    simp [WaitSetPc.waits] at hx
    subst hx
    exact halone
  case asleep =>
    intro x u hu
    rw [goto_wait_sets, setWaitSet_wait_sets] at hu
    have hu' : (s.wait_sets x).asleep = some u := asleep_of_update (by exact fun _ ↦ id) x u hu
    obtain ⟨timed', hblocked⟩ := h.asleep x u hu'
    have hut : u ≠ t := by
      rintro rfl
      rw [hpc] at hblocked
      cases hblocked
      rcases hwaits with hw | ⟨hw, -⟩
      · cases hw
        exact hasleep hu'
      · cases hw
    exact ⟨timed', by simp [hut, hblocked]⟩

omit [DecidableEq κ] in
/-- A thread leaves its wait. -/
theorem Attended.leave {s s' : WaitSets θ ω κ} (h : Attended s) {t : θ} {w : ω}
    {rest active : List κ} {timed last : Bool}
    (hpc : s.calls t = some (.filling w rest active timed last))
    (hcalls : s'.calls = Function.update s.calls t none) {impl : WaitSetImpl θ κ}
    (hsets : s'.wait_sets = Function.update s.wait_sets w impl)
    (himpl : impl.asleep = (s.wait_sets w).asleep) : Attended s' := by
  have hne : ∀ u x, (s'.calls u).bind WaitSetPc.waits = some x →
      u ≠ t ∧ (s.calls u).bind WaitSetPc.waits = some x := by
    intro u x hu
    have hut : u ≠ t := by
      rintro rfl
      rw [hcalls, Function.update_self] at hu
      cases hu
    exact ⟨hut, by rwa [hcalls, Function.update_of_ne hut] at hu⟩
  constructor
  case waiting =>
    intro x u hu
    obtain ⟨hut, hu'⟩ := hne u x hu
    have hx : x ≠ w := by
      rintro rfl
      exact hut (h.one x u t hu' (by rw [hpc]; rfl))
    rw [hsets, Function.update_of_ne hx]
    exact h.waiting x u hu'
  case one => exact fun x u v hu hv ↦ h.one x u v (hne u x hu).2 (hne v x hv).2
  case asleep =>
    intro x u hu
    rw [hsets] at hu
    have hu' : (s.wait_sets x).asleep = some u :=
      asleep_of_update (fun v hv ↦ by rwa [← himpl]) x u hu
    have hut : u ≠ t := h.ne_of_asleep hpc (by simp) hu'
    rw [hcalls, Function.update_of_ne hut]
    exact h.asleep x u hu'

omit [DecidableEq κ] in
/-- A thread has looked at the conditions: it leaves its wait or sleeps in it. -/
theorem Attended.filled {s : WaitSets θ ω κ} (h : Attended s) {t : θ} {w : ω}
    {rest active : List κ} {timed last : Bool}
    (hpc : s.calls t = some (.filling w rest active timed last)) :
    Attended (s.filled t w active timed last) := by
  simp only [WaitSets.filled]
  split_ifs
  · exact h.leave hpc rfl rfl rfl
  · exact h.leave hpc rfl rfl rfl
  · refine h.move hpc rfl rfl (apply_update_of_eq WaitSetImpl.is_waiting rfl) fun x u hu ↦ ?_
    rw [goto_wait_sets, setWaitSet_wait_sets] at hu
    rcases eq_or_ne x w with rfl | hx
    · rw [Function.update_self] at hu
      exact .inr ⟨(Option.some.inj hu).symm, timed, rfl⟩
    · rw [Function.update_of_ne hx] at hu
      exact .inl ⟨h.ne_of_asleep hpc (by simp) hu, hu⟩

/-- The next section of a call. -/
theorem Attended.next {s s' : WaitSets θ ω κ} (h : Attended s) {t : θ} {pc : WaitSetPc ω κ}
    (hpc : s.calls t = some pc) (hs : s.next t pc = some s') : Attended s' := by
  cases pc with
  | change c change =>
    obtain ⟨⟨changed, notify⟩, hchange, rfl⟩ := Option.map_eq_some_iff.mp hs
    cases notify
    · exact h.pass hpc rfl rfl (fun _ ↦ rfl) (by simp) fun _ _ ↦ id
    · exact h.pass hpc rfl rfl (fun _ ↦ rfl) (by simp) fun _ _ ↦ id
  | notify c | attachTo w c | detachFrom w c =>
    simp only [WaitSets.next] at hs
    split at hs
    · cases hs
      exact h.pass hpc rfl rfl (fun _ ↦ rfl) (by simp) fun _ _ ↦ id
    · contradiction
  | waking c rest =>
    cases rest with
    | nil =>
      cases hs
      exact h.pass hpc rfl rfl (fun _ ↦ rfl) (by simp) fun _ _ ↦ id
    | cons w rest =>
      simp only [WaitSets.next] at hs
      split at hs
      · cases hs
        exact h.pass hpc rfl rfl (apply_update_of_eq WaitSetImpl.is_waiting rfl) (by simp)
          (asleep_of_update (by simp))
      · contradiction
  | attach w c =>
    have hwaiting : ∀ x, (Function.update s.wait_sets w { s.wait_sets w with
        entries := renew (s.wait_sets w).entries c } x).is_waiting = (s.wait_sets x).is_waiting :=
      apply_update_of_eq WaitSetImpl.is_waiting rfl
    simp only [WaitSets.next, attachCondition] at hs
    split_ifs at hs
    · cases hs
      exact h.pass hpc rfl rfl hwaiting (by simp) (asleep_of_update fun _ ↦ id)
    · cases hs
      exact h.pass hpc rfl rfl hwaiting (by simp) (asleep_of_update fun _ ↦ id)
  | attachCheck w c =>
    simp only [WaitSets.next] at hs
    split at hs
    · cases hs
      refine h.pass hpc rfl rfl (apply_update_of_eq WaitSetImpl.is_waiting rfl) (by simp)
        (asleep_of_update fun u hu ↦ ?_)
      split at hu
      · cases hu
      · exact hu
    · contradiction
  | detach w c =>
    simp only [WaitSets.next, detachCondition] at hs
    split_ifs at hs
    · cases hs
      exact h.pass hpc rfl rfl (apply_update_of_eq WaitSetImpl.is_waiting rfl) (by simp)
        (asleep_of_update fun _ ↦ id)
    · cases hs
      exact h.pass hpc rfl rfl (fun _ ↦ rfl) (by simp) fun _ _ ↦ id
  | wait w timed =>
    simp only [WaitSets.next] at hs
    split_ifs at hs with hfree hwaiting
    · cases hs
      exact h.pass hpc rfl rfl (fun _ ↦ rfl) (by simp) fun _ _ ↦ id
    · cases hs
      exact h.fill hpc (.inr ⟨rfl, by simpa using hwaiting⟩)
        (fun hself ↦ h.ne_of_asleep hpc (by simp) hself rfl) ..
  | filling w rest active timed last =>
    cases rest with
    | nil =>
      cases hs
      exact h.filled hpc
    | cons c rest =>
      cases hs
      exact h.pass hpc rfl rfl (fun _ ↦ rfl) (by simp) fun _ _ ↦ id
  | blocked w timed =>
    simp only [WaitSets.next] at hs
    split at hs
    · next hfree =>
      cases hs
      exact h.fill hpc (.inl rfl) hfree.2 ..
    · contradiction
  | timedOut w =>
    simp only [WaitSets.next] at hs
    split at hs
    · cases hs
      exact h.fill hpc (.inl rfl) (fun hself ↦ h.ne_of_asleep hpc (by simp) hself rfl) ..
    · contradiction

omit [DecidableEq κ] in
/-- A blocked thread stops to sleep. -/
theorem Attended.leaveSleep {s s' : WaitSets θ ω κ} (h : Attended s) {t : θ} {w : ω} {timed : Bool}
    (hpc : s.calls t = some (.blocked w timed)) {pc' : WaitSetPc ω κ} (hpc' : pc'.waits = some w)
    (hcalls : s'.calls = Function.update s.calls t (some pc')) {impl : WaitSetImpl θ κ}
    (hsets : s'.wait_sets = Function.update s.wait_sets w impl)
    (hwaiting : impl.is_waiting = (s.wait_sets w).is_waiting)
    (hasleep : ∀ u, impl.asleep = some u → u ≠ t ∧ (s.wait_sets w).asleep = some u) :
    Attended s' := by
  apply h.move hpc hcalls hpc'
  case hwaiting =>
    rw [hsets]
    exact apply_update_of_eq WaitSetImpl.is_waiting hwaiting
  case hasleep =>
    intro x u hu
    rw [hsets] at hu
    left
    rcases eq_or_ne x w with rfl | hx
    · rw [Function.update_self] at hu
      exact hasleep u hu
    · rw [Function.update_of_ne hx] at hu
      exact ⟨h.ne_of_asleep hpc (by simp [hx.symm]) hu, hu⟩

/-- Every step. -/
theorem attended_step (s : WaitSets θ ω κ) (a : WaitSetAction θ ω κ) (s' : WaitSets θ ω κ)
    (h : Attended s) (hs : step s a = some s') : Attended s' := by
  cases a with
  | call t call =>
    simp only [step] at hs
    split at hs
    · next hcall =>
      cases hs
      exact h.pass hcall.1 rfl (by cases call <;> rfl) (fun _ ↦ rfl) (by simp) fun _ _ ↦ id
    · contradiction
  | next t =>
    obtain ⟨pc, hpc, hs⟩ := Option.bind_eq_some_iff.mp hs
    exact h.next hpc hs
  | wakeUp t =>
    simp only [step] at hs
    split at hs
    · next w timed hpc =>
      split at hs
      · cases hs
        exact h.leaveSleep hpc rfl rfl rfl rfl (by simp)
      · contradiction
    · contradiction
  | timeout t =>
    simp only [step] at hs
    split at hs
    · next w hpc =>
      cases hs
      refine h.leaveSleep hpc rfl rfl rfl rfl fun u hu ↦ ?_
      split at hu
      · cases hu
      · next hawake =>
        refine ⟨?_, hu⟩
        rintro rfl
        exact hawake hu
    · contradiction

/-! ## Who is attached -/

omit [DecidableEq θ] [DecidableEq ω] [DecidableEq κ] in
/-- One thread at a time edits an attachment; the notifier of an attached condition knows the wait
set, or is about to be told. -/
structure Linked (s : WaitSets θ ω κ) : Prop where
  one : ∀ e t u, (s.calls t).bind WaitSetPc.edits = some e →
    (s.calls u).bind WaitSetPc.edits = some e → t = u
  nodup_entries : ∀ w, (s.wait_sets w).entries.Nodup
  nodup_notifier : ∀ c, (s.notifiers c).entries.Nodup
  linked : ∀ w c, c ∈ (s.wait_sets w).entries →
    w ∈ (s.notifiers c).entries ∨ ∃ t, s.calls t = some (.attachTo w c)
  leaving : ∀ w c t, s.calls t = some (.detachFrom w c) → c ∉ (s.wait_sets w).entries

/-- No call edits an attachment that another call in progress edits. -/
def EditsAlone (s : WaitSets θ ω κ) : WaitSetAction θ ω κ → Prop
  | .call _ call => ∀ e, call.first.edits = some e →
      ∀ t, (s.calls t).bind WaitSetPc.edits ≠ some e
  | _ => True

/-- The condition can be checked along a run of finitely many threads. -/
instance [Fintype θ] (s : WaitSets θ ω κ) : ∀ a, Decidable (EditsAlone s a)
  | .call _ call =>
    match h : call.first.edits with
    | none => isTrue (by simp [EditsAlone, h])
    | some e => decidable_of_iff (∀ t, (s.calls t).bind WaitSetPc.edits ≠ some e)
        (by simp [EditsAlone, h])
  | .next _ | .wakeUp _ | .timeout _ => isTrue trivial

omit [DecidableEq ω] [DecidableEq κ] in
/-- A thread goes on with the attachment it edits, or with none. -/
theorem Linked.move {s s' : WaitSets θ ω κ} (h : Linked s) {t : θ}
    {pc pc' : Option (WaitSetPc ω κ)} (hpc : s.calls t = pc)
    (hcalls : s'.calls = Function.update s.calls t pc')
    (hedits : ∀ e, pc'.bind WaitSetPc.edits = some e → pc.bind WaitSetPc.edits = some e ∨
      ∀ u, (s.calls u).bind WaitSetPc.edits ≠ some e)
    (hentries : ∀ w, (s'.wait_sets w).entries = (s.wait_sets w).entries)
    (hnotifiers : ∀ c, (s'.notifiers c).entries = (s.notifiers c).entries)
    (hattach : ∀ w c, pc ≠ some (.attachTo w c))
    (hdetach : ∀ w c, pc' = some (.detachFrom w c) → c ∉ (s.wait_sets w).entries) :
    Linked s' := by
  constructor
  case one =>
    refine Alone.move h.one (t := t) (fun u hu ↦ by rw [hcalls, Function.update_of_ne hu]) ?_
    intro e he u hu
    rw [hcalls, Function.update_self] at he
    rcases hedits e he with hold | hnew
    · exact h.one e u t hu (by rw [hpc, hold])
    · exact absurd hu (hnew u)
  case nodup_entries => exact fun w ↦ by rw [hentries]; exact h.nodup_entries w
  case nodup_notifier => exact fun c ↦ by rw [hnotifiers]; exact h.nodup_notifier c
  case linked =>
    intro w c hc
    rw [hentries] at hc
    rw [hnotifiers, hcalls]
    refine (h.linked w c hc).imp_right (.imp fun u hu ↦ ?_)
    have hut : u ≠ t := by
      rintro rfl
      exact hattach w c (hpc.symm.trans hu)
    rw [Function.update_of_ne hut, hu]
  case leaving =>
    intro w c u hu
    rw [hcalls] at hu
    rw [hentries]
    rcases eq_or_ne u t with rfl | hut
    · rw [Function.update_self] at hu
      exact hdetach w c hu
    · rw [Function.update_of_ne hut] at hu
      exact h.leaving w c u hu

omit [DecidableEq ω] [DecidableEq κ] in
private theorem Linked.one_move {s s' : WaitSets θ ω κ} (h : Linked s) {t : θ} {pc : WaitSetPc ω κ}
    {pc' : Option (WaitSetPc ω κ)} (hpc : s.calls t = some pc)
    (hcalls : s'.calls = Function.update s.calls t pc')
    (hedits : ∀ e, pc'.bind WaitSetPc.edits = some e → pc.edits = some e) (e : ω × κ) (u v : θ)
    (hu : (s'.calls u).bind WaitSetPc.edits = some e)
    (hv : (s'.calls v).bind WaitSetPc.edits = some e) : u = v := by
  have halone : Alone fun u ↦ (s'.calls u).bind WaitSetPc.edits := by
    refine Alone.move h.one (t := t) (fun u hu ↦ by rw [hcalls, Function.update_of_ne hu]) ?_
    intro e he u hu
    rw [hcalls, Function.update_self] at he
    exact h.one e u t hu (by rw [hpc]; exact hedits e he)
  exact halone e u v hu hv

/-- The first section of `attach_condition` renews the entry; unless the entry was there, the
notifier is about to be told. -/
theorem Linked.attach {s s' : WaitSets θ ω κ} (h : Linked s) {t : θ} {w : ω} {c : κ}
    {pc' : Option (WaitSetPc ω κ)} (hpc : s.calls t = some (.attach w c))
    (hcalls : s'.calls = Function.update s.calls t pc')
    (hpc' : pc' = none ∧ c ∈ (s.wait_sets w).entries ∨ pc' = some (.attachTo w c))
    {impl : WaitSetImpl θ κ} (hsets : s'.wait_sets = Function.update s.wait_sets w impl)
    (himpl : impl.entries = renew (s.wait_sets w).entries c)
    (hnotifiers : s'.notifiers = s.notifiers) : Linked s' := by
  have halone : ∀ u, s.calls u ≠ some (.detachFrom w c) := by
    intro u hu
    have htu := h.one (w, c) t u (by rw [hpc]; rfl) (by rw [hu]; rfl)
    rw [← htu, hpc] at hu
    cases hu
  have hbefore : ∀ x d, d ∈ (s'.wait_sets x).entries →
      x = w ∧ d = c ∨ d ∈ (s.wait_sets x).entries := by
    intro x d hd
    rw [hsets] at hd
    rcases eq_or_ne x w with rfl | hx
    · rw [Function.update_self, himpl, mem_renew] at hd
      exact hd.symm.imp_left fun hdc ↦ ⟨rfl, hdc⟩
    · rw [Function.update_of_ne hx] at hd
      exact .inr hd
  constructor
  case one =>
    apply h.one_move hpc hcalls
    rcases hpc' with ⟨rfl, -⟩ | rfl <;> simp [WaitSetPc.edits]
  case nodup_entries =>
    intro x
    rw [hsets]
    rcases eq_or_ne x w with rfl | hx
    · rw [Function.update_self, himpl]
      exact nodup_renew (h.nodup_entries x) c
    · rw [Function.update_of_ne hx]
      exact h.nodup_entries x
  case nodup_notifier => exact fun d ↦ by rw [hnotifiers]; exact h.nodup_notifier d
  case linked =>
    intro x d hd
    rw [hnotifiers]
    have hkeep : d ∈ (s.wait_sets x).entries →
        x ∈ (s.notifiers d).entries ∨ ∃ u, s'.calls u = some (.attachTo x d) := by
      intro hold
      refine (h.linked x d hold).imp_right (.imp fun u hu ↦ ?_)
      rw [hcalls]
      exact update_eq_of_eq hu (by simp [hpc])
    rcases hbefore x d hd with ⟨rfl, rfl⟩ | hold
    · rcases hpc' with ⟨-, hmem⟩ | rfl
      · exact hkeep hmem
      · exact .inr ⟨t, by rw [hcalls, Function.update_self]⟩
    · exact hkeep hold
  case leaving =>
    intro x d u hu hd
    rw [hcalls] at hu
    obtain ⟨-, hu⟩ := ne_and_eq_of_update_eq hu
      (by rcases hpc' with ⟨rfl, -⟩ | rfl <;> simp)
    rcases hbefore x d hd with ⟨rfl, rfl⟩ | hold
    · exact halone u hu
    · exact h.leaving x d u hu hold

/-- The first section of `detach_condition` takes the entry away, before the notifier is told. -/
theorem Linked.detach {s : WaitSets θ ω κ} (h : Linked s) {t : θ} {w : ω} {c : κ}
    (hpc : s.calls t = some (.detach w c)) : Linked (s.detachCondition t w c) := by
  simp only [WaitSets.detachCondition]
  split
  · constructor
    case one => exact h.one_move hpc rfl (by simp [WaitSetPc.edits])
    case nodup_entries =>
      intro x
      rw [goto_wait_sets, setWaitSet_wait_sets]
      rcases eq_or_ne x w with rfl | hx
      · rw [Function.update_self]
        exact nodup_remove (h.nodup_entries x) c
      · rw [Function.update_of_ne hx]
        exact h.nodup_entries x
    case nodup_notifier => exact h.nodup_notifier
    case linked =>
      intro x d hd
      have hold : d ∈ (s.wait_sets x).entries := by
        rw [goto_wait_sets, setWaitSet_wait_sets] at hd
        rcases eq_or_ne x w with rfl | hx
        · rw [Function.update_self] at hd
          exact ((mem_remove (h.nodup_entries x)).mp hd).2
        · rwa [Function.update_of_ne hx] at hd
      exact (h.linked x d hold).imp_right (.imp fun _ hu ↦ update_eq_of_eq hu (by simp [hpc]))
    case leaving =>
      intro x d u hu hd
      rw [goto_wait_sets, setWaitSet_wait_sets] at hd
      rw [goto_calls] at hu
      rcases eq_or_ne u t with rfl | hut
      · rw [Function.update_self] at hu
        cases hu
        rw [Function.update_self] at hd
        exact ((mem_remove (h.nodup_entries w)).mp hd).1 rfl
      · rw [Function.update_of_ne hut] at hu
        apply h.leaving x d u hu
        rcases eq_or_ne x w with rfl | hx
        · rw [Function.update_self] at hd
          exact ((mem_remove (h.nodup_entries x)).mp hd).2
        · rwa [Function.update_of_ne hx] at hd
  · exact h.move hpc rfl (by simp) (fun _ ↦ rfl) (fun _ ↦ rfl) (by simp) (by simp)

/-- The notifier is told that a condition is attached. -/
theorem Linked.attachTo {s s' : WaitSets θ ω κ} (h : Linked s) {t : θ} {w : ω} {c : κ}
    (hpc : s.calls t = some (.attachTo w c)) (hs : s.next t (.attachTo w c) = some s') :
    Linked s' := by
  simp only [WaitSets.next] at hs
  split at hs
  · cases hs
    constructor
    case one => exact h.one_move hpc rfl (by simp [WaitSetPc.edits])
    case nodup_entries => exact h.nodup_entries
    case nodup_notifier =>
      intro d
      rw [goto_notifiers, setNotifier_notifiers]
      rcases eq_or_ne d c with rfl | hd
      · rw [Function.update_self]
        exact nodup_renew (h.nodup_notifier d) w
      · rw [Function.update_of_ne hd]
        exact h.nodup_notifier d
    case linked =>
      intro x d hd
      rcases h.linked x d hd with hx | ⟨u, hu⟩
      · left
        rw [goto_notifiers, setNotifier_notifiers]
        rcases eq_or_ne d c with rfl | hdc
        · rw [Function.update_self]
          exact mem_renew.mpr (.inl hx)
        · rwa [Function.update_of_ne hdc]
      · rcases eq_or_ne u t with rfl | hut
        · -- the attachment that was to be made is made
          cases hpc.symm.trans hu
          exact .inl (by simp)
        · exact .inr ⟨u, by rw [goto_calls, Function.update_of_ne hut]; exact hu⟩
    case leaving =>
      intro x d u hu
      exact h.leaving x d u (ne_and_eq_of_update_eq hu (by simp)).2
  · contradiction

/-- The notifier is told that a condition is no longer attached. -/
theorem Linked.detachFrom {s s' : WaitSets θ ω κ} (h : Linked s) {t : θ} {w : ω} {c : κ}
    (hpc : s.calls t = some (.detachFrom w c)) (hs : s.next t (.detachFrom w c) = some s') :
    Linked s' := by
  have hgone := h.leaving w c t hpc
  simp only [WaitSets.next] at hs
  split at hs
  · cases hs
    constructor
    case one => exact h.one_move hpc rfl (by simp)
    case nodup_entries => exact h.nodup_entries
    case nodup_notifier =>
      intro d
      rw [answer_notifiers, setNotifier_notifiers]
      rcases eq_or_ne d c with rfl | hd
      · rw [Function.update_self]
        exact nodup_remove (h.nodup_notifier d) w
      · rw [Function.update_of_ne hd]
        exact h.nodup_notifier d
    case linked =>
      intro x d hd
      refine (h.linked x d hd).imp (fun hx ↦ ?_)
        (.imp fun _ hu ↦ update_eq_of_eq hu (by simp [hpc]))
      rw [answer_notifiers, setNotifier_notifiers]
      rcases eq_or_ne d c with rfl | hdc
      · have hxw : x ≠ w := by
          rintro rfl
          exact hgone hd
        rw [Function.update_self]
        exact (mem_remove (h.nodup_notifier d)).mpr ⟨hxw, hx⟩
      · rwa [Function.update_of_ne hdc]
    case leaving =>
      intro x d u hu
      exact h.leaving x d u (ne_and_eq_of_update_eq hu (by simp)).2
  · contradiction

/-- The next section of a call. -/
theorem Linked.next {s s' : WaitSets θ ω κ} (h : Linked s) {t : θ} {pc : WaitSetPc ω κ}
    (hpc : s.calls t = some pc) (hs : s.next t pc = some s') : Linked s' := by
  cases pc with
  | change c change =>
    obtain ⟨⟨changed, notify⟩, hchange, rfl⟩ := Option.map_eq_some_iff.mp hs
    cases notify
    · exact h.move hpc rfl (by simp) (fun _ ↦ rfl) (fun _ ↦ rfl) (by simp) (by simp)
    · exact h.move hpc rfl (by simp [WaitSetPc.edits]) (fun _ ↦ rfl) (fun _ ↦ rfl) (by simp)
        (by simp)
  | notify c =>
    simp only [WaitSets.next] at hs
    split at hs
    · cases hs
      exact h.move hpc rfl (by simp [WaitSetPc.edits]) (fun _ ↦ rfl)
        (apply_update_of_eq ConditionNotifier.entries rfl) (by simp) (by simp)
    · contradiction
  | waking c rest =>
    cases rest with
    | nil =>
      cases hs
      exact h.move hpc rfl (by simp) (fun _ ↦ rfl)
        (apply_update_of_eq ConditionNotifier.entries rfl) (by simp) (by simp)
    | cons w rest =>
      simp only [WaitSets.next] at hs
      split at hs
      · cases hs
        exact h.move hpc rfl (by simp [WaitSetPc.edits])
          (apply_update_of_eq WaitSetImpl.entries rfl) (fun _ ↦ rfl) (by simp) (by simp)
      · contradiction
  | attach w c =>
    simp only [WaitSets.next, attachCondition] at hs
    split_ifs at hs with hfree hmem
    · cases hs
      exact h.attach hpc rfl (.inl ⟨rfl, hmem⟩) rfl rfl rfl
    · cases hs
      exact h.attach hpc rfl (.inr rfl) rfl rfl rfl
  | attachTo w c => exact h.attachTo hpc hs
  | attachCheck w c =>
    simp only [WaitSets.next] at hs
    split at hs
    · cases hs
      exact h.move hpc rfl (by simp) (apply_update_of_eq WaitSetImpl.entries rfl) (fun _ ↦ rfl)
        (by simp) (by simp)
    · contradiction
  | detach w c =>
    simp only [WaitSets.next] at hs
    split at hs
    · cases hs
      exact h.detach hpc
    · contradiction
  | detachFrom w c => exact h.detachFrom hpc hs
  | wait w timed =>
    simp only [WaitSets.next, fill] at hs
    split_ifs at hs
    · cases hs
      exact h.move hpc rfl (by simp) (fun _ ↦ rfl) (fun _ ↦ rfl) (by simp) (by simp)
    · cases hs
      exact h.move hpc rfl (by simp [WaitSetPc.edits]) (apply_update_of_eq WaitSetImpl.entries rfl)
        (fun _ ↦ rfl) (by simp) (by simp)
  | filling w rest active timed last =>
    cases rest with
    | nil =>
      simp only [WaitSets.next, filled] at hs
      split_ifs at hs
      · cases hs
        exact h.move hpc rfl (by simp) (apply_update_of_eq WaitSetImpl.entries rfl) (fun _ ↦ rfl)
          (by simp) (by simp)
      · cases hs
        exact h.move hpc rfl (by simp) (apply_update_of_eq WaitSetImpl.entries rfl) (fun _ ↦ rfl)
          (by simp) (by simp)
      · cases hs
        exact h.move hpc rfl (by simp [WaitSetPc.edits])
          (apply_update_of_eq WaitSetImpl.entries rfl) (fun _ ↦ rfl) (by simp) (by simp)
    | cons c rest =>
      cases hs
      exact h.move hpc rfl (by simp [WaitSetPc.edits]) (fun _ ↦ rfl) (fun _ ↦ rfl) (by simp)
        (by simp)
  | blocked w timed | timedOut w =>
    simp only [WaitSets.next, fill] at hs
    split_ifs at hs
    cases hs
    exact h.move hpc rfl (by simp [WaitSetPc.edits]) (apply_update_of_eq WaitSetImpl.entries rfl)
      (fun _ ↦ rfl) (by simp) (by simp)

/-- Every step that edits attachments one at a time. -/
theorem linked_step (s : WaitSets θ ω κ) (a : WaitSetAction θ ω κ) (s' : WaitSets θ ω κ)
    (h : Linked s) (hok : EditsAlone s a) (hs : step s a = some s') : Linked s' := by
  cases a with
  | call t call =>
    simp only [step] at hs
    split at hs
    · next hcall =>
      cases hs
      apply h.move hcall.1 rfl
      case hedits => exact fun e he ↦ .inr (hok e he)
      case hattach => simp
      case hdetach => cases call <;> simp [WaitSetCall.first]
      all_goals exact fun _ ↦ rfl
    · contradiction
  | next t =>
    obtain ⟨pc, hpc, hs⟩ := Option.bind_eq_some_iff.mp hs
    exact h.next hpc hs
  | wakeUp t =>
    simp only [step] at hs
    split at hs
    · next w timed hpc =>
      split at hs
      · cases hs
        exact h.move hpc rfl (by simp [WaitSetPc.edits])
          (apply_update_of_eq WaitSetImpl.entries rfl) (fun _ ↦ rfl) (by simp) (by simp)
      · contradiction
    · contradiction
  | timeout t =>
    simp only [step] at hs
    split at hs
    · next w hpc =>
      cases hs
      exact h.move hpc rfl (by simp [WaitSetPc.edits]) (apply_update_of_eq WaitSetImpl.entries rfl)
        (fun _ ↦ rfl) (by simp) (by simp)
    · contradiction

end WaitSets

end HzjDds.Rmw
