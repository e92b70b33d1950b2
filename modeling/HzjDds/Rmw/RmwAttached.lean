import HzjDds.Rmw.RmwWaits

/-!
# What a wait of `__rmw_wait` has attached

Library `Rmw`. Source: `vendor/rmw_fastrtps/rmw_fastrtps_shared_cpp/src/rmw_wait.cpp:195–284`. A
thread edits only the wait set of its own `__rmw_wait`, so no two calls edit one attachment at once,
as the wait sets require. While it waits, exactly the conditions of its entities are attached, and
when it returns it leaves nothing behind.
-/

namespace HzjDds.Rmw

open HzjDds.Cpp HzjDds.Transition

universe u v w

variable {θ : Type u} {ω : Type v} {κ : Type w}

/-! ## The wait set of a call -/

/-- What a call of a wait set or of a condition does. -/
inductive WaitSetKind where
  | change
  | attach
  | detach
  | wait
  deriving DecidableEq, Repr

namespace WaitSetPc

/-- The wait set that a call is made on. -/
def wait_set : WaitSetPc ω κ → Option ω
  | change _ _ | notify _ | waking _ _ => none
  | attach w _ | attachTo w _ | attachCheck w _ | detach w _ | detachFrom w _ | wait w _
  | filling w _ _ _ _ | blocked w _ | timedOut w => some w

/-- What a call does. -/
def kind : WaitSetPc ω κ → WaitSetKind
  | change _ _ | notify _ | waking _ _ => .change
  | attach _ _ | attachTo _ _ | attachCheck _ _ => .attach
  | detach _ _ | detachFrom _ _ => .detach
  | wait _ _ | filling _ _ _ _ _ | blocked _ _ | timedOut _ => .wait

private theorem wait_set_of_edits {pc : WaitSetPc ω κ} {w : ω} {c : κ} (h : pc.edits = some (w, c)) :
    pc.wait_set = some w := by
  cases pc <;> cases h <;> rfl

end WaitSetPc

namespace WaitSets

variable [DecidableEq θ] [DecidableEq ω] [DecidableEq κ]

/-- A call that goes on stays what it is. -/
theorem kind_next {s s' : WaitSets θ ω κ} {t : θ} {pc pc' : WaitSetPc ω κ}
    (hs : s.next t pc = some s') (hpc' : s'.calls t = some pc') :
    pc'.kind = pc.kind ∧ pc'.wait_set = pc.wait_set := by
  cases pc with
  | change c change =>
    obtain ⟨⟨changed, notify⟩, -, rfl⟩ := Option.map_eq_some_iff.mp hs
    cases notify <;> simp at hpc'
    subst hpc'
    exact ⟨rfl, rfl⟩
  | waking c rest =>
    cases rest with
    | nil =>
      cases hs
      simp at hpc'
    | cons w rest =>
      simp only [WaitSets.next] at hs
      split_ifs at hs
      cases hs
      simp at hpc'
      subst hpc'
      exact ⟨rfl, rfl⟩
  | filling w rest active timed last =>
    cases rest with
    | nil =>
      simp only [WaitSets.next, filled] at hs
      split_ifs at hs <;> cases hs <;> simp at hpc'
      subst hpc'
      exact ⟨rfl, rfl⟩
    | cons c rest =>
      cases hs
      simp at hpc'
      subst hpc'
      exact ⟨rfl, rfl⟩
  | _ =>
    simp only [WaitSets.next, attachCondition, detachCondition, fill] at hs
    split_ifs at hs <;> cases hs <;> simp at hpc' <;> subst hpc' <;> exact ⟨rfl, rfl⟩

/-- A call is at its first section once. -/
theorem later_next {s s' : WaitSets θ ω κ} {t : θ} {pc : WaitSetPc ω κ}
    (hs : s.next t pc = some s') (w : ω) (c : κ) :
    s'.calls t ≠ some (.attach w c) ∧ s'.calls t ≠ some (.detach w c) := by
  cases pc with
  | change c change =>
    obtain ⟨⟨changed, notify⟩, -, rfl⟩ := Option.map_eq_some_iff.mp hs
    cases notify <;> simp
  | waking c rest =>
    cases rest with
    | nil =>
      cases hs
      simp
    | cons x rest =>
      simp only [WaitSets.next] at hs
      split_ifs at hs
      cases hs
      simp
  | filling x rest active timed last =>
    cases rest with
    | nil =>
      simp only [WaitSets.next, filled] at hs
      split_ifs at hs <;> cases hs <;> simp
    | cons c rest =>
      cases hs
      simp
  | _ =>
    simp only [WaitSets.next, attachCondition, detachCondition, fill] at hs
    split_ifs at hs <;> cases hs <;> simp

/-- What is attached to a wait set stays so in a section that attaches or detaches nothing there. -/
theorem entries_next {s s' : WaitSets θ ω κ} {t : θ} {pc : WaitSetPc ω κ}
    (hs : s.next t pc = some s') {w : ω} (hattach : ∀ c, pc ≠ .attach w c)
    (hdetach : ∀ c, pc ≠ .detach w c) : (s'.wait_sets w).entries = (s.wait_sets w).entries := by
  cases pc with
  | change c change =>
    obtain ⟨-, -, rfl⟩ := Option.map_eq_some_iff.mp hs
    rfl
  | waking c rest =>
    cases rest with
    | nil =>
      cases hs
      rfl
    | cons x rest =>
      simp only [WaitSets.next] at hs
      split_ifs at hs
      cases hs
      exact apply_update_of_eq WaitSetImpl.entries (by rfl) w
  | filling x rest active timed last =>
    cases rest with
    | nil =>
      simp only [WaitSets.next, filled] at hs
      split_ifs at hs <;> cases hs <;> exact apply_update_of_eq WaitSetImpl.entries (by rfl) w
    | cons c rest =>
      cases hs
      rfl
  | attach x c | detach x c =>
    have hx : w ≠ x := by
      rintro rfl
      simp at hattach hdetach
    simp only [WaitSets.next, attachCondition, detachCondition] at hs
    split_ifs at hs <;> cases hs <;> simp [hx]
  | notify c | attachTo x c | detachFrom x c =>
    simp only [WaitSets.next] at hs
    split_ifs at hs
    cases hs
    rfl
  | wait x timed =>
    simp only [WaitSets.next, fill] at hs
    split_ifs at hs
    · cases hs
      rfl
    · cases hs
      exact apply_update_of_eq WaitSetImpl.entries (by rfl) w
  | attachCheck x c | blocked x timed | timedOut x =>
    simp only [WaitSets.next, fill] at hs
    split at hs
    · cases hs
      exact apply_update_of_eq WaitSetImpl.entries (by rfl) w
    · contradiction

private theorem mem_entries_attach {s s' : WaitSets θ ω κ} {t : θ} {w : ω} {c d : κ}
    (hs : s.next t (.attach w c) = some s') :
    d ∈ (s'.wait_sets w).entries ↔ d = c ∨ d ∈ (s.wait_sets w).entries := by
  simp only [WaitSets.next, attachCondition] at hs
  split_ifs at hs
  all_goals
    cases hs
    simp only [answer_wait_sets, goto_wait_sets, setWaitSet_wait_sets, Function.update_self]
    rw [mem_renew, or_comm]

private theorem mem_entries_detach {s s' : WaitSets θ ω κ} {t : θ} {w : ω} {c d : κ}
    (h : (s.wait_sets w).entries.Nodup) (hs : s.next t (.detach w c) = some s') :
    d ∈ (s'.wait_sets w).entries ↔ d ≠ c ∧ d ∈ (s.wait_sets w).entries := by
  simp only [WaitSets.next, detachCondition] at hs
  split_ifs at hs with hfree hmem
  · cases hs
    simp only [goto_wait_sets, setWaitSet_wait_sets, Function.update_self]
    exact mem_remove h
  · cases hs
    refine ⟨fun hd ↦ ⟨?_, hd⟩, And.right⟩
    rintro rfl
    exact hmem hd

end WaitSets

/-! ## One call of `__rmw_wait` -/

namespace RmwWait

/-- The call of the wait set that `__rmw_wait` makes at a place, and what is attached then. -/
def Attaches (r : RmwWait ω) (call : Option (WaitSetPc ω RmwCondition))
    (entries : List RmwCondition) : Prop :=
  match r.pc with
  | .attaching rest =>
    (∀ pc, call = some pc → pc.kind = .attach ∧ pc.wait_set = some r.wait_set) ∧
      ∀ c, c ∈ r.entities.attachedConditions ↔
        c ∈ rest ∨ c ∈ entries ∨ call = some (.attach r.wait_set c)
  | .waiting =>
    (∀ pc, call = some pc → pc.kind = .wait ∧ pc.wait_set = some r.wait_set) ∧
      ∀ c, c ∈ r.entities.attachedConditions ↔ c ∈ entries
  | .detaching rest =>
    (∀ pc, call = some pc → pc.kind = .detach ∧ pc.wait_set = some r.wait_set) ∧
      ∀ c ∈ entries, c ∈ rest ∨ call = some (.detach r.wait_set c)

/-- `__rmw_wait` makes its calls on its own wait set. -/
theorem Attaches.wait_set {r : RmwWait ω} {pc : WaitSetPc ω RmwCondition}
    {entries : List RmwCondition} (h : r.Attaches (some pc) entries) :
    pc.wait_set = some r.wait_set := by
  obtain ⟨w, entities, timed, rest | _ | rest⟩ := r <;> exact (h.1 pc rfl).2

private theorem attaches_begin (w : ω) (entities : WaitEntities) (timed : Bool) :
    Attaches ⟨w, entities, timed, .attaching entities.attachedConditions⟩ none [] := by
  constructor <;> simp

/-- The next call of the wait set. -/
theorem Attaches.call {r : RmwWait ω} {entries : List RmwCondition} (h : r.Attaches none entries)
    {call : WaitSetCall ω RmwCondition} {pc : RmwWaitPc} (hcall : r.nextCall = some (call, pc)) :
    Attaches { r with pc } (some call.first) entries := by
  obtain ⟨w, entities, timed, rest | _ | rest⟩ := r
  · cases rest with
    | nil =>
      cases hcall
      have hattached := h.2
      simp only [List.not_mem_nil, false_or, reduceCtorEq, or_false] at hattached
      constructor
      · rintro pc ⟨⟩
        exact ⟨rfl, rfl⟩
      · exact hattached
    | cons c rest =>
      cases hcall
      have hattached := h.2
      constructor
      · rintro pc ⟨⟩
        exact ⟨rfl, rfl⟩
      · intro d
        rw [hattached d]
        simp only [WaitSetCall.first, Option.some.injEq, WaitSetPc.attach.injEq, true_and]
        constructor
        · rintro (hd | hd | hd)
          · exact (List.mem_cons.mp hd).elim (fun hdc ↦ .inr (.inr hdc.symm)) .inl
          · exact .inr (.inl hd)
          · cases hd
        · rintro (hd | hd | rfl)
          · exact .inl (List.mem_cons_of_mem c hd)
          · exact .inr (.inl hd)
          · exact .inl List.mem_cons_self
  · have hattached := h.2
    simp only [nextCall] at hcall
    cases hconditions : entities.attachedConditions with
    | nil =>
      rw [hconditions] at hcall
      cases hcall
    | cons c rest =>
      rw [hconditions] at hcall
      cases hcall
      constructor
      · rintro pc ⟨⟩
        exact ⟨rfl, rfl⟩
      · intro d hd
        have hdc := (hattached d).mpr hd
        simp only [hconditions] at hdc
        simp only [WaitSetCall.first, Option.some.injEq, WaitSetPc.detach.injEq, true_and]
        exact (List.mem_cons.mp hdc).symm.imp_right Eq.symm
  · cases rest with
    | nil => cases hcall
    | cons c rest =>
      cases hcall
      have hattached := h.2
      constructor
      · rintro pc ⟨⟩
        exact ⟨rfl, rfl⟩
      · intro d hd
        have hdc : d ∈ c :: rest := (hattached d hd).resolve_right (by simp)
        simp only [WaitSetCall.first, Option.some.injEq, WaitSetPc.detach.injEq, true_and]
        exact (List.mem_cons.mp hdc).symm.imp_right Eq.symm

private theorem Attaches.entries_eq_nil {r : RmwWait ω} {entries : List RmwCondition}
    (h : r.Attaches none entries) (hcall : r.nextCall = none) : entries = [] := by
  refine List.eq_nil_iff_forall_not_mem.mpr fun d hd ↦ ?_
  obtain ⟨w, entities, timed, rest | _ | rest⟩ := r
  · cases rest <;> cases hcall
  · have hattached := (h.2 d).mpr hd
    simp only [nextCall] at hcall
    cases hconditions : entities.attachedConditions with
    | nil => simp [hconditions] at hattached
    | cons c rest =>
      rw [hconditions] at hcall
      cases hcall
  · cases rest with
    | nil => simpa using h.2 d hd
    | cons c rest => cases hcall

/-- While a wait goes on, nothing changes. -/
theorem Attaches.wait {r : RmwWait ω} {pc pc' : WaitSetPc ω RmwCondition}
    {entries : List RmwCondition} (h : r.Attaches (some pc) entries) (hkind : pc.kind = .wait)
    (hkind' : pc'.kind = .wait) (hset : pc'.wait_set = pc.wait_set) :
    r.Attaches (some pc') entries := by
  have hw := h.wait_set
  obtain ⟨w, entities, timed, rest | _ | rest⟩ := r
  · rw [(h.1 pc rfl).1] at hkind
    cases hkind
  · refine ⟨?_, h.2⟩
    rintro _ ⟨⟩
    exact ⟨hkind', hset.trans hw⟩
  · rw [(h.1 pc rfl).1] at hkind
    cases hkind

/-- While a call waits, the conditions of its entities are attached. -/
theorem Attaches.mem_of_wait {r : RmwWait ω} {pc : WaitSetPc ω RmwCondition}
    {entries : List RmwCondition} (h : r.Attaches (some pc) entries) (hkind : pc.kind = .wait)
    (c : RmwCondition) : c ∈ entries ↔ c ∈ r.entities.attachedConditions := by
  obtain ⟨w, entities, timed, rest | _ | rest⟩ := r
  · rw [(h.1 pc rfl).1] at hkind
    cases hkind
  · exact (h.2 c).symm
  · rw [(h.1 pc rfl).1] at hkind
    cases hkind

variable [DecidableEq θ] [DecidableEq ω]

/-- A section of a call of the wait set. -/
theorem Attaches.next {r : RmwWait ω} {s s' : WaitSets θ ω RmwCondition} {t : θ}
    {pc : WaitSetPc ω RmwCondition}
    (h : r.Attaches (some pc) (s.wait_sets r.wait_set).entries)
    (hnodup : (s.wait_sets r.wait_set).entries.Nodup) (hs : s.next t pc = some s') :
    r.Attaches (s'.calls t) (s'.wait_sets r.wait_set).entries := by
  obtain ⟨w, entities, timed, rpc⟩ := r
  have hkind : ∀ pc', s'.calls t = some pc' → pc'.kind = pc.kind ∧ pc'.wait_set = pc.wait_set :=
    fun pc' ↦ WaitSets.kind_next hs
  have hlater := WaitSets.later_next hs w
  have hentries := WaitSets.entries_next hs (w := w)
  cases rpc with
  | attaching rest =>
    obtain ⟨hcall, hattached⟩ := h
    obtain ⟨hk, hw⟩ := hcall pc rfl
    refine ⟨fun pc' hpc' ↦ by rw [(hkind pc' hpc').1, (hkind pc' hpc').2]; exact ⟨hk, hw⟩,
      fun c ↦ ?_⟩
    rw [hattached c]
    by_cases hattach : ∃ d, pc = .attach w d
    · obtain ⟨d, rfl⟩ := hattach
      have hmem := WaitSets.mem_entries_attach (d := c) hs
      refine or_congr_right ⟨?_, ?_⟩
      · rintro (hold | hnew)
        · exact .inl (hmem.mpr (.inr hold))
        · cases hnew
          exact .inl (hmem.mpr (.inl rfl))
      · rintro (hc | hcalls)
        · rcases hmem.mp hc with rfl | hold
          · exact .inr rfl
          · exact .inl hold
        · exact absurd hcalls (hlater c).1
    · push Not at hattach
      have hsame := hentries hattach (by rintro d rfl; cases hk)
      have hnow : some pc ≠ some (.attach w c) := fun hpc ↦ hattach c (Option.some.inj hpc)
      rw [hsame, iff_false_intro hnow, iff_false_intro (hlater c).1]
  | waiting =>
    obtain ⟨hcall, hattached⟩ := h
    obtain ⟨hk, hw⟩ := hcall pc rfl
    refine ⟨fun pc' hpc' ↦ by rw [(hkind pc' hpc').1, (hkind pc' hpc').2]; exact ⟨hk, hw⟩, ?_⟩
    have hsame := hentries (by rintro c rfl; cases hk) (by rintro c rfl; cases hk)
    simpa only [hsame] using hattached
  | detaching rest =>
    obtain ⟨hcall, hattached⟩ := h
    obtain ⟨hk, hw⟩ := hcall pc rfl
    refine ⟨fun pc' hpc' ↦ by rw [(hkind pc' hpc').1, (hkind pc' hpc').2]; exact ⟨hk, hw⟩,
      fun c hc ↦ ?_⟩
    by_cases hdetach : ∃ d, pc = .detach w d
    · obtain ⟨d, rfl⟩ := hdetach
      obtain ⟨hne, hmem⟩ := (WaitSets.mem_entries_detach hnodup hs).mp hc
      refine .inl ((hattached c hmem).resolve_right ?_)
      rintro ⟨⟩
      exact hne rfl
    · push Not at hdetach
      have hsame := hentries (by rintro d rfl; cases hk) hdetach
      rw [hsame] at hc
      exact .inl ((hattached c hc).resolve_right fun hpc ↦ hdetach c (Option.some.inj hpc))

end RmwWait

/-! ## All calls -/

namespace RmwWaits

/-- A wait set is used by one `__rmw_wait` at a time and by nobody else; one that is not used has
nothing attached. -/
structure Owned (s : RmwWaits θ ω) : Prop where
  own : ∀ t u r r', s.waits t = some r → s.waits u = some r' → r.wait_set = r'.wait_set → t = u
  attaches : ∀ t r, s.waits t = some r →
    r.Attaches (s.sets.calls t) (s.sets.wait_sets r.wait_set).entries
  others : ∀ t pc, s.waits t = none → s.sets.calls t = some pc → pc.wait_set = none
  free : ∀ w, (∀ t r, s.waits t = some r → r.wait_set ≠ w) → (s.sets.wait_sets w).entries = []

/-- A call on a wait set is made by the `__rmw_wait` that uses it. -/
theorem Owned.uses {s : RmwWaits θ ω} (h : Owned s) {t : θ} {pc : WaitSetPc ω RmwCondition} {w : ω}
    (hpc : s.sets.calls t = some pc) (hw : pc.wait_set = some w) :
    ∃ r, s.waits t = some r ∧ r.wait_set = w := by
  cases hwait : s.waits t with
  | none =>
    rw [h.others t pc hwait hpc] at hw
    cases hw
  | some r =>
    have hattaches := h.attaches t r hwait
    rw [hpc] at hattaches
    exact ⟨r, rfl, Option.some.inj (hattaches.wait_set.symm.trans hw)⟩

variable [DecidableEq θ] [DecidableEq ω]

omit [DecidableEq ω] in
/-- A thread goes on with a call, or begins one, on the wait set of its `__rmw_wait`. -/
theorem Owned.move {s s' : RmwWaits θ ω} (h : Owned s) {t : θ} {wait : Option (RmwWait ω)}
    (hwaits : s'.waits = Function.update s.waits t wait)
    (hsame : wait.map RmwWait.wait_set = (s.waits t).map RmwWait.wait_set)
    (hothers : ∀ u, u ≠ t → s'.sets.calls u = s.sets.calls u)
    (hentries : ∀ w, (s.waits t).map RmwWait.wait_set ≠ some w →
      (s'.sets.wait_sets w).entries = (s.sets.wait_sets w).entries)
    (hattaches : ∀ r, wait = some r →
      r.Attaches (s'.sets.calls t) (s'.sets.wait_sets r.wait_set).entries)
    (hchanges : wait = none → ∀ pc, s'.sets.calls t = some pc → pc.wait_set = none) :
    Owned s' := by
  have hbefore : ∀ u r, s'.waits u = some r →
      ∃ r', s.waits u = some r' ∧ r'.wait_set = r.wait_set := by
    intro u r hu
    rw [hwaits, Function.update_apply] at hu
    split at hu
    · next hut =>
      rw [hu] at hsame
      obtain ⟨r', hr', hw⟩ := Option.map_eq_some_iff.mp hsame.symm
      exact ⟨r', by rw [hut, hr'], hw⟩
    · exact ⟨r, hu, rfl⟩
  have hafter : ∀ u r, s.waits u = some r →
      ∃ r', s'.waits u = some r' ∧ r'.wait_set = r.wait_set := by
    intro u r hu
    rw [hwaits, Function.update_apply]
    split
    · next hut =>
      rw [← hut, hu] at hsame
      exact Option.map_eq_some_iff.mp hsame
    · exact ⟨r, hu, rfl⟩
  constructor
  case own =>
    intro u v r r' hu hv hset
    obtain ⟨q, hq, hqr⟩ := hbefore u r hu
    obtain ⟨q', hq', hqr'⟩ := hbefore v r' hv
    exact h.own u v q q' hq hq' (by rw [hqr, hqr', hset])
  case attaches =>
    intro u r hu
    by_cases hut : u = t
    · subst hut
      rw [hwaits, Function.update_self] at hu
      exact hattaches r hu
    · rw [hwaits, Function.update_of_ne hut] at hu
      have hne : (s.waits t).map RmwWait.wait_set ≠ some r.wait_set := by
        intro hset
        obtain ⟨q, hq, hqr⟩ := Option.map_eq_some_iff.mp hset
        exact hut (h.own u t r q hu hq hqr.symm)
      rw [hothers u hut, hentries r.wait_set hne]
      exact h.attaches u r hu
  case others =>
    intro u pc hu hpc
    by_cases hut : u = t
    · subst hut
      rw [hwaits, Function.update_self] at hu
      exact hchanges hu pc hpc
    · rw [hwaits, Function.update_of_ne hut] at hu
      rw [hothers u hut] at hpc
      exact h.others u pc hu hpc
  case free =>
    intro w hw
    have hfree : ∀ u r, s.waits u = some r → r.wait_set ≠ w := by
      intro u r hu
      obtain ⟨r', hr', hset⟩ := hafter u r hu
      exact hset ▸ hw u r' hr'
    have hne : (s.waits t).map RmwWait.wait_set ≠ some w := by
      intro hset
      obtain ⟨q, hq, hqr⟩ := Option.map_eq_some_iff.mp hset
      exact hfree t q hq hqr
    rw [hentries w hne]
    exact h.free w hfree

omit [DecidableEq ω] in
/-- `__rmw_wait` is called. -/
theorem Owned.begin {s : RmwWaits θ ω} (h : Owned s) {t : θ} (hwait : s.waits t = none)
    (hcall : s.sets.calls t = none) {w : ω} (hw : ∀ u r, s.waits u = some r → r.wait_set ≠ w)
    (entities : WaitEntities) (timed : Bool) :
    Owned (s.setWait t (some ⟨w, entities, timed, .attaching entities.attachedConditions⟩)) := by
  constructor
  case own =>
    intro u v r r' hu hv hset
    rw [setWait_waits] at hu hv
    rcases eq_or_ne u t with rfl | hut
    · rcases eq_or_ne v u with rfl | hvu
      · rfl
      · rw [Function.update_self] at hu
        rw [Function.update_of_ne hvu] at hv
        cases hu
        exact absurd hset.symm (hw v r' hv)
    · rw [Function.update_of_ne hut] at hu
      rcases eq_or_ne v t with rfl | hvt
      · rw [Function.update_self] at hv
        cases hv
        exact absurd hset (hw u r hu)
      · rw [Function.update_of_ne hvt] at hv
        exact h.own u v r r' hu hv hset
  case attaches =>
    intro u r hu
    simp only [setWait_waits, Function.update_apply] at hu
    split at hu
    · next hut =>
      cases hu
      simp only [setWait_sets, hut, hcall, h.free w hw]
      exact RmwWait.attaches_begin w entities timed
    · exact h.attaches u r hu
  case others =>
    intro u pc hu hpc
    simp only [setWait_waits, Function.update_apply] at hu
    split at hu
    · cases hu
    · exact h.others u pc hu hpc
  case free =>
    intro x hx
    refine h.free x fun u r hu ↦ ?_
    have hut : u ≠ t := by
      rintro rfl
      rw [hwait] at hu
      cases hu
    exact hx u r (by simp [hut, hu])

omit [DecidableEq ω] in
/-- `__rmw_wait` returns. -/
theorem Owned.return {s : RmwWaits θ ω} (h : Owned s) {t : θ} {r : RmwWait ω}
    (hwait : s.waits t = some r) (hcall : s.sets.calls t = none) (hover : r.nextCall = none) :
    Owned (s.setWait t none) := by
  have hgone : (s.sets.wait_sets r.wait_set).entries = [] := by
    have hattaches := h.attaches t r hwait
    rw [hcall] at hattaches
    exact hattaches.entries_eq_nil hover
  constructor
  case own =>
    intro u v q q' hu hv
    obtain ⟨-, hu⟩ := ne_and_eq_of_update_eq hu (by simp)
    obtain ⟨-, hv⟩ := ne_and_eq_of_update_eq hv (by simp)
    exact h.own u v q q' hu hv
  case attaches =>
    intro u q hu
    simp only [setWait_waits, Function.update_apply] at hu
    split at hu
    · cases hu
    · exact h.attaches u q hu
  case others =>
    intro u pc hu hpc
    simp only [setWait_waits, Function.update_apply] at hu
    split at hu
    · next hut =>
      rw [hut, setWait_sets, hcall] at hpc
      cases hpc
    · exact h.others u pc hu hpc
  case free =>
    intro x hx
    by_cases hset : r.wait_set = x
    · rw [← hset]
      exact hgone
    · refine h.free x fun u q hu ↦ ?_
      by_cases hut : u = t
      · subst hut
        cases hwait.symm.trans hu
        exact hset
      · exact hx u q (by simp [hut, hu])

/-- A thread goes on with a call of a wait set. -/
theorem Owned.next {s : RmwWaits θ ω} (h : Owned s) (hlinked : s.sets.Linked) {t : θ}
    {pc : WaitSetPc ω RmwCondition} (hpc : s.sets.calls t = some pc)
    {sets : WaitSets θ ω RmwCondition} (hs : s.sets.next t pc = some sets) :
    Owned { s with sets } := by
  have hwaits : ({ s with sets } : RmwWaits θ ω).waits = Function.update s.waits t (s.waits t) :=
    (Function.update_eq_self ..).symm
  apply h.move hwaits rfl
  case hothers => exact fun u hu ↦ WaitSets.calls_next hs hu
  case hentries =>
    intro w hw
    have hne : pc.wait_set ≠ some w := by
      intro hset
      obtain ⟨r, hr, hrw⟩ := h.uses hpc hset
      rw [hr] at hw
      exact hw (congrArg some hrw)
    exact WaitSets.entries_next hs (by rintro c rfl; exact hne rfl) (by rintro c rfl; exact hne rfl)
  case hattaches =>
    intro r hr
    have hattaches := h.attaches t r hr
    rw [hpc] at hattaches
    exact hattaches.next (hlinked.nodup_entries _) hs
  case hchanges =>
    intro hnone pc' hpc'
    rw [(WaitSets.kind_next hs hpc').2]
    exact h.others t pc hnone hpc

omit [DecidableEq ω] in
/-- A sleeping thread wakes up or finds its timeout over. -/
theorem Owned.leaveSleep {s : RmwWaits θ ω} (h : Owned s) {t : θ} {pc pc' : WaitSetPc ω RmwCondition}
    (hpc : s.sets.calls t = some pc) {sets : WaitSets θ ω RmwCondition}
    (hcalls : sets.calls = Function.update s.sets.calls t (some pc'))
    (hentries : ∀ w, (sets.wait_sets w).entries = (s.sets.wait_sets w).entries)
    (hkind : pc.kind = .wait) (hkind' : pc'.kind = .wait) (hset : pc'.wait_set = pc.wait_set) :
    Owned { s with sets } := by
  have hwaits : ({ s with sets } : RmwWaits θ ω).waits = Function.update s.waits t (s.waits t) :=
    (Function.update_eq_self ..).symm
  apply h.move hwaits rfl
  case hothers => exact fun u hu ↦ by simp [hcalls, hu]
  case hentries => exact fun w _ ↦ hentries w
  case hattaches =>
    intro r hr
    have hattaches := h.attaches t r hr
    simp only [hpc] at hattaches
    simp only [hcalls, Function.update_self, hentries]
    exact hattaches.wait hkind hkind' hset
  case hchanges =>
    intro hnone pc'' hpc''
    simp only [hcalls, Function.update_self, Option.some.injEq] at hpc''
    rw [← hpc'', hset]
    exact h.others t pc hnone hpc

omit [DecidableEq ω] in
/-- A call of a wait set or of a condition begins. -/
theorem Owned.call {s : RmwWaits θ ω} (h : Owned s) {t : θ} (call : WaitSetCall ω RmwCondition)
    {wait : Option (RmwWait ω)}
    (hsame : wait.map RmwWait.wait_set = (s.waits t).map RmwWait.wait_set)
    (hattaches : ∀ r, wait = some r →
      r.Attaches (some call.first) (s.sets.wait_sets r.wait_set).entries)
    (hchanges : wait = none → call.first.wait_set = none) :
    Owned ⟨s.sets.goto t (some call.first), Function.update s.waits t wait⟩ := by
  apply h.move rfl hsame
  case hothers => exact fun u hu ↦ by simp [hu]
  case hentries => exact fun _ _ ↦ rfl
  case hattaches => simpa using hattaches
  case hchanges =>
    intro hnone pc hpc
    simp only [WaitSets.goto_calls, Function.update_self, Option.some.injEq] at hpc
    rw [← hpc]
    exact hchanges hnone

/-- The state of the wait sets, with everything that is known of it. -/
structure Sets (s : RmwWaits θ ω) (sets : WaitSets θ ω RmwCondition) : Prop where
  sets_eq : s.sets = sets
  owned : Owned s
  linked : s.sets.Linked

omit [DecidableEq θ] [DecidableEq ω] in
private theorem Owned.editsAlone {s : RmwWaits θ ω} (h : Owned s) {t : θ} (hcall : s.sets.calls t = none)
    {call : WaitSetCall ω RmwCondition}
    (hset : ∀ w, call.first.wait_set = some w → ∃ r, s.waits t = some r ∧ r.wait_set = w) :
    WaitSets.EditsAlone s.sets (.call t call) := by
  rintro ⟨w, c⟩ hedits u hu
  obtain ⟨r, hr, hrw⟩ := hset w (WaitSetPc.wait_set_of_edits hedits)
  obtain ⟨pc, hpc, hpcedits⟩ := Option.bind_eq_some_iff.mp hu
  obtain ⟨r', hr', hrw'⟩ := h.uses hpc (WaitSetPc.wait_set_of_edits hpcedits)
  have htu := h.own t u r r' hr hr' (hrw.trans hrw'.symm)
  rw [← htu, hcall] at hpc
  cases hpc

/-- The calls of `__rmw_wait` are calls of the wait sets that edit attachments one at a time. -/
theorem simulates_waitSets : Simulates (step (θ := θ) (ω := ω)) WaitsAlone WaitSets.step
    WaitSets.EditsAlone Sets emits := by
  rintro s a s' _ ⟨rfl, howned, hlinked⟩ hok hs
  -- a step that is one step of the wait sets
  have hone : ∀ b sets, s.sets.step b = some sets → WaitSets.EditsAlone s.sets b →
      emits s a = [b] → s'.sets = sets → Owned s' → ∃ t', run WaitSets.step s.sets (emits s a) =
        some t' ∧ AllSteps WaitSets.step WaitSets.EditsAlone s.sets (emits s a) ∧ Sets s' t' := by
    rintro b sets hb halone hemits rfl hs'
    refine ⟨s'.sets, ?_, ?_, rfl, hs', WaitSets.linked_step s.sets b _ hlinked halone hb⟩
    · simp [hemits, run_cons, hb]
    · rw [hemits]
      exact allSteps_cons.mpr fun _ _ ↦ ⟨halone, allSteps_nil⟩
  cases a with
  | rmw_wait t w entities timed =>
    simp only [step] at hs
    split_ifs at hs with hidle
    cases hs
    exact ⟨s.sets, rfl, allSteps_nil, rfl, howned.begin hidle.1 hidle.2 hok entities timed, hlinked⟩
  | change t c change =>
    simp only [step] at hs
    split_ifs at hs with hwait
    obtain ⟨sets, hsets, rfl⟩ := Option.map_eq_some_iff.mp hs
    refine hone _ sets hsets ?_ rfl rfl ?_
    · rintro e ⟨⟩
    · simp only [WaitSets.step] at hsets
      split_ifs at hsets with hcall
      cases hsets
      have hnone : (none : Option (RmwWait ω)).map RmwWait.wait_set =
          (s.waits t).map RmwWait.wait_set := by rw [hwait]
      have howned' := howned.call (.change c change) hnone (by simp) fun _ ↦ rfl
      rwa [← hwait, Function.update_eq_self] at howned'
  | next t =>
    simp only [step] at hs
    split_ifs at hs with hcall
    · obtain ⟨r, hr, hs⟩ := Option.bind_eq_some_iff.mp hs
      cases hnext : r.nextCall with
      | none =>
        rw [hnext] at hs
        cases hs
        have hemits : emits s (.next t) = [] := by simp [emits, hcall, hr, hnext]
        refine ⟨s.sets, ?_, ?_, rfl, howned.return hr hcall hnext, hlinked⟩
        · rw [hemits]
          rfl
        · rw [hemits]
          exact allSteps_nil
      | some next =>
        obtain ⟨call, pc⟩ := next
        rw [hnext] at hs
        obtain ⟨sets, hsets, rfl⟩ := Option.map_eq_some_iff.mp hs
        have hattaches := howned.attaches t r hr
        rw [hcall] at hattaches
        have hcall' := hattaches.call hnext
        refine hone (.call t call) sets hsets ?_ ?_ rfl ?_
        · exact howned.editsAlone hcall fun w hw ↦
            ⟨r, hr, Option.some.inj (hcall'.wait_set.symm.trans hw)⟩
        · simp [emits, hcall, hr, hnext]
        · simp only [setWait_sets, WaitSets.step] at hsets
          split_ifs at hsets
          cases hsets
          refine howned.call call (by simp [hr]) ?_ (by simp)
          rintro r' ⟨⟩
          exact hcall'
    · obtain ⟨sets, hsets, rfl⟩ := Option.map_eq_some_iff.mp hs
      obtain ⟨pc, hpc, hnext⟩ := Option.bind_eq_some_iff.mp hsets
      exact hone (.next t) sets hsets trivial (by simp [emits, hcall]) rfl
        (howned.next hlinked hpc hnext)
  | wakeUp t =>
    obtain ⟨sets, hsets, rfl⟩ := Option.map_eq_some_iff.mp hs
    refine hone (.wakeUp t) sets hsets trivial rfl rfl ?_
    simp only [WaitSets.step] at hsets
    split at hsets
    · next w timed hpc =>
      split_ifs at hsets
      cases hsets
      exact howned.leaveSleep hpc rfl (apply_update_of_eq WaitSetImpl.entries rfl) rfl rfl rfl
    · contradiction
  | timeout t =>
    obtain ⟨sets, hsets, rfl⟩ := Option.map_eq_some_iff.mp hs
    refine hone (.timeout t) sets hsets trivial rfl rfl ?_
    simp only [WaitSets.step] at hsets
    split at hsets
    · next w hpc =>
      cases hsets
      exact howned.leaveSleep hpc rfl (apply_update_of_eq WaitSetImpl.entries rfl) rfl rfl rfl
    · contradiction

/-- Every reachable state is one that the wait sets can reach by themselves. -/
theorem sets_run {conditions : RmwCondition → Condition} {as : List (RmwWaitsAction θ ω)}
    {s : RmwWaits θ ω} (hok : AllSteps step WaitsAlone { sets := { conditions } } as)
    (hs : run step { sets := { conditions } } as = some s) :
    s.sets.Orderly ∧ s.sets.Told ∧ Owned s := by
  have hinit : Sets ({ sets := { conditions } } : RmwWaits θ ω) { conditions } :=
    ⟨rfl, by constructor <;> simp, (WaitSets.orderly_init conditions).linked⟩
  obtain ⟨sets, hsets, halone, hs'⟩ := simulates_waitSets.run hinit hok hs
  rw [hs'.sets_eq]
  exact ⟨WaitSets.orderly_run halone hsets, WaitSets.told_run halone hsets, hs'.owned⟩

/-- However the calls of `__rmw_wait` interleave with one another and with changes of the
conditions, each on a wait set of its own: a wait set that no call uses is as it was made, with
nothing attached to it and unknown to all notifiers, and a call that waits has attached exactly the
conditions of its entities. -/
theorem rmwWait_attached {conditions : RmwCondition → Condition} {as : List (RmwWaitsAction θ ω)}
    {s : RmwWaits θ ω} (hok : AllSteps step WaitsAlone { sets := { conditions } } as)
    (hs : run step { sets := { conditions } } as = some s) :
    (∀ w, (∀ t r, s.waits t = some r → r.wait_set ≠ w) →
      (s.sets.wait_sets w).entries = [] ∧ ∀ c, w ∉ (s.sets.notifiers c).entries) ∧
    ∀ t pc w, s.sets.calls t = some pc → pc.kind = .wait → pc.wait_set = some w →
      ∃ r, s.waits t = some r ∧ r.wait_set = w ∧ (s.sets.wait_sets w).entries.Nodup ∧
        ∀ c, c ∈ (s.sets.wait_sets w).entries ↔ c ∈ r.entities.attachedConditions := by
  obtain ⟨horderly, htold, howned⟩ := sets_run hok hs
  constructor
  · intro w hw
    have hfree := howned.free w hw
    refine ⟨hfree, fun c hc ↦ ?_⟩
    rcases htold.told w c hc with hentry | ⟨t, ht⟩
    · rw [hfree] at hentry
      exact List.not_mem_nil hentry
    · obtain ⟨r, hr, hrw⟩ := howned.uses ht rfl
      exact hw t r hr hrw
  · intro t pc w hpc hkind hset
    obtain ⟨r, hr, rfl⟩ := howned.uses hpc hset
    have hattaches := howned.attaches t r hr
    rw [hpc] at hattaches
    exact ⟨r, hr, rfl, horderly.linked.nodup_entries _, hattaches.mem_of_wait hkind⟩

/-- Guard conditions, none of them triggered. -/
def guardInit : RmwWaits Bool Unit := { sets := { conditions := fun _ ↦ .guard false } }

/-- A thread waits for a guard condition, another one triggers it. -/
def guardRun : List (RmwWaitsAction Bool Unit) :=
  [.rmw_wait true () { guard_conditions := some [0], listeners := .subscription } false,
    .next true, .next true, .next true, .next true, .next true, .next true, .next true, .next true,
    .change false (.guard 0) (.setTriggerValue true), .next false]

/-- One call waits. -/
theorem waitsAlone_guardRun : AllSteps step WaitsAlone guardInit guardRun := by decide

/-- `rmwWait_attached` while a thread waits for the guard condition. -/
theorem rmwWait_attached_guardRun : ∃ s, run step guardInit guardRun = some s ∧
    s.sets.calls true = some (.blocked () false) ∧
    ((∀ w, (∀ t r, s.waits t = some r → r.wait_set ≠ w) →
      (s.sets.wait_sets w).entries = [] ∧ ∀ c, w ∉ (s.sets.notifiers c).entries) ∧
    ∀ t pc w, s.sets.calls t = some pc → pc.kind = .wait → pc.wait_set = some w →
      ∃ r, s.waits t = some r ∧ r.wait_set = w ∧ (s.sets.wait_sets w).entries.Nodup ∧
        ∀ c, c ∈ (s.sets.wait_sets w).entries ↔ c ∈ r.entities.attachedConditions) :=
  ⟨_, rfl, rfl, rmwWait_attached waitsAlone_guardRun rfl⟩

end RmwWaits

end HzjDds.Rmw
