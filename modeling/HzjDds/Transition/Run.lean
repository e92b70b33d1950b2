import Mathlib.Data.List.Basic
import Mathlib.Data.List.Infix

/-!
# Runs of a partial step function

Library `Transition`. A program is a type of states, a type of actions and a partial step
function: `none` is an action that is not enabled in the state. A run is a list of actions;
a property of a whole run is asked of every state it passes through, a condition on a run
of every step it takes. The rules below turn facts about one step into facts about runs.
-/

namespace HzjDds.Transition

universe u v

variable {σ : Type u} {α : Type v}

/-- State after a list of actions, `none` as soon as one of them is not enabled. -/
def run (step : σ → α → Option σ) (s : σ) (as : List α) : Option σ := as.foldlM step s

/-- `P` holds in every state the actions pass through, the first and the last included. -/
def AllStates (step : σ → α → Option σ) (P : σ → Prop) (s : σ) (as : List α) : Prop :=
  ∀ bs t, bs <+: as → run step s bs = some t → P t

/-- Every action taken meets the condition `ok` in the state it is taken from. -/
def AllSteps (step : σ → α → Option σ) (ok : σ → α → Prop) (s : σ) (as : List α) : Prop :=
  ∀ bs a t t', bs ++ [a] <+: as → run step s bs = some t → step t a = some t' → ok t a

/-- Some list of actions leads from `s` to `t`. -/
def Reachable (step : σ → α → Option σ) (s t : σ) : Prop := ∃ as, run step s as = some t

variable {step : σ → α → Option σ} {P Q I : σ → Prop} {ok : σ → α → Prop} {s t : σ}

@[simp] theorem run_nil : run step s [] = some s := rfl

/-- A run takes its first action, then the others. -/
theorem run_cons (a : α) (as : List α) :
    run step s (a :: as) = (step s a).bind (fun t ↦ run step t as) := by
  simp [run, Option.bind_eq_bind]

/-- Concatenated actions run one list after the other. -/
theorem run_append (as bs : List α) :
    run step s (as ++ bs) = (run step s as).bind (fun t ↦ run step t bs) := by
  simp [run, List.foldlM_append, Option.bind_eq_bind]

/-- A run with one more action takes that action last. -/
theorem run_concat (as : List α) (a : α) :
    run step s (as ++ [a]) = (run step s as).bind (fun t ↦ step t a) := by
  rw [run_append]
  simp only [run_cons, run_nil, Option.bind_fun_some]

/-- A run with one more action splits at the state before that action. -/
theorem run_concat_eq_some {as : List α} {a : α} :
    run step s (as ++ [a]) = some t ↔ ∃ m, run step s as = some m ∧ step m a = some t := by
  rw [run_concat, Option.bind_eq_some_iff]

/-- A property kept by every step that meets the condition holds at the end of a run. -/
theorem invariant_of_steps (hI : I s)
    (hstep : ∀ t a t', I t → ok t a → step t a = some t' → I t') (as : List α)
    (hok : AllSteps step ok s as) (ht : run step s as = some t) : I t := by
  induction as using List.reverseRecOn generalizing t with
  | nil =>
    cases ht
    exact hI
  | append_singleton as a ih =>
    obtain ⟨m, hm, ha⟩ := run_concat_eq_some.mp ht
    have hIm : I m := ih (fun bs b x x' hb ↦ hok bs b x x' (hb.trans (List.prefix_append _ _))) hm
    exact hstep m a t hIm (hok as a m t (List.prefix_refl _) hm ha) ha

/-- The condition on a run is inherited by its prefixes. -/
theorem AllSteps.of_prefix {as bs : List α} (hok : AllSteps step ok s as) (h : bs <+: as) :
    AllSteps step ok s bs := fun cs a x x' hc ↦ hok cs a x x' (hc.trans h)

@[simp] theorem allSteps_nil : AllSteps step ok s [] := by
  intro bs a t t' h
  simp at h

/-- A run meets a condition when its first step does and the rest does after it. -/
theorem allSteps_cons {a : α} {as : List α} :
    AllSteps step ok s (a :: as) ↔
      ∀ t, step s a = some t → ok s a ∧ AllSteps step ok t as := by
  constructor
  · intro h t ht
    constructor
    · exact h [] a s t ⟨as, rfl⟩ rfl ht
    · intro bs b x x' hb hx hx'
      have hrun : run step s (a :: bs) = some x := by
        rw [run_cons, ht]
        exact hx
      exact h (a :: bs) b x x' (List.cons_prefix_cons.mpr ⟨rfl, hb⟩) hrun hx'
  · intro h bs b x x' hb hx hx'
    cases bs with
    | nil =>
      obtain ⟨rfl, -⟩ := List.cons_prefix_cons.mp hb
      cases hx
      exact (h x' hx').1
    | cons c bs =>
      obtain ⟨rfl, hrest⟩ := List.cons_prefix_cons.mp hb
      rw [run_cons] at hx
      obtain ⟨t, ht, hx⟩ := Option.bind_eq_some_iff.mp hx
      exact (h t ht).2 bs b x x' hrest hx hx'

/-- One more step in front that is known and meets the condition. -/
theorem AllSteps.cons {a : α} {as : List α} (ht : step s a = some t) (ha : ok s a)
    (has : AllSteps step ok t as) : AllSteps step ok s (a :: as) :=
  allSteps_cons.mpr fun _ ht' ↦ ⟨ha, Option.some.inj (ht.symm.trans ht') ▸ has⟩

/-- A run passes through its first state, then through those of the rest. -/
theorem allStates_cons {a : α} {as : List α} :
    AllStates step P s (a :: as) ↔ P s ∧ ∀ t, step s a = some t → AllStates step P t as := by
  constructor
  · intro h
    constructor
    · exact h [] s List.nil_prefix rfl
    · intro t ht bs u hbs hu
      apply h (a :: bs) u (List.cons_prefix_cons.mpr ⟨rfl, hbs⟩)
      rw [run_cons, ht]
      exact hu
  · rintro ⟨hs, h⟩ bs u hbs hu
    cases bs with
    | nil =>
      cases hu
      exact hs
    | cons b bs =>
      obtain ⟨rfl, hrest⟩ := List.cons_prefix_cons.mp hbs
      rw [run_cons] at hu
      obtain ⟨t, ht, hu⟩ := Option.bind_eq_some_iff.mp hu
      exact h t ht bs u hrest hu

private theorem allStates_nil : AllStates step P s [] ↔ P s := by
  constructor
  · exact fun h ↦ h [] s (List.prefix_refl _) rfl
  · rintro hs bs t hbs ht
    obtain rfl := List.prefix_nil.mp hbs
    cases ht
    exact hs

/-- A decidable property can be checked along a run. -/
instance decidableAllStates (step : σ → α → Option σ) (P : σ → Prop) [DecidablePred P] :
    ∀ s as, Decidable (AllStates step P s as)
  | _, [] => decidable_of_iff _ allStates_nil.symm
  | s, a :: as =>
    match h : step s a with
    | none => decidable_of_iff (P s) (by simp [allStates_cons, h])
    | some t =>
      have := decidableAllStates step P t as
      decidable_of_iff (P s ∧ AllStates step P t as) (by simp [allStates_cons, h])

/-- A decidable condition can be checked along a run. -/
instance decidableAllSteps (step : σ → α → Option σ) (ok : σ → α → Prop)
    [∀ s a, Decidable (ok s a)] : ∀ s as, Decidable (AllSteps step ok s as)
  | _, [] => isTrue allSteps_nil
  | s, a :: as =>
    match h : step s a with
    | none => isTrue (allSteps_cons.mpr (by simp [h]))
    | some t =>
      have := decidableAllSteps step ok t as
      decidable_of_iff (ok s a ∧ AllSteps step ok t as) (by simp [allSteps_cons, h])

/-- A condition on states that a whole run meets is met where each of its steps begins. -/
theorem AllStates.allSteps {as : List α} (h : AllStates step P s as) :
    AllSteps step (fun t _ ↦ P t) s as :=
  fun bs a t _ hbs ht _ ↦ h bs t ((List.prefix_append bs [a]).trans hbs) ht

/-- A condition on the actions alone is a condition on the run. -/
theorem allSteps_of_forall {allowed : α → Prop} {as : List α} (h : ∀ a ∈ as, allowed a) :
    AllSteps step (fun _ a ↦ allowed a) s as :=
  fun bs a _ _ hbs _ _ ↦ h a (hbs.subset (List.mem_append_right bs (List.mem_singleton_self a)))

/-- Two conditions on a run are one. -/
theorem AllSteps.and {ok' : σ → α → Prop} {as : List α} (h : AllSteps step ok s as)
    (h' : AllSteps step ok' s as) : AllSteps step (fun t a ↦ ok t a ∧ ok' t a) s as :=
  fun bs a t t' hbs ht hs ↦ ⟨h bs a t t' hbs ht hs, h' bs a t t' hbs ht hs⟩

/-- Invariant rule: an invariant that conditional steps keep, and that implies `P`, gives
`P` in every state of every run that meets the condition. -/
theorem AllSteps.allStates (hI : I s)
    (hstep : ∀ t a t', I t → ok t a → step t a = some t' → I t') (hP : ∀ t, I t → P t)
    {as : List α} (hok : AllSteps step ok s as) : AllStates step P s as := by
  intro bs t hbs ht
  exact hP t (invariant_of_steps hI hstep bs (hok.of_prefix hbs) ht)

/-- Unconditional invariant rule for reachable states. -/
theorem Reachable.invariant (hI : I s) (hstep : ∀ t a t', I t → step t a = some t' → I t')
    (h : Reachable step s t) : I t := by
  obtain ⟨as, ht⟩ := h
  have hok : AllSteps step (fun _ _ ↦ True) s as := fun _ _ _ _ _ _ _ ↦ trivial
  exact invariant_of_steps hI (fun t a t' ht _ ↦ hstep t a t' ht) as hok ht

/-- Exact rule: when a step out of a good state reaches a good state exactly if it meets
the condition, the good runs are exactly the runs that meet the condition. -/
theorem allStates_iff_allSteps (hI : I s) (hP : P s)
    (hstep : ∀ t a t', I t → step t a = some t' → I t')
    (hexact : ∀ t a t', I t → P t → step t a = some t' → (P t' ↔ ok t a)) (as : List α) :
    AllStates step P s as ↔ AllSteps step ok s as := by
  have hinv : ∀ bs t, run step s bs = some t → I t := fun bs t ht ↦
    Reachable.invariant hI hstep ⟨bs, ht⟩
  constructor
  · intro hall bs a t t' hbs ht ha
    have hpre : bs <+: as := (List.prefix_append bs [a]).trans hbs
    have hnext : run step s (bs ++ [a]) = some t' := run_concat_eq_some.mpr ⟨t, ht, ha⟩
    exact (hexact t a t' (hinv bs t ht) (hall bs t hpre ht) ha).mp (hall _ t' hbs hnext)
  · intro hok
    have hboth : ∀ t a t', I t ∧ P t → ok t a → step t a = some t' → I t' ∧ P t' := by
      rintro t a t' ⟨hIt, hPt⟩ ha hs
      exact ⟨hstep t a t' hIt hs, (hexact t a t' hIt hPt hs).mpr ha⟩
    exact hok.allStates ⟨hI, hP⟩ hboth fun t ht ↦ ht.2

/-- Latch rule: when a step ends in a good state exactly if it begins in one and meets the
condition, the runs that end in a good state are exactly those that meet the condition. -/
theorem final_iff_allSteps (hI : I s) (hP : P s)
    (hstep : ∀ t a t', I t → step t a = some t' → I t')
    (hlatch : ∀ t a t', I t → step t a = some t' → (P t' ↔ P t ∧ ok t a)) {as : List α}
    (ht : run step s as = some t) : P t ↔ AllSteps step ok s as := by
  induction as using List.reverseRecOn generalizing t with
  | nil =>
    cases ht
    exact iff_of_true hP allSteps_nil
  | append_singleton as a ih =>
    obtain ⟨m, hm, ha⟩ := run_concat_eq_some.mp ht
    have hIm : I m := Reachable.invariant hI hstep ⟨as, hm⟩
    rw [hlatch m a t hIm ha, ih hm]
    constructor
    · rintro ⟨hok, hlast⟩ bs b u u' hbs hu hu'
      rcases List.prefix_concat_iff.mp hbs with heq | hbefore
      · obtain ⟨rfl, hb⟩ := List.append_inj' heq rfl
        obtain rfl := List.singleton_inj.mp hb
        cases hm.symm.trans hu
        exact hlast
      · exact hok bs b u u' hbefore hu hu'
    · intro hok
      exact ⟨hok.of_prefix (List.prefix_append as [a]),
        hok as a m t (List.prefix_refl _) hm ha⟩

end HzjDds.Transition
