import HzjDds.Transition.Callers
import HzjDds.Transition.Run
import Mathlib.Data.List.Count
import Mathlib.Data.List.Nodup

/-!
# Discovery based `subscribe_all`

Library `PubSub`. Source: `spec.py:147–178`. Discovery callbacks run on threads of their own and
subscribe to the topics they are called with, while one thread calls `unsubscribe_all`. Every
subscription is numbered in the order in which it was made.
-/

namespace HzjDds.PubSub

open HzjDds.Transition

universe u v

/-- Next statement of `on_new_topic` (`spec.py:164–167`). -/
inductive NewTopicPc where
  | subscribe
  | acquire (unsub : ℕ)
  | append (unsub : ℕ)
  | release
  deriving DecidableEq, Repr

/-- Next statement of `unsubscribe_all` (`spec.py:171–176`). `raised` is a call that was left by an
exception of one of the functions it calls. -/
inductive UnsubscribeAllPc where
  | uncalled
  | discoveryUnsub
  | acquire
  | copy
  | release
  | cancel (rest : List ℕ)
  | returned
  | raised
  deriving DecidableEq, Repr

/-- A `subscribe_all` that has returned its function. `made` are the topics of its subscriptions,
`cancelled` the subscriptions whose function has been called, `copied` is the local variable `subs`
of `unsubscribe_all`. -/
structure SubscribeAll (τ : Type u) (α : Type v) where
  discovering : Bool := true
  locked : Bool := false
  subscriptions : List ℕ := []
  callbacks : τ → Option (α × NewTopicPc) := fun _ ↦ none
  cleanup : UnsubscribeAllPc := .uncalled
  copied : Option (List ℕ) := none
  made : List α := []
  cancelled : List ℕ := []

/-- A thread begins a discovery callback or executes its next statement, or the caller of
`unsubscribe_all` does. `raises` says that the function called in the statement raises. -/
inductive SubscribeAllAction (τ : Type u) (α : Type v) where
  | discover (thread : τ) (topic : α)
  | callback (thread : τ) (raises : Bool)
  | cleanup (raises : Bool)
  deriving DecidableEq, Repr

variable {τ : Type u} {α : Type v} [DecidableEq τ]

namespace SubscribeAll

/-- The callback of a thread goes on at another statement, or is over. -/
def goto (s : SubscribeAll τ α) (thread : τ) (place : Option (α × NewTopicPc)) :
    SubscribeAll τ α :=
  { s with callbacks := Function.update s.callbacks thread place }

/-- Next statement of `on_new_topic`. -/
def callback (s : SubscribeAll τ α) (thread : τ) (topic : α) (raises : Bool) :
    NewTopicPc → Option (SubscribeAll τ α)
  | .subscribe =>
    if raises then some (s.goto thread none)
    else some { s.goto thread (some (topic, .acquire s.made.length)) with made := s.made ++ [topic] }
  | .acquire unsub =>
    if s.locked then none
    else some { s.goto thread (some (topic, .append unsub)) with locked := true }
  | .append unsub => some { s.goto thread (some (topic, .release)) with
      subscriptions := s.subscriptions ++ [unsub] }
  | .release => some { s.goto thread none with locked := false }

omit [DecidableEq τ] in
/-- Next statement of `unsubscribe_all`. -/
def unsubscribeAll (s : SubscribeAll τ α) (raises : Bool) : Option (SubscribeAll τ α) :=
  match s.cleanup with
  | .uncalled => some { s with cleanup := .discoveryUnsub }
  | .discoveryUnsub =>
    if raises then some { s with cleanup := .raised }
    else some { s with discovering := false, cleanup := .acquire }
  | .acquire => if s.locked then none else some { s with locked := true, cleanup := .copy }
  | .copy => some { s with copied := some s.subscriptions, cleanup := .release }
  | .release => some { s with locked := false, cleanup := .cancel (s.copied.getD []) }
  | .cancel [] => some { s with cleanup := .returned }
  | .cancel (unsub :: rest) => some { s with
      cancelled := s.cancelled ++ [unsub]
      cleanup := if raises then .raised else .cancel rest }
  | .returned => none
  | .raised => none

/-- One step. -/
def step (s : SubscribeAll τ α) : SubscribeAllAction τ α → Option (SubscribeAll τ α)
  | .discover thread topic =>
    if s.discovering && (s.callbacks thread).isNone then
      some (s.goto thread (some (topic, .subscribe)))
    else none
  | .callback thread raises =>
    match s.callbacks thread with
    | none => none
    | some (topic, pc) => s.callback thread topic raises pc
  | .cleanup raises => s.unsubscribeAll raises

/-- `unsubscribe_all` has returned, and no discovery callback is running. -/
def Done (s : SubscribeAll τ α) : Prop := s.cleanup = .returned ∧ ∀ thread, s.callbacks thread = none

/-- Every subscription has been cancelled, once. -/
def CleanedUp (s : SubscribeAll τ α) : Prop :=
  ∀ unsub < s.made.length, s.cancelled.count unsub = 1

/-- A callback adds its subscription to the list before `unsubscribe_all` copies the list. -/
def InTime (s : SubscribeAll τ α) : SubscribeAllAction τ α → Prop
  | .callback thread _ => ∀ topic unsub, s.callbacks thread = some (topic, .append unsub) →
      s.copied = none
  | _ => True

/-- Nothing has been added to the list since it was copied. -/
def Complete (s : SubscribeAll τ α) : Prop := ∀ subs, s.copied = some subs → s.subscriptions = subs

/-- The subscription that a callback has made and not added to the list. -/
def pending? : NewTopicPc → Option ℕ
  | .acquire unsub => some unsub
  | .append unsub => some unsub
  | _ => none

/-- What `unsubscribe_all` has done when it is at a statement. -/
def Progress (s : SubscribeAll τ α) : UnsubscribeAllPc → Prop
  | .uncalled | .discoveryUnsub | .acquire | .copy => s.copied = none ∧ s.cancelled = []
  | .release => s.copied ≠ none ∧ s.cancelled = []
  | .cancel rest => s.copied = some (s.cancelled ++ rest)
  | .returned => s.copied = some s.cancelled
  | .raised => True

omit [DecidableEq τ] in
/-- The subscription that the callback of a thread has made and not added to the list. -/
def held (s : SubscribeAll τ α) (thread : τ) : Option ℕ :=
  (s.callbacks thread).bind fun place ↦ pending? place.2

/-- Every subscription is in the list, once, or a callback is about to add it. -/
structure Inv (s : SubscribeAll τ α) : Prop where
  nodup : s.subscriptions.Nodup
  listed : ∀ unsub ∈ s.subscriptions, unsub < s.made.length
  pending : ∀ thread unsub, s.held thread = some unsub →
    unsub < s.made.length ∧ unsub ∉ s.subscriptions
  distinct : ∀ thread other unsub, s.held thread = some unsub → s.held other = some unsub →
    thread = other
  all : ∀ unsub < s.made.length, unsub ∈ s.subscriptions ∨ ∃ thread, s.held thread = some unsub
  copied : ∀ subs, s.copied = some subs → subs <+: s.subscriptions
  progress : s.Progress s.cleanup

/-! ## What a step keeps -/

private theorem held_goto (s : SubscribeAll τ α) (thread other : τ) (place : Option (α × NewTopicPc)) :
    (s.goto thread place).held other =
      if other = thread then place.bind fun place ↦ pending? place.2 else s.held other := by
  by_cases h : other = thread
  · simp [held, goto, h]
  · simp [held, goto, h]

private theorem held_goto_of_eq {s : SubscribeAll τ α} {thread : τ} {place : Option (α × NewTopicPc)}
    (h : (place.bind fun place ↦ pending? place.2) = s.held thread) (other : τ) :
    (s.goto thread place).held other = s.held other := by
  rw [held_goto]
  split
  · next heq => rw [heq, h]
  · rfl

omit [DecidableEq τ] in
/-- A step that leaves the subscriptions and those who hold them alone. -/
theorem Inv.congr {s t : SubscribeAll τ α} (h : Inv s) (hsubs : t.subscriptions = s.subscriptions)
    (hmade : t.made = s.made) (hheld : ∀ thread, t.held thread = s.held thread)
    (hcopied : ∀ subs, t.copied = some subs → subs <+: s.subscriptions)
    (hprogress : t.Progress t.cleanup) : Inv t := by
  constructor
  case nodup =>
    rw [hsubs]
    exact h.nodup
  case listed =>
    rw [hsubs, hmade]
    exact h.listed
  case pending =>
    simp only [hsubs, hmade, hheld]
    exact h.pending
  case distinct =>
    simp only [hheld]
    exact h.distinct
  case all =>
    simp only [hsubs, hmade, hheld]
    exact h.all
  case copied =>
    rw [hsubs]
    exact hcopied
  case progress => exact hprogress

/-- A callback has made a subscription. -/
theorem Inv.subscribe {s : SubscribeAll τ α} (h : Inv s) {thread : τ} {topic : α}
    (hheld : s.held thread = none) :
    Inv { s.goto thread (some (topic, .acquire s.made.length)) with made := s.made ++ [topic] } := by
  have hheld' : ∀ other unsub, SubscribeAll.held
      { s.goto thread (some (topic, .acquire s.made.length)) with made := s.made ++ [topic] } other =
        some unsub ↔ (other = thread ∧ unsub = s.made.length) ∨ s.held other = some unsub := by
    intro other unsub
    refine (Eq.congr_left (held_goto s thread other _)).trans ?_
    by_cases hother : other = thread
    · subst hother
      simp [hheld, pending?, eq_comm]
    · simp [hother]
  constructor
  case nodup => exact h.nodup
  case listed =>
    intro unsub hunsub
    have hlt := h.listed unsub hunsub
    simp only [List.length_append, List.length_singleton]
    omega
  case pending =>
    intro other unsub hother
    rw [List.length_append, List.length_singleton]
    rcases (hheld' other unsub).mp hother with ⟨-, rfl⟩ | hold
    · exact ⟨Nat.lt_succ_self _, fun hmem ↦ (h.listed _ hmem).false⟩
    · obtain ⟨hlt, hout⟩ := h.pending other unsub hold
      exact ⟨hlt.trans (Nat.lt_succ_self _), hout⟩
  case distinct =>
    intro first second unsub hfirst hsecond
    rcases (hheld' first unsub).mp hfirst with ⟨rfl, hnew⟩ | hold
    · rcases (hheld' second unsub).mp hsecond with ⟨rfl, -⟩ | hold
      · rfl
      · have hlt := (h.pending second unsub hold).1
        omega
    · rcases (hheld' second unsub).mp hsecond with ⟨rfl, hnew⟩ | hold'
      · have hlt := (h.pending first unsub hold).1
        omega
      · exact h.distinct first second unsub hold hold'
  case all =>
    intro unsub hlt
    rw [List.length_append, List.length_singleton] at hlt
    rcases Nat.lt_succ_iff_lt_or_eq.mp hlt with hlt | rfl
    · rcases h.all unsub hlt with hmem | ⟨other, hother⟩
      · exact Or.inl hmem
      · exact Or.inr ⟨other, (hheld' other unsub).mpr (Or.inr hother)⟩
    · exact Or.inr ⟨thread, (hheld' thread _).mpr (Or.inl ⟨rfl, rfl⟩)⟩
  case copied => exact h.copied
  case progress => exact h.progress

/-- A callback has added its subscription to the list. -/
theorem Inv.append {s : SubscribeAll τ α} (h : Inv s) {thread : τ} {topic : α} {unsub : ℕ}
    (hheld : s.held thread = some unsub) :
    Inv { s.goto thread (some (topic, .release)) with
      subscriptions := s.subscriptions ++ [unsub] } := by
  obtain ⟨hlt, hout⟩ := h.pending thread unsub hheld
  have hheld' : ∀ other i, SubscribeAll.held { s.goto thread (some (topic, .release)) with
      subscriptions := s.subscriptions ++ [unsub] } other = some i ↔
        other ≠ thread ∧ s.held other = some i := by
    intro other i
    refine (Eq.congr_left (held_goto s thread other _)).trans ?_
    by_cases hother : other = thread
    · simp [hother, pending?]
    · simp [hother]
  constructor
  case nodup =>
    refine List.nodup_append.mpr ⟨h.nodup, List.pairwise_singleton .., ?_⟩
    rintro i hi j hj rfl
    obtain rfl := List.mem_singleton.mp hj
    exact hout hi
  case listed =>
    intro i hi
    rcases List.mem_append.mp hi with hi | hi
    · exact h.listed i hi
    · obtain rfl := List.mem_singleton.mp hi
      exact hlt
  case pending =>
    intro other i hother
    obtain ⟨hne, hold⟩ := (hheld' other i).mp hother
    obtain ⟨hi, hnot⟩ := h.pending other i hold
    refine ⟨hi, fun hmem ↦ ?_⟩
    rcases List.mem_append.mp hmem with hmem | hmem
    · exact hnot hmem
    · obtain rfl := List.mem_singleton.mp hmem
      exact hne (h.distinct other thread _ hold hheld)
  case distinct =>
    intro first second i hfirst hsecond
    exact h.distinct first second i ((hheld' first i).mp hfirst).2 ((hheld' second i).mp hsecond).2
  case all =>
    intro i hi
    rcases h.all i hi with hmem | ⟨other, hother⟩
    · exact Or.inl (List.mem_append_left _ hmem)
    · by_cases hne : other = thread
      · subst hne
        cases hheld.symm.trans hother
        exact Or.inl (List.mem_append_right _ (List.mem_singleton_self _))
      · exact Or.inr ⟨other, (hheld' other i).mpr ⟨hne, hother⟩⟩
  case copied => exact fun subs hsubs ↦ (h.copied subs hsubs).trans (List.prefix_append _ _)
  case progress => exact h.progress

/-- Next statement of a discovery callback. -/
theorem Inv.callback {s s' : SubscribeAll τ α} (h : Inv s) {thread : τ} {topic : α} {raises : Bool}
    {pc : NewTopicPc} (hcall : s.callbacks thread = some (topic, pc))
    (hs : s.callback thread topic raises pc = some s') : Inv s' := by
  have hheld : s.held thread = pending? pc := by
    rw [held, hcall]
    rfl
  cases pc with
  | subscribe =>
    simp only [SubscribeAll.callback] at hs
    split at hs
    · cases hs
      exact h.congr rfl rfl (held_goto_of_eq hheld.symm) h.copied h.progress
    · cases hs
      exact h.subscribe hheld
  | acquire unsub =>
    simp only [SubscribeAll.callback] at hs
    split at hs
    · contradiction
    · cases hs
      exact h.congr rfl rfl (held_goto_of_eq hheld.symm) h.copied h.progress
  | append unsub =>
    cases hs
    exact h.append hheld
  | release =>
    cases hs
    exact h.congr rfl rfl (held_goto_of_eq hheld.symm) h.copied h.progress

omit [DecidableEq τ] in
/-- Next statement of `unsubscribe_all`. -/
theorem Inv.unsubscribeAll {s s' : SubscribeAll τ α} (h : Inv s) {raises : Bool}
    (hs : s.unsubscribeAll raises = some s') : Inv s' := by
  have hprogress := h.progress
  unfold SubscribeAll.unsubscribeAll at hs
  cases hpc : s.cleanup with
  | uncalled =>
    rw [hpc] at hprogress
    simp only [hpc, Option.some.injEq] at hs
    subst hs
    exact h.congr rfl rfl (fun _ ↦ rfl) h.copied hprogress
  | discoveryUnsub =>
    rw [hpc] at hprogress
    simp only [hpc] at hs
    split at hs
    · cases hs
      exact h.congr rfl rfl (fun _ ↦ rfl) h.copied trivial
    · cases hs
      exact h.congr rfl rfl (fun _ ↦ rfl) h.copied hprogress
  | acquire =>
    rw [hpc] at hprogress
    simp only [hpc] at hs
    split at hs
    · contradiction
    · cases hs
      exact h.congr rfl rfl (fun _ ↦ rfl) h.copied hprogress
  | copy =>
    rw [hpc] at hprogress
    simp only [hpc, Option.some.injEq] at hs
    subst hs
    refine h.congr rfl rfl (fun _ ↦ rfl) (fun subs hsubs ↦ ?_) ⟨Option.some_ne_none _, hprogress.2⟩
    cases hsubs
    exact List.prefix_refl _
  | release =>
    rw [hpc] at hprogress
    simp only [hpc, Option.some.injEq] at hs
    subst hs
    refine h.congr rfl rfl (fun _ ↦ rfl) h.copied ?_
    obtain ⟨subs, hsubs⟩ := Option.ne_none_iff_exists'.mp hprogress.1
    change s.copied = some (s.cancelled ++ s.copied.getD [])
    rw [hprogress.2, hsubs]
    rfl
  | cancel rest =>
    rw [hpc] at hprogress
    cases rest with
    | nil =>
      simp only [hpc, Option.some.injEq] at hs
      subst hs
      exact h.congr rfl rfl (fun _ ↦ rfl) h.copied (hprogress.trans (by rw [List.append_nil]))
    | cons unsub rest =>
      simp only [hpc, Option.some.injEq] at hs
      subst hs
      refine h.congr rfl rfl (fun _ ↦ rfl) h.copied ?_
      cases raises with
      | true => trivial
      | false => exact hprogress.trans (by rw [List.append_assoc]; rfl)
  | returned => simp [hpc] at hs
  | raised => simp [hpc] at hs

/-- Every step keeps the invariant. -/
theorem inv_step (s : SubscribeAll τ α) (a : SubscribeAllAction τ α) (s' : SubscribeAll τ α)
    (h : Inv s) (hs : step s a = some s') : Inv s' := by
  cases a with
  | discover thread topic =>
    simp only [step] at hs
    split at hs
    · next hidle =>
      cases hs
      have hnone : s.callbacks thread = none := by
        rw [Bool.and_eq_true, Option.isNone_iff_eq_none] at hidle
        exact hidle.2
      refine h.congr rfl rfl (held_goto_of_eq ?_) h.copied h.progress
      rw [held, hnone]
      rfl
    · contradiction
  | callback thread raises =>
    simp only [step] at hs
    split at hs
    · contradiction
    · next hcall => exact h.callback hcall hs
  | cleanup raises => exact h.unsubscribeAll hs

omit [DecidableEq τ] in
/-- A `subscribe_all` that has just returned. -/
theorem inv_init : Inv ({} : SubscribeAll τ α) := by
  constructor
  case nodup => exact List.nodup_nil
  case listed => exact fun _ h ↦ by contradiction
  case pending => exact fun _ _ h ↦ by contradiction
  case distinct => exact fun _ _ _ h ↦ by contradiction
  case all => exact fun _ h ↦ by contradiction
  case copied => exact fun _ h ↦ by contradiction
  case progress => exact ⟨rfl, rfl⟩

/-! ## When nothing is left -/

private theorem complete_append {s : SubscribeAll τ α} (h : Inv s) {thread : τ} {topic : α} {unsub : ℕ}
    (hcomplete : Complete { s.goto thread (some (topic, .release)) with
      subscriptions := s.subscriptions ++ [unsub] }) : s.copied = none := by
  cases hcopied : s.copied with
  | none => rfl
  | some subs =>
    have hlength := congrArg List.length (hcomplete subs hcopied)
    have hle := (h.copied subs hcopied).length_le
    rw [List.length_append, List.length_singleton] at hlength
    omega

/-- A statement of a callback leaves the copy complete exactly when it was, and it adds nothing
late. -/
theorem complete_callback {s s' : SubscribeAll τ α} (h : Inv s) {thread : τ} {topic : α}
    {raises : Bool} {pc : NewTopicPc} (hcall : s.callbacks thread = some (topic, pc))
    (hs : s.callback thread topic raises pc = some s') :
    Complete s' ↔ Complete s ∧ InTime s (.callback thread raises) := by
  have hintime : (∀ unsub, pc ≠ .append unsub) → InTime s (.callback thread raises) := by
    intro hpc topic' unsub hthread
    cases hcall.symm.trans hthread
    exact absurd rfl (hpc unsub)
  cases pc with
  | subscribe =>
    refine Iff.trans ?_ (and_iff_left (hintime (by simp))).symm
    simp only [SubscribeAll.callback] at hs
    split at hs <;> cases hs <;> exact Iff.rfl
  | acquire unsub =>
    refine Iff.trans ?_ (and_iff_left (hintime (by simp))).symm
    simp only [SubscribeAll.callback] at hs
    split at hs
    · contradiction
    · cases hs
      exact Iff.rfl
  | append unsub =>
    cases hs
    constructor
    · intro hcomplete
      have hnone := complete_append h hcomplete
      refine ⟨fun subs hsubs ↦ ?_, fun _ _ _ ↦ hnone⟩
      cases hnone.symm.trans hsubs
    · rintro ⟨-, hin⟩ subs hsubs
      cases (hin topic unsub hcall).symm.trans hsubs
  | release =>
    cases hs
    exact (and_iff_left (hintime (by simp))).symm

omit [DecidableEq τ] in
private theorem complete_unsubscribeAll {s s' : SubscribeAll τ α} (h : Inv s) {raises : Bool}
    (hs : s.unsubscribeAll raises = some s') : Complete s' ↔ Complete s := by
  have hprogress := h.progress
  unfold SubscribeAll.unsubscribeAll at hs
  split at hs
  · cases hs
    exact Iff.rfl
  · split at hs <;> cases hs <;> exact Iff.rfl
  · split at hs <;> cases hs
    exact Iff.rfl
  · next hpc =>
    cases hs
    rw [hpc] at hprogress
    refine iff_of_true (fun subs hsubs ↦ ?_) fun subs hsubs ↦ ?_
    · exact Option.some.inj hsubs
    · cases hprogress.1.symm.trans hsubs
  · cases hs
    exact Iff.rfl
  · cases hs
    exact Iff.rfl
  · cases hs
    exact Iff.rfl
  · contradiction
  · contradiction

private theorem complete_step (s : SubscribeAll τ α) (a : SubscribeAllAction τ α) (s' : SubscribeAll τ α)
    (h : Inv s) (hs : step s a = some s') : Complete s' ↔ Complete s ∧ InTime s a := by
  cases a with
  | discover thread topic =>
    simp only [step] at hs
    split at hs
    · cases hs
      exact (and_iff_left trivial).symm
    · contradiction
  | callback thread raises =>
    simp only [step] at hs
    split at hs
    · contradiction
    · next hcall => exact complete_callback h hcall hs
  | cleanup raises => exact (complete_unsubscribeAll h hs).trans (and_iff_left trivial).symm

omit [DecidableEq τ] in
/-- When all is over, everything has been cancelled once exactly when nothing was added after the
copy. -/
theorem Inv.cleanedUp_iff {s : SubscribeAll τ α} (h : Inv s) (hdone : Done s) :
    CleanedUp s ↔ Complete s := by
  have hcopied : s.copied = some s.cancelled := by
    have hprogress := h.progress
    rwa [hdone.1] at hprogress
  have hlisted : ∀ unsub < s.made.length, unsub ∈ s.subscriptions := by
    intro unsub hlt
    refine (h.all unsub hlt).resolve_right ?_
    rintro ⟨thread, hheld⟩
    rw [held, hdone.2 thread] at hheld
    contradiction
  have hshorter := h.copied _ hcopied
  constructor
  · intro hclean subs hsubs
    cases hcopied.symm.trans hsubs
    refine (hshorter.eq_of_length_le ?_).symm
    have hsubset : s.subscriptions ⊆ s.cancelled := fun unsub hunsub ↦
      List.count_pos_iff.mp (by rw [hclean unsub (h.listed unsub hunsub)]; exact Nat.one_pos)
    exact (List.subperm_of_subset h.nodup hsubset).length_le
  · intro hcomplete unsub hlt
    have heq := hcomplete _ hcopied
    rw [← heq]
    exact List.count_eq_one_of_mem h.nodup (hlisted unsub hlt)

/-- At the end of a run, every subscription has been cancelled once exactly when every callback added
its subscription before the list was copied. -/
theorem cleanedUp_iff_inTime {actions : List (SubscribeAllAction τ α)} {s : SubscribeAll τ α}
    (hs : run step ({} : SubscribeAll τ α) actions = some s) (hdone : Done s) :
    CleanedUp s ↔ AllSteps step InTime ({} : SubscribeAll τ α) actions := by
  have hinv : Inv s := Reachable.invariant inv_init inv_step ⟨actions, hs⟩
  rw [hinv.cleanedUp_iff hdone]
  have hcomplete : Complete ({} : SubscribeAll τ α) := fun _ h ↦ by contradiction
  exact final_iff_allSteps inv_init hcomplete inv_step complete_step hs

/-- A run in which the callback is over before `unsubscribe_all` is called. -/
theorem cleanedUp_iff_inTime_sequential : ∃ s,
    run step ({} : SubscribeAll Unit String)
      (.discover () "chatter" :: List.replicate 4 (.callback () false) ++
        List.replicate 7 (.cleanup false)) = some s ∧
    (CleanedUp s ↔ AllSteps step InTime ({} : SubscribeAll Unit String)
      (.discover () "chatter" :: List.replicate 4 (.callback () false) ++
        List.replicate 7 (.cleanup false))) :=
  ⟨_, rfl, cleanedUp_iff_inTime rfl ⟨rfl, fun _ ↦ rfl⟩⟩

/-- A callback that is between its two statements while the list is copied leaves its subscription
behind. -/
theorem late_callback_leaks : ¬ ∀ actions s,
    run step ({} : SubscribeAll Unit String) actions = some s → Done s → CleanedUp s := by
  intro h
  have hclean := h ([.discover () "chatter", .callback () false] ++
    List.replicate 6 (.cleanup false) ++ List.replicate 3 (.callback () false)) _ rfl
    ⟨rfl, fun _ ↦ rfl⟩
  have hzero := hclean 0 Nat.one_pos
  contradiction

end SubscribeAll

end HzjDds.PubSub
