import HzjDds.Transition.Callers
import HzjDds.Transition.Run
import Mathlib.Data.Nat.Notation

/-!
# Domain participants of DDS services

Library `PubSub`. Source: `ddsservice.py:36–69`. Services on any domains are started and stopped by
any threads. They share a map of participants, which `start` fills under one lock. Making a
participant may raise.
-/

namespace HzjDds.PubSub

open HzjDds.Transition

universe u v

/-- Next statement of `start` or `stop` (`ddsservice.py:50–61`). From `check` to `release` the call
holds the lock; `unwind` leaves the `with` block with the exception of the constructor. -/
inductive ServicePc where
  | acquire
  | check
  | construct
  | store (participant : ℕ)
  | unwind
  | release
  | superStart
  | superStop
  deriving DecidableEq, Repr

/-- The process: its map of participants and the calls in progress. A participant is the number of
its construction. `assigned` and `started` are history: the assignments to the map, and the
services of which a `start` has returned. -/
structure Participants (τ : Type u) (ς : Type v) where
  participants : ℤ → Option ℕ := fun _ ↦ none
  constructed : ℕ := 0
  lock : Option τ := none
  calls : τ → Option (ς × ServicePc) := fun _ ↦ none
  assigned : List (ℤ × ℕ) := []
  started : List ς := []

/-- A thread calls a method of a service, or executes the next statement of its call. -/
inductive ServiceAction (τ : Type u) (ς : Type v) where
  | start (thread : τ) (service : ς)
  | stop (thread : τ) (service : ς)
  | next (thread : τ) (raises : Bool)
  deriving DecidableEq, Repr

variable {τ : Type u} {ς : Type v} [DecidableEq τ]

namespace Participants

/-- The call of a thread goes on at another statement. -/
def goto (s : Participants τ ς) (thread : τ) (service : ς) (pc : ServicePc) : Participants τ ς :=
  { s with calls := Function.update s.calls thread (some (service, pc)) }

/-- The call of a thread is over. -/
def leave (s : Participants τ ς) (thread : τ) : Participants τ ς :=
  { s with calls := Function.update s.calls thread none }

/-- A thread calls a method unless it is in one. -/
def call (s : Participants τ ς) (thread : τ) (service : ς) (pc : ServicePc) :
    Option (Participants τ ς) :=
  match s.calls thread with
  | none => some (s.goto thread service pc)
  | some _ => none

/-- Next statement of a call on a service of a domain. -/
def next (s : Participants τ ς) (domain_id : ℤ) (thread : τ) (service : ς) (raises : Bool) :
    ServicePc → Option (Participants τ ς)
  | .acquire =>
    if s.lock.isNone then some { s.goto thread service .check with lock := some thread } else none
  | .check =>
    if (s.participants domain_id).isNone then some (s.goto thread service .construct)
    else some (s.goto thread service .release)
  | .construct =>
    if raises then some (s.goto thread service .unwind)
    else some { s.goto thread service (.store s.constructed) with
      constructed := s.constructed + 1 }
  | .store participant => some { s.goto thread service .release with
      participants := Function.update s.participants domain_id (some participant)
      assigned := s.assigned ++ [(domain_id, participant)] }
  | .unwind => some { s.leave thread with lock := none }
  | .release => some { s.goto thread service .superStart with lock := none }
  | .superStart => some { s.leave thread with started := s.started ++ [service] }
  | .superStop => some (s.leave thread)

/-- One step. `domain` is the `domain_id` in the configuration of each service. -/
def step (domain : ς → ℤ) (s : Participants τ ς) :
    ServiceAction τ ς → Option (Participants τ ς)
  | .start thread service => s.call thread service .acquire
  | .stop thread service => s.call thread service .superStop
  | .next thread raises =>
    match s.calls thread with
    | none => none
    | some (service, pc) => s.next (domain service) thread service raises pc

omit [DecidableEq τ] in
/-- The property `participant` of a service; `none` is the exception (`ddsservice.py:63–69`). -/
def participant (domain : ς → ℤ) (s : Participants τ ς) (service : ς) : Option ℕ :=
  s.participants (domain service)

/-- A domain is assigned one participant, which stays; a started service reads a participant, and
from then on every started service of its domain reads the same. -/
structure OneEach (domain : ς → ℤ) (s : Participants τ ς) : Prop where
  unique : (s.assigned.map Prod.fst).Nodup
  kept : ∀ actions t, run (step domain) s actions = some t →
    ∀ domain_id p, s.participants domain_id = some p → t.participants domain_id = some p
  agree : ∀ service ∈ s.started, ∃ p, ∀ actions t, run (step domain) s actions = some t →
    t.participant domain service = some p ∧
      ∀ other ∈ t.started, domain other = domain service → t.participant domain other = some p

/-- The call holds the lock. -/
def locked : ServicePc → Bool
  | .acquire | .superStart | .superStop => false
  | _ => true

/-- What a call relies on at a statement. -/
def At (domain : ς → ℤ) (s : Participants τ ς) (thread : τ) (service : ς) : ServicePc → Prop
  | .acquire => True
  | .check => s.lock = some thread
  | .construct => s.lock = some thread ∧ s.participants (domain service) = none
  | .store _ => s.lock = some thread ∧ s.participants (domain service) = none
  | .unwind => s.lock = some thread
  | .release => s.lock = some thread ∧ s.participants (domain service) ≠ none
  | .superStart => s.participants (domain service) ≠ none
  | .superStop => True

/-- Lock, map and history in any interleaving. -/
structure Inv (domain : ς → ℤ) (s : Participants τ ς) : Prop where
  calls : EachCall s.calls (At domain s)
  unique : (s.assigned.map Prod.fst).Nodup
  stored : ∀ domain_id, domain_id ∈ s.assigned.map Prod.fst ↔ s.participants domain_id ≠ none
  started : ∀ service ∈ s.started, s.participants (domain service) ≠ none

variable {domain : ς → ℤ}

omit [DecidableEq τ] in
/-- Before the first call. -/
theorem inv_init : Inv domain ({} : Participants τ ς) := by
  constructor
  case calls => exact eachCall_none _
  case unique => exact List.nodup_nil
  case stored => simp
  case started => simp

omit [DecidableEq τ] in
/-- A call in the `with` block holds the lock. -/
theorem At.lock {s : Participants τ ς} {thread : τ} {service : ς} {pc : ServicePc}
    (h : At domain s thread service pc) (hpc : locked pc = true) : s.lock = some thread := by
  cases pc with
  | acquire => contradiction
  | check => exact h
  | construct => exact h.1
  | store participant => exact h.1
  | unwind => exact h
  | release => exact h.1
  | superStart => contradiction
  | superStop => contradiction

omit [DecidableEq τ] in
/-- A call outside the `with` block relies on what is in the map only. -/
theorem At.grow {s t : Participants τ ς} {thread : τ} {service : ς} {pc : ServicePc}
    (h : At domain s thread service pc) (hpc : locked pc = false)
    (hmap : ∀ d, s.participants d ≠ none → t.participants d ≠ none) :
    At domain t thread service pc := by
  cases pc with
  | acquire => trivial
  | superStart => exact hmap _ h
  | superStop => trivial
  | _ => contradiction

omit [DecidableEq τ] in
/-- While a thread has the lock, or takes it, the others rely on what is in the map only. -/
theorem Inv.others {s t : Participants τ ς} (h : Inv domain s) {thread : τ}
    (hlock : s.lock = none ∨ s.lock = some thread)
    (hmap : ∀ d, s.participants d ≠ none → t.participants d ≠ none) :
    EachCall s.calls fun d service pc ↦ d ≠ thread → At domain t d service pc := by
  intro d service pc hd hne
  have hat := h.calls d service pc hd
  have hpc : locked pc = false := by
    by_contra hlocked
    have hheld := hat.lock (by simpa using hlocked)
    rcases hlock with hfree | hown
    · rw [hfree] at hheld
      contradiction
    · rw [hown] at hheld
      exact hne (Option.some.inj hheld).symm
  exact hat.grow hpc hmap

/-- A thread moves to a statement whose expectations are met. -/
theorem Inv.goto {s : Participants τ ς} (h : Inv domain s) {thread : τ} {service : ς}
    {pc : ServicePc} (hpc : At domain s thread service pc) :
    Inv domain (s.goto thread service pc) := by
  constructor
  case calls => exact EachCall.settle (fun d other place hd _ ↦ h.calls d other place hd) hpc
  case unique => exact h.unique
  case stored => exact h.stored
  case started => exact h.started

private theorem Inv.withLock {s : Participants τ ς} (h : Inv domain s) {thread : τ}
    {call : Option (ς × ServicePc)} {lock : Option τ} {constructed : ℕ}
    (hlock : s.lock = none ∨ s.lock = some thread)
    (hcall : ∀ service pc, call = some (service, pc) →
      At domain { s with lock, constructed } thread service pc) :
    Inv domain { s with lock, constructed, calls := Function.update s.calls thread call } := by
  have hothers := h.others (t := { s with lock, constructed }) hlock fun _ hd ↦ hd
  constructor
  case calls =>
    cases call with
    | none => exact hothers.leave
    | some place => exact hothers.settle (hcall place.1 place.2 rfl)
  case unique => exact h.unique
  case stored => exact h.stored
  case started => exact h.started

/-- The assignment fills a place that was empty. -/
theorem Inv.store {s : Participants τ ς} (h : Inv domain s) {thread : τ} {service : ς}
    {participant : ℕ} (hat : At domain s thread service (.store participant)) :
    Inv domain { s.goto thread service .release with
      participants := Function.update s.participants (domain service) (some participant)
      assigned := s.assigned ++ [(domain service, participant)] } := by
  obtain ⟨hlock, hnone⟩ := hat
  have hmap : ∀ d, Function.update s.participants (domain service) (some participant) d ≠ none ↔
      s.participants d ≠ none ∨ d = domain service := by
    intro d
    by_cases hd : d = domain service
    · simp [hd]
    · simp [hd]
  constructor
  case calls =>
    refine EachCall.settle (h.others (Or.inr hlock) fun d hd ↦ (hmap d).mpr (Or.inl hd)) ?_
    exact ⟨hlock, (hmap _).mpr (Or.inr rfl)⟩
  case unique =>
    rw [List.map_append, List.nodup_append]
    refine ⟨h.unique, List.pairwise_singleton .., ?_⟩
    rintro d hd other hother rfl
    obtain rfl := List.mem_singleton.mp hother
    exact (h.stored _).mp hd hnone
  case stored =>
    intro d
    rw [List.map_append, List.mem_append, h.stored]
    exact (or_congr_right List.mem_singleton).trans (hmap d).symm
  case started => exact fun other hother ↦ (hmap _).mpr (Or.inl (h.started other hother))

/-- Next statement of a call. -/
theorem Inv.next {s s' : Participants τ ς} (h : Inv domain s) {thread : τ} {service : ς}
    {raises : Bool} {pc : ServicePc} (hcall : s.calls thread = some (service, pc))
    (hs : s.next (domain service) thread service raises pc = some s') : Inv domain s' := by
  have hat := h.calls thread service pc hcall
  cases pc with
  | acquire =>
    obtain ⟨hfree, heq⟩ := Option.ite_none_right_eq_some.mp hs
    cases heq
    refine h.withLock (Or.inl (Option.isNone_iff_eq_none.mp hfree)) fun other place hplace ↦ ?_
    cases hplace
    exact rfl
  | check =>
    simp only [Participants.next] at hs
    split at hs
    · next hnone =>
      cases hs
      exact h.goto ⟨hat, Option.isNone_iff_eq_none.mp hnone⟩
    · next hsome =>
      cases hs
      exact h.goto ⟨hat, fun hnone ↦ hsome (Option.isNone_iff_eq_none.mpr hnone)⟩
  | construct =>
    simp only [Participants.next] at hs
    split at hs
    · cases hs
      exact h.goto hat.1
    · cases hs
      refine h.withLock (Or.inr hat.1) fun other place hplace ↦ ?_
      cases hplace
      exact hat
  | store participant =>
    cases hs
    exact h.store hat
  | unwind =>
    cases hs
    exact h.withLock (Or.inr hat) fun other place hplace ↦ by contradiction
  | release =>
    cases hs
    refine h.withLock (Or.inr hat.1) fun other place hplace ↦ ?_
    cases hplace
    exact hat.2
  | superStart =>
    cases hs
    constructor
    case calls => exact EachCall.leave fun d other place hd _ ↦ h.calls d other place hd
    case unique => exact h.unique
    case stored => exact h.stored
    case started =>
      intro other hother
      rcases List.mem_append.mp hother with hother | hother
      · exact h.started other hother
      · obtain rfl := List.mem_singleton.mp hother
        exact hat
  | superStop =>
    cases hs
    constructor
    case calls => exact EachCall.leave fun d other place hd _ ↦ h.calls d other place hd
    case unique => exact h.unique
    case stored => exact h.stored
    case started => exact h.started

/-- A thread calls a method. -/
theorem Inv.call {s s' : Participants τ ς} (h : Inv domain s) {thread : τ} {service : ς}
    {pc : ServicePc} (hs : s.call thread service pc = some s')
    (hpc : At domain s thread service pc) :
    Inv domain s' ∧ s'.participants = s.participants := by
  simp only [Participants.call] at hs
  split at hs
  · cases hs
    exact ⟨h.goto hpc, rfl⟩
  · contradiction

/-- What the map holds stays there. -/
theorem Inv.kept_next {s s' : Participants τ ς} (h : Inv domain s) {thread : τ} {service : ς}
    {raises : Bool} {pc : ServicePc} (hcall : s.calls thread = some (service, pc))
    (hs : s.next (domain service) thread service raises pc = some s') {d : ℤ} {p : ℕ}
    (hd : s.participants d = some p) : s'.participants d = some p := by
  have hat := h.calls thread service pc hcall
  cases pc with
  | acquire =>
    obtain ⟨-, heq⟩ := Option.ite_none_right_eq_some.mp hs
    cases heq
    exact hd
  | check =>
    simp only [Participants.next] at hs
    split at hs <;> cases hs <;> exact hd
  | construct =>
    simp only [Participants.next] at hs
    split at hs <;> cases hs <;> exact hd
  | store participant =>
    cases hs
    -- the place that is filled was empty
    have hne : d ≠ domain service := by
      rintro rfl
      rw [hat.2] at hd
      contradiction
    exact (Function.update_of_ne hne _ _).trans hd
  | unwind =>
    cases hs
    exact hd
  | release =>
    cases hs
    exact hd
  | superStart =>
    cases hs
    exact hd
  | superStop =>
    cases hs
    exact hd

/-- One step keeps the invariant and what the map holds. -/
theorem Inv.step {s s' : Participants τ ς} (h : Inv domain s) {a : ServiceAction τ ς}
    (hs : Participants.step domain s a = some s') :
    Inv domain s' ∧ ∀ d p, s.participants d = some p → s'.participants d = some p := by
  cases a with
  | start thread service =>
    obtain ⟨hinv, hsame⟩ := h.call hs trivial
    exact ⟨hinv, fun d p hd ↦ by rwa [hsame]⟩
  | stop thread service =>
    obtain ⟨hinv, hsame⟩ := h.call hs trivial
    exact ⟨hinv, fun d p hd ↦ by rwa [hsame]⟩
  | next thread raises =>
    simp only [Participants.step] at hs
    split at hs
    · contradiction
    · next service pc hcall => exact ⟨h.next hcall hs, fun d p ↦ h.kept_next hcall hs⟩

/-- A run keeps the invariant and what the map holds. -/
theorem Inv.run {s t : Participants τ ς} (h : Inv domain s) {actions : List (ServiceAction τ ς)}
    (hs : Transition.run (Participants.step domain) s actions = some t) :
    Inv domain t ∧ ∀ d p, s.participants d = some p → t.participants d = some p := by
  refine Reachable.invariant
    (I := fun u ↦ Inv domain u ∧ ∀ d p, s.participants d = some p → u.participants d = some p)
    ⟨h, fun _ _ hd ↦ hd⟩ ?_ ⟨actions, hs⟩
  rintro u a v ⟨hu, hkept⟩ hv
  obtain ⟨hv, hnext⟩ := hu.step hv
  exact ⟨hv, fun d p hd ↦ hnext d p (hkept d p hd)⟩

private theorem Inv.oneEach {s : Participants τ ς} (h : Inv domain s) : OneEach domain s := by
  constructor
  case unique => exact h.unique
  case kept => exact fun actions t ht d p hd ↦ (h.run ht).2 d p hd
  case agree =>
    intro service hservice
    obtain ⟨p, hp⟩ := Option.ne_none_iff_exists'.mp (h.started service hservice)
    refine ⟨p, fun actions t ht ↦ ?_⟩
    have hlater : t.participants (domain service) = some p := (h.run ht).2 _ p hp
    refine ⟨hlater, fun other _ heq ↦ ?_⟩
    rw [participant, heq]
    exact hlater

/-- However starts and stops interleave, and whichever constructions raise, a domain has one
participant and all its started services read it. -/
theorem one_participant_per_domain (domain : ς → ℤ) (actions : List (ServiceAction τ ς)) :
    AllStates (step domain) (OneEach domain) ({} : Participants τ ς) actions :=
  fun _ _ _ ht ↦ (inv_init.run ht).1.oneEach

end Participants

end HzjDds.PubSub
