import HzjDds.PubSub.SharedDds
import HzjDds.Transition.Atomic
import Mathlib.Data.Finset.Filter

/-!
# The subscriptions of a DDS object are linearizable

Library `PubSub`. Source: `ddspubsub.py:63–71,120–152`. However threads subscribe, unsubscribe and
stop, the callbacks are registered as if each call took place at once. A call takes effect when it
stores the new tuple of its listener; one whose listener is taken out of the map before that takes
effect just before the `stop` that does it.
-/

namespace HzjDds.PubSub

open HzjDds.Transition

universe u v w x

variable {θ : Type x} {τ : Type w} {α : Type u} {κ : Type v} [DecidableEq τ] [DecidableEq κ]

/-! ## The calls one after the other -/

/-- A call that takes place at once; `opens` says whether the reader of a new topic can be made. -/
def DDS.apply (s : DDS τ α κ) (call : DDSCall τ κ) (opens : Bool) : DDS τ α κ × DDSResponse :=
  match call with
  | .subscribe topic callback =>
    (s.subscribe topic callback opens,
      if (s.getListener topic opens).isSome then .handle else .raised)
  | .unsubscribe topic callback => (s.unsubscribeCallback topic callback, .done)
  | .stop => (s.stop, .done)

/-- Maps and registry stay in order. -/
theorem DDS.Inv.apply {s : DDS τ α κ} (h : DDS.Inv s) (call : DDSCall τ κ) (opens : Bool) :
    DDS.Inv (s.apply call opens).1 := by
  cases call with
  | subscribe topic callback => exact DDS.inv_step s (.subscribe topic callback opens) _ h rfl
  | unsubscribe topic callback => exact h.unsubscribeCallback topic callback
  | stop => exact DDS.inv_step s .stop _ h rfl

omit [DecidableEq κ] in
private theorem DDS.Inv.isSome_getListener {s : DDS τ α κ} (h : DDS.Inv s) (topic : τ) :
    (s.getListener topic true).isSome := by
  by_cases hreader : s.readers topic = true
  · have hlistener := h.listener topic
    rw [hreader] at hlistener
    rw [DDS.getListener, if_pos hreader, Option.isSome_map, ← hlistener]
  · rw [DDS.getListener, if_neg hreader]
    rfl

private theorem DDS.Inv.registered_apply {s : DDS τ α κ} (h : DDS.Inv s) {call : DDSCall τ κ} {e : Edit κ}
    {topic : τ} (he : call.edit = some e) (htopic : call.topic = some topic) (other : τ) :
    (s.apply call true).1.registered other =
      if other = topic then e.apply (s.registered topic) else s.registered other := by
  cases call with
  | subscribe _ callback =>
    cases he
    cases htopic
    have hsome := h.isSome_getListener topic
    obtain ⟨⟨l, s'⟩, hs'⟩ := Option.isSome_iff_exists.mp hsome
    obtain ⟨hl, -, -, -, hothers⟩ := h.getListener hs'
    simp only [DDS.apply, DDS.subscribe, hs', DDS.registered]
    split
    · next hother =>
      rw [hother, Function.update_self]
      exact congrArg (· ++ [callback]) hl
    · next hother => rw [Function.update_of_ne hother, (hothers other hother).2]
  | unsubscribe _ callback =>
    cases he
    cases htopic
    exact DDS.registered_unsubscribeCallback s topic callback other
  | stop => cases he

private theorem DDS.Inv.response_apply {s : DDS τ α κ} (h : DDS.Inv s) {call : DDSCall τ κ} {e : Edit κ}
    (he : call.edit = some e) : (s.apply call true).2 = call.response := by
  cases call with
  | subscribe topic callback => exact if_pos (h.isSome_getListener topic)
  | unsubscribe topic callback => rfl
  | stop => cases he

private theorem DDS.Inv.readers_apply {s : DDS τ α κ} (h : DDS.Inv s) {call : DDSCall τ κ} {e : Edit κ}
    {topic : τ} (he : call.edit = some e) (htopic : call.topic = some topic) {other : τ}
    (hother : other ≠ topic) :
    (s.apply call true).1.readers other = s.readers other := by
  cases call with
  | subscribe _ callback =>
    cases htopic
    obtain ⟨⟨l, s'⟩, hs'⟩ := Option.isSome_iff_exists.mp (h.isSome_getListener topic)
    obtain ⟨-, -, -, -, hothers⟩ := h.getListener hs'
    simp only [DDS.apply, DDS.subscribe, hs']
    exact (hothers other hother).1
  | unsubscribe _ callback =>
    simp only [DDS.apply, DDS.unsubscribeCallback]
    split <;> rfl
  | stop => cases he

/-! ## Which calls have taken effect -/

variable [DecidableEq θ]

namespace SharedDDS

/-- The response of a call that has taken effect. A call that has got a listener takes effect when
it stores the tuple of the listener, or when the listener is taken out of the map. -/
def effected (s : SharedDDS θ τ α κ) (t : θ) (call : DDSCall τ κ) :
    SharedDDSPc → Option DDSResponse
  | .release l => if call.topic.bind s.listeners = some l then none else some call.response
  | .editing l =>
    if call.topic.bind s.listeners = some l ∧
        ((s.objects l).edits t).map Prod.snd ≠ some .release then none
    else some call.response
  | .giveUp response | .return response => some response
  | _ => none

/-- The calls in progress as the atomic object has them. -/
def pending (s : SharedDDS θ τ α κ) (t : θ) : Option (DDSCall τ κ × Option DDSResponse) :=
  (s.calls t).map fun call ↦ (call.1, s.effected t call.1 call.2)

/-- The object and the atomic object that it implements. A reader may be in the maps before the
`subscribe` that makes it takes effect. -/
structure Related (s : SharedDDS θ τ α κ)
    (m : Atomic θ (DDS τ α κ) (DDSCall τ κ) DDSResponse) : Prop where
  mapped : Mapped s
  edited : Edited s
  callers : ∃ A : Finset θ, ∀ t, s.calls t ≠ none → t ∈ A
  inv : DDS.Inv m.object
  registered : ∀ topic, m.object.registered topic = s.registered topic
  readers : ∀ topic, m.object.readers topic = true → s.listeners topic ≠ none
  calls : ∀ t, m.calls t = s.pending t

omit [DecidableEq τ] in
/-- A thread goes on; what the others have done stays. -/
theorem Related.move {s s' : SharedDDS θ τ α κ}
    {m : Atomic θ (DDS τ α κ) (DDSCall τ κ) DDSResponse} (h : Related s m) {t : θ}
    {after : Option (DDSCall τ κ × SharedDDSPc)} (hmapped : Mapped s') (hedited : Edited s')
    (hcalls : s'.calls = Function.update s.calls t after) {object : DDS τ α κ}
    (hinv : DDS.Inv object) (hregistered : ∀ topic, object.registered topic = s'.registered topic)
    (hreaders : ∀ topic, object.readers topic = true → s'.listeners topic ≠ none)
    (hothers : ∀ u call pc, u ≠ t → s.calls u = some (call, pc) →
      s'.effected u call pc = s.effected u call pc)
    {p : Option (DDSCall τ κ × Option DDSResponse)} (hp : p = s'.pending t) :
    Related s' ⟨object, Function.update m.calls t p⟩ := by
  constructor
  case mapped => exact hmapped
  case edited => exact hedited
  case callers =>
    obtain ⟨A, hA⟩ := h.callers
    refine ⟨insert t A, fun u hu ↦ ?_⟩
    by_cases hut : u = t
    · exact Finset.mem_insert.mpr (.inl hut)
    · refine Finset.mem_insert_of_mem (hA u ?_)
      rwa [hcalls, Function.update_of_ne hut] at hu
  case inv => exact hinv
  case registered => exact hregistered
  case readers => exact hreaders
  case calls =>
    intro u
    by_cases hut : u = t
    · subst hut
      simp only [Function.update_self, hp]
    · simp only [Function.update_of_ne hut, h.calls u, pending, hcalls]
      cases hu : s.calls u with
      | none => rfl
      | some call =>
        obtain ⟨call, pc⟩ := call
        simp only [Option.map_some, hothers u call pc hut hu]

omit [DecidableEq τ] [DecidableEq θ] in
private theorem effected_congr {s s' : SharedDDS θ τ α κ} {t : θ}
    (hlisteners : s'.listeners = s.listeners)
    (hedits : ∀ l, (s'.objects l).edits t = (s.objects l).edits t) (call : DDSCall τ κ)
    (pc : SharedDDSPc) : s'.effected t call pc = s.effected t call pc := by
  cases pc <;> simp only [effected, hlisteners, hedits]

/-- A step of the object has its match. -/
def Matched (s' : SharedDDS θ τ α κ) (m : Atomic θ (DDS τ α κ) (DDSCall τ κ) DDSResponse)
    (event : Option (CallEvent θ (DDSCall τ κ) DDSResponse)) : Prop :=
  ∃ bs m', run (Atomic.step DDS.apply) m bs = some m' ∧
    bs.filterMap AtomicAction.event = event.toList ∧ Related s' m'

/-- Nothing takes effect. -/
theorem Related.silent {s s' : SharedDDS θ τ α κ}
    {m : Atomic θ (DDS τ α κ) (DDSCall τ κ) DDSResponse} (h : Related s m) {t : θ}
    {after : Option (DDSCall τ κ × SharedDDSPc)} (hmapped : Mapped s') (hedited : Edited s')
    (hcalls : s'.calls = Function.update s.calls t after)
    (hregistered : ∀ topic, s'.registered topic = s.registered topic)
    (hlisteners : ∀ topic, s.listeners topic ≠ none → s'.listeners topic ≠ none)
    (hothers : ∀ u call pc, u ≠ t → s.calls u = some (call, pc) →
      s'.effected u call pc = s.effected u call pc)
    (hself : s'.pending t = s.pending t) : Matched s' m none := by
  have h' := h.move hmapped hedited hcalls h.inv (fun topic ↦ by rw [h.registered, hregistered])
    (fun topic hreader ↦ hlisteners topic (h.readers topic hreader)) hothers
    ((h.calls t).trans hself.symm)
  rw [Function.update_eq_self] at h'
  exact ⟨[], m, rfl, rfl, h'⟩

/-- A statement that touches neither the map of the listeners nor a listener. -/
theorem Related.quiet {s s' : SharedDDS θ τ α κ}
    {m : Atomic θ (DDS τ α κ) (DDSCall τ κ) DDSResponse} (h : Related s m) {t : θ}
    {call : DDSCall τ κ} {pc pc' : SharedDDSPc} (hpc : s.calls t = some (call, pc))
    (hcalls : s'.calls = Function.update s.calls t (some (call, pc')))
    (hlisteners : s'.listeners = s.listeners) (hobjects : s'.objects = s.objects)
    (hsize : s'.size = s.size) (hmapped : Mapped s')
    (hediting : ∀ l, pc ≠ .editing l ∧ pc' ≠ .editing l)
    (hself : s.effected t call pc' = s.effected t call pc) : Matched s' m none := by
  have heffected : ∀ u call pc, s'.effected u call pc = s.effected u call pc :=
    fun u ↦ effected_congr hlisteners fun l ↦ by rw [hobjects]
  refine h.silent hmapped ?_ hcalls (fun topic ↦ ?_) (fun topic ↦ by rw [hlisteners]; exact id)
    (fun u call pc _ _ ↦ heffected u call pc) ?_
  · exact h.edited.move hpc hcalls hobjects hsize.ge
      (fun call l he ↦ (hediting l).1 (congrArg Prod.snd (Option.some.inj he)))
      (fun call l he ↦ (hediting l).2 (congrArg Prod.snd (Option.some.inj he)))
  · rw [SharedDDS.registered, SharedDDS.registered, hlisteners, hobjects]
  · simp only [pending, hcalls, Function.update_self, hpc, Option.map_some, heffected, hself]

/-- A call gives up, and so does the atomic one. -/
theorem Related.gives {s s' : SharedDDS θ τ α κ}
    {m : Atomic θ (DDS τ α κ) (DDSCall τ κ) DDSResponse} (h : Related s m) {t : θ}
    {call : DDSCall τ κ} {pc : SharedDDSPc} {response : DDSResponse}
    (hpc : s.calls t = some (call, pc))
    (hcalls : s'.calls = Function.update s.calls t (some (call, .giveUp response)))
    (hlisteners : s'.listeners = s.listeners) (hobjects : s'.objects = s.objects)
    (hsize : s'.size = s.size) (hmapped : Mapped s') (hediting : ∀ l, pc ≠ .editing l)
    (hnone : s.effected t call pc = none) (opens : Bool)
    (happly : m.object.apply call opens = (m.object, response)) : Matched s' m none := by
  have heffected : ∀ u call pc, s'.effected u call pc = s.effected u call pc :=
    fun u ↦ effected_congr hlisteners fun l ↦ by rw [hobjects]
  have hm : m.calls t = some (call, none) := by
    rw [h.calls t, pending, hpc, Option.map_some, hnone]
  refine ⟨[.effect t opens], _, by rw [run_cons, Atomic.step_effect hm]; rfl, rfl, ?_⟩
  rw [happly]
  refine h.move hmapped ?_ hcalls h.inv (fun topic ↦ ?_)
    (fun topic hreader ↦ by rw [hlisteners]; exact h.readers topic hreader)
    (fun u call pc _ _ ↦ heffected u call pc) ?_
  · exact h.edited.move hpc hcalls hobjects hsize.ge
      (fun call l he ↦ hediting l (congrArg Prod.snd (Option.some.inj he))) (by simp)
  · rw [h.registered, SharedDDS.registered, SharedDDS.registered, hlisteners, hobjects]
  · simp [pending, hcalls, effected]

/-! ## The statements -/

/-- A thread takes the reader lock. -/
theorem Related.acquire {s : SharedDDS θ τ α κ} {m : Atomic θ (DDS τ α κ) (DDSCall τ κ) DDSResponse}
    (h : Related s m) {t : θ} {call : DDSCall τ κ} (hpc : s.calls t = some (call, .acquire))
    (hfree : s.reader_lock = none) :
    Matched ({ s with reader_lock := some t }.goto t (some (call, .lookup))) m none := by
  refine h.quiet hpc rfl rfl rfl rfl ?_ (by simp) rfl
  apply h.mapped.move hpc rfl
  case hreaders | hlisteners | hsize => rfl
  case hothers => simp [hfree]
  case hheld => exact fun _ _ _ _ ↦ rfl
  case hgot => rintro _ _ l ⟨⟩ ⟨⟩
  all_goals simp

omit [DecidableEq τ] in
/-- A statement of the reader lock's `with` block that leaves the maps alone. -/
theorem Related.inside {s : SharedDDS θ τ α κ}
    {m : Atomic θ (DDS τ α κ) (DDSCall τ κ) DDSResponse} (h : Related s m) {t : θ}
    {call : DDSCall τ κ} {pc pc' : SharedDDSPc} (hpc : s.calls t = some (call, pc))
    (hlocked : pc.locked = true)
    (hleft : pc ≠ .enterListener ∧ pc ≠ .clearListeners)
    (hafter : pc' ≠ .enterListener ∧ pc' ≠ .clearListeners)
    (habsent : ∀ topic callback, call = .subscribe topic callback →
      pc' = .open ∨ pc' = .enterReader ∨ pc' = .enterListener → s.listeners topic = none)
    (hfetching : ∀ topic callback, call = .subscribe topic callback → pc' = .fetch →
      s.listeners topic ≠ none)
    (hgot : ∀ l, pc'.listener = some l → ∃ topic, call.topic = some topic ∧
      s.listeners topic = some l) : Mapped (s.goto t (some (call, pc'))) := by
  apply h.mapped.move hpc rfl
  case hreaders | hlisteners | hsize => rfl
  case hothers => exact fun _ _ ↦ id
  case hheld => exact fun _ _ _ _ ↦ h.mapped.held t call pc hpc hlocked
  case hleft => simp [hleft]
  case hafter => simp [hafter]
  case habsent =>
    rintro topic callback pc ⟨⟩
    exact habsent topic callback rfl
  case hfetching =>
    rintro topic callback ⟨⟩
    exact hfetching topic callback rfl rfl
  case hgot =>
    rintro call pc l ⟨⟩ hl
    exact .inl (hgot l hl)

/-- `subscribe` looks for its topic among the readers. -/
theorem Related.lookup_subscribe {s : SharedDDS θ τ α κ}
    {m : Atomic θ (DDS τ α κ) (DDSCall τ κ) DDSResponse} (h : Related s m) {t : θ} {topic : τ}
    {callback : κ} (hpc : s.calls t = some (.subscribe topic callback, .lookup)) :
    Matched (s.goto t (some (.subscribe topic callback,
      if s.readers topic then .fetch else .open))) m none := by
  have halone : ∀ u call pc, s.calls u = some (call, pc) → pc.locked = true → u = t :=
    fun u call pc hu hlocked ↦ h.mapped.alone hpc hu rfl hlocked
  split
  · next hreader =>
    refine h.quiet hpc rfl rfl rfl rfl (h.inside hpc rfl (by simp) (by simp) (by simp) ?_ ?_)
      (by simp) rfl
    · rintro x _ ⟨⟩ - hnone
      obtain ⟨u, other, hu⟩ := h.mapped.readers topic hreader hnone
      cases halone u _ _ hu rfl
      cases hpc.symm.trans hu
    · simp [SharedDDSPc.listener]
  · next hreader =>
    refine h.quiet hpc rfl rfl rfl rfl (h.inside hpc rfl (by simp) (by simp) ?_ (by simp) ?_)
      (by simp) rfl
    · rintro x _ ⟨⟩ -
      by_contra hsome
      rcases h.mapped.listeners topic hsome with hreader' | ⟨u, hu⟩
      · exact hreader hreader'
      · cases halone u _ _ hu rfl
        cases hpc.symm.trans hu
    · simp [SharedDDSPc.listener]

private theorem Related.lookup_unsubscribe {s : SharedDDS θ τ α κ}
    {m : Atomic θ (DDS τ α κ) (DDSCall τ κ) DDSResponse} (h : Related s m) {t : θ} {topic : τ}
    {callback : κ} (hpc : s.calls t = some (.unsubscribe topic callback, .lookup)) :
    Matched (s.goto t (some (.unsubscribe topic callback,
      (s.listeners topic).elim (.giveUp .done) .release))) m none := by
  cases hl : s.listeners topic with
  | none =>
    have hlistener : m.object.listeners topic = none := by
      have hreader := h.inv.listener topic
      cases hsome : m.object.listeners topic with
      | none => rfl
      | some l => exact absurd hl (h.readers topic (by rw [hreader, hsome]; rfl))
    refine h.gives hpc rfl rfl rfl rfl (h.inside hpc rfl (by simp) (by simp) (by simp) (by simp) ?_)
      (by simp) rfl false ?_
    · simp [SharedDDSPc.listener]
    · simp [DDS.apply, DDS.unsubscribeCallback, hlistener]
  | some l =>
    refine h.quiet hpc rfl rfl rfl rfl (h.inside hpc rfl (by simp) (by simp) (by simp) (by simp) ?_)
      (by simp) ?_
    · rintro _ ⟨⟩
      exact ⟨topic, rfl, hl⟩
    · exact if_pos hl

/-- `subscribe` makes the reader of its topic, or raises. -/
theorem Related.open {s : SharedDDS θ τ α κ} {m : Atomic θ (DDS τ α κ) (DDSCall τ κ) DDSResponse}
    (h : Related s m) {t : θ} {topic : τ} {callback : κ}
    (hpc : s.calls t = some (.subscribe topic callback, .open)) (opens : Bool) :
    Matched (s.goto t (some (.subscribe topic callback,
      if opens then .enterReader else .giveUp .raised))) m none := by
  have hnone := h.mapped.absent t topic callback .open hpc (.inl rfl)
  cases opens with
  | true =>
    refine h.quiet hpc rfl rfl rfl rfl (h.inside hpc rfl (by simp) (by simp) ?_ (by simp) ?_)
      (by simp) rfl
    · rintro x _ ⟨⟩ -
      exact hnone
    · simp [SharedDDSPc.listener]
  | false =>
    have hreader : m.object.readers topic = false := by
      by_contra hreader
      exact h.readers topic (by simpa using hreader) hnone
    refine h.gives hpc rfl rfl rfl rfl (h.inside hpc rfl (by simp) (by simp) (by simp) (by simp) ?_)
      (by simp) rfl false ?_
    · simp [SharedDDSPc.listener]
    · simp [DDS.apply, DDS.subscribe, DDS.getListener, hreader]

/-- `subscribe` gets the listener of its topic, which is in the map. -/
theorem Related.fetch {s : SharedDDS θ τ α κ} {m : Atomic θ (DDS τ α κ) (DDSCall τ κ) DDSResponse}
    (h : Related s m) {t : θ} {topic : τ} {callback : κ}
    (hpc : s.calls t = some (.subscribe topic callback, .fetch)) :
    Matched (s.goto t (some (.subscribe topic callback,
      (s.listeners topic).elim (.giveUp .raised) .release))) m none := by
  obtain ⟨l, hl⟩ := Option.ne_none_iff_exists'.mp (h.mapped.fetching t topic callback hpc)
  rw [hl]
  refine h.quiet hpc rfl rfl rfl rfl (h.inside hpc rfl (by simp) (by simp) (by simp) (by simp) ?_)
    (by simp) ?_
  · rintro _ ⟨⟩
    exact ⟨topic, rfl, hl⟩
  · exact if_pos hl

/-- A call without a listener leaves the `with` block. -/
theorem Related.giveUp {s : SharedDDS θ τ α κ} {m : Atomic θ (DDS τ α κ) (DDSCall τ κ) DDSResponse}
    (h : Related s m) {t : θ} {call : DDSCall τ κ} {response : DDSResponse}
    (hpc : s.calls t = some (call, .giveUp response)) :
    Matched ({ s with reader_lock := none }.goto t (some (call, .return response))) m none := by
  have hlock := h.mapped.held t _ _ hpc rfl
  refine h.quiet hpc rfl rfl rfl rfl ?_ (by simp) rfl
  apply h.mapped.move hpc rfl
  case hreaders | hlisteners | hsize => rfl
  case hothers =>
    intro u hut hu
    exact absurd (Option.some.inj (hu.symm.trans hlock)) hut
  case hgot => rintro _ _ l ⟨⟩ ⟨⟩
  all_goals simp [SharedDDSPc.locked]

/-- The readers are cleared. -/
theorem Related.clearReaders {s : SharedDDS θ τ α κ}
    {m : Atomic θ (DDS τ α κ) (DDSCall τ κ) DDSResponse} (h : Related s m) {t : θ}
    (hpc : s.calls t = some (.stop, .lookup)) :
    Matched ({ s with readers := fun _ ↦ false }.goto t (some (.stop, .clearListeners))) m none :=
  h.quiet hpc rfl rfl rfl rfl (h.mapped.clearReaders hpc) (by simp) rfl

/-- The reader of a topic is entered. -/
theorem Related.enterReader {s : SharedDDS θ τ α κ}
    {m : Atomic θ (DDS τ α κ) (DDSCall τ κ) DDSResponse} (h : Related s m) {t : θ} {topic : τ}
    {callback : κ} (hpc : s.calls t = some (.subscribe topic callback, .enterReader)) :
    Matched ({ s with readers := Function.update s.readers topic true }.goto t
      (some (.subscribe topic callback, .enterListener))) m none :=
  h.quiet hpc rfl rfl rfl rfl (h.mapped.enterReader hpc) (by simp) rfl

/-- The listener of a topic is entered; it has no callbacks yet. -/
theorem Related.enterListener {s : SharedDDS θ τ α κ}
    {m : Atomic θ (DDS τ α κ) (DDSCall τ κ) DDSResponse} (h : Related s m) {t : θ} {topic : τ}
    {callback : κ} (hpc : s.calls t = some (.subscribe topic callback, .enterListener)) :
    Matched ({ s with
      listeners := Function.update s.listeners topic (some s.size)
      size := s.size + 1 }.goto t (some (.subscribe topic callback, .fetch))) m none := by
  have hnone := h.mapped.absent t topic callback .enterListener hpc (.inr (.inr rfl))
  refine h.silent (h.mapped.enterListener hpc) ?_ rfl ?_ ?_ ?_ ?_
  · exact h.edited.move hpc rfl rfl (Nat.le_succ _) (by simp) (by simp)
  · intro x
    simp only [SharedDDS.registered, goto, Function.update_apply]
    split
    · next hx =>
      rw [hx, hnone]
      exact h.edited.unused s.size le_rfl
    · rfl
  · intro x hx
    simp only [goto, Function.update_apply]
    split
    · simp
    · exact hx
  · intro u call pc _ hu
    have hgot : ∀ l, pc.listener = some l → (call.topic.bind (Function.update s.listeners topic
        (some s.size)) = some l ↔ call.topic.bind s.listeners = some l) := by
      intro l hl
      have hlt := (h.mapped.got u call pc l hu hl).1
      cases call.topic with
      | none => rfl
      | some x =>
        simp only [Option.bind_some, Function.update_apply]
        split
        · next hx =>
          rw [hx, hnone]
          simp [Nat.ne_of_gt hlt]
        · rfl
    cases pc with
    | release l => simp only [effected, goto, hgot l rfl]
    | editing l => simp only [effected, goto, hgot l rfl]
    | _ => rfl
  · simp [pending, goto, hpc, effected]

/-- A call begins to edit the listener that it has got. -/
theorem Related.release {s : SharedDDS θ τ α κ}
    {m : Atomic θ (DDS τ α κ) (DDSCall τ κ) DDSResponse} (h : Related s m) {t : θ}
    {call : DDSCall τ κ} {l : ℕ} {e : Edit κ} {o : SharedListener θ α κ}
    (hpc : s.calls t = some (call, .release l)) (he : call.edit = some e)
    (ho : (s.objects l).step (.edit t e) = some o) :
    Matched ({ s with
      reader_lock := none
      objects := Function.update s.objects l o }.goto t (some (call, .editing l))) m none := by
  have hlock := h.mapped.held t _ _ hpc rfl
  have hlt := (h.mapped.got t call _ l hpc rfl).1
  have hedited := h.edited.begin hpc he hlt ho
  simp only [SharedListener.step] at ho
  split_ifs at ho
  cases ho
  refine h.silent ?_ hedited rfl ?_ (fun _ ↦ id) ?_ ?_
  · apply h.mapped.move hpc rfl
    case hreaders | hlisteners | hsize => rfl
    case hothers =>
      intro u hut hu
      exact absurd (Option.some.inj (hu.symm.trans hlock)) hut
    case hgot =>
      rintro _ _ k ⟨⟩ ⟨⟩
      exact .inr ⟨_, rfl, rfl⟩
    all_goals simp [SharedDDSPc.locked]
  · intro topic
    simp only [SharedDDS.registered, goto, Function.update_apply]
    cases s.listeners topic with
    | none => rfl
    | some k =>
      simp only [Option.elim_some]
      split
      · next hk => rw [hk]; rfl
      · rfl
  · intro u call' pc hut _
    apply effected_congr
    case hlisteners => rfl
    case hedits =>
      intro k
      simp only [goto, Function.update_apply]
      split
      · next hk => simp [SharedListener.goto, hut, hk]
      · rfl
  · simp [pending, goto, hpc, effected, SharedListener.goto]

omit [DecidableEq τ] [DecidableEq κ] in
private theorem registered_update {s : SharedDDS θ τ α κ} {l : ℕ} {o : SharedListener θ α κ} (t : θ)
    (call : Option (DDSCall τ κ × SharedDDSPc)) (topic : τ) :
    ({ s with objects := Function.update s.objects l o }.goto t call).registered topic =
      if s.listeners topic = some l then o.listener.callbacks else s.registered topic := by
  simp only [SharedDDS.registered, goto, Function.update_apply]
  cases s.listeners topic with
  | none => simp
  | some k =>
    simp only [Option.elim_some, Option.some.injEq]
    split <;> rfl

/-- A statement of an edit takes effect exactly when it stores the tuple of a listener that is in
the map. -/
theorem Related.editing {s : SharedDDS θ τ α κ}
    {m : Atomic θ (DDS τ α κ) (DDSCall τ κ) DDSResponse} (h : Related s m) {t : θ}
    {call : DDSCall τ κ} {l : ℕ} {o : SharedListener θ α κ}
    (hpc : s.calls t = some (call, .editing l))
    (ho : (s.objects l).step (.advance t) = some o) :
    Matched ({ s with objects := Function.update s.objects l o }.goto t
      (some (call, if o.edits t = none then .return call.response else .editing l))) m none := by
  obtain ⟨hlt, hmap⟩ := h.mapped.got t call _ l hpc rfl
  have hedited := h.edited.advance hpc hlt ho
  have hmapped : Mapped ({ s with objects := Function.update s.objects l o }.goto t
      (some (call, if o.edits t = none then .return call.response else .editing l))) := by
    apply h.mapped.move hpc rfl
    case hreaders | hlisteners | hsize => rfl
    case hothers => exact fun _ _ ↦ id
    case hgot =>
      rintro _ _ k ⟨⟩ hk
      split at hk <;> cases hk
      exact .inr ⟨_, rfl, rfl⟩
    case hleft => simp
    all_goals split <;> simp [SharedDDSPc.locked]
  obtain ⟨⟨e, pc⟩, hedit, hadvance⟩ := Option.bind_eq_some_iff.mp ho
  obtain ⟨call', hcall', he⟩ := (h.edited.edits l t e).mp (by rw [hedit]; rfl)
  cases hpc.symm.trans hcall'
  have hcases := SharedListener.advance_cases hadvance
  have hedits : ∀ u, u ≠ t → o.edits u = (s.objects l).edits u := by
    intro u hut
    rcases hcases with ⟨pc', -, -, heq, -⟩ | ⟨cs, -, heq, -⟩ | ⟨-, heq, -⟩ <;> simp [heq, hut]
  have hothers : ∀ u call' pc', u ≠ t → s.calls u = some (call', pc') →
      ({ s with objects := Function.update s.objects l o }.goto t (some (call,
        if o.edits t = none then .return call.response else .editing l))).effected u call' pc' =
        s.effected u call' pc' := by
    intro u call' pc' hut _
    apply effected_congr
    case hlisteners => rfl
    case hedits =>
      intro k
      simp only [goto, Function.update_apply]
      split
      · next hk => rw [hedits u hut, hk]
      · rfl
  have hsame : (∀ topic, s.listeners topic = some l →
      o.listener.callbacks = (s.objects l).listener.callbacks) → ∀ topic,
      ({ s with objects := Function.update s.objects l o }.goto t (some (call,
        if o.edits t = none then .return call.response else .editing l))).registered topic =
        s.registered topic := by
    intro hcallbacks topic
    rw [registered_update]
    split
    · next hl => rw [hcallbacks topic hl, SharedDDS.registered, hl, Option.elim_some]
    · rfl
  rcases hcases with ⟨pc', hne, hne', heq, hcs⟩ | ⟨cs, rfl, heq, hcs⟩ | ⟨rfl, heq, hcs⟩
  · refine h.silent hmapped hedited rfl (hsame fun _ _ ↦ hcs) (fun _ ↦ id) hothers ?_
    simp [pending, goto, hpc, effected, heq, hedit, hne, hne']
  · by_cases hcurrent : call.topic.bind s.listeners = some l
    · -- the tuple of a listener in the map is stored
      obtain ⟨topic, htopic, hl⟩ := Option.bind_eq_some_iff.mp hcurrent
      have hm : m.calls t = some (call, none) := by
        simp [h.calls, pending, hpc, effected, hcurrent, hedit]
      refine ⟨[.effect t true], _, by rw [run_cons, Atomic.step_effect hm]; rfl, rfl, ?_⟩
      refine h.move hmapped hedited rfl (h.inv.apply call true) (fun x ↦ ?_) (fun x hreader ↦ ?_)
        hothers ?_
      · rw [h.inv.registered_apply he htopic, registered_update]
        by_cases hx : x = topic
        · rw [if_pos hx, hx, if_pos hl, h.registered, SharedDDS.registered, hl, Option.elim_some,
            hcs, (h.edited.objects l).fresh t e cs hedit]
        · have hxl : s.listeners x ≠ some l := fun hxl ↦ hx (h.mapped.apart x topic l hxl hl)
          rw [if_neg hx, if_neg hxl, h.registered]
      · by_cases hx : x = topic
        · rw [hx]
          exact Option.ne_none_iff_exists'.mpr ⟨l, hl⟩
        · rw [h.inv.readers_apply he htopic hx] at hreader
          exact h.readers x hreader
      · simp [pending, goto, effected, heq, h.inv.response_apply he]
    · -- the listener was taken out of the map, and the call took effect then
      refine h.silent hmapped hedited rfl (hsame fun topic hl ↦ ?_) (fun _ ↦ id) hothers ?_
      · rw [hmap topic hl] at hcurrent
        exact absurd hl hcurrent
      · simp [pending, goto, hpc, effected, heq, hcurrent]
  · refine h.silent hmapped hedited rfl (hsame fun _ _ ↦ hcs) (fun _ ↦ id) hothers ?_
    simp [pending, goto, hpc, effected, heq, hedit]

/-- Any calls that edit a tuple can take effect, one after the other. -/
theorem exists_effects {m : Atomic θ (DDS τ α κ) (DDSCall τ κ) DDSResponse} (hinv : DDS.Inv m.object)
    {ts : List θ} (hnodup : ts.Nodup)
    (hts : ∀ t ∈ ts, ∃ call e, m.calls t = some (call, none) ∧ call.edit = some e) :
    ∃ m', run (Atomic.step DDS.apply) m (ts.map fun t ↦ .effect t true) = some m' ∧
      DDS.Inv m'.object ∧ ∀ u, m'.calls u =
        if u ∈ ts then (m.calls u).map fun call ↦ (call.1, some call.1.response)
        else m.calls u := by
  induction ts generalizing m with
  | nil => exact ⟨m, rfl, hinv, fun _ ↦ rfl⟩
  | cons t ts ih =>
    obtain ⟨call, e, hcall, he⟩ := hts t List.mem_cons_self
    obtain ⟨ht, hnodup⟩ := List.nodup_cons.mp hnodup
    have hstep : Atomic.step DDS.apply m (.effect t true) = _ := Atomic.step_effect hcall true
    obtain ⟨m', hm', hinv', hcalls⟩ := ih (m := ⟨(m.object.apply call true).1, Function.update
      m.calls t (some (call, some (m.object.apply call true).2))⟩) (hinv.apply call true) hnodup
      (fun u hu ↦ by
        have hut : u ≠ t := fun heq ↦ ht (heq ▸ hu)
        obtain ⟨call', e', hcall', he'⟩ := hts u (List.mem_cons_of_mem _ hu)
        exact ⟨call', e', by simpa [hut] using hcall', he'⟩)
    refine ⟨m', ?_, hinv', fun u ↦ ?_⟩
    · rw [List.map_cons, run_cons, hstep]
      exact hm'
    · rw [hcalls u]
      by_cases hut : u = t
      · rw [hut, if_neg ht, if_pos List.mem_cons_self, hcall, Option.map_some,
          ← hinv.response_apply he]
        exact Function.update_self ..
      · simp [hut]

omit [DecidableEq τ] [DecidableEq θ] in
private theorem exists_edit {s : SharedDDS θ τ α κ} {t : θ} {call : DDSCall τ κ} {pc : SharedDDSPc} {l : ℕ}
    (hl : pc.listener = some l) (hnone : s.effected t call pc = none) :
    ∃ e, call.edit = some e := by
  have hcurrent : call.topic.bind s.listeners = some l := by
    cases pc with
    | release k =>
      cases hl
      simp only [effected] at hnone
      split at hnone
      · assumption
      · cases hnone
    | editing k =>
      cases hl
      simp only [effected] at hnone
      split at hnone
      · next hboth => exact hboth.1
      · cases hnone
    | _ => cases hl
  cases call with
  | subscribe topic callback | unsubscribe topic callback => exact ⟨_, rfl⟩
  | stop => cases hcurrent

omit [DecidableEq τ] [DecidableEq θ] in
private theorem effected_of_cleared {s : SharedDDS θ τ α κ} (hcleared : s.listeners = fun _ ↦ none)
    {t : θ} {call : DDSCall τ κ} {pc : SharedDDSPc} {l : ℕ} (hl : pc.listener = some l) :
    s.effected t call pc = some call.response := by
  have hnone : call.topic.bind s.listeners = none := by
    rw [hcleared]
    cases call.topic <;> rfl
  cases pc <;> cases hl <;> simp [effected, hnone]

omit [DecidableEq τ] [DecidableEq θ] in
private theorem effected_eq_none_or (s : SharedDDS θ τ α κ) (t : θ) (call : DDSCall τ κ)
    {pc : SharedDDSPc} {l : ℕ} (hl : pc.listener = some l) :
    s.effected t call pc = none ∨ s.effected t call pc = some call.response := by
  cases pc <;> cases hl <;> simp only [effected] <;> split <;> simp

omit [DecidableEq τ] [DecidableEq θ] in
/-- A call that has got a listener and has not taken effect. -/
def Overtaken (s : SharedDDS θ τ α κ) (t : θ) : Prop :=
  ∃ call pc l, s.calls t = some (call, pc) ∧ pc.listener = some l ∧ s.effected t call pc = none

/-- The listeners are cleared: the calls that have got one of them take effect, then the `stop`. -/
theorem Related.clearListeners {s : SharedDDS θ τ α κ}
    {m : Atomic θ (DDS τ α κ) (DDSCall τ κ) DDSResponse} (h : Related s m) {t : θ}
    (hpc : s.calls t = some (.stop, .clearListeners)) :
    Matched ({ s with listeners := fun _ ↦ none }.goto t (some (.stop, .giveUp .done))) m none := by
  classical
  obtain ⟨A, hA⟩ := h.callers
  have hmem : ∀ u, u ∈ (A.filter s.Overtaken).toList ↔ s.Overtaken u := by
    intro u
    rw [Finset.mem_toList, Finset.mem_filter, and_iff_right_iff_imp]
    rintro ⟨call, pc, l, hu, -, -⟩
    exact hA u (by simp [hu])
  obtain ⟨m', hrun, hinv', hcalls⟩ := exists_effects h.inv (A.filter s.Overtaken).nodup_toList
    fun u hu ↦ by
      obtain ⟨call, pc, l, hcall, hl, hnone⟩ := (hmem u).mp hu
      obtain ⟨e, he⟩ := exists_edit hl hnone
      exact ⟨call, e, by simp [h.calls, pending, hcall, hnone], he⟩
  simp only [hmem] at hcalls
  have ht : ¬ s.Overtaken t := by
    rintro ⟨call, pc, l, hcall, hl, -⟩
    cases hpc.symm.trans hcall
    cases hl
  have hm' : m'.calls t = some (.stop, none) := by
    simp [hcalls, ht, h.calls, pending, hpc, effected]
  refine ⟨(A.filter s.Overtaken).toList.map (fun u ↦ .effect u true) ++ [.effect t true], _,
    by rw [run_append, hrun, Option.bind_some, run_cons, Atomic.step_effect hm']; rfl, ?_, ?_⟩
  · simp [AtomicAction.event, List.filterMap_map, Function.comp_def]
  constructor
  case mapped => exact h.mapped.clearListeners hpc
  case edited => exact h.edited.move hpc rfl rfl le_rfl (by simp) (by simp)
  case callers =>
    refine ⟨A, fun u hu ↦ ?_⟩
    by_cases hut : u = t
    · exact hA u (by simp [hut, hpc])
    · exact hA u (by simpa [goto, hut] using hu)
  case inv => exact hinv'.apply .stop true
  case registered => exact fun _ ↦ rfl
  case readers => exact fun _ hreader ↦ absurd hreader Bool.false_ne_true
  case calls =>
    have hcleared : ∀ calls lock, (⟨lock, s.readers, fun _ ↦ none, s.objects, s.size, calls⟩ :
        SharedDDS θ τ α κ).listeners = fun _ ↦ none := fun _ _ ↦ rfl
    intro u
    by_cases hut : u = t
    · subst hut
      simp [pending, goto, effected, DDS.apply]
    simp only [Function.update_of_ne hut, hcalls, h.calls, pending, goto]
    cases hu : s.calls u with
    | none => simp
    | some call =>
      obtain ⟨call, pc⟩ := call
      cases hl : pc.listener with
      | none =>
        have hnot : ¬ s.Overtaken u := by
          rintro ⟨_, _, l, hu', hl', -⟩
          cases hu.symm.trans hu'
          rw [hl] at hl'
          cases hl'
        rw [if_neg hnot]
        cases pc with
        | release k | editing k => cases hl
        | _ => rfl
      | some l =>
        simp only [Option.map_some]
        rw [effected_of_cleared (hcleared _ _) hl]
        rcases s.effected_eq_none_or u call hl with hnone | hsome
        · rw [if_pos ⟨call, pc, l, hu, hl, hnone⟩]
        · rw [hsome]
          split <;> rfl

/-- A call returns. -/
theorem Related.return {s : SharedDDS θ τ α κ} {m : Atomic θ (DDS τ α κ) (DDSCall τ κ) DDSResponse}
    (h : Related s m) {t : θ} {call : DDSCall τ κ} {response : DDSResponse}
    (hpc : s.calls t = some (call, .return response)) :
    Matched (s.goto t none) m (some (.respond t response)) := by
  have hm : m.calls t = some (call, some response) := by simp [h.calls, pending, hpc, effected]
  refine ⟨[.respond t response], _, by rw [run_cons, Atomic.step_respond hm]; rfl, rfl, ?_⟩
  have hcalls : (s.goto t none).calls = Function.update s.calls t none := rfl
  refine h.move ?_ ?_ hcalls h.inv h.registered h.readers (fun _ _ _ _ _ ↦ ?_) ?_
  · apply h.mapped.move hpc hcalls
    case hreaders | hlisteners | hsize => rfl
    case hothers => exact fun _ _ ↦ id
    all_goals simp
  · exact h.edited.move hpc hcalls rfl le_rfl (by simp) (by simp)
  · rfl
  · simp [pending, goto]

/-- A call is made. -/
theorem Related.call {s : SharedDDS θ τ α κ} {m : Atomic θ (DDS τ α κ) (DDSCall τ κ) DDSResponse}
    (h : Related s m) {t : θ} (hpc : s.calls t = none) (call : DDSCall τ κ) :
    Matched (s.goto t (some (call, .acquire))) m (some (.invoke t call)) := by
  have hm : m.calls t = none := by simp [h.calls, pending, hpc]
  refine ⟨[.invoke t call], _, by rw [run_cons, Atomic.step_invoke hm]; rfl, rfl, ?_⟩
  have hcalls : (s.goto t (some (call, .acquire))).calls =
      Function.update s.calls t (some (call, .acquire)) := rfl
  refine h.move ?_ ?_ hcalls h.inv h.registered h.readers (fun _ _ _ _ _ ↦ ?_) ?_
  · apply h.mapped.move hpc hcalls
    case hreaders | hlisteners | hsize => rfl
    case hothers => exact fun _ _ ↦ id
    case hgot => rintro _ _ l ⟨⟩ ⟨⟩
    all_goals simp [SharedDDSPc.locked]
  · exact h.edited.move hpc hcalls rfl le_rfl (by simp) (by simp)
  · rfl
  · simp [pending, goto, effected]

/-- The thread of a listener takes a step. -/
theorem Related.data {s : SharedDDS θ τ α κ} {m : Atomic θ (DDS τ α κ) (DDSCall τ κ) DDSResponse}
    (h : Related s m) {l : ℕ} {o : SharedListener θ α κ} (ho : o.Inv)
    (hedits : o.edits = (s.objects l).edits)
    (hcallbacks : o.listener.callbacks = (s.objects l).listener.callbacks) :
    Matched { s with objects := Function.update s.objects l o } m none := by
  have hobjects : ∀ k, (Function.update s.objects l o k).edits = (s.objects k).edits ∧
      (Function.update s.objects l o k).listener.callbacks =
        (s.objects k).listener.callbacks := by
    intro k
    rw [Function.update_apply]
    split
    · next hk => rw [hk]; exact ⟨hedits, hcallbacks⟩
    · exact ⟨rfl, rfl⟩
  refine ⟨[], m, rfl, rfl, ?_⟩
  constructor
  case mapped =>
    obtain ⟨_, _, _, _, _, _, _, _, _, _⟩ := h.mapped
    constructor <;> assumption
  case edited => exact h.edited.data ho hedits hcallbacks
  case callers => exact h.callers
  case inv => exact h.inv
  case registered =>
    intro topic
    rw [h.registered, SharedDDS.registered, SharedDDS.registered]
    cases s.listeners topic with
    | none => rfl
    | some k => exact (hobjects k).2.symm
  case readers => exact h.readers
  case calls =>
    intro t
    rw [h.calls, pending, pending]
    refine congrArg (Option.map · (s.calls t)) (funext fun call ↦ ?_)
    refine congrArg (call.1, ·) ?_
    apply effected_congr
    case hlisteners => rfl
    case hedits => exact fun k ↦ congrFun (hobjects k).1.symm t

/-- What is seen of a step. -/
def event (s : SharedDDS θ τ α κ) :
    SharedDDSAction θ τ α κ → Option (CallEvent θ (DDSCall τ κ) DDSResponse)
  | .call t call => some (.invoke t call)
  | .next t _ =>
    match s.calls t with
    | some (_, .return response) => some (.respond t response)
    | _ => none
  | .onDataAvailable _ _ | .dispatch _ _ => none

/-- Every statement has its match. -/
theorem Related.next {s s' : SharedDDS θ τ α κ}
    {m : Atomic θ (DDS τ α κ) (DDSCall τ κ) DDSResponse} (h : Related s m) {t : θ} {opens : Bool}
    {call : DDSCall τ κ} {pc : SharedDDSPc} (hpc : s.calls t = some (call, pc))
    (hs : s.next t opens call pc = some s') : Matched s' m (event s (.next t opens)) := by
  cases pc with
  | acquire =>
    simp only [event, hpc]
    simp only [SharedDDS.next] at hs
    split_ifs at hs with hfree
    cases hs
    exact h.acquire hpc hfree
  | lookup =>
    simp only [event, hpc]
    cases call <;> cases hs
    · exact h.lookup_subscribe hpc
    · exact h.lookup_unsubscribe hpc
    · exact h.clearReaders hpc
  | «open» =>
    simp only [event, hpc]
    cases call <;> cases hs
    exact h.open hpc opens
  | enterReader =>
    simp only [event, hpc]
    cases call <;> cases hs
    exact h.enterReader hpc
  | enterListener =>
    simp only [event, hpc]
    cases call <;> cases hs
    exact h.enterListener hpc
  | fetch =>
    simp only [event, hpc]
    cases call <;> cases hs
    exact h.fetch hpc
  | clearListeners =>
    simp only [event, hpc]
    cases call <;> cases hs
    exact h.clearListeners hpc
  | release l =>
    simp only [event, hpc]
    simp only [SharedDDS.next] at hs
    obtain ⟨e, he, hs⟩ := Option.bind_eq_some_iff.mp hs
    obtain ⟨s₁, hs₁, rfl⟩ := Option.map_eq_some_iff.mp hs
    obtain ⟨o, ho, rfl⟩ := Option.map_eq_some_iff.mp hs₁
    exact h.release hpc he ho
  | giveUp response =>
    simp only [event, hpc]
    simp only [SharedDDS.next] at hs
    cases hs
    exact h.giveUp hpc
  | editing l =>
    simp only [event, hpc]
    simp only [SharedDDS.next] at hs
    obtain ⟨s₁, hs₁, rfl⟩ := Option.map_eq_some_iff.mp hs
    obtain ⟨o, ho, rfl⟩ := Option.map_eq_some_iff.mp hs₁
    simp only [Function.update_self]
    exact h.editing hpc ho
  | «return» response =>
    simp only [event, hpc]
    simp only [SharedDDS.next] at hs
    cases hs
    exact h.return hpc

/-- The object implements the one whose calls take place at once. -/
theorem implements_apply : Implements (step (θ := θ) (τ := τ) (α := α) (κ := κ)) event DDS.apply
    Related := by
  intro s a s' m h hs
  cases a with
  | call t call =>
    simp only [step] at hs
    split_ifs at hs with hcall
    cases hs
    exact h.call hcall call
  | next t opens =>
    obtain ⟨⟨call, pc⟩, hpc, hs⟩ := Option.bind_eq_some_iff.mp hs
    exact h.next hpc hs
  | onDataAvailable l taken =>
    simp only [step] at hs
    split_ifs at hs
    obtain ⟨o, ho, rfl⟩ := Option.map_eq_some_iff.mp hs
    have hinv := SharedListener.inv_step _ _ _ (h.edited.objects l) ho
    obtain ⟨k, hk, rfl⟩ := Option.map_eq_some_iff.mp ho
    refine h.data hinv rfl ?_
    simp only [Listener.onDataAvailable] at hk
    split at hk <;> cases hk
    rfl
  | dispatch l ending =>
    simp only [step] at hs
    split_ifs at hs
    obtain ⟨o, ho, rfl⟩ := Option.map_eq_some_iff.mp hs
    have hinv := SharedListener.inv_step _ _ _ (h.edited.objects l) ho
    obtain ⟨k, hk, rfl⟩ := Option.map_eq_some_iff.mp ho
    exact h.data hinv rfl (Listener.callbacks_advance hk)

omit [DecidableEq τ] [DecidableEq θ] in
private theorem related_init : Related ({} : SharedDDS θ τ α κ) { object := {} } where
  mapped := by constructor <;> simp
  edited := by
    constructor
    case objects => exact fun _ ↦ SharedListener.inv_init
    all_goals simp
  callers := ⟨∅, by simp⟩
  inv := DDS.inv_init
  registered := fun _ ↦ rfl
  readers := by simp
  calls := fun _ ↦ rfl

/-- The subscription side of a DDS object is linearizable. Every run, of any number of threads and
with deliveries at any time, looks from outside like a run of the object whose calls take place at
once, with the same responses and the same callbacks registered; what these calls did is what the
calls do one after the other in some order. -/
theorem subscriptions_linearizable {as : List (SharedDDSAction θ τ α κ)} {s : SharedDDS θ τ α κ}
    (hs : run step {} as = some s) :
    ∃ (bs : List (AtomicAction θ Bool (DDSCall τ κ) DDSResponse))
      (m : Atomic θ (DDS τ α κ) (DDSCall τ κ) DDSResponse),
      run (Atomic.step DDS.apply) { object := {} } bs = some m ∧
      bs.filterMap AtomicAction.event = events step event {} as ∧
      (∀ topic, m.object.registered topic = s.registered topic) ∧
      ∃ calls, m.object = Atomic.applyAll DDS.apply {} calls := by
  obtain ⟨bs, m, hm, hevents, h⟩ := implements_apply.run related_init hs
  exact ⟨bs, m, hm, hevents, h.registered, Atomic.exists_applyAll bs hm⟩

/-- A first `subscribe` is overtaken by a `stop` before it adds its callback. -/
def overtakenRun : List (SharedDDSAction Bool Unit Unit Unit) :=
  .call true (.subscribe () ()) :: List.replicate 7 (.next true true) ++
    .call false .stop :: List.replicate 5 (.next false true) ++ List.replicate 5 (.next true true)

/-- `subscriptions_linearizable` where a `stop` overtakes a `subscribe`. -/
theorem subscriptions_linearizable_overtakenRun : ∃ s, run step {} overtakenRun = some s ∧
    s.registered () = [] ∧
    ∃ (bs : List (AtomicAction Bool Bool (DDSCall Unit Unit) DDSResponse))
      (m : Atomic Bool (DDS Unit Unit Unit) (DDSCall Unit Unit) DDSResponse),
      run (Atomic.step DDS.apply) { object := {} } bs = some m ∧
      bs.filterMap AtomicAction.event = events step event {} overtakenRun ∧
      (∀ topic, m.object.registered topic = s.registered topic) ∧
      ∃ calls, m.object = Atomic.applyAll DDS.apply {} calls :=
  ⟨_, rfl, rfl, subscriptions_linearizable rfl⟩

end SharedDDS

end HzjDds.PubSub
