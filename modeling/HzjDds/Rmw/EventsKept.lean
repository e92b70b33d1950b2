import HzjDds.Rmw.EventCounts

/-!
# No change of a status is lost while the mask stays

Library `Rmw`. Source: `custom_subscriber_info.cpp:125–415` and `DataReaderImpl.cpp:943–1031,1318–1345`.
`take_event` queries the reader without `on_new_event_m_`, and keeps what it has queried only if the
listener has not been told of anything meanwhile. Nothing is lost so where the reader either tells
the listener all that it counts before a query can see it, or tells it nothing at all.
-/

namespace HzjDds.Rmw

open HzjDds.Transition

universe u

/-! ## Changes of an event -/

/-- No counter of an event has changed. -/
def Unchanged (e : RmwEventType) (status : EventStatus) : Prop :=
  ∀ c ∈ e.counters, status.change c = 0

/-- Lost samples do not become fewer. -/
def Sound (e : RmwEventType) (status : EventStatus) : Prop :=
  e = .message_lost → 0 ≤ (status.change .total).toInt

/-- A new callback is told of every change of the event. That of `liveliness_changed` is not told of
one that is not positive; that of `subscription_matched` is told before the query. -/
def RmwEventType.tellable : RmwEventType → Bool
  | liveliness_changed | subscription_matched => false
  | _ => true

/-- Whether a call sets a callback. -/
def EventUse.callback : EventUse → Bool
  | take => false
  | set callback _ => callback

private theorem unchanged_clear (e : RmwEventType) (status : EventStatus) : Unchanged e status.clear :=
  fun _ _ ↦ rfl

private theorem sound_clear (e : RmwEventType) (status : EventStatus) : Sound e status.clear :=
  fun _ ↦ le_rfl

/-- What an occurrence does to a sound status is sound. -/
theorem Sound.record {o : Occurrence} {status : EventStatus} (h : Sound o.event_type status) :
    Sound o.event_type (o.record status) := by
  intro he
  have hold := h he
  cases o with
  | sample_lost samples =>
    simp only [Occurrence.record, Function.update_self, BitVec.toInt_ofInt, int32Max]
    have hlt := BitVec.toInt_lt (x := status.change .total)
    rw [Int.bmod_eq_of_le] <;> omega
  | _ => cases he

private theorem Sound.positive_or_unchanged {e : RmwEventType} {status : EventStatus} (h : Sound e status)
    (he : e.tellable = true) (hqueried : e.queried = true) :
    status.isPositive e = true ∨ Unchanged e status := by
  cases e with
  | requested_deadline_missed | requested_qos_incompatible =>
    by_cases hzero : status.change .total = 0
    · exact .inr (by simpa [Unchanged, RmwEventType.counters] using hzero)
    · refine .inl (decide_eq_true (Nat.pos_of_ne_zero fun hnat ↦ hzero ?_))
      exact BitVec.eq_of_toNat_eq hnat
  | message_lost =>
    have hle := h rfl
    by_cases hzero : status.change .total = 0
    · exact .inr (by simpa [Unchanged, RmwEventType.counters] using hzero)
    · refine .inl (decide_eq_true (lt_of_le_of_ne hle fun hint ↦ hzero ?_))
      exact BitVec.eq_of_toInt_eq hint.symm
  | liveliness_changed | subscription_matched => cases he
  | subscription_incompatible_type => cases hqueried

namespace EventPc

/-- A reader has counted an occurrence and is about to tell the listener. -/
def Counts (o : Occurrence) : EventPc → Prop
  | dispatch o' | get o' | lockEvent o' none | update o' none => o' = o
  | _ => False

/-- A call reports the status of an event, or tells a new callback of it. -/
def Handles (e : RmwEventType) : EventPc → Prop
  | report e' | tell e' _ => e' = e
  | _ => False

/-- What a call knows where it stands; `on` says whether the status is in the mask. -/
def Fits (e : RmwEventType) (on : Prop) : EventPc → Prop
  | get o => o.event_type = e → on
  | lockEvent o _ | update o _ => o.event_type = e → o.brought = none → on
  | getMask e' callback => e' = e → callback = true → e.tellable = true
  | lock e' use | check e' use => e' = e → use.callback = true → e.tellable = true
  | query e' use => e' = e → (use = .take ∨ e.tellable = true) ∧
      (e.queried = true ∨ e = .subscription_matched)
  | relock e' use current | adopt e' use current => e' = e →
      ((use = .take ∨ e.tellable = true) ∧ (e.queried = true ∨ e = .subscription_matched)) ∧
      Sound e current ∧ (on → e.queried = true → Unchanged e current)
  | tell e' _ => e' = e → e.tellable = true
  | _ => True

/-- A reader counts what is queried under its mutex, and matches under that of its listener. -/
theorem Counts.holds {pc : EventPc} {o : Occurrence} (h : pc.Counts o) {m : EventMutex}
    (hm : o.mutex = some m) : pc.holds m = true := by
  cases pc with
  | dispatch o' | get o' =>
    cases h
    exact decide_eq_true hm
  | lockEvent o' status =>
    cases status <;> cases h
    exact decide_eq_true hm
  | update o' status =>
    cases status <;> cases h
    simp [EventPc.holds, hm]
  | _ => cases h

/-- A status is reported and told under `on_new_event_m_`. -/
theorem Handles.holds {pc : EventPc} {e : RmwEventType} (h : pc.Handles e) :
    pc.holds .on_new_event = true := by
  cases pc with
  | report e' | tell e' status_mask => rfl
  | _ => cases h

end EventPc

namespace RMWSubscriptionEvent

variable {θ : Type u} [DecidableEq θ] {s s' : RMWSubscriptionEvent θ} {t : θ} {pc : EventPc}
  {e : RmwEventType} {on : Prop}

omit [DecidableEq θ] in
/-- The statuses of an event in a reachable state, as long as the mask stays: while the flag is not
set nothing is left with the subscription, and what the reader has counted and not passed on belongs
to a call that passes it on. -/
structure Kept (e : RmwEventType) (on : Prop) (s : RMWSubscriptionEvent θ) : Prop where
  locked : Locked s
  mask : e.status ∈ s.status_mask ↔ on
  fits : ∀ t pc, s.calls t = some pc → pc.Fits e on
  sound : Sound e (s.statuses e)
  off : ¬ on → e ≠ .subscription_incompatible_type → s.changed e = false
  flag : s.changed e = false →
    Unchanged e (s.event_statuses e) ∨ ∃ t pc, s.calls t = some pc ∧ pc.Handles e
  telling : ∀ t status_mask, s.calls t = some (.tell e status_mask) → s.changed e = false →
    (s.event_statuses e).isPositive e = true ∨ Unchanged e (s.event_statuses e)
  counting : on → e ≠ .subscription_incompatible_type → Unchanged e (s.statuses e) ∨
    ∃ t pc o, s.calls t = some pc ∧ pc.Counts o ∧ o.event_type = e ∧ ∀ matching, o = .matched matching →
      (s.statuses e).change .current = if matching then 1 else -1

omit [DecidableEq θ] in
/-- Two calls that have one mutex are one. -/
theorem Locked.eq_of_holds (h : Locked s) {u : θ} {pc' : EventPc} (ht : s.calls t = some pc)
    (hu : s.calls u = some pc') {m : EventMutex} (hpc : pc.holds m = true)
    (hpc' : pc'.holds m = true) : u = t ∧ pc' = pc := by
  have htm := h.of_calls ht hpc
  rw [h.of_calls hu hpc'] at htm
  cases htm
  exact ⟨rfl, Option.some.inj (hu.symm.trans ht)⟩

/-- A step of one thread; what it does not settle is as it was. -/
theorem Kept.move (h : Kept e on s) (hpc : s.calls t = some pc) {after : Option EventPc}
    (hlocked : Locked s') (hcalls : s'.calls = Function.update s.calls t after)
    (hmask : e.status ∈ s'.status_mask ↔ e.status ∈ s.status_mask)
    (hfits : ∀ next, after = some next → next.Fits e on) (hsound : Sound e (s'.statuses e))
    (hoff : ¬ on → e ≠ .subscription_incompatible_type → s'.changed e = false)
    (hflag : s'.changed e = false → Unchanged e (s'.event_statuses e) ∨
      (∃ next, after = some next ∧ next.Handles e) ∨
      s.changed e = false ∧ s'.event_statuses e = s.event_statuses e ∧ ¬ pc.Handles e)
    (htell : ∀ status_mask, after = some (.tell e status_mask) → s'.changed e = false →
      (s'.event_statuses e).isPositive e = true ∨ Unchanged e (s'.event_statuses e))
    (htelling : pc.holds .on_new_event = true ∨
      s'.changed e = s.changed e ∧ s'.event_statuses e = s.event_statuses e)
    (hcounting : on → e ≠ .subscription_incompatible_type → Unchanged e (s'.statuses e) ∨
      (∃ next o, after = some next ∧ next.Counts o ∧ o.event_type = e ∧
        ∀ matching, o = .matched matching →
          (s'.statuses e).change .current = if matching then 1 else -1) ∨
      s'.statuses e = s.statuses e ∧
        ∀ o, o.event_type = e → pc.Counts o → ∃ next, after = some next ∧ next.Counts o) :
    Kept e on s' := by
  have hothers : ∀ u pc', u ≠ t → s.calls u = some pc' → s'.calls u = some pc' :=
    fun u pc' hut hu ↦ by rw [hcalls, Function.update_of_ne hut, hu]
  have hself : s'.calls t = after := by rw [hcalls, Function.update_self]
  constructor
  case locked => exact hlocked
  case mask => exact hmask.trans h.mask
  case fits =>
    intro u pc' hu
    rw [hcalls, Function.update_apply] at hu
    split at hu
    · exact hfits pc' hu
    · exact h.fits u pc' hu
  case sound => exact hsound
  case off => exact hoff
  case flag =>
    intro hchanged
    rcases hflag hchanged with hzero | ⟨next, hnext, hhandle⟩ | ⟨hold, hevents, hpcs⟩
    · exact .inl hzero
    · exact .inr ⟨t, next, hself.trans hnext, hhandle⟩
    · rw [hevents]
      refine (h.flag hold).imp_right ?_
      rintro ⟨u, pc', hu, hhandle⟩
      have hut : u ≠ t := by
        rintro rfl
        cases hpc.symm.trans hu
        exact hpcs hhandle
      exact ⟨u, pc', hothers u pc' hut hu, hhandle⟩
  case telling =>
    intro u status_mask hu
    rw [hcalls, Function.update_apply] at hu
    split at hu
    · exact htell status_mask hu
    · next hut =>
      rcases htelling with hholds | ⟨hchanged, hevents⟩
      · exact absurd (h.locked.eq_of_holds hpc hu hholds rfl).1 hut
      · rw [hchanged, hevents]
        exact h.telling u status_mask hu
  case counting =>
    intro hon he
    rcases hcounting hon he with hzero | ⟨next, o, hnext, hcount⟩ | ⟨hstatuses, hcounts⟩
    · exact .inl hzero
    · exact .inr ⟨t, next, o, hself.trans hnext, hcount⟩
    · rw [hstatuses]
      refine (h.counting hon he).imp_right ?_
      rintro ⟨u, pc', o, hu, hcount, ho, hmatched⟩
      by_cases hut : u = t
      · subst hut
        cases hpc.symm.trans hu
        obtain ⟨next, hnext, hcount'⟩ := hcounts o ho hcount
        exact ⟨u, next, o, hself.trans hnext, hcount', ho, hmatched⟩
      · exact ⟨u, pc', o, hothers u pc' hut hu, hcount, ho, hmatched⟩

/-- A step that leaves the statuses of the event alone. -/
theorem Kept.quiet (h : Kept e on s) (hpc : s.calls t = some pc) {after : Option EventPc}
    (hlocked : Locked s') (hcalls : s'.calls = Function.update s.calls t after)
    (hmask : e.status ∈ s'.status_mask ↔ e.status ∈ s.status_mask)
    (hstatuses : s'.statuses e = s.statuses e) (hevents : s'.event_statuses e = s.event_statuses e)
    (hchanged : s'.changed e = s.changed e) (hfits : ∀ next, after = some next → next.Fits e on)
    (hcounts : on → ∀ o, o.event_type = e → pc.Counts o → ∃ next, after = some next ∧ next.Counts o)
    (hhandles : ¬ pc.Handles e) (htell : ∀ next, after = some next → ¬ next.Handles e) :
    Kept e on s' := by
  apply h.move hpc hlocked hcalls hmask hfits
  case hsound => exact hstatuses ▸ h.sound
  case hoff => exact hchanged ▸ h.off
  case hflag => exact fun hflag ↦ .inr (.inr ⟨hchanged ▸ hflag, hevents, hhandles⟩)
  case htell => exact fun status_mask hnext ↦ absurd rfl (htell _ hnext)
  case htelling => exact .inr ⟨hchanged, hevents⟩
  case hcounting => exact fun hon _ ↦ .inr (.inr ⟨hstatuses, hcounts hon⟩)

/-! ## The steps that touch the statuses -/

/-- The reader counts an occurrence of the event. -/
theorem Kept.record (h : Kept e on s) {o : Occurrence} (hpc : s.calls t = some (.record o))
    (ho : o.event_type = e)
    (hlocked : Locked ((s.setStatus e (o.record (s.statuses e))).goto t (some (.dispatch o)))) :
    Kept e on ((s.setStatus e (o.record (s.statuses e))).goto t (some (.dispatch o))) := by
  subst ho
  have hstatus : ((s.setStatus o.event_type (o.record (s.statuses o.event_type))).goto t
      (some (.dispatch o))).statuses o.event_type = o.record (s.statuses o.event_type) :=
    Function.update_self ..
  apply h.move hpc hlocked rfl Iff.rfl
  case hfits => rintro next ⟨⟩; trivial
  case hsound =>
    rw [hstatus]
    exact h.sound.record
  case hoff => exact h.off
  case hflag => exact fun hflag ↦ .inr (.inr ⟨hflag, rfl, id⟩)
  case htell => rintro status_mask ⟨⟩
  case htelling => exact .inr ⟨rfl, rfl⟩
  case hcounting =>
    intro hon he
    refine .inr (.inl ⟨.dispatch o, o, rfl, rfl, rfl, fun matching hmatching ↦ ?_⟩)
    subst hmatching
    -- no other match is being counted, so the change was none before
    have hzero : (s.statuses .subscription_matched).change .current = 0 := by
      rcases h.counting hon he with hzero | ⟨u, pc, o', hu, hcount, ho', -⟩
      · exact hzero .current (by simp [RmwEventType.counters, Occurrence.event_type])
      · have hmutex : o'.mutex = some .matching_info := by cases o' <;> first | rfl | cases ho'
        obtain ⟨-, rfl⟩ := h.locked.eq_of_holds hpc hu rfl (hcount.holds hmutex)
        cases hcount
    rw [hstatus]
    cases matching <;> simp [Occurrence.record, Occurrence.event_type, hzero]

/-- A query takes the status of the event over. -/
theorem Kept.query (h : Kept e on s) (hqos : e = .requested_qos_incompatible → ¬ on) {use : EventUse}
    (hpc : s.calls t = some (.query e use)) (hfree : s.mutexes .reader = none)
    (hlocked : Locked
      ((s.setStatus e (s.statuses e).clear).goto t (some (.relock e use (s.statuses e))))) :
    Kept e on ((s.setStatus e (s.statuses e).clear).goto t (some (.relock e use (s.statuses e)))) := by
  have hstatus : ((s.setStatus e (s.statuses e).clear).goto t
      (some (.relock e use (s.statuses e)))).statuses e = (s.statuses e).clear :=
    Function.update_self ..
  apply h.move hpc hlocked rfl Iff.rfl
  case hfits =>
    rintro next ⟨⟩
    refine fun _ ↦ ⟨h.fits t _ hpc rfl, h.sound, fun hon hflagged ↦ ?_⟩
    -- what is counted and not passed on is so under the mutex of the reader
    rcases h.counting hon (by rintro rfl; cases hflagged) with hzero | ⟨v, pc, o, hv, hcount, ho, -⟩
    · exact hzero
    · have hmutex : o.mutex = some .reader := by
        subst ho
        cases o with
        | incompatible_qos _ => exact absurd hon (hqos rfl)
        | matched _ | inconsistent_topic _ _ => cases hflagged
        | _ => rfl
      rw [h.locked.of_calls hv (hcount.holds hmutex)] at hfree
      cases hfree
  case hsound =>
    rw [hstatus]
    exact sound_clear e _
  case hoff => exact h.off
  case hflag => exact fun hflag ↦ .inr (.inr ⟨hflag, rfl, id⟩)
  case htell => rintro status_mask ⟨⟩
  case htelling => exact .inr ⟨rfl, rfl⟩
  case hcounting =>
    intro _ _
    rw [hstatus]
    exact .inl (unchanged_clear e _)

/-- The reader takes the status that it passes on. -/
theorem Kept.get (h : Kept e on s) {o : Occurrence} (hpc : s.calls t = some (.get o))
    {next : EventPc} (hnext : next = .finish o ∨ next = .lockEvent o (some (s.statuses e)))
    (hlocked : Locked ((s.setStatus e (s.statuses e).clear).goto t (some next))) :
    Kept e on ((s.setStatus e (s.statuses e).clear).goto t (some next)) := by
  have hstatus : ((s.setStatus e (s.statuses e).clear).goto t (some next)).statuses e =
      (s.statuses e).clear := Function.update_self ..
  apply h.move hpc hlocked rfl Iff.rfl
  case hfits =>
    rintro _ ⟨⟩
    rcases hnext with rfl | rfl
    · trivial
    · exact fun ho _ ↦ h.fits t _ hpc ho
  case hsound =>
    rw [hstatus]
    exact sound_clear e _
  case hoff => exact h.off
  case hflag => exact fun hflag ↦ .inr (.inr ⟨hflag, rfl, id⟩)
  case htell =>
    rintro status_mask heq
    rcases hnext with rfl | rfl <;> cases heq
  case htelling => exact .inr ⟨rfl, rfl⟩
  case hcounting =>
    intro _ _
    rw [hstatus]
    exact .inl (unchanged_clear e _)

/-- The listener is told. -/
theorem Kept.update (h : Kept e on s) {o : Occurrence} {status : Option EventStatus}
    (hpc : s.calls t = some (.update o status)) (ho : o.event_type = e) (hlocked : Locked s')
    (hcalls : s'.calls = Function.update s.calls t (some (.finish o)))
    (hmask : s'.status_mask = s.status_mask) (hchanged : s'.changed e = true)
    (hstatus : s'.statuses e = if status.isNone then (s.statuses e).clear else s.statuses e) :
    Kept e on s' := by
  apply h.move hpc hlocked hcalls (by rw [hmask])
  case hfits => rintro _ ⟨⟩; trivial
  case hsound =>
    rw [hstatus]
    split
    · exact sound_clear e _
    · exact h.sound
  case hoff =>
    intro hoff he
    have hb : o.brought = none := by
      subst ho
      cases o <;> first | rfl | exact absurd rfl he
    exact absurd (h.fits t _ hpc ho hb) hoff
  case hflag => simp [hchanged]
  case htell => simp
  case htelling => exact .inl (by simp [EventPc.holds])
  case hcounting =>
    intro _ _
    cases status with
    | none =>
      rw [hstatus]
      exact .inl (unchanged_clear e _)
    | some status => exact .inr (.inr ⟨hstatus, fun o' _ hcount ↦ hcount.elim⟩)

/-- A call that has `on_new_event_m_` goes on to the report, or to a new callback. -/
theorem Kept.handle (h : Kept e on s) (hpc : s.calls t = some pc) {next : EventPc}
    (hholds : pc.holds .on_new_event = true) (hcounts : ∀ o, ¬ pc.Counts o) (hlocked : Locked s')
    (hcalls : s'.calls = Function.update s.calls t (some next))
    (hmask : s'.status_mask = s.status_mask) (hstatus : s'.statuses e = s.statuses e)
    (hhandle : next.Handles e) (hfits : next.Fits e on)
    (hchanged : s'.changed e = false ∨ s'.changed e = s.changed e)
    (htell : ∀ status_mask, next = .tell e status_mask → s'.changed e = false →
      (s'.event_statuses e).isPositive e = true ∨ Unchanged e (s'.event_statuses e)) :
    Kept e on s' := by
  apply h.move hpc hlocked hcalls (by rw [hmask])
  case hfits =>
    rintro _ ⟨⟩
    exact hfits
  case hsound => exact hstatus ▸ h.sound
  case hoff =>
    intro hoff he
    rcases hchanged with hchanged | hchanged
    · exact hchanged
    · rw [hchanged]
      exact h.off hoff he
  case hflag => exact fun _ ↦ .inr (.inl ⟨next, rfl, hhandle⟩)
  case htell => exact fun status_mask heq ↦ htell status_mask (Option.some.inj heq)
  case htelling => exact .inl hholds
  case hcounting => exact fun _ _ ↦ .inr (.inr ⟨hstatus, fun o _ hcount ↦ (hcounts o hcount).elim⟩)

/-- A call that has `on_new_event_m_` leaves nothing with the subscription, unless the flag is set. -/
theorem Kept.settle (h : Kept e on s) (hpc : s.calls t = some pc) {after : Option EventPc}
    (hholds : pc.holds .on_new_event = true) (hcounts : ∀ o, ¬ pc.Counts o) (hlocked : Locked s')
    (hcalls : s'.calls = Function.update s.calls t after) (hmask : s'.status_mask = s.status_mask)
    (hstatus : s'.statuses e = s.statuses e) (hfits : ∀ next, after = some next → next.Fits e on)
    (hchanged : s'.changed e = false ∨ s'.changed e = s.changed e)
    (htell : ∀ next, after = some next → ¬ next.Handles e)
    (hflag : s'.changed e = false → Unchanged e (s'.event_statuses e)) : Kept e on s' := by
  apply h.move hpc hlocked hcalls (by rw [hmask]) hfits
  case hsound => exact hstatus ▸ h.sound
  case hoff =>
    intro hoff he
    rcases hchanged with hchanged | hchanged
    · exact hchanged
    · rw [hchanged]
      exact h.off hoff he
  case hflag => exact fun hfalse ↦ .inl (hflag hfalse)
  case htell => exact fun status_mask heq ↦ absurd rfl (htell _ heq)
  case htelling => exact .inl hholds
  case hcounting => exact fun _ _ ↦ .inr (.inr ⟨hstatus, fun o _ hcount ↦ (hcounts o hcount).elim⟩)

omit [DecidableEq θ] in
/-- Where a call has `on_new_event_m_` and neither reports nor tells, an unset flag means that nothing
is left with the subscription. -/
theorem Kept.unchanged (h : Kept e on s) (hpc : s.calls t = some pc)
    (hholds : pc.holds .on_new_event = true) (hhandles : ¬ pc.Handles e)
    (hchanged : s.changed e = false) : Unchanged e (s.event_statuses e) := by
  rcases h.flag hchanged with hzero | ⟨u, pc', hu, hhandle⟩
  · exact hzero
  · obtain ⟨-, rfl⟩ := h.locked.eq_of_holds hpc hu hholds hhandle.holds
    exact absurd hhandle hhandles

private theorem Kept.checkTake (h : Kept e on s) {e' : RmwEventType} (hpc : s.calls t = some (.check e' .take))
    (hs : s.next t (.check e' .take) = some s') : Kept e on s' := by
  have hlocked := h.locked.next hpc hs
  simp only [RMWSubscriptionEvent.next] at hs
  split at hs <;> cases hs
  · next hquery =>
    refine h.quiet hpc hlocked rfl Iff.rfl rfl rfl rfl ?_ (fun _ _ _ hcount ↦ hcount.elim) id
      (by rintro _ ⟨⟩; exact id)
    rintro _ ⟨⟩ rfl
    exact ⟨.inl rfl, hquery.symm.imp_left And.left⟩
  · by_cases he : e' = e
    · subst he
      exact h.handle hpc rfl (fun _ ↦ id) hlocked rfl rfl rfl rfl trivial
        (.inl (Function.update_self ..)) (by rintro _ ⟨⟩)
    · exact h.quiet hpc hlocked rfl Iff.rfl rfl rfl (Function.update_of_ne (Ne.symm he) ..)
        (by rintro _ ⟨⟩; trivial) (fun _ _ _ hcount ↦ hcount.elim) id (by rintro _ ⟨⟩; exact he)

/-- `set_on_new_event_callback` keeps the statuses in order when it looks at the event. -/
theorem Kept.checkSet (h : Kept e on s) {e' : RmwEventType} {callback : Bool}
    {status_mask : StatusMask} (hpc : s.calls t = some (.check e' (.set callback status_mask)))
    (hs : s.next t (.check e' (.set callback status_mask)) = some s') : Kept e on s' := by
  have hlocked := h.locked.next hpc hs
  have hfits := h.fits t _ hpc
  cases callback with
  | false =>
    cases hs
    exact h.quiet hpc hlocked rfl Iff.rfl rfl rfl rfl (by rintro _ ⟨⟩; trivial)
      (fun _ _ _ hcount ↦ hcount.elim) id (by rintro _ ⟨⟩; exact id)
  | true =>
    simp only [RMWSubscriptionEvent.next] at hs
    split at hs <;> cases hs
    · next hquery =>
      refine h.quiet hpc hlocked rfl Iff.rfl rfl rfl rfl ?_ (fun _ _ _ hcount ↦ hcount.elim) id
        (by rintro _ ⟨⟩; exact id)
      rintro _ ⟨⟩ rfl
      exact ⟨.inr (hfits rfl rfl), hquery.imp_right And.left⟩
    · by_cases hmatched : e' = .subscription_matched
      · simp only [if_pos hmatched] at hlocked ⊢
        exact h.quiet hpc hlocked rfl Iff.rfl rfl rfl rfl (by rintro _ ⟨⟩; trivial)
          (fun _ _ _ hcount ↦ hcount.elim) id (by rintro _ ⟨⟩; exact id)
      · simp only [if_neg hmatched] at hlocked ⊢
        by_cases he : e' = e
        · subst he
          exact h.handle hpc rfl (fun _ ↦ id) hlocked rfl rfl rfl rfl (fun _ ↦ hfits rfl rfl)
            (.inr rfl) fun _ _ hchanged ↦ .inr (h.unchanged hpc rfl id hchanged)
        · exact h.quiet hpc hlocked rfl Iff.rfl rfl rfl rfl
            (by rintro _ ⟨⟩; exact fun heq ↦ absurd heq he) (fun _ _ _ hcount ↦ hcount.elim) id
            (by rintro _ ⟨⟩; exact he)

private theorem Kept.adoptTake (h : Kept e on s) {e' : RmwEventType} {current : EventStatus}
    (hpc : s.calls t = some (.adopt e' .take current))
    (hs : s.next t (.adopt e' .take current) = some s') : Kept e on s' := by
  have hlocked := h.locked.next hpc hs
  simp only [RMWSubscriptionEvent.next] at hs
  split at hs <;> cases hs
  · by_cases he : e' = e
    · subst he
      refine h.settle hpc rfl (fun _ ↦ id) hlocked rfl rfl rfl (by rintro _ ⟨⟩)
        (.inl (Function.update_self ..)) (by rintro _ ⟨⟩) fun _ ↦ ?_
      simpa [release] using unchanged_clear e' _
    · exact h.quiet hpc hlocked rfl Iff.rfl rfl (Function.update_of_ne (Ne.symm he) ..)
        (Function.update_of_ne (Ne.symm he) ..) (by rintro _ ⟨⟩) (fun _ _ _ hcount ↦ hcount.elim) id
        (by rintro _ ⟨⟩)
  · by_cases he : e' = e
    · subst he
      exact h.handle hpc rfl (fun _ ↦ id) hlocked rfl rfl rfl rfl trivial
        (.inl (Function.update_self ..)) (by rintro _ ⟨⟩)
    · exact h.quiet hpc hlocked rfl Iff.rfl rfl (Function.update_of_ne (Ne.symm he) ..)
        (Function.update_of_ne (Ne.symm he) ..) (by rintro _ ⟨⟩; trivial)
        (fun _ _ _ hcount ↦ hcount.elim) id (by rintro _ ⟨⟩; exact he)

/-- `set_on_new_event_callback` keeps the statuses in order when it is back from the query. -/
theorem Kept.adoptSet (h : Kept e on s) {e' : RmwEventType} {callback : Bool}
    {status_mask : StatusMask} {current : EventStatus}
    (hpc : s.calls t = some (.adopt e' (.set callback status_mask) current))
    (hs : s.next t (.adopt e' (.set callback status_mask) current) = some s') : Kept e on s' := by
  have hlocked := h.locked.next hpc hs
  have hfits := h.fits t _ hpc
  simp only [RMWSubscriptionEvent.next] at hs
  split at hs <;> cases hs
  · by_cases he : e' = e
    · subst he
      refine h.settle hpc rfl (fun _ ↦ id) hlocked rfl rfl rfl (by rintro _ ⟨⟩; trivial) (.inr rfl)
        (by rintro _ ⟨⟩; exact id) fun _ ↦ ?_
      simpa using unchanged_clear e' _
    · exact h.quiet hpc hlocked rfl Iff.rfl rfl (Function.update_of_ne (Ne.symm he) ..) rfl
        (by rintro _ ⟨⟩; trivial) (fun _ _ _ hcount ↦ hcount.elim) id (by rintro _ ⟨⟩; exact id)
  · next hmatched =>
    by_cases he : e' = e
    · subst he
      obtain ⟨⟨huse, hqueried⟩, hsound, -⟩ := hfits rfl
      have htellable := huse.resolve_left (by simp)
      refine h.handle hpc rfl (fun _ ↦ id) hlocked rfl rfl rfl rfl (fun _ ↦ htellable) (.inr rfl) ?_
      intro _ _ hchanged
      have hevents : ((s.setEventStatus e' (if s.changed e' then s.event_statuses e' else
          current)).goto t (some (.tell e' status_mask))).event_statuses e' = current :=
        (Function.update_self ..).trans (if_neg (by simpa using hchanged))
      rw [hevents]
      exact hsound.positive_or_unchanged htellable (hqueried.resolve_right hmatched)
    · exact h.quiet hpc hlocked rfl Iff.rfl rfl (Function.update_of_ne (Ne.symm he) ..) rfl
        (by rintro _ ⟨⟩; exact fun heq ↦ absurd heq he) (fun _ _ _ hcount ↦ hcount.elim) id
        (by rintro _ ⟨⟩; exact he)

/-- Every statement keeps the statuses in order, if the mask stays. -/
theorem Kept.next (h : Kept e on s) (hqos : e = .requested_qos_incompatible → ¬ on)
    (hpc : s.calls t = some pc) (hs : s.next t pc = some s')
    (hmask : ∀ status_mask, pc = .setListener status_mask →
      (e.status ∈ status_mask ↔ e.status ∈ s.status_mask)) : Kept e on s' := by
  have hlocked := h.locked.next hpc hs
  have hfits := h.fits t pc hpc
  cases pc with
  | enter o =>
    cases hm : o.mutex with
    | none =>
      simp only [RMWSubscriptionEvent.next, hm] at hs
      cases hs
      exact h.quiet hpc hlocked rfl Iff.rfl rfl rfl rfl (by rintro _ ⟨⟩; trivial)
        (fun _ _ _ hcount ↦ hcount.elim) id (by rintro _ ⟨⟩; exact id)
    | some m =>
      simp only [RMWSubscriptionEvent.next, hm, Option.elim_some] at hs
      obtain ⟨-, rfl⟩ := acquire_eq_some.mp hs
      exact h.quiet hpc hlocked rfl Iff.rfl rfl rfl rfl (by rintro _ ⟨⟩; trivial)
        (fun _ _ _ hcount ↦ hcount.elim) id (by rintro _ ⟨⟩; exact id)
  | record o =>
    cases hs
    cases hb : o.brought with
    | none =>
      simp only [hb, Option.isSome_none, Bool.false_eq_true, if_false] at hlocked ⊢
      by_cases ho : o.event_type = e
      · subst ho
        exact h.record hpc rfl hlocked
      · exact h.quiet hpc hlocked rfl Iff.rfl (Function.update_of_ne (Ne.symm ho) ..) rfl rfl
          (by rintro _ ⟨⟩; trivial) (fun _ _ _ hcount ↦ hcount.elim) id (by rintro _ ⟨⟩; exact id)
    | some status =>
      have hstatuses : Function.update s.statuses o.event_type
          (o.record (s.statuses o.event_type)) = s.statuses := by
        rw [Occurrence.record_of_brought hb, Function.update_eq_self]
      simp only [hb, Option.isSome_some, if_true] at hlocked ⊢
      refine h.quiet hpc hlocked rfl Iff.rfl (congrFun hstatuses e) rfl rfl ?_
        (fun _ _ _ hcount ↦ hcount.elim) id (by rintro _ ⟨⟩; exact id)
      rintro _ ⟨⟩ _ hnone
      cases hb.symm.trans hnone
  | dispatch o =>
    cases hs
    by_cases hin : o.event_type.status ∈ s.status_mask
    · have hon : o.event_type = e → on := fun ho ↦ h.mask.mp (ho ▸ hin)
      simp only [if_pos hin] at hlocked ⊢
      refine h.quiet hpc hlocked rfl Iff.rfl rfl rfl rfl ?_ ?_ id ?_
      · rintro _ ⟨⟩
        split
        · exact fun ho _ ↦ hon ho
        · exact hon
      · rintro _ o' _ hcount
        refine ⟨_, rfl, ?_⟩
        split <;> exact hcount
      · rintro _ ⟨⟩
        split <;> exact id
    · simp only [if_neg hin] at hlocked ⊢
      refine h.quiet hpc hlocked rfl Iff.rfl rfl rfl rfl (by rintro _ ⟨⟩; trivial) ?_ id
        (by rintro _ ⟨⟩; exact id)
      rintro hon o' ho' ⟨⟩
      exact absurd (ho' ▸ h.mask.mpr hon) hin
  | get o =>
    simp only [RMWSubscriptionEvent.next] at hs
    split at hs
    · cases hs
      by_cases ho : o.event_type = e
      · subst ho
        refine h.get hpc ?_ hlocked
        split
        · exact .inl rfl
        · exact .inr rfl
      · refine h.quiet hpc hlocked rfl Iff.rfl (Function.update_of_ne (Ne.symm ho) ..) rfl rfl ?_ ?_
          id ?_
        · rintro _ ⟨⟩
          split
          · trivial
          · exact fun heq _ ↦ absurd heq ho
        · rintro _ o' ho' ⟨⟩
          exact absurd ho' ho
        · rintro _ ⟨⟩
          split <;> exact id
    · contradiction
  | lockEvent o status =>
    obtain ⟨-, rfl⟩ := acquire_eq_some.mp hs
    refine h.quiet hpc hlocked rfl Iff.rfl rfl rfl rfl (by rintro _ ⟨⟩; exact hfits) ?_ id
      (by rintro _ ⟨⟩; exact id)
    rintro _ o' _ hcount
    cases status with
    | none => exact ⟨_, rfl, hcount⟩
    | some status => exact hcount.elim
  | update o status =>
    cases hs
    by_cases ho : o.event_type = e
    · subst ho
      exact h.update hpc rfl hlocked rfl rfl (Function.update_self ..) (Function.update_self ..)
    · refine h.quiet hpc hlocked rfl Iff.rfl (Function.update_of_ne (Ne.symm ho) ..)
        (Function.update_of_ne (Ne.symm ho) ..) (Function.update_of_ne (Ne.symm ho) ..)
        (by rintro _ ⟨⟩; trivial) ?_ id (by rintro _ ⟨⟩; exact id)
      rintro _ o' ho' hcount
      cases status with
      | none =>
        cases hcount
        exact absurd ho' ho
      | some status => exact hcount.elim
  | finish o =>
    cases hm : o.mutex <;> simp only [RMWSubscriptionEvent.next, hm] at hs <;> cases hs <;>
      exact h.quiet hpc hlocked rfl Iff.rfl rfl rfl rfl (by rintro _ ⟨⟩)
        (fun _ _ _ hcount ↦ hcount.elim) id (by rintro _ ⟨⟩)
  | getMask e' callback =>
    cases hs
    exact h.quiet hpc hlocked rfl Iff.rfl rfl rfl rfl (by rintro _ ⟨⟩; exact hfits)
      (fun _ _ _ hcount ↦ hcount.elim) id (by rintro _ ⟨⟩; exact id)
  | lock e' use | relock e' use current =>
    obtain ⟨-, rfl⟩ := acquire_eq_some.mp hs
    exact h.quiet hpc hlocked rfl Iff.rfl rfl rfl rfl (by rintro _ ⟨⟩; exact hfits)
      (fun _ _ _ hcount ↦ hcount.elim) id (by rintro _ ⟨⟩; exact id)
  | check e' use =>
    cases use with
    | take => exact h.checkTake hpc hs
    | set callback status_mask => exact h.checkSet hpc hs
  | query e' use =>
    simp only [RMWSubscriptionEvent.next] at hs
    split at hs
    · next hfree =>
      cases hs
      by_cases he : e' = e
      · subst he
        exact h.query hqos hpc hfree hlocked
      · exact h.quiet hpc hlocked rfl Iff.rfl (Function.update_of_ne (Ne.symm he) ..) rfl rfl
          (by rintro _ ⟨⟩; exact fun heq ↦ absurd heq he) (fun _ _ _ hcount ↦ hcount.elim) id
          (by rintro _ ⟨⟩; exact id)
    · contradiction
  | adopt e' use current =>
    cases use with
    | take => exact h.adoptTake hpc hs
    | set callback status_mask => exact h.adoptSet hpc hs
  | report e' =>
    cases hs
    by_cases he : e' = e
    · subst he
      refine h.settle hpc rfl (fun _ ↦ id) hlocked rfl rfl rfl (by rintro _ ⟨⟩) (.inr rfl)
        (by rintro _ ⟨⟩) fun _ ↦ ?_
      simpa [release] using unchanged_clear e' _
    · exact h.quiet hpc hlocked rfl Iff.rfl rfl (Function.update_of_ne (Ne.symm he) ..) rfl
        (by rintro _ ⟨⟩) (fun _ _ _ hcount ↦ hcount.elim) he (by rintro _ ⟨⟩)
  | tell e' status_mask =>
    cases hs
    by_cases he : e' = e
    · subst he
      refine h.settle hpc rfl (fun _ ↦ id) hlocked rfl rfl rfl (by rintro _ ⟨⟩; trivial) (.inr rfl)
        (by rintro _ ⟨⟩; exact id) fun hchanged ↦ ?_
      have hevents := h.telling t status_mask hpc hchanged
      rw [goto_event_statuses, setEventStatus_event_statuses, Function.update_self]
      split
      · exact unchanged_clear e' _
      · next hpositive => exact hevents.resolve_left hpositive
    · exact h.quiet hpc hlocked rfl Iff.rfl rfl (Function.update_of_ne (Ne.symm he) ..) rfl
        (by rintro _ ⟨⟩; trivial) (fun _ _ _ hcount ↦ hcount.elim) he (by rintro _ ⟨⟩; exact id)
  | install e' status_mask =>
    cases hs
    exact h.quiet hpc hlocked rfl Iff.rfl rfl rfl rfl (by rintro _ ⟨⟩; trivial)
      (fun _ _ _ hcount ↦ hcount.elim) id (by rintro _ ⟨⟩; exact id)
  | setListener status_mask =>
    cases hs
    exact h.quiet hpc hlocked rfl (hmask status_mask rfl) rfl rfl rfl (by rintro _ ⟨⟩)
      (fun _ _ _ hcount ↦ hcount.elim) id (by rintro _ ⟨⟩)

omit [DecidableEq θ] in
/-- The listener is told of a match as soon as it is counted. -/
theorem Kept.matched (h : Kept .subscription_matched on s) {o : Occurrence}
    (hpc : s.calls t = some (.get o)) (ho : o.event_type = .subscription_matched) :
    Unchanged .subscription_matched (s.statuses .subscription_matched) ∨
      (s.statuses .subscription_matched).change .current = 1 ∨
      (s.statuses .subscription_matched).change .current = -1 := by
  have hmutex : ∀ o : Occurrence, o.event_type = .subscription_matched →
      o.mutex = some .matching_info := by
    intro o ho
    cases o <;> first | rfl | cases ho
  refine (h.counting (h.fits t _ hpc ho) (by decide)).imp_right ?_
  rintro ⟨u, pc, o', hu, hcount, ho', hchange⟩
  have hpc' : (EventPc.get o).holds .matching_info = true := by simp [EventPc.holds, hmutex o ho]
  obtain ⟨-, rfl⟩ := h.locked.eq_of_holds hpc hu hpc' (hcount.holds (hmutex o' ho'))
  cases hcount
  cases o with
  | matched matching =>
    rw [hchange matching rfl]
    cases matching
    · exact .inr rfl
    · exact .inl rfl
  | _ => cases ho

omit [DecidableEq θ] in
/-- A statement drops nothing where the statuses are in order. -/
theorem Kept.dropped_eq_zero (h : Kept e on s) (hpc : s.calls t = some pc) {c : Counter}
    (hc : c ∈ e.counters) : dropped e c s pc = 0 := by
  have hfits := h.fits t pc hpc
  cases pc with
  | get o =>
    simp only [dropped]
    split
    · next hall =>
      obtain ⟨ho, rfl, hone, hminus⟩ := hall
      rcases h.matched hpc ho with hzero | hchange | hchange
      · exact hzero c hc
      · exact absurd hchange hone
      · exact absurd hchange hminus
    · rfl
  | check e' use =>
    rcases use with _ | ⟨_ | _, status_mask⟩
    · cases e' <;> simp [dropped, told, changeOf]
    · cases e' <;> simp [dropped, told, changeOf]
    · cases e' with
      | subscription_matched =>
        have he : .subscription_matched ≠ e := by
          rintro rfl
          cases hfits rfl rfl
        simp only [dropped, told]
        split <;> simp [changeOf, he]
      | _ => simp [dropped, told, changeOf]
  | adopt e' use current =>
    simp only [dropped]
    split
    · next he =>
      subst he
      obtain ⟨⟨huse, hqueried⟩, -, hcurrent⟩ := hfits rfl
      have hunchanged := h.unchanged hpc rfl id
      split
      · next hmatched =>
        subst hmatched
        rw [if_pos (huse.resolve_right (by decide))]
        split
        · rfl
        · next hchanged => exact hunchanged (by simpa using hchanged) c hc
      · next hmatched =>
        have hflagged := hqueried.resolve_right hmatched
        split
        · next hchanged =>
          have hon : on := by
            by_contra hoff
            rw [h.off hoff (by rintro rfl; cases hflagged)] at hchanged
            cases hchanged
          exact hcurrent hon hflagged c hc
        · next hchanged => exact hunchanged (by simpa using hchanged) c hc
    · rfl
  | _ => rfl

omit [DecidableEq θ] in
/-- A subscription without calls whose reader has passed on what it has counted, if the status is in
its mask, and has told the listener nothing, if it is not. A new subscription is one. -/
structure Calm (e : RmwEventType) (s : RMWSubscriptionEvent θ) : Prop where
  calls : s.calls = fun _ ↦ none
  mutexes : s.mutexes = fun _ ↦ none
  sound : Sound e (s.statuses e)
  flag : s.changed e = false → Unchanged e (s.event_statuses e)
  counted : e.status ∈ s.status_mask → Unchanged e (s.statuses e)
  off : e.status ∉ s.status_mask → s.changed e = false

/-- A step that leaves the status in the mask or out of it, and sets a callback only for an event
whose changes it is told of. -/
def steady (e : RmwEventType) (s : RMWSubscriptionEvent θ) : EventAction θ → Bool
  | .call _ (.set_on_new_event_callback e' true) => e' ≠ e || e.tellable
  | .call _ _ => true
  | .next t =>
    match s.calls t with
    | some (.setListener status_mask) => e.status ∈ status_mask ↔ e.status ∈ s.status_mask
    | _ => true

omit [DecidableEq θ] in
/-- The statuses are in order at first. -/
theorem Calm.kept (h : Calm e s) : Kept e (e.status ∈ s.status_mask) s := by
  constructor
  case locked => exact fun m t ↦ by simp [h.calls, h.mutexes]
  case mask => exact Iff.rfl
  case fits => simp [h.calls]
  case sound => exact h.sound
  case off => exact fun hoff _ ↦ h.off hoff
  case flag => exact fun hchanged ↦ .inl (h.flag hchanged)
  case telling => simp [h.calls]
  case counting => exact fun hon _ ↦ .inl (h.counted hon)

/-- A steady step keeps the statuses in order. -/
theorem Kept.step (h : Kept e on s) (hqos : e = .requested_qos_incompatible → ¬ on)
    {a : EventAction θ} (hsteady : s.steady e a = true) (hs : s.step a = some s') :
    Kept e on s' := by
  cases a with
  | call t call =>
    simp only [RMWSubscriptionEvent.step] at hs
    split at hs
    · next hnone =>
      have hlocked := locked_step s (.call t call) s' h.locked
        (by rw [RMWSubscriptionEvent.step, if_pos hnone]; exact hs)
      cases hs
      have hothers : ∀ u pc, s.calls u = some pc →
          Function.update s.calls t (some call.first) u = some pc := by
        intro u pc hu
        rw [Function.update_of_ne (by rintro rfl; cases hnone.symm.trans hu), hu]
      constructor
      case locked => exact hlocked
      case mask => exact h.mask
      case fits =>
        intro u pc hu
        rw [goto_calls, Function.update_apply] at hu
        split at hu
        · cases hu
          rcases call with o | e' | ⟨e', _ | _⟩
          · trivial
          · rintro - ⟨⟩
          · rintro - ⟨⟩
          · exact fun he _ ↦ (by simpa [steady, he] using hsteady)
        · exact h.fits u pc hu
      case sound => exact h.sound
      case off => exact h.off
      case flag =>
        intro hchanged
        refine (h.flag hchanged).imp_right ?_
        rintro ⟨u, pc, hu, hhandle⟩
        exact ⟨u, pc, hothers u pc hu, hhandle⟩
      case telling =>
        intro u status_mask hu
        rw [goto_calls, Function.update_apply] at hu
        split at hu
        · rcases call with o | e' | ⟨e', callback⟩ <;> cases hu
        · exact h.telling u status_mask hu
      case counting =>
        intro hon he
        refine (h.counting hon he).imp_right ?_
        rintro ⟨u, pc, o, hu, hcount⟩
        exact ⟨u, pc, o, hothers u pc hu, hcount⟩
    · contradiction
  | next t =>
    obtain ⟨pc, hpc, hs⟩ := Option.bind_eq_some_iff.mp hs
    refine h.next hqos hpc hs ?_
    rintro status_mask rfl
    simpa [steady, hpc] using hsteady

/-- No change is lost: from a calm subscription on, while the status of an event stays in the mask or
out of it, what the reader counts for the event is what `take_event` reports, what a new callback is
told of, and what is pending. The status of incompatible policies is counted without a mutex, and must
be out of the mask. -/
theorem changes_kept [Fintype θ] {init : RMWSubscriptionEvent θ} (hcalm : Calm e init)
    (hqos : e = .requested_qos_incompatible → e.status ∉ init.status_mask)
    {as : List (EventAction θ)} (hsteady : AllSteps step (fun s a ↦ s.steady e a = true) init as)
    (hs : run step init as = some s) {c : Counter} (hc : c ∈ e.counters) :
    s.pending e c + (total step (takenIn e c) init as + total step (toldIn e c) init as) =
      init.pending e c + total step (ofNext (counted e c)) init as := by
  have hkept : AllStates step (Kept e (e.status ∈ init.status_mask)) init as :=
    hsteady.allStates hcalm.kept (fun _ _ _ h hok hs ↦ h.step hqos hok hs) fun _ ↦ id
  have hdropped : total step (ofNext (dropped e c)) init as = 0 := by
    refine total_eq_zero (fun bs a t t' hbs ht _ ↦ ?_) hs
    have h := hkept bs t ((List.prefix_append bs [a]).trans hbs) ht
    cases a with
    | call u call => rfl
    | next u =>
      cases hpc : t.calls u with
      | none => simp [ofNext, hpc]
      | some pc =>
        simp only [ofNext, hpc, Option.elim_some]
        exact h.dropped_eq_zero hpc hc
  have hrun := pending_run hs (e := e) (c := c)
  rwa [hdropped, add_zero] at hrun

/-- A subscription whose reader tells the listener of lost samples. -/
def lostInit : RMWSubscriptionEvent Bool := { status_mask := {.sample_lost} }

/-- Samples are lost while a `take_event` is about to query the reader. -/
def lostRun : List (EventAction Bool) :=
  [.call true (.take_event .message_lost), .next true, .next true,
    .call false (.occur (.sample_lost 2))] ++ List.replicate 7 (.next false) ++
    List.replicate 4 (.next true)

/-- A new subscription is calm. -/
theorem calm_lostInit : Calm .message_lost lostInit where
  calls := rfl
  mutexes := rfl
  sound := fun _ ↦ le_rfl
  flag := fun _ _ _ ↦ rfl
  counted := fun _ _ _ ↦ rfl
  off := fun _ ↦ rfl

/-- `changes_kept` where the listener is told within a `take_event`: it takes both samples. -/
theorem changes_kept_lostRun : ∃ s, run step lostInit lostRun = some s ∧
    s.calls true = none ∧ total step (takenIn .message_lost .total) lostInit lostRun = 2 ∧
    s.pending .message_lost .total +
        (total step (takenIn .message_lost .total) lostInit lostRun +
          total step (toldIn .message_lost .total) lostInit lostRun) =
      lostInit.pending .message_lost .total +
        total step (ofNext (counted .message_lost .total)) lostInit lostRun :=
  ⟨_, rfl, rfl, by decide, changes_kept calm_lostInit (by decide) (by decide) rfl (by decide)⟩

/-- A `take_event` is about to query the reader when the listener is told of two samples; then the
callback is taken away, and a third sample is lost. -/
def switchedRun : List (EventAction Bool) :=
  [.call true (.take_event .message_lost), .next true, .next true,
    .call false (.occur (.sample_lost 2))] ++ List.replicate 7 (.next false) ++
    .call false (.set_on_new_event_callback .message_lost false) ::
      List.replicate 4 (.next false) ++
    .call false (.occur (.sample_lost 1)) :: List.replicate 4 (.next false) ++
    List.replicate 4 (.next true)

/-- The mask has to stay: the third sample is neither reported nor pending. -/
theorem changes_lost_switchedRun : ∃ s, run step lostInit switchedRun = some s ∧
    s.calls true = none ∧ s.calls false = none ∧ s.pending .message_lost .total = 0 ∧
    total step (takenIn .message_lost .total) lostInit switchedRun = 2 ∧
    total step (ofNext (counted .message_lost .total)) lostInit switchedRun = 3 :=
  ⟨_, rfl, rfl, rfl, by decide, by decide, by decide⟩

end RMWSubscriptionEvent

end HzjDds.Rmw
