import HzjDds.PubSub.Throughput

/-!
# When the throughput harness is done

Library `PubSub`. Source: `dimos/protocol/pubsub/benchmark/test_benchmark.py:85–158`. The completion
signal against the messages that were received, in every interleaving of the publishing thread with
the callbacks.
-/

namespace HzjDds.PubSub.Throughput

open HzjDds.Transition

namespace MainPc

/-- A message that is published and not counted yet. -/
def underway : MainPc → ℕ
  | .publishing => 1
  | _ => 0

/-- A message that is about to be published. -/
def next : MainPc → ℕ
  | .publish => 1
  | _ => 0

/-- The target between two statements: the limit during the loop, the number sent after it. -/
def target : MainPc → ℕ → ℕ
  | .setTarget, _ => 0
  | .takeStart, _ => maxMessages
  | .loopTest, _ => maxMessages
  | .publish, _ => maxMessages
  | .publishing, _ => maxMessages
  | .checkEarly, _ => maxMessages
  | .takePublishEnd, _ => maxMessages
  | .storeTarget, _ => maxMessages
  | _, sent => sent

/-- The loop has looked at the count after its last change of the target. -/
def checked : MainPc → Bool
  | .isSet => true
  | .wait => true
  | .waiting _ => true
  | .takeLatencyEnd => true
  | .lockFinal => true
  | .readReceived => true
  | .done => true
  | _ => false

/-- The wait is over. -/
def waited : MainPc → Bool
  | .takeLatencyEnd => true
  | .lockFinal => true
  | .readReceived => true
  | .done => true
  | _ => false

/-- The publish loop is over. -/
def left : MainPc → Bool
  | .takePublishEnd => true
  | .storeTarget => true
  | .lockCheck => true
  | .check => true
  | pc => pc.checked

private theorem left_of_checked {pc : MainPc} (h : pc.checked = true) : pc.left = true := by
  cases pc <;> first | contradiction | rfl

private theorem target_of_checked {pc : MainPc} (h : pc.checked = true) (sent : ℕ) :
    pc.target sent = sent := by
  cases pc <;> first | contradiction | rfl

private theorem target_cases (pc : MainPc) (sent : ℕ) :
    pc = .setTarget ∨ pc.target sent = maxMessages ∨ pc.left = true ∧ pc.target sent = sent := by
  cases pc with
  | setTarget => exact .inl rfl
  | takeStart | loopTest | publish | publishing | checkEarly | takePublishEnd | storeTarget =>
    exact .inr (.inl rfl)
  | _ => exact .inr (.inr ⟨rfl, rfl⟩)

end MainPc

namespace Harness

/-! ## Messages -/

/-- All messages that have been published, wherever they are. -/
def ids (s : Harness) : List ℕ :=
  s.inFlight ++ s.calls ++ s.holder.toList.map Prod.fst ++ s.finished.map Prod.fst

/-- Every message is at one place, and those that were counted are with the lock or finished. -/
structure Messages (s : Harness) : Prop where
  nodup : s.ids.Nodup
  published : ∀ m ∈ s.ids, m < s.published
  received : s.receivedCount = s.holder.toList.length + s.finished.length

/-- Messages that only change places. -/
theorem Messages.move {s t : Harness} (h : Messages s) (hids : t.ids.Perm s.ids)
    (hpublished : t.published = s.published)
    (hreceived : t.receivedCount = t.holder.toList.length + t.finished.length) : Messages t where
  nodup := hids.nodup_iff.mpr h.nodup
  published := by
    rw [hpublished]
    exact fun m hm ↦ h.published m (hids.mem_iff.mp hm)
  received := hreceived

/-- One more message. -/
theorem Messages.publish {s : Harness} (h : Messages s) (pc : MainPc) :
    Messages { s with inFlight := s.inFlight ++ [s.published], published := s.published + 1, pc } := by
  have hids : (ids { s with inFlight := s.inFlight ++ [s.published], pc }).Perm
      (s.published :: s.ids) := by
    simp only [ids, List.append_assoc]
    exact List.perm_middle
  constructor
  case nodup =>
    refine hids.nodup_iff.mpr (List.nodup_cons.mpr ⟨?_, h.nodup⟩)
    exact fun hmem ↦ lt_irrefl _ (h.published _ hmem)
  case published =>
    intro m hm
    rcases List.mem_cons.mp (hids.mem_iff.mp hm) with rfl | hold
    · exact Nat.lt_succ_self _
    · exact (h.published m hold).trans (Nat.lt_succ_self _)
  case received => exact h.received

/-- A statement of the publishing thread moves no message, or publishes one. -/
theorem Messages.main {s s' : Harness} (h : Messages s) (hs : MainStep s s') : Messages s' := by
  cases hs with
  | publish hpc => exact h.publish _
  | _ => exact h.move (List.Perm.refl _) rfl h.received

/-- A statement of a callback leaves its message where it is, or finishes it. -/
theorem Messages.callback {s s' : Harness} (h : Messages s) (hs : CallbackStep s s') :
    Messages s' := by
  have hgoto : ∀ m pc pc' event, s.holder = some (m, pc) →
      Messages { s with event, holder := some (m, pc') } := by
    intro m pc pc' event hholder
    have hreceived := h.received
    rw [hholder] at hreceived
    refine h.move ?_ rfl hreceived
    simp only [ids, hholder]
    exact List.Perm.refl _
  cases hs with
  | positive m hpc | notPositive m hpc | enough m hpc | tooFew m hpc | setEvent m hpc =>
    exact hgoto m _ _ _ hpc
  | release m hpc =>
    refine h.move ?_ rfl ?_
    · simp only [ids, hpc, Option.toList_none, Option.toList_some, List.map_nil, List.map_cons,
        List.map_append, List.append_nil, List.append_assoc]
      exact ((List.perm_append_comm).append_left _).append_left _
    · have hreceived := h.received
      simp only [hpc, Option.toList_some, List.length_singleton] at hreceived
      simp only [Option.toList_none, List.length_nil, List.length_append, List.length_singleton]
      omega

/-- A message that reaches its callback. -/
theorem Messages.deliver {s : Harness} (h : Messages s) {m : ℕ} (hm : m ∈ s.inFlight) :
    Messages { s with inFlight := s.inFlight.erase m, calls := s.calls ++ [m] } := by
  have hplace : (s.inFlight.erase m ++ (s.calls ++ [m])).Perm (s.inFlight ++ s.calls) := by
    rw [← List.append_assoc]
    exact (List.perm_append_singleton m _).trans
      ((List.perm_cons_erase hm).symm.append_right s.calls)
  exact h.move ((hplace.append_right _).append_right _) rfl h.received

/-- A callback that takes the lock and counts its message. -/
theorem Messages.acquire {s : Harness} (h : Messages s) {m : ℕ} (hm : m ∈ s.calls)
    (hfree : s.holder = none) :
    Messages { s with
      calls := s.calls.erase m
      holder := some (m, .testPositive)
      receivedCount := s.receivedCount + 1 } := by
  have hplace : (s.calls.erase m ++ [m]).Perm (s.calls ++ []) := by
    rw [List.append_nil]
    exact (List.perm_append_singleton m _).trans (List.perm_cons_erase hm).symm
  have hreceived := h.received
  refine h.move ?_ rfl ?_
  · have hall := (hplace.append_right (s.finished.map Prod.fst)).append_left s.inFlight
    simpa only [ids, hfree, Option.toList_some, Option.toList_none, List.map_cons, List.map_nil,
      List.append_assoc] using hall
  · simp only [hfree, Option.toList_none, List.length_nil] at hreceived
    simp only [Option.toList_some, List.length_singleton]
    omega

/-- A hand-over takes a message that is in flight. -/
theorem deliver_cases {transport : String} {msg_size : ℕ} {s s' : Harness} {m : ℕ}
    (hs : s.step transport msg_size (.deliver m) = some s') :
    m ∈ s.inFlight ∧ s' = { s with inFlight := s.inFlight.erase m, calls := s.calls ++ [m] } := by
  simp only [step] at hs
  split at hs
  · next hm =>
    cases hs
    exact ⟨hm, rfl⟩
  · contradiction

/-- A callback takes the lock when nobody holds it. -/
theorem acquire_cases {transport : String} {msg_size : ℕ} {s s' : Harness} {m : ℕ}
    (hs : s.step transport msg_size (.acquire m) = some s') :
    m ∈ s.calls ∧ s.holder = none ∧ s.locked = false ∧
      s' = { s with
        calls := s.calls.erase m
        holder := some (m, .testPositive)
        receivedCount := s.receivedCount + 1 } := by
  simp only [step] at hs
  split at hs
  · next hm =>
    cases hs
    exact ⟨hm.1, hm.2.1, hm.2.2, rfl⟩
  · contradiction

/-- Every step keeps the messages. -/
theorem messages_step (transport : String) (msg_size : ℕ) (s : Harness) (a : Action) (s' : Harness)
    (h : Messages s) (hs : s.step transport msg_size a = some s') : Messages s' := by
  cases a with
  | tick elapsed =>
    cases hs
    exact h.move (List.Perm.refl _) rfl h.received
  | main woken => exact h.main (main_cases hs)
  | deliver m =>
    obtain ⟨hm, rfl⟩ := deliver_cases hs
    exact h.deliver hm
  | acquire m =>
    obtain ⟨hm, hfree, -, rfl⟩ := acquire_cases hs
    exact h.acquire hm hfree
  | callback => exact h.callback (callback_cases hs)

/-- No more messages are counted than were published. -/
theorem Messages.received_le {s : Harness} (h : Messages s) : s.receivedCount ≤ s.published := by
  have hsub : s.ids ⊆ List.range s.published := fun m hm ↦ List.mem_range.mpr (h.published m hm)
  have hlength := (h.nodup.subperm hsub).length_le
  have hreceived := h.received
  simp only [ids, List.length_append, List.length_map, List.length_range] at hlength
  omega

/-! ## Numbers -/

/-- The loop counts what it publishes, keeps to the limit, and keeps the target. -/
structure Numbers (s : Harness) : Prop where
  published : s.published = s.msgsSent + s.pc.underway
  bounded : s.published + s.pc.next ≤ maxMessages
  target : s.targetCount = s.pc.target s.msgsSent
  unsent : s.pc = .setTarget → s.published = 0

/-- A statement that publishes and counts nothing. -/
theorem Numbers.goto {s t : Harness} (h : Numbers s) (hpublished : t.published = s.published)
    (hsent : t.msgsSent = s.msgsSent) (hunderway : t.pc.underway = s.pc.underway)
    (hnext : t.pc.next = 0) (htarget : t.targetCount = t.pc.target s.msgsSent)
    (hstart : t.pc ≠ .setTarget) : Numbers t where
  published := by rw [hpublished, hsent, hunderway, h.published]
  bounded := by
    rw [hpublished, hnext]
    exact (Nat.le_add_right ..).trans h.bounded
  target := by rw [hsent, htarget]
  unsent := fun hpc ↦ absurd hpc hstart

/-- A statement of the publishing thread. -/
theorem Numbers.main {s s' : Harness} (h : Numbers s) (hs : MainStep s s') : Numbers s' := by
  have hpublished := h.published
  have hbounded := h.bounded
  have htarget := h.target
  cases hs with
  | setTarget hpc => exact h.goto rfl rfl (by rw [hpc]; rfl) rfl rfl (by simp)
  | storeTarget hpc => exact h.goto rfl rfl (by rw [hpc]; rfl) rfl rfl (by simp)
  | goOn hpc hroom =>
    rw [hpc] at hpublished htarget
    exact ⟨hpublished, by simp only [MainPc.underway, MainPc.next] at hpublished ⊢; omega, htarget,
      by simp⟩
  | publish hpc =>
    rw [hpc] at hpublished hbounded htarget
    simp only [MainPc.underway, MainPc.next] at hpublished hbounded
    exact ⟨by simp only [MainPc.underway]; omega, hbounded, htarget, by simp⟩
  | published hpc =>
    rw [hpc] at hpublished hbounded htarget
    simp only [MainPc.underway, MainPc.next] at hpublished hbounded
    exact ⟨hpublished, hbounded, htarget, by simp⟩
  | takeStart hpc | leave hpc | early hpc | again hpc | takePublishEnd hpc | lockCheck hpc
  | checkAll hpc | checkSome hpc | isSet hpc | notSet hpc | waitSet hpc | waitUnset hpc
  | woken _ hpc | expired _ hpc | takeLatencyEnd hpc | lockFinal hpc | readReceived hpc =>
    exact h.goto rfl rfl (by rw [hpc]; rfl) rfl (htarget.trans (by rw [hpc]; rfl)) (by simp)

/-- Nobody else touches the numbers. -/
theorem Numbers.congr {s t : Harness} (h : Numbers s) (hpc : t.pc = s.pc)
    (hpublished : t.published = s.published) (hsent : t.msgsSent = s.msgsSent)
    (htarget : t.targetCount = s.targetCount) : Numbers t where
  published := by rw [hpublished, hsent, hpc, h.published]
  bounded := by
    rw [hpublished, hpc]
    exact h.bounded
  target := by rw [htarget, hpc, hsent, h.target]
  unsent := by
    rw [hpc, hpublished]
    exact h.unsent

/-- Every step keeps the numbers. -/
theorem numbers_step (transport : String) (msg_size : ℕ) (s : Harness) (a : Action) (s' : Harness)
    (h : Numbers s) (hs : s.step transport msg_size a = some s') : Numbers s' := by
  cases a with
  | tick elapsed =>
    cases hs
    exact h.congr rfl rfl rfl rfl
  | main woken => exact h.main (main_cases hs)
  | deliver m =>
    obtain ⟨-, rfl⟩ := deliver_cases hs
    exact h.congr rfl rfl rfl rfl
  | acquire m =>
    obtain ⟨-, -, -, rfl⟩ := acquire_cases hs
    exact h.congr rfl rfl rfl rfl
  | callback => cases callback_cases hs <;> exact h.congr rfl rfl rfl rfl

/-! ## The signal -/

/-- As many messages have been received as will be recorded as sent. -/
def Complete (s : Harness) : Prop :=
  maxMessages ≤ s.receivedCount ∨ s.pc.left = true ∧ s.msgsSent ≤ s.receivedCount

/-- The event is set, or a callback is about to set it. -/
def Signalling (s : Harness) : Prop := s.event.isSome ∨ ∃ m, s.holder = some (m, .setEvent)

/-- A callback holds the lock and has not finished its tests. -/
def Testing (s : Harness) : Prop := ∃ m pc, s.holder = some (m, pc) ∧ pc ≠ .release

/-- The event is set only when all messages have been received; and when they have, after the loop
looked at the count, it is set or about to be. -/
structure Signal (s : Harness) : Prop where
  past : ∀ set ∈ s.event, set ≤ s.now
  only : Signalling s → Complete s
  wakes : s.pc.checked = true → s.msgsSent ≤ s.receivedCount → s.event.isSome ∨ Testing s

/-- What is complete stays complete when the loop goes on. -/
theorem Complete.mono {s t : Harness} (h : Complete s) (hreceived : s.receivedCount ≤ t.receivedCount)
    (hleft : s.pc.left = true → t.pc.left = true ∧ t.msgsSent = s.msgsSent) : Complete t := by
  rcases h with hmax | ⟨hpc, hall⟩
  · exact .inl (hmax.trans hreceived)
  · obtain ⟨hpc', hsent⟩ := hleft hpc
    exact .inr ⟨hpc', hsent ▸ hall.trans hreceived⟩

/-- The publishing thread does not go back to its loop, and counts nothing after it. -/
theorem left_main {s s' : Harness} (hs : MainStep s s') (hleft : s.pc.left = true) :
    s'.pc.left = true ∧ s'.msgsSent = s.msgsSent := by
  cases hs with
  | setTarget hpc | takeStart hpc | goOn hpc | leave hpc | publish hpc | published hpc | early hpc
  | again hpc =>
    rw [hpc] at hleft
    contradiction
  | _ => exact ⟨rfl, rfl⟩

/-- A statement of the publishing thread that leaves the event alone. -/
theorem Signal.goto {s t : Harness} (h : Signal s) (hs : MainStep s t) (hevent : t.event = s.event)
    (hholder : t.holder = s.holder) (hreceived : t.receivedCount = s.receivedCount)
    (hnow : t.now = s.now) (hchecked : t.pc.checked = true → s.pc.checked = true) : Signal t where
  past := by
    rw [hevent, hnow]
    exact h.past
  only := by
    intro hsignal
    rw [Signalling, hevent, hholder] at hsignal
    exact (h.only hsignal).mono hreceived.ge (left_main hs)
  wakes := by
    intro hpc hall
    have hbefore := hchecked hpc
    rw [(left_main hs (MainPc.left_of_checked hbefore)).2, hreceived] at hall
    rw [hevent, Testing, hholder]
    exact h.wakes hbefore hall

private theorem signal_le {s : Harness} (hpast : ∀ set ∈ s.event, set ≤ s.now) :
    ∀ set ∈ s.signal, set ≤ s.now := by
  rintro set hset
  cases hset
  cases hevent : s.event with
  | none => exact le_rfl
  | some before => exact hpast before hevent

/-- A statement of the publishing thread. -/
theorem Signal.main {s s' : Harness} (h : Signal s) (hs : MainStep s s') : Signal s' := by
  have hstep := hs
  cases hs with
  | checkAll hpc hall =>
    exact ⟨signal_le h.past, fun _ ↦ .inr ⟨rfl, hall⟩, fun _ _ ↦ .inl rfl⟩
  | checkSome hpc hsome =>
    have hcomplete : Signalling s → Complete { s with pc := .isSet } := fun hsignal ↦
      (h.only hsignal).mono le_rfl (left_main hstep)
    exact ⟨h.past, hcomplete, fun _ hall ↦ absurd hall (Nat.not_le.mpr hsome)⟩
  | isSet hpc | notSet hpc | waitSet hpc | waitUnset hpc | woken _ hpc | expired _ hpc
  | takeLatencyEnd hpc | lockFinal hpc | readReceived hpc =>
    exact h.goto hstep rfl rfl rfl rfl fun _ ↦ by rw [hpc]; rfl
  | setTarget | takeStart | goOn | leave | publish | published | early | again | takePublishEnd
  | storeTarget | lockCheck =>
    exact h.goto hstep rfl rfl rfl rfl fun hchecked ↦ by contradiction

private theorem Messages.holder_lt {s : Harness} (h : Messages s) {m : ℕ} {pc : CallbackPc}
    (hholder : s.holder = some (m, pc)) : m < s.published := by
  apply h.published
  simp [ids, hholder]

private theorem complete_of_target {s : Harness} (hmessages : Messages s) (hnumbers : Numbers s) {m : ℕ}
    {pc : CallbackPc} (hholder : s.holder = some (m, pc))
    (henough : s.targetCount ≤ s.receivedCount) : Complete s := by
  rw [hnumbers.target] at henough
  rcases s.pc.target_cases s.msgsSent with hstart | hmax | ⟨hleft, hsent⟩
  · have hlt := hmessages.holder_lt hholder
    rw [hnumbers.unsent hstart] at hlt
    exact absurd hlt (Nat.not_lt_zero m)
  · exact .inl (hmax ▸ henough)
  · exact .inr ⟨hleft, hsent ▸ henough⟩

/-- A statement of a callback. -/
theorem Signal.callback {s s' : Harness} (h : Signal s) (hmessages : Messages s)
    (hnumbers : Numbers s) (hs : CallbackStep s s') : Signal s' := by
  have htarget : s.pc.checked = true → s.targetCount = s.msgsSent := fun hpc ↦
    hnumbers.target.trans (MainPc.target_of_checked hpc _)
  -- a callback that goes on under the lock, or gives it up, signals no more than before
  have honly : ∀ holder finished, (∀ m, holder = some (m, CallbackPc.setEvent) → Complete s) →
      Signalling { s with holder, finished } → Complete s := by
    rintro holder finished hsets (hevent | ⟨m, hholder⟩)
    · exact h.only (.inl hevent)
    · exact hsets m hholder
  cases hs with
  | positive m hpc =>
    exact ⟨h.past, honly _ _ (by simp), fun _ _ ↦ .inr ⟨m, .testCount, rfl, by simp⟩⟩
  | notPositive m hpc hzero =>
    refine ⟨h.past, honly _ _ (by simp), fun hchecked _ ↦ ?_⟩
    have hlt := hmessages.holder_lt hpc
    have hpublished := hnumbers.published
    have hunderway : s.pc.underway = 0 := by
      cases hcase : s.pc <;> rw [hcase] at hchecked <;> first | contradiction | rfl
    have hsent := htarget hchecked
    omega
  | enough m hpc henough =>
    exact ⟨h.past, honly _ _ fun _ _ ↦ complete_of_target hmessages hnumbers hpc henough,
      fun _ _ ↦ .inr ⟨m, .setEvent, rfl, by simp⟩⟩
  | tooFew m hpc hfew =>
    refine ⟨h.past, honly _ _ (by simp), fun hchecked hall ↦ ?_⟩
    rw [htarget hchecked] at hfew
    exact absurd hall (Nat.not_le.mpr hfew)
  | setEvent m hpc =>
    exact ⟨signal_le h.past, fun _ ↦ h.only (.inr ⟨m, hpc⟩), fun _ _ ↦ .inl rfl⟩
  | release m hpc =>
    refine ⟨h.past, honly _ _ (by simp), fun hchecked hall ↦ ?_⟩
    rcases h.wakes hchecked hall with hevent | ⟨other, pc, hholder, hne⟩
    · exact .inl hevent
    · rw [hpc] at hholder
      cases hholder
      contradiction

/-- Every step keeps the signal right. -/
theorem signal_step {transport : String} {msg_size : ℕ} {s : Harness} {a : Action} {s' : Harness}
    (h : Signal s) (hmessages : Messages s) (hnumbers : Numbers s)
    (hs : s.step transport msg_size a = some s') : Signal s' := by
  cases a with
  | tick elapsed =>
    cases hs
    exact ⟨fun set hset ↦ (h.past set hset).trans (Nat.le_add_right ..), h.only, h.wakes⟩
  | main woken => exact h.main (main_cases hs)
  | deliver m =>
    obtain ⟨-, rfl⟩ := deliver_cases hs
    exact ⟨h.past, h.only, h.wakes⟩
  | acquire m =>
    obtain ⟨-, hfree, -, rfl⟩ := acquire_cases hs
    refine ⟨h.past, ?_, fun _ _ ↦ .inr ⟨m, .testPositive, rfl, by simp⟩⟩
    rintro (hevent | ⟨other, hholder⟩)
    · exact (h.only (.inl hevent)).mono (Nat.le_succ _) fun hleft ↦ ⟨hleft, rfl⟩
    · cases hholder
  | callback => exact h.callback hmessages hnumbers (callback_cases hs)

end Harness

end HzjDds.PubSub.Throughput
