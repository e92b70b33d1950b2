import HzjDds.PubSub.CompletionSignal

/-!
# The wait of the throughput harness, and its results

Library `PubSub`. Source: `dimos/protocol/pubsub/benchmark/test_benchmark.py:126–158`. A wait that
runs to its timeout lacked a message, and what is recorded says so; the recorded time says it too
where the publishing thread is prompt.
-/

namespace HzjDds.PubSub.Throughput

open HzjDds.Transition

namespace Harness

/-! ## The wait -/

/-- Number of messages whose callback was over before a time. -/
def doneBefore (s : Harness) (d : ℕ) : ℕ :=
  (s.finished.filter fun call ↦ decide (call.2 < d)).length

/-- What a result says of its run: nothing is lost without a timeout, and a timeout takes its
time. -/
structure Recorded (msgsSent : ℕ) (expired : Bool) (r : BenchmarkResult) : Prop where
  sent : r.msgs_sent = msgsSent
  received : r.msgs_received ≤ r.msgs_sent
  complete : expired = false → r.msgs_received = r.msgs_sent
  latency : expired = true → (receiveTimeout : ℤ) ≤ r.receive_time

/-- Callbacks that are over in time set the event in time; a wait that ran to its timeout lacked a
message, and so does what is recorded of it. -/
structure Timing (s : Harness) : Prop where
  begun : ∀ d ∈ s.deadline, s.pc.checked = true
  waiting : ∀ d, s.pc = .waiting d → s.deadline = some d
  ended : s.publishEnd ≤ s.now
  room : ∀ d ∈ s.deadline, s.publishEnd + receiveTimeout ≤ d
  timely : ∀ d ∈ s.deadline, s.msgsSent ≤ s.doneBefore d → ∃ set ∈ s.event, set < d
  late : s.expired = true → s.pc.waited = true ∧
    ∃ d ∈ s.deadline, d ≤ s.now ∧ s.doneBefore d < s.msgsSent
  latency : s.expired = true → s.pc = .lockFinal ∨ s.pc = .readReceived →
    ∀ d ∈ s.deadline, d ≤ s.latencyEnd
  unexpired : s.pc.waited = true → s.expired = false → s.event.isSome
  recorded : ∀ r ∈ s.result, s.pc = .done ∧ Recorded s.msgsSent s.expired r

/-- Before the check there is no wait to account for. -/
theorem Timing.unchecked {s t : Harness} (h : Timing s) (hbefore : s.pc.checked = false)
    (hpc : ∀ d, t.pc ≠ .waiting d) (hwaited : t.pc.waited = false) (hended : t.publishEnd ≤ t.now)
    (hdeadline : t.deadline = s.deadline) (hexpired : t.expired = s.expired)
    (hresult : t.result = s.result) : Timing t := by
  have hnone : s.deadline = none := by
    cases hcase : s.deadline with
    | none => rfl
    | some d => exact absurd (h.begun d hcase) (by simp [hbefore])
  have hfalse : s.expired = false := by
    cases hcase : s.expired with
    | false => rfl
    | true =>
      obtain ⟨-, d, hd, -⟩ := h.late hcase
      rw [hnone] at hd
      cases hd
  have hempty : s.result = none := by
    cases hcase : s.result with
    | none => rfl
    | some r =>
      rw [(h.recorded r hcase).1] at hbefore
      contradiction
  rw [hnone] at hdeadline
  rw [hfalse] at hexpired
  rw [hempty] at hresult
  constructor
  case begun => exact fun d hd ↦ by simp [hdeadline] at hd
  case waiting => exact fun d hd ↦ absurd hd (hpc d)
  case ended => exact hended
  case room => exact fun d hd ↦ by simp [hdeadline] at hd
  case timely => exact fun d hd ↦ by simp [hdeadline] at hd
  case late => exact fun hlate ↦ by simp [hexpired] at hlate
  case latency => exact fun hlate ↦ by simp [hexpired] at hlate
  case unexpired => exact fun hover ↦ by simp [hwaited] at hover
  case recorded => exact fun r hr ↦ by simp [hresult] at hr

/-- The wait goes on, or is over, and nothing of it changes. -/
theorem Timing.congr {s t : Harness} (h : Timing s) (hnow : s.now ≤ t.now)
    (hchecked : s.pc.checked = true → t.pc.checked = true)
    (hpc : ∀ d, t.pc = .waiting d → s.pc = t.pc)
    (hwaited : s.pc.waited = true → t.pc.waited = true) (hended : t.publishEnd = s.publishEnd)
    (hsent : t.msgsSent = s.msgsSent) (hfinished : t.finished = s.finished)
    (hevent : ∀ set ∈ s.event, t.event = some set) (hdeadline : t.deadline = s.deadline)
    (hexpired : t.expired = s.expired)
    (hlatency : t.expired = true → t.pc = .lockFinal ∨ t.pc = .readReceived →
      ∀ d ∈ t.deadline, d ≤ t.latencyEnd)
    (hset : t.pc.waited = true → t.expired = false → t.event.isSome)
    (hrecorded : ∀ r ∈ t.result, t.pc = .done ∧ Recorded t.msgsSent t.expired r) : Timing t := by
  have hdone : ∀ d, t.doneBefore d = s.doneBefore d := by
    intro d
    rw [doneBefore, hfinished, doneBefore]
  constructor
  case begun =>
    rw [hdeadline]
    exact fun d hd ↦ hchecked (h.begun d hd)
  case waiting =>
    intro d hd
    rw [hdeadline]
    exact h.waiting d ((hpc d hd).trans hd)
  case ended =>
    rw [hended]
    exact h.ended.trans hnow
  case room =>
    rw [hdeadline, hended]
    exact h.room
  case timely =>
    intro d hd hall
    rw [hdeadline] at hd
    rw [hsent, hdone] at hall
    obtain ⟨set, hset, hlt⟩ := h.timely d hd hall
    exact ⟨set, hevent set hset, hlt⟩
  case late =>
    intro hlate
    rw [hexpired] at hlate
    obtain ⟨hover, d, hd, hpast, hfew⟩ := h.late hlate
    rw [hdeadline, hsent]
    exact ⟨hwaited hover, d, hd, hpast.trans hnow, by rwa [hdone]⟩
  case latency => exact hlatency
  case unexpired => exact hset
  case recorded => exact hrecorded

private theorem Timing.unrecorded {s : Harness} (h : Timing s) (hpc : s.pc ≠ .done)
    {P : BenchmarkResult → Prop} : ∀ r ∈ s.result, P r := fun r hr ↦
  absurd (h.recorded r hr).1 hpc

private theorem isSome_of_done {s : Harness} (hmessages : Messages s) (hnumbers : Numbers s)
    (hsignal : Signal s) (hchecked : s.pc.checked = true) (hall : s.msgsSent ≤ s.finished.length) :
    s.event.isSome := by
  have hreceived := hmessages.received
  have hpublished := hnumbers.published
  have hle := hmessages.received_le
  have hunderway : s.pc.underway = 0 := by
    cases hcase : s.pc <;> rw [hcase] at hchecked <;> first | contradiction | rfl
  rcases hsignal.wakes hchecked (by omega) with hevent | ⟨m, pc, hholder, -⟩
  · exact hevent
  · rw [hholder, Option.toList_some, List.length_singleton] at hreceived
    omega

private theorem doneBefore_le (s : Harness) (d : ℕ) : s.doneBefore d ≤ s.finished.length :=
  List.length_filter_le ..

/-- A wait begins. Where the callbacks of all messages are over, the event is set already. -/
theorem Timing.begin {s : Harness} (h : Timing s) (hmessages : Messages s) (hnumbers : Numbers s)
    (hsignal : Signal s) (hpc : s.pc = .wait) : Timing { s with
      deadline := some (s.now + receiveTimeout)
      pc := .waiting (s.now + receiveTimeout) } := by
  have hended := h.ended
  constructor
  case begun => exact fun _ _ ↦ rfl
  case waiting =>
    rintro d ⟨⟩
    rfl
  case ended => exact hended
  case room =>
    rintro d ⟨⟩
    exact Nat.add_le_add_right hended _
  case timely =>
    rintro d ⟨⟩ hall
    have hset := isSome_of_done hmessages hnumbers hsignal (by rw [hpc]; rfl)
      (hall.trans (doneBefore_le s _))
    obtain ⟨set, hevent⟩ := Option.isSome_iff_exists.mp hset
    have htimeout : 0 < receiveTimeout := by decide
    have hpast := hsignal.past set hevent
    exact ⟨set, hevent, by omega⟩
  case late =>
    intro hlate
    have hover := (h.late hlate).1
    rw [hpc] at hover
    contradiction
  case latency => exact fun _ hover ↦ by simp at hover
  case unexpired => exact fun hover ↦ by contradiction
  case recorded => exact h.unrecorded (by simp [hpc])

/-- A wait runs to its timeout. A message lacks then, since the event would be set otherwise. -/
theorem Timing.expire {s : Harness} {d : ℕ} (h : Timing s) (hpc : s.pc = .waiting d)
    (hnow : d ≤ s.now) (hset : ∀ set ∈ s.event, d ≤ set) :
    Timing { s with expired := true, pc := .takeLatencyEnd } := by
  have hdeadline := h.waiting d hpc
  have hfew : s.doneBefore d < s.msgsSent := by
    by_contra hall
    obtain ⟨set, hevent, hlt⟩ := h.timely d hdeadline (Nat.not_lt.mp hall)
    exact absurd (hset set hevent) (Nat.not_le.mpr hlt)
  constructor
  case begun => exact fun _ _ ↦ rfl
  case waiting => simp
  case ended => exact h.ended
  case room => exact h.room
  case timely => exact h.timely
  case late => exact fun _ ↦ ⟨rfl, d, hdeadline, hnow, hfew⟩
  case latency => simp
  case unexpired => simp
  case recorded => exact h.unrecorded (by simp [hpc])

private theorem Timing.recorded_of {s : Harness} (h : Timing s) (hmessages : Messages s)
    (hnumbers : Numbers s) (hsignal : Signal s) (hpc : s.pc = .readReceived) {r : BenchmarkResult}
    (hsent : r.msgs_sent = s.msgsSent) (hreceived : r.msgs_received = s.receivedCount)
    (htime : r.receive_time = (s.latencyEnd : ℤ) - s.publishEnd) :
    Recorded s.msgsSent s.expired r := by
  have hpublished := hnumbers.published
  have hbounded := hnumbers.bounded
  have hle := hmessages.received_le
  rw [hpc] at hpublished hbounded
  simp only [MainPc.underway, MainPc.next] at hpublished hbounded
  constructor
  case sent => exact hsent
  case received => omega
  case complete =>
    intro hlate
    have hset := h.unexpired (by rw [hpc]; rfl) hlate
    rcases hsignal.only (.inl hset) with hmax | ⟨-, hall⟩ <;> omega
  case latency =>
    intro hlate
    obtain ⟨-, d, hd, -⟩ := h.late hlate
    have hlatency := h.latency hlate (.inr hpc) d hd
    have hroom := h.room d hd
    rw [htime]
    omega

/-- A statement of the publishing thread. -/
theorem Timing.main {s s' : Harness} (h : Timing s) (hmessages : Messages s) (hnumbers : Numbers s)
    (hsignal : Signal s) (hs : MainStep s s') : Timing s' := by
  cases hs with
  | setTarget hpc | takeStart hpc | goOn hpc | leave hpc | publish hpc | published hpc | early hpc
  | again hpc | storeTarget hpc | lockCheck hpc | checkAll hpc | checkSome hpc =>
    exact h.unchecked (by rw [hpc]; rfl) (by simp) rfl h.ended rfl rfl rfl
  | takePublishEnd hpc => exact h.unchecked (by rw [hpc]; rfl) (by simp) rfl le_rfl rfl rfl rfl
  | notSet hpc =>
    exact h.congr le_rfl (fun _ ↦ rfl) (by simp) (by simp [hpc, MainPc.waited]) rfl rfl rfl
      (fun _ ↦ id) rfl rfl (by simp) (by simp [MainPc.waited]) (h.unrecorded (by simp [hpc]))
  | isSet hpc hset | waitSet hpc hset | woken _ hpc hset =>
    exact h.congr le_rfl (fun _ ↦ rfl) (by simp) (by simp [hpc, MainPc.waited]) rfl rfl rfl
      (fun _ ↦ id) rfl rfl (by simp) (fun _ _ ↦ hset) (h.unrecorded (by simp [hpc]))
  | waitUnset hpc => exact h.begin hmessages hnumbers hsignal hpc
  | expired d hpc hnow hset => exact h.expire hpc hnow hset
  | takeLatencyEnd hpc =>
    refine h.congr le_rfl (fun _ ↦ rfl) (by simp) (fun _ ↦ rfl) rfl rfl rfl (fun _ ↦ id) rfl rfl
      (fun hlate _ d hd ↦ ?_) (fun _ ↦ h.unexpired (by rw [hpc]; rfl))
      (h.unrecorded (by simp [hpc]))
    obtain ⟨-, deadline, hdeadline, hpast, -⟩ := h.late hlate
    rw [Option.mem_unique hd hdeadline]
    exact hpast
  | lockFinal hpc =>
    exact h.congr le_rfl (fun _ ↦ rfl) (by simp) (fun _ ↦ rfl) rfl rfl rfl (fun _ ↦ id) rfl rfl
      (fun hlate _ ↦ h.latency hlate (.inl hpc)) (fun _ ↦ h.unexpired (by rw [hpc]; rfl))
      (h.unrecorded (by simp [hpc]))
  | readReceived hpc r hsent hreceived htime =>
    refine h.congr le_rfl (fun _ ↦ rfl) (by simp) (fun _ ↦ rfl) rfl rfl rfl (fun _ ↦ id) rfl rfl
      (by simp) (fun _ ↦ h.unexpired (by rw [hpc]; rfl)) ?_
    rintro _ ⟨⟩
    exact ⟨rfl, h.recorded_of hmessages hnumbers hsignal hpc hsent hreceived htime⟩

/-- A statement of a callback. -/
theorem Timing.callback {s s' : Harness} (h : Timing s) (hmessages : Messages s)
    (hsignal : Signal s) (hs : CallbackStep s s') : Timing s' := by
  cases hs with
  | positive m hpc | notPositive m hpc | enough m hpc | tooFew m hpc =>
    exact h.congr le_rfl id (fun _ _ ↦ rfl) id rfl rfl rfl (fun _ ↦ id) rfl rfl h.latency
      h.unexpired h.recorded
  | setEvent m hpc =>
    refine h.congr le_rfl id (fun _ _ ↦ rfl) id rfl rfl rfl (fun set hset ↦ ?_) rfl rfl h.latency
      (fun _ _ ↦ rfl) h.recorded
    rw [signal, Option.mem_def.mp hset]
    rfl
  | release m hpc =>
    have hdone : ∀ d, (doneBefore { s with holder := none, finished := s.finished ++ [(m, s.now)] } d)
        = s.doneBefore d + if s.now < d then 1 else 0 := by
      intro d
      rw [doneBefore, List.filter_append, List.length_append, doneBefore]
      by_cases hlt : s.now < d <;> simp [hlt]
    constructor
    case begun => exact h.begun
    case waiting => exact h.waiting
    case ended => exact h.ended
    case room => exact h.room
    case timely =>
      intro d hd hall
      rw [hdone] at hall
      split at hall
      · next hlt =>
        have hreceived := hmessages.received
        rw [hpc, Option.toList_some, List.length_singleton] at hreceived
        have henough : s.msgsSent ≤ s.receivedCount := by
          rw [hreceived, Nat.add_comm]
          exact hall.trans (Nat.add_le_add_right (doneBefore_le s d) 1)
        have hset : s.event.isSome := by
          rcases hsignal.wakes (h.begun d hd) henough with hset | ⟨other, pc, hholder, hne⟩
          · exact hset
          · rw [hpc] at hholder
            cases hholder
            contradiction
        obtain ⟨set, hevent⟩ := Option.isSome_iff_exists.mp hset
        exact ⟨set, hevent, (hsignal.past set hevent).trans_lt hlt⟩
      · exact h.timely d hd hall
    case late =>
      intro hlate
      obtain ⟨hover, d, hd, hpast, hfew⟩ := h.late hlate
      refine ⟨hover, d, hd, hpast, ?_⟩
      rw [hdone, if_neg (Nat.not_lt.mpr hpast)]
      exact hfew
    case latency => exact h.latency
    case unexpired => exact h.unexpired
    case recorded => exact h.recorded

/-- Every step keeps the account of the wait. -/
theorem timing_step {transport : String} {msg_size : ℕ} {s : Harness} {a : Action} {s' : Harness}
    (h : Timing s) (hmessages : Messages s) (hnumbers : Numbers s) (hsignal : Signal s)
    (hs : s.step transport msg_size a = some s') : Timing s' := by
  cases a with
  | tick elapsed =>
    cases hs
    exact h.congr (Nat.le_add_right ..) id (fun _ _ ↦ rfl) id rfl rfl rfl (fun _ ↦ id) rfl rfl
      h.latency h.unexpired h.recorded
  | main woken => exact h.main hmessages hnumbers hsignal (main_cases hs)
  | deliver m =>
    obtain ⟨-, rfl⟩ := deliver_cases hs
    exact h.congr le_rfl id (fun _ _ ↦ rfl) id rfl rfl rfl (fun _ ↦ id) rfl rfl h.latency
      h.unexpired h.recorded
  | acquire m =>
    obtain ⟨-, -, -, rfl⟩ := acquire_cases hs
    exact h.congr le_rfl id (fun _ _ ↦ rfl) id rfl rfl rfl (fun _ ↦ id) rfl rfl h.latency
      h.unexpired h.recorded
  | callback => exact h.callback hmessages hsignal (callback_cases hs)

/-! ## Over a whole run -/

/-- What every reachable state keeps. -/
structure Inv (s : Harness) : Prop where
  messages : Messages s
  numbers : Numbers s
  signal : Signal s
  timing : Timing s

/-- Before the first statement. -/
theorem inv_init : Inv {} := by
  constructor
  case messages => exact ⟨List.nodup_nil, by simp [ids], rfl⟩
  case numbers => exact ⟨rfl, Nat.zero_le _, rfl, fun _ ↦ rfl⟩
  case signal => exact ⟨by simp, by simp [Signalling], by simp [MainPc.checked]⟩
  case timing =>
    exact ⟨by simp, by simp, le_rfl, by simp, by simp, by simp, by simp, by simp [MainPc.waited],
      by simp⟩

/-- Every step keeps all of it. -/
theorem inv_step (transport : String) (msg_size : ℕ) (s : Harness) (a : Action) (s' : Harness)
    (h : Inv s) (hs : s.step transport msg_size a = some s') : Inv s' where
  messages := messages_step transport msg_size s a s' h.messages hs
  numbers := numbers_step transport msg_size s a s' h.numbers hs
  signal := signal_step h.signal h.messages h.numbers hs
  timing := timing_step h.timing h.messages h.numbers h.signal hs

/-- After a complete state, what is recorded as sent is not more than was received in it. -/
structure Settled (received sent : ℕ) (s : Harness) : Prop where
  inv : Inv s
  settled : maxMessages ≤ received ∨ s.pc.left = true ∧ s.msgsSent = sent

/-- Every step keeps to that. -/
theorem settled_step (transport : String) (msg_size received sent : ℕ) (s : Harness) (a : Action)
    (s' : Harness) (h : Settled received sent s) (hs : s.step transport msg_size a = some s') :
    Settled received sent s' := by
  refine ⟨inv_step transport msg_size s a s' h.inv hs, ?_⟩
  rcases h.settled with hmax | ⟨hleft, hsent⟩
  · exact .inl hmax
  · refine .inr ?_
    cases a with
    | tick elapsed =>
      cases hs
      exact ⟨hleft, hsent⟩
    | main woken =>
      obtain ⟨hleft', hsame⟩ := left_main (main_cases hs) hleft
      exact ⟨hleft', hsame.trans hsent⟩
    | deliver m =>
      obtain ⟨-, rfl⟩ := deliver_cases hs
      exact ⟨hleft, hsent⟩
    | acquire m =>
      obtain ⟨-, -, -, rfl⟩ := acquire_cases hs
      exact ⟨hleft, hsent⟩
    | callback => cases callback_cases hs <;> exact ⟨hleft, hsent⟩

/-- What is recorded once a complete state has been reached. -/
theorem Complete.recorded {transport : String} {msg_size : ℕ} {s t : Harness} (h : Complete s)
    (hinv : Inv s) (hreach : Reachable (step transport msg_size) s t) {r : BenchmarkResult}
    (hr : r ∈ t.result) : r.msgs_sent ≤ s.receivedCount := by
  have hsettled : Settled s.receivedCount s.msgsSent s := by
    refine ⟨hinv, ?_⟩
    rcases h with hmax | ⟨hleft, -⟩
    · exact .inl hmax
    · exact .inr ⟨hleft, rfl⟩
  have hthen := hreach.invariant hsettled (settled_step transport msg_size _ _)
  rw [(hthen.inv.timing.recorded r hr).2.sent]
  rcases h with hmax | ⟨hleft, hall⟩
  · have hbounded := hthen.inv.numbers.bounded
    have hpublished := hthen.inv.numbers.published
    omega
  · rcases hthen.settled with hmax | ⟨-, hsame⟩
    · have hbounded := hthen.inv.numbers.bounded
      have hpublished := hthen.inv.numbers.published
      omega
    · rw [hsame]
      exact hall

private theorem le_length_of_all {calls : List (ℕ × ℕ)} {sent : ℕ}
    (hall : ∀ m < sent, ∃ t, (m, t) ∈ calls) :
    sent ≤ calls.length := by
  have hsub : List.range sent ⊆ calls.map Prod.fst := by
    intro m hm
    obtain ⟨t, hmem⟩ := hall m (List.mem_range.mp hm)
    exact List.mem_map.mpr ⟨(m, t), hmem, rfl⟩
  have hlength := (List.nodup_range.subperm hsub).length_le
  rwa [List.length_range, List.length_map] at hlength

private theorem le_doneBefore {s : Harness} {d : ℕ}
    (hall : ∀ m < s.msgsSent, ∃ t < d, (m, t) ∈ s.finished) : s.msgsSent ≤ s.doneBefore d := by
  apply le_length_of_all
  intro m hm
  obtain ⟨t, hlt, hmem⟩ := hall m hm
  exact ⟨t, List.mem_filter.mpr ⟨hmem, by simpa using hlt⟩⟩

private theorem exists_late {s : Harness} {d : ℕ} (hfew : s.doneBefore d < s.msgsSent) :
    ∃ m < s.msgsSent, ∀ t, (m, t) ∈ s.finished → d ≤ t := by
  by_contra hnone
  apply absurd (le_doneBefore (s := s) (d := d) ?_) (Nat.not_le.mpr hfew)
  intro m hm
  by_contra hlate
  exact hnone ⟨m, hm, fun t hmem ↦ Nat.not_lt.mp fun hlt ↦ hlate ⟨t, hlt, hmem⟩⟩

/-- A message that was sent is lost, or its callback was not over when the timeout of the wait was. -/
def LostOrLate (s : Harness) : Prop :=
  ∃ d ∈ s.deadline, ∃ m < s.msgsSent, ∀ t, (m, t) ∈ s.finished → d ≤ t

private theorem Inv.lostOrLate {s : Harness} (h : Inv s) (hexpired : s.expired = true) : LostOrLate s := by
  obtain ⟨-, d, hd, -, hfew⟩ := h.timing.late hexpired
  exact ⟨d, hd, exists_late hfew⟩

/-- The publishing thread takes the time at the end of its wait less than `RECEIVE_TIMEOUT` after the
one at the end of its loop, unless it has waited to the timeout. -/
def Prompt (s : Harness) : Action → Prop
  | .main _ => s.pc = .takeLatencyEnd → s.expired = false → s.now < s.publishEnd + receiveTimeout
  | _ => True

instance (s : Harness) : ∀ a, Decidable (Prompt s a)
  | .main _ => inferInstanceAs (Decidable (_ → _ → _))
  | .tick _ | .deliver _ | .acquire _ | .callback => isTrue trivial

/-- The times of a prompt publishing thread: a full-timeout latency is that of a wait that ran to its
timeout. -/
structure OnTime (s : Harness) : Prop where
  measured : s.pc = .lockFinal ∨ s.pc = .readReceived → s.expired = false →
    s.latencyEnd < s.publishEnd + receiveTimeout
  recorded : ∀ r ∈ s.result, s.expired = false → r.receive_time < receiveTimeout

/-- A statement of the publishing thread keeps to the times if it is prompt. -/
theorem OnTime.main {s s' : Harness} (h : OnTime s) (htiming : Timing s)
    (hprompt : s.pc = .takeLatencyEnd → s.expired = false → s.now < s.publishEnd + receiveTimeout)
    (hs : MainStep s s') : OnTime s' := by
  cases hs with
  | takeLatencyEnd hpc =>
    exact ⟨fun _ ↦ hprompt hpc, htiming.unrecorded (by simp [hpc])⟩
  | lockFinal hpc =>
    exact ⟨fun _ ↦ h.measured (.inl hpc), htiming.unrecorded (by simp [hpc])⟩
  | readReceived hpc r hsent hreceived htime =>
    refine ⟨by simp, ?_⟩
    rintro _ ⟨⟩ hexpired
    have hmeasured := h.measured (.inr hpc) hexpired
    rw [htime]
    omega
  | expired d hpc => exact ⟨by simp, htiming.unrecorded (by simp [hpc])⟩
  | setTarget hpc | takeStart hpc | goOn hpc | leave hpc | publish hpc | published hpc | early hpc
  | again hpc | takePublishEnd hpc | storeTarget hpc | lockCheck hpc | checkAll hpc | checkSome hpc
  | isSet hpc | notSet hpc | waitSet hpc | waitUnset hpc | woken _ hpc =>
    exact ⟨by simp, htiming.unrecorded (by simp [hpc])⟩

private theorem onTime_step {transport : String} {msg_size : ℕ} {s : Harness} {a : Action} {s' : Harness}
    (h : OnTime s) (htiming : Timing s) (hprompt : Prompt s a)
    (hs : s.step transport msg_size a = some s') : OnTime s' := by
  cases a with
  | tick elapsed =>
    cases hs
    exact ⟨h.measured, h.recorded⟩
  | main woken => exact h.main htiming hprompt (main_cases hs)
  | deliver m =>
    obtain ⟨-, rfl⟩ := deliver_cases hs
    exact ⟨h.measured, h.recorded⟩
  | acquire m =>
    obtain ⟨-, -, -, rfl⟩ := acquire_cases hs
    exact ⟨h.measured, h.recorded⟩
  | callback => cases callback_cases hs <;> exact ⟨h.measured, h.recorded⟩

/-- The completion signal of a harness, with respect to what may still be recorded, and what the
recorded result shows. -/
structure SignalRight (transport : String) (msg_size : ℕ) (s : Harness) : Prop where
  only : s.event.isSome → ∀ t, Reachable (step transport msg_size) s t → ∀ r ∈ t.result,
    r.msgs_sent ≤ s.receivedCount
  wakes : s.pc.checked = true → (∀ m < s.msgsSent, ∃ t, (m, t) ∈ s.finished) → s.event.isSome
  inTime : ∀ d ∈ s.deadline, (∀ m < s.msgsSent, ∃ t < d, (m, t) ∈ s.finished) →
    (∃ set ∈ s.event, set < d) ∧ s.expired = false
  received : ∀ r ∈ s.result, r.msgs_received ≤ r.msgs_sent
  complete : ∀ r ∈ s.result, s.expired = false → r.msgs_received = r.msgs_sent
  lostOrLate : ∀ r ∈ s.result, (receiveTimeout : ℤ) ≤ r.receive_time → s.LostOrLate

private theorem Inv.signalRight {transport : String} {msg_size : ℕ} {s : Harness} (hinv : Inv s)
    (htime : OnTime s) : SignalRight transport msg_size s := by
  constructor
  case only =>
    intro hset t ht r hr
    exact (hinv.signal.only (.inl hset)).recorded hinv ht hr
  case wakes =>
    intro hchecked hall
    exact isSome_of_done hinv.messages hinv.numbers hinv.signal hchecked (le_length_of_all hall)
  case inTime =>
    intro d hd hall
    have henough := le_doneBefore hall
    refine ⟨hinv.timing.timely d hd henough, ?_⟩
    by_contra hexpired
    obtain ⟨-, deadline, hdeadline, -, hfew⟩ := hinv.timing.late (by simpa using hexpired)
    rw [Option.mem_unique hdeadline hd] at hfew
    exact absurd henough (Nat.not_le.mpr hfew)
  case received => exact fun r hr ↦ (hinv.timing.recorded r hr).2.received
  case complete => exact fun r hr ↦ (hinv.timing.recorded r hr).2.complete
  case lostOrLate =>
    intro r hr hfull
    refine hinv.lostOrLate ?_
    by_contra hexpired
    exact absurd hfull (Int.not_le.mpr (htime.recorded r hr (by simpa using hexpired)))

/-- The signal is neither lost nor invented and the result shows what it should, in every state of
every run whose publishing thread is prompt when it has been signalled. -/
theorem signal_right_of_prompt {transport : String} {msg_size : ℕ} {actions : List Action}
    (hok : AllSteps (step transport msg_size) Prompt {} actions) :
    AllStates (step transport msg_size) (SignalRight transport msg_size) {} actions :=
  hok.allStates (I := fun s ↦ Inv s ∧ OnTime s) ⟨inv_init, by simp, by simp⟩
    (fun s a s' h hprompt hs ↦ ⟨inv_step transport msg_size s a s' h.1 hs,
      onTime_step h.2 h.1.timing hprompt hs⟩)
    fun _ h ↦ h.1.signalRight h.2

/-- Two messages are published and the first one arrives during the loop. -/
private def firstRun : List Action :=
  List.replicate 4 (.main false) ++ [.deliver 0, .acquire 0, .callback, .callback, .callback] ++
    List.replicate 6 (.main false) ++ [.tick 1000000000] ++ List.replicate 6 (.main false)

/-- The second one does not arrive. -/
private def lossyRun : List Action :=
  firstRun ++ [.main false, .tick 1000000000] ++ List.replicate 4 (.main false)

/-- The second one arrives half a second into the wait. -/
private def slowRun : List Action :=
  firstRun ++ [.main false, .tick 500000000, .deliver 1, .acquire 1] ++
    List.replicate 4 .callback ++ List.replicate 4 (.main true)

/-- `signal_right_of_prompt` where the wait for the second message runs to its timeout, and where it
does not. -/
theorem signal_right_of_prompt_lossyRun :
    (∃ s r, run (step "DDS" 64) {} lossyRun = some s ∧ s.result = some r ∧
      (r.msgs_sent = 2 ∧ r.msgs_received = 1) ∧ r.receive_time = receiveTimeout ∧ s.LostOrLate) ∧
    ∃ s r, run (step "DDS" 64) {} slowRun = some s ∧ s.result = some r ∧
      r.receive_time = 500000000 ∧ r.msgs_received = r.msgs_sent := by
  have hlossy : AllStates (step "DDS" 64) (SignalRight "DDS" 64) {} lossyRun :=
    signal_right_of_prompt (by decide +kernel)
  have hslow : AllStates (step "DDS" 64) (SignalRight "DDS" 64) {} slowRun :=
    signal_right_of_prompt (by decide +kernel)
  constructor
  · exact ⟨_, _, rfl, rfl, ⟨rfl, rfl⟩, rfl,
      (hlossy lossyRun _ (List.prefix_refl _) rfl).lostOrLate _ rfl (by decide)⟩
  · exact ⟨_, _, rfl, rfl, rfl, (hslow slowRun _ (List.prefix_refl _) rfl).complete _ rfl rfl⟩

/-- The one message arrives at once, and the publishing thread is held up for a second between the end
of its loop and the check: the full-timeout latency that it records shows no loss. -/
theorem full_latency_without_loss :
    ¬ ∀ transport msg_size actions,
      AllStates (step transport msg_size) (SignalRight transport msg_size) {} actions := by
  intro h
  have hright := h "DDS" 64 (List.replicate 4 (.main false) ++
    [.deliver 0, .acquire 0, .callback, .callback, .callback] ++ List.replicate 2 (.main false) ++
    [.tick 1000000000] ++ List.replicate 2 (.main false) ++ [.tick 1000000000] ++
    List.replicate 7 (.main false)) _ _ (List.prefix_refl _) rfl
  obtain ⟨d, hd, -⟩ := hright.lostOrLate _ rfl (by decide)
  contradiction

end Harness

end HzjDds.PubSub.Throughput
