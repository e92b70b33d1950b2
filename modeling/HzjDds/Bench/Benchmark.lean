import HzjDds.Bench.Message
import HzjDds.Bench.PingPong

/-!
# Benchmark run over a grid of cases

Library `Bench`. Source: `scripts/bench/pingpong.py:70–85,612–634,797–828,1115–1240` and the four
client loops. The cases of a grid are played one after the other; each starts its sequence
numbers at zero. The echo side returns copies of published pings, at any time, in any order and
as often as it likes, to the client that listens on the topic of the ping, as far as its QoS
matches that of the writer of the ping and that of the reader of the pong.
-/

namespace HzjDds.Bench

open HzjDds.Transition

universe u

/-- One cell of the grid. -/
structure Case where
  qosKind : String
  size : ℕ
  deriving DecidableEq, Repr

/-- The three values of `--topology`. -/
inductive Topology where
  | sameProcess
  | sameHost
  | crossHostUdp
  deriving DecidableEq, Repr

/-- Reliability of a DDS writer or reader. -/
inductive Reliability where
  | bestEffort
  | reliable
  deriving DecidableEq, Repr

/-- `_qos_cyclone` and `_chain_a_qos`; any other kind raises. -/
def reliability? (qosKind : String) : Option Reliability :=
  if qosKind = "high_throughput" then some .bestEffort
  else if qosKind = "reliable" then some .reliable
  else none

/-- A reliable reader does not match a best-effort writer (`EDP.cpp:907–914`). -/
def qosMatch (writer reader : String) : Bool :=
  match reliability? writer, reliability? reader with
  | some .bestEffort, some .reliable => false
  | some _, some _ => true
  | _, _ => false

/-- What `main` hands to every case: the chain for a message size, and its arguments.
`responderQos` is the QoS kind of the responder that runs on the other host. -/
structure Plan (W : Type u) where
  chain : ℕ → Chain W
  topology : Topology
  topicPrefix : String
  responderQos : String
  warmup : ℕ
  samples : ℕ
  timeoutS : ℚ
  intervalMs : ℚ

/-- A published ping, with the number and the QoS kind of its case. A pong is a copy of one. -/
structure Ping (W : Type u) where
  case : ℕ
  qosKind : String
  topic : String
  seq : ℕ
  t0 : ℕ
  message : W
  deriving DecidableEq, Repr

/-- What a case that is over has measured. -/
structure CaseResult (W : Type u) where
  index : ℕ
  rounds : List (Round (Ping W))
  rttNs : List ℤ

/-- The run in case number `index`, with the cases still to do. -/
structure Benchmark (W : Type u) where
  index : ℕ := 0
  case : Case
  todo : List Case
  loop : Loop (Ping W)
  published : List (Ping W) := []
  results : List (CaseResult W) := []

/-- What can happen next: time passes, the loop or `on_pong` executes a statement, a copy of
the n-th published ping arrives, the case is over, or it raises. -/
inductive BenchmarkAction where
  | tick (elapsed : ℕ)
  | client (woken : Bool)
  | deliver (n : ℕ)
  | onPong
  | nextCase
  | raise
  deriving DecidableEq, Repr

variable {W : Type u}

/-- Topic of a case (`pingpong.py:1119,1178–1187,1200–1208`). -/
def Plan.topic (plan : Plan W) (case : Case) : String :=
  match plan.topology with
  | .crossHostUdp => plan.topicPrefix
  | _ => plan.topicPrefix ++ "_" ++ case.qosKind ++ "_" ++ toString case.size

/-- QoS kind of the echo side of a case: one responder serves all cross-host cases, elsewhere
each case has its own. -/
def Plan.echoQos (plan : Plan W) (qosKind : String) : String :=
  match plan.topology with
  | .crossHostUdp => plan.responderQos
  | _ => qosKind

/-- An echo of the ping can reach the pong reader of the case. -/
def Plan.Reaches (plan : Plan W) (ping : Ping W) (case : Case) : Prop :=
  ping.topic = plan.topic case ∧ qosMatch ping.qosKind (plan.echoQos ping.qosKind) = true ∧
    qosMatch (plan.echoQos ping.qosKind) case.qosKind = true

instance (plan : Plan W) (ping : Ping W) (case : Case) : Decidable (plan.Reaches ping case) :=
  inferInstanceAs (Decidable (_ ∧ _ ∧ _))

/-- Arguments of the client loop of a case. -/
def Plan.params (plan : Plan W) (case : Case) : Params (Ping W) where
  warmup := plan.warmup
  samples := plan.samples
  timeoutS := plan.timeoutS
  intervalMs := plan.intervalMs
  seqOf ping := (plan.chain case.size).seqOf ping.message

namespace Benchmark

/-- A run of a grid begins with its first case. -/
def start (plan : Plan W) (case : Case) (todo : List Case) (now : ℕ) : Benchmark W :=
  { case := case, todo := todo, loop := Loop.start (plan.params case) now }

/-- The loop of the next case, with fresh variables. -/
def advance (plan : Plan W) (b : Benchmark W) : Option (Benchmark W) :=
  match b.todo with
  | [] => none
  | case :: todo => some { b with
      index := b.index + 1
      case := case
      todo := todo
      loop := Loop.start (plan.params case) b.loop.now }

/-- A statement of the loop; a publish puts the ping on the topic of the case. -/
def client (plan : Plan W) (b : Benchmark W) (woken : Bool) : Option (Benchmark W) :=
  let next := b.loop.client (plan.params b.case) woken
  match b.loop.pc with
  | .publish t0 =>
    match (plan.chain b.case.size).encode b.loop.i t0 with
    | .sent message => next.map fun loop ↦ { b with
        loop := loop
        published := b.published ++ [⟨b.index, b.case.qosKind, plan.topic b.case, b.loop.i, t0, message⟩] }
    | .lost => next.map fun loop ↦ { b with loop := loop }
    | .raised => none
  | _ => next.map fun loop ↦ { b with loop := loop }

/-- One step of a run. -/
def step (plan : Plan W) (b : Benchmark W) : BenchmarkAction → Option (Benchmark W)
  | .tick elapsed =>
    (b.loop.step (plan.params b.case) (.tick elapsed)).map fun loop ↦ { b with loop := loop }
  | .client woken => b.client plan woken
  | .deliver n =>
    match b.published[n]? with
    | none => none
    | some ping =>
      if plan.Reaches ping b.case then
        (b.loop.step (plan.params b.case) (.arrive ping)).map fun loop ↦ { b with loop := loop }
      else none
  | .onPong => (b.loop.onPong (plan.params b.case)).map fun loop ↦ { b with loop := loop }
  | .nextCase =>
    match b.loop.pc with
    | .finished =>
      advance plan { b with results := b.results ++ [⟨b.index, b.loop.rounds, b.loop.rttNs⟩] }
    | _ => none
  | .raise => b.advance plan

/-- The values measured in a case are the arrival times of echoes of the pings they are
attributed to, minus the stamps of these pings. -/
structure Attributed (warmup index : ℕ) (rounds : List (Round (Ping W))) (rttNs : List ℤ) :
    Prop where
  recorded : rttNs = rounds.filterMap (Round.rtt warmup)
  echo : ∀ round ∈ rounds, ∀ stamp ∈ round.found, stamp.message.case = index ∧
    stamp.message.seq = round.seq ∧ stamp.message.t0 = round.t0
  nonneg : ∀ rtt ∈ rttNs, 0 ≤ rtt

/-- Every case measures its own pings. -/
def AllAttributed (plan : Plan W) (b : Benchmark W) : Prop :=
  Attributed plan.warmup b.index b.loop.rounds b.loop.rttNs ∧
    ∀ result ∈ b.results, Attributed plan.warmup result.index result.rounds result.rttNs

/-- The message that `on_pong` is about to compare. -/
def compared? : PongPc (Ping W) → Option (Ping W)
  | .compare _ ping => some ping
  | _ => none

/-- `on_pong` does not accept an echo of another case's ping: when it compares one, the
sequence number it reads is not the expected one. -/
def OwnEcho (plan : Plan W) (b : Benchmark W) : BenchmarkAction → Prop
  | .onPong => ∀ ping ∈ compared? b.loop.handler, ping.case ≠ b.index →
      ∀ seq ∈ (plan.params b.case).seqOf ping, (seq : ℤ) ≠ b.loop.expectSeq
  | _ => True

instance (plan : Plan W) (b : Benchmark W) : ∀ a, Decidable (OwnEcho plan b a)
  | .tick _ => isTrue trivial
  | .client _ => isTrue trivial
  | .deliver _ => isTrue trivial
  | .nextCase => isTrue trivial
  | .raise => isTrue trivial
  | .onPong => inferInstanceAs (Decidable (∀ ping ∈ _, _ → ∀ seq ∈ _, _))

/-- Stamp of the ping that is under way, once it is published. -/
def sent? : LoopPc → Option ℕ
  | .wait t0 _ => some t0
  | .waiting t0 _ _ => some t0
  | .readGot t0 _ _ => some t0
  | _ => none

/-- A ping of this case: its message is read as its number, and it is an earlier one or the
one under way. -/
def OwnPing (plan : Plan W) (b : Benchmark W) (ping : Ping W) : Prop :=
  (plan.chain b.case.size).seqOf ping.message = some ping.seq ∧
    (ping.seq < b.loop.i ∨ ping.seq = b.loop.i ∧ sent? b.loop.pc = some ping.t0)

/-- A stamp taken from an echo of a ping of this case. -/
def OwnStamp (b : Benchmark W) (arrival : ℕ) (ping : Ping W) (seq : ℕ) : Prop :=
  ping ∈ b.published ∧ ping.case = b.index ∧ ping.seq = seq ∧ ping.t0 ≤ arrival

/-- What `on_pong` relies on at a statement. -/
def AtPong (b : Benchmark W) : PongPc (Ping W) → Prop
  | .compare arrival ping => ping ∈ b.published ∧ ping.t0 ≤ arrival
  | .store arrival ping seq => b.OwnStamp arrival ping seq
  | _ => True

/-- Messages, loop and results of a run in which echoes stay in their cases. -/
structure Inv (plan : Plan W) (b : Benchmark W) : Prop where
  accounts : Loop.Accounts (plan.params b.case) b.loop
  past : ∀ ping ∈ b.published, ping.case ≤ b.index ∧ ping.t0 ≤ b.loop.now
  own : ∀ ping ∈ b.published, ping.case = b.index → OwnPing plan b ping
  stamped : ∀ t0, b.loop.pc = .publish t0 → t0 ≤ b.loop.now
  pong : b.AtPong b.loop.handler
  got : ∀ seq stamp, b.loop.got seq = some stamp → b.OwnStamp stamp.arrival stamp.message seq
  echo : ∀ round ∈ b.loop.rounds, ∀ stamp ∈ round.found, stamp.message.case = b.index ∧
    stamp.message.seq = round.seq ∧ stamp.message.t0 = round.t0 ∧ round.t0 ≤ stamp.arrival
  results : ∀ result ∈ b.results, Attributed plan.warmup result.index result.rounds result.rttNs

/-- Before the first statement of the first case. -/
theorem inv_start (plan : Plan W) (case : Case) (todo : List Case) (now : ℕ) :
    Inv plan (start plan case todo now) := by
  constructor
  case accounts => exact Loop.accounts_start ..
  case past => exact fun _ h ↦ by contradiction
  case own => exact fun _ h ↦ by contradiction
  case stamped =>
    intro t0 hpc
    simp only [start, Loop.start] at hpc
    split at hpc <;> contradiction
  case pong => trivial
  case got => exact fun _ _ h ↦ by contradiction
  case echo => exact fun _ h ↦ by contradiction
  case results => exact fun _ h ↦ by contradiction

private theorem Inv.attributed {plan : Plan W} {b : Benchmark W} (h : Inv plan b) :
    Attributed plan.warmup b.index b.loop.rounds b.loop.rttNs := by
  constructor
  case recorded => exact h.accounts.recorded
  case echo =>
    intro round hround stamp hstamp
    obtain ⟨hcase, hseq, ht0, -⟩ := h.echo round hround stamp hstamp
    exact ⟨hcase, hseq, ht0⟩
  case nonneg =>
    intro rtt hrtt
    rw [h.accounts.recorded] at hrtt
    obtain ⟨round, hround, hvalue⟩ := List.mem_filterMap.mp hrtt
    simp only [Round.rtt] at hvalue
    split at hvalue
    · obtain ⟨stamp, hstamp, rfl⟩ := Option.map_eq_some_iff.mp hvalue
      have hle := (h.echo round hround stamp hstamp).2.2.2
      omega
    · contradiction

/-- The next case begins with fresh variables; all pings so far belong to earlier cases. -/
theorem Inv.advance {plan : Plan W} {b b' : Benchmark W} (h : Inv plan b)
    (hs : b.advance plan = some b') : Inv plan b' := by
  unfold Benchmark.advance at hs
  split at hs
  · contradiction
  · next case todo _ =>
    cases hs
    have hstart := inv_start plan case todo b.loop.now
    constructor
    case accounts => exact hstart.accounts
    case past =>
      intro ping hping
      obtain ⟨hcase, ht0⟩ := h.past ping hping
      exact ⟨hcase.trans (Nat.le_succ _), ht0⟩
    case own =>
      intro ping hping hcase
      have hle := (h.past ping hping).1
      change ping.case = b.index + 1 at hcase
      omega
    case stamped => exact hstart.stamped
    case pong => trivial
    case got => exact fun _ _ h ↦ by contradiction
    case echo => exact fun _ h ↦ by contradiction
    case results => exact h.results

/-- A ping of this case stays one while the loop plays the same ping. -/
theorem OwnPing.step {plan : Plan W} {b : Benchmark W} {ping : Ping W} {loop : Loop (Ping W)}
    (h : OwnPing plan b ping) (hi : loop.i = b.loop.i)
    (hpc : ∀ t0, sent? b.loop.pc = some t0 → sent? loop.pc = some t0) :
    OwnPing plan { b with loop := loop } ping := by
  constructor
  · exact h.1
  · rcases h.2 with hlt | ⟨heq, hsent⟩
    · exact Or.inl (hlt.trans_eq hi.symm)
    · exact Or.inr ⟨heq.trans hi.symm, hpc _ hsent⟩

/-- Once the loop goes on, all pings of the case so far are earlier ones. -/
theorem OwnPing.next {plan : Plan W} {b : Benchmark W} {ping : Ping W} {loop : Loop (Ping W)}
    (h : OwnPing plan b ping) (hi : loop.i = b.loop.i + 1) :
    OwnPing plan { b with loop := loop } ping := by
  have hbefore : ping.seq < loop.i := by
    rcases h.2 with hlt | ⟨heq, -⟩
    · omega
    · omega
  exact ⟨h.1, Or.inl hbefore⟩

/-- A step within a ping that leaves `on_pong` and the entries in order. -/
theorem Inv.within {plan : Plan W} {b : Benchmark W} {loop : Loop (Ping W)} (h : Inv plan b)
    (haccounts : Loop.Accounts (plan.params b.case) loop) (hi : loop.i = b.loop.i)
    (hsent : ∀ t0, sent? b.loop.pc = some t0 → sent? loop.pc = some t0)
    (hstamped : ∀ t0, loop.pc = .publish t0 → t0 ≤ loop.now) (hnow : b.loop.now ≤ loop.now)
    (hrounds : loop.rounds = b.loop.rounds) (hpong : b.AtPong loop.handler)
    (hgot : ∀ seq stamp, loop.got seq = some stamp →
      b.OwnStamp stamp.arrival stamp.message seq) :
    Inv plan { b with loop := loop } := by
  constructor
  case accounts => exact haccounts
  case past =>
    intro ping hping
    obtain ⟨hcase, ht0⟩ := h.past ping hping
    exact ⟨hcase, ht0.trans hnow⟩
  case own => exact fun ping hping hcase ↦ (h.own ping hping hcase).step hi hsent
  case stamped => exact hstamped
  case pong => exact hpong
  case got => exact hgot
  case echo =>
    change ∀ round ∈ loop.rounds, _
    rw [hrounds]
    exact h.echo
  case results => exact h.results

/-- The end of a ping: what it found, if anything, is an echo of it. -/
theorem Inv.finishRound {plan : Plan W} {b : Benchmark W} {loop : Loop (Ping W)}
    {round : Round (Ping W)} (h : Inv plan b)
    (haccounts : Loop.Accounts (plan.params b.case) loop) (hi : loop.i = b.loop.i + 1)
    (hpc : ∀ t0, loop.pc ≠ .publish t0) (hnow : loop.now = b.loop.now)
    (hpong : loop.handler = b.loop.handler) (hgot : loop.got = b.loop.got)
    (hrounds : loop.rounds = b.loop.rounds ++ [round])
    (hfound : ∀ stamp ∈ round.found, stamp.message.case = b.index ∧
      stamp.message.seq = round.seq ∧ stamp.message.t0 = round.t0 ∧ round.t0 ≤ stamp.arrival) :
    Inv plan { b with loop := loop } := by
  constructor
  case accounts => exact haccounts
  case past =>
    intro ping hping
    obtain ⟨hcase, ht0⟩ := h.past ping hping
    exact ⟨hcase, ht0.trans_eq hnow.symm⟩
  case own => exact fun ping hping hcase ↦ (h.own ping hping hcase).next hi
  case stamped => exact fun t0 h ↦ absurd h (hpc t0)
  case pong =>
    change b.AtPong loop.handler
    rw [hpong]
    exact h.pong
  case got =>
    change ∀ seq stamp, loop.got seq = some stamp → _
    rw [hgot]
    exact h.got
  case results => exact h.results
  case echo =>
    change ∀ round ∈ loop.rounds, _
    rw [hrounds]
    intro other hother
    rcases List.mem_append.mp hother with hold | hnew
    · exact h.echo other hold
    · obtain rfl := List.mem_singleton.mp hnew
      exact hfound

private theorem finishRound_pc {p : Params (Ping W)} {l : Loop (Ping W)}
    {round : Round (Ping W)} (t0 : ℕ) : (l.finishRound p round).pc ≠ .publish t0 := by
  simp only [Loop.finishRound]
  split <;> exact LoopPc.noConfusion

/-- A statement of the loop other than a publish. -/
theorem Inv.clientStep {plan : Plan W} {b : Benchmark W} {loop : Loop (Ping W)} {woken : Bool}
    (h : Inv plan b) (hpub : ∀ t0, b.loop.pc ≠ .publish t0)
    (hs : b.loop.client (plan.params b.case) woken = some loop) :
    Inv plan { b with loop := loop } := by
  have haccounts := Loop.accounts_step _ _ (.client woken) _ h.accounts hs
  cases Loop.client_cases hs with
  | dropEntry hpc =>
    have hkept : ∀ seq stamp, Function.update b.loop.got b.loop.i none seq = some stamp →
        b.OwnStamp stamp.arrival stamp.message seq := by
      intro seq stamp hgot
      by_cases hseq : seq = b.loop.i
      · simp [hseq] at hgot
      · rw [Function.update_of_ne hseq] at hgot
        exact h.got seq stamp hgot
    exact h.within haccounts rfl (by simp [hpc, sent?]) (fun _ h ↦ by contradiction) le_rfl rfl
      h.pong hkept
  | takeT0 hpc =>
    exact h.within haccounts rfl (by simp [hpc, sent?]) (by rintro _ ⟨⟩; exact le_rfl) le_rfl rfl
      h.pong h.got
  | publish t0 hpc => exact absurd hpc (hpub t0)
  -- the other statements change neither the entries nor `on_pong`
  | noGap hpc | gap hpc | awake _ hpc | clearEvent hpc | setExpect hpc | waitSet _ _ _ hpc
  | waitUnset _ _ _ hpc | woken _ _ _ hpc =>
    exact h.within haccounts rfl (by simp [hpc, sent?]) (fun _ h ↦ by contradiction) le_rfl rfl
      h.pong h.got
  | expired t0 mark deadline hpc =>
    exact h.finishRound haccounts rfl finishRound_pc rfl rfl rfl rfl fun _ h ↦ by contradiction
  | missing t0 mark deadline hpc =>
    exact h.finishRound haccounts rfl finishRound_pc rfl rfl rfl rfl fun _ h ↦ by contradiction
  | found t0 mark deadline stamp hpc hgot =>
    apply h.finishRound haccounts rfl finishRound_pc rfl rfl rfl rfl
    rintro found ⟨⟩
    obtain ⟨hping, hcase, hseq, harrival⟩ := h.got _ _ hgot
    -- an echo with the number under way is of the ping under way
    have hsent : sent? b.loop.pc = some stamp.message.t0 := by
      rcases (h.own _ hping hcase).2 with hlt | ⟨-, hsent⟩
      · omega
      · exact hsent
    rw [hpc] at hsent
    obtain rfl : t0 = stamp.message.t0 := Option.some.inj hsent
    exact ⟨hcase, hseq, rfl, harrival⟩

/-- A publish puts the ping under way among the messages. -/
theorem Inv.publish {plan : Plan W} {b : Benchmark W} (h : Inv plan b) {t0 : ℕ}
    (hpc : b.loop.pc = .publish t0) {message : W}
    (hsent : (plan.chain b.case.size).encode b.loop.i t0 = .sent message) {loop : Loop (Ping W)}
    (hloop : loop = { b.loop with pc := .wait t0 b.loop.processed.length }) :
    Inv plan { b with
      loop := loop
      published := b.published ++ [⟨b.index, b.case.qosKind, plan.topic b.case, b.loop.i, t0, message⟩] } := by
  subst hloop
  constructor
  case accounts => exact h.accounts.congr rfl rfl rfl rfl
  case past =>
    intro ping hping
    rcases List.mem_append.mp hping with hold | hnew
    · exact h.past ping hold
    · obtain rfl := List.mem_singleton.mp hnew
      exact ⟨le_rfl, h.stamped t0 hpc⟩
  case own =>
    intro ping hping hcase
    rcases List.mem_append.mp hping with hold | hnew
    · obtain ⟨hseq, hplace⟩ := h.own ping hold hcase
      rcases hplace with hlt | ⟨-, hunder⟩
      · exact ⟨hseq, Or.inl hlt⟩
      · simp [hpc, sent?] at hunder
    · obtain rfl := List.mem_singleton.mp hnew
      exact ⟨(plan.chain b.case.size).seqOf_encode _ _ _ hsent, Or.inr ⟨rfl, rfl⟩⟩
  case stamped => exact fun _ h ↦ by contradiction
  case pong =>
    have hpong := h.pong
    change AtPong _ b.loop.handler
    cases hhandler : b.loop.handler <;> rw [hhandler] at hpong
    case compare => exact ⟨List.mem_append_left _ hpong.1, hpong.2⟩
    case store => exact ⟨List.mem_append_left _ hpong.1, hpong.2⟩
    all_goals trivial
  case got =>
    intro seq stamp hgot
    obtain ⟨hping, hrest⟩ := h.got seq stamp hgot
    exact ⟨List.mem_append_left _ hping, hrest⟩
  case echo => exact h.echo
  case results => exact h.results

/-- A statement of the loop. -/
theorem Inv.client {plan : Plan W} {b b' : Benchmark W} {woken : Bool} (h : Inv plan b)
    (hs : b.client plan woken = some b') : Inv plan b' := by
  unfold Benchmark.client at hs
  split at hs
  · next t0 hpc =>
    have hloop : b.loop.client (plan.params b.case) woken =
        some { b.loop with pc := .wait t0 b.loop.processed.length } := by
      simp [Loop.client, hpc]
    split at hs
    · next message hsent =>
      rw [hloop] at hs
      cases hs
      exact h.publish hpc hsent rfl
    · rw [hloop] at hs
      cases hs
      exact h.within (h.accounts.congr rfl rfl rfl rfl) rfl (by simp [hpc, sent?])
        (fun _ h ↦ by contradiction) le_rfl rfl h.pong h.got
    · contradiction
  · next hpub =>
    obtain ⟨loop, hloop, rfl⟩ := Option.map_eq_some_iff.mp hs
    exact h.clientStep hpub hloop

/-- A statement of `on_pong`, which accepts echoes of its own case only. -/
theorem Inv.onPong {plan : Plan W} {b : Benchmark W} {loop : Loop (Ping W)} (h : Inv plan b)
    (hok : OwnEcho plan b .onPong) (hs : b.loop.onPong (plan.params b.case) = some loop) :
    Inv plan { b with loop := loop } := by
  have haccounts := Loop.accounts_step _ _ .onPong _ h.accounts hs
  have hpong := h.pong
  cases Loop.onPong_cases hs with
  | discard arrival message hpc =>
    exact h.within haccounts rfl (fun _ h ↦ h) h.stamped le_rfl rfl trivial h.got
  | accept arrival ping seq hpc hseq hloop hexpect =>
    rw [hpc] at hpong
    obtain ⟨hping, harrival⟩ := hpong
    have hcase : ping.case = b.index := by
      by_contra hne
      exact hok ping (by rw [hpc]; rfl) hne seq hseq hexpect
    have hown : ping.seq = seq := by
      have := (h.own ping hping hcase).1
      exact Option.some.inj (this.symm.trans hseq)
    exact h.within haccounts rfl (fun _ h ↦ h) h.stamped le_rfl rfl
      ⟨hping, hcase, hown, harrival⟩ h.got
  | reject arrival ping seq hpc =>
    exact h.within haccounts rfl (fun _ h ↦ h) h.stamped le_rfl rfl trivial h.got
  | store arrival ping seq hpc =>
    rw [hpc] at hpong
    apply h.within haccounts rfl (fun _ h ↦ h) h.stamped le_rfl rfl trivial
    intro other stamp hgot
    by_cases hother : other = seq
    · subst hother
      simp only [Function.update_self, Option.some.injEq] at hgot
      subst hgot
      exact hpong
    · simp only [Function.update_of_ne hother] at hgot
      exact h.got other stamp hgot
  | setEvent seq hpc =>
    exact h.within haccounts rfl (fun _ h ↦ h) h.stamped le_rfl rfl trivial h.got

/-- Every step keeps the invariant when echoes stay in their cases. -/
theorem inv_step (plan : Plan W) (b : Benchmark W) (a : BenchmarkAction) (b' : Benchmark W)
    (h : Inv plan b) (hok : OwnEcho plan b a) (hs : step plan b a = some b') : Inv plan b' := by
  cases a with
  | tick elapsed =>
    cases hs
    exact h.within (h.accounts.congr rfl rfl rfl rfl) rfl (fun _ h ↦ h)
      (fun t0 hpc ↦ (h.stamped t0 hpc).trans (Nat.le_add_right ..)) (Nat.le_add_right ..) rfl
      h.pong h.got
  | client woken => exact h.client hs
  | deliver n =>
    simp only [step] at hs
    split at hs
    · contradiction
    · next ping hping =>
      split at hs
      · obtain ⟨loop, hloop, rfl⟩ := Option.map_eq_some_iff.mp hs
        obtain ⟨-, rfl⟩ := Loop.step_arrive hloop
        have hmem := List.mem_of_getElem? hping
        exact h.within (h.accounts.congr rfl rfl rfl rfl) rfl (fun _ h ↦ h) h.stamped le_rfl rfl
          ⟨hmem, (h.past ping hmem).2⟩ h.got
      · contradiction
  | onPong =>
    obtain ⟨loop, hloop, rfl⟩ := Option.map_eq_some_iff.mp hs
    exact h.onPong hok hloop
  | nextCase =>
    simp only [step] at hs
    split at hs
    · have hresults : ∀ result ∈ b.results ++ [⟨b.index, b.loop.rounds, b.loop.rttNs⟩],
          Attributed plan.warmup result.index result.rounds result.rttNs := by
        intro result hresult
        rcases List.mem_append.mp hresult with hold | hnew
        · exact h.results result hold
        · obtain rfl := List.mem_singleton.mp hnew
          exact h.attributed
      apply Inv.advance _ hs
      exact ⟨h.accounts, h.past, h.own, h.stamped, h.pong, h.got, h.echo, hresults⟩
    · contradiction
  | raise => exact h.advance hs

/-- Over a whole benchmark run in which `on_pong` accepts no echo of another case's ping, every
value measured is the arrival of an echo of the ping it is attributed to minus its stamp. -/
theorem allAttributed_of_ownEcho {plan : Plan W} {case : Case} {todo : List Case} {now : ℕ}
    {actions : List BenchmarkAction}
    (hok : AllSteps (step plan) (OwnEcho plan) (start plan case todo now) actions) :
    AllStates (step plan) (AllAttributed plan) (start plan case todo now) actions :=
  hok.allStates (inv_start plan case todo now) (inv_step plan)
    fun _ h ↦ ⟨h.attributed, h.results⟩

private def crossHost (samples : ℕ) : Plan RosMsg :=
  ⟨chainA .byteMultiarray, .crossHostUdp, "hzj", "reliable", 0, samples, 1, 0⟩

/-- The loop up to its wait for the pong. -/
private def play : List BenchmarkAction := List.replicate 7 (.client false)

/-- A pong that is stored and found. -/
private def answer (n : ℕ) : List BenchmarkAction :=
  [.tick 5, .deliver n, .onPong, .onPong, .onPong, .client true, .client false]

/-- Two cases of two pings on one topic. While the last ping is under way, an echo of the first
one comes once more, and finds another number expected. -/
private def lateEchoRun : List BenchmarkAction :=
  play ++ answer 0 ++ play ++ answer 1 ++ [.nextCase] ++ play ++ answer 2 ++ play ++
    [.tick 1, .deliver 0, .onPong] ++ answer 3

/-- `allAttributed_of_ownEcho` where a late echo of an earlier case is turned away. -/
theorem allAttributed_of_ownEcho_lateEchoRun :
    AllStates (step (crossHost 2)) (AllAttributed (crossHost 2))
      (start (crossHost 2) ⟨"reliable", 64⟩ [⟨"reliable", 128⟩] 0) lateEchoRun ∧
    ∃ b, run (step (crossHost 2)) (start (crossHost 2) ⟨"reliable", 64⟩ [⟨"reliable", 128⟩] 0)
      lateEchoRun = some b ∧ b.loop.rttNs = [5, 6] :=
  ⟨allAttributed_of_ownEcho (by decide +kernel), by decide +kernel⟩

/-- Cases that share a topic restart their numbers at zero: the late pong of the first case's
ping 0 is taken for the pong of the second case's ping 0. -/
theorem late_pong_measured_in_next_case :
    ¬ ∀ (plan : Plan RosMsg) case todo now actions,
      AllStates (step plan) (AllAttributed plan) (start plan case todo now) actions := by
  intro h
  have hbad : ¬ AllStates (step (crossHost 1))
      (fun b ↦ ∀ round ∈ b.loop.rounds, ∀ stamp ∈ round.found, stamp.message.case = b.index)
      (start (crossHost 1) ⟨"reliable", 64⟩ [⟨"reliable", 128⟩] 0)
      (play ++ [.tick 1000000000, .client false, .nextCase] ++ play ++ answer 0) := by
    decide +kernel
  apply hbad
  intro bs t hbs ht round hround stamp hstamp
  exact ((h (crossHost 1) _ _ _ _ bs t hbs ht).1.echo round hround stamp hstamp).1

end Benchmark

end HzjDds.Bench
