import HzjDds.Transition.RLock
import HzjDds.Transition.Lifecycle
import HzjDds.Transport.PubSubTransport

/-!
# DDS transport

Library `Transport`. Source: `core/transport.py:221–252`. Any number of threads call
`start`, `stop`, `broadcast` and `subscribe` of one transport; a step is one statement of
one call. The nested `self.start()` of `broadcast` and `subscribe` is a call of its own, and
code run by `dds.publish` or `dds.subscribe` may call the transport again from the same
thread. `dds.start` and `dds.stop` run no code of their caller (`ddspubsub.py:145–152`,
`ddsservice.py:50–62`).
-/

namespace HzjDds.Transport.DDSTransport

open HzjDds.Transition

universe u v w

/-- The methods of the transport that touch its backend. -/
inductive Method (μ : Type v) (κ : Type w) where
  | start
  | stop
  | broadcast (msg : μ)
  | subscribe (callback : κ)
  deriving DecidableEq, Repr

/-- Next statement of a call. `nested` waits for the inner `self.start()` to return,
`inBackend` for the backend; `leave` gives the lock back, `raised` with an exception. -/
inductive Pc where
  | acquire
  | test
  | nested
  | invoke
  | inBackend
  | assign
  | leave (raised : Bool)
  deriving DecidableEq, Repr

/-- One call in progress. -/
structure Frame (μ : Type v) (κ : Type w) where
  method : Method μ κ
  pc : Pc := .acquire
  deriving DecidableEq, Repr

/-- Transport, backend and threads. `running` is the backend's own state; `log` records the
successful `dds.start` and `dds.stop` calls and every `dds.publish` and `dds.subscribe`. -/
structure State (τ : Type u) (μ : Type v) (κ : Type w) where
  startLock : RLock τ := .free
  started : Bool := false
  running : Bool := false
  callStack : τ → List (Frame μ κ) := fun _ ↦ []
  log : List (LifecycleEvent (Request μ κ)) := []

/-- What can happen next: a thread calls a method, executes its next statement, or the
backend call it is in returns (`ok`) or raises. -/
inductive Action (τ : Type u) (μ : Type v) (κ : Type w) where
  | call (t : τ) (method : Method μ κ)
  | advance (t : τ)
  | returns (t : τ) (ok : Bool)
  deriving DecidableEq, Repr

variable {τ : Type u} {μ : Type v} {κ : Type w}

/-- Backend call of `broadcast` and `subscribe` (`transport.py:240–252`). -/
def Method.request? : Method μ κ → Option (Request μ κ)
  | broadcast msg => some (.publish msg)
  | subscribe callback => some (.subscribe callback)
  | _ => none

/-- The method is `start`. -/
def Method.isStart : Method μ κ → Bool
  | start => true
  | _ => false

/-- The calls of the thread let it call the transport: it is outside, or its innermost call
is inside `dds.publish` or `dds.subscribe`. -/
def mayCall : List (Frame μ κ) → Bool
  | [] => true
  | f :: _ => f.method.request?.isSome && f.pc == .inBackend

/-- The test of `_started` (`transport.py:230,236,242,250`) by the innermost call. -/
def afterTest (started : Bool) : Method μ κ → List (Frame μ κ) → List (Frame μ κ)
  | .start, rest => ⟨.start, if started then .leave false else .invoke⟩ :: rest
  | .stop, rest => ⟨.stop, if started then .invoke else .leave false⟩ :: rest
  | method, rest =>
    if started then ⟨method, .invoke⟩ :: rest
    else ⟨.start, .acquire⟩ :: ⟨method, .nested⟩ :: rest

/-- What the caller does once the innermost call is over: a nested `self.start()` resumes
the method it stands in, with its exception if it raised one. -/
def resume (raised : Bool) : List (Frame μ κ) → List (Frame μ κ)
  | ⟨method, .nested⟩ :: rest => ⟨method, if raised then .leave true else .invoke⟩ :: rest
  | rest => rest

/-- Effect of a returning backend call. A `dds.start` that raises leaves the backend stopped,
a `dds.stop` that raises leaves it started. -/
def backendReturns (s : State τ μ κ) (method : Method μ κ) (ok : Bool) : State τ μ κ :=
  match method with
  | .start => { s with running := ok, log := if ok then s.log ++ [.start] else s.log }
  | .stop => { s with running := !ok, log := if ok then s.log ++ [.stop] else s.log }
  | _ => s

/-- Effect of a call into the backend: a publish or a subscribe takes place. -/
def invoke (s : State τ μ κ) (method : Method μ κ) : State τ μ κ :=
  match method.request? with
  | some request => { s with log := s.log ++ [.use request] }
  | none => s

/-- Statement after a backend call: `start` and `stop` set `_started` if it returned. -/
def afterBackend (method : Method μ κ) (ok : Bool) : Pc :=
  if ok then (if method.request?.isSome then .leave false else .assign) else .leave true

variable [DecidableEq τ]

/-- Replace the calls of one thread. -/
def State.setStack (s : State τ μ κ) (t : τ) (calls : List (Frame μ κ)) : State τ μ κ :=
  { s with callStack := Function.update s.callStack t calls }

/-- Next statement of the innermost call `f` of a thread. -/
def advance (s : State τ μ κ) (t : τ) (f : Frame μ κ) (rest : List (Frame μ κ)) :
    Option (State τ μ κ) :=
  match f.pc with
  | .acquire => (s.startLock.acquire t).map fun lock ↦
      { s with startLock := lock }.setStack t (⟨f.method, .test⟩ :: rest)
  | .test => some (s.setStack t (afterTest s.started f.method rest))
  | .invoke => some ((invoke s f.method).setStack t (⟨f.method, .inBackend⟩ :: rest))
  | .assign => some ({ s with started := f.method.isStart }.setStack t
      (⟨f.method, .leave false⟩ :: rest))
  | .leave raised => (s.startLock.release t).map fun lock ↦
      { s with startLock := lock }.setStack t (resume raised rest)
  | .nested => none
  | .inBackend => none

/-- One step of one thread. -/
def step (s : State τ μ κ) : Action τ μ κ → Option (State τ μ κ)
  | .call t method =>
    if mayCall (s.callStack t) then
      some (s.setStack t (⟨method, .acquire⟩ :: s.callStack t))
    else none
  | .advance t =>
    match s.callStack t with
    | [] => none
    | f :: rest => advance s t f rest
  | .returns t ok =>
    match s.callStack t with
    | ⟨method, .inBackend⟩ :: rest =>
      some ((backendReturns s method ok).setStack t (⟨method, afterBackend method ok⟩ :: rest))
    | _ => none

/-- The backend is serialised: its switches alternate beginning with a start, every use finds
it started, and the flag tells the truth whenever nobody holds the lock. -/
structure Serialised (s : State τ μ κ) : Prop where
  /-- The log accounts for the backend's real state. -/
  word : run LifecycleEvent.step false s.log = some s.running
  /-- The n-th successful `dds.start` or `dds.stop` is a start exactly for even n. -/
  alternate : ∀ n e, (s.log.filter LifecycleEvent.isSwitch)[n]? = some e →
    e = LifecycleEvent.switchAt false n
  /-- The calls before a publish or a subscribe left the backend started. -/
  use : ∀ before request after, s.log = before ++ .use request :: after →
    run LifecycleEvent.step false before = some true
  /-- Outside the lock `_started` is the backend's state. -/
  free : s.startLock = .free → s.started = s.running

/-! ## Invariant -/

/-- The call is inside the `with` block. -/
def Frame.holds (f : Frame μ κ) : Bool := f.pc != .acquire

/-- A call stands inside another one: as its nested `self.start()`, or in code that the
backend runs for it. -/
def StandsIn (inner outer : Frame μ κ) : Prop :=
  outer.method.request?.isSome ∧
    (outer.pc = .nested ∧ inner.method = .start ∨ outer.pc = .inBackend)

/-- The calls of a thread, innermost first. -/
def StackOk : List (Frame μ κ) → Prop
  | [] => True
  | f :: rest => f.pc ≠ .nested ∧ List.IsChain StandsIn (f :: rest)

/-- Flag and backend as the innermost call of the lock's owner has left them. -/
def FrameOk (started running : Bool) (f : Frame μ κ) : Prop :=
  match f.pc with
  | .invoke => started = running ∧ started = !f.method.isStart
  | .inBackend => started = running ∧ (f.method.request? = none → started = !f.method.isStart)
  | .assign => running = f.method.isStart
  | .leave raised => started = running ∧ (f.method = .start → raised = false → started = true)
  | _ => started = running

/-- Locks, calls, flag, backend and log of a reachable state. -/
structure Inv (s : State τ μ κ) : Prop where
  count : ∀ t, s.startLock.count t = (s.callStack t).countP Frame.holds
  stack : ∀ t, StackOk (s.callStack t)
  owner : ∀ t f rest, s.callStack t = f :: rest → s.startLock.count t ≠ 0 →
    FrameOk s.started s.running f
  free : s.startLock = .free → s.started = s.running
  word : run LifecycleEvent.step false s.log = some s.running

/-- Nothing has been called yet. -/
theorem inv_init : Inv ({} : State τ μ κ) :=
  ⟨fun _ ↦ rfl, fun _ ↦ trivial, fun _ _ _ h ↦ by contradiction, fun _ ↦ rfl, rfl⟩

private theorem isChain_setPc {f : Frame μ κ} (pc : Pc) {rest : List (Frame μ κ)}
    (h : List.IsChain StandsIn (f :: rest)) :
    List.IsChain StandsIn (⟨f.method, pc⟩ :: rest) := by
  cases rest with
  | nil => exact .singleton _
  | cons g rest =>
    obtain ⟨hin, hchain⟩ := List.isChain_cons_cons.mp h
    exact List.isChain_cons_cons.mpr ⟨hin, hchain⟩

private theorem stackOk_setPc {f : Frame μ κ} {pc : Pc} {rest : List (Frame μ κ)}
    (h : StackOk (f :: rest)) (hpc : pc ≠ .nested) : StackOk (⟨f.method, pc⟩ :: rest) :=
  ⟨hpc, isChain_setPc pc h.2⟩

private theorem countP_resume (raised : Bool) (rest : List (Frame μ κ)) :
    (resume raised rest).countP Frame.holds = rest.countP Frame.holds := by
  unfold resume
  split
  · cases raised <;> simp [List.countP_cons, Frame.holds]
  · rfl

private theorem stackOk_resume {f : Frame μ κ} {raised : Bool} {rest : List (Frame μ κ)}
    (h : StackOk (f :: rest)) : StackOk (resume raised rest) := by
  cases rest with
  | nil => trivial
  | cons g rest =>
    obtain ⟨hin, hchain⟩ := List.isChain_cons_cons.mp h.2
    obtain ⟨method, pc⟩ := g
    rcases hin.2 with ⟨rfl, -⟩ | rfl
    · exact ⟨by cases raised <;> simp, isChain_setPc _ hchain⟩
    · exact ⟨by simp, hchain⟩

/-- A step that changes the calls of one thread, and flag or backend only if that thread owns
the lock, keeps the invariant when it leaves the calls and the log in order. -/
theorem Inv.ofStack {s s' : State τ μ κ} {t : τ} {calls : List (Frame μ κ)} (h : Inv s)
    (hlock : s'.startLock = s.startLock)
    (hcallStack : s'.callStack = Function.update s.callStack t calls)
    (hsame : s.startLock.count t = 0 → s'.started = s.started ∧ s'.running = s.running)
    (hcount : calls.countP Frame.holds = (s.callStack t).countP Frame.holds) (hok : StackOk calls)
    (hframe : s.startLock.count t ≠ 0 → ∀ f rest, calls = f :: rest →
      FrameOk s'.started s'.running f)
    (hword : run LifecycleEvent.step false s'.log = some s'.running) : Inv s' := by
  constructor
  case count =>
    intro u
    rw [hlock, hcallStack, h.count u]
    by_cases hut : u = t
    · rw [hut, Function.update_self, hcount]
    · rw [Function.update_of_ne hut]
  case stack =>
    intro u
    rw [hcallStack]
    by_cases hut : u = t
    · rwa [hut, Function.update_self]
    · rw [Function.update_of_ne hut]
      exact h.stack u
  case owner =>
    intro u f rest hu hc
    rw [hlock] at hc
    by_cases hut : u = t
    · rw [hut] at hc
      rw [hcallStack, hut, Function.update_self] at hu
      exact hframe hc f rest hu
    · -- only the owner may have touched flag and backend, and the owner is `u`
      obtain ⟨hs, hr⟩ := hsame (RLock.count_eq_zero_of_ne hc (Ne.symm hut))
      rw [hcallStack, Function.update_of_ne hut] at hu
      rw [hs, hr]
      exact h.owner u f rest hu hc
  case free =>
    intro hfree
    rw [hlock] at hfree
    obtain ⟨hs, hr⟩ := hsame (by rw [hfree, RLock.count_free])
    rw [hs, hr]
    exact h.free hfree
  case word => exact hword

private theorem count_ne_zero {s : State τ μ κ} {t : τ} {f : Frame μ κ}
    {rest : List (Frame μ κ)} (h : Inv s) (ht : s.callStack t = f :: rest)
    (hf : f.holds = true) : s.startLock.count t ≠ 0 := by
  rw [h.count t, ht, List.countP_cons_of_pos hf]
  omega

/-- Taking the lock. -/
theorem Inv.acquire {s : State τ μ κ} {t : τ} {method : Method μ κ} {rest : List (Frame μ κ)}
    {lock : RLock τ} (h : Inv s) (ht : s.callStack t = ⟨method, .acquire⟩ :: rest)
    (hlock : s.startLock.acquire t = some lock) :
    Inv ({ s with startLock := lock }.setStack t (⟨method, .test⟩ :: rest)) := by
  have hsettled : s.started = s.running := by
    rcases RLock.free_or_count_of_acquire hlock with hfree | hc
    · exact h.free hfree
    · exact h.owner t _ rest ht hc
  have hcount := RLock.count_acquire hlock
  have hown : lock.count t ≠ 0 := by
    rw [hcount t, if_pos rfl]
    omega
  constructor
  case count =>
    intro u
    change lock.count u = List.countP _ (Function.update s.callStack t _ u)
    rw [hcount u]
    by_cases hut : u = t
    · rw [hut, if_pos rfl, Function.update_self, h.count t, ht,
        List.countP_cons_of_neg (by simp [Frame.holds]), List.countP_cons_of_pos (by rfl)]
    · rw [if_neg hut, Function.update_of_ne hut]
      exact h.count u
  case stack =>
    intro u
    change StackOk (Function.update s.callStack t _ u)
    by_cases hut : u = t
    · have hcalls := h.stack t
      rw [ht] at hcalls
      rw [hut, Function.update_self]
      exact stackOk_setPc hcalls Pc.noConfusion
    · rw [Function.update_of_ne hut]
      exact h.stack u
  case owner =>
    intro u f calls hu hc
    obtain rfl : u = t := RLock.eq_of_count hc hown
    change Function.update s.callStack u _ u = _ at hu
    rw [Function.update_self] at hu
    cases hu
    exact hsettled
  case free => exact fun _ ↦ hsettled
  case word => exact h.word

private theorem frameOk_resume {started running raised : Bool} {inner f : Frame μ κ}
    {rest calls : List (Frame μ κ)} (hin : StackOk (inner :: rest))
    (hpc : inner.pc = .leave raised) (hinner : FrameOk started running inner)
    (hcalls : resume raised rest = f :: calls) : FrameOk started running f := by
  cases rest with
  | nil => contradiction
  | cons g rest =>
    obtain ⟨hstands, -⟩ := List.isChain_cons_cons.mp hin.2
    obtain ⟨method, pc⟩ := g
    simp only [FrameOk, hpc] at hinner
    obtain ⟨hsettled, hstart⟩ := hinner
    rcases hstands.2 with ⟨rfl, hm⟩ | rfl
    · cases hcalls
      cases raised with
      | true => exact ⟨hsettled, fun _ h ↦ by contradiction⟩
      | false =>
        constructor
        · exact hsettled
        · cases method with
          | broadcast => exact hstart hm rfl
          | subscribe => exact hstart hm rfl
          | start => simp [StandsIn, Method.request?] at hstands
          | stop => simp [StandsIn, Method.request?] at hstands
    · cases hcalls
      have huse := hstands.1
      constructor
      · exact hsettled
      · intro hnone
        simp only [hnone] at huse
        contradiction

/-- Giving the lock back. -/
theorem Inv.release {s : State τ μ κ} {t : τ} {method : Method μ κ} {raised : Bool}
    {rest : List (Frame μ κ)} {lock : RLock τ} (h : Inv s)
    (ht : s.callStack t = ⟨method, .leave raised⟩ :: rest)
    (hlock : s.startLock.release t = some lock) :
    Inv ({ s with startLock := lock }.setStack t (resume raised rest)) := by
  have hcalls := h.stack t
  rw [ht] at hcalls
  have hown : s.startLock.count t ≠ 0 := count_ne_zero h ht rfl
  have hframe := h.owner t _ rest ht hown
  have hcount := RLock.count_release hlock
  constructor
  case count =>
    intro u
    change lock.count u = List.countP _ (Function.update s.callStack t _ u)
    have hu := hcount u
    by_cases hut : u = t
    · subst hut
      rw [if_pos rfl, h.count u, ht, List.countP_cons_of_pos (by rfl)] at hu
      rw [Function.update_self, countP_resume]
      omega
    · rw [if_neg hut] at hu
      rw [Function.update_of_ne hut, ← hu, h.count u]
  case stack =>
    intro u
    change StackOk (Function.update s.callStack t _ u)
    by_cases hut : u = t
    · rw [hut, Function.update_self]
      exact stackOk_resume hcalls
    · rw [Function.update_of_ne hut]
      exact h.stack u
  case free => exact fun _ ↦ hframe.1
  case word => exact h.word
  case owner =>
    -- whoever still holds the lock held it before, so it is the same thread
    intro u f calls hu hc
    have hbefore : s.startLock.count u ≠ 0 := by
      rw [hcount u]
      split
      · omega
      · exact hc
    obtain rfl : u = t := RLock.eq_of_count hbefore hown
    change Function.update s.callStack u _ u = _ at hu
    rw [Function.update_self] at hu
    exact frameOk_resume hcalls rfl hframe hu

omit [DecidableEq τ] in
private theorem afterTest_cases (started : Bool) (method : Method μ κ) (rest : List (Frame μ κ)) :
    (∃ pc, pc ≠ .nested ∧ pc ≠ .acquire ∧ FrameOk started started ⟨method, pc⟩ ∧
      afterTest started method rest = ⟨method, pc⟩ :: rest) ∨
    method.request?.isSome ∧
      afterTest started method rest = ⟨.start, .acquire⟩ :: ⟨method, .nested⟩ :: rest := by
  cases started with
  | true =>
    left
    cases method with
    | start => exact ⟨.leave false, by simp [afterTest, FrameOk]⟩
    | _ => exact ⟨.invoke, by simp [afterTest, FrameOk, Method.isStart]⟩
  | false =>
    cases method with
    | start => exact Or.inl ⟨.invoke, by simp [afterTest, FrameOk, Method.isStart]⟩
    | stop => exact Or.inl ⟨.leave false, by simp [afterTest, FrameOk]⟩
    | _ => exact Or.inr ⟨rfl, rfl⟩

/-- The test of `_started`. -/
theorem Inv.test {s : State τ μ κ} {t : τ} {method : Method μ κ} {rest : List (Frame μ κ)}
    (h : Inv s) (ht : s.callStack t = ⟨method, .test⟩ :: rest) :
    Inv (s.setStack t (afterTest s.started method rest)) := by
  have hcalls := h.stack t
  rw [ht] at hcalls
  have hsettled : s.started = s.running := h.owner t _ rest ht (count_ne_zero h ht rfl)
  rcases afterTest_cases s.started method rest with ⟨pc, hnested, hpc, hframe, heq⟩ | ⟨huse, heq⟩
  · rw [heq]
    refine h.ofStack rfl rfl (fun _ ↦ ⟨rfl, rfl⟩) ?_ (stackOk_setPc hcalls hnested) ?_ h.word
    · rw [ht, List.countP_cons_of_pos (by simpa [Frame.holds] using hpc),
        List.countP_cons_of_pos (by rfl)]
    · rintro - f calls hf
      cases hf
      change FrameOk s.started s.running _
      rwa [← hsettled]
  · rw [heq]
    have hchain := isChain_setPc .nested hcalls.2
    refine h.ofStack rfl rfl (fun _ ↦ ⟨rfl, rfl⟩) ?_ ⟨Pc.noConfusion, ?_⟩ ?_ h.word
    · rw [ht, List.countP_cons_of_neg (by simp [Frame.holds]), List.countP_cons_of_pos (by rfl),
        List.countP_cons_of_pos (by rfl)]
    · exact List.isChain_cons_cons.mpr ⟨⟨huse, Or.inl ⟨rfl, rfl⟩⟩, hchain⟩
    · rintro - f calls hf
      cases hf
      exact hsettled

private theorem Inv.moveOn {s s' : State τ μ κ} {t : τ} {method : Method μ κ} {pc pc' : Pc}
    {rest : List (Frame μ κ)} (h : Inv s) (ht : s.callStack t = ⟨method, pc⟩ :: rest)
    (hpc : pc ≠ .acquire) (hin : pc' ≠ .acquire) (hnested : pc' ≠ .nested)
    (hlock : s'.startLock = s.startLock) (hcallStack : s'.callStack = s.callStack)
    (hframe : FrameOk s'.started s'.running ⟨method, pc'⟩)
    (hword : run LifecycleEvent.step false s'.log = some s'.running) :
    Inv (s'.setStack t (⟨method, pc'⟩ :: rest)) := by
  have hcalls := h.stack t
  rw [ht] at hcalls
  have hown : s.startLock.count t ≠ 0 :=
    count_ne_zero h ht (by simpa [Frame.holds] using hpc)
  refine h.ofStack hlock (by rw [← hcallStack]; rfl) (fun hc ↦ absurd hc hown) ?_
    (stackOk_setPc hcalls hnested) ?_ hword
  · rw [ht, List.countP_cons_of_pos (by simpa [Frame.holds] using hin),
      List.countP_cons_of_pos (by simpa [Frame.holds] using hpc)]
  · rintro - f calls hf
    cases hf
    exact hframe

/-- Calling into the backend: a publish or a subscribe finds it started. -/
theorem Inv.invoke {s : State τ μ κ} {t : τ} {method : Method μ κ} {rest : List (Frame μ κ)}
    (h : Inv s) (ht : s.callStack t = ⟨method, .invoke⟩ :: rest) :
    Inv ((invoke s method).setStack t (⟨method, .inBackend⟩ :: rest)) := by
  obtain ⟨hsettled, hflag⟩ := h.owner t _ rest ht (count_ne_zero h ht rfl)
  unfold DDSTransport.invoke
  split
  · next request hr =>
    have hrun : s.running = true := by
      rw [← hsettled, hflag]
      cases method with
      | start => simp [Method.request?] at hr
      | _ => rfl
    refine h.moveOn ht Pc.noConfusion Pc.noConfusion Pc.noConfusion rfl rfl
      ⟨hsettled, fun hnone ↦ ?_⟩ ?_
    · rw [hr] at hnone
      contradiction
    · rw [run_concat, h.word, hrun]
      rfl
  · exact h.moveOn ht Pc.noConfusion Pc.noConfusion Pc.noConfusion rfl rfl
      ⟨hsettled, fun _ ↦ hflag⟩ h.word

/-- Setting `_started` after the backend's `start` or `stop` has returned. -/
theorem Inv.assign {s : State τ μ κ} {t : τ} {method : Method μ κ} {rest : List (Frame μ κ)}
    (h : Inv s) (ht : s.callStack t = ⟨method, .assign⟩ :: rest) :
    Inv ({ s with started := method.isStart }.setStack t (⟨method, .leave false⟩ :: rest)) := by
  have hrun : s.running = method.isStart := h.owner t _ rest ht (count_ne_zero h ht rfl)
  have hframe : FrameOk method.isStart s.running ⟨method, .leave false⟩ := by
    constructor
    · exact hrun.symm
    · intro hm _
      have hm : method = .start := hm
      rw [hm]
      rfl
  exact h.moveOn ht Pc.noConfusion Pc.noConfusion Pc.noConfusion rfl rfl hframe h.word

/-- A backend call returns or raises. -/
theorem Inv.returns {s : State τ μ κ} {t : τ} {method : Method μ κ} {rest : List (Frame μ κ)}
    (h : Inv s) (ht : s.callStack t = ⟨method, .inBackend⟩ :: rest) (ok : Bool) :
    Inv ((backendReturns s method ok).setStack t (⟨method, afterBackend method ok⟩ :: rest)) := by
  obtain ⟨hsettled, hflag⟩ := h.owner t _ rest ht (count_ne_zero h ht rfl)
  have hin : afterBackend method ok ≠ .acquire := by
    unfold afterBackend
    split <;> [split; skip] <;> exact Pc.noConfusion
  have hnested : afterBackend method ok ≠ .nested := by
    unfold afterBackend
    split <;> [split; skip] <;> exact Pc.noConfusion
  cases method with
  | start =>
    have hs : s.started = false := hflag rfl
    refine h.moveOn ht Pc.noConfusion hin hnested rfl rfl ?_ ?_
    · cases ok <;> simp [FrameOk, afterBackend, backendReturns, Method.request?, Method.isStart, hs]
    · cases ok <;> simp [backendReturns, run_concat, h.word, ← hsettled, hs, LifecycleEvent.step]
  | stop =>
    have hs : s.started = true := hflag rfl
    refine h.moveOn ht Pc.noConfusion hin hnested rfl rfl ?_ ?_
    · cases ok <;> simp [FrameOk, afterBackend, backendReturns, Method.request?, Method.isStart, hs]
    · cases ok <;> simp [backendReturns, run_concat, h.word, ← hsettled, hs, LifecycleEvent.step]
  | _ =>
    refine h.moveOn ht Pc.noConfusion hin hnested rfl rfl ?_ h.word
    cases ok <;> simpa [FrameOk, afterBackend, backendReturns, Method.request?] using hsettled

/-- A thread calls a method of the transport. -/
theorem Inv.call {s : State τ μ κ} {t : τ} (h : Inv s) (method : Method μ κ)
    (hmay : mayCall (s.callStack t) = true) :
    Inv (s.setStack t (⟨method, .acquire⟩ :: s.callStack t)) := by
  have hcount : (⟨method, .acquire⟩ :: s.callStack t).countP Frame.holds =
      (s.callStack t).countP Frame.holds := List.countP_cons_of_neg (by simp [Frame.holds])
  cases ht : s.callStack t with
  | nil =>
    rw [ht] at hcount
    refine h.ofStack rfl rfl (fun _ ↦ ⟨rfl, rfl⟩) (by rw [ht]; exact hcount)
      ⟨Pc.noConfusion, .singleton _⟩ (fun hc ↦ ?_) h.word
    rw [h.count t, ht] at hc
    exact absurd rfl hc
  | cons g rest =>
    rw [ht] at hmay hcount
    simp only [mayCall, Bool.and_eq_true, beq_iff_eq] at hmay
    obtain ⟨huse, hpc⟩ := hmay
    have hcalls := h.stack t
    rw [ht] at hcalls
    refine h.ofStack rfl rfl (fun _ ↦ ⟨rfl, rfl⟩) (by rw [ht]; exact hcount)
      ⟨Pc.noConfusion, List.isChain_cons_cons.mpr ⟨⟨huse, Or.inr hpc⟩, hcalls.2⟩⟩ ?_ h.word
    rintro hc f calls hf
    cases hf
    have hframe := h.owner t g rest ht hc
    simp only [FrameOk, hpc] at hframe
    exact hframe.1

/-- Every step keeps the invariant. -/
theorem inv_step (s : State τ μ κ) (a : Action τ μ κ) (s' : State τ μ κ) (h : Inv s)
    (hs : step s a = some s') : Inv s' := by
  cases a with
  | call t method =>
    simp only [step] at hs
    split at hs
    · next hmay =>
      cases hs
      exact h.call method hmay
    · contradiction
  | advance t =>
    simp only [step] at hs
    split at hs
    · contradiction
    · next f rest ht =>
      obtain ⟨method, pc⟩ := f
      cases pc with
      | acquire =>
        obtain ⟨lock, hlock, rfl⟩ := Option.map_eq_some_iff.mp hs
        exact h.acquire ht hlock
      | test =>
        cases hs
        exact h.test ht
      | invoke =>
        cases hs
        exact h.invoke ht
      | assign =>
        cases hs
        exact h.assign ht
      | leave raised =>
        obtain ⟨lock, hlock, rfl⟩ := Option.map_eq_some_iff.mp hs
        exact h.release ht hlock
      | nested => contradiction
      | inBackend => contradiction
  | returns t ok =>
    simp only [step] at hs
    split at hs
    · next method rest ht =>
      cases hs
      exact h.returns ht ok
    · contradiction

private theorem Inv.serialised {s : State τ μ κ} (h : Inv s) : Serialised s where
  word := h.word
  alternate := LifecycleEvent.switches_alternate h.word
  use := by
    intro before request after heq
    have hword := h.word
    rw [heq] at hword
    exact LifecycleEvent.running_at_use hword
  free := h.free

/-- `DDSTransport` serialises its backend in every state of every run: any number of
threads, any calls, re-entrant or not, and any backend calls that raise. -/
theorem ddsTransport_serialised (actions : List (Action τ μ κ)) :
    AllStates step Serialised ({} : State τ μ κ) actions :=
  fun prior _ _ hs ↦ Inv.serialised (Reachable.invariant inv_init inv_step ⟨prior, hs⟩)

/-- A broadcast on a stopped transport starts the backend under the lock it already holds. -/
example : (run step ({} : State Bool ℕ ℕ) ([.call true (.broadcast 7)] ++
    List.replicate 5 (.advance true) ++ [.returns true true] ++
    List.replicate 3 (.advance true) ++ [.returns true true, .advance true])).map
      (fun s ↦ (s.log, s.startLock, s.started)) =
    some ([.start, .use (.publish 7)], .free, true) := by
  decide

end HzjDds.Transport.DDSTransport
