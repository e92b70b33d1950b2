import HzjDds.Transport.PubSubTransport

/-!
# Lazy start of the ROS transport

Library `Transport`. Source: `core/transport.py:186–218`, `rospubsub.py:118–132,169–240`. Any
number of calls of `broadcast` and `subscribe` run on one fresh transport that nobody stops;
a step is one statement of one call, also inside the backend's `start`. The backend is a
`DimosROS`, which hands every call on to its `RawROS`.
-/

namespace HzjDds.Transport.ROSTransport

open HzjDds.Transition

universe u v w

/-- A `RawROS` that is never stopped: how many nodes and spin threads its `start` has made,
and how often `start` was called and has returned. -/
structure Backend where
  nodes : ℕ := 0
  spinThreads : ℕ := 0
  startCalls : ℕ := 0
  startReturns : ℕ := 0
  deriving DecidableEq, Repr

/-- Next statement of a call. A created backend is known to its caller alone until it is
stored; `makeNode` and `spawnSpin` are statements of `RawROS.start` on the named backend. -/
inductive Pc where
  | testRos
  | testInStart
  | create
  | store (backend : ℕ)
  | startRos
  | makeNode (backend : ℕ)
  | spawnSpin (backend : ℕ)
  | assertRos
  | use
  deriving DecidableEq, Repr

/-- How a use of the transport ends: `RawROS.publish` drops a message when it has no node,
`RawROS.subscribe` raises. -/
inductive Outcome where
  | done
  | dropped
  | raised
  deriving DecidableEq, Repr

/-- A use of a backend: whether the backend's `start` had returned, and how the use ended. -/
structure Use (μ : Type v) (κ : Type w) where
  request : Request μ κ
  backend : ℕ
  afterStart : Bool
  outcome : Outcome
  deriving DecidableEq, Repr

/-- The field `_ros`, all backends made so far, the callers and their uses. -/
structure State (τ : Type u) (μ : Type v) (κ : Type w) where
  ros : Option ℕ := none
  created : ℕ := 0
  backends : ℕ → Backend := fun _ ↦ {}
  calls : τ → Option (Request μ κ × Pc) := fun _ ↦ none
  uses : List (Use μ κ) := []

/-- A caller enters `broadcast` or `subscribe`, or executes its next statement. -/
inductive Action (τ : Type u) (μ : Type v) (κ : Type w) where
  | call (c : τ) (request : Request μ κ)
  | advance (c : τ)
  deriving DecidableEq, Repr

variable {τ : Type u} {μ : Type v} {κ : Type w}

/-- `RawROS.publish` and `RawROS.subscribe` test the node before they use it. -/
def rawUse (request : Request μ κ) (node : Bool) : Outcome :=
  match request with
  | .publish _ => if node then .done else .dropped
  | .subscribe _ => if node then .done else .raised

variable [DecidableEq τ]

/-- Move one caller. -/
def State.goto (s : State τ μ κ) (c : τ) (call : Option (Request μ κ × Pc)) : State τ μ κ :=
  { s with calls := Function.update s.calls c call }

/-- Change one backend. -/
def State.modifyBackend (s : State τ μ κ) (b : ℕ) (f : Backend → Backend) : State τ μ κ :=
  { s with backends := Function.update s.backends b (f (s.backends b)) }

/-- A use of a backend takes place. -/
def State.record (s : State τ μ κ) (request : Request μ κ) (b : ℕ) : State τ μ κ :=
  { s with
    uses := s.uses ++ [{
      request := request
      backend := b
      afterStart := decide (0 < (s.backends b).startReturns)
      outcome := rawUse request (decide (0 < (s.backends b).nodes)) }] }

/-- Next statement of a call of `broadcast` or `subscribe`. An attribute of a missing backend
raises and ends the call, as the assertion does. -/
def advance (s : State τ μ κ) (c : τ) (request : Request μ κ) : Pc → State τ μ κ
  | .testRos => s.goto c (some (request, if s.ros.isNone then .testInStart else .use))
  | .testInStart => s.goto c (some (request, if s.ros.isNone then .create else .assertRos))
  | .create => { s with created := s.created + 1 }.goto c (some (request, .store s.created))
  | .store b => { s with ros := some b }.goto c (some (request, .startRos))
  | .startRos =>
    match s.ros with
    | none => s.goto c none
    | some b =>
      let s := s.modifyBackend b fun k ↦ { k with startCalls := k.startCalls + 1 }
      -- `start` returns at once when there is a spin thread
      if 0 < (s.backends b).spinThreads then
        (s.modifyBackend b fun k ↦ { k with startReturns := k.startReturns + 1 }).goto c
          (some (request, .assertRos))
      else s.goto c (some (request, .makeNode b))
  | .makeNode b => (s.modifyBackend b fun k ↦ { k with nodes := k.nodes + 1 }).goto c
      (some (request, .spawnSpin b))
  | .spawnSpin b => (s.modifyBackend b fun k ↦
      { k with spinThreads := k.spinThreads + 1, startReturns := k.startReturns + 1 }).goto c
      (some (request, .assertRos))
  | .assertRos => s.goto c (if s.ros.isNone then none else some (request, .use))
  | .use =>
    match s.ros with
    | none => s.goto c none
    | some b => (s.record request b).goto c none

/-- One step of one caller. -/
def step (s : State τ μ κ) : Action τ μ κ → Option (State τ μ κ)
  | .call c request =>
    if (s.calls c).isNone then some (s.goto c (some (request, .testRos))) else none
  | .advance c => (s.calls c).map fun (request, pc) ↦ advance s c request pc

/-- One backend, started once: exactly one as soon as there is a use. Every use reaches it
after its `start` has returned and does its work, and no node or spin thread exists that
`stop` would not find behind `_ros`. -/
structure StartedOnce (s : State τ μ κ) : Prop where
  created : s.created ≤ 1
  starts : ∀ b, (s.backends b).startCalls ≤ 1
  uses : ∀ use ∈ s.uses, use.afterStart = true ∧ use.outcome = .done ∧ s.created = 1 ∧
    s.ros = some use.backend ∧ (s.backends use.backend).startCalls = 1
  reached : ∀ b, 0 < (s.backends b).nodes ∨ 0 < (s.backends b).spinThreads →
    s.ros = some b ∧ (s.backends b).nodes ≤ 1 ∧ (s.backends b).spinThreads ≤ 1

/-- The statement tests `_ros`. -/
def Pc.Testing : Pc → Prop
  | .testRos => True
  | .testInStart => True
  | _ => False

instance : DecidablePred Pc.Testing
  | .testRos | .testInStart => isTrue trivial
  | .create | .store _ | .startRos | .makeNode _ | .spawnSpin _ | .assertRos | .use => isFalse id

/-- The call has found `_ros` missing inside `start` and has not started a backend yet. -/
def Pc.Opening : Pc → Prop
  | .create => True
  | .store _ => True
  | .startRos => True
  | .makeNode _ => True
  | .spawnSpin _ => True
  | _ => False

instance : DecidablePred Pc.Opening
  | .create | .store _ | .startRos | .makeNode _ | .spawnSpin _ => isTrue trivial
  | .testRos | .testInStart | .assertRos | .use => isFalse id

/-- No call tests `_ros` while another one is making and starting a backend. -/
def Undisturbed (s : State τ μ κ) : Action τ μ κ → Prop
  | .call _ _ => True
  | .advance c => ∀ request pc, s.calls c = some (request, pc) → pc.Testing →
      ∀ d other place, s.calls d = some (other, place) → ¬ place.Opening

instance [Fintype τ] (s : State τ μ κ) : ∀ a, Decidable (Undisturbed s a)
  | .call _ _ => isTrue trivial
  | .advance c => decidable_of_iff (∀ call ∈ s.calls c, call.2.Testing →
      ∀ d, ∀ other ∈ s.calls d, ¬ other.2.Opening) (by simp [Undisturbed])

/-- The field, the number of backends, and what the first backend has seen. -/
structure Shows (s : State τ μ κ) (ros : Option ℕ) (created : ℕ) (first : Backend) : Prop where
  ros : s.ros = ros
  created : s.created = created
  backends : s.backends = Function.update (fun _ ↦ {}) 0 first

/-- The transport while a call is at a statement on the way to the first started backend. -/
inductive OnTheWay (s : State τ μ κ) : Pc → Prop where
  | create : Shows s none 0 {} → OnTheWay s .create
  | store : Shows s none 1 {} → OnTheWay s (.store 0)
  | startRos : Shows s (some 0) 1 {} → OnTheWay s .startRos
  | makeNode : Shows s (some 0) 1 { startCalls := 1 } → OnTheWay s (.makeNode 0)
  | spawnSpin : Shows s (some 0) 1 { nodes := 1, startCalls := 1 } → OnTheWay s (.spawnSpin 0)

/-- The states of an undisturbed run: no backend, one call on the way to the first one while
all others wait at a test, or one started backend. -/
inductive Inv (s : State τ μ κ) : Prop where
  | fresh (hshows : Shows s none 0 {}) (hcalls : Placed s.calls fun _ pc ↦ pc.Testing)
      (huses : s.uses = [])
  | opening (c : τ) (request : Request μ κ) (pc : Pc) (hc : s.calls c = some (request, pc))
      (hway : OnTheWay s pc) (hcalls : Placed s.calls fun d pc ↦ d ≠ c → pc.Testing)
      (huses : s.uses = [])
  | opened (hshows : Shows s (some 0) 1 ⟨1, 1, 1, 1⟩)
      (hcalls : Placed s.calls fun _ pc ↦ ¬ pc.Opening)
      (huses : ∀ use ∈ s.uses, use.afterStart = true ∧ use.outcome = .done ∧ use.backend = 0)

omit [DecidableEq τ] in
/-- Nobody has called yet. -/
theorem inv_init : Inv ({} : State τ μ κ) :=
  .fresh ⟨rfl, rfl, (Function.update_eq_self ..).symm⟩ (placed_none _) rfl

omit [DecidableEq τ] in
/-- Only field, count and backends show. -/
theorem OnTheWay.congr {s t : State τ μ κ} {pc : Pc} (h : OnTheWay s pc) (hros : t.ros = s.ros)
    (hcreated : t.created = s.created) (hbackends : t.backends = s.backends) :
    OnTheWay t pc := by
  have hshows : ∀ {ros created first}, Shows s ros created first → Shows t ros created first :=
    fun h ↦ ⟨hros.trans h.ros, hcreated.trans h.created, hbackends.trans h.backends⟩
  cases h with
  | create h => exact .create (hshows h)
  | store h => exact .store (hshows h)
  | startRos h => exact .startRos (hshows h)
  | makeNode h => exact .makeNode (hshows h)
  | spawnSpin h => exact .spawnSpin (hshows h)

omit [DecidableEq τ] in
/-- A call on the way is opening the transport. -/
theorem OnTheWay.opening {s : State τ μ κ} {pc : Pc} (h : OnTheWay s pc) : pc.Opening := by
  cases h <;> trivial

omit [DecidableEq τ] in
private theorem Shows.modifyBackend {s : State τ μ κ} {ros : Option ℕ} {created : ℕ} {first : Backend}
    (h : Shows s ros created first) (f : Backend → Backend) :
    Shows (s.modifyBackend 0 f) ros created (f first) := by
  constructor
  case ros => exact h.ros
  case created => exact h.created
  case backends =>
    simp only [State.modifyBackend, h.backends, Function.update_self, Function.update_idem]

/-- Moving a caller does not show. -/
theorem Shows.goto {s : State τ μ κ} {ros : Option ℕ} {created : ℕ} {first : Backend}
    (h : Shows s ros created first) (c : τ) (call : Option (Request μ κ × Pc)) :
    Shows (s.goto c call) ros created first :=
  ⟨h.ros, h.created, h.backends⟩

/-- A caller enters at the first test. -/
theorem Inv.call {s : State τ μ κ} {c : τ} (h : Inv s) (request : Request μ κ)
    (hc : s.calls c = none) : Inv (s.goto c (some (request, .testRos))) := by
  cases h with
  | fresh hshows hcalls huses =>
    exact .fresh (hshows.goto c _) (hcalls.move trivial) huses
  | opening o r pc ho hway hcalls huses =>
    exact .opening o r pc (calls_of_ne hc ho) (hway.congr rfl rfl rfl)
      (hcalls.move fun _ ↦ trivial) huses
  | opened hshows hcalls huses =>
    exact .opened (hshows.goto c _) (hcalls.move fun h ↦ h) huses

/-- The statement after the one of the call on the way to the first backend. -/
theorem Inv.open {s : State τ μ κ} {c : τ} {request : Request μ κ} {pc : Pc}
    (hway : OnTheWay s pc) (hcalls : Placed s.calls fun d pc ↦ d ≠ c → pc.Testing)
    (huses : s.uses = []) : Inv (advance s c request pc) := by
  cases hway with
  | create h =>
    have hadvance : ROSTransport.advance s c request .create =
        { s with created := 1 }.goto c (some (request, .store 0)) := by
      simp [ROSTransport.advance, h.created]
    rw [hadvance]
    exact .opening c request (.store 0) (Function.update_self ..)
      (.store ⟨h.ros, rfl, h.backends⟩) (hcalls.move fun h ↦ absurd rfl h) huses
  | store h =>
    exact .opening c request .startRos (Function.update_self ..)
      (.startRos ⟨rfl, h.created, h.backends⟩) (hcalls.move fun h ↦ absurd rfl h) huses
  | startRos h =>
    have hstart := h.modifyBackend fun k ↦ { k with startCalls := k.startCalls + 1 }
    have hadvance : ROSTransport.advance s c request .startRos =
        (s.modifyBackend 0 fun k ↦ { k with startCalls := k.startCalls + 1 }).goto c
          (some (request, .makeNode 0)) := by
      simp [ROSTransport.advance, h.ros, hstart.backends]
    rw [hadvance]
    exact .opening c request (.makeNode 0) (Function.update_self ..)
      (.makeNode (hstart.goto c _)) (hcalls.move fun h ↦ absurd rfl h) huses
  | makeNode h =>
    exact .opening c request (.spawnSpin 0) (Function.update_self ..)
      (.spawnSpin ((h.modifyBackend _).goto c _)) (hcalls.move fun h ↦ absurd rfl h) huses
  | spawnSpin h =>
    have hclosed : Placed s.calls fun d pc ↦ d ≠ c → ¬ pc.Opening :=
      hcalls.mono fun _ pc h hdc ↦ by cases pc <;> first | exact fun h ↦ h | exact (h hdc).elim
    exact .opened ((h.modifyBackend _).goto c _) (hclosed.settle request fun h ↦ h)
      (by simp [State.goto, advance, State.modifyBackend, huses])

/-- A statement of a caller once the backend is started. -/
theorem Inv.serve {s : State τ μ κ} {c : τ} {request : Request μ κ} {pc : Pc}
    (hshows : Shows s (some 0) 1 ⟨1, 1, 1, 1⟩) (hcalls : Placed s.calls fun _ pc ↦ ¬ pc.Opening)
    (huses : ∀ use ∈ s.uses, use.afterStart = true ∧ use.outcome = .done ∧ use.backend = 0)
    (hpc : ¬ pc.Opening) : Inv (advance s c request pc) := by
  cases pc with
  | testRos =>
    simp only [ROSTransport.advance, hshows.ros]
    exact .opened (hshows.goto c _) (hcalls.move fun h ↦ h) huses
  | testInStart =>
    simp only [ROSTransport.advance, hshows.ros]
    exact .opened (hshows.goto c _) (hcalls.move fun h ↦ h) huses
  | assertRos =>
    simp only [ROSTransport.advance, hshows.ros]
    exact .opened (hshows.goto c _) (hcalls.move fun h ↦ h) huses
  | use =>
    simp only [ROSTransport.advance, hshows.ros]
    refine .opened ⟨hshows.ros, hshows.created, hshows.backends⟩ (hcalls.leave c) ?_
    intro use huse
    rcases List.mem_append.mp huse with hold | hnew
    · exact huses use hold
    · obtain rfl := List.mem_singleton.mp hnew
      cases request <;> simp [hshows.backends, rawUse]
  | create => exact absurd trivial hpc
  | store b => exact absurd trivial hpc
  | startRos => exact absurd trivial hpc
  | makeNode b => exact absurd trivial hpc
  | spawnSpin b => exact absurd trivial hpc

/-- An undisturbed statement of one caller. -/
theorem Inv.advance {s : State τ μ κ} {c : τ} {request : Request μ κ} {pc : Pc} (h : Inv s)
    (hok : Undisturbed s (.advance c)) (hc : s.calls c = some (request, pc)) :
    Inv (advance s c request pc) := by
  cases h with
  | fresh hshows hcalls huses =>
    have htest : pc.Testing := hcalls c request pc hc
    cases pc with
    | testRos =>
      simp only [ROSTransport.advance, hshows.ros]
      exact .fresh (hshows.goto c _) (hcalls.move trivial) huses
    | testInStart =>
      have hothers : Placed s.calls fun d pc ↦ d ≠ c → pc.Testing := hcalls.mono fun _ _ h _ ↦ h
      simp only [ROSTransport.advance, hshows.ros]
      exact .opening c request .create (Function.update_self ..) (.create (hshows.goto c _))
        (hothers.move fun h ↦ absurd rfl h) huses
    | _ => exact htest.elim
  | opening o r opc ho hway hcalls huses =>
    by_cases hco : c = o
    · subst hco
      cases hc.symm.trans ho
      exact Inv.open hway hcalls huses
    · -- the caller is at a test, which the condition forbids while `o` is opening
      exact absurd hway.opening (hok request pc hc (hcalls c request pc hc hco) o r opc ho)
  | opened hshows hcalls huses => exact Inv.serve hshows hcalls huses (hcalls c request pc hc)

/-- Every undisturbed step keeps the invariant. -/
theorem inv_step (s : State τ μ κ) (a : Action τ μ κ) (s' : State τ μ κ) (h : Inv s)
    (hok : Undisturbed s a) (hs : step s a = some s') : Inv s' := by
  cases a with
  | call c request =>
    simp only [step] at hs
    split at hs
    · next hnone =>
      cases hs
      exact h.call request (Option.isNone_iff_eq_none.mp hnone)
    · contradiction
  | advance c =>
    obtain ⟨⟨request, pc⟩, hc, rfl⟩ := Option.map_eq_some_iff.mp hs
    exact h.advance hok hc

omit [DecidableEq τ] in
/-- With one backend at most, which was started at most once and stands behind the field
once it has a node, the transport is in order as far as its uses are. -/
theorem Shows.startedOnce {s : State τ μ κ} {ros : Option ℕ} {created : ℕ} {first : Backend}
    (h : Shows s ros created first) (hcreated : created ≤ 1) (hstart : first.startCalls ≤ 1)
    (hnode : 0 < first.nodes ∨ 0 < first.spinThreads →
      ros = some 0 ∧ first.nodes ≤ 1 ∧ first.spinThreads ≤ 1)
    (huses : ∀ use ∈ s.uses, use.afterStart = true ∧ use.outcome = .done ∧ s.created = 1 ∧
      s.ros = some use.backend ∧ (s.backends use.backend).startCalls = 1) : StartedOnce s := by
  constructor
  case created =>
    rw [h.created]
    exact hcreated
  case starts =>
    intro b
    rw [h.backends]
    by_cases hb : b = 0
    · rwa [hb, Function.update_self]
    · rw [Function.update_of_ne hb]
      exact Nat.zero_le 1
  case uses => exact huses
  case reached =>
    intro b hb
    rw [h.backends] at hb ⊢
    rw [h.ros]
    by_cases hzero : b = 0
    · subst hzero
      rw [Function.update_self] at hb ⊢
      exact hnode hb
    · rw [Function.update_of_ne hzero] at hb
      simp at hb

omit [DecidableEq τ] in
/-- The invariant makes and starts one backend, before its uses. -/
theorem Inv.startedOnce {s : State τ μ κ} (h : Inv s) : StartedOnce s := by
  cases h with
  | fresh hshows hcalls huses =>
    exact hshows.startedOnce (by simp) (by simp) (by simp) (by simp [huses])
  | opening c request pc hc hway hcalls huses =>
    cases hway with
    | create hshows => exact hshows.startedOnce (by simp) (by simp) (by simp) (by simp [huses])
    | store hshows => exact hshows.startedOnce (by simp) (by simp) (by simp) (by simp [huses])
    | startRos hshows => exact hshows.startedOnce (by simp) (by simp) (by simp) (by simp [huses])
    | makeNode hshows => exact hshows.startedOnce (by simp) (by simp) (by simp) (by simp [huses])
    | spawnSpin hshows => exact hshows.startedOnce (by simp) (by simp) (by simp) (by simp [huses])
  | opened hshows hcalls huses =>
    apply hshows.startedOnce (by simp) (by simp) (by simp)
    intro use huse
    obtain ⟨hafter, hdone, hzero⟩ := huses use huse
    have hros : s.ros = some use.backend := by rw [hshows.ros, hzero]
    have hstarts : (s.backends use.backend).startCalls = 1 := by
      rw [hshows.backends, hzero, Function.update_self]
    exact ⟨hafter, hdone, hshows.created, hros, hstarts⟩

/-- Both transports that start lazily make and start one backend, before every use of it, in
every run in which no call tests its guard while another one is starting the backend. -/
theorem lazyStart_of_undisturbed {actions : List (Action τ μ κ)}
    {baseActions : List (PubSubTransport.Action τ μ κ)}
    (hok : AllSteps step Undisturbed ({} : State τ μ κ) actions)
    (hbase : AllSteps PubSubTransport.step PubSubTransport.Undisturbed
      ({} : PubSubTransport.State τ μ κ) baseActions) :
    AllStates step StartedOnce {} actions ∧
      AllStates PubSubTransport.step PubSubTransport.StartedOnce {} baseActions :=
  ⟨hok.allStates inv_init inv_step fun _ h ↦ h.startedOnce,
    PubSubTransport.startedOnce_of_undisturbed hbase⟩

/-- Two calls on a fresh ROS transport: a broadcast opens it while a subscription waits at its test;
the subscription uses the backend first. -/
def waitingRun : List (Action Bool ℕ ℕ) :=
  [.call true (.publish 7), .call false (.subscribe 3)] ++ List.replicate 7 (.advance true) ++
    List.replicate 2 (.advance false) ++ List.replicate 2 (.advance true)

/-- The same two calls on a fresh base transport. -/
def baseWaitingRun : List (PubSubTransport.Action Bool ℕ ℕ) :=
  [.call true (.publish 7), .call false (.subscribe 3)] ++ List.replicate 4 (.advance true) ++
    List.replicate 2 (.advance false) ++ [.advance true]

/-- `lazyStart_of_undisturbed` where the second call tests when the first has opened the
transport. -/
theorem lazyStart_of_undisturbed_waitingRun :
    (AllStates step StartedOnce {} waitingRun ∧
        AllStates PubSubTransport.step PubSubTransport.StartedOnce {} baseWaitingRun) ∧
      (∃ s, run step {} waitingRun = some s ∧ s.created = 1 ∧
        s.uses = [⟨.subscribe 3, 0, true, .done⟩, ⟨.publish 7, 0, true, .done⟩]) ∧
      ∃ s, run PubSubTransport.step {} baseWaitingRun = some s ∧ s.startCalls = 1 ∧
        s.uses = [(.subscribe 3, true), (.publish 7, true)] :=
  ⟨lazyStart_of_undisturbed (by decide) (by decide), ⟨_, rfl, rfl, rfl⟩, _, rfl, rfl, rfl⟩

/-- Neither transport starts lazily in the right order under concurrent first calls. A ROS
backend is visible before it is started, so a second call's `subscribe` raises; two calls
that pass the base class's test both start the backend. -/
theorem lazyStart_races :
    (¬ ∀ actions, AllStates step StartedOnce ({} : State Bool ℕ ℕ) actions) ∧
      ¬ ∀ actions, AllStates PubSubTransport.step PubSubTransport.StartedOnce
        ({} : PubSubTransport.State Bool ℕ ℕ) actions := by
  constructor
  · intro h
    have hbad := h [.call true (.publish 7), .advance true, .advance true, .advance true,
      .advance true, .call false (.subscribe 3), .advance false, .advance false] _ _
      (List.prefix_refl _) rfl
    exact absurd (hbad.uses _ (List.mem_singleton.mpr rfl)).2.1 (by decide)
  · intro h
    have hbad := h [.call true (.publish 7), .call false (.publish 8), .advance true,
      .advance false, .advance true, .advance false] _ _ (List.prefix_refl _) rfl
    exact absurd hbad.1 (by decide)

end HzjDds.Transport.ROSTransport
