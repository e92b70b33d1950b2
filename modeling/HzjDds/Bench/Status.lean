import HzjDds.Env.Runner

/-!
# Status of a benchmark run

Library `Bench`. Source: `scripts/bench/pingpong.py:1115–1269`, `main` from its case loop on. A case
comes to a number of recorded samples, or it raises; the run goes on with the next one. The payload
names the domain, and what is in `ROS_DOMAIN_ID` need not be a number.
-/

namespace HzjDds.Bench

open HzjDds.Env HzjDds.Shell

/-- What a case comes to: its samples and its timeouts, or an exception with the name of its type and
its text. -/
inductive CaseOutcome where
  | measured (recorded timeouts : ℕ)
  | raised (type text : String)
  deriving DecidableEq, Repr

/-- The case recorded at least one sample. -/
def CaseOutcome.Recorded : CaseOutcome → Prop
  | .measured recorded _ => 0 < recorded
  | .raised _ _ => False

/-- The case raised. -/
def CaseOutcome.Raised : CaseOutcome → Prop
  | .measured _ _ => False
  | .raised _ _ => True

/-- Arguments of a client that plays a grid. -/
structure GridArgs where
  chain : Env.Chain
  topology : Env.Topology := .sameProcess
  qos_list : List String
  sizes : List ℤ
  domain_id : ℤ := 0
  dimos_root : String := ""
  remote_peer : String := ""
  deriving DecidableEq, Repr

/-- An entry of `cases`. -/
structure CaseRecord where
  name : String
  msg_size_bytes : ℤ
  qos : String
  recorded_samples : Option ℕ := none
  timeouts : Option ℕ := none
  transport_label : Option String := none
  error : Option String := none
  deriving DecidableEq, Repr

/-- The variables of the case loop. -/
structure Tally where
  cases : List CaseRecord := []
  errors : List String := []
  deriving DecidableEq, Repr

/-- What `main` writes, as far as the case loop and the domain decide it. -/
structure Payload where
  status : Status
  chain : Env.Chain
  topology : Env.Topology
  domain_id : ℤ
  payload_sizes_bytes : List ℤ
  errors : List String
  cases : List CaseRecord
  deriving DecidableEq, Repr

/-- `name` of a case. -/
def caseName (chain : Env.Chain) (qos_kind : String) : String :=
  match chain with
  | .a => "ros_" ++ qos_kind
  | .b => "dds_" ++ qos_kind

namespace GridArgs

/-- `transport_label` of a case; `pingpong.py:404–406,991–994,1192–1196,1212–1215`. -/
def transportLabel (args : GridArgs) : Option String :=
  match args.chain, args.topology with
  | _, .sameProcess => none
  | .a, .sameHost => some ("same-host two processes; Fast-DDS default transports " ++
      "(fastdds.xml does not force UDP-only or SHM-only; do not invent SHM)")
  | .b, .sameHost => some "same-host two processes; no RouDi ⇒ localhost UDP, not SHM"
  | .a, .crossHostUDP => some ("cross-host-UDP two machines; Fast-DDS builtin UDP (remote_peer=" ++
      args.remote_peer ++ "; fastdds.xml unchanged; do not invent SHM)")
  | .b, .crossHostUDP => some ("cross-host-UDP two machines; Cyclone UDP domain 0 (remote_peer=" ++
      args.remote_peer ++ ")")

/-- A same-host case of Chain B is not played without a root. -/
def outcome (args : GridArgs) (outcome : CaseOutcome) : CaseOutcome :=
  if args.chain = .b ∧ args.topology = .sameHost ∧ args.dimos_root = "" then
    .raised "RuntimeError" "same-host Chain B requires --dimos-root"
  else outcome

end GridArgs

/-- One case of the loop; the n-th case comes to the n-th outcome. -/
def Tally.play (args : GridArgs) (outcomes : ℕ → CaseOutcome) (t : Tally) (qos_kind : String)
    (size : ℤ) : Tally :=
  match args.outcome (outcomes t.cases.length) with
  | .measured recorded timeouts => { t with
      cases := t.cases ++ [{
        name := caseName args.chain qos_kind
        msg_size_bytes := size
        qos := qos_kind
        recorded_samples := some recorded
        timeouts := some timeouts
        transport_label := args.transportLabel }] }
  | .raised type text => {
      errors := t.errors ++ [qos_kind ++ "/" ++ toString size ++ "B: " ++ type ++ ": " ++ text]
      cases := t.cases ++ [{
        name := caseName args.chain qos_kind
        msg_size_bytes := size
        qos := qos_kind
        error := some (type ++ ": " ++ text) }] }

/-- The case loop. -/
def GridArgs.playGrid (args : GridArgs) (outcomes : ℕ → CaseOutcome) : Tally :=
  args.qos_list.foldl
    (fun t qos_kind ↦ args.sizes.foldl (fun t size ↦ t.play args outcomes qos_kind size) t) {}

/-- `ok_cases`. -/
def Tally.okCases (t : Tally) : List CaseRecord :=
  t.cases.filter fun c ↦ c.error.isNone && decide (0 < c.recorded_samples.getD 0)

/-- `status`. -/
def Tally.status (t : Tally) : Status :=
  if t.okCases ≠ [] ∧ t.errors = [] then .ok else if t.okCases ≠ [] then .partly else .blocked

/-- `domain_id` of the payload (`pingpong.py:1238`); `none` if `int` raises. -/
def GridArgs.domainId (args : GridArgs) (env : Environ) : Option ℤ :=
  match args.chain with
  | .a => rosDomainId env
  | .b => some args.domain_id

/-- `payload`. -/
def Tally.payload (t : Tally) (args : GridArgs) (domain_id : ℤ) : Payload where
  status := t.status
  chain := args.chain
  topology := args.topology
  domain_id := domain_id
  payload_sizes_bytes := args.sizes
  errors := t.errors
  cases := t.cases

/-- What `main` returns once the payload is written. -/
def Tally.exitCode (t : Tally) : ℕ := if t.status = .ok ∨ t.status = .partly then 0 else 1

/-- `main` from the case loop on: what it writes, if anything, and its exit code. What `int` raises
ends the process before the payload is written. -/
def GridArgs.main (args : GridArgs) (env : Environ) (outcomes : ℕ → CaseOutcome) :
    Option Payload × ℕ :=
  let t := args.playGrid outcomes
  match args.domainId env with
  | none => (none, 1)
  | some domain_id => (some (t.payload args domain_id), t.exitCode)

/-! ## What the payload should say -/

/-- The pairs of the grid, in the order in which they are played. -/
def GridArgs.grid (args : GridArgs) : List (String × ℤ) :=
  args.qos_list.flatMap fun qos_kind ↦ args.sizes.map fun size ↦ (qos_kind, size)

/-- The pairs of the grid with their outcomes. -/
def GridArgs.played (args : GridArgs) (outcomes : ℕ → CaseOutcome) :
    List ((String × ℤ) × CaseOutcome) :=
  args.grid.zipIdx.map fun (pair, n) ↦ (pair, args.outcome (outcomes n))

/-- The error of a case that raised. -/
def errorOf : (String × ℤ) × CaseOutcome → Option String
  | (_, .measured _ _) => none
  | ((qos_kind, size), .raised type text) =>
    some (qos_kind ++ "/" ++ toString size ++ "B: " ++ type ++ ": " ++ text)

/-- A payload and an exit code say what the cases have come to. -/
structure Tells (args : GridArgs) (outcomes : ℕ → CaseOutcome) (payload : Payload) (code : ℕ) :
    Prop where
  cases : payload.cases.map (fun c ↦ (c.qos, c.msg_size_bytes)) = args.grid
  errors : payload.errors = (args.played outcomes).filterMap errorOf
  ok : payload.status = .ok ↔
    args.played outcomes ≠ [] ∧ ∀ case ∈ args.played outcomes, case.2.Recorded
  blocked : payload.status = .blocked ↔ ∀ case ∈ args.played outcomes, ¬ case.2.Recorded
  partly : payload.status = .partly ↔
    (∃ case ∈ args.played outcomes, case.2.Recorded) ∧
      ∃ case ∈ args.played outcomes, ¬ case.2.Recorded
  exit : code = 0 ↔ ∃ case ∈ args.played outcomes, case.2.Recorded

/-- A payload is written, and it and the exit code say what the cases have come to. -/
def Reported (args : GridArgs) (env : Environ) (outcomes : ℕ → CaseOutcome) : Prop :=
  ∃ payload, (args.main env outcomes).1 = some payload ∧
    Tells args outcomes payload (args.main env outcomes).2

/-- A run in which a case has recorded samples and none has raised has no case without samples. -/
def NoEmptyCase (args : GridArgs) (outcomes : ℕ → CaseOutcome) : Prop :=
  (∃ case ∈ args.played outcomes, case.2.Recorded) →
    (∀ case ∈ args.played outcomes, ¬ case.2.Raised) →
    ∀ case ∈ args.played outcomes, ∀ timeouts, case.2 ≠ .measured 0 timeouts

private theorem recorded_iff (outcome : CaseOutcome) :
    outcome.Recorded ↔ ¬ outcome.Raised ∧ ∀ timeouts, outcome ≠ .measured 0 timeouts := by
  cases outcome with
  | measured recorded timeouts =>
    simp [CaseOutcome.Recorded, CaseOutcome.Raised, Nat.pos_iff_ne_zero]
  | raised type text => simp [CaseOutcome.Recorded, CaseOutcome.Raised]

/-! ## The case loop -/

variable {args : GridArgs} {outcomes : ℕ → CaseOutcome} {domain_id : ℤ}

/-- The record of a case. -/
def recordOf (args : GridArgs) : (String × ℤ) × CaseOutcome → CaseRecord
  | ((qos_kind, size), .measured recorded timeouts) => {
      name := caseName args.chain qos_kind
      msg_size_bytes := size
      qos := qos_kind
      recorded_samples := some recorded
      timeouts := some timeouts
      transport_label := args.transportLabel }
  | ((qos_kind, size), .raised type text) => {
      name := caseName args.chain qos_kind
      msg_size_bytes := size
      qos := qos_kind
      error := some (type ++ ": " ++ text) }

private theorem play_eq (t : Tally) (qos_kind : String) (size : ℤ) :
    let case := ((qos_kind, size), args.outcome (outcomes t.cases.length))
    t.play args outcomes qos_kind size =
      ⟨t.cases ++ [recordOf args case], t.errors ++ (errorOf case).toList⟩ := by
  unfold Tally.play
  cases args.outcome (outcomes t.cases.length) with
  | measured recorded timeouts => simp [recordOf, errorOf]
  | raised type text => rfl

/-- Pairs with their outcomes, the first being the n-th case. -/
def playedFrom (args : GridArgs) (outcomes : ℕ → CaseOutcome) (n : ℕ) (pairs : List (String × ℤ)) :
    List ((String × ℤ) × CaseOutcome) :=
  (pairs.zipIdx n).map fun (pair, n) ↦ (pair, args.outcome (outcomes n))

private theorem foldl_play (pairs : List (String × ℤ)) (t : Tally) :
    let played := playedFrom args outcomes t.cases.length pairs
    pairs.foldl (fun t pair ↦ t.play args outcomes pair.1 pair.2) t =
      ⟨t.cases ++ played.map (recordOf args), t.errors ++ played.filterMap errorOf⟩ := by
  induction pairs generalizing t with
  | nil => simp [playedFrom]
  | cons pair rest ih =>
    obtain ⟨qos_kind, size⟩ := pair
    have hcons : playedFrom args outcomes t.cases.length ((qos_kind, size) :: rest) =
        ((qos_kind, size), args.outcome (outcomes t.cases.length)) ::
          playedFrom args outcomes (t.cases.length + 1) rest := rfl
    rw [List.foldl_cons, play_eq, ih, hcons]
    simp only [List.length_append, List.length_singleton, List.map_cons, List.filterMap_cons]
    cases errorOf ((qos_kind, size), args.outcome (outcomes t.cases.length)) <;> simp

private theorem playGrid_eq (args : GridArgs) (outcomes : ℕ → CaseOutcome) :
    args.playGrid outcomes =
      ⟨(args.played outcomes).map (recordOf args), (args.played outcomes).filterMap errorOf⟩ := by
  have hloop : args.playGrid outcomes =
      args.grid.foldl (fun t pair ↦ t.play args outcomes pair.1 pair.2) {} := by
    simp only [GridArgs.playGrid, GridArgs.grid, List.foldl_flatMap, List.foldl_map]
  rw [hloop, foldl_play]
  simp only [List.nil_append]
  rfl

/-! ## The status -/

private theorem played_pairs (args : GridArgs) (outcomes : ℕ → CaseOutcome) :
    ((args.played outcomes).map (recordOf args)).map (fun c ↦ (c.qos, c.msg_size_bytes)) =
      args.grid := by
  have hpair : ∀ case : (String × ℤ) × CaseOutcome,
      ((recordOf args case).qos, (recordOf args case).msg_size_bytes) = case.1 := by
    rintro ⟨⟨qos_kind, size⟩, outcome⟩
    cases outcome <;> rfl
  rw [List.map_map, GridArgs.played, List.map_map]
  refine Eq.trans (List.map_congr_left fun entry _ ↦ ?_) (List.zipIdx_map_fst 0 args.grid)
  exact hpair _

private theorem recordOf_ok_iff (args : GridArgs) (case : (String × ℤ) × CaseOutcome) :
    ((recordOf args case).error.isNone && decide (0 < (recordOf args case).recorded_samples.getD 0)) =
      true ↔ case.2.Recorded := by
  obtain ⟨⟨qos_kind, size⟩, outcome⟩ := case
  cases outcome with
  | measured recorded timeouts => exact decide_eq_true_iff
  | raised type text => simp [recordOf, CaseOutcome.Recorded]

private theorem okCases_ne_nil_iff (args : GridArgs) (outcomes : ℕ → CaseOutcome) :
    (args.playGrid outcomes).okCases ≠ [] ↔ ∃ case ∈ args.played outcomes, case.2.Recorded := by
  rw [Tally.okCases, playGrid_eq, Ne, List.filter_eq_nil_iff]
  simp only [List.forall_mem_map, recordOf_ok_iff]
  push Not
  rfl

private theorem errors_eq_nil_iff (args : GridArgs) (outcomes : ℕ → CaseOutcome) :
    (args.playGrid outcomes).errors = [] ↔ ∀ case ∈ args.played outcomes, ¬ case.2.Raised := by
  rw [playGrid_eq, List.filterMap_eq_nil_iff]
  refine forall₂_congr fun case _ ↦ ?_
  obtain ⟨⟨qos_kind, size⟩, outcome⟩ := case
  cases outcome <;> simp [errorOf, CaseOutcome.Raised]

private theorem status_ok (hrecorded : ∃ case ∈ args.played outcomes, case.2.Recorded)
    (hraised : ∀ case ∈ args.played outcomes, ¬ case.2.Raised) :
    (args.playGrid outcomes).status = .ok :=
  if_pos ⟨(okCases_ne_nil_iff args outcomes).mpr hrecorded,
    (errors_eq_nil_iff args outcomes).mpr hraised⟩

private theorem status_partly (hrecorded : ∃ case ∈ args.played outcomes, case.2.Recorded)
    (hraised : ¬ ∀ case ∈ args.played outcomes, ¬ case.2.Raised) :
    (args.playGrid outcomes).status = .partly := by
  rw [Tally.status, if_neg fun h ↦ hraised ((errors_eq_nil_iff args outcomes).mp h.2),
    if_pos ((okCases_ne_nil_iff args outcomes).mpr hrecorded)]

private theorem status_blocked (hrecorded : ¬ ∃ case ∈ args.played outcomes, case.2.Recorded) :
    (args.playGrid outcomes).status = .blocked := by
  have hnil : ¬ (args.playGrid outcomes).okCases ≠ [] :=
    hrecorded ∘ (okCases_ne_nil_iff args outcomes).mp
  rw [Tally.status, if_neg fun h ↦ hnil h.1, if_neg hnil]

/-- Records and errors are always right. -/
theorem tells_of_status {status : Status} (hstatus : (args.playGrid outcomes).status = status)
    (hok : status = .ok ↔
      args.played outcomes ≠ [] ∧ ∀ case ∈ args.played outcomes, case.2.Recorded)
    (hblocked : status = .blocked ↔ ∀ case ∈ args.played outcomes, ¬ case.2.Recorded)
    (hpartly : status = .partly ↔ (∃ case ∈ args.played outcomes, case.2.Recorded) ∧
      ∃ case ∈ args.played outcomes, ¬ case.2.Recorded) :
    Tells args outcomes ((args.playGrid outcomes).payload args domain_id)
      (args.playGrid outcomes).exitCode := by
  subst hstatus
  have hloop := playGrid_eq args outcomes
  constructor
  case cases =>
    rw [Tally.payload, hloop]
    exact played_pairs args outcomes
  case errors => rw [Tally.payload, hloop]
  case ok => exact hok
  case blocked => exact hblocked
  case partly => exact hpartly
  case exit =>
    have hcode : (args.playGrid outcomes).exitCode = 0 ↔
        (args.playGrid outcomes).status ≠ .blocked := by
      simp only [Tally.exitCode]
      cases (args.playGrid outcomes).status <;> simp
    rw [hcode, Ne, hblocked]
    push Not
    rfl

/-- A run that is called `ok` is reported rightly exactly when each of its cases recorded samples. -/
theorem tells_ok_iff (hrecorded : ∃ case ∈ args.played outcomes, case.2.Recorded)
    (hraised : ∀ case ∈ args.played outcomes, ¬ case.2.Raised) :
    Tells args outcomes ((args.playGrid outcomes).payload args domain_id)
      (args.playGrid outcomes).exitCode ↔
      ∀ case ∈ args.played outcomes, case.2.Recorded := by
  have hstatus := status_ok hrecorded hraised
  constructor
  · intro h
    exact (h.ok.mp hstatus).2
  · intro hall
    obtain ⟨first, hfirst, hsamples⟩ := hrecorded
    refine tells_of_status hstatus ?_ ?_ ?_
    · exact iff_of_true rfl ⟨List.ne_nil_of_mem hfirst, hall⟩
    · exact iff_of_false Status.noConfusion fun h ↦ h first hfirst hsamples
    · refine iff_of_false Status.noConfusion ?_
      rintro ⟨-, case, hcase, hnot⟩
      exact hnot (hall case hcase)

private theorem tells_partly (hrecorded : ∃ case ∈ args.played outcomes, case.2.Recorded)
    (hraised : ¬ ∀ case ∈ args.played outcomes, ¬ case.2.Raised) :
    Tells args outcomes ((args.playGrid outcomes).payload args domain_id)
      (args.playGrid outcomes).exitCode := by
  have hsome : ¬ ∀ case ∈ args.played outcomes, case.2.Recorded := fun hall ↦
    hraised fun case hcase ↦ ((recorded_iff case.2).mp (hall case hcase)).1
  refine tells_of_status (status_partly hrecorded hraised) ?_ ?_ ?_
  · exact iff_of_false Status.noConfusion fun h ↦ hsome h.2
  · refine iff_of_false Status.noConfusion fun h ↦ ?_
    obtain ⟨first, hfirst, hsamples⟩ := hrecorded
    exact h first hfirst hsamples
  · refine iff_of_true rfl ⟨hrecorded, ?_⟩
    push Not at hsome
    exact hsome

private theorem tells_blocked (hrecorded : ¬ ∃ case ∈ args.played outcomes, case.2.Recorded) :
    Tells args outcomes ((args.playGrid outcomes).payload args domain_id)
      (args.playGrid outcomes).exitCode := by
  refine tells_of_status (status_blocked hrecorded) ?_ ?_ ?_
  · refine iff_of_false Status.noConfusion ?_
    rintro ⟨hne, hall⟩
    obtain ⟨case, hcase⟩ := List.exists_mem_of_ne_nil _ hne
    exact hrecorded ⟨case, hcase, hall case hcase⟩
  · refine iff_of_true rfl fun case hcase hsamples ↦ ?_
    exact hrecorded ⟨case, hcase, hsamples⟩
  · exact iff_of_false Status.noConfusion fun h ↦ hrecorded h.1

private theorem tells_iff_noEmptyCase :
    Tells args outcomes ((args.playGrid outcomes).payload args domain_id)
      (args.playGrid outcomes).exitCode ↔ NoEmptyCase args outcomes := by
  by_cases hrecorded : ∃ case ∈ args.played outcomes, case.2.Recorded
  · by_cases hraised : ∀ case ∈ args.played outcomes, ¬ case.2.Raised
    · rw [tells_ok_iff hrecorded hraised]
      constructor
      · intro hall _ _ case hcase
        exact ((recorded_iff case.2).mp (hall case hcase)).2
      · intro h case hcase
        exact (recorded_iff case.2).mpr ⟨hraised case hcase, h hrecorded hraised case hcase⟩
    · exact iff_of_true (tells_partly hrecorded hraised) fun _ h ↦ (hraised h).elim
  · exact iff_of_true (tells_blocked hrecorded) fun h ↦ (hrecorded h).elim

/-- A run is reported rightly exactly when its domain can be read and no case without samples goes
unnoticed beside cases with samples. -/
theorem reported_iff_noEmptyCase (args : GridArgs) (env : Environ) (outcomes : ℕ → CaseOutcome) :
    Reported args env outcomes ↔ args.domainId env ≠ none ∧ NoEmptyCase args outcomes := by
  rw [Reported, GridArgs.main]
  cases hdomain : args.domainId env with
  | none => simp
  | some domain_id =>
    simp only [Option.some.injEq, exists_eq_left', ne_eq, reduceCtorEq, not_false_eq_true, true_and]
    exact tells_iff_noEmptyCase

/-- A case whose pings all time out, beside one that is measured: the run is called `ok`. -/
theorem empty_case_reported_ok : ¬ ∀ args env outcomes, Reported args env outcomes := by
  intro h
  obtain ⟨payload, hpayload, htells⟩ := h
    { chain := .b, qos_list := ["reliable"], sizes := [64, 1024] } (fun _ ↦ none)
    fun n ↦ if n = 0 then .measured 400 0 else .measured 0 450
  cases hpayload
  have hempty := (htells.ok.mp rfl).2 (("reliable", 1024), .measured 0 450) (.tail _ (.head _))
  contradiction

end HzjDds.Bench
