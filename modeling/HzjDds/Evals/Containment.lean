import HzjDds.Evals.RunEvals

/-!
# Failures of the evaluation suites

Source: `scripts/eval/run_evals.py:46–188`. A failure of one suite is to be a result of the run,
which goes on with the next suite. It is, as long as what leaves a suite is caught and what a suite
returns can be counted.
-/

namespace HzjDds.Evals

open Python
open Gates.ApiSurface (CheckStatus)

/-! ## What a run is to say -/

/-- The runner of a suite returns a value. -/
def Suite.Returned (suite : Suite) (value : Value) : Prop :=
  suite.spec = true ∧ suite.module = .ok (some (.ok value))

/-- What a suite adds to the results: those in the list that it returned, or a failure. -/
structure Contributes (suite : Suite) (part : List Item) : Prop where
  results : ∀ rs : List CheckResult, suite.Returned (.list (rs.map .result)) →
    part = (rs.map (·.inSuite suite.name)).map .result
  failure : (∀ rs : List CheckResult, ¬ suite.Returned (.list (rs.map .result))) →
    ∃ r, .result r ∈ part ∧ r.status = .fail

/-- The report counts every result once, and its exit code says what there is among them. -/
structure Tallied (items : List Item) (report : Report) : Prop where
  results : report.results.map .result = items
  total : report.total = report.results.length
  passed : report.passed = report.results.countP (·.status = .pass)
  failed : report.failed = report.results.countP (·.status = .fail)
  blocked : report.blocked = report.results.countP (·.status = .blocked)
  sum : report.total = report.passed + report.failed + report.blocked
  exitFail : report.exitCode = 1 ↔ ∃ r ∈ report.results, r.status = .fail
  exitBlocked : report.exitCode = 2 ↔
    (∀ r ∈ report.results, r.status ≠ .fail) ∧ ∃ r ∈ report.results, r.status = .blocked
  exitPass : report.exitCode = 0 ↔
    ∀ r ∈ report.results, r.status ≠ .fail ∧ r.status ≠ .blocked

/-- Every suite has been run and has added its part, and the report is about these parts. -/
structure Contained (suites : List Suite) (run : Run) : Prop where
  all : run.ran.map Prod.fst = suites
  parts : ∀ entry ∈ run.ran, Contributes entry.1 entry.2
  reported : ∃ report, run.report = .ok report ∧ Tallied (run.ran.flatMap Prod.snd) report

/-! ## Suites that are handled -/

/-- An object is a result. -/
def Item.IsResult (item : Item) : Prop := ∃ r, item = .result r

/-- An object that has a name. -/
def Item.Named : Item → Prop
  | .result _ => True
  | .other .name _ => False
  | .other .status _ => True

/-- A value that is taken for the results of a suite: a list of results, or an object that yields
results twice, a failure the second time. -/
def Value.Acceptable : Value → Prop
  | .list items => ∀ item ∈ items, item.IsResult
  | .other first second => (∀ item ∈ first.items, item.Named) ∧ first.raises = none ∧
      (∀ item ∈ second.items, item.IsResult) ∧ second.raises = none ∧
      ∃ r, .result r ∈ second.items ∧ r.status = .fail

/-- An exception that is caught leaves a suite. -/
def Suite.Raises (suite : Suite) : Prop :=
  suite.spec = false ∨ suite.module = .ok none ∨
    ∃ e : Escape, e.Caught ∧
      (suite.module = .error e ∨ suite.module = .ok (some (.error e)))

/-- A suite is handled. -/
def Suite.Handled (suite : Suite) : Prop :=
  suite.Raises ∨ ∃ value, suite.Returned value ∧ value.Acceptable

/-- The root of the repository is found. -/
def Places.Located (places : Places) : Prop :=
  places.cwdHas = true ∨ places.candidateHas = true

/-- The report is written, if it is to be. -/
def Args.Written {suites : List Suite} (args : Args suites) : Prop :=
  ∀ write ∈ args.output, write = .ok ()

/-! ## One suite -/

section

variable {evalDir : String} {suite : Suite} {value : Value} {items : List Item}

@[simp] theorem status_inSuite (r : CheckResult) (name : String) :
    (r.inSuite name).status = r.status := by
  unfold CheckResult.inSuite
  split <;> rfl

private theorem caught_iff {e : Escape} : e.Caught ↔ ∃ exc, e = .exception exc := by
  cases e <;> simp [Escape.Caught]

private theorem callRunner_eq_ok : callRunner evalDir suite = .ok value ↔ suite.Returned value := by
  rw [callRunner, Call.bind_eq_ok, Suite.Returned]
  constructor
  · rintro ⟨run, hload, hrun⟩
    cases run with
    | none => cases hrun
    | some results =>
      unfold loadModule at hload
      split at hload
      · next hspec => exact ⟨hspec, hload.trans (congrArg (Except.ok ∘ some) hrun)⟩
      · cases hload
  · rintro ⟨hspec, hmodule⟩
    exact ⟨some (.ok value), by rw [loadModule, if_pos hspec, hmodule], rfl⟩

/-- An exception that is caught leaves the body of the `try` statement exactly if one leaves the
suite. -/
theorem callRunner_raises_iff :
    (∃ exc, callRunner evalDir suite = .error (.exception exc)) ↔ suite.Raises := by
  unfold callRunner loadModule Suite.Raises
  by_cases hspec : suite.spec = true
  · rw [if_pos hspec, or_iff_right (by simp [hspec])]
    cases hmodule : suite.module with
    | error e =>
      show (∃ exc, Except.error e = Except.error (Escape.exception exc)) ↔ _
      simp [caught_iff]
    | ok run =>
      cases run with
      | none => simp [bind, Except.bind]
      | some results =>
        show (∃ exc, results = Except.error (Escape.exception exc)) ↔ _
        simp [caught_iff]
  · rw [if_neg hspec]
    simp [hspec, bind, Except.bind]

private theorem exists_rename {name : String} {item : Item} :
    (∃ item', item.rename name = .ok item') ↔ item.Named := by
  cases item with
  | result r => simp [Item.rename, Item.Named]
  | other lack e => cases lack <;> simp [Item.rename, Item.Named]

private theorem rename_eq_result {name : String} {item : Item} {r : CheckResult}
    (h : item.rename name = .ok (.result r)) : item.IsResult := by
  cases item with
  | result r' => exact ⟨r', rfl⟩
  | other lack e => cases lack <;> cases h

private theorem mapM_rename_results (name : String) (rs : List CheckResult) :
    (rs.map Item.result).mapM (Item.rename name) =
      .ok ((rs.map (·.inSuite name)).map .result) := by
  have hrename : ∀ r : CheckResult,
      Item.rename name (.result r) = .ok ((Item.result ∘ (·.inSuite name)) r) := fun _ ↦ rfl
  rw [List.map_map]
  exact mapM_map_ok hrename rs

private theorem finish_eq_ok {iteration : Iteration} :
    iteration.finish = .ok () ↔ iteration.raises = none := by
  unfold Iteration.finish
  cases iteration.raises <;> simp

private theorem added_list {name : String} {given : List Item} :
    (renameAll name (.list given) >>= Value.extend) = .ok items ↔
      given.mapM (Item.rename name) = .ok items := by
  rw [renameAll, Call.bind_eq_ok]
  constructor
  · rintro ⟨v, hv, hitems⟩
    obtain ⟨renamed, hrenamed, hreturn⟩ := Call.bind_eq_ok.mp hv
    cases hreturn
    cases hitems
    exact hrenamed
  · intro h
    exact ⟨.list items, Call.bind_eq_ok.mpr ⟨items, h, rfl⟩, rfl⟩

private theorem added_other {name : String} {first second : Iteration} :
    (renameAll name (.other first second) >>= Value.extend) = .ok items ↔
      (∀ item ∈ first.items, item.Named) ∧ first.raises = none ∧ second.raises = none ∧
        items = second.items := by
  have hnamed : (∃ renamed, first.items.mapM (Item.rename name) = .ok renamed) ↔
      ∀ item ∈ first.items, item.Named := by
    simp only [exists_mapM_eq_ok, exists_rename]
  rw [renameAll, Call.bind_eq_ok, ← hnamed, ← finish_eq_ok, ← finish_eq_ok]
  constructor
  · rintro ⟨v, hv, hitems⟩
    obtain ⟨renamed, hrenamed, hrest⟩ := Call.bind_eq_ok.mp hv
    obtain ⟨⟨⟩, hfirst, hreturn⟩ := Call.bind_eq_ok.mp hrest
    cases hreturn
    obtain ⟨⟨⟩, hsecond, hreturn⟩ := Call.bind_eq_ok.mp hitems
    cases hreturn
    exact ⟨⟨renamed, hrenamed⟩, hfirst, hsecond, rfl⟩
  · rintro ⟨⟨renamed, hrenamed⟩, hfirst, hsecond, rfl⟩
    exact ⟨.other first second,
      Call.bind_eq_ok.mpr ⟨renamed, hrenamed, Call.bind_eq_ok.mpr ⟨(), hfirst, rfl⟩⟩,
      Call.bind_eq_ok.mpr ⟨(), hsecond, rfl⟩⟩

private theorem added_eq_ok : (runSuite evalDir suite >>= Value.extend) = .ok items ↔
    (∃ exc, callRunner evalDir suite = .error (.exception exc) ∧
      items = [.result ((suiteError suite.name exc).inSuite suite.name)]) ∨
    ∃ value, suite.Returned value ∧ (renameAll suite.name value >>= Value.extend) = .ok items := by
  have hbind : (runSuite evalDir suite >>= Value.extend) = .ok items ↔
      ∃ value, tryExcept (callRunner evalDir suite) (fun exc ↦
        .ok (.list [.result (suiteError suite.name exc)])) = .ok value ∧
          (renameAll suite.name value >>= Value.extend) = .ok items := by
    rw [runSuite, bind_assoc, Call.bind_eq_ok]
  rw [hbind]
  simp only [tryExcept_eq_ok, callRunner_eq_ok]
  constructor
  · rintro ⟨value, hreturned | ⟨exc, hraised, hvalue⟩, hadded⟩
    · exact Or.inr ⟨value, hreturned, hadded⟩
    · cases hvalue
      rw [added_list] at hadded
      cases hadded
      exact Or.inl ⟨exc, hraised, rfl⟩
  · rintro (⟨exc, hraised, rfl⟩ | ⟨value, hreturned, hadded⟩)
    · exact ⟨_, Or.inr ⟨exc, hraised, rfl⟩, added_list.mpr rfl⟩
    · exact ⟨value, Or.inl hreturned, hadded⟩

/-- A list of results that was returned is the value that was returned. -/
theorem Suite.Returned.unique {value' : Value} (h : suite.Returned value)
    (h' : suite.Returned value') : value = value' := by
  have hsame := h.2.symm.trans h'.2
  simpa using hsame

private theorem Suite.Returned.not_raises (h : suite.Returned value) : ¬ suite.Raises := by
  rintro (hspec | hnone | ⟨e, -, hload | hrun⟩)
  · rw [h.1] at hspec
    contradiction
  · rw [h.2] at hnone
    cases hnone
  · rw [h.2] at hload
    cases hload
  · rw [h.2] at hrun
    cases hrun

private theorem exists_results (h : ∀ item ∈ items, item.IsResult) :
    ∃ rs : List CheckResult, items = rs.map .result := by
  induction items with
  | nil => exact ⟨[], rfl⟩
  | cons item items ih =>
    rw [List.forall_mem_cons] at h
    obtain ⟨⟨r, rfl⟩, hrest⟩ := h
    obtain ⟨rs, rfl⟩ := ih hrest
    exact ⟨r :: rs, rfl⟩

private theorem results_injective : Function.Injective (List.map Item.result) :=
  List.map_injective_iff.mpr fun _ _ h ↦ by
    cases h
    rfl

/-- A suite that is handled adds results, and those that it should. -/
theorem Suite.Handled.added (h : suite.Handled) : ∃ rs : List CheckResult,
    (runSuite evalDir suite >>= Value.extend) = .ok (rs.map .result) ∧
      Contributes suite (rs.map .result) := by
  rcases h with hraises | ⟨value, hreturned, hacceptable⟩
  · obtain ⟨exc, hexc⟩ : ∃ exc, callRunner evalDir suite = .error (.exception exc) :=
      callRunner_raises_iff.mpr hraises
    refine ⟨[(suiteError suite.name exc).inSuite suite.name],
      added_eq_ok.mpr (Or.inl ⟨exc, hexc, rfl⟩), ?_⟩
    constructor
    case results => exact fun rs hrs ↦ absurd hraises hrs.not_raises
    case failure =>
      intro _
      exact ⟨_, List.mem_singleton_self _, status_inSuite _ _⟩
  · cases value with
    | list given =>
      obtain ⟨rs, rfl⟩ := exists_results hacceptable
      refine ⟨rs.map (·.inSuite suite.name), added_eq_ok.mpr (Or.inr ⟨_, hreturned, ?_⟩), ?_⟩
      · exact added_list.mpr (mapM_rename_results suite.name rs)
      · constructor
        case results =>
          intro rs' hrs'
          have hsame := hreturned.unique hrs'
          rw [Value.list.injEq] at hsame
          rw [results_injective hsame]
        case failure => exact fun hnone ↦ absurd hreturned (hnone rs)
    | other first second =>
      obtain ⟨hnamed, hfirst, hresults, hsecond, hfail⟩ := hacceptable
      obtain ⟨rs, hrs⟩ := exists_results hresults
      refine ⟨rs, added_eq_ok.mpr (Or.inr ⟨_, hreturned, ?_⟩), ?_⟩
      · exact added_other.mpr ⟨hnamed, hfirst, hsecond, hrs.symm⟩
      · constructor
        case results =>
          intro rs' hrs'
          have hsame := hreturned.unique hrs'
          contradiction
        case failure =>
          rw [← hrs]
          exact fun _ ↦ hfail

private theorem handled_of_added (h : (runSuite evalDir suite >>= Value.extend) = .ok items)
    (hitems : ∀ item ∈ items, item.IsResult) (hcontributes : Contributes suite items) :
    suite.Handled := by
  rcases added_eq_ok.mp h with ⟨exc, hexc, -⟩ | ⟨value, hreturned, hadded⟩
  · exact Or.inl (callRunner_raises_iff.mp ⟨exc, hexc⟩)
  · refine Or.inr ⟨value, hreturned, ?_⟩
    cases value with
    | list given =>
      intro item hitem
      obtain ⟨item', hitem', hrename⟩ := exists_mem_of_mapM (added_list.mp hadded) hitem
      obtain ⟨r, rfl⟩ := hitems item' hitem'
      exact rename_eq_result hrename
    | other first second =>
      obtain ⟨hnamed, hfirst, hsecond, rfl⟩ := added_other.mp hadded
      refine ⟨hnamed, hfirst, hitems, hsecond, hcontributes.failure fun rs hrs ↦ ?_⟩
      have hsame := hreturned.unique hrs
      contradiction

end

/-! ## Counting -/

private theorem summarize_results (counts : Counts) (rs : List CheckResult) :
    ∃ counts', summarize counts (rs.map .result) = .ok counts' ∧
      counts'.passed = counts.passed + rs.countP (·.status = .pass) ∧
      counts'.failed = counts.failed + rs.countP (·.status = .fail) ∧
      counts'.blocked = counts.blocked + rs.countP (·.status = .blocked) := by
  induction rs generalizing counts with
  | nil => exact ⟨counts, rfl, rfl, rfl, rfl⟩
  | cons r rs ih =>
    obtain ⟨counts', hcounts, hpassed, hfailed, hblocked⟩ := ih (counts.add r.status)
    refine ⟨counts', hcounts, ?_⟩
    rw [hpassed, hfailed, hblocked]
    cases hstatus : r.status <;> simp [hstatus, Counts.add, Nat.add_assoc, Nat.add_comm 1]

private theorem length_eq_counts (rs : List CheckResult) :
    rs.length = rs.countP (·.status = .pass) + rs.countP (·.status = .fail) +
      rs.countP (·.status = .blocked) := by
  induction rs with
  | nil => rfl
  | cons r rs ih =>
    rw [List.length_cons, ih]
    cases hstatus : r.status <;> simp [hstatus] <;> omega

private theorem countP_eq_zero_iff {rs : List CheckResult} {status : CheckStatus} :
    rs.countP (·.status = status) = 0 ↔ ∀ r ∈ rs, r.status ≠ status := by
  simp [List.countP_eq_zero]

private theorem countP_ne_zero_iff {rs : List CheckResult} {status : CheckStatus} :
    rs.countP (·.status = status) ≠ 0 ↔ ∃ r ∈ rs, r.status = status := by
  rw [Ne, countP_eq_zero_iff]
  push Not
  rfl

private theorem overallExitCode_spec (counts : Counts) :
    (overallExitCode counts = 1 ↔ counts.failed ≠ 0) ∧
      (overallExitCode counts = 2 ↔ counts.failed = 0 ∧ counts.blocked ≠ 0) ∧
      (overallExitCode counts = 0 ↔ counts.failed = 0 ∧ counts.blocked = 0) := by
  unfold overallExitCode
  split
  · omega
  · split <;> omega

section

variable {suites : List Suite} {args : Args suites}

/-- `main` behind the loop reports results, if it can write the report. -/
theorem finish_results (root : String) (hwritten : args.Written) (rs : List CheckResult) :
    ∃ report, finish root args (rs.map .result) = .ok report ∧
      Tallied (rs.map .result) report := by
  obtain ⟨counts, hcounts, hpassed, hfailed, hblocked⟩ := summarize_results {} rs
  rw [Nat.zero_add] at hpassed hfailed hblocked
  have hdicts : (rs.map Item.result).mapM Item.toDict = .ok rs := by
    have hdict : ∀ r : CheckResult, Item.toDict (.result r) = .ok (id r) := fun _ ↦ rfl
    have hmap := mapM_map_ok hdict rs
    rwa [List.map_id] at hmap
  have hoption : args.output.getD (.ok ()) = .ok () := by
    cases houtput : args.output with
    | none => rfl
    | some write => exact hwritten write houtput
  refine ⟨_, Call.bind_eq_ok.mpr ⟨counts, hcounts, Call.bind_eq_ok.mpr ⟨rs, hdicts,
    Call.bind_eq_ok.mpr ⟨(), hoption, rfl⟩⟩⟩, ?_⟩
  have hlength : (rs.map Item.result).length = rs.length := List.length_map _
  obtain ⟨hone, htwo, hzero⟩ := overallExitCode_spec counts
  constructor
  case results => rfl
  case total => exact hlength
  case passed => exact hpassed
  case failed => exact hfailed
  case blocked => exact hblocked
  case sum =>
    show (rs.map Item.result).length = counts.passed + counts.failed + counts.blocked
    rw [hlength, hpassed, hfailed, hblocked]
    exact length_eq_counts rs
  case exitFail =>
    show overallExitCode counts = 1 ↔ ∃ r ∈ rs, r.status = .fail
    rw [hone, hfailed, countP_ne_zero_iff]
  case exitBlocked =>
    show overallExitCode counts = 2 ↔
      (∀ r ∈ rs, r.status ≠ .fail) ∧ ∃ r ∈ rs, r.status = .blocked
    rw [htwo, hfailed, hblocked, countP_eq_zero_iff, countP_ne_zero_iff]
  case exitPass =>
    show overallExitCode counts = 0 ↔ ∀ r ∈ rs, r.status ≠ .fail ∧ r.status ≠ .blocked
    rw [hzero, hfailed, hblocked, countP_eq_zero_iff, countP_eq_zero_iff]
    exact forall₂_and.symm

private theorem written_of_finish {root : String} {items : List Item} {report : Report}
    (h : finish root args items = .ok report) : args.Written := by
  obtain ⟨counts, -, h⟩ := Call.bind_eq_ok.mp h
  obtain ⟨dicts, -, h⟩ := Call.bind_eq_ok.mp h
  obtain ⟨⟨⟩, hwrite, -⟩ := Call.bind_eq_ok.mp h
  intro write houtput
  rw [Option.mem_def.mp houtput] at hwrite
  exact hwrite

end

/-! ## A whole run -/

section

variable {evalDir : String} {suites : List Suite} {results all : List Item}

private theorem collect_ok (h : (collect evalDir suites results).2 = .ok all) :
    (collect evalDir suites results).1.map Prod.fst = suites ∧
      all = results ++ (collect evalDir suites results).1.flatMap Prod.snd ∧
      ∀ entry ∈ (collect evalDir suites results).1,
        (runSuite evalDir entry.1 >>= Value.extend) = .ok entry.2 := by
  induction suites generalizing results with
  | nil =>
    cases h
    exact ⟨rfl, (List.append_nil _).symm, fun _ hentry ↦ absurd hentry List.not_mem_nil⟩
  | cons suite rest ih =>
    rw [collect] at h ⊢
    cases hadded : runSuite evalDir suite >>= Value.extend with
    | error e =>
      rw [hadded] at h
      cases h
    | ok items =>
      simp only [hadded] at h ⊢
      obtain ⟨hran, hall, hentries⟩ := ih h
      refine ⟨congrArg (suite :: ·) hran, ?_, ?_⟩
      · rw [hall, List.flatMap_cons, List.append_assoc]
      · rw [List.forall_mem_cons]
        exact ⟨hadded, hentries⟩

private theorem collect_returns (results : List Item) (h : ∀ suite ∈ suites, ∃ items,
    (runSuite evalDir suite >>= Value.extend) = .ok items) :
    ∃ all, (collect evalDir suites results).2 = .ok all := by
  induction suites generalizing results with
  | nil => exact ⟨results, rfl⟩
  | cons suite rest ih =>
    rw [List.forall_mem_cons] at h
    obtain ⟨⟨items, hadded⟩, hrest⟩ := h
    obtain ⟨all, hall⟩ := ih (results ++ items) hrest
    refine ⟨all, ?_⟩
    rw [collect, hadded]
    exact hall

end

private theorem repoRoot_returns (places : Places) :
    (∃ root, repoRoot places = .ok root) ↔ places.Located := by
  unfold repoRoot Places.Located
  cases places.cwdHas <;> cases places.candidateHas <;> simp

private theorem main_of_root {places : Places} {root : String} (hroot : repoRoot places = .ok root)
    (evalDir : String) {suites : List Suite} (args : Args suites) :
    main places evalDir args = ⟨(collect evalDir args.selected []).1,
      (collect evalDir args.selected []).2 >>= finish root args⟩ := by
  rw [main, hroot]

section

variable {places : Places} {evalDir : String} {suites : List Suite} {args : Args suites}

/-- Where the failures of all suites are results of the run, every suite is handled. -/
theorem Contained.handled (h : Contained args.selected (main places evalDir args)) :
    (∃ root, repoRoot places = .ok root) ∧ args.Written ∧
      ∀ suite ∈ args.selected, suite.Handled := by
  obtain ⟨report, hreport, htallied⟩ := h.reported
  cases hroot : repoRoot places with
  | error e =>
    rw [main, hroot] at hreport
    cases hreport
  | ok root =>
    rw [main_of_root hroot] at h hreport htallied
    obtain ⟨all, hcollect, hfinish⟩ := Call.bind_eq_ok.mp hreport
    obtain ⟨hran, -, hadded⟩ := collect_ok hcollect
    refine ⟨⟨root, rfl⟩, written_of_finish hfinish, fun suite hsuite ↦ ?_⟩
    rw [← hran] at hsuite
    obtain ⟨entry, hentry, rfl⟩ := List.mem_map.mp hsuite
    refine handled_of_added (hadded entry hentry) (fun item hitem ↦ ?_) (h.parts entry hentry)
    have hmem := List.mem_flatMap.mpr ⟨entry, hentry, hitem⟩
    rw [← htallied.results] at hmem
    obtain ⟨r, -, rfl⟩ := List.mem_map.mp hmem
    exact ⟨r, rfl⟩

private theorem entries_of_handled (hhandled : ∀ suite ∈ suites, suite.Handled) :
    ∃ all, (collect evalDir suites []).2 = .ok all ∧
      ∀ entry ∈ (collect evalDir suites []).1,
        Contributes entry.1 entry.2 ∧ ∀ item ∈ entry.2, item.IsResult := by
  obtain ⟨all, hcollect⟩ : ∃ all, (collect evalDir suites []).2 = .ok all := by
    apply collect_returns
    intro suite hsuite
    obtain ⟨rs, hadded, -⟩ := (hhandled suite hsuite).added
    exact ⟨_, hadded⟩
  obtain ⟨hran, -, hadded⟩ := collect_ok hcollect
  refine ⟨all, hcollect, fun entry hentry ↦ ?_⟩
  have hsuite : entry.1 ∈ suites := hran ▸ List.mem_map_of_mem hentry
  obtain ⟨rs, hsame, hcontributes⟩ := (hhandled entry.1 hsuite).added
  have hpart := Except.ok.inj ((hadded entry hentry).symm.trans hsame)
  rw [hpart]
  refine ⟨hcontributes, fun item hitem ↦ ?_⟩
  obtain ⟨r, -, rfl⟩ := List.mem_map.mp hitem
  exact ⟨r, rfl⟩

private theorem contained_of_handled {root : String} (hroot : repoRoot places = .ok root)
    (hwritten : args.Written) (hhandled : ∀ suite ∈ args.selected, suite.Handled) :
    Contained args.selected (main places evalDir args) := by
  obtain ⟨all, hcollect, hentries⟩ := @entries_of_handled evalDir _ hhandled
  obtain ⟨hran, hall, -⟩ := collect_ok hcollect
  rw [List.nil_append] at hall
  have hresults : ∀ item ∈ all, item.IsResult := by
    intro item hitem
    rw [hall] at hitem
    obtain ⟨entry, hentry, hmem⟩ := List.mem_flatMap.mp hitem
    exact (hentries entry hentry).2 item hmem
  obtain ⟨rs, hrs⟩ := exists_results hresults
  obtain ⟨report, hreport, htallied⟩ := finish_results root hwritten rs
  rw [← hrs] at hreport htallied
  rw [hall] at htallied
  rw [main_of_root hroot]
  constructor
  case all => exact hran
  case parts => exact fun entry hentry ↦ (hentries entry hentry).1
  case reported => exact ⟨report, Call.bind_eq_ok.mpr ⟨all, hcollect, hreport⟩, htallied⟩

end

/-- The failures of all suites are results of the run, and none keeps later suites from being run,
exactly if every suite is handled, the root of the repository is found and the report can be
written. -/
theorem contained_iff (places : Places) (evalDir : String) {suites : List Suite}
    (args : Args suites) : Contained args.selected (main places evalDir args) ↔
      places.Located ∧ args.Written ∧ ∀ suite ∈ args.selected, suite.Handled := by
  rw [← repoRoot_returns]
  constructor
  · exact Contained.handled
  · rintro ⟨⟨root, hroot⟩, hwritten, hhandled⟩
    exact contained_of_handled hroot hwritten hhandled

/-- The runner of the first suite leaves as `repo_root` does; the others return no results. -/
def leaving (filename : String) : Ending (Option (Ending Value)) :=
  .ok (some (if filename = "test_gates.py" then .error (.systemExit "eval: cannot locate repo root")
    else .ok (.list [])))

/-- Only the first suite is run, and there is no report. -/
theorem exit_drops_suites :
    let run := main ⟨"/root", true, "/root", true⟩ "/root/scripts/eval"
      ({} : Args (SUITES (fun _ ↦ true) leaving))
    run.ran.map (·.1.name) = ["gate"] ∧ ¬ Contained (SUITES (fun _ ↦ true) leaving) run := by
  intro run
  have hran : run.ran.map (·.1.name) = ["gate"] := by decide
  refine ⟨hran, fun h ↦ ?_⟩
  have hlength := congrArg List.length h.all
  rw [List.length_map, ← List.length_map (·.1.name), hran] at hlength
  contradiction

end HzjDds.Evals
