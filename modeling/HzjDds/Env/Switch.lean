import HzjDds.Env.Load
import HzjDds.Transition.Run

/-!
# Switching chains

Library `Env`. Source: `config/env/load.py:16–39,63–86`, `config/env/chain_a.sh:8–12`,
`config/env/chain_b.sh:9–13` and `dual_chain_env.py:31–36`. The contract of a chain is written three
times: a table, the text printed from it, and a shell file.
-/

namespace HzjDds.Env

open HzjDds.Shell HzjDds.Transition

/-- The two chains. -/
inductive Chain where
  | a
  | b
  deriving DecidableEq, Repr

/-- How a switch is carried out: `load.apply`, the text that `load.py` prints, or the shell file. -/
inductive Means where
  | apply
  | exported
  | sourced
  deriving DecidableEq, Repr

/-- Path of the repository as `resolve()` and `pwd` write it: only the root directory ends in a
slash. -/
structure RepoRoot where
  path : String
  noNul : NoNul path
  resolved : path.toList.getLast? = some '/' → path = "/"

/-- `path / name` of `pathlib`. -/
def joinPath (path name : String) : String :=
  if path.toList.getLast? = some '/' then path ++ name else path ++ "/" ++ name

variable (root : RepoRoot)

/-- `FASTDDS_XML`. -/
def fastddsXml : String := joinPath (joinPath root.path "config") "fastdds.xml"

/-- `CHAIN_A`. -/
def chainA : List (String × String) :=
  [("RMW_IMPLEMENTATION", "rmw_fastrtps_cpp"),
    ("ROS_DOMAIN_ID", "42"),
    ("FASTRTPS_DEFAULT_PROFILES_FILE", fastddsXml root)]

/-- `CHAIN_B`. -/
def chainB : List (String × String) :=
  [("RMW_IMPLEMENTATION", "rmw_cyclonedds_cpp"), ("ROS_DOMAIN_ID", "0")]

/-- `CHAIN_B_UNSET`. -/
def chainBUnset : List String := ["CYCLONEDDS_URI"]

/-- `describe` (`load.py:34–39`). -/
def describe : Chain → List (String × String)
  | .a => chainA root
  | .b => chainB

/-- The names that `main` passes as `unset`. -/
def unsetOf : Chain → List String
  | .a => []
  | .b => chainBUnset

/-- `chain_a.sh` (`8–12`). -/
def chainASh : List Command :=
  [.assign "_ROS2_HZJ_ROOT" [.text root.path],
    .exportAssign "RMW_IMPLEMENTATION" [.text "rmw_fastrtps_cpp"],
    .exportAssign "ROS_DOMAIN_ID" [.text "42"],
    .exportAssign "FASTRTPS_DEFAULT_PROFILES_FILE"
      [.var "_ROS2_HZJ_ROOT", .text "/config/fastdds.xml"],
    .unset "_ROS2_HZJ_ROOT"]

/-- `chain_b.sh` (`9–13`). -/
def chainBSh : List Command :=
  [.exportAssign "RMW_IMPLEMENTATION" [.text "rmw_cyclonedds_cpp"],
    .exportAssign "ROS_DOMAIN_ID" [.text "0"],
    .unset "CYCLONEDDS_URI"]

/-- The shell file of a chain. -/
def chainSh : Chain → List Command
  | .a => chainASh root
  | .b => chainBSh

/-- The environment after a shell started in `env` has sourced a file of commands. -/
def source (env : Environ) (commands : List Command) : Environ :=
  (commands.foldl .exec (Variables.ofEnviron env)).environ

/-- A switch to a chain. -/
def switch (env : Environ) : Chain × Means → Option Environ
  | (chain, .apply) => apply env (describe root chain) (unsetOf chain)
  | (chain, .exported) => evalText env (exportShell (describe root chain) (unsetOf chain))
  | (chain, .sourced) => some (source env (chainSh root chain))

/-- The scratch name of `chain_a.sh` is not defined. -/
def NoScratch (env : Environ) : Prop := env "_ROS2_HZJ_ROOT" = none

/-- What a chain fixes: the variables that its middleware reads, with their value or absence. -/
def contract (chain : Chain) : List (String × Option String) :=
  (describe root chain).map (fun item ↦ (item.1, some item.2)) ++
    (unsetOf chain).map fun key ↦ (key, none)

/-- The variables that the switches touch. -/
def managed : List String :=
  ["RMW_IMPLEMENTATION", "ROS_DOMAIN_ID", "FASTRTPS_DEFAULT_PROFILES_FILE", "CYCLONEDDS_URI"]

/-- The final environment of a sequence of switches: it does not depend on the means, what the
middleware of the last chain reads is fixed by that chain, and the rest is inherited. -/
def HistoryFree (env : Environ) (switches : List (Chain × Means)) : Prop :=
  ∃ final, run (switch root) env switches = some final ∧
    (∀ switches' : List (Chain × Means), switches'.map Prod.fst = switches.map Prod.fst →
      run (switch root) env switches' = some final) ∧
    (∀ last, switches.getLast? = some last → ∀ item ∈ contract root last.1,
      final item.1 = item.2) ∧
    ∀ name ∉ managed, final name = env name

/-- The path of the profile file that a switch to Chain A sets. -/
def profiles : Means → String
  | .sourced => root.path ++ "/config/fastdds.xml"
  | _ => fastddsXml root

/-- The environment after a switch, one variable at a time. -/
def switched (env : Environ) : Chain × Means → Environ
  | (.a, means) => fun name ↦
    if name = "RMW_IMPLEMENTATION" then some "rmw_fastrtps_cpp"
    else if name = "ROS_DOMAIN_ID" then some "42"
    else if name = "FASTRTPS_DEFAULT_PROFILES_FILE" then some (profiles root means)
    else env name
  | (.b, _) => fun name ↦
    if name = "RMW_IMPLEMENTATION" then some "rmw_cyclonedds_cpp"
    else if name = "ROS_DOMAIN_ID" then some "0"
    else if name = "CYCLONEDDS_URI" then none
    else env name

private theorem noNul_fastddsXml : NoNul (fastddsXml root) := by
  have hroot : '\x00' ∉ root.path.toList := root.noNul
  have hjoin : ∀ path name : String, '\x00' ∉ path.toList → '\x00' ∉ name.toList →
      '\x00' ∉ (joinPath path name).toList := by
    intro path name hpath hname
    unfold joinPath
    split <;> simp [hpath, hname]
  exact hjoin _ _ (hjoin _ _ hroot (by decide)) (by decide)

private theorem profiles_eq_iff : profiles root .sourced = fastddsXml root ↔ root.path ≠ "/" := by
  change root.path ++ "/config/fastdds.xml" = fastddsXml root ↔ _
  constructor
  · intro h hroot
    rw [fastddsXml, hroot] at h
    exact absurd h (by decide)
  · intro hroot
    have hlast : root.path.toList.getLast? ≠ some '/' := fun h ↦ hroot (root.resolved h)
    have hconfig : (root.path ++ "/" ++ "config").toList.getLast? = some 'g' := by simp
    rw [fastddsXml, joinPath, joinPath, if_neg hlast, hconfig, if_neg (by decide)]
    simp [String.append_assoc]

private theorem profiles_of_ne {means : Means} (h : means ≠ .sourced) :
    profiles root means = fastddsXml root := by
  cases means with
  | apply => rfl
  | exported => rfl
  | sourced => contradiction

private theorem profiles_of_root (hroot : root.path ≠ "/") (means : Means) :
    profiles root means = fastddsXml root := by
  by_cases h : means = .sourced
  · rw [h]
    exact (profiles_eq_iff root).mpr hroot
  · exact profiles_of_ne root h

private theorem update_three {env : Environ} {a b c : String} (hab : a ≠ b) (hac : a ≠ c) (hbc : b ≠ c)
    (x y z : Option String) (name : String) :
    Function.update (Function.update (Function.update env a x) b y) c z name =
      if name = a then x else if name = b then y else if name = c then z else env name := by
  by_cases ha : name = a
  · subst ha
    rw [Function.update_of_ne hac, Function.update_of_ne hab, Function.update_self, if_pos rfl]
  · rw [if_neg ha]
    by_cases hb : name = b
    · subst hb
      rw [Function.update_of_ne hbc, Function.update_self, if_pos rfl]
    · rw [if_neg hb, Function.update_apply, Function.update_of_ne hb, Function.update_of_ne ha]

private theorem table_eq_switched (env : Environ) (chain : Chain) (means : Means)
    (h : means ≠ .sourced) :
    (unsetOf chain).foldl pop (setAll env (describe root chain)) =
      switched root env (chain, means) := by
  have hprofiles := profiles_of_ne root h
  funext name
  cases chain with
  | a =>
    simp only [unsetOf, List.foldl_nil, describe, chainA, setAll, List.foldl_cons, switched,
      hprofiles]
    exact update_three (by decide) (by decide) (by decide) ..
  | b =>
    simp only [unsetOf, chainBUnset, List.foldl_nil, describe, chainB, setAll, List.foldl_cons,
      switched, pop]
    exact update_three (by decide) (by decide) (by decide) ..

private theorem source_eq_switched {env : Environ} (henv : NoScratch env) (chain : Chain) :
    source env (chainSh root chain) = switched root env (chain, .sourced) := by
  funext name
  cases chain with
  | a =>
    have hscratch : Variables.ofEnviron env "_ROS2_HZJ_ROOT" = none := by
      rw [Variables.ofEnviron, henv]
      rfl
    simp only [source, chainSh, chainASh, List.foldl_cons, List.foldl_nil,
      Variables.environ_unset, Variables.environ_exportAssign, Variables.environ_assign hscratch,
      Variables.environ_ofEnviron, switched]
    by_cases hname : name = "_ROS2_HZJ_ROOT"
    · subst hname
      rw [Function.update_self, if_neg (by decide), if_neg (by decide), if_neg (by decide), henv]
    · rw [Function.update_of_ne hname]
      exact update_three (by decide) (by decide) (by decide) ..
  | b =>
    simp only [source, chainSh, chainBSh, List.foldl_cons, List.foldl_nil,
      Variables.environ_unset, Variables.environ_exportAssign, Variables.environ_ofEnviron,
      switched]
    exact update_three (by decide) (by decide) (by decide) ..

/-- A switch changes one variable after the other, and leaves the scratch name undefined. -/
theorem switch_eq {env : Environ} (henv : NoScratch env) (s : Chain × Means) :
    switch root env s = some (switched root env s) ∧ NoScratch (switched root env s) := by
  obtain ⟨chain, means⟩ := s
  constructor
  · have hkeys : ∀ item ∈ describe root chain, IsName item.1 := by
      cases chain with
      | a =>
        simp only [describe, chainA, List.forall_mem_cons]
        decide
      | b =>
        simp only [describe]
        decide
    have hvalues : ∀ item ∈ describe root chain, NoNul item.2 := by
      cases chain with
      | a =>
        simp only [describe, chainA, List.forall_mem_cons]
        exact ⟨by decide, by decide, noNul_fastddsXml root, fun _ h ↦ by simp at h⟩
      | b =>
        simp only [describe]
        decide
    have hunset : ∀ key ∈ unsetOf chain, IsName key := by cases chain <;> decide
    have happly := apply_eq env hkeys hvalues (unsetOf chain)
    cases means with
    | apply =>
      rw [switch, happly, table_eq_switched root env chain .apply (by decide)]
    | exported =>
      rw [switch, evalText_exportShell env hkeys hvalues hunset, happly,
        table_eq_switched root env chain .exported (by decide)]
    | sourced => rw [switch, source_eq_switched root henv]
  · cases chain <;> exact henv

private theorem run_switches {env : Environ} (henv : NoScratch env) (switches : List (Chain × Means)) :
    run (switch root) env switches = some (switches.foldl (switched root) env) := by
  induction switches generalizing env with
  | nil => rfl
  | cons s switches ih =>
    rw [run_cons, (switch_eq root henv s).1, Option.bind_some, ih (switch_eq root henv s).2]
    rfl

/-- Where the two spellings of the path agree, or where no path is set, the means do not matter. -/
theorem foldl_switched_congr {switches switches' : List (Chain × Means)}
    (hchains : switches'.map Prod.fst = switches.map Prod.fst)
    (h : root.path ≠ "/" ∨ Chain.a ∉ switches.map Prod.fst) (env : Environ) :
    switches'.foldl (switched root) env = switches.foldl (switched root) env := by
  induction switches generalizing switches' env with
  | nil =>
    rw [List.map_nil, List.map_eq_nil_iff] at hchains
    rw [hchains]
  | cons s switches ih =>
    cases switches' with
    | nil => simp at hchains
    | cons s' switches' =>
      obtain ⟨hchain, hchains⟩ := List.cons_eq_cons.mp hchains
      have hs : switched root env s' = switched root env s := by
        obtain ⟨chain, means⟩ := s
        obtain ⟨chain', means'⟩ := s'
        obtain rfl : chain' = chain := hchain
        cases chain' with
        | a =>
          have hroot : root.path ≠ "/" := h.resolve_right (by simp)
          simp only [switched, profiles_of_root root hroot]
        | b => rfl
      rw [List.foldl_cons, List.foldl_cons, hs]
      apply ih hchains
      rcases h with h | h
      · exact Or.inl h
      · exact Or.inr fun hmem ↦ h (List.mem_cons_of_mem _ hmem)

private theorem foldl_switched_profiles (means : Means) (chains : List Chain) (env : Environ) :
    (chains.map (·, means)).foldl (switched root) env "FASTRTPS_DEFAULT_PROFILES_FILE" =
      if Chain.a ∈ chains then some (profiles root means)
      else env "FASTRTPS_DEFAULT_PROFILES_FILE" := by
  induction chains generalizing env with
  | nil => rfl
  | cons chain chains ih =>
    rw [List.map_cons, List.foldl_cons, ih]
    cases chain with
    | a =>
      have ha : switched root env (.a, means) "FASTRTPS_DEFAULT_PROFILES_FILE" =
          some (profiles root means) := by
        simp only [switched]
        rw [if_neg (by decide), if_neg (by decide), if_pos trivial]
      rw [ha, ite_self, if_pos List.mem_cons_self]
    | b =>
      have hb : switched root env (.b, means) "FASTRTPS_DEFAULT_PROFILES_FILE" =
          env "FASTRTPS_DEFAULT_PROFILES_FILE" := by
        simp only [switched]
        rw [if_neg (by decide), if_neg (by decide), if_neg (by decide)]
      have hmem : Chain.a ∈ Chain.b :: chains ↔ Chain.a ∈ chains := by simp
      simp only [hb, hmem]

private theorem foldl_switched_others {name : String} (hname : name ∉ managed)
    (switches : List (Chain × Means)) (env : Environ) :
    switches.foldl (switched root) env name = env name := by
  simp only [managed, List.mem_cons, List.not_mem_nil, or_false, not_or] at hname
  obtain ⟨hrmw, hdomain, hprofiles, huri⟩ := hname
  induction switches generalizing env with
  | nil => rfl
  | cons s switches ih =>
    rw [List.foldl_cons, ih]
    obtain ⟨chain, means⟩ := s
    cases chain with
    | a => simp only [switched, if_neg hrmw, if_neg hdomain, if_neg hprofiles]
    | b => simp only [switched, if_neg hrmw, if_neg hdomain, if_neg huri]

private theorem switched_contract (env : Environ) {s : Chain × Means}
    (h : root.path ≠ "/" ∨ s.1 ≠ .a) :
    ∀ item ∈ contract root s.1, switched root env s item.1 = item.2 := by
  obtain ⟨chain, means⟩ := s
  cases chain with
  | a =>
    have hroot : root.path ≠ "/" := h.resolve_right (by simp)
    have hprofiles := profiles_of_root root hroot means
    simp [contract, describe, chainA, unsetOf, switched, hprofiles]
  | b => simp [contract, describe, chainB, unsetOf, chainBUnset, switched]

/-- Switching is history-free and the same by every means exactly when the repository is not the
root directory or no switch goes to Chain A. -/
theorem switches_historyFree_iff {env : Environ} (henv : NoScratch env)
    (switches : List (Chain × Means)) :
    HistoryFree root env switches ↔
      root.path ≠ "/" ∨ Chain.a ∉ switches.map Prod.fst := by
  constructor
  · rintro ⟨final, -, hmeans, -, -⟩
    by_contra hnot
    obtain ⟨hroot, ha⟩ := not_or.mp hnot
    rw [not_not] at hroot ha
    have hpath : ∀ means, final "FASTRTPS_DEFAULT_PROFILES_FILE" = some (profiles root means) := by
      intro means
      have hrun := hmeans ((switches.map Prod.fst).map (·, means)) (by simp [Function.comp_def])
      rw [run_switches root henv, Option.some.injEq] at hrun
      rw [← hrun, foldl_switched_profiles, if_pos ha]
    have heq : profiles root .sourced = fastddsXml root :=
      Option.some.inj ((hpath .sourced).symm.trans (hpath .apply))
    exact (profiles_eq_iff root).mp heq hroot
  · intro h
    refine ⟨_, run_switches root henv switches, ?_, ?_, ?_⟩
    · intro switches' hchains
      rw [run_switches root henv, foldl_switched_congr root hchains h]
    · intro last hlast
      obtain ⟨init, rfl⟩ := List.getLast?_eq_some_iff.mp hlast
      rw [List.foldl_append]
      apply switched_contract
      rcases h with h | h
      · exact Or.inl h
      · exact Or.inr fun hlast ↦ h (by simp [hlast])
    · exact fun name hname ↦ foldl_switched_others root hname switches env

/-- A repository below the root directory, and a history of all three means. -/
theorem switches_historyFree_iff_repo :
    HistoryFree ⟨"/srv/ros2_hzj_dds", by decide, by decide⟩
        (Function.update (fun _ ↦ none) "CYCLONEDDS_URI" (some "file:///old.xml"))
        [(.a, .sourced), (.b, .exported), (.a, .apply), (.b, .sourced)] ↔
      "/srv/ros2_hzj_dds" ≠ "/" ∨ Chain.a ∉ [Chain.a, .b, .a, .b] := by
  have henv : NoScratch
      (Function.update (fun _ ↦ none) "CYCLONEDDS_URI" (some "file:///old.xml")) := by
    unfold NoScratch
    exact Function.update_of_ne (by decide) ..
  exact switches_historyFree_iff ⟨"/srv/ros2_hzj_dds", by decide, by decide⟩ henv
    [(.a, .sourced), (.b, .exported), (.a, .apply), (.b, .sourced)]

/-- In the root directory the shell file and the table set different paths. -/
theorem root_directory_means_differ :
    ¬ ∀ (root : RepoRoot) (env : Environ) (switches : List (Chain × Means)), NoScratch env →
      switches ≠ [] → HistoryFree root env switches := by
  intro h
  obtain ⟨final, hrun, hmeans, -, -⟩ := h ⟨"/", by decide, by decide⟩ (fun _ ↦ none)
    [(.a, .sourced)] rfl (by simp)
  have hrun' := hmeans [(.a, .apply)] rfl
  have henv : NoScratch fun _ ↦ none := rfl
  rw [run_switches _ henv, Option.some.injEq] at hrun hrun'
  have hpath := congrFun (hrun.trans hrun'.symm) "FASTRTPS_DEFAULT_PROFILES_FILE"
  exact absurd hpath (by decide)

end HzjDds.Env
