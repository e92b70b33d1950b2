import HzjDds.Env.Switch
import HzjDds.Python.Text

/-!
# Chain A runners

Library `Env`. Source: `scripts/bench/run_chain_a.sh`, `scripts/bench/run_cross_host_a.sh` and
`pingpong.py:1016–1270`. A runner decides from the variables it inherits whether to source
`chain_a.sh`; the process that measures is told the chain's name and reads the rest from its
environment. The ROS setup script and the helpers of `common.sh` change none of these variables.
-/

namespace HzjDds.Env

open HzjDds.Shell

/-- A repository, and the paths that name its profile file. -/
structure Repo extends RepoRoot where
  names : String → Bool
  names_xml : names (path ++ "/config/fastdds.xml") = true

/-- Choices of `--topology`. -/
inductive Topology where
  | sameProcess
  | sameHost
  | crossHostUDP
  deriving DecidableEq, Repr

/-- Choices of `--role`. -/
inductive Role where
  | client
  | responder
  deriving DecidableEq, Repr

/-- Arguments of `pingpong.py`. -/
structure Args where
  chain : Chain
  topology : Topology := .sameProcess
  role : Role := .client
  remote_peer : String := ""
  domain_id : ℤ := 0
  deriving DecidableEq, Repr

/-- Status of a record: `ok`, `partial` or `blocked`. -/
inductive Status where
  | ok
  | partly
  | blocked
  deriving DecidableEq, Repr

/-- A record that `pingpong.py` writes. A case has an error or a number of recorded samples. -/
structure Record where
  status : Status
  chain : Chain
  topology : Topology
  domain_id : Option ℤ := none
  rmw : String := ""
  ros_domain_id : String := ""
  cyclonedds_uri : String := ""
  cases : List (Except String ℕ) := []

/-- A record and the environment of the process that wrote it. -/
structure Measurement where
  record : Record
  environ : Environ

/-- What is installed, and what the cases come to in an environment; `none` if the process ends
before they are over. -/
structure World where
  setup : Bool
  rclpy : Bool
  ros2 : Bool
  measure : Args → Environ → Option (List (Except String ℕ))

/-- `${name:-}` and `os.environ.get(name, "")`. -/
def param (env : Environ) (name : String) : String := (env name).getD ""

/-- `${name:-default}`. -/
def paramOr (env : Environ) (name default : String) : String :=
  if param env name = "" then default else param env name

/-- `int(os.environ.get("ROS_DOMAIN_ID") or 0)`. -/
def rosDomainId (env : Environ) : Option ℤ := Python.int (paramOr env "ROS_DOMAIN_ID" "0")

/-- The case recorded samples. -/
def Recorded (case : Except String ℕ) : Bool := match case with
  | .ok samples => 0 < samples
  | .error _ => false

/-- The case raised. -/
def Failed (case : Except String ℕ) : Bool := match case with
  | .ok _ => false
  | .error _ => true

/-- `status` (`pingpong.py:1231–1232`). -/
def statusOf (cases : List (Except String ℕ)) : Status :=
  if cases.any Recorded && !cases.any Failed then .ok
  else if cases.any Recorded then .partly else .blocked

/-- `main` (`pingpong.py:1016–1270`); `none` if no record is written. -/
def pingpong (w : World) (args : Args) (env : Environ) : Option Measurement :=
  if args.topology = .crossHostUDP ∧ args.role ≠ .responder ∧
      Python.strip args.remote_peer = "" then
    some ⟨{ status := .blocked, chain := args.chain, topology := args.topology }, env⟩
  else if args.role = .responder then none
  else do
    let cases ← w.measure args env
    let domain_id ← match args.chain with
      | .a => rosDomainId env
      | .b => some args.domain_id
    return ⟨{
      status := statusOf cases
      chain := args.chain
      topology := args.topology
      domain_id := some domain_id
      rmw := param env "RMW_IMPLEMENTATION"
      ros_domain_id := param env "ROS_DOMAIN_ID"
      cyclonedds_uri := param env "CYCLONEDDS_URI"
      cases }, env⟩

/-- The two runners of Chain A. -/
inductive Runner where
  | chainA
  | crossHostA
  deriving DecidableEq, Repr

/-- Whether a runner sources `chain_a.sh` (`run_chain_a.sh:50`, `run_cross_host_a.sh:79`). -/
def Runner.sources (env : Environ) : Runner → Bool
  | .chainA => param env "RMW_IMPLEMENTATION" = "" || param env "ROS_DOMAIN_ID" = ""
  | .crossHostA => param env "RMW_IMPLEMENTATION" = "" || param env "ROS_DOMAIN_ID" = "" ||
      param env "FASTRTPS_DEFAULT_PROFILES_FILE" = ""

/-- The environment after the runner has sourced `chain_a.sh` if it does. -/
def Runner.prepare (root : RepoRoot) (runner : Runner) (env : Environ) : Environ :=
  if runner.sources env then source env (chainASh root) else env

/-- `--topology`; another text is refused. -/
def parseTopology : String → Option Topology
  | "same-process" => some .sameProcess
  | "same-host" => some .sameHost
  | "cross-host-UDP" => some .crossHostUDP
  | _ => none

/-- `run_chain_a.sh`. Without ROS it writes a blocked record of its own. -/
def runChainA (root : RepoRoot) (w : World) (env : Environ) : Option Measurement :=
  let topology := paramOr env "TOPOLOGY" "same-process"
  if topology = "cross-host-UDP" then
    pingpong w { chain := .a, topology := .crossHostUDP } env
  else
    let env := Runner.chainA.prepare root env
    (parseTopology topology).bind fun topology ↦
      if w.setup && w.rclpy && w.ros2 then pingpong w { chain := .a, topology } env
      else some ⟨{
        status := .blocked
        chain := .a
        topology
        domain_id := some 42
        rmw := paramOr env "RMW_IMPLEMENTATION" "rmw_fastrtps_cpp"
        ros_domain_id := paramOr env "ROS_DOMAIN_ID" "42" }, env⟩

/-- `write_blocked` (`run_cross_host_a.sh:102–150`). -/
def writeBlocked (w : World) (env : Environ) : Option Measurement :=
  pingpong w { chain := .a, topology := .crossHostUDP } env

/-- `run_cross_host_a.sh`. -/
def runCrossHostA (root : RepoRoot) (w : World) (env : Environ) : Option Measurement :=
  let role := param env "ROLE"
  let peer := param env "CROSS_HOST_PEER"
  let env := Runner.crossHostA.prepare root env
  if role = "" then writeBlocked w env
  else if role ≠ "responder" ∧ role ≠ "client" then none
  else
    let env := Runner.crossHostA.prepare root env
    if role = "client" ∧ peer = "" then writeBlocked w env
    else if !(w.setup && w.rclpy) then
      if role = "responder" then none else writeBlocked w env
    else if role = "responder" then
      pingpong w { chain := .a, topology := .crossHostUDP, role := .responder } env
    else pingpong w { chain := .a, topology := .crossHostUDP, remote_peer := peer } env

/-- A run of a runner. -/
def Runner.run (root : RepoRoot) (w : World) (env : Environ) : Runner → Option Measurement
  | .chainA => runChainA root w env
  | .crossHostA => runCrossHostA root w env

/-- The process runs on Chain A. -/
def OnChainA (repo : Repo) (env : Environ) : Prop :=
  env "RMW_IMPLEMENTATION" = some "rmw_fastrtps_cpp" ∧ env "ROS_DOMAIN_ID" = some "42" ∧
    ∃ path, env "FASTRTPS_DEFAULT_PROFILES_FILE" = some path ∧ repo.names path = true

/-- A record that is labelled Chain A and holds measurements was measured on Chain A. -/
def LabelTrue (repo : Repo) (runner : Runner) (w : World) (env : Environ) : Prop :=
  ∀ m, runner.run repo.toRepoRoot w env = some m → m.record.chain = .a →
    m.record.status ≠ .blocked → OnChainA repo m.environ

/-- Two environments agree on what the middleware of Chain A reads. -/
def SameRmw (env env' : Environ) : Prop :=
  ∀ name ∈ ["RMW_IMPLEMENTATION", "ROS_DOMAIN_ID", "FASTRTPS_DEFAULT_PROFILES_FILE"],
    env name = env' name

private theorem source_chainASh (root : RepoRoot) (env : Environ) :
    source env (chainASh root) "RMW_IMPLEMENTATION" = some "rmw_fastrtps_cpp" ∧
      source env (chainASh root) "ROS_DOMAIN_ID" = some "42" ∧
      source env (chainASh root) "FASTRTPS_DEFAULT_PROFILES_FILE" =
        some (root.path ++ "/config/fastdds.xml") := by
  have henv : source env (chainASh root) = Function.update (Function.update
      (Function.update (Function.update
        ((Variables.ofEnviron env).exec (.assign "_ROS2_HZJ_ROOT" [.text root.path])).environ
        "RMW_IMPLEMENTATION" (some "rmw_fastrtps_cpp")) "ROS_DOMAIN_ID" (some "42"))
      "FASTRTPS_DEFAULT_PROFILES_FILE" (some (root.path ++ "/config/fastdds.xml")))
      "_ROS2_HZJ_ROOT" none := by
    simp only [source, chainASh, List.foldl_cons, List.foldl_nil, Variables.environ_unset,
      Variables.environ_exportAssign]
    simp [Variables.expand, Variables.exec]
  rw [henv]
  refine ⟨?_, ?_, ?_⟩ <;> simp

private theorem onChainA_source (repo : Repo) (env : Environ) :
    OnChainA repo (source env (chainASh repo.toRepoRoot)) := by
  obtain ⟨hrmw, hdomain, hprofiles⟩ := source_chainASh repo.toRepoRoot env
  exact ⟨hrmw, hdomain, _, hprofiles, repo.names_xml⟩

private theorem SameRmw.transfer {env env' : Environ} (h : SameRmw env env') (repo : Repo)
    (runner : Runner) : runner.sources env = runner.sources env' ∧
      rosDomainId env = rosDomainId env' ∧ (OnChainA repo env ↔ OnChainA repo env') := by
  simp only [SameRmw, List.forall_mem_cons] at h
  obtain ⟨hrmw, hdomain, hprofiles, -⟩ := h
  refine ⟨?_, ?_, ?_⟩
  · cases runner <;> rw [Runner.sources, Runner.sources, param, param, param, param, hrmw, hdomain]
    rw [param, param, hprofiles]
  · rw [rosDomainId, rosDomainId, paramOr, paramOr, param, param, hdomain]
  · rw [OnChainA, OnChainA, hrmw, hdomain, hprofiles]

private theorem sources_prepare (root : RepoRoot) (runner : Runner) (env : Environ) :
    runner.sources (runner.prepare root env) = false := by
  unfold Runner.prepare
  split
  · obtain ⟨hrmw, hdomain, hprofiles⟩ := source_chainASh root env
    cases runner <;> simp [Runner.sources, param, hrmw, hdomain, hprofiles]
  · next hnot => simpa using hnot

private theorem pingpong_measured {w : World} {args : Args} {env : Environ} {m : Measurement}
    (hm : pingpong w args env = some m) (hstatus : m.record.status ≠ .blocked)
    (hchain : args.chain = .a) : m.environ = env ∧ rosDomainId env ≠ none := by
  unfold pingpong at hm
  split at hm
  · cases hm
    contradiction
  · split at hm
    · contradiction
    · obtain ⟨cases, -, hm⟩ := Option.bind_eq_some_iff.mp hm
      rw [hchain] at hm
      obtain ⟨domain_id, hdomain, hm⟩ := Option.bind_eq_some_iff.mp hm
      cases hm
      exact ⟨rfl, by simp [hdomain]⟩

private theorem pingpong_blocked (w : World) (env : Environ) :
    pingpong w { chain := .a, topology := .crossHostUDP } env =
      some ⟨{ status := .blocked, chain := .a, topology := .crossHostUDP }, env⟩ := by
  unfold pingpong
  rw [if_pos ⟨rfl, by decide, by decide⟩]

/-- A record with measurements was written in the environment that the runner prepared. -/
theorem run_measured {repo : Repo} {runner : Runner} {w : World} {env : Environ} {m : Measurement}
    (hm : runner.run repo.toRepoRoot w env = some m) (hstatus : m.record.status ≠ .blocked) :
    m.environ = runner.prepare repo.toRepoRoot env ∧ rosDomainId m.environ ≠ none := by
  have hmeasured : ∀ args env', args.chain = .a → pingpong w args env' = some m →
      env' = runner.prepare repo.toRepoRoot env →
      m.environ = runner.prepare repo.toRepoRoot env ∧ rosDomainId m.environ ≠ none := by
    rintro args env' hchain hpingpong rfl
    obtain ⟨henviron, hdomain⟩ := pingpong_measured hpingpong hstatus hchain
    exact ⟨henviron, henviron ▸ hdomain⟩
  have hblocked : ∀ env', writeBlocked w env' ≠ some m := by
    intro env' hwrite
    rw [writeBlocked, pingpong_blocked] at hwrite
    cases hwrite
    contradiction
  cases runner with
  | chainA =>
    simp only [Runner.run, runChainA] at hm
    split at hm
    · exact absurd hm (hblocked env)
    · obtain ⟨topology, -, hm⟩ := Option.bind_eq_some_iff.mp hm
      split at hm
      · exact hmeasured _ _ rfl hm rfl
      · cases hm
        contradiction
  | crossHostA =>
    have hagain : Runner.crossHostA.prepare repo.toRepoRoot
        (Runner.crossHostA.prepare repo.toRepoRoot env) =
        Runner.crossHostA.prepare repo.toRepoRoot env := by
      rw [Runner.prepare, if_neg (by simp [sources_prepare])]
    simp only [Runner.run, runCrossHostA, hagain] at hm
    split_ifs at hm
    · exact absurd hm (hblocked _)
    · exact absurd hm (hblocked _)
    · exact absurd hm (hblocked _)
    · exact hmeasured _ _ rfl hm rfl
    · exact hmeasured _ _ rfl hm rfl

/-- An environment like the given one in which both runners get to their measurement. -/
def measuring (env : Environ) : Environ :=
  Function.update (Function.update (Function.update env "TOPOLOGY" none) "ROLE" (some "client"))
    "CROSS_HOST_PEER" (some "peer")

/-- A world with everything installed, where the one case records a sample. -/
def oneSample : World := ⟨true, true, true, fun _ _ ↦ some [.ok 1]⟩

private theorem pingpong_oneSample {env : Environ} {domain_id : ℤ}
    (hdomain : rosDomainId env = some domain_id) {args : Args} (hchain : args.chain = .a)
    (hrole : args.role = .client)
    (hpeer : args.topology ≠ .crossHostUDP ∨ Python.strip args.remote_peer ≠ "") :
    ∃ m, pingpong oneSample args env = some m ∧ m.record.chain = .a ∧ m.record.status = .ok ∧
      m.environ = env := by
  have hmeasures : ¬ (args.topology = .crossHostUDP ∧ args.role ≠ .responder ∧
      Python.strip args.remote_peer = "") := by
    rintro ⟨htopology, -, hempty⟩
    exact hpeer.elim (· htopology) (· hempty)
  have hnot : args.role ≠ .responder := by simp [hrole]
  rw [pingpong, if_neg hmeasures, if_neg hnot, hchain, hdomain]
  exact ⟨_, rfl, rfl, rfl, rfl⟩

/-- Where a runner keeps the inherited variables and the domain is a number, some run measures
under the inherited variables. -/
theorem exists_measured (root : RepoRoot) {runner : Runner} {env : Environ}
    (hkeeps : runner.sources env = false) {domain_id : ℤ}
    (hdomain : rosDomainId env = some domain_id)
    (hrun : env "TOPOLOGY" = none ∧ env "ROLE" = some "client" ∧
      env "CROSS_HOST_PEER" = some "peer") :
    ∃ m, runner.run root oneSample env = some m ∧ m.record.chain = .a ∧ m.record.status = .ok ∧
      m.environ = env := by
  obtain ⟨htopology, hrole, hpeer⟩ := hrun
  have hprepare : runner.prepare root env = env := by
    rw [Runner.prepare, if_neg (by simp [hkeeps])]
  cases runner with
  | chainA =>
    have hrun : Runner.chainA.run root oneSample env =
        pingpong oneSample { chain := .a, topology := .sameProcess } env := by
      simp only [Runner.run, runChainA, hprepare, paramOr, param, htopology, Option.getD_none,
        if_true]
      have hparse : parseTopology "same-process" = some .sameProcess := rfl
      rw [if_neg (by decide), hparse, Option.bind_some]
      exact if_pos rfl
    rw [hrun]
    exact pingpong_oneSample hdomain rfl rfl (Or.inl (by decide))
  | crossHostA =>
    have hrun : Runner.crossHostA.run root oneSample env =
        pingpong oneSample
          { chain := .a, topology := .crossHostUDP, remote_peer := "peer" } env := by
      simp only [Runner.run, runCrossHostA, hprepare, param, hrole, hpeer, Option.getD_some]
      rw [if_neg (by decide), if_neg (by decide), if_neg (by decide)]
      rfl
    rw [hrun]
    exact pingpong_oneSample hdomain rfl rfl (Or.inr (by decide))

/-- Whatever a runner inherits beside the three variables, and whatever is installed, its Chain A
records are true exactly when it sources `chain_a.sh`, when the three variables are those of
Chain A already, or when the domain is not a number. -/
theorem chainA_label_iff (repo : Repo) (runner : Runner) (inherited : Environ) :
    (∀ w env, SameRmw env inherited → LabelTrue repo runner w env) ↔
      runner.sources inherited = true ∨ OnChainA repo inherited ∨ rosDomainId inherited = none := by
  constructor
  · intro h
    by_contra hnot
    obtain ⟨hkeeps, hoff, hdomain⟩ : runner.sources inherited = false ∧
        ¬ OnChainA repo inherited ∧ rosDomainId inherited ≠ none := by
      simpa [not_or] using hnot
    obtain ⟨domain_id, hdomain⟩ := Option.ne_none_iff_exists'.mp hdomain
    have hsame : SameRmw (measuring inherited) inherited := by simp [SameRmw, measuring]
    obtain ⟨hsources, hdomain', hchain⟩ := hsame.transfer repo runner
    obtain ⟨m, hm, hlabel, hstatus, henviron⟩ := exists_measured repo.toRepoRoot
      (hsources.trans hkeeps) (hdomain'.trans hdomain) (by simp [measuring])
    have hon := h oneSample (measuring inherited) hsame m hm hlabel (by simp [hstatus])
    rw [henviron, hchain] at hon
    exact hoff hon
  · intro h w env hsame m hm _ hstatus
    obtain ⟨hsources, hdomain, hchain⟩ := hsame.transfer repo runner
    rw [← hsources, ← hchain, ← hdomain] at h
    obtain ⟨henviron, hmeasured⟩ := run_measured hm hstatus
    rw [henviron] at hmeasured ⊢
    unfold Runner.prepare at hmeasured ⊢
    split
    · exact onChainA_source repo env
    · next hkeeps =>
      rw [if_neg hkeeps] at hmeasured
      exact (h.resolve_left hkeeps).resolve_right hmeasured

/-- An operator who has sourced `chain_b.sh` gets Chain B measurements labelled Chain A. -/
theorem chainB_measured_as_chainA :
    ¬ ∀ (repo : Repo) (runner : Runner) (w : World) (env : Environ),
      LabelTrue repo runner w env := by
  intro h
  have hon := h ⟨⟨"/repo", by decide, by decide⟩, (· == "/repo/config/fastdds.xml"), by decide⟩
    .chainA oneSample (source (fun _ ↦ none) chainBSh) _ rfl rfl (by decide)
  exact absurd hon.1 (by decide)

end HzjDds.Env
