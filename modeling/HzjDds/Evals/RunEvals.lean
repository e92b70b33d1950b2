import HzjDds.Gates.Signatures
import HzjDds.Python.Escapes
import Mathlib.Data.Rat.Init
import Mathlib.Algebra.Order.Field.Basic
import Mathlib.Algebra.Order.Ring.Rat

/-!
# Running the evaluation suites

Source: `scripts/eval/run_evals.py:46–188`, `scripts/eval/_common.py:29–74`. What the modules of the
suites and their runners do is data of the run: they return objects of any kind, or something leaves
them.
-/

namespace HzjDds.Evals

open Python
open Gates.ApiSurface (CheckStatus)

/-! ## Results -/

/-- Values of JSON. -/
inductive Json where
  | null
  | bool (b : Bool)
  | num (q : ℚ)
  | str (s : String)
  | arr (items : List Json)
  | obj (fields : List (String × Json))

/-- `CheckResult`; its score is between zero and one. -/
structure CheckResult where
  name : String
  status : CheckStatus
  score : ℚ
  summary : String
  details : List (String × Json) := []
  scoreRange : 0 ≤ score ∧ score ≤ 1

/-- `CheckResult(…)`, whose `__post_init__` clamps the score. -/
def CheckResult.new (name : String) (status : CheckStatus) (score : ℚ) (summary : String)
    (details : List (String × Json)) : CheckResult where
  name := name
  status := status
  score := max 0 (min 1 score)
  summary := summary
  details := details
  scoreRange := ⟨le_max_left _ _, max_le zero_le_one (min_le_left _ _)⟩

/-- The name of a result with the one of its suite before it. -/
def CheckResult.inSuite (suite : String) (r : CheckResult) : CheckResult :=
  if startsWith r.name (suite ++ ".") then r else { r with name := suite ++ "." ++ r.name }

/-- What an object that is no result does not have. -/
inductive Lack where
  | name
  | status
  deriving DecidableEq, Repr

/-- An object that iterating over a returned value yields. One that can be used as a result is a
result; another one has an exception of its own for what it lacks. -/
inductive Item where
  | result (r : CheckResult)
  | other (lack : Lack) (raises : Escape)

/-- What iterating over an object yields, and what leaves it at the end, if anything does. -/
structure Iteration where
  items : List Item
  raises : Option Escape := none

/-- A value that a runner returns. An object that is no list may yield something else when it is
iterated over again. -/
inductive Value where
  | list (items : List Item)
  | other (first second : Iteration)

/-! ## Suites -/

/-- A suite: its key in `SUITES`, the file of its module, and what its module does in this run.
`spec` tells whether there is a loader for the file. Executing the module gives its attribute `run`,
if it has one: what calling it does. -/
structure Suite where
  name : String
  filename : String
  spec : Bool
  module : Ending (Option (Ending Value))

/-- `SUITES`, given what the modules of the files do. -/
def SUITES (spec : String → Bool) (module : String → Ending (Option (Ending Value))) :
    List Suite :=
  [("gate", "test_gates.py"), ("config", "test_config.py"),
    ("isolation", "test_chain_isolation.py"), ("api", "test_api_surface.py"),
    ("bench", "test_bench_wrapper.py")].map
      fun (name, filename) ↦ ⟨name, filename, spec filename, module filename⟩

/-- `repr` of a text without characters that need an escape. -/
def reprStr (s : String) : String :=
  if isIn "'" s ∧ ¬ isIn "\"" s then "\"" ++ s ++ "\"" else "'" ++ s ++ "'"

/-- An exception with one argument, a text. -/
def exnOf (typeName text : String) : Exn := ⟨typeName, text, typeName ++ "(" ++ reprStr text ++ ")"⟩

/-- `module_path.stem`, of a file name with a dot. -/
def stem (filename : String) : String :=
  .ofList ((filename.toList.reverse.dropWhile (· ≠ '.')).drop 1).reverse

/-- `_load_module`: the attribute `run` of the module. -/
def loadModule (evalDir : String) (suite : Suite) : Ending (Option (Ending Value)) :=
  if suite.spec then suite.module
  else .error (.exception (exnOf "RuntimeError"
    ("cannot load " ++ evalDir ++ "/" ++ suite.filename)))

/-- The body of the `try` statement of `run_suite`. -/
def callRunner (evalDir : String) (suite : Suite) : Ending Value := do
  match ← loadModule evalDir suite with
  | none => .error (.exception (exnOf "AttributeError"
    ("module '" ++ stem suite.filename ++ "' has no attribute 'run'")))
  | some results => results

/-- The result that stands for an exception. -/
def suiteError (suite : String) (exc : Exn) : CheckResult :=
  .new (suite ++ ".suite_error") .fail 0
    ("suite " ++ reprStr suite ++ " raised " ++ exc.typeName ++ ": " ++ exc.str)
    [("exception", .str exc.repr)]

/-- The body of the loop of `run_suite`. -/
def Item.rename (suite : String) : Item → Ending Item
  | .result r => .ok (.result (r.inSuite suite))
  | .other .name raises => .error raises
  | .other .status raises => .ok (.other .status raises)

/-- What leaves an iteration at its end. -/
def Iteration.finish (iteration : Iteration) : Ending Unit :=
  match iteration.raises with
  | none => .ok ()
  | some raises => .error raises

/-- The loop of `run_suite`, over a value that was returned. -/
def renameAll (suite : String) : Value → Ending Value
  | .list items => do return .list (← items.mapM (Item.rename suite))
  | .other first second => do
    let _ ← first.items.mapM (Item.rename suite)
    first.finish
    return .other first second

/-- `run_suite`. -/
def runSuite (evalDir : String) (suite : Suite) : Ending Value := do
  let results ← tryExcept (callRunner evalDir suite) fun exc ↦
    .ok (.list [.result (suiteError suite.name exc)])
  renameAll suite.name results

/-- `results.extend(…)`: what is added. -/
def Value.extend : Value → Ending (List Item)
  | .list items => .ok items
  | .other _ second => do
    second.finish
    return second.items

/-! ## The run -/

/-- `counts`. -/
structure Counts where
  passed : ℕ := 0
  failed : ℕ := 0
  blocked : ℕ := 0
  deriving DecidableEq, Repr

/-- `counts[status] += 1`. -/
def Counts.add (counts : Counts) : CheckStatus → Counts
  | .pass => { counts with passed := counts.passed + 1 }
  | .fail => { counts with failed := counts.failed + 1 }
  | .blocked => { counts with blocked := counts.blocked + 1 }

/-- `_summarize`, from the counts so far. -/
def summarize : Counts → List Item → Ending Counts
  | counts, [] => .ok counts
  | counts, .result r :: items => summarize (counts.add r.status) items
  | _, .other _ raises :: _ => .error raises

/-- `_overall_exit_code`. -/
def overallExitCode (counts : Counts) : ℕ :=
  if counts.failed > 0 then 1 else if counts.blocked > 0 then 2 else 0

/-- `item.to_dict()`. -/
def Item.toDict : Item → Ending CheckResult
  | .result r => .ok r
  | .other _ raises => .error raises

/-- Answers to `repo_root`: the working directory, the directory above the script, and whether
either has the file `config/fastdds.xml`. -/
structure Places where
  cwd : String
  cwdHas : Bool
  candidate : String
  candidateHas : Bool

/-- `repo_root`. -/
def repoRoot (places : Places) : Ending String :=
  if places.cwdHas then .ok places.cwd
  else if places.candidateHas then .ok places.candidate
  else .error (.systemExit ("eval: cannot locate repo root (looked in cwd and scripts/eval/). " ++
    "Run from the ros2 workspace."))

/-- Chains that `--chain` selects. -/
inductive Chain where
  | a
  | b
  | both
  deriving DecidableEq, Repr

/-- Parsed arguments. `suite` is `none` for `all`; `output` is what writing the report to the path
does, if one is given. -/
structure Args (suites : List Suite) where
  suite : Option { suite : Suite // suite ∈ suites } := none
  chain : Chain := .both
  output : Option (Ending Unit) := none

/-- Suites that are selected. -/
def Args.selected {suites : List Suite} (args : Args suites) : List Suite :=
  match args.suite with
  | none => suites
  | some suite => [suite.val]

/-- The report. -/
structure Report where
  suite : String
  chain : Chain
  repoRoot : String
  total : ℕ
  passed : ℕ
  failed : ℕ
  blocked : ℕ
  exitCode : ℕ
  results : List CheckResult

/-- A run: the suites that have been run, each with what it has added to the results, and the report
of `main`, which returns its exit code. -/
structure Run where
  ran : List (Suite × List Item)
  report : Ending Report

/-- The loop of `main` over the suites. -/
def collect (evalDir : String) :
    List Suite → List Item → List (Suite × List Item) × Ending (List Item)
  | [], results => ([], .ok results)
  | suite :: rest, results =>
    match runSuite evalDir suite >>= Value.extend with
    | .error e => ([(suite, [])], .error e)
    | .ok items =>
      let (ran, ending) := collect evalDir rest (results ++ items)
      ((suite, items) :: ran, ending)

/-- `main` behind the loop. -/
def finish {suites : List Suite} (root : String) (args : Args suites) (results : List Item) :
    Ending Report := do
  let counts ← summarize {} results
  let dicts ← results.mapM Item.toDict
  args.output.getD (.ok ())
  return {
    suite := args.suite.elim "all" (·.val.name)
    chain := args.chain
    repoRoot := root
    total := results.length
    passed := counts.passed
    failed := counts.failed
    blocked := counts.blocked
    exitCode := overallExitCode counts
    results := dicts }

/-- `main`, for any table of suites. -/
def main (places : Places) (evalDir : String) {suites : List Suite} (args : Args suites) : Run :=
  match repoRoot places with
  | .error e => ⟨[], .error e⟩
  | .ok root =>
    let (ran, results) := collect evalDir args.selected []
    ⟨ran, results >>= finish root args⟩

end HzjDds.Evals
