import HzjDds.Gates.Report

/-!
# The dual-chain gate

`scripts/check_dual_chain_baseline.py`: the document about the two chains keeps pointing at the
scoreboard only, and the environment scripts of the chains still make their settings.
-/

namespace HzjDds.Gates.DualChain

open Python Regex

def baselineRel : String := "docs/architecture/feishu-dual-chain-baseline.md"
def adrRel : String := "docs/architecture/feishu-middleware-adr.md"
def chainARel : String := "config/env/chain_a.sh"
def chainBRel : String := "config/env/chain_b.sh"
def xmlRel : String := "config/fastdds.xml"
def scoreboardRel : String := "docs/artifacts/bench/SCOREBOARD.md"
def r0Rel : String := "docs/architecture/ros2-dds-r0-interface-freeze.md"
def mapRel : String := "docs/architecture/ros2-source-map.md"
def swapRel : String := "docs/architecture/unitree-sdk2-dds-swap.md"

def successMarker : String := "dual-chain baseline: pointer only (no XML rewrite)"
def pausedMarker : String := "same-topology XML tuning is paused"
def mapVerdict : String := "map≠reproduce"
def noRewrite : String := "no XML rewrite"

/-- `_BASELINE_MARKERS`. -/
def baselineMarkers : List String :=
  ["§13", "rmw_fastrtps_cpp", "ROS_DOMAIN_ID=42", "chain_a.sh", "fastdds.xml", "只读",
    "rmw_cyclonedds_cpp", "域 0", "chain_b.sh", "CYCLONEDDS_URI", "SCOREBOARD", "pointer only",
    noRewrite, "STATUS: blocked", "cross-host", "three-chain", mapVerdict, "drop-in FAIL",
    "0.10.2", "11.0.1", "派生自", "Not Feishu field proof", "《3》", "《4》", "《5》", "《6》",
    "Hold"]

/-- `_ADR_MARKERS`. -/
def adrMarkers : List String :=
  ["FastDDS + Cyclone", "不重写 XML", "SCOREBOARD", "feishu-dual-chain-baseline.md"]

/-- `(?m)^\s*command\s+assignment\s*$`. -/
def assignmentRe (command assignment : String) : Regex :=
  cat [lineStart, spaces, literal command, someSpaces, literal assignment, spaces, lineEnd]

/-- `_EXPORT_CHAIN_A`. -/
def exportChainA : List Regex :=
  [assignmentRe "export" "RMW_IMPLEMENTATION=rmw_fastrtps_cpp",
    assignmentRe "export" "ROS_DOMAIN_ID=42",
    cat [lineStart, spaces, literal "export", someSpaces,
      literal "FASTRTPS_DEFAULT_PROFILES_FILE=", anything, literal "config/fastdds.xml"]]

/-- `_EXPORT_CHAIN_B`. -/
def exportChainB : List Regex :=
  [assignmentRe "export" "RMW_IMPLEMENTATION=rmw_cyclonedds_cpp",
    assignmentRe "export" "ROS_DOMAIN_ID=0"]

/-- `_EXPORT_CYCLONE_URI_RE`. -/
def exportCycloneUriRe : Regex :=
  cat [lineStart, spaces, literal "export", someSpaces, literal "CYCLONEDDS_URI", spaces,
    literal "="]

/-- `_UNSET_CYCLONE_URI_RE`. -/
def unsetCycloneUriRe : Regex := assignmentRe "unset" "CYCLONEDDS_URI"

/-- `_missing_exports`. -/
def missingExports (text : String) (patterns : List Regex) : List Regex :=
  patterns.filter fun pattern ↦ (search pattern text.toList).isNone

def required : List Required :=
  [⟨baselineRel, baselineMarkers, "dual-chain contracts + Hold + pointer-only"⟩,
    ⟨adrRel, adrMarkers, "§13(3) row pointer; no XML rewrite"⟩,
    ⟨chainARel, [], "opened; export assignments checked separately"⟩,
    ⟨chainBRel, [], "opened; export assignments + no URI export"⟩,
    ⟨r0Rel, ["Hold"], "dual-chain R0 freeze exists"⟩,
    ⟨mapRel, ["vendor", "不是复现"], "three-chain map exists (not a reproduce)"⟩,
    ⟨swapRel, ["drop-in FAIL", "0.10.2", "11.0.1"], "Unitree 0.10.2 vs vendor 11.0.1"⟩,
    ⟨xmlRel, [], "existence only; content freeze is boundary"⟩,
    ⟨scoreboardRel, [], "existence only; numbers not read; freeze is boundary"⟩]

/-- The part of `render` about the text of the baseline document. -/
def baselineReport (text : String) : Report :=
  let invented := findall percentileRe text
  .all [
    check (isIn pausedMarker text) "- **ok paused phrase:** present in baseline doc"
      "baseline doc missing contiguous same-topology paused phrase"
      "- **FAIL paused:** need same-topology paused phrase",
    check (isIn mapVerdict text) "- **ok three-chain phrase:** present"
      "baseline doc missing contiguous three-chain map verdict"
      "- **FAIL map:** need three-chain map verdict",
    check (isIn noRewrite text) "- **ok no-rewrite phrase:** present"
      "baseline doc missing contiguous no-XML-rewrite phrase"
      "- **FAIL rewrite:** need no-XML-rewrite phrase",
    check (isIn "pointer only" text) "- **ok SCOREBOARD phrase:** pointer-only present"
      "baseline doc missing SCOREBOARD pointer-only phrase"
      "- **FAIL pointer:** need pointer-only phrase",
    check invented.isEmpty "- **ok no invented booked percentile tokens**"
      ("baseline doc invents booked percentile token(s): " ++
        ", ".intercalate (sortedSet invented))
      "- **FAIL percentiles:** do not invent booked pNN tokens"]

/-- The part of `render` about the text of the script of chain A. -/
def chainAReport (text : String) : Report :=
  check (missingExports text exportChainA).isEmpty
    "- **ok chain A:** anchored export assignments"
    "chain_a.sh missing anchored export assignment(s)"
    "- **FAIL chain A:** need anchored export assignments"

/-- The part of `render` about the text of the script of chain B. -/
def chainBReport (text : String) : Report :=
  .all [
    check (missingExports text exportChainB).isEmpty
      "- **ok chain B:** anchored export assignments"
      "chain_b.sh missing anchored export assignment(s)"
      "- **FAIL chain B:** need anchored export assignments",
    if (search exportCycloneUriRe text.toList).isSome then
      ⟨["- **FAIL chain B:** helper must not export CYCLONEDDS_URI"],
        ["chain_b.sh exports CYCLONEDDS_URI (helper must not set it)"]⟩
    else
      check (search unsetCycloneUriRe text.toList).isSome
        ("- **ok chain B:** helper unsets CYCLONEDDS_URI " ++
          "(aligns with load.py CHAIN_B_UNSET)")
        "chain_b.sh missing anchored unset CYCLONEDDS_URI"
        "- **FAIL chain B:** need anchored unset CYCLONEDDS_URI"]

def frame : Frame where
  title := "# check_dual_chain_baseline (wiki3 §13(3) FastDDS + Cyclone)"
  notes := [
    "Filesystem + contract / Hold markers only. This is **not** a",
    "latency measurement, not a booked-percentile reprint, and not",
    "Feishu field proof. SCOREBOARD is the current-best pointer;",
    "this script does not copy its numbers. fastdds.xml /",
    "SCOREBOARD are existence-only in this script; the boundary",
    "job owns the content freeze. Cross-host stays blocked.",
    "three-chain stays map-only. Unitree 0.10.2 vs vendor 11.0.1",
    "stays drop-in FAIL. 《3》–《6》 stay Hold. This cut does not",
    "rewrite XML. chain_b.sh unsets CYCLONEDDS_URI.",
    ""]
  markers := [successMarker, pausedMarker]
  failed := "Required dual-chain baseline pointer, contract marker, " ++
    "no-XML-rewrite phrase, SCOREBOARD pointer-only, cross-host " ++
    "blocked, or 《3》–《6》 Hold marker is gone. Restore the " ++
    "docs (no XML) or the marker. Exit 1."
  healthy := "Dual-chain baseline healthy: chain A/B contracts exist, this cut " ++
    "does not rewrite XML, SCOREBOARD stays pointer-only, cross-host " ++
    "is blocked, and 《3》–《6》 stay Hold. Exit 0."

/-- `render`. -/
def render (files : Files) : String × ℕ :=
  finish frame (.all (required.map (checkRequired files) ++
    [checkText files baselineRel baselineReport, checkText files chainARel chainAReport,
      checkText files chainBRel chainBReport]))

end HzjDds.Gates.DualChain
