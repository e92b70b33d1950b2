import HzjDds.Gates.Fabricate

/-!
# The evidence gate

`scripts/check_dod_evidence.py`: the document about the product evidence keeps saying that it is
unmet and blocked, and the files around it are there.
-/

namespace HzjDds.Gates.DodEvidence

open Python Regex

def dodRel : String := "docs/architecture/feishu-dod-evidence.md"
def adrRel : String := "docs/architecture/feishu-middleware-adr.md"
def provenanceRel : String := "docs/architecture/feishu-runtime-provenance.md"
def mapRel : String := "docs/architecture/ros2-source-map.md"
def methodRel : String := "docs/architecture/latency-attribution.md"
def swapRel : String := "docs/architecture/unitree-sdk2-dds-swap.md"
def proveRmwRel : String := "scripts/prove_rmw.py"
def xmlRel : String := "config/fastdds.xml"
def scoreboardRel : String := "docs/artifacts/bench/SCOREBOARD.md"

def successMarker : String := "dod evidence: unmet (blocked)"
def dodUnmet : String := "DoD: unmet"
def statusBlocked : String := "STATUS: blocked"

/-- `_DOD_MARKERS`. -/
def dodMarkers : List String :=
  [dodUnmet, statusBlocked, "派生自", "Not Feishu field proof", "prove_rmw.py", "env", "字符串",
    "modified", ".so", "ROS not loaded", "Humble", "real build", "baseline-vs-change", "rollback",
    "acceptance", "feishu-runtime-provenance.md", "ros2-source-map.md", "latency-attribution.md",
    "SCOREBOARD", "pointer only", "fastdds.xml", "Agnocast", "zenoh", "《3》", "《4》", "《5》",
    "《6》", "Hold"]

/-- `_ADR_MARKERS`. -/
def adrMarkers : List String := ["§6.3", "prove_rmw.py", "feishu-dod-evidence.md"]

/-- `_FIVE_ITEMS`. -/
def fiveItems : List (String × List String) :=
  [("real build/test", ["real build", "build/test"]),
    ("modified .so beyond prove_rmw", ["modified", ".so", "prove_rmw"]),
    ("this-host baseline-vs-change", ["baseline-vs-change"]),
    ("rollback proof", ["rollback"]),
    ("product acceptance thresholds", ["acceptance"])]

/-- `_PROHIBITION_RE`. -/
def prohibitionRe : Regex :=
  words ["不要", "禁止", "不得", "不是", "do not", "not write", "not claim", "不得把", "不要把",
    "禁止把", "不发明", "未测", "没有"]

/-- `_STATUS_LINE_RE`. -/
def statusLineRe : Regex :=
  cat [lineStart, literalCI "Status:", spaces, anything, literalCI "DoD:", spaces,
    literalCI "unmet", anything, literalCI "STATUS:", spaces, literalCI "blocked"]

/-- `_STATUS_FABRICATE_RE`. -/
def statusFabricateRe (w : WordClass) : Regex :=
  statusRe w "STATUS:" ["PASS", "PROVEN", "OK", "SUCCESS", "met"]

/-- `_DOD_FABRICATE_RE`. -/
def dodFabricateRe (w : WordClass) : Regex :=
  statusRe w "DoD:" ["PASS", "PROVEN", "OK", "SUCCESS", "met"]

/-- `measured[- ]delta`. -/
def measuredDelta : Regex :=
  cat [literalCI "measured", char fun c ↦ c == '-' || c == ' ', literalCI "delta"]

/-- The third pattern of `_FABRICATE_RES`, with free gaps. -/
def thisHostRe : Regex :=
  cat [
    oneOf [cat [literalCI "this", char fun c ↦ c == '-' || c == ' ', literalCI "host"],
      literalCI "本机", literalCI "本自动化主机"],
    many true 0 (some 24) (· != '\n'),
    alt measuredDelta (literalCI "baseline-vs-change"),
    many true 0 (some 16) (· != '\n'),
    words ["PASS", "PROVEN", "OK", "测出"]]

/-- The first part of the fourth pattern of `_FABRICATE_RES`. -/
def humbleHere : Regex :=
  cat [literalCI "Humble", someSpaces, literalCI "runtime", someSpaces,
    words ["existed", "was present", "ran"], someSpaces, literalCI "here"]

/-- The second part of the fourth pattern of `_FABRICATE_RES`. -/
def hostHumble : Regex :=
  cat [literalCI "本机", words ["存在过", "跑过", "有过"], spaces, literalCI "Humble"]

/-- The fourth pattern of `_FABRICATE_RES`. -/
def humbleRe : Regex := alt humbleHere hostHumble

/-- `_FABRICATE_RES`. -/
def fabricateRes (w : WordClass) : List Regex :=
  [verdictRe w (alt (literalCI "dod evidence") (cat [literalCI "产品", spaces, literalCI "DoD"]))
      ["PASS", "PROVEN", "OK", "met"],
    verdictRe w measuredDelta ["PASS", "PROVEN", "OK", "yes", "met"],
    thisHostRe, humbleRe]

/-- `_fabricate_hits`. -/
def fabricateHits (w : WordClass) (text : String) : List String :=
  (statusFabricateRe w :: dodFabricateRe w :: fabricateRes w).flatMap fun pattern ↦
    finditerHits prohibitionRe pattern text.toList

/-- `_has_five_items`. -/
def hasFiveItems (text : String) : Bool × String :=
  let missing := (fiveItems.filter fun item ↦ !item.2.all (isIn · text)).map Prod.fst
  if missing ≠ [] then (false, "missing " ++ ", ".intercalate missing)
  else (true, "five product DoD items named (all expected unmet)")

def required : List Required :=
  [⟨dodRel, dodMarkers, "DoD: unmet + STATUS: blocked + five items"⟩,
    ⟨adrRel, adrMarkers, "§6.3 citation + this cut"⟩,
    ⟨provenanceRel, ["Underlay", "Vendor snapshot"], "underlay vs vendor pointer"⟩,
    ⟨mapRel, ["publish", "History"], "source-map pointer still present"⟩,
    ⟨methodRel, ["wiki", "DoD"], "latency method pointer still present"⟩,
    ⟨swapRel, ["drop-in FAIL"], "Unitree swap pointer still present"⟩,
    ⟨proveRmwRel, ["wiki3 §6.3", "ROS not loaded"], "env/string identity gate"⟩,
    ⟨xmlRel, [], "existence only; content freeze is boundary"⟩,
    ⟨scoreboardRel, [], "existence only; numbers not read; freeze is boundary"⟩]

/-- The part of `render` about the text of the evidence document. -/
def dodReport (w : WordClass) (text : String) : Report :=
  let items := hasFiveItems text
  let fabricated := fabricateHits w text
  let invented := findall percentileRe text
  .all [
    check (isIn dodUnmet text) ("- **ok phrase:** `" ++ dodUnmet ++ "`")
      ("DoD doc missing contiguous `" ++ dodUnmet ++ "`")
      "- **FAIL phrase:** need contiguous DoD unmet marker",
    check (isIn statusBlocked text) ("- **ok status:** `" ++ statusBlocked ++ "`")
      ("DoD doc missing contiguous `" ++ statusBlocked ++ "`")
      "- **FAIL status:** need contiguous STATUS blocked marker",
    check (search statusLineRe text.toList).isSome
      "- **ok status line:** Status header keeps DoD unmet + STATUS blocked"
      "DoD doc Status header is not DoD: unmet / STATUS: blocked"
      "- **FAIL status line:** Status header must keep DoD unmet + STATUS blocked",
    check items.1 ("- **ok items:** " ++ items.2) ("DoD doc " ++ items.2)
      ("- **FAIL items:** " ++ items.2),
    check fabricated.isEmpty
      "- **ok honesty:** no PASS/PROVEN/measured-delta/Humble-here claim"
      ("DoD doc fabricates product evidence: " ++ ", ".intercalate fabricated)
      "- **FAIL fabricate:** positive PASS/PROVEN/measured-delta/Humble-here",
    check invented.isEmpty "- **ok no invented booked percentile tokens**"
      ("DoD doc invents booked percentile token(s): " ++ ", ".intercalate (sortedSet invented))
      "- **FAIL percentiles:** do not invent booked pNN tokens"]

def frame : Frame where
  title := "# check_dod_evidence (wiki3 §6.3 DoD: unmet)"
  notes := [
    "Filesystem + honesty markers only. This is **not** a loaded",
    "modified `.so` proof, not a this-host measured-delta, and not",
    "Feishu field proof. prove_rmw.py stays an env/string identity",
    "gate. SCOREBOARD is the current-best pointer; this script does",
    "not copy its numbers. fastdds.xml / SCOREBOARD are",
    "existence-only in this script; the boundary job owns the",
    "content freeze. Cross-host stays blocked. 《3》–《6》 stay Hold.",
    "This cut does not claim Humble runtime existed here.",
    ""]
  markers := [successMarker]
  failed := "Required DoD evidence file, DoD unmet marker, STATUS blocked " ++
    "marker, five-item list, pointer doc, or Hold marker is gone, " ++
    "or the page fabricates PASS/PROVEN/measured-delta/Humble-here. " ++
    "Restore the docs (no XML) or the marker. Exit 1."
  healthy := "Product DoD evidence healthy: five items stay unmet, STATUS is " ++
    "blocked, prove_rmw stays env/string, and this host does not claim " ++
    "a measured-delta or Humble runtime. Exit 0."

/-- `render`. -/
def render (w : WordClass) (files : Files) : String × ℕ :=
  finish frame (.all (required.map (checkRequired files) ++
    [checkText files dodRel (dodReport w)]))

end HzjDds.Gates.DodEvidence
