import HzjDds.Gates.Fabricate

/-!
# The three-chain gate

`scripts/check_three_chain_repro.py`: the document about the three-chain reproduction keeps saying
that it is blocked, and the files around it are there.
-/

namespace HzjDds.Gates.ThreeChain

open Python Regex

def reproRel : String := "docs/architecture/feishu-three-chain-repro.md"
def mapRel : String := "docs/architecture/ros2-source-map.md"
def waitsetRel : String := "docs/architecture/feishu-executor-waitset.md"
def adrRel : String := "docs/architecture/feishu-middleware-adr.md"
def xmlRel : String := "config/fastdds.xml"
def scoreboardRel : String := "docs/artifacts/bench/SCOREBOARD.md"

def successMarker : String := "three-chain repro: blocked (map only)"
def mapNeReproduce : String := "map ≠ reproduce"
def statusBlocked : String := "STATUS: blocked"

/-- `_REPRO_MARKERS`. -/
def reproMarkers : List String :=
  [mapNeReproduce, statusBlocked, "publish", "History", "wait→callback", "WaitSet", "callback",
    "not-run-here", "Not Feishu field proof", "ros2-source-map.md", "feishu-executor-waitset.md",
    "Humble", "fastdds.xml", "SCOREBOARD", "Agnocast", "zenoh"]

/-- `_PROHIBITION_RE`. -/
def prohibitionRe : Regex :=
  words ["不要", "禁止", "不得", "不是", "do not", "not write", "not claim", "不得把", "不要把"]

/-- `_STATUS_FABRICATE_RE`. -/
def statusFabricateRe (w : WordClass) : Regex :=
  statusRe w "STATUS:" ["PASS", "PROVEN", "OK", "SUCCESS"]

/-- `_FABRICATE_RES`. -/
def fabricateRes (w : WordClass) : List Regex :=
  [verdictRe w
      (alt (cat [literalCI "three-chain", someSpaces, literalCI "repro"]) (literalCI "三条链复现"))
      ["PASS", "PROVEN", "OK"],
    verdictRe w (cat [wordBoundary w, literalCI "reproduce"]) ["PASS", "PROVEN"],
    cat [wordBoundary w, literalCI "map", spaces, literalCI "=", spaces, literalCI "reproduce",
      wordBoundary w]]

/-- `_fabricate_hits`: of the patterns after the first only one match each is looked at. -/
def fabricateHits (w : WordClass) (text : String) : List String :=
  finditerHits prohibitionRe (statusFabricateRe w) text.toList ++
    (fabricateRes w).flatMap fun pattern ↦ searchHits prohibitionRe pattern text.toList

/-- What `_has_three_chains` returns for what it finds. -/
def chainDetail (hasPublish hasHistory hasWait : Bool) : Bool × String :=
  if hasPublish && hasHistory && hasWait then
    (true, "publish / History / wait→callback (or WaitSet/callback)")
  else
    (false, "missing " ++ ", ".intercalate
      ((if hasPublish then [] else ["publish"]) ++ (if hasHistory then [] else ["History"]) ++
        if hasWait then [] else ["wait→callback or WaitSet/callback"]))

/-- `_has_three_chains`. -/
def hasThreeChains (text : String) : Bool × String :=
  chainDetail (isIn "publish" text) (isIn "History" text)
    (isIn "wait→callback" text || isIn "wait->callback" text ||
      isIn "WaitSet" text && isIn "callback" text)

def required : List Required :=
  [⟨reproRel, reproMarkers, "map ≠ reproduce + STATUS: blocked"⟩,
    ⟨mapRel, ["publish", "History"], "map file still present"⟩,
    ⟨waitsetRel, ["WaitSet", "callback"], "wait→callback map still present"⟩,
    ⟨adrRel, ["§13"], "ADR still cites §13"⟩,
    ⟨xmlRel, [], "existence only; content freeze is boundary"⟩,
    ⟨scoreboardRel, [], "existence only; numbers not read; freeze is boundary"⟩]

/-- The part of `render` about the text of the status document. -/
def reproReport (w : WordClass) (text : String) : Report :=
  let chains := hasThreeChains text
  let fabricated := fabricateHits w text
  .all [
    check (isIn mapNeReproduce text) ("- **ok phrase:** `" ++ mapNeReproduce ++ "`")
      ("repro doc missing contiguous `" ++ mapNeReproduce ++ "`")
      ("- **FAIL phrase:** need `" ++ mapNeReproduce ++ "`"),
    check (isIn statusBlocked text) ("- **ok status:** `" ++ statusBlocked ++ "`")
      ("repro doc missing contiguous `" ++ statusBlocked ++ "`")
      ("- **FAIL status:** need `" ++ statusBlocked ++ "`"),
    check chains.1 ("- **ok chains:** " ++ chains.2) ("repro doc " ++ chains.2)
      ("- **FAIL chains:** " ++ chains.2),
    check fabricated.isEmpty "- **ok honesty:** no PASS/PROVEN reproduce claim"
      ("repro doc fabricates reproduce: " ++ ", ".intercalate fabricated)
      ("- **FAIL fabricate:** " ++ ", ".intercalate fabricated)]

def frame : Frame where
  title := "# check_three_chain_repro (wiki3 §13(2) map ≠ reproduce)"
  notes := [
    "Filesystem + honesty markers only. This is **not** a loaded",
    "`.so` proof, not a percentile, and not Feishu field proof.",
    "A healthy source map is not a reproduce. This host has no",
    "ROS Humble runtime; keep STATUS: blocked. fastdds.xml /",
    "SCOREBOARD are existence-only in this script; the boundary",
    "job owns the content freeze. Agnocast / zenoh stay Hold.",
    ""]
  markers := [successMarker]
  failed := "Required three-chain status doc, map≠reproduce phrase, " ++
    "STATUS: blocked, chain names, or sibling map file is gone " ++
    "(or the doc claims PASS/PROVEN). Restore the docs (no XML) " ++
    "or the honest blocked marker. Exit 1."
  healthy := "Three-chain reproduce record healthy: map ≠ reproduce and " ++
    "STATUS: blocked (map only). Exit 0."

/-- `render`. -/
def render (w : WordClass) (files : Files) : String × ℕ :=
  finish frame (.all (required.map (checkRequired files) ++
    [checkText files reproRel (reproReport w)]))

end HzjDds.Gates.ThreeChain
