import HzjDds.Gates.Fabricate

/-!
# The Cega and Bridge gate

`scripts/check_cega_bridge_hold.py`: the hold document and the row of the decision record keep
saying that the integration is on hold, and the files around them are there.
-/

namespace HzjDds.Gates.CegaBridge

open Python Regex

def holdRel : String := "docs/architecture/feishu-cega-bridge-hold.md"
def adrRel : String := "docs/architecture/feishu-middleware-adr.md"
def xmlRel : String := "config/fastdds.xml"
def scoreboardRel : String := "docs/artifacts/bench/SCOREBOARD.md"

def successMarker : String := "§13(4) Cega / Bridge: Hold"

/-- `_HOLD_MARKERS`. -/
def holdMarkers : List String :=
  ["STATUS: Hold", "Hold", "no Cega", "不接 Cega", "no dimos_bridge runtime edits this cut",
    "no XML/SCOREBOARD", "fastdds.xml", "SCOREBOARD", "《3》", "《4》", "《5》", "《6》",
    "《3》–《6》", "Agnocast", "zenoh", "三条链", "DoD", "blocked", "unmet", "drop-in FAIL",
    "派生自", "dimos_bridge", "ROSTransport", "DDSTransport", "ZenohTransport", "Unitree"]

/-- `_ADR_MARKERS`. -/
def adrMarkers : List String := ["§13", "不接 Cega", "dimos_bridge"]

/-- `^\s*\|\s*\(4\)\s*\|\s*Cega / Bridge 后置\s*\|\s*`. -/
def adrRowStart : Regex :=
  cat [lineStart, spaces, literal "|", spaces, literal "(4)", spaces, literal "|", spaces,
    literal "Cega / Bridge 后置", spaces, literal "|", spaces]

/-- `_ADR_ROW_RE`; group 1 is the status cell. -/
def adrRowRe : Regex :=
  cat [adrRowStart, group 1 (many false 0 none (· != '\n')), spaces, literal "|", spaces, lineEnd]

/-- `integrat(?:e|ed|ion)\s+Cega`. -/
def integratCega : Regex :=
  cat [literalCI "integrat", oneOf [literalCI "e", literalCI "ed", literalCI "ion"], someSpaces,
    literalCI "Cega"]

/-- `_CELL_POSITIVE_RE`. -/
def cellPositiveRe (w : WordClass) : Regex :=
  oneOf [
    cat [wordBoundary w, words ["PASS", "PROVEN", "Active", "OK", "SUCCESS"], wordBoundary w],
    cat [literalCI "已接", spaces, literalCI "Cega"],
    cat [literalCI "接入", spaces, literalCI "Cega"],
    integratCega]

/-- `_PROHIBITION_RE`. -/
def prohibitionRe : Regex :=
  words ["不要", "禁止", "不得", "不是", "不会", "do not", "not write", "not claim", "不得把",
    "不要把", "禁止把", "不发明", "不接", "未接"]

/-- `_STATUS_FABRICATE_RE`. -/
def statusFabricateRe (w : WordClass) : Regex :=
  statusRe w "STATUS:" ["PASS", "PROVEN", "OK", "SUCCESS", "Active"]

/-- `_CEGA_FABRICATE_RES`. -/
def cegaFabricateRes (w : WordClass) : List Regex :=
  [verdictRe w (cat [literalCI "Cega", spaces, literalCI "/", spaces, literalCI "Bridge"])
      ["PASS", "PROVEN", "OK", "SUCCESS", "Active"],
    cat [literal "已接", spaces, literal "Cega"],
    integratCega]

/-- `_RUNTIME_RELS`. -/
def runtimeRels : List String :=
  ["dimos_bridge/dimos/core/transport.py",
    "dimos_bridge/dimos/protocol/pubsub/impl/rospubsub.py",
    "dimos_bridge/dimos/protocol/pubsub/impl/ddspubsub.py",
    "dimos_bridge/dimos/protocol/pubsub/impl/rospubsub_conversion.py",
    "dimos_bridge/dimos/protocol/service/ddsservice.py",
    "dimos_bridge/dimos/protocol/dds_topics.py",
    "dimos_bridge/dimos/robot/unitree/go2/blueprints/smart/unitree_go2_ros.py",
    "dimos_bridge/dimos/robot/unitree/g1/effectors/high_level/dds_sdk.py",
    "dimos_bridge/SOURCE.md"]

/-- `_first_status_line`. -/
def firstStatusLine (text : String) : Option String :=
  (splitlines text).find? (startsWith · "Status:")

/-- `_adr_row_cell`. -/
def adrRowCell (text : String) : Option String :=
  (search adrRowRe text.toList).map fun m ↦ .ofList ((m.groups.lookup 1).getD [])

/-- `_adr_row_ok`. -/
def adrRowOk (w : WordClass) (text : String) : Bool :=
  match adrRowCell text with
  | none => false
  | some cell =>
    startsWith (lstrip cell) "**Hold**" && (search (cellPositiveRe w) cell.toList).isNone

/-- `_fabricate_hits`. -/
def fabricateHits (w : WordClass) (text : String) : List String :=
  (statusFabricateRe w :: cegaFabricateRes w).flatMap fun pattern ↦
    finditerHits prohibitionRe pattern text.toList

/-- `re.sub` of the row up to its status by group 1 and a new text, once. -/
def rewriteRow (row : Regex) (rewritten text : String) : String :=
  .ofList (subOnce row (fun m ↦ (m.groups.lookup 1).getD [] ++ rewritten.toList) text.toList)

/-- `_row_self_check`. -/
def rowSelfCheck (w : WordClass) (adrText : String) : List String :=
  let passRow := rewriteRow (cat [group 1 adrRowStart, literal "**Hold**"]) "**PASS**" adrText
  let holdPlus := rewriteRow (group 1 (cat [adrRowStart, literal "**Hold**"]))
    " … PASS / 已接 Cega" adrText
  (if adrRowOk w passRow then ["self-check: (4) **PASS** rewrite still matched"] else []) ++
    if adrRowOk w holdPlus then ["self-check: (4) **Hold** … PASS cell still matched"] else []

def required : List Required :=
  [⟨holdRel, holdMarkers, "STATUS: Hold + no Cega + no runtime edits"⟩,
    ⟨adrRel, adrMarkers, "opened; §13(4) row checked separately"⟩,
    ⟨xmlRel, [], "existence only; content freeze is boundary"⟩,
    ⟨scoreboardRel, [], "existence only; numbers not read; freeze is boundary"⟩]

/-- A failure that is reported for each of some items. -/
def failEach (items : List String) (failure line : String → String) : Report :=
  ⟨items.map line, items.map failure⟩

/-- The part of `render` about the text of the decision record. -/
def adrReport (w : WordClass) (text : String) : Report :=
  .all [
    check (adrRowOk w text)
      ("- **ok ADR §13(4) row:** `| (4) | Cega / Bridge 后置 | **Hold**`" ++
        " (full cell; no PASS / 已接 Cega)")
      ("ADR missing `| (4) | Cega / Bridge 后置 | **Hold**` " ++
        "cell without PASS / 已接 Cega")
      ("- **FAIL ADR row:** need `| (4) | Cega / Bridge 后置 | " ++
        "**Hold**` and no PASS / 已接 Cega in that cell"),
    failEach (rowSelfCheck w text) (fun item ↦ item) fun item ↦ "- **FAIL " ++ item ++ "**",
    failEach (fabricateHits w text) ("ADR positive claim: " ++ ·) fun hit ↦
      "- **FAIL fabricate ADR:** `" ++ hit ++ "`"]

/-- The check of the first status line. -/
def statusLineReport (w : WordClass) (text : String) : Report :=
  match firstStatusLine text with
  | some firstStatus =>
    if startsWith firstStatus "Status: **Hold**" then
      check (search (statusFabricateRe w) firstStatus.toList).isNone
        "- **ok status header:** first `Status:` is `**Hold**`"
        "hold doc first Status line claims PASS/PROVEN/Active"
        ("- **FAIL status:** first `Status:` must stay Hold, " ++ "not PASS")
    else
      ⟨["- **FAIL status:** first `Status:` must be `Status: **Hold**`"],
        ["hold doc first `Status:` line is not `Status: **Hold**`"]⟩
  | none =>
    ⟨["- **FAIL status:** first `Status:` must be `Status: **Hold**`"],
      ["hold doc first `Status:` line is not `Status: **Hold**`"]⟩

/-- The check of the phase markers. -/
def phaseReport (text : String) : Report :=
  let missingPhase := ["《3》", "《4》", "《5》", "《6》"].filter fun m ↦ !isIn m text
  check missingPhase.isEmpty "- **ok phase Hold:** 《3》–《6》"
    ("hold doc missing phase marker(s): " ++ ", ".intercalate missingPhase)
    ("- **FAIL 《3》–《6》:** need " ++ ", ".intercalate missingPhase)

/-- The part of `render` about the text of the hold document. -/
def holdReport (w : WordClass) (text : String) : Report :=
  .all [
    statusLineReport w text,
    check (isIn "STATUS: Hold" text) "- **ok status phrase:** `STATUS: Hold`"
      "hold doc missing contiguous `STATUS: Hold`" "- **FAIL status:** need `STATUS: Hold`",
    failEach (fabricateHits w text) ("hold doc positive claim: " ++ ·) fun hit ↦
      "- **FAIL fabricate hold:** `" ++ hit ++ "`",
    check (isIn "no Cega" text && isIn "不接 Cega" text)
      "- **ok no-Cega phrases:** `no Cega` / `不接 Cega`"
      "hold doc missing `no Cega` / `不接 Cega`"
      "- **FAIL no Cega:** need `no Cega` and `不接 Cega`",
    check (isIn "no dimos_bridge runtime edits this cut" text)
      "- **ok runtime freeze:** `no dimos_bridge runtime edits this cut`"
      "hold doc missing `no dimos_bridge runtime edits this cut`"
      ("- **FAIL runtime edits:** need " ++ "`no dimos_bridge runtime edits this cut`"),
    check (isIn "no XML/SCOREBOARD" text) "- **ok freeze phrase:** `no XML/SCOREBOARD`"
      "hold doc missing `no XML/SCOREBOARD`" "- **FAIL XML/SCOREBOARD:** need `no XML/SCOREBOARD`",
    phaseReport text]

/-- One round of the loop over the runtime files. -/
def runtimeReport (files : Files) (rel : String) : Report :=
  check (files rel).isSome
    ("- **ok runtime path:** `" ++ rel ++ "` (existence only; not edited here)")
    ("missing read-only runtime `" ++ rel ++ "`") ("- **FAIL missing runtime:** `" ++ rel ++ "`")

def frame : Frame where
  title := "# check_cega_bridge_hold (wiki3 §13(4) Cega / Bridge Hold)"
  notes := [
    "Filesystem + Hold markers only. This is **not** a Cega",
    "integration, not a percentile, and not Feishu field proof.",
    "dimos_bridge runtime paths are existence-only; this script",
    "does not hash them and does not edit them.",
    "fastdds.xml / SCOREBOARD are existence-only in this script;",
    "the boundary job owns the content freeze. Agnocast / zenoh",
    "stay Hold. 《3》–《6》 stay Hold. Three-chain / DoD stay",
    "unmet / blocked. Unitree drop-in stays FAIL.",
    ""]
  markers := [successMarker]
  failed := "Required Hold doc, no Cega / no dimos_bridge runtime-edit " ++
    "marker, no XML/SCOREBOARD, 《3》–《6》 Hold, ADR §13(4), " ++
    "or read-only runtime path is gone. Restore the docs (no XML) " ++
    "or the marker. Exit 1."
  healthy := "Cega / Bridge Hold healthy: STATUS Hold, no Cega, no " ++
    "dimos_bridge runtime edits this cut, no XML/SCOREBOARD, " ++
    "《3》–《6》 Hold. Exit 0."

/-- `render`. -/
def render (w : WordClass) (files : Files) : String × ℕ :=
  finish frame (.all (required.map (checkRequired files) ++
    [checkText files adrRel (adrReport w), checkText files holdRel (holdReport w)] ++
    runtimeRels.map (runtimeReport files)))

end HzjDds.Gates.CegaBridge
