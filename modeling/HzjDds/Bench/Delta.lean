import HzjDds.Python.Dict
import HzjDds.Python.Text
import Mathlib.Data.List.Count
import Mathlib.Algebra.Order.AbsoluteValue.Basic
import Mathlib.Data.Rat.Cast.Order

/-!
# The delta report of two benchmark runs

Library `Bench`. Source: `scripts/bench/write_delta.py:11–156`. The cases of either file are indexed
by name, size and QoS, and the rows of both tables are the keys of the two indexes.
-/

namespace HzjDds.Bench

open HzjDds.Python

/-- A statistic of a case, as `json.loads` and `float` take it. -/
inductive StatValue where
  | number (x : ℚ)
  | nan
  | other
  deriving DecidableEq, Repr

/-- An entry of `cases` of a raw file, with the fields that the report reads or names. -/
structure DeltaCase where
  name : Option String := none
  qos : Option String := none
  payload_len_bytes : Option ℤ := none
  msg_size_bytes : Option ℤ := none
  inter_message_gap_ms : Option ℚ := none
  ros_msg : Option String := none
  error : Option String := none
  stats : List (String × StatValue) := []
  deriving DecidableEq, Repr

/-- A raw file. -/
structure RawFile where
  chain : Option String := none
  topology : Option String := none
  payload_sizes_bytes : Option (List ℤ) := none
  inter_message_gap_ms : Option ℚ := none
  target_publish_hz : Option ℚ := none
  ros_msg : Option String := none
  cases : List DeltaCase := []
  deriving DecidableEq, Repr

/-- What `_key` returns. -/
structure CaseKey where
  name : Option String
  size : ℤ
  qos : Option String
  deriving DecidableEq, Repr

/-- An integer as an operand of `or`: zero counts as missing. -/
def truthy : Option ℤ → Option ℤ
  | some 0 => none
  | value => value

/-- `_key`. -/
def DeltaCase.key (c : DeltaCase) : CaseKey where
  name := c.name
  size := (truthy c.payload_len_bytes <|> truthy c.msg_size_bytes).getD (-1)
  qos := c.qos

/-- The dictionary that `load_cases` returns. -/
def RawFile.loadCases (raw : RawFile) : Dict CaseKey DeltaCase :=
  raw.cases.foldl (fun cases c ↦ if c.error.isSome then cases else cases.set c.key c) Dict.empty

/-- A key of both dictionaries, with the cases `b` and `a` that it stands for. -/
structure DeltaRow where
  key : CaseKey
  base : DeltaCase
  after : DeltaCase
  deriving DecidableEq, Repr

/-- `keys`. -/
def commonKeys (base_cases after_cases : Dict CaseKey DeltaCase) : List CaseKey :=
  base_cases.keys.filter fun k ↦ decide (k ∈ after_cases.keys)

/-- `b, a = base_cases[key], after_cases[key]`. -/
def deltaRow (base_cases after_cases : Dict CaseKey DeltaCase) (key : CaseKey) : Option DeltaRow :=
  match base_cases.get? key, after_cases.get? key with
  | some b, some a => some ⟨key, b, a⟩
  | _, _ => none

/-- The keys with the cases that they stand for. -/
def deltaRows (base_cases after_cases : Dict CaseKey DeltaCase) : List DeltaRow :=
  (commonKeys base_cases after_cases).filterMap (deltaRow base_cases after_cases)

/-! ## Cells -/

/-- Python's texts of numbers: `f"{x:.nf}"`, `f"{x:+.nf}"` and `str(x)`. -/
structure NumberFormat where
  fixed : ℕ → ℚ → String
  signed : ℕ → ℚ → String
  str : ℚ → String

/-- `str(v)` of a value that may be missing. -/
def strOr {α : Type} (str : α → String) : Option α → String
  | some x => str x
  | none => "None"

/-- `_pct(case.get(stat))`. -/
def DeltaCase.pct (c : DeltaCase) (stat : String) : Option ℚ :=
  match c.stats.lookup stat with
  | some (.number x) => some x
  | _ => none

namespace NumberFormat

variable (format : NumberFormat)

/-- `_fmt` of a number. -/
def fmt (v : ℚ) : String :=
  if 1000 ≤ |v| then format.fixed 1 v
  else if 10 ≤ |v| then format.fixed 2 v
  else format.fixed 3 v

/-- `base → after`. -/
def arrow (bv av : ℚ) : String := format.fmt bv ++ " → " ++ format.fmt av

/-- `{pct:+.2f}%`, when the baseline is not zero. -/
def percent (bv av : ℚ) : Option String :=
  if bv = 0 then none else some (format.signed 2 ((av - bv) / bv * 100) ++ "%")

/-- The first two cells of a row. -/
def rowHead (row : DeltaRow) : List String :=
  ["`" ++ strOr id row.key.name ++ "`", toString row.key.size]

/-- A cell with a difference, of the first table. -/
def deltaCell (row : DeltaRow) (stat : String) : String :=
  match row.base.pct stat, row.after.pct stat with
  | some bv, some av =>
    match format.percent bv av with
    | some pct => format.arrow bv av ++ " (" ++ format.fmt (av - bv) ++ ", " ++ pct ++ ")"
    | none => format.arrow bv av
  | _, _ => "—"

/-- A cell without a difference. -/
def arrowCell (row : DeltaRow) (stat : String) : String :=
  match row.base.pct stat, row.after.pct stat with
  | some bv, some av => format.arrow bv av
  | _, _ => "—"

/-- A row of the jitter table. -/
def jitterCells (row : DeltaRow) : List String :=
  rowHead row ++ ["p95_us", "p99_us"].map (format.deltaCell row) ++
    ["rtt_jitter_p95_minus_p50_us", "pub_interval_stdev_us", "pub_interval_jitter_abs_p95_us",
      "pub_interval_jitter_abs_p99_us", "arrival_interval_stdev_us",
      "arrival_interval_jitter_abs_p95_us"].map (format.arrowCell row)

/-- The cells of one statistic in the table of the round-trip times. -/
def rttStatCells (row : DeltaRow) (stat : String) : List String :=
  match row.base.pct stat, row.after.pct stat with
  | some bv, some av =>
    [format.arrow bv av, format.fmt (av - bv), (format.percent bv av).getD "—"]
  | _, _ => ["—", "—", "—"]

/-- A row of the table of the round-trip times. -/
def rttCells (row : DeltaRow) : List String :=
  rowHead row ++ ["p50_us", "p95_us", "p99_us"].flatMap (format.rttStatCells row)

/-- The line of a row. -/
def rowLine (cells : List String) : String := "| " ++ " | ".intercalate cells ++ " |"

/-- Whatever a case is missing, its rows have a cell for each of the ten columns of the first table and
of the eleven of the second. -/
theorem length_cells (row : DeltaRow) :
    (format.jitterCells row).length = 10 ∧ (format.rttCells row).length = 11 := by
  have hstat : ∀ stat, (format.rttStatCells row stat).length = 3 := by
    intro stat
    unfold rttStatCells
    split <;> rfl
  constructor
  · simp [jitterCells, rowHead]
  · simp [rttCells, rowHead, hstat]

end NumberFormat

/-! ## The report -/

/-- Command line. -/
structure DeltaArgs where
  title : String
  notes : String := ""
  deriving DecidableEq, Repr

/-- What is written: the lines above the tables, and the rows of each table. -/
structure DeltaReport where
  head : List String
  jitter : List DeltaRow
  rtt : List DeltaRow
  deriving DecidableEq, Repr

/-- The lines above the first table. -/
def DeltaArgs.head (args : DeltaArgs) (format : NumberFormat) (base_raw : RawFile) : List String :=
  ["# " ++ args.title, "",
    "- **Chain:** `" ++ strOr id base_raw.chain ++ "` (only this chain)",
    "- **Topology:** `" ++ strOr id base_raw.topology ++ "`",
    "- **Metric:** jitter first (RTT p95/p99 + inter-message interval). " ++
      "p50/mean are secondary. Δ = after − baseline. Negative = tighter / faster.",
    "- **Payload sizes:** `" ++
      strOr (fun sizes ↦ "[" ++ ", ".intercalate (sizes.map toString) ++ "]")
        base_raw.payload_sizes_bytes ++ "`",
    "- **Inter-message gap:** `" ++ strOr format.str base_raw.inter_message_gap_ms ++ "` ms" ++
      match base_raw.target_publish_hz with
      | some hz => if hz = 0 then "" else " (target `" ++ format.str hz ++ "` Hz)"
      | none => "",
    "",
    "Like-to-like only (same chain, topology, sizes, gap, runner). " ++
      "Do **not** mix Chain A and Chain B. " ++
      "Not real-robot / Feishu-field / cross-host proof. " ++
      "Do **not** claim success from p50/mean alone.",
    ""] ++ if args.notes = "" then [] else [strip args.notes, ""]

/-- The text of a report. -/
def DeltaReport.lines (report : DeltaReport) (format : NumberFormat) : List String :=
  report.head ++
  ["### Jitter (primary)", "",
    "| case | payload (B) | RTT p95 Δ | RTT p99 Δ | RTT p95−p50 base → after | " ++
      "pub I stdev base → after | pub |I−tgt| p95 | pub |I−tgt| p99 | " ++
      "arr I stdev | arr |I−tgt| p95 |",
    "|------|-------------|-----------|-----------|--------------------------|" ++
      "-------------------------|-----------------|-----------------|" ++
      "-------------|---------------|"] ++
  report.jitter.map (fun row ↦ NumberFormat.rowLine (format.jitterCells row)) ++
  ["", "### RTT p50 (secondary — do not use as the keep/discard gate)", "",
    "| case | payload (B) | p50 base → after | Δ p50 | p50 % | p95 base → after | Δ p95 | " ++
      "p95 % | p99 base → after | Δ p99 | p99 % |",
    "|------|-------------|------------------|-------|-------|------------------|-------|" ++
      "-------|------------------|-------|-------|"] ++
  report.rtt.map (fun row ↦ NumberFormat.rowLine (format.rttCells row)) ++ [""]

/-- `main`: an exit with a message, or the report of the two files. -/
def DeltaArgs.main (args : DeltaArgs) (format : NumberFormat) (base_raw after_raw : RawFile) :
    Except String DeltaReport :=
  if base_raw.chain ≠ after_raw.chain then .error "refusing to delta different chains"
  else if base_raw.topology ≠ after_raw.topology then
    .error "refusing to delta different topologies"
  else
    let rows := deltaRows base_raw.loadCases after_raw.loadCases
    .ok { head := args.head format base_raw, jitter := rows, rtt := rows }

/-! ## What the report should compare -/

/-- The error-free cases of a file. -/
def RawFile.errorFree (raw : RawFile) : List DeltaCase := raw.cases.filter fun c ↦ c.error.isNone

/-- What two cases must have in common to be compared. -/
structure Setting where
  chain : Option String
  topology : Option String
  qos : Option String
  payload : Option ℤ
  gap : Option ℚ
  ros_msg : Option String
  deriving DecidableEq, Repr

/-- The setting of a case; what the case itself leaves out is taken from its file. -/
def RawFile.setting (raw : RawFile) (c : DeltaCase) : Setting where
  chain := raw.chain
  topology := raw.topology
  qos := c.qos
  payload := c.payload_len_bytes <|> c.msg_size_bytes
  gap := c.inter_message_gap_ms <|> raw.inter_message_gap_ms
  ros_msg := c.ros_msg <|> raw.ros_msg

/-- The rows of a table compare like with like: each pairs two error-free cases of one setting, and
each error-free case with a counterpart of its setting stands in exactly one row. -/
structure LikeToLike (base after : RawFile) (rows : List DeltaRow) : Prop where
  paired : ∀ row ∈ rows, row.base ∈ base.errorFree ∧ row.after ∈ after.errorFree ∧
    base.setting row.base = after.setting row.after
  baseOnce : ∀ b ∈ base.errorFree,
    (∃ a ∈ after.errorFree, base.setting b = after.setting a) →
      (rows.map DeltaRow.base).count b = 1
  afterOnce : ∀ a ∈ after.errorFree,
    (∃ b ∈ base.errorFree, base.setting b = after.setting a) →
      (rows.map DeltaRow.after).count a = 1

/-- No error-free case of the file is overwritten or dropped on loading. -/
def RawFile.Kept (raw : RawFile) : Prop := raw.loadCases.values = raw.errorFree

/-- The key tells what the setting tells: no two error-free cases of one file share it, two cases of
the two files that share it have one payload size, gap and ROS type, and a case with a counterpart
finds its key in the other file. -/
structure KeysAgree (base after : RawFile) : Prop where
  baseDistinct : (base.errorFree.map DeltaCase.key).Nodup
  afterDistinct : (after.errorFree.map DeltaCase.key).Nodup
  complete : ∀ b ∈ base.errorFree, ∀ a ∈ after.errorFree, b.key = a.key →
    (base.setting b).payload = (after.setting a).payload ∧
    (base.setting b).gap = (after.setting a).gap ∧
    (base.setting b).ros_msg = (after.setting a).ros_msg
  found : ∀ b ∈ base.errorFree, ∀ a ∈ after.errorFree, base.setting b = after.setting a →
    b.key ∈ after.errorFree.map DeltaCase.key ∧ a.key ∈ base.errorFree.map DeltaCase.key

/-! ## Loading -/

private theorem loadCases_eq (raw : RawFile) :
    raw.loadCases = Dict.ofItems (raw.errorFree.map fun c ↦ (c.key, c)) := by
  unfold RawFile.loadCases Dict.ofItems RawFile.errorFree
  rw [List.foldl_map, List.foldl_filter]
  congr 1
  funext cases c
  cases herror : c.error <;> simp

private theorem mem_items_loadCases {raw : RawFile} {k : CaseKey} {c : DeltaCase}
    (hitem : (k, c) ∈ raw.loadCases.items) : c ∈ raw.errorFree ∧ k = c.key := by
  rw [loadCases_eq] at hitem
  obtain ⟨found, hfound, hpair⟩ := List.mem_map.mp (Dict.mem_of_mem_ofItems hitem)
  obtain ⟨hkey, rfl⟩ := Prod.mk.inj hpair
  exact ⟨hfound, hkey.symm⟩

private theorem items_loadCases (raw : RawFile) :
    raw.loadCases.items = raw.loadCases.values.map fun c ↦ (c.key, c) := by
  rw [Dict.values, List.map_map]
  conv_lhs => rw [← List.map_id raw.loadCases.items]
  apply List.map_congr_left
  intro item hitem
  obtain ⟨_, hkey⟩ := mem_items_loadCases hitem
  exact Prod.ext hkey rfl

private theorem kept_iff (raw : RawFile) : raw.Kept ↔ (raw.errorFree.map DeltaCase.key).Nodup := by
  have hkeys : ((raw.errorFree.map fun c ↦ (c.key, c)).map Prod.fst) =
      raw.errorFree.map DeltaCase.key := by
    simp [Function.comp_def]
  rw [← hkeys, ← Dict.items_ofItems_iff, ← loadCases_eq, items_loadCases, RawFile.Kept]
  constructor
  case mp => intro hkept; rw [hkept]
  case mpr =>
    intro hitems
    have hvalues := congrArg (List.map Prod.snd) hitems
    simpa [Function.comp_def] using hvalues

/-- A kept case is found under its own key. -/
theorem RawFile.Kept.get? {raw : RawFile} (hkept : raw.Kept) {c : DeltaCase}
    (hc : c ∈ raw.errorFree) : raw.loadCases.get? c.key = some c := by
  rw [Dict.get?_eq_some_iff, items_loadCases, hkept]
  exact List.mem_map_of_mem hc

/-! ## Joining -/

private theorem deltaRow_eq_some_iff (base_cases after_cases : Dict CaseKey DeltaCase) (key : CaseKey)
    (row : DeltaRow) : deltaRow base_cases after_cases key = some row ↔
      row.key = key ∧ base_cases.get? key = some row.base ∧
      after_cases.get? key = some row.after := by
  unfold deltaRow
  constructor
  case mp =>
    intro hrow
    split at hrow
    · next b a hb ha => cases hrow; exact ⟨rfl, hb, ha⟩
    · cases hrow
  case mpr =>
    rintro ⟨rfl, hb, ha⟩
    rw [hb, ha]

private theorem mem_commonKeys (base_cases after_cases : Dict CaseKey DeltaCase) (key : CaseKey) :
    key ∈ commonKeys base_cases after_cases ↔
      (base_cases.get? key).isSome ∧ (after_cases.get? key).isSome := by
  simp [commonKeys, Dict.isSome_get?_iff]

private theorem mem_deltaRows (base_cases after_cases : Dict CaseKey DeltaCase) (row : DeltaRow) :
    row ∈ deltaRows base_cases after_cases ↔
      base_cases.get? row.key = some row.base ∧ after_cases.get? row.key = some row.after := by
  unfold deltaRows
  rw [List.mem_filterMap]
  constructor
  case mp =>
    rintro ⟨key, _, hrow⟩
    obtain ⟨rfl, hcases⟩ := (deltaRow_eq_some_iff _ _ key row).mp hrow
    exact hcases
  case mpr =>
    rintro ⟨hb, ha⟩
    refine ⟨row.key, (mem_commonKeys _ _ row.key).mpr ⟨?_, ?_⟩,
      (deltaRow_eq_some_iff _ _ row.key row).mpr ⟨rfl, hb, ha⟩⟩
    · rw [hb]; rfl
    · rw [ha]; rfl

private theorem row_cases {base after : RawFile} {row : DeltaRow}
    (hrow : row ∈ deltaRows base.loadCases after.loadCases) :
    (row.base ∈ base.errorFree ∧ row.key = row.base.key) ∧
    (row.after ∈ after.errorFree ∧ row.key = row.after.key) := by
  obtain ⟨hb, ha⟩ := (mem_deltaRows _ _ row).mp hrow
  rw [Dict.get?_eq_some_iff] at hb ha
  exact ⟨mem_items_loadCases hb, mem_items_loadCases ha⟩

private theorem map_key_deltaRows (base_cases after_cases : Dict CaseKey DeltaCase) :
    (deltaRows base_cases after_cases).map DeltaRow.key = commonKeys base_cases after_cases := by
  have hall : ∀ key ∈ commonKeys base_cases after_cases,
      (deltaRow base_cases after_cases key).map DeltaRow.key = some key := by
    intro key hkey
    obtain ⟨hb, ha⟩ := (mem_commonKeys _ _ key).mp hkey
    obtain ⟨b, hb⟩ := Option.isSome_iff_exists.mp hb
    obtain ⟨a, ha⟩ := Option.isSome_iff_exists.mp ha
    rw [(deltaRow_eq_some_iff _ _ key ⟨key, b, a⟩).mpr ⟨rfl, hb, ha⟩, Option.map_some]
  rw [deltaRows, List.map_filterMap, List.filterMap_congr hall, List.filterMap_some]

private theorem nodup_deltaRows (base after : RawFile) :
    ((deltaRows base.loadCases after.loadCases).map DeltaRow.base).Nodup ∧
    ((deltaRows base.loadCases after.loadCases).map DeltaRow.after).Nodup := by
  have hkeys : ((deltaRows base.loadCases after.loadCases).map DeltaRow.key).Nodup := by
    rw [map_key_deltaRows]
    exact base.loadCases.nodup.filter _
  have hrows : ∀ row ∈ deltaRows base.loadCases after.loadCases,
      row.key = row.base.key ∧ row.key = row.after.key := fun row hrow ↦
    ⟨(row_cases hrow).1.2, (row_cases hrow).2.2⟩
  constructor
  · apply List.Nodup.of_map DeltaCase.key
    rw [List.map_map]
    rwa [List.map_congr_left fun row hrow ↦ (hrows row hrow).1] at hkeys
  · apply List.Nodup.of_map DeltaCase.key
    rw [List.map_map]
    rwa [List.map_congr_left fun row hrow ↦ (hrows row hrow).2] at hkeys

private theorem exists_row {base after : RawFile} (hbase : base.Kept) (hafter : after.Kept)
    {b a : DeltaCase} (hb : b ∈ base.errorFree) (ha : a ∈ after.errorFree) (hkey : b.key = a.key) :
    (⟨b.key, b, a⟩ : DeltaRow) ∈ deltaRows base.loadCases after.loadCases :=
  (mem_deltaRows _ _ _).mpr ⟨hbase.get? hb, hkey ▸ hafter.get? ha⟩

/-! ## When the report compares like with like -/

private theorem setting_eq_iff {base after : RawFile} (hchain : base.chain = after.chain)
    (htopology : base.topology = after.topology) {b a : DeltaCase} (hkey : b.key = a.key) :
    base.setting b = after.setting a ↔
      (base.setting b).payload = (after.setting a).payload ∧
      (base.setting b).gap = (after.setting a).gap ∧
      (base.setting b).ros_msg = (after.setting a).ros_msg := by
  have hqos : b.qos = a.qos := congrArg CaseKey.qos hkey
  simp [RawFile.setting, hchain, htopology, hqos]

private theorem LikeToLike.keysAgree {base after : RawFile} (hchain : base.chain = after.chain)
    (htopology : base.topology = after.topology) (hbase : base.Kept) (hafter : after.Kept)
    (hlike : LikeToLike base after (deltaRows base.loadCases after.loadCases)) :
    KeysAgree base after where
  baseDistinct := (kept_iff base).mp hbase
  afterDistinct := (kept_iff after).mp hafter
  complete := by
    intro b hb a ha hkey
    have hpaired := hlike.paired _ (exists_row hbase hafter hb ha hkey)
    exact (setting_eq_iff hchain htopology hkey).mp hpaired.2.2
  found := by
    intro b hb a ha hsetting
    constructor
    · have honce := hlike.baseOnce b hb ⟨a, ha, hsetting⟩
      obtain ⟨row, hrow, rfl⟩ := List.mem_map.mp (List.count_pos_iff.mp (honce ▸ Nat.one_pos))
      obtain ⟨⟨_, hkey⟩, hmem, hother⟩ := row_cases hrow
      exact List.mem_map.mpr ⟨row.after, hmem, hother.symm.trans hkey⟩
    · have honce := hlike.afterOnce a ha ⟨b, hb, hsetting⟩
      obtain ⟨row, hrow, rfl⟩ := List.mem_map.mp (List.count_pos_iff.mp (honce ▸ Nat.one_pos))
      obtain ⟨⟨hmem, hother⟩, _, hkey⟩ := row_cases hrow
      exact List.mem_map.mpr ⟨row.base, hmem, hother.symm.trans hkey⟩

private theorem KeysAgree.likeToLike {base after : RawFile} (hchain : base.chain = after.chain)
    (htopology : base.topology = after.topology) (hagree : KeysAgree base after) :
    LikeToLike base after (deltaRows base.loadCases after.loadCases) := by
  have hbase : base.Kept := (kept_iff base).mpr hagree.baseDistinct
  have hafter : after.Kept := (kept_iff after).mpr hagree.afterDistinct
  obtain ⟨hbaseNodup, hafterNodup⟩ := nodup_deltaRows base after
  constructor
  case paired =>
    intro row hrow
    obtain ⟨⟨hb, hbkey⟩, ha, hakey⟩ := row_cases hrow
    have hkey : row.base.key = row.after.key := hbkey.symm.trans hakey
    exact ⟨hb, ha, (setting_eq_iff hchain htopology hkey).mpr (hagree.complete _ hb _ ha hkey)⟩
  case baseOnce =>
    rintro b hb ⟨a, ha, hsetting⟩
    obtain ⟨other, hother, hkey⟩ := List.mem_map.mp (hagree.found b hb a ha hsetting).1
    exact List.count_eq_one_of_mem hbaseNodup
      (List.mem_map_of_mem (exists_row hbase hafter hb hother hkey.symm))
  case afterOnce =>
    rintro a ha ⟨b, hb, hsetting⟩
    obtain ⟨other, hother, hkey⟩ := List.mem_map.mp (hagree.found b hb a ha hsetting).2
    exact List.count_eq_one_of_mem hafterNodup
      (List.mem_map_of_mem (exists_row hbase hafter hother ha hkey))

private theorem main_ok {args : DeltaArgs} {format : NumberFormat} {base after : RawFile}
    {report : DeltaReport} (haccepted : args.main format base after = .ok report) :
    base.chain = after.chain ∧ base.topology = after.topology ∧
    report.jitter = deltaRows base.loadCases after.loadCases ∧
    report.rtt = deltaRows base.loadCases after.loadCases := by
  unfold DeltaArgs.main at haccepted
  split at haccepted
  · cases haccepted
  · next hchain =>
    split at haccepted
    · cases haccepted
    · next htopology =>
      cases haccepted
      exact ⟨not_ne_iff.mp hchain, not_ne_iff.mp htopology, rfl, rfl⟩

/-- The report of two accepted files compares like with like, and keeps their error-free cases,
exactly when the keys agree with the settings. -/
theorem report_likeToLike_iff (args : DeltaArgs) (format : NumberFormat) (base after : RawFile)
    (report : DeltaReport) (haccepted : args.main format base after = .ok report) :
    (LikeToLike base after report.jitter ∧ LikeToLike base after report.rtt ∧
      base.Kept ∧ after.Kept) ↔ KeysAgree base after := by
  obtain ⟨hchain, htopology, hjitter, hrtt⟩ := main_ok haccepted
  rw [hjitter, hrtt]
  constructor
  case mp =>
    rintro ⟨hlike, _, hbase, hafter⟩
    exact hlike.keysAgree hchain htopology hbase hafter
  case mpr =>
    intro hagree
    exact ⟨hagree.likeToLike hchain htopology, hagree.likeToLike hchain htopology,
      (kept_iff base).mpr hagree.baseDistinct, (kept_iff after).mpr hagree.afterDistinct⟩

/-- Numbers as plain fractions. -/
def plainNumbers : NumberFormat := ⟨fun _ x ↦ toString x, fun _ x ↦ toString x, toString⟩

/-- A run of one QoS on Chain A with the given sizes and gap. -/
def chainARun (gap : ℚ) (sizes : List ℤ) : RawFile where
  chain := some "A"
  topology := some "same-process"
  payload_sizes_bytes := some sizes
  inter_message_gap_ms := some gap
  ros_msg := some "uint8_multiarray"
  cases := sizes.map fun size ↦ {
    name := some "ros_high_throughput"
    qos := some "high_throughput"
    payload_len_bytes := some size
    msg_size_bytes := some size
    inter_message_gap_ms := some gap
    ros_msg := some "uint8_multiarray" }

theorem report_likeToLike_iff_two_sizes :
    LikeToLike (chainARun 5 [64, 1024]) (chainARun 5 [1024, 64])
        (deltaRows (chainARun 5 [64, 1024]).loadCases (chainARun 5 [1024, 64]).loadCases) ∧
      (chainARun 5 [64, 1024]).Kept := by
  have hall := (report_likeToLike_iff { title := "iter7" } plainNumbers (chainARun 5 [64, 1024])
    (chainARun 5 [1024, 64]) _ rfl).mpr {
      baseDistinct := by decide
      afterDistinct := by decide
      complete := by decide
      found := by decide }
  exact ⟨hall.1, hall.2.2.1⟩

/-- Files with gaps of 5 ms and 100 ms are accepted, and their cases stand in one row. -/
theorem report_mixes_gaps :
    ∃ report, ({ title := "iter7" } : DeltaArgs).main plainNumbers (chainARun 5 [64])
        (chainARun 100 [64]) = .ok report ∧
      ¬ LikeToLike (chainARun 5 [64]) (chainARun 100 [64]) report.jitter := by
  refine ⟨_, rfl, ?_⟩
  intro hlike
  have hpaired := hlike.paired _ List.mem_cons_self
  exact absurd hpaired.2.2 (by decide)

end HzjDds.Bench
