/-
# Autophagy.Interop.Report — task reports, as they are posted and as they are read.

`format_report` and `parse_report` of `automation/interop/report.py`. A report is a fenced block of indented JSON with
seven keys. What is read back from it is the report with its summary masked (`parseReport_formatReport`): there is no
other way to the log than through the mask.
-/
import Autophagy.Interop.Delegation
import Autophagy.Interop.SummaryMask

namespace Autophagy.Interop

open Autophagy.Python Autophagy.Text

/-! ## §1 — Reports -/

/-- The interpreter: its limits, its classes of characters, and the texts of a `datetime`. -/
structure ReportHost where
  limits : Limits
  twoDeep : 2 ≤ limits.nesting
  classes : Classes
  Time : Type
  fromisoformat : Str → Option Time
  isoformat : Time → Str
  fromisoformat_isoformat : ∀ time, fromisoformat (isoformat time) = some time

/-- `ReportStatus` -/
inductive ReportStatus
  | start
  | done
  | blocked
  deriving DecidableEq

def ReportStatus.value : ReportStatus → Str
  | .start => "start"
  | .done => "done"
  | .blocked => "blocked"

/-- `ReportStatus(value)`; `none` is its `ValueError`. -/
def ReportStatus.of (value : Str) : Option ReportStatus := [ReportStatus.start, .done, .blocked].find? (·.value = value)

@[simp] theorem ReportStatus.of_value (status : ReportStatus) : ReportStatus.of status.value = some status := by
  cases status <;> rfl

variable (H : ReportHost)

/-- `TaskReport` -/
structure TaskReport where
  agentId : Str
  taskId : Str
  status : ReportStatus
  summary : Str
  links : List Str
  timestamp : H.Time

/-- `PROTOCOL_VERSION` -/
def protocolVersion : Str := "v0"

/-- `_REQUIRED_KEYS` -/
def requiredKeys : List Str := ["version", "agent_id", "task_id", "status", "summary", "links", "timestamp"]

variable (F : Type)

/-- The payload of `format_report`. -/
def TaskReport.toJson (report : TaskReport H) : Json F :=
  .obj [("version", .str protocolVersion), ("agent_id", .str report.agentId), ("task_id", .str report.taskId),
    ("status", .str report.status.value), ("summary", .str (maskSummary H.classes report.summary)),
    ("links", .arr (report.links.map .str)), ("timestamp", .str (H.isoformat report.timestamp))]

/-- The fence around a report. -/
def fenceStart : Str := "```json\n"

def fenceEnd : Str := "\n```"

section Codec

variable [PyFloat F]

/-- `format_report` -/
def formatReport (report : TaskReport H) : Except Fault Str :=
  match (report.toJson H F).indentedWithin H.limits with
  | .error fault => .error (.json fault)
  | .ok body => .ok (fenceStart ++ body ++ fenceEnd)

/-- The group of `_REPORT_PATTERN.fullmatch`. -/
def reportBody (message : Str) : Option Str :=
  if (fenceStart ++ [0x7b]) <+: message ∧ (0x7d :: fenceEnd) <:+ message ∧ 14 ≤ message.length then
    some ((message.drop 8).take (message.length - 12))
  else none

variable {F}

/-- `all(isinstance(link, str) for link in links)` -/
def linkTexts : List (Json F) → Option (List Str)
  | [] => some []
  | .str link :: links => (linkTexts links).map (link :: ·)
  | _ :: _ => none

omit [PyFloat F] in
@[simp] theorem linkTexts_map (links : List Str) : linkTexts (links.map (Json.str (F := F))) = some links := by
  induction links with
  | nil => rfl
  | cons link links ih => rw [List.map_cons, linkTexts, ih, Option.map_some]

/-- The fields of a payload with the required keys. -/
def reportOf (members : List (Str × Json F)) : Option (TaskReport H) :=
  match Json.lookup "version" members, Json.lookup "agent_id" members, Json.lookup "task_id" members,
      Json.lookup "status" members, Json.lookup "summary" members, Json.lookup "links" members,
      Json.lookup "timestamp" members with
  | some (.str version), some (.str agentId), some (.str taskId), some (.str status), some (.str summary),
      some (.arr links), some (.str timestamp) =>
        if version ≠ protocolVersion then none
        else
          match linkTexts links, ReportStatus.of status, H.fromisoformat timestamp with
          | some links, some status, some timestamp => some ⟨agentId, taskId, status, summary, links, timestamp⟩
          | _, _, _ => none
  | _, _, _, _, _, _, _ => none

variable (F) in
/-- `parse_report`; the error is a `RecursionError`. -/
def parseReport (message : Str) : Except Fault (Option (TaskReport H)) :=
  match reportBody message with
  | none => .ok none
  | some body =>
    match (Json.loads H.limits body : Except JsonFault (Json F)) with
    | .error .recursion => .error (.json .recursion)
    | .error _ => .ok none
    | .ok (.obj members) => .ok (if hasKeys requiredKeys members then reportOf H members else none)
    | .ok _ => .ok none

/-! ## §2 — There and back -/

theorem reportBody_fenced (inner : Str) :
    reportBody (fenceStart ++ (0x7b :: (inner ++ [0x7d])) ++ fenceEnd) = some (0x7b :: (inner ++ [0x7d])) := by
  have hlength : (fenceStart ++ (0x7b :: (inner ++ [0x7d])) ++ fenceEnd).length = inner.length + 14 := by
    simp only [List.length_append, List.length_cons, List.length_nil, show fenceStart.length = 8 from rfl,
      show fenceEnd.length = 4 from rfl]
    omega
  rw [reportBody, if_pos ⟨⟨inner ++ 0x7d :: fenceEnd, by simp⟩, ⟨fenceStart ++ 0x7b :: inner, by simp⟩, by omega⟩, hlength,
    List.append_assoc, List.drop_append_of_le_length (by decide)]
  show some (List.take _ ((0x7b :: (inner ++ [0x7d])) ++ fenceEnd)) = _
  rw [List.take_append_of_le_length (by simp)]
  congr 1
  apply List.take_of_length_le
  simp

variable {H} (report : TaskReport H)

/-- The report as it is read: its summary masked. -/
def TaskReport.masked : TaskReport H := { report with summary := maskSummary H.classes report.summary }

omit [PyFloat F] in
theorem reportOf_toJson : ∃ members, report.toJson H F = .obj members ∧ hasKeys requiredKeys members = true ∧
      reportOf H members = some report.masked := by
  refine ⟨_, rfl, rfl, ?_⟩
  have hversion : ¬ protocolVersion ≠ protocolVersion := fun h => h rfl
  show (if protocolVersion ≠ protocolVersion then none
    else match linkTexts (report.links.map (Json.str (F := F))), ReportStatus.of report.status.value,
        H.fromisoformat (H.isoformat report.timestamp) with
      | some links, some status, some timestamp =>
        some (⟨report.agentId, report.taskId, status, maskSummary H.classes report.summary, links, timestamp⟩ :
          TaskReport H)
      | _, _, _ => none) = _
  rw [if_neg hversion]
  rw [linkTexts_map, ReportStatus.of_value, H.fromisoformat_isoformat]
  rfl

omit [PyFloat F] in
theorem fits_report : (report.toJson H F).Fits H.limits ∧ (report.toJson H F).Distinct := by
  have hints : Json.itemsWithin H.limits.digits (report.links.map (Json.str (F := F))) = true := by
    rw [Json.itemsWithin_iff]
    intro v hv
    obtain ⟨link, -, rfl⟩ := List.mem_map.mp hv
    rfl
  have hdepth : Json.depthItems (report.links.map (Json.str (F := F))) ≤ 0 := by
    rw [Json.depthItems_le]
    intro v hv
    obtain ⟨link, -, rfl⟩ := List.mem_map.mp hv
    exact le_refl _
  have hlinks : Json.DistinctItems (report.links.map (Json.str (F := F))) := by
    rw [Json.distinctItems_iff]
    intro v hv
    obtain ⟨link, -, rfl⟩ := List.mem_map.mp hv
    trivial
  refine ⟨⟨?_, ?_⟩, (by decide : requiredKeys.Nodup), trivial, trivial, trivial, trivial, trivial, hlinks, trivial,
    trivial⟩
  · simp only [TaskReport.toJson, Json.intsWithin, Json.membersWithin, hints, Bool.and_true]
  · have htwo := H.twoDeep
    simp only [TaskReport.toJson, Json.depth, Json.depthMembers]
    omega

variable (F) in
/-- **A report that is posted** is read back with its summary masked. -/
theorem parseReport_formatReport :
    ∃ text, formatReport H F report = .ok text ∧ parseReport H F text = .ok (some report.masked) := by
  obtain ⟨hfits, hdistinct⟩ := fits_report (F := F) report
  have hload : Json.loads H.limits ((report.toJson H F).indented 0 ++ []) = .ok (report.toJson H F).dict :=
    Json.loads_indented hfits (by simp)
  rw [List.append_nil, Json.dict_of_distinct hdistinct] at hload
  obtain ⟨inner, hinner⟩ : ∃ inner, (report.toJson H F).indented 0 = 0x7b :: (inner ++ [0x7d]) := ⟨_, rfl⟩
  obtain ⟨members, hmembers, hkeys, hof⟩ := reportOf_toJson (F := F) report
  refine ⟨fenceStart ++ (report.toJson H F).indented 0 ++ fenceEnd, ?_, ?_⟩
  · rw [formatReport, Json.indentedWithin, if_neg (not_lt.mpr hfits.2), if_pos hfits.1]
  · rw [hinner] at hload ⊢
    rw [parseReport, reportBody_fenced]
    dsimp only
    rw [hload, hmembers]
    show Except.ok (if hasKeys requiredKeys members then reportOf H members else none) = _
    rw [if_pos hkeys, hof]

end Codec

/-- **Reports round trip and never leak.** -/
theorem reports_masked [PyFloat F] :
    (∀ report : TaskReport H, ∃ text, formatReport H F report = .ok text ∧
        parseReport H F text = .ok (some { report with summary := maskSummary H.classes report.summary })) ∧
      (∀ summary, maskSummary H.classes (maskSummary H.classes summary) = maskSummary H.classes summary) ∧
      ∀ summary, ∀ m ∈ summaryMasks H.classes, ¬ Occurs m.pattern.regex (maskSummary H.classes summary) :=
  ⟨parseReport_formatReport F, maskSummary_maskSummary H.classes, maskSummary_clean H.classes⟩

end Autophagy.Interop
