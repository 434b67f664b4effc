/-
# Autophagy.Gate.FailClosed — when the gate answers at all, and that it then fails closed.

`pre_tool_call` of `automation/interop/hermes_plugin/__init__.py` turns a decision of the gate into the
answer of the hook. It catches `DenylistConfigurationError` and nothing else, so whatever else escapes
`evaluate_tool_call` escapes the hook. Three things do: an approval log that exists and cannot be read or
is not UTF-8, a line of the log that `json.loads` refuses with anything but a `JSONDecodeError` before an
approving record is met, and a call whose hash cannot be taken.

Short of these the hook blocks every matched call for which the log holds no record that approves it
(`gate_fails_closed`).
-/
import Autophagy.Gate.LogRoundTrip

namespace Autophagy.Gate

open Autophagy.Python

/-! ## §1 — The hook -/

/-- What `load_denylist` raises: a `DenylistConfigurationError`, or an exception it does not translate. -/
inductive DenylistFault
  | configuration
  | other (fault : GateFault)
  deriving DecidableEq

/-- What `pre_tool_call` returns: `None`, or a block with its message. -/
inductive HookAnswer
  | proceed
  | block (message : Str)
  deriving DecidableEq

section Hook

variable {F : Type} [PyFloat F] (host : Host)

/-- `args if isinstance(args, dict) else {}` -/
def dictArguments : Json F → List (Str × Json F)
  | .obj members => members
  | _ => []

/-- The answer to a decision. -/
def hookAnswer (d : ExternalEffectDecision) : HookAnswer :=
  if !d.externalEffect || d.allowed then .proceed
  else .block (Str.of "BLOCKED: owner approval required for " ++ d.targetId ++ Str.of " action=" ++
    d.actionHash)

/-- `pre_tool_call`, with what it reads of its surroundings: the loaded denylist and the context. -/
def preToolCall (disk : Disk) (denylist : Except DenylistFault (List ExternalEffectRule))
    (context : ApprovalContext) (toolName : Str) (args : Json F) : Except GateFault HookAnswer :=
  match denylist with
  | .error .configuration => .ok (.block "BLOCKED: external-effect approval gate unavailable")
  | .error (.other fault) => .error fault
  | .ok rules => do
    let d ← evaluateToolCall host disk ⟨toolName, dictArguments args⟩ rules context
    pure (hookAnswer d)

/-! ## §2 — When the log answers -/

section Log

variable (F) (binding : ApprovalBinding) (ownerId : Str) (e2eTestMode : Bool)

/-- Every line reads quietly, up to the first that approves. -/
def LinesAnswer (lines : List Str) : Prop :=
  (∀ line ∈ lines, Quiet F host line) ∨ ApprovedBy F host binding ownerId e2eTestMode lines

/-- The log can answer: it is missing, or it is a text whose lines answer. -/
def LogAnswers : LogFile → Prop
  | .missing => True
  | .unreadable => False
  | .undecodable => False
  | .text content => LinesAnswer F host binding ownerId e2eTestMode (splitlines content)

/-- The log holds a record that approves. -/
def LogHolds : LogFile → Prop
  | .text content => ∃ line ∈ splitlines content, Approving F host binding ownerId e2eTestMode line
  | _ => False

variable {F host binding ownerId e2eTestMode}

theorem linesAnswer_cons {line : Str} {rest : List Str} :
    LinesAnswer F host binding ownerId e2eTestMode (line :: rest) ↔ Approving F host binding ownerId e2eTestMode line ∨
        (Quiet F host line ∧ LinesAnswer F host binding ownerId e2eTestMode rest) := by
  unfold LinesAnswer
  rw [approvedBy_cons, List.forall_mem_cons]
  tauto

/-- **The scan returns exactly on lines that answer.** -/
theorem scanLog_ok {lines : List Str} :
    (∃ b, scanLog host (approves (F := F) binding ownerId e2eTestMode) lines = .ok b) ↔
      LinesAnswer F host binding ownerId e2eTestMode lines := by
  induction lines with
  | nil => exact ⟨fun _ => .inl (by simp), fun _ => ⟨false, rfl⟩⟩
  | cons line rest ih =>
    rw [linesAnswer_cons, ← ih]
    cases hload : (Json.loads host.limits line : Except JsonFault (Json F)) with
    | error fault =>
      have hnot : ¬ Approving F host binding ownerId e2eTestMode line := not_approving_of_fault hload
      have hquiet := quiet_of_fault hload
      cases fault <;> simp [scanLog, hload, hnot, hquiet]
    | ok record =>
      have happroving : Approving F host binding ownerId e2eTestMode line ↔ _ := approving_of_loads hload
      have hquiet := quiet_of_loads hload
      by_cases haccept : approves binding ownerId e2eTestMode record = true
      · simp only [scanLog, hload, happroving, haccept, if_true, true_or, iff_true]
        exact ⟨true, rfl⟩
      · simp only [scanLog, hload, happroving, haccept, hquiet, Bool.false_eq_true, if_false, false_or, true_and]

theorem hasValidApproval_ok {log : LogFile} : (∃ b, hasValidApproval host F binding ownerId e2eTestMode log = .ok b) ↔
      LogAnswers F host binding ownerId e2eTestMode log := by
  cases log with
  | missing => exact ⟨fun _ => trivial, fun _ => ⟨false, rfl⟩⟩
  | unreadable => exact ⟨fun ⟨_, h⟩ => (by cases h), False.elim⟩
  | undecodable => exact ⟨fun ⟨_, h⟩ => (by cases h), False.elim⟩
  | text content => exact scanLog_ok

theorem logHolds_of_hasValidApproval {log : LogFile}
    (h : hasValidApproval host F binding ownerId e2eTestMode log = .ok true) :
    LogHolds F host binding ownerId e2eTestMode log := by
  cases log with
  | missing => cases h
  | unreadable => cases h
  | undecodable => cases h
  | text content =>
    obtain ⟨before, line, after, hlines, -, happroving⟩ := scanLog_eq_true.mp h
    exact ⟨line, by rw [hlines]; simp, happroving⟩

end Log

/-! ## §3 — The hook fails closed -/

/-- The hash of the call can be taken: its payload is within the limits of `json`, and free of lone
surrogates. -/
def Hashable (call : ToolCall F) (target : Str) : Prop :=
  ∃ text, canonicalJson host (actionPayload call target) = .ok text ∧ encodable text = true

/-- The hash of a call, where it can be taken. -/
def callHash (call : ToolCall F) (target : Str) : Str :=
  Str.of "sha256:" ++ host.sha256Hex ((actionPayload call target).sortKeys.dumps .compact)

variable {host}

theorem actionHash_eq_ok {call : ToolCall F} {target hash : Str} : actionHash host call target = .ok hash ↔
      Hashable host call target ∧ hash = callHash host call target := by
  simp only [actionHash, except_bind_ok, except_pure_ok, Hashable, callHash]
  constructor
  · rintro ⟨text, hcanonical, bytes, hbytes, rfl⟩
    have hencode : encodable text = true ∧ text = bytes := by
      unfold encodeUtf8 at hbytes
      split at hbytes
      · rename_i hplain
        exact ⟨hplain, Except.ok.inj hbytes⟩
      · cases hbytes
    obtain ⟨hplain, rfl⟩ := hencode
    exact ⟨⟨text, hcanonical, hplain⟩, by rw [canonicalJson_ok hcanonical]⟩
  · rintro ⟨⟨text, hcanonical, hplain⟩, rfl⟩
    exact ⟨text, hcanonical, text, encodeUtf8_of hplain, by rw [canonicalJson_ok hcanonical]⟩

theorem evaluateToolCall_ok {disk : Disk} {call : ToolCall F} {rules : List ExternalEffectRule}
    {rule : ExternalEffectRule} {context : ApprovalContext} {path : Path} {d : ExternalEffectDecision}
    (hrule : matchingRule host call rules = .ok (some rule)) (hpath : context.approvalLog = some path) :
    evaluateToolCall host disk call rules context = .ok d ↔ Hashable host call (targetId rule call) ∧ ∃ approved,
        hasValidApproval host F ⟨callHash host call (targetId rule call), targetId rule call⟩ context.ownerId
          context.e2eTestMode (disk path) = .ok approved ∧
        d = ⟨true, approved, some (if approved then "approved" else "approval_required"),
          callHash host call (targetId rule call), targetId rule call⟩ := by
  simp only [evaluateToolCall, hrule, hpath, except_bind_ok, except_pure_ok, Except.ok.injEq,
    exists_eq_left', actionHash_eq_ok]
  constructor
  · rintro ⟨hash, ⟨hhash, rfl⟩, approved, hvalid, rfl⟩
    exact ⟨hhash, approved, hvalid, rfl⟩
  · rintro ⟨hhash, approved, hvalid, rfl⟩
    exact ⟨_, ⟨hhash, rfl⟩, approved, hvalid, rfl⟩

/-- **When the gate fails closed.** For every call that matches a rule and every state of the log, the gate
returns a decision and the hook blocks unless the log holds a record that approves the call, exactly when
the hash of the call can be taken and the log can answer: it is missing, or it is UTF-8 text in which no
line before the first approving record makes `json.loads` raise anything but a `JSONDecodeError`. -/
theorem gate_fails_closed (host : Host) {disk : Disk} {call : ToolCall F}
    {rules : List ExternalEffectRule} {rule : ExternalEffectRule} {context : ApprovalContext} {path : Path}
    (hrule : matchingRule host call rules = .ok (some rule)) (hpath : context.approvalLog = some path) :
    ((∃ d, evaluateToolCall host disk call rules context = .ok d) ∧
      ∃ answer, preToolCall host disk (.ok rules) context call.toolName (.obj call.arguments) = .ok answer ∧
        (answer = .proceed → LogHolds F host ⟨callHash host call (targetId rule call), targetId rule call⟩
          context.ownerId context.e2eTestMode (disk path))) ↔
      Hashable host call (targetId rule call) ∧
        LogAnswers F host ⟨callHash host call (targetId rule call), targetId rule call⟩ context.ownerId
          context.e2eTestMode (disk path) := by
  rw [← hasValidApproval_ok]
  constructor
  · rintro ⟨⟨d, hd⟩, -⟩
    obtain ⟨hhash, approved, hvalid, -⟩ := (evaluateToolCall_ok hrule hpath).mp hd
    exact ⟨hhash, approved, hvalid⟩
  · rintro ⟨hhash, approved, hvalid⟩
    have heval := (evaluateToolCall_ok hrule hpath).mpr ⟨hhash, approved, hvalid, rfl⟩
    refine ⟨⟨_, heval⟩, hookAnswer _, except_bind_ok.mpr ⟨_, heval, rfl⟩, ?_⟩
    -- A matched call proceeds only if the log was found to approve it.
    intro hproceed
    cases approved with
    | true => exact logHolds_of_hasValidApproval hvalid
    | false => simp [hookAnswer] at hproceed

end Hook

/-! ## §4 — Samples -/

/-- Where there is no log yet, the gate answers the sample call. -/
theorem gate_fails_closed_no_log : ∃ d, evaluateToolCall sampleHost noLog sampleCall [sampleRule]
    sampleContext = .ok d := by
  have hpath : sampleContext.approvalLog = some (Str.of "approvals.jsonl") := rfl
  have hanswers : _ ↔ _ ∧ LogAnswers SampleFloat sampleHost _ _ _ (noLog (Str.of "approvals.jsonl")) :=
    gate_fails_closed sampleHost sample_rule hpath
  exact (hanswers.mpr ⟨(actionHash_eq_ok.mp sample_hash).1, trivial⟩).1

/-- A log that is no UTF-8 makes the gate raise on the sample call, and the exception leaves the hook. -/
theorem undecodable_log_raises :
    matchingRule sampleHost sampleCall [sampleRule] = .ok (some sampleRule) ∧
      evaluateToolCall sampleHost (fun _ => .undecodable) sampleCall [sampleRule] sampleContext =
        .error .unicodeDecode ∧
      preToolCall sampleHost (fun _ => .undecodable) (.ok [sampleRule]) sampleContext sampleCall.toolName
        (.obj sampleCall.arguments) = .error .unicodeDecode := by
  have heval : evaluateToolCall sampleHost (fun _ => .undecodable) sampleCall [sampleRule] sampleContext =
      .error .unicodeDecode := by
    simp only [evaluateToolCall, sample_rule, sample_hash, bind, Except.bind, sampleContext, hasValidApproval]
  refine ⟨sample_rule, heval, ?_⟩
  have hcall : (⟨sampleCall.toolName, sampleCall.arguments⟩ : ToolCall SampleFloat) = sampleCall := rfl
  simp only [preToolCall, dictArguments, hcall, heval, bind, Except.bind]

end Autophagy.Gate
