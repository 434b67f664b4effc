/-
# Autophagy.Gate.LogRoundTrip — an approval that was recorded is read back, and nothing else is.

The writer of the approval log puts one JSON record and a newline behind whatever the log holds; the
reader cuts the log with `str.splitlines` and skips what is no JSON. The two agree on a record exactly
when the record becomes a line of its own:

* the text before it ends its last line, up to white space;
* none of the event id, the owner id and the target id holds `U+0085`, `U+2028` or `U+2029`, which the
  writer leaves as they are and the reader takes for line ends.

In every other case no line that came out of the writing approves anything: the record that is cut in two
leaves pieces none of which reads as a dictionary with a key (`record_lines_cut`), and the record that is
appended to a started line does not read at all (`object_ends_line`). `recorded_iff` and
`built_log_sound` are the two directions.
-/
import Autophagy.Gate.ExternalEffect
import Autophagy.Python.Sample

namespace Autophagy.Gate

open Autophagy.Python Autophagy.Python.JsonScan

/-! ## §1 — The text of a record -/

/-- Up to the quote in front of the message id. -/
def recordHead : Str :=
  0x7b :: (quoted "action" ++ 0x3a :: quoted "external_effect.approval" ++ 0x2c :: quoted "approval" ++
    0x3a :: 0x7b :: quoted "channel" ++ 0x3a :: quoted "approvals" ++ 0x2c :: quoted "message_id" ++
    [0x3a, 0x22])

/-- From the quote behind the message id to the one in front of the owner id. -/
def afterMessageId : Str :=
  0x22 :: 0x2c :: quoted "method" ++ 0x3a :: quoted "signed_injection_e2e" ++ 0x2c :: quoted "owner_id" ++
    [0x3a, 0x22]

/-- From the quote behind the owner id to the one in front of the target id. -/
def afterOwnerId (hash : Str) : Str :=
  0x22 :: 0x7d :: 0x2c :: quoted "hash" ++ 0x3a :: quoted hash ++ 0x2c :: quoted "result" ++
    0x3a :: 0x7b :: quoted "status" ++ 0x3a :: quoted "approved" ++ 0x7d :: 0x2c :: quoted "target_id" ++
    [0x3a, 0x22]

/-- From the quote behind the target id to the end. -/
def afterTargetId (timestamp : Str) : Str :=
  0x22 :: 0x2c :: quoted "timestamp" ++ 0x3a :: quoted timestamp ++ [0x7d]

/-- The text of a record with these five fields. -/
def recordText (messageId ownerId hash targetId timestamp : Str) : Str :=
  recordHead ++ (escape messageId ++ (afterMessageId ++ (escape ownerId ++ (afterOwnerId hash ++
    (escape targetId ++ afterTargetId timestamp)))))

section Record

variable {F : Type} (context : ApprovalContext) (binding : ApprovalBinding)
  (event : InboundEvent) (at_ : Timestamp)

/-- The record's text as it is appended. -/
def textOf : Str :=
  recordText event.eventId context.ownerId binding.actionHash binding.targetId at_.text

theorem sortKeys_approvalRecord :
    (approvalRecord F context binding event at_).sortKeys = approvalRecord F context binding event at_ := by
  rfl

theorem dumps_approvalRecord [PyFloat F] :
    (approvalRecord F context binding event at_).dumps .compact = textOf context binding event at_ := by
  simp only [approvalRecord, textOf, recordText, recordHead, afterMessageId, afterOwnerId, afterTargetId,
    Json.dumps, Json.dumpsMembers, Layout.gap, quoted, List.append_assoc, List.cons_append,
    List.nil_append, List.append_nil]

theorem approvalRecord_ints (n : Nat) : (approvalRecord F context binding event at_).intsWithin n = true := rfl

theorem dict_approvalRecord :
    (approvalRecord F context binding event at_).dict = approvalRecord F context binding event at_ := by
  rfl

end Record

/-! ## §2 — The lines of a record -/

theorem noBreak_recordHead : NoBreak recordHead := by decide

theorem noBreak_afterMessageId : NoBreak afterMessageId := by decide

theorem noBreak_afterOwnerId {hash : Str} (hhash : NoRawBreak hash) : NoBreak (afterOwnerId hash) := by
  have hsplit : afterOwnerId hash = (0x22 :: 0x7d :: 0x2c :: quoted "hash" ++ [0x3a]) ++ quoted hash ++
      (0x2c :: quoted "result" ++ 0x3a :: 0x7b :: quoted "status" ++ 0x3a :: quoted "approved" ++
        0x7d :: 0x2c :: quoted "target_id" ++ [0x3a, 0x22]) := by
    simp only [afterOwnerId, List.append_assoc, List.cons_append, List.nil_append]
  rw [hsplit, noBreak_append, noBreak_append]
  exact ⟨⟨by decide, noBreak_quoted hhash⟩, by decide⟩

theorem noBreak_afterTargetId {timestamp : Str} (ht : NoRawBreak timestamp) : NoBreak (afterTargetId timestamp) := by
  have hsplit : afterTargetId timestamp =
      (0x22 :: 0x2c :: quoted "timestamp" ++ [0x3a]) ++ quoted timestamp ++ [0x7d] := by
    simp only [afterTargetId, List.append_assoc, List.cons_append, List.nil_append]
  rw [hsplit, noBreak_append, noBreak_append]
  exact ⟨⟨by decide, noBreak_quoted ht⟩, by decide⟩

/-- Behind the first raw boundary the pieces of a record are harmless lines. -/
structure Tail (F : Type) [PyFloat F] (L : Limits) (text : Str) : Prop where
  lines : ∀ {line : Str}, PlainLine F L line → ∃ lines, Harmless F L lines ∧
    ∀ more, splitlinesFrom line (text ++ 0x0a :: more) = lines ++ splitlinesFrom [] more

section Tails

variable {F : Type} [PyFloat F] {L : Limits}

theorem Tail.nil : Tail F L [] where
  lines {line} hline := by
    refine ⟨[line], ?_, ?_⟩
    · intro l hl v hv
      rw [List.mem_singleton.mp hl] at hv
      exact hline.keyFree hv
    · intro more
      exact splitlinesFrom_break rfl (by decide) line more

theorem Tail.content {text : Str} (h : Tail F L text) (x : Str) : Tail F L (escape x ++ text) where
  lines hline := by
    obtain ⟨lines₁, line', hline', hlines₁, hsplit₁⟩ := plain_content x hline
    obtain ⟨lines₂, hlines₂, hsplit₂⟩ := h.lines hline'
    refine ⟨lines₁ ++ lines₂, ?_, ?_⟩
    · intro l hl
      rcases List.mem_append.mp hl with hl | hl
      · exact hlines₁ l hl
      · exact hlines₂ l hl
    · intro more
      rw [List.append_assoc, hsplit₁, hsplit₂, List.append_assoc]

theorem Tail.member {text seg : Str} (h : Tail F L text) (sep : Str) (c : Nat) {rest : Str}
    (hseg : seg = 0x22 :: (sep ++ 0x22 :: c :: rest)) (hsep : ∀ d ∈ sep, d = 0x2c ∨ d = 0x7d)
    (hc : Stray c) (hno : NoBreak seg) : Tail F L (seg ++ text) where
  lines hline := by
    subst hseg
    obtain ⟨line', hline', hsplit₁⟩ := plain_member hline hsep hc hno
    obtain ⟨lines, hlines, hsplit₂⟩ := h.lines hline'
    refine ⟨lines, hlines, ?_⟩
    intro more
    rw [List.append_assoc, hsplit₁, hsplit₂]

theorem tail_targetId (targetId : Str) {timestamp : Str} (ht : NoRawBreak timestamp) :
    Tail F L (escape targetId ++ afterTargetId timestamp) := by
  have hend : Tail F L (afterTargetId timestamp ++ []) :=
    Tail.nil.member [0x2c] 0x74 rfl (by decide) (by decide) (noBreak_afterTargetId ht)
  rw [List.append_nil] at hend
  exact hend.content targetId

theorem tail_ownerId (ownerId targetId : Str) {hash timestamp : Str} (hhash : NoRawBreak hash)
    (ht : NoRawBreak timestamp) :
    Tail F L (escape ownerId ++ (afterOwnerId hash ++ (escape targetId ++ afterTargetId timestamp))) :=
  ((tail_targetId targetId ht).member [0x7d, 0x2c] 0x68 rfl (by decide) (by decide)
    (noBreak_afterOwnerId hhash)).content ownerId

theorem tail_messageId (messageId ownerId targetId : Str) {hash timestamp : Str}
    (hhash : NoRawBreak hash) (ht : NoRawBreak timestamp) :
    Tail F L (escape messageId ++ (afterMessageId ++ (escape ownerId ++ (afterOwnerId hash ++
      (escape targetId ++ afterTargetId timestamp))))) :=
  ((tail_ownerId ownerId targetId hhash ht).member [0x2c] 0x6d rfl (by decide) (by decide)
    noBreak_afterMessageId).content messageId

end Tails

section Lines

variable {F : Type} [PyFloat F] (L : Limits) (context : ApprovalContext) (binding : ApprovalBinding)
  (event : InboundEvent) (at_ : Timestamp)

theorem timestamp_noRawBreak : NoRawBreak at_.text := by
  intro c hc
  have hplain := at_.plain c hc
  simp only [isDigit, Bool.or_eq_true, Bool.and_eq_true, decide_eq_true_eq] at hplain
  simp only [isRawBreak, Bool.or_eq_false_iff, decide_eq_false_iff_not]
  omega

theorem textOf_head : ∃ text, textOf context binding event at_ = 0x7b :: 0x22 :: 0x61 :: text :=
  ⟨_, rfl⟩

/-- Where the record is the end of a line, the line reads as something only if nothing but white space
stands before it. -/
theorem record_ends_line {line : Str} {v : Json F}
    (h : scan L start (line ++ textOf context binding event at_) = .ok v) :
    ∀ d ∈ line, isJsonSpace d = true := by
  obtain ⟨text, htext⟩ := textOf_head context binding event at_
  have hsplit : (approvalRecord F context binding event at_).dumps .compact =
      textOf context binding event at_ ++ [] := by
    rw [dumps_approvalRecord, List.append_nil]
  exact (object_ends_line hsplit (approvalRecord_ints context binding event at_) (by decide) htext (by simp) h).2

/-- A record that holds a raw boundary falls into lines none of which reads as a dictionary with a key,
whatever line it was appended to. -/
theorem record_lines_cut (hhash : NoRawBreak binding.actionHash)
    (hcut : ¬ (NoRawBreak event.eventId ∧ NoRawBreak context.ownerId ∧ NoRawBreak binding.targetId))
    (line : Str) :
    ∃ lines, Harmless F L lines ∧ ∀ more, splitlinesFrom line (textOf context binding event at_ ++ 0x0a :: more) =
        lines ++ splitlinesFrom [] more := by
  have ht := timestamp_noRawBreak at_
  -- The record up to its first raw boundary, and what is behind it.
  have hfirst : ∃ a c b, textOf context binding event at_ = a ++ c :: b ∧ NoBreak a ∧
      isRawBreak c = true ∧ (∃ text, a = 0x7b :: 0x22 :: 0x61 :: text) ∧ Tail F L b := by
    by_cases hevent : NoRawBreak event.eventId
    · by_cases howner : NoRawBreak context.ownerId
      · -- The boundary is in the target id.
        obtain ⟨s₁, c, s₂, htarget, hno, hc⟩ := exists_rawBreak fun h => hcut ⟨hevent, howner, h⟩
        refine ⟨recordHead ++ (escape event.eventId ++ (afterMessageId ++ (escape context.ownerId ++
          (afterOwnerId binding.actionHash ++ escape s₁)))), c, _, ?_, ?_, hc, ⟨_, rfl⟩,
          tail_targetId s₂ ht⟩
        · simp only [textOf, recordText, htarget, escape_rawBreak hc, List.append_assoc, List.cons_append]
        · simp only [noBreak_append]
          exact ⟨noBreak_recordHead, escape_noBreak hevent, noBreak_afterMessageId,
            escape_noBreak howner, noBreak_afterOwnerId hhash, escape_noBreak hno⟩
      · -- The boundary is in the owner id.
        obtain ⟨s₁, c, s₂, hsplit, hno, hc⟩ := exists_rawBreak howner
        refine ⟨recordHead ++ (escape event.eventId ++ (afterMessageId ++ escape s₁)), c, _, ?_, ?_, hc,
          ⟨_, rfl⟩, tail_ownerId s₂ binding.targetId hhash ht⟩
        · simp only [textOf, recordText, hsplit, escape_rawBreak hc, List.append_assoc, List.cons_append]
        · simp only [noBreak_append]
          exact ⟨noBreak_recordHead, escape_noBreak hevent, noBreak_afterMessageId, escape_noBreak hno⟩
    · -- The boundary is in the event id.
      obtain ⟨s₁, c, s₂, hsplit, hno, hc⟩ := exists_rawBreak hevent
      refine ⟨recordHead ++ escape s₁, c, _, ?_, ?_, hc, ⟨_, rfl⟩,
        tail_messageId s₂ context.ownerId binding.targetId hhash ht⟩
      · simp only [textOf, recordText, hsplit, escape_rawBreak hc, List.append_assoc, List.cons_append]
      · exact noBreak_append.mpr ⟨noBreak_recordHead, escape_noBreak hno⟩
  obtain ⟨a, c, b, hsplit, hno, hc, ⟨text, ha⟩, htail⟩ := hfirst
  obtain ⟨lines, hlines, hrest⟩ := htail.lines (plainLine_nil L)
  refine ⟨(line ++ a) :: lines, ?_, ?_⟩
  · have hdumps : (approvalRecord F context binding event at_).dumps .compact = a ++ c :: b := by
      rw [dumps_approvalRecord, hsplit]
    have hstray : ∀ d ∈ (c :: b).head?, Stray d ∧ isNumberChar d = false ∧ d ≠ 0x49 := by
      intro d hd
      rw [← Option.mem_some.mp hd]
      exact rawBreak_stray hc
    intro l hl v hv
    rcases List.mem_cons.mp hl with rfl | hl
    · have hend := (object_ends_line hdumps (approvalRecord_ints context binding event at_) (by decide) ha hstray hv).1
      cases hend
    · exact hlines l hl v hv
  · intro more
    have hbreak : isBreak c = true ∧ c ≠ 0x0d := by
      simp only [isRawBreak, Bool.or_eq_true, decide_eq_true_eq, or_assoc] at hc
      rcases hc with rfl | rfl | rfl <;> decide
    rw [hsplit, List.append_assoc, splitlinesFrom_append_noBreak hno, List.cons_append,
      splitlinesFrom_break hbreak.1 hbreak.2, hrest]
    rfl

theorem record_lines_whole (hevent : NoRawBreak event.eventId) (howner : NoRawBreak context.ownerId)
    (hhash : NoRawBreak binding.actionHash) (htarget : NoRawBreak binding.targetId) (line more : Str) :
    splitlinesFrom line (textOf context binding event at_ ++ 0x0a :: more) =
      (line ++ textOf context binding event at_) :: splitlinesFrom [] more := by
  have hno : NoBreak (textOf context binding event at_) := by
    simp only [textOf, recordText, noBreak_append]
    exact ⟨noBreak_recordHead, escape_noBreak hevent, noBreak_afterMessageId, escape_noBreak howner,
      noBreak_afterOwnerId hhash, escape_noBreak htarget,
      noBreak_afterTargetId (timestamp_noRawBreak at_)⟩
  rw [splitlinesFrom_append_noBreak hno, splitlinesFrom_break rfl (by decide)]

end Lines

/-! ## §3 — What the reader sees -/

section Reader

variable (F : Type) [PyFloat F] (host : Host)

/-- Reading the line raises nothing but a `JSONDecodeError`. -/
def Quiet (line : Str) : Prop :=
  ∀ fault, (Json.loads host.limits line : Except JsonFault (Json F)) = .error fault → fault = .decode

/-- The line is a record that approves the action. -/
def Approving (binding : ApprovalBinding) (ownerId : Str) (e2eTestMode : Bool) (line : Str) : Prop :=
  ∃ record : Json F, Json.loads host.limits line = .ok record ∧
    approves binding ownerId e2eTestMode record = true

/-- Some line approves the action, and no line before it raises. -/
def ApprovedBy (binding : ApprovalBinding) (ownerId : Str) (e2eTestMode : Bool) (lines : List Str) : Prop :=
  ∃ before line after, lines = before ++ line :: after ∧ (∀ l ∈ before, Quiet F host l) ∧
    Approving F host binding ownerId e2eTestMode line

variable {F host} {binding : ApprovalBinding} {ownerId : Str} {e2eTestMode : Bool}

theorem approvedBy_cons {line : Str} {lines : List Str} :
    ApprovedBy F host binding ownerId e2eTestMode (line :: lines) ↔ Approving F host binding ownerId e2eTestMode line ∨
        (Quiet F host line ∧ ApprovedBy F host binding ownerId e2eTestMode lines) := by
  constructor
  · rintro ⟨before, l, after, hsplit, hquiet, happroving⟩
    cases before with
    | nil =>
      injection hsplit with hl
      exact .inl (hl ▸ happroving)
    | cons b before =>
      injection hsplit with hb hrest
      refine .inr ⟨hb ▸ hquiet b (by simp), before, l, after, hrest, ?_, happroving⟩
      exact fun x hx => hquiet x (by simp [hx])
  · rintro (happroving | ⟨hquiet, before, l, after, rfl, hbefore, happroving⟩)
    · exact ⟨[], line, lines, rfl, fun l hl => (by cases hl), happroving⟩
    · refine ⟨line :: before, l, after, rfl, ?_, happroving⟩
      intro x hx
      rcases List.mem_cons.mp hx with rfl | hx
      · exact hquiet
      · exact hbefore x hx

theorem quiet_of_fault {line : Str} {fault : JsonFault}
    (hload : (Json.loads host.limits line : Except JsonFault (Json F)) = .error fault) :
    Quiet F host line ↔ fault = .decode := by
  refine ⟨fun h => h fault hload, ?_⟩
  rintro rfl other hother
  rw [hload] at hother
  exact (Except.error.inj hother).symm

theorem quiet_of_loads {line : Str} {record : Json F} (hload : Json.loads host.limits line = .ok record) :
    Quiet F host line := fun fault h => by
  rw [hload] at h
  cases h

theorem approving_of_loads {line : Str} {record : Json F} (hload : Json.loads host.limits line = .ok record) :
    Approving F host binding ownerId e2eTestMode line ↔ approves binding ownerId e2eTestMode record = true := by
  refine ⟨?_, fun happroves => ⟨record, hload, happroves⟩⟩
  rintro ⟨record', hrecord', happroves⟩
  rw [hload] at hrecord'
  obtain rfl := Except.ok.inj hrecord'
  exact happroves

theorem not_approving_of_fault {line : Str} {fault : JsonFault}
    (hload : (Json.loads host.limits line : Except JsonFault (Json F)) = .error fault) :
    ¬ Approving F host binding ownerId e2eTestMode line := by
  rintro ⟨record, hrecord, -⟩
  rw [hload] at hrecord
  cases hrecord

/-- The loop answers yes exactly at the first approving line that no raising line precedes. -/
theorem scanLog_eq_true {lines : List Str} :
    scanLog host (approves (F := F) binding ownerId e2eTestMode) lines = .ok true ↔
      ApprovedBy F host binding ownerId e2eTestMode lines := by
  induction lines with
  | nil =>
    refine ⟨fun h => (by cases h), ?_⟩
    rintro ⟨before, line, after, hsplit, -⟩
    simp at hsplit
  | cons line lines ih =>
    rw [approvedBy_cons, ← ih]
    cases hload : (Json.loads host.limits line : Except JsonFault (Json F)) with
    | error fault =>
      have hnot : ¬ Approving F host binding ownerId e2eTestMode line := not_approving_of_fault hload
      have hquiet := quiet_of_fault hload
      cases fault <;> simp [scanLog, hload, hnot, hquiet]
    | ok record =>
      have happroving : Approving F host binding ownerId e2eTestMode line ↔ _ := approving_of_loads hload
      have hquiet := quiet_of_loads hload
      cases happroves : approves binding ownerId e2eTestMode record <;>
        simp [scanLog, hload, happroves, happroving, hquiet]

theorem approvedBy_append {lines lines' : List Str} : ApprovedBy F host binding ownerId e2eTestMode (lines ++ lines') ↔
      ApprovedBy F host binding ownerId e2eTestMode lines ∨
        ((∀ l ∈ lines, Quiet F host l) ∧ ApprovedBy F host binding ownerId e2eTestMode lines') := by
  induction lines with
  | nil =>
    have hnil : ¬ ApprovedBy F host binding ownerId e2eTestMode [] := by
      rintro ⟨before, line, after, hsplit, -⟩
      simp at hsplit
    simp [hnil]
  | cons line lines ih =>
    rw [List.cons_append, approvedBy_cons, approvedBy_cons, ih]
    simp only [List.mem_cons, forall_eq_or_imp]
    tauto

theorem Approving.not_keyFree {line : Str} (h : Approving F host binding ownerId e2eTestMode line) :
    ∃ v : Json F, scan host.limits start line = .ok v ∧ ¬ KeyFree v ∧
      approves binding ownerId e2eTestMode v.dict = true := by
  obtain ⟨record, hload, happroves⟩ := h
  obtain ⟨v, hscan, rfl⟩ := Json.scan_of_loads hload
  refine ⟨v, hscan, ?_, happroves⟩
  intro hfree
  cases v with
  | obj members =>
    rw [hfree members rfl] at happroves
    cases happroves
  | _ => cases happroves

theorem not_approvedBy_harmless {lines : List Str} (h : Harmless F host.limits lines) :
    ¬ ApprovedBy F host binding ownerId e2eTestMode lines := by
  rintro ⟨before, line, after, rfl, -, happroving⟩
  obtain ⟨v, hscan, hkey, -⟩ := happroving.not_keyFree
  exact hkey (h line (by simp) v hscan)

omit [PyFloat F] in
theorem approves_approvalRecord (context : ApprovalContext) (recorded : ApprovalBinding)
    (event : InboundEvent) (at_ : Timestamp) :
    approves binding ownerId e2eTestMode (approvalRecord F context recorded event at_) = true ↔
      e2eTestMode = true ∧ recorded = binding ∧ context.ownerId = ownerId := by
  obtain ⟨hash, target⟩ := binding
  obtain ⟨hash', target'⟩ := recorded
  simp [approves, approvalRecord, Json.get?, Json.lookup, isStr, isApprovedResult, Str.of, and_assoc]

end Reader

/-! ## §4 — One recorded approval -/

/-- The text of a log that can be read; a missing log counts as empty. -/
def LogFile.content : LogFile → Option Str
  | .missing => some []
  | .text content => some content
  | _ => none

/-- Further appends to the log of a context. -/
def appendLog (context : ApprovalContext) (more : Str) (disk : Disk) : Disk :=
  match context.approvalLog with
  | none => disk
  | some path => Function.update disk path ((disk path).append more)

section Recording

variable {F : Type} [PyFloat F] {host : Host} {context : ApprovalContext} {binding : ApprovalBinding}
  {signed : SignedApprovalEvent} {at_ : Timestamp} {disk disk' : Disk}

/-- What a call that returned `True` did: in end-to-end mode it appended the record and a newline. -/
theorem recordSigned_true (h : recordSignedE2eApproval host F context binding signed at_ disk = (disk', .ok true)) :
    ∃ path, context.approvalLog = some path ∧ context.e2eTestMode = true ∧ disk path ≠ .unreadable ∧
      (approvalRecord F context binding signed.event at_).Fits host.limits ∧
      disk' = Function.update disk path ((disk path).append (textOf context binding signed.event at_ ++ [0x0a])) := by
  unfold recordSignedE2eApproval at h
  cases hpath : context.approvalLog with
  | none => simp [hpath] at h
  | some path =>
    simp only [hpath] at h
    split at h
    · cases (Prod.mk.inj h).2
    · cases (Prod.mk.inj h).2
    · rename_i haccept
      have hmode : context.e2eTestMode = true := by
        by_contra hmode
        simp [acceptTestEvent, hmode] at haccept
      split at h
      · cases (Prod.mk.inj h).2
      split at h
      · cases (Prod.mk.inj h).2
      simp only [appendRecord] at h
      split at h
      · cases (Prod.mk.inj h).2
      · rename_i hreadable
        split at h
        · cases (Prod.mk.inj h).2
        · rename_i line hline
          split at h
          · cases (Prod.mk.inj h).2
          · rename_i bytes hbytes
            have hfits : (approvalRecord F context binding signed.event at_).Fits host.limits ∧
                line = textOf context binding signed.event at_ := by
              rw [← dumps_approvalRecord (F := F)]
              unfold canonicalJson Json.dumpsWithin at hline
              rw [sortKeys_approvalRecord] at hline
              split at hline
              · rename_i text htext
                cases hline
                split at htext
                · cases htext
                · rename_i hdepth
                  split at htext
                  · rename_i hints
                    cases htext
                    exact ⟨⟨hints, not_lt.mp hdepth⟩, rfl⟩
                  · cases htext
              · cases hline
            have hbytes' : bytes = textOf context binding signed.event at_ ++ [0x0a] := by
              unfold encodeUtf8 at hbytes
              split at hbytes
              · rw [← Except.ok.inj hbytes, hfits.2]
                rfl
              · cases hbytes
            refine ⟨path, rfl, hmode, hreadable, hfits.1, ?_⟩
            rw [← (Prod.mk.inj h).1, hbytes']

/-- The decision for a call that matches a rule is what the log says of its binding. -/
theorem evaluate_eq {call : ToolCall F} {rules : List ExternalEffectRule}
    {rule : ExternalEffectRule} {hash : Str} {path : Path}
    (hrule : matchingRule host call rules = .ok (some rule))
    (hhash : actionHash host call (targetId rule call) = .ok hash)
    (hpath : context.approvalLog = some path) :
    evaluateToolCall host disk call rules context =
      (hasValidApproval host F ⟨hash, targetId rule call⟩ context.ownerId context.e2eTestMode
        (disk path)).map fun approved => ⟨true, approved,
          some (if approved then "approved" else "approval_required"), hash, targetId rule call⟩ := by
  simp only [evaluateToolCall, hrule, hhash, hpath, bind, Except.bind]
  cases hasValidApproval host F ⟨hash, targetId rule call⟩ context.ownerId context.e2eTestMode (disk path) <;> rfl

theorem evaluate_allowed {call : ToolCall F} {rules : List ExternalEffectRule}
    {rule : ExternalEffectRule} {hash : Str} {path : Path}
    (hrule : matchingRule host call rules = .ok (some rule))
    (hhash : actionHash host call (targetId rule call) = .ok hash)
    (hpath : context.approvalLog = some path) :
    (∃ d, evaluateToolCall host disk call rules context = .ok d ∧ d.allowed = true) ↔
      hasValidApproval host F ⟨hash, targetId rule call⟩ context.ownerId context.e2eTestMode
        (disk path) = .ok true := by
  rw [evaluate_eq hrule hhash hpath]
  cases hvalid : hasValidApproval host F ⟨hash, targetId rule call⟩ context.ownerId context.e2eTestMode (disk path) with
  | error fault => simp [Except.map]
  | ok approved => cases approved <;> simp [Except.map]

theorem actionHash_noRawBreak {call : ToolCall F} {target hash : Str}
    (h : actionHash host call target = .ok hash) : NoRawBreak hash := by
  simp only [actionHash, bind, Except.bind] at h
  split at h
  · cases h
  · split at h
    · cases h
    · rename_i bytes _
      cases h
      intro c hc
      rcases List.mem_append.mp hc with hc | hc
      · exact (by decide : NoRawBreak (Str.of "sha256:")) c hc
      · have hdigit := host.sha256Hex_digits bytes c hc
        simp only [isDigit, Bool.or_eq_true, Bool.and_eq_true, decide_eq_true_eq] at hdigit
        simp only [isRawBreak, Bool.or_eq_false_iff, decide_eq_false_iff_not]
        omega

/-- **The condition.** The log can be read as a text, and either a complete line of it already approves
the action (with no raising line before), or no complete line raises, what stands behind the last line
boundary is white space, and none of the three free texts of the record holds a raw boundary. -/
def Seen (F : Type) [PyFloat F] (host : Host) (context : ApprovalContext) (binding : ApprovalBinding)
    (eventId : Str) (log : LogFile) : Prop :=
  ∃ prior, log.content = some prior ∧
    (ApprovedBy F host binding context.ownerId context.e2eTestMode (completeLines prior) ∨
      ((∀ line ∈ completeLines prior, Quiet F host line) ∧
        (∀ c ∈ openLine prior, isJsonSpace c = true) ∧
        NoRawBreak eventId ∧ NoRawBreak context.ownerId ∧ NoRawBreak binding.targetId))

/-- A record that is a line of its own, up to white space, approves its action. -/
theorem whole_record_approving {line : Str}
    (hfits : (approvalRecord F context binding signed.event at_).Fits host.limits)
    (hmode : context.e2eTestMode = true) (hline : ∀ c ∈ line, isJsonSpace c = true) :
    Approving F host binding context.ownerId context.e2eTestMode (line ++ textOf context binding signed.event at_) := by
  refine ⟨approvalRecord F context binding signed.event at_, ?_, ?_⟩
  · have hend : ∀ c ∈ ([] : Str), isJsonSpace c = true := by
      intro c hc
      cases hc
    have hload : Json.loads host.limits
        (line ++ (approvalRecord F context binding signed.event at_).dumps .compact ++ []) =
          .ok (approvalRecord F context binding signed.event at_).dict :=
      Json.loads_dumps hfits hline hend
    rwa [dumps_approvalRecord, List.append_nil, dict_approvalRecord] at hload
  · exact (approves_approvalRecord context binding signed.event at_).mpr ⟨hmode, rfl, rfl⟩

/-- Where the condition holds, the log is read as approving behind the record, whatever follows. -/
theorem approvedBy_of_seen {prior : Str}
    (hfits : (approvalRecord F context binding signed.event at_).Fits host.limits)
    (hhash : NoRawBreak binding.actionHash) (hmode : context.e2eTestMode = true)
    (hseen : ApprovedBy F host binding context.ownerId context.e2eTestMode (completeLines prior) ∨
      ((∀ line ∈ completeLines prior, Quiet F host line) ∧
        (∀ c ∈ openLine prior, isJsonSpace c = true) ∧ NoRawBreak signed.event.eventId ∧
        NoRawBreak context.ownerId ∧ NoRawBreak binding.targetId)) (more : Str) :
    ApprovedBy F host binding context.ownerId context.e2eTestMode
      (splitlines (prior ++ (textOf context binding signed.event at_ ++ 0x0a :: more))) := by
  rw [splitlines_append prior (by simp [textOf, recordText, recordHead]), approvedBy_append]
  rcases hseen with happroved | ⟨hquiet, hopen, hevent, howner, htarget⟩
  · exact .inl happroved
  · refine .inr ⟨hquiet, ?_⟩
    rw [record_lines_whole context binding signed.event at_ hevent howner hhash htarget, approvedBy_cons]
    exact .inl (whole_record_approving hfits hmode hopen)

/-- Where the log is read as approving behind the record alone, the condition holds. -/
theorem seen_of_approvedBy {prior : Str} (hhash : NoRawBreak binding.actionHash)
    (h : ApprovedBy F host binding context.ownerId context.e2eTestMode
      (splitlines (prior ++ (textOf context binding signed.event at_ ++ [0x0a])))) :
    ApprovedBy F host binding context.ownerId context.e2eTestMode (completeLines prior) ∨
      ((∀ line ∈ completeLines prior, Quiet F host line) ∧
        (∀ c ∈ openLine prior, isJsonSpace c = true) ∧ NoRawBreak signed.event.eventId ∧
        NoRawBreak context.ownerId ∧ NoRawBreak binding.targetId) := by
  rw [splitlines_append prior (by simp [textOf, recordText, recordHead]), approvedBy_append] at h
  rcases h with happroved | ⟨hquiet, happroved⟩
  · exact .inl happroved
  · refine .inr ⟨hquiet, ?_⟩
    by_cases hfree : NoRawBreak signed.event.eventId ∧ NoRawBreak context.ownerId ∧ NoRawBreak binding.targetId
    · obtain ⟨hevent, howner, htarget⟩ := hfree
      refine ⟨?_, hevent, howner, htarget⟩
      rw [record_lines_whole context binding signed.event at_ hevent howner hhash htarget, approvedBy_cons] at happroved
      rcases happroved with happroving | ⟨-, before, line, after, hsplit, -⟩
      · obtain ⟨v, hscan, -⟩ := happroving.not_keyFree
        exact record_ends_line (F := F) host.limits context binding signed.event at_ hscan
      · simp [splitlinesFrom] at hsplit
    · obtain ⟨lines, hlines, hsplit⟩ := record_lines_cut (F := F) host.limits context binding
        signed.event at_ hhash hfree (openLine prior)
      rw [hsplit [], show splitlinesFrom [] [] = [] from rfl, List.append_nil] at happroved
      exact absurd happroved (not_approvedBy_harmless hlines)

omit [PyFloat F] in
theorem append_content {log : LogFile} {prior : Str} (h : log.content = some prior) (s : Str) :
    log.append s = .text (prior ++ s) := by
  cases log with
  | missing =>
    cases h
    rfl
  | text content =>
    cases h
    rfl
  | unreadable => cases h
  | undecodable => cases h

/-- **When a recorded approval is seen.** Once `record_signed_e2e_approval` returned `True` for the hash
and target of a call, evaluating the call allows it, after any further appends, exactly under the
condition `Seen` on the log before and on the three free texts of the record. -/
theorem recorded_iff {call : ToolCall F} {rules : List ExternalEffectRule} {rule : ExternalEffectRule}
    {hash : Str} (hrule : matchingRule host call rules = .ok (some rule))
    (hhash : actionHash host call (targetId rule call) = .ok hash)
    (hrec : recordSignedE2eApproval host F context ⟨hash, targetId rule call⟩ signed at_ disk = (disk', .ok true)) :
    (∀ more, ∃ d, evaluateToolCall host (appendLog context more disk') call rules context = .ok d ∧ d.allowed = true) ↔
      ∃ path, context.approvalLog = some path ∧
        Seen F host context ⟨hash, targetId rule call⟩ signed.event.eventId (disk path) := by
  obtain ⟨path, hpath, hmode, hreadable, hfits, rfl⟩ := recordSigned_true hrec
  have hraw := actionHash_noRawBreak hhash
  have hlog : ∀ more, appendLog context more (Function.update disk path ((disk path).append
      (textOf context ⟨hash, targetId rule call⟩ signed.event at_ ++ [0x0a]))) path =
      ((disk path).append (textOf context ⟨hash, targetId rule call⟩ signed.event at_ ++ [0x0a])).append more := by
    intro more
    simp [appendLog, hpath]
  have heval : ∀ d : Disk, (∃ decision, evaluateToolCall host d call rules context = .ok decision ∧
      decision.allowed = true) ↔ hasValidApproval host F ⟨hash, targetId rule call⟩ context.ownerId
        context.e2eTestMode (d path) = .ok true :=
    fun _ => evaluate_allowed hrule hhash hpath
  simp only [heval, hlog, hpath, Option.some.injEq, exists_eq_left']
  cases hcontent : (disk path).content with
  | none =>
    have hundecodable : disk path = .undecodable := by
      cases hfile : disk path with
      | missing => simp [hfile, LogFile.content] at hcontent
      | text content => simp [hfile, LogFile.content] at hcontent
      | unreadable => exact absurd hfile hreadable
      | undecodable => rfl
    simp [hundecodable, LogFile.append, hasValidApproval, Seen, LogFile.content]
  | some prior =>
    have htext : ∀ more, ((disk path).append (textOf context ⟨hash, targetId rule call⟩ signed.event
        at_ ++ [0x0a])).append more = .text (prior ++ (textOf context ⟨hash, targetId rule call⟩
          signed.event at_ ++ 0x0a :: more)) := by
      intro more
      rw [append_content hcontent]
      simp [LogFile.append]
    simp only [htext, hasValidApproval, scanLog_eq_true, Seen, hcontent, Option.some.injEq, exists_eq_left']
    constructor
    · intro h
      exact seen_of_approvedBy hraw (h [])
    · intro hseen more
      exact approvedBy_of_seen hfits hraw hmode hseen more

end Recording

/-! ## §5 — A log of recorded approvals -/

/-- An approval that was recorded: in which log, for which owner, of which call on which target. -/
structure Entry (F : Type) where
  log : Path
  ownerId : Str
  call : ToolCall F
  targetId : Str

section Log

variable {F : Type} [PyFloat F] {host : Host} {path : Path}

/-- The files behind a run of `record_signed_e2e_approval` calls, each made for the action hash of some
call on some target, and the approvals they recorded. The log at `path` starts out missing or empty; a
call that returned `False` or raised records nothing. -/
inductive Built (host : Host) (path : Path) : List (Entry F) → Disk → Prop
  | start {disk : Disk} (hempty : (disk path).content = some []) : Built host path [] disk
  | record {entries : List (Entry F)} {disk disk' : Disk} {context : ApprovalContext} {log : Path}
      {call : ToolCall F} {target hash : Str} {signed : SignedApprovalEvent} {at_ : Timestamp}
      (hbuilt : Built host path entries disk) (hlog : context.approvalLog = some log)
      (hhash : actionHash host call target = .ok hash)
      (hrec : recordSignedE2eApproval host F context ⟨hash, target⟩ signed at_ disk =
        (disk', .ok true)) :
      Built host path (entries ++ [⟨log, context.ownerId, call, target⟩]) disk'
  | refused {entries : List (Entry F)} {disk disk' : Disk} {context : ApprovalContext}
      {binding : ApprovalBinding} {signed : SignedApprovalEvent} {at_ : Timestamp}
      {result : Except GateFault Bool} (hbuilt : Built host path entries disk)
      (hrec : recordSignedE2eApproval host F context binding signed at_ disk = (disk', result))
      (hno : result ≠ .ok true) : Built host path entries disk'

/-- A line that reads as a dictionary with a key is the record of one of the entries. -/
def Accounted (host : Host) (path : Path) (entries : List (Entry F)) (line : Str) : Prop :=
  ∀ v : Json F, scan host.limits start line = .ok v → KeyFree v ∨
    ∃ e ∈ entries, ∃ (context : ApprovalContext) (hash : Str) (event : InboundEvent) (at_ : Timestamp),
      e.log = path ∧ e.ownerId = context.ownerId ∧ actionHash host e.call e.targetId = .ok hash ∧
        v = approvalRecord F context ⟨hash, e.targetId⟩ event at_

theorem Accounted.more {entries : List (Entry F)} {line : Str} (h : Accounted host path entries line)
    (e : Entry F) : Accounted host path (entries ++ [e]) line := by
  intro v hv
  rcases h v hv with hfree | ⟨e', he', hrest⟩
  · exact .inl hfree
  · exact .inr ⟨e', List.mem_append_left _ he', hrest⟩

/-- The log is text that leaves no line open, and every line of it is accounted for. -/
def WellBuilt (host : Host) (entries : List (Entry F)) (path : Path) (log : LogFile) : Prop :=
  ∃ content, log.content = some content ∧ openLine content = [] ∧
    ∀ line ∈ completeLines content, Accounted host path entries line

omit [PyFloat F] in
theorem opened_content (log : LogFile) : log.opened.content = log.content := by
  cases log <;> rfl

theorem appendRecord_failed {record : Json F} {log : LogFile}
    (h : (appendRecord host record log).2 ≠ .ok ()) :
    (appendRecord host record log).1.content = log.content := by
  unfold appendRecord at h ⊢
  split
  · rfl
  · split
    · exact opened_content log
    · split
      · exact opened_content log
      · rename_i hreadable _ _ hline _ _ hbytes
        simp [hreadable, hline, hbytes] at h

/-- A call that did not return `True` leaves the text of every log as it was. -/
theorem recordSigned_refused {context : ApprovalContext} {binding : ApprovalBinding}
    {signed : SignedApprovalEvent} {at_ : Timestamp} {disk disk' : Disk}
    {result : Except GateFault Bool}
    (h : recordSignedE2eApproval host F context binding signed at_ disk = (disk', result))
    (hno : result ≠ .ok true) (p : Path) : (disk' p).content = (disk p).content := by
  unfold recordSignedE2eApproval at h
  split at h
  · rw [(Prod.mk.inj h).1]
  · rename_i log _
    split at h
    · rw [(Prod.mk.inj h).1]
    · rw [(Prod.mk.inj h).1]
    · split at h
      · rw [(Prod.mk.inj h).1]
      split at h
      · rw [(Prod.mk.inj h).1]
      obtain ⟨hdisk, hresult⟩ := Prod.mk.inj h
      have hfailed : (appendRecord host (approvalRecord F context binding signed.event at_) (disk log)).2 ≠ .ok () := by
        intro hok
        refine hno ?_
        rw [← hresult]
        change Except.map _ (appendRecord host (approvalRecord F context binding signed.event at_) (disk log)).2 = _
        rw [hok]
        rfl
      rw [← hdisk]
      by_cases hp : p = log
      · subst hp
        rw [Function.update_self]
        exact appendRecord_failed hfailed
      · rw [Function.update_of_ne hp]

/-- One recorded approval keeps the log accounted for. -/
theorem WellBuilt.record {entries : List (Entry F)} {context : ApprovalContext} {call : ToolCall F}
    {target hash : Str} {event : InboundEvent} {at_ : Timestamp} {log : LogFile}
    (h : WellBuilt host entries path log) (hhash : actionHash host call target = .ok hash)
    (hfits : (approvalRecord F context ⟨hash, target⟩ event at_).Fits host.limits) :
    WellBuilt host (entries ++ [⟨path, context.ownerId, call, target⟩]) path
      (log.append (textOf context ⟨hash, target⟩ event at_ ++ [0x0a])) := by
  obtain ⟨content, hcontent, hopen, hlines⟩ := h
  have hraw := actionHash_noRawBreak hhash
  have hclosed : openLine (content ++ (textOf context ⟨hash, target⟩ event at_ ++ [0x0a])) = [] := by
    rw [← List.append_assoc]
    exact lineSplit_newline [] _
  refine ⟨_, by rw [append_content hcontent]; rfl, hclosed, ?_⟩
  rw [← splitlines_of_closed hclosed, splitlines_append content (by simp [textOf, recordText, recordHead]), hopen]
  intro line hline
  rcases List.mem_append.mp hline with hline | hline
  · exact (hlines line hline).more _
  · by_cases hfree : NoRawBreak event.eventId ∧ NoRawBreak context.ownerId ∧ NoRawBreak target
    · -- The record is a line of its own, and reads back as itself.
      rw [record_lines_whole context ⟨hash, target⟩ event at_ hfree.1 hfree.2.1 hraw hfree.2.2] at hline
      have hself : line = textOf context ⟨hash, target⟩ event at_ := by
        simpa [splitlinesFrom] using hline
      intro v hv
      have hscan : scan host.limits start ([] ++
          (approvalRecord F context ⟨hash, target⟩ event at_).dumps .compact ++ []) =
            .ok (approvalRecord F context ⟨hash, target⟩ event at_) :=
        scan_dumps_top hfits (by simp) (by simp)
      rw [dumps_approvalRecord, List.nil_append, List.append_nil, ← hself] at hscan
      refine .inr ⟨_, List.mem_append_right _ (List.mem_singleton.mpr rfl), context, hash, event, at_, rfl,
        rfl, hhash, ?_⟩
      exact Except.ok.inj (hv.symm.trans hscan)
    · -- The record is cut, and no piece of it is a dictionary with a key.
      obtain ⟨lines, hharmless, hsplit⟩ := record_lines_cut (F := F) host.limits context ⟨hash, target⟩
        event at_ hraw hfree []
      rw [hsplit [], show splitlinesFrom [] [] = [] from rfl, List.append_nil] at hline
      exact fun v hv => .inl (hharmless line hline v hv)

/-- **Every run of recordings leaves the log accounted for.** -/
theorem Built.wellBuilt {entries : List (Entry F)} {disk : Disk} (h : Built host path entries disk) :
    WellBuilt host entries path (disk path) := by
  induction h with
  | start hempty => exact ⟨[], hempty, rfl, fun line hline => (by cases hline)⟩
  | @record entries disk disk' context log call target hash signed at_ hbuilt hlog hhash hrec ih =>
    obtain ⟨log', hlog', -, -, hfits, rfl⟩ := recordSigned_true hrec
    obtain rfl : log = log' := Option.some.inj (hlog.symm.trans hlog')
    by_cases hpath : path = log
    · subst hpath
      rw [Function.update_self]
      exact ih.record hhash hfits
    · rw [Function.update_of_ne hpath]
      obtain ⟨content, hcontent, hopen, hlines⟩ := ih
      exact ⟨content, hcontent, hopen, fun line hline => (hlines line hline).more _⟩
  | refused hbuilt hrec hno ih =>
    obtain ⟨content, hcontent, hrest⟩ := ih
    exact ⟨content, (recordSigned_refused hrec hno path).trans hcontent, hrest⟩

theorem actionHash_ok {call : ToolCall F} {target hash : Str} (h : actionHash host call target = .ok hash) :
    hash = Str.of "sha256:" ++ host.sha256Hex ((actionPayload call target).sortKeys.dumps .compact) := by
  simp only [actionHash, bind, Except.bind] at h
  split at h
  · cases h
  · rename_i canonical hcanonical
    split at h
    · cases h
    · rename_i bytes hbytes
      unfold encodeUtf8 at hbytes
      split at hbytes
      · rw [← canonicalJson_ok hcanonical, Except.ok.inj hbytes]
        exact (Except.ok.inj h).symm
      · cases hbytes

/-- **The hash binds the call.** Where SHA-256 does not collide, equal action hashes mean the same target,
the same tool and the same arguments up to the order of keys. -/
theorem actionHash_binds (hsha : Function.Injective host.sha256Hex) {call call' : ToolCall F}
    {target target' hash : Str} (h : actionHash host call target = .ok hash)
    (h' : actionHash host call' target' = .ok hash) :
    target = target' ∧ call.toolName = call'.toolName ∧
      (Json.obj call.arguments).sortKeys = (Json.obj call'.arguments).sortKeys := by
  have hdigest := List.append_cancel_left ((actionHash_ok h).symm.trans (actionHash_ok h'))
  have hpayload := Json.dumps_injective (hsha hdigest)
  -- The payload's own keys stand in order, so sorting it sorts the arguments alone.
  have hshape : ∀ (c : ToolCall F) (t : Str), (actionPayload c t).sortKeys =
      .obj [("action", .str "external_effect.tool_call"), ("arguments", (Json.obj c.arguments).sortKeys),
        ("target_id", .str t), ("tool_name", .str c.toolName)] := fun c t => rfl
  rw [hshape, hshape] at hpayload
  simp only [Json.obj.injEq, List.cons.injEq, Prod.mk.injEq, Json.str.injEq, and_true, true_and] at hpayload
  exact ⟨hpayload.2.1, hpayload.2.2, hpayload.1⟩

/-- **A log of recorded approvals approves only what was recorded.** -/
theorem built_log_sound (hsha : Function.Injective host.sha256Hex) {entries : List (Entry F)}
    {disk : Disk} (hbuilt : Built host path entries disk) {call : ToolCall F}
    {rules : List ExternalEffectRule} {context : ApprovalContext} (hpath : context.approvalLog = some path)
    {d : ExternalEffectDecision} (heval : evaluateToolCall host disk call rules context = .ok d)
    (heffect : d.externalEffect = true) (hallowed : d.allowed = true) :
    context.e2eTestMode = true ∧ ∃ e ∈ entries, e.log = path ∧ e.ownerId = context.ownerId ∧
      e.targetId = d.targetId ∧ e.call.toolName = call.toolName ∧
      (Json.obj e.call.arguments).sortKeys = (Json.obj call.arguments).sortKeys := by
  -- The call matches a rule, and has a hash.
  cases hrule : matchingRule host call rules with
  | error fault => simp [evaluateToolCall, hrule, bind, Except.bind] at heval
  | ok found =>
    cases found with
    | none =>
      simp only [evaluateToolCall, hrule, bind, Except.bind, pure, Except.pure, Except.ok.injEq] at heval
      rw [← heval] at heffect
      cases heffect
    | some rule =>
      cases hhash : actionHash host call (targetId rule call) with
      | error fault => simp [evaluateToolCall, hrule, hhash, bind, Except.bind] at heval
      | ok hash =>
        have hvalid := (evaluate_allowed hrule hhash hpath).mp ⟨d, heval, hallowed⟩
        have htarget : d.targetId = targetId rule call := by
          simp only [evaluateToolCall, hrule, hhash, hpath, bind, Except.bind] at heval
          rw [hvalid] at heval
          rw [← Except.ok.inj heval]
        obtain ⟨content, hcontent, hopen, hlines⟩ := hbuilt.wellBuilt
        have happroved : ApprovedBy F host ⟨hash, targetId rule call⟩ context.ownerId
            context.e2eTestMode (splitlines content) := by
          cases hfile : disk path with
          | missing => simp [hfile, hasValidApproval] at hvalid
          | unreadable => simp [hfile, LogFile.content] at hcontent
          | undecodable => simp [hfile, LogFile.content] at hcontent
          | text content' =>
            rw [hfile] at hcontent hvalid
            obtain rfl := Option.some.inj hcontent
            exact scanLog_eq_true.mp hvalid
        -- The approving line is the record of an entry.
        obtain ⟨before, line, after, hsplit, -, happroving⟩ := happroved
        obtain ⟨v, hscan, hkey, happroves⟩ := happroving.not_keyFree
        have hmem : line ∈ completeLines content := by
          rw [← splitlines_of_closed hopen, hsplit]
          simp
        obtain ⟨e, he, context', hash', event, at_, hlog, howner, hhash', rfl⟩ :=
          (hlines line hmem v hscan).resolve_left hkey
        rw [dict_approvalRecord, approves_approvalRecord] at happroves
        obtain ⟨hmode, hbinding, howner'⟩ := happroves
        injection hbinding with hhashes htargets
        subst hhashes
        obtain ⟨-, hname, harguments⟩ := actionHash_binds hsha hhash' hhash
        exact ⟨hmode, e, he, hlog, howner.trans howner', htargets.trans htarget.symm, hname, harguments⟩

end Log

/-! ## §6 — A sample -/

section Sample

/-- The call of the samples, and the rule that matches it. -/
def sampleCall : ToolCall SampleFloat := ⟨"external_submit", [("payload", .str "dry-run")]⟩

def sampleRule : ExternalEffectRule :=
  ⟨"generic_external_effect_tool", fun name => name = Str.of "external_submit", fun _ => true⟩

def samplePayload : Str := (actionPayload sampleCall (targetId sampleRule sampleCall)).dumps .compact

/-- SHA-256 of the payload of the samples. -/
def sampleDigest : Str := "50995a4ef03661fdd6ea177f5b0352eda1f7c6e8e33c11973df504d5c91f5d4f"

def sampleSha (t : Str) : Str := if t = samplePayload then sampleDigest else 0x62 :: unaryCode t

theorem sampleSha_payload : sampleSha samplePayload = sampleDigest := by
  unfold sampleSha
  rw [if_pos rfl]

/-- The default limits, and digests that are the real ones on the samples. -/
def sampleHost : Host where
  limits := ⟨4300, 1000⟩
  sha256Hex := sampleSha
  sha256Hex_digits := by
    intro t c hc
    unfold sampleSha at hc
    split at hc
    · exact (by decide : ∀ c ∈ sampleDigest, (isDigit c || (0x61 ≤ c && c ≤ 0x66)) = true) c hc
    · rcases List.mem_cons.mp hc with rfl | hc
      · decide
      · obtain ⟨n, -, hn⟩ := List.mem_flatMap.mp hc
        rcases List.mem_append.mp hn with hn | hn
        · rw [(List.mem_replicate.mp hn).2]
          decide
        · rw [List.mem_singleton.mp hn]
          decide
  hmacHex _ event :=
    if 0x2028 ∈ event then "5e3aa8140273c58a1c601272951430b6bd490d1263223ef22ff30b9cbcd83a7e"
    else "2db0a7a2f19f26289b1c181b39d2586c74f79182b0fc880307203383af972ebc"

theorem sampleHost_injective : Function.Injective sampleHost.sha256Hex := by
  have hdigest : ∀ t, sampleDigest ≠ 0x62 :: unaryCode t := by
    intro t h
    cases h
  intro s t h
  simp only [sampleHost, sampleSha] at h
  split at h
  · split at h
    · simp_all
    · exact absurd h (hdigest t)
  · split at h
    · exact absurd h.symm (hdigest s)
    · exact unaryCode_injective (List.cons.inj h).2

def sampleHash : Str := Str.of "sha256:" ++ sampleDigest

def sampleTarget : Str := targetId sampleRule sampleCall

def sampleContext : ApprovalContext := ⟨some (Str.of "approvals.jsonl"), "owner", true⟩

def sampleAt : Timestamp := ⟨"2026-01-01T00:00:00Z", by decide⟩

/-- The signed approval of the sample call, under an event id. -/
def sampleSigned (eventId signature : Str) : SignedApprovalEvent where
  event := ⟨eventId, "owner", "approvals", approvalChallenge ⟨sampleHash, sampleTarget⟩⟩
  signature := signature
  secret := Str.of "e2e-secret"

/-- No log yet. -/
def noLog : Disk := fun _ => .missing

theorem sample_rule : matchingRule sampleHost sampleCall [sampleRule] = .ok (some sampleRule) := by
  rfl

theorem encodeUtf8_of {text : Str} (h : encodable text = true) : encodeUtf8 text = .ok text := by
  unfold encodeUtf8
  rw [if_pos h]

theorem sample_hash : actionHash sampleHost sampleCall (targetId sampleRule sampleCall) = .ok sampleHash := by
  have hpayload : canonicalJson sampleHost (actionPayload sampleCall (targetId sampleRule sampleCall)) =
      .ok samplePayload := rfl
  have hplain : encodable samplePayload = true := by decide +kernel
  have hencode := encodeUtf8_of hplain
  have hsha : sampleHost.sha256Hex = sampleSha := rfl
  simp only [actionHash, hpayload, hencode, hsha, sampleSha_payload, bind, Except.bind]
  rfl

/-- The record of the sample call reaches the log, once its event is accepted and can be encoded. -/
theorem sample_recorded {eventId signature : Str}
    (haccept : acceptTestEvent sampleHost SampleFloat (sampleSigned eventId signature) true = .ok true)
    (hencode : encodable (textOf sampleContext ⟨sampleHash, sampleTarget⟩
      (sampleSigned eventId signature).event sampleAt ++ Str.of "\n") = true) :
    recordSignedE2eApproval sampleHost SampleFloat sampleContext ⟨sampleHash, sampleTarget⟩
      (sampleSigned eventId signature) sampleAt noLog =
        (Function.update noLog "approvals.jsonl" (.text (textOf sampleContext ⟨sampleHash, sampleTarget⟩
          (sampleSigned eventId signature).event sampleAt ++ Str.of "\n")), .ok true) := by
  have hline : canonicalJson sampleHost (approvalRecord SampleFloat sampleContext
      ⟨sampleHash, sampleTarget⟩ (sampleSigned eventId signature).event sampleAt) =
        .ok (textOf sampleContext ⟨sampleHash, sampleTarget⟩ (sampleSigned eventId signature).event sampleAt) := by
    have hdepth : (approvalRecord SampleFloat sampleContext ⟨sampleHash, sampleTarget⟩
        (sampleSigned eventId signature).event sampleAt).depth = 2 := rfl
    have hnesting : sampleHost.limits.nesting = 1000 := rfl
    rw [canonicalJson, sortKeys_approvalRecord, Json.dumpsWithin, hdepth, hnesting, if_neg (by decide),
      if_pos (approvalRecord_ints _ _ _ _ _), dumps_approvalRecord]
  have happend : appendRecord sampleHost (approvalRecord SampleFloat sampleContext
      ⟨sampleHash, sampleTarget⟩ (sampleSigned eventId signature).event sampleAt) .missing =
        (.text (textOf sampleContext ⟨sampleHash, sampleTarget⟩ (sampleSigned eventId signature).event
          sampleAt ++ Str.of "\n"), .ok ()) := by
    simp only [appendRecord, hline, encodeUtf8_of hencode]
    rfl
  have haccept' : acceptTestEvent sampleHost SampleFloat (sampleSigned eventId signature)
      sampleContext.e2eTestMode = .ok true := haccept
  simp only [recordSignedE2eApproval, show sampleContext.approvalLog = some (Str.of "approvals.jsonl") from rfl,
    haccept']
  rw [if_neg (by simp [sampleSigned, sampleContext]), if_neg (by simp [sampleSigned])]
  simp only [noLog, happend]
  rfl

/-- The signed approval whose event id is plain. -/
def samplePlain : SignedApprovalEvent :=
  sampleSigned "e2e-approval" "2db0a7a2f19f26289b1c181b39d2586c74f79182b0fc880307203383af972ebc"

/-- The signed approval whose event id holds a line separator. -/
def sampleCut : SignedApprovalEvent :=
  sampleSigned (Str.of "e2e" ++ 0x2028 :: Str.of "approval")
    "5e3aa8140273c58a1c601272951430b6bd490d1263223ef22ff30b9cbcd83a7e"

theorem samples_fit : (∀ signed ∈ [samplePlain, sampleCut],
      acceptTestEvent sampleHost SampleFloat signed true = .ok true ∧
        encodable (textOf sampleContext ⟨sampleHash, sampleTarget⟩ signed.event sampleAt ++ Str.of "\n") = true) := by
  simp only [samplePlain, sampleCut, sampleSigned, sampleHash, sampleDigest, sampleHost]
  repeat rw [Str.of_literal]
  decide +kernel

/-- The files behind the recording of an approval of the sample call where no log was. -/
def sampleLog (signed : SignedApprovalEvent) : Disk :=
  Function.update noLog (Str.of "approvals.jsonl")
    (.text (textOf sampleContext ⟨sampleHash, sampleTarget⟩ signed.event sampleAt ++ Str.of "\n"))

theorem samplePlain_recorded : recordSignedE2eApproval sampleHost SampleFloat sampleContext
    ⟨sampleHash, sampleTarget⟩ samplePlain sampleAt noLog = (sampleLog samplePlain, .ok true) := by
  obtain ⟨haccept, hencode⟩ := samples_fit samplePlain (by simp)
  exact sample_recorded haccept hencode

theorem sampleCut_recorded : recordSignedE2eApproval sampleHost SampleFloat sampleContext
    ⟨sampleHash, sampleTarget⟩ sampleCut sampleAt noLog = (sampleLog sampleCut, .ok true) := by
  obtain ⟨haccept, hencode⟩ := samples_fit sampleCut (by simp)
  exact sample_recorded haccept hencode

theorem samplePlain_evaluated : evaluateToolCall sampleHost (sampleLog samplePlain) sampleCall [sampleRule]
    sampleContext = .ok ⟨true, true, some "approved", sampleHash, sampleTarget⟩ := by
  have hpath : sampleContext.approvalLog = some (Str.of "approvals.jsonl") := rfl
  obtain ⟨-, -, -, -, hfits, -⟩ := recordSigned_true samplePlain_recorded
  have happroved : ApprovedBy SampleFloat sampleHost ⟨sampleHash, sampleTarget⟩ sampleContext.ownerId
      sampleContext.e2eTestMode (splitlines ([] ++ (textOf sampleContext ⟨sampleHash, sampleTarget⟩
        samplePlain.event sampleAt ++ 0x0a :: []))) :=
    approvedBy_of_seen hfits (actionHash_noRawBreak sample_hash) rfl
      (.inr ⟨fun line hline => (by cases hline), fun c hc => (by cases hc), by decide, by decide, by decide⟩) []
  rw [evaluate_eq sample_rule sample_hash hpath]
  exact congrArg (Except.map _) (scanLog_eq_true.mpr happroved)

/-- The two lines into which the separator cuts the record. -/
def cutLines : List Str :=
  [recordHead ++ Str.of "e2e", Str.of "approval" ++ (afterMessageId ++ (escape (Str.of "owner") ++
    (afterOwnerId sampleHash ++ (escape sampleTarget ++ afterTargetId sampleAt.text))))]

theorem cutLines_approve_nothing : (∀ line ∈ cutLines, NoBreak line) ∧
    scanLog sampleHost (approves (F := SampleFloat) ⟨sampleHash, sampleTarget⟩ sampleContext.ownerId
      sampleContext.e2eTestMode) cutLines = .ok false := by
  simp only [cutLines, sampleHash, sampleDigest]
  repeat rw [Str.of_literal]
  decide +kernel

theorem sampleCut_lines : splitlines (textOf sampleContext ⟨sampleHash, sampleTarget⟩ sampleCut.event sampleAt ++
    Str.of "\n") = cutLines := by
  obtain ⟨hplain, -⟩ := cutLines_approve_nothing
  have hfirst := hplain _ List.mem_cons_self
  have hsecond := hplain _ (List.mem_cons_of_mem _ List.mem_cons_self)
  have hlast : splitlines (_ ++ 0x0a :: []) = _ :: splitlines [] := splitlines_line hsecond rfl (by decide)
  exact (splitlines_line (c := 0x2028) hfirst rfl (by decide)).trans (congrArg (List.cons _) hlast)

theorem sampleCut_evaluated : evaluateToolCall sampleHost (sampleLog sampleCut) sampleCall [sampleRule]
    sampleContext = .ok ⟨true, false, some "approval_required", sampleHash, sampleTarget⟩ := by
  have hpath : sampleContext.approvalLog = some (Str.of "approvals.jsonl") := rfl
  have hscanned := cutLines_approve_nothing.2
  rw [← sampleCut_lines] at hscanned
  rw [evaluate_eq sample_rule sample_hash hpath]
  exact congrArg (Except.map _) hscanned

end Sample

/-! ## §7 — The round trip -/

/-- **Gate log round trip.** A recorded approval is seen by every later evaluation of its call exactly
under the condition `Seen`; and a log built by `record_signed_e2e_approval` alone allows an external
effect only in end-to-end mode, to the owner and for the call that were recorded. -/
theorem gate_log_round_trip {F : Type} [PyFloat F] (host : Host)
    (hsha : Function.Injective host.sha256Hex) :
    (∀ (call : ToolCall F) (rules : List ExternalEffectRule) (rule : ExternalEffectRule) (hash : Str)
        (context : ApprovalContext) (signed : SignedApprovalEvent) (at_ : Timestamp) (disk disk' : Disk),
      matchingRule host call rules = .ok (some rule) →
      actionHash host call (targetId rule call) = .ok hash →
      recordSignedE2eApproval host F context ⟨hash, targetId rule call⟩ signed at_ disk =
        (disk', .ok true) →
      ((∀ more, ∃ d, evaluateToolCall host (appendLog context more disk') call rules context = .ok d ∧
          d.allowed = true) ↔
        ∃ path, context.approvalLog = some path ∧
          Seen F host context ⟨hash, targetId rule call⟩ signed.event.eventId (disk path))) ∧
    (∀ (path : Path) (entries : List (Entry F)) (disk : Disk) (call : ToolCall F)
        (rules : List ExternalEffectRule) (context : ApprovalContext) (d : ExternalEffectDecision),
      Built host path entries disk → context.approvalLog = some path →
      evaluateToolCall host disk call rules context = .ok d → d.externalEffect = true →
      d.allowed = true →
      context.e2eTestMode = true ∧ ∃ e ∈ entries, e.log = path ∧ e.ownerId = context.ownerId ∧
        e.targetId = d.targetId ∧ e.call.toolName = call.toolName ∧
        (Json.obj e.call.arguments).sortKeys = (Json.obj call.arguments).sortKeys) := by
  refine ⟨?_, ?_⟩
  · intro call rules rule hash context signed at_ disk disk' hrule hhash hrec
    exact recorded_iff hrule hhash hrec
  · intro path entries disk call rules context d hbuilt hpath heval heffect hallowed
    exact built_log_sound hsha hbuilt hpath heval heffect hallowed

/-- The sample's approval, recorded under a plain event id, is seen whatever is appended behind it, and the
log says for which call it was given. -/
theorem gate_log_round_trip_plain :
    (∀ more, ∃ d, evaluateToolCall sampleHost (appendLog sampleContext more (sampleLog samplePlain))
        sampleCall [sampleRule] sampleContext = .ok d ∧ d.allowed = true) ∧
      ∃ e ∈ [(⟨"approvals.jsonl", "owner", sampleCall, sampleTarget⟩ : Entry SampleFloat)],
        e.ownerId = sampleContext.ownerId ∧ e.targetId = sampleTarget ∧
          e.call.toolName = sampleCall.toolName := by
  refine ⟨?_, ?_⟩
  · refine ((gate_log_round_trip sampleHost sampleHost_injective).1 sampleCall [sampleRule] sampleRule
      sampleHash sampleContext samplePlain sampleAt noLog (sampleLog samplePlain) sample_rule sample_hash
      samplePlain_recorded).mpr ⟨Str.of "approvals.jsonl", rfl, [], rfl, .inr ?_⟩
    exact ⟨fun line hline => (by cases hline), fun c hc => (by cases hc), by decide, by decide, by decide⟩
  · have hbuilt : Built sampleHost (Str.of "approvals.jsonl")
        ([] ++ [(⟨"approvals.jsonl", "owner", sampleCall, sampleTarget⟩ : Entry SampleFloat)])
          (sampleLog samplePlain) :=
      .record (.start rfl) rfl sample_hash samplePlain_recorded
    obtain ⟨-, e, he, -, howner, htarget, hname, -⟩ :=
      (gate_log_round_trip sampleHost sampleHost_injective).2 _ _ _ sampleCall [sampleRule] sampleContext _
        hbuilt rfl samplePlain_evaluated rfl rfl
    exact ⟨e, he, howner, htarget, hname⟩

/-- Under an event id with a line separator the same approval is recorded, and not seen. -/
theorem cut_approval_not_seen :
    recordSignedE2eApproval sampleHost SampleFloat sampleContext ⟨sampleHash, sampleTarget⟩ sampleCut
        sampleAt noLog = (sampleLog sampleCut, .ok true) ∧
      actionHash sampleHost sampleCall (targetId sampleRule sampleCall) = .ok sampleHash ∧
      evaluateToolCall sampleHost (sampleLog sampleCut) sampleCall [sampleRule] sampleContext =
        .ok ⟨true, false, some "approval_required", sampleHash, sampleTarget⟩ :=
  ⟨sampleCut_recorded, sample_hash, sampleCut_evaluated⟩

end Autophagy.Gate
