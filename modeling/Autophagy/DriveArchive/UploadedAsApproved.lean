/-
# Autophagy.DriveArchive.UploadedAsApproved — what reaches the drive, while the files change.

Uploads run one after the other, each cut off where it may be, while the files of the working tree and the approval
log change between any two of their steps. `uploaded_as_approved` says that every content that was sent has the
digest that an approved manifest lists for its path, and that the cursor records a digest only of what was sent,
as long as each file still has, when it is sent, the digest it had when the run hashed it; and that a run which finds
every file in the cursor sends nothing, whatever happens meanwhile.

Where a file was changed in between, the other content is sent and recorded under the old digest
(`changed_file_uploaded`).
-/
import Autophagy.DriveArchive.Uploader
import Autophagy.Effect.History
import Autophagy.Python.Equality
import Autophagy.Python.JsonFile
import Autophagy.Python.Sample

namespace Autophagy.DriveArchive

open Autophagy.Effect Autophagy.Effect.Machine Autophagy.Python

/-! ## §1 — The world -/

/-- The working tree, the approval log and what was in it before, the cursor, what was sent so far, and what the
present run has hashed. -/
structure Archive where
  tree : Str → Option Bytes
  log : Gate.LogFile
  past : List Gate.LogFile
  cursor : Gate.LogFile
  sent : List (Str × Bytes)
  hashed : List (Str × Bytes)

/-- A file was sent, or the sending failed, before or after the file was read. -/
def Sends (path : Str) (s : Archive) (r : Except UploadFault Str) (s' : Archive) : Prop :=
  (∃ fault, r = .error fault ∧ s' = s) ∨
    ∃ content, s.tree path = some content ∧ s' = { s with sent := (path, content) :: s.sent }

/-- A text file was written; where that failed, the beginning of the text is there, up to a character or not. -/
def Writes (text : Str) (r : Except UploadFault Unit) (file : Gate.LogFile) : Prop :=
  r = .ok () ∧ file = .text text ∨
    ∃ fault, r = .error fault ∧ (file = .undecodable ∨ ∃ beginning, beginning <+: text ∧ file = .text beginning)

/-- What an operation of an upload does. -/
def uploadStep : StepRel (RaisingRes UploadRes UploadFault) Archive
  | s, .op (.getPending _), _, s' => s' = { s with hashed := [] }
  | s, .op (.readBytes path), r, s' =>
    (∃ fault, r = .error fault ∧ s' = s) ∨
      ∃ content, r = .ok content ∧ s.tree path = some content ∧ s' = { s with hashed := (path, content) :: s.hashed }
  | s, .op .readLog, r, s' => s' = s ∧ ∀ file, r = .ok file → file = s.log ∨ file = .unreadable
  | s, .op .readCursor, r, s' => s' = s ∧ ∀ file, r = .ok file → file = s.cursor ∨ file = .unreadable
  | s, .op (.uploadNew path _ _), r, s' => Sends path s r s'
  | s, .op (.updateMedia _ path), r, s' => Sends path s r s'
  | s, .op .truncateCursor, r, s' =>
    (∃ fault, r = .error fault ∧ s' = s) ∨ r = .ok () ∧ s' = { s with cursor := .text [] }
  | s, .op (.writeCursor text), r, s' => ∃ file, Writes text r file ∧ s' = { s with cursor := file }
  | s, _, _, s' => s' = s

/-- Files of the tree change, or the approval log does. -/
def archiveEnv (s s' : Archive) : Prop :=
  (∃ tree, s' = { s with tree := tree }) ∨ ∃ log, s' = { s with log := log, past := s.log :: s.past }

/-- One upload at a time. -/
def archive : Machine (RaisingRes UploadRes UploadFault) Unit Archive where
  step _ := uploadStep
  env := archiveEnv
  halt _ s := s

section Property

variable {F : Type} [PyFloat F] (S : UploadSetting F)

/-- The uploads that may run. -/
def Uploads (prog : Prog (RaisingRes UploadRes UploadFault) Unit) : Prop :=
  ∃ actionHash, prog = (cmdUpload S actionHash).void

/-! ## §2 — The property -/

/-- The log has an approval record of the owner for the manifest's action hash. -/
def HasApproval (batch : BatchManifest) (log : Gate.LogFile) : Prop :=
  ∃ target hash, Gate.actionHash S.host (buildToolCall (F := F) batch) target = .ok hash ∧
    Gate.hasValidApproval S.host F ⟨hash, target⟩ S.context.ownerId S.context.e2eTestMode log = .ok true

/-- The content has the digest that an approved manifest lists for the path. -/
def Listed (s : Archive) (path : Str) (content : Bytes) : Prop :=
  ∃ batch : BatchManifest, ⟨path, S.sha256 content⟩ ∈ batch.files ∧ ∃ log ∈ s.log :: s.past, HasApproval S batch log

/-- Content with this digest was sent for the path. -/
def Sent (s : Archive) (path digest : Str) : Prop :=
  ∃ content, (path, content) ∈ s.sent ∧ S.sha256 content = digest

/-- Everything that was sent was approved. -/
def SentAsApproved (s : Archive) : Prop := ∀ path content, (path, content) ∈ s.sent → Listed S s path content

/-- The cursor records only what was sent. -/
def CursorHonest (s : Archive) : Prop :=
  ∀ cursor, cursorOf S s.cursor = .ok cursor → ∀ path digest, cursor.get? path = some digest → Sent S s path digest

/-- Every file that was hashed is, with its digest, in every cursor that was read. -/
def AllInCursor (trace : List (Event (RaisingRes UploadRes UploadFault))) : Prop :=
  ∀ path content file, ⟨.op (.readBytes path), .ok content⟩ ∈ trace → ⟨.op .readCursor, .ok file⟩ ∈ trace →
    ∃ cursor, cursorOf S file = .ok cursor ∧ cursor.get? path = some (S.sha256 content)

/-- The path that is sent. -/
def sentPath : Raising UploadOp UploadFault → Option Str
  | .op (.uploadNew path _ _) => some path
  | .op (.updateMedia _ path) => some path
  | _ => none

/-- The file has, when it is sent, the digest it had whenever the run hashed it. -/
def Unchanged (_ : Unit) : StepRel (RaisingRes UploadRes UploadFault) Archive := fun s op _ _ =>
  ∀ path, sentPath op = some path → ∀ content, s.tree path = some content →
    ∀ hashed, (path, hashed) ∈ s.hashed → S.sha256 content = S.sha256 hashed

end Property

/-! ## §3 — The cursor's text -/

section Cursor

variable {F : Type} [PyFloat F] {S : UploadSetting F}

theorem mem_of_get?_update {pairs : List (Str × Str)} {d : Dict Str Str} {k v : Str}
    (h : (d.update pairs).get? k = some v) : (k, v) ∈ pairs ∨ d.get? k = some v := by
  induction pairs generalizing d with
  | nil => exact .inr h
  | cons m pairs ih =>
    rcases ih h with hmem | hset
    · exact .inl (List.mem_cons_of_mem m hmem)
    · rw [Dict.get?_set] at hset
      split at hset
      · rename_i hk
        obtain rfl := Option.some.inj hset
        exact .inl (hk ▸ List.mem_cons_self)
      · exact .inr hset

/-- What `json.dumps` makes of a cursor. -/
def cursorJson (F : Type) (cursor : Dict Str Str) : Json F :=
  .obj ((Json.sortMembers (cursor.members.map fun m => (m.1, .str m.2))).insertionSort Json.memberLe)

omit [PyFloat F] in
theorem mem_cursorJson {cursor : Dict Str Str} {m : Str × Json F} :
    m ∈ (Json.sortMembers (cursor.members.map fun m => (m.1, (.str m.2 : Json F)))).insertionSort Json.memberLe ↔
      ∃ m' ∈ cursor.members, (m'.1, .str m'.2) = m := by
  rw [Json.mem_sorted]
  constructor
  · rintro ⟨_, hmem, rfl⟩
    obtain ⟨m', hm', rfl⟩ := List.mem_map.mp hmem
    exact ⟨m', hm', rfl⟩
  · rintro ⟨m', hm', rfl⟩
    exact ⟨_, List.mem_map_of_mem hm', rfl⟩

omit [PyFloat F] in
theorem nodup_cursorJson (cursor : Dict Str Str) :
    (((Json.sortMembers (cursor.members.map fun m => (m.1, (.str m.2 : Json F)))).insertionSort
      Json.memberLe).map Prod.fst).Nodup := by
  have hkeys := (List.perm_insertionSort Json.memberLe
    (Json.sortMembers (cursor.members.map fun m => (m.1, (.str m.2 : Json F))))).map Prod.fst
  rw [hkeys.nodup_iff, Json.keys_sortMembers, List.map_map]
  exact cursor.nodup

omit [PyFloat F] in
theorem dict_cursorJson (cursor : Dict Str Str) : (cursorJson F cursor).dict = cursorJson F cursor := by
  rw [cursorJson, Json.dict, Json.dictMembers_eq_self (nodup_cursorJson cursor)]
  intro m hm
  obtain ⟨m', -, rfl⟩ := mem_cursorJson.mp hm
  rfl

theorem get?_of_beginning {cursor read : Dict Str Str} {text beginning : Str} (htext : cursorText S cursor = .ok text)
    (hbeginning : beginning <+: text) (hread : cursorOf S (.text beginning) = .ok read) {path digest : Str}
    (hget : read.get? path = some digest) : cursor.get? path = some digest := by
  have hjson : cursorText S cursor = (cursorJson F cursor).dumpsWithin S.host.limits .spaced := rfl
  obtain ⟨hfits, rfl⟩ : (cursorJson F cursor).Fits S.host.limits ∧ text = (cursorJson F cursor).dumps .spaced := by
    rw [hjson, Json.dumpsWithin] at htext
    split at htext
    · cases htext
    · rename_i hdepth
      split at htext
      · rename_i hints
        exact ⟨⟨hints, Nat.not_lt.mp hdepth⟩, (Except.ok.inj htext).symm⟩
      · cases htext
  have hempty : ∀ {d : Dict Str Str}, Except.ok Dict.empty = (.ok d : Except UploadFault _) →
      d.get? path ≠ some digest := by
    rintro d hd h
    rw [← Except.ok.inj hd] at h
    cases h
  unfold cursorOf at hread
  split at hread
  · exact absurd hget (hempty hread)
  · exact absurd hget (hempty hread)
  · cases hread
  rename_i content hcontent
  obtain rfl := Gate.LogFile.text.inj hcontent
  cases hload : (Json.loads S.host.limits beginning : Except JsonFault (Json F)) with
  | error fault =>
    rw [hload] at hread
    cases fault with
    | decode => exact absurd hget (hempty hread)
    | value => cases hread
    | recursion => cases hread
  | ok v =>
    -- only the whole text reads as JSON
    have hwhole : beginning = (cursorJson F cursor).dumps .spaced := loads_beginning rfl hfits hbeginning hload
    have hloads := Json.loads_printed .spaced hfits
    rw [← hwhole, hload, dict_cursorJson] at hloads
    rw [hload, Except.ok.inj hloads] at hread
    rw [← Except.ok.inj hread] at hget
    rcases mem_of_get?_update hget with hmem | hnone
    · obtain ⟨m, hm, heq⟩ := List.mem_map.mp hmem
      obtain ⟨m', hm', rfl⟩ := mem_cursorJson.mp hm
      rw [S.strOf_str] at heq
      exact Dict.mem_members.mp (heq ▸ hm')
    · cases hnone

end Cursor

/-! ## §4 — The rely -/

section Rely

variable {F : Type} [PyFloat F] {S : UploadSetting F}

theorem hasApproval_of_allowed {batch : BatchManifest} {log : Gate.LogFile} {d : Gate.ExternalEffectDecision}
    (h : Gate.evaluateToolCall S.host (fun _ => log) (buildToolCall (F := F) batch) S.rules S.context = .ok d)
    (hallowed : d.allowed = true) : HasApproval S batch log := by
  obtain ⟨found, hrule, h⟩ := except_bind_ok.mp h
  obtain ⟨arguments, -, hfind⟩ := except_bind_ok.mp hrule
  obtain rfl := except_pure_ok.mp hfind
  obtain ⟨rule, hmem, htool, harguments⟩ := S.covers
  cases hcase : S.rules.find? fun rule => rule.toolNamePattern toolName && rule.argumentsPattern arguments with
  | none =>
    have hnot := List.find?_eq_none.mp hcase rule hmem
    simp [htool, harguments] at hnot
  | some matched =>
    rw [show (buildToolCall (F := F) batch).toolName = toolName from rfl, hcase] at h
    obtain ⟨hash, hhash, h⟩ := except_bind_ok.mp h
    cases hlog : S.context.approvalLog with
    | none =>
      rw [hlog] at h
      obtain rfl := except_pure_ok.mp h
      cases hallowed
    | some path =>
      rw [hlog] at h
      obtain ⟨approved, hvalid, h⟩ := except_bind_ok.mp h
      obtain rfl := except_pure_ok.mp h
      obtain rfl : approved = true := hallowed
      exact ⟨_, hash, hhash, hvalid⟩

/-- What holds between any two steps. -/
structure Sound (S : UploadSetting F) (s : Archive) : Prop where
  approved : SentAsApproved S s
  honest : CursorHonest S s

/-- What an upload relies on while the world around it changes. -/
structure Undisturbed (_ : Unit) (s s' : Archive) : Prop where
  cursor : s'.cursor = s.cursor
  sent : s'.sent = s.sent
  hashed : s'.hashed = s.hashed
  log : ∀ log ∈ s.log :: s.past, log ∈ s'.log :: s'.past

theorem keeps_env {s s' : Archive} (h : archiveEnv s s') : Undisturbed () s s' := by
  rcases h with ⟨tree, rfl⟩ | ⟨log, rfl⟩
  · exact ⟨rfl, rfl, rfl, fun _ h => h⟩
  · exact ⟨rfl, rfl, rfl, fun _ h => List.mem_cons_of_mem _ h⟩

theorem Listed.mono {s s' : Archive} {path : Str} {content : Bytes} (h : Listed S s path content)
    (hlog : ∀ log ∈ s.log :: s.past, log ∈ s'.log :: s'.past) : Listed S s' path content := by
  obtain ⟨batch, hmem, log, hpast, happroval⟩ := h
  exact ⟨batch, hmem, log, hlog log hpast, happroval⟩

theorem Sound.keeps {s s' : Archive} (h : Sound S s) (hkeeps : Undisturbed () s s') : Sound S s' := by
  refine ⟨fun path content hmem => ?_, ?_⟩
  · rw [hkeeps.sent] at hmem
    exact (h.approved path content hmem).mono hkeeps.log
  · intro cursor hcursor path digest hget
    rw [hkeeps.cursor] at hcursor
    obtain ⟨content, hmem, hdigest⟩ := h.honest cursor hcursor path digest hget
    exact ⟨content, hkeeps.sent ▸ hmem, hdigest⟩

/-- The machine of the uploads whose files are unchanged. -/
def unchangedArchive (S : UploadSetting F) : Machine (RaisingRes UploadRes UploadFault) Unit Archive :=
  archive.restrict (Unchanged S)

theorem contract : Contract (unchangedArchive S) (Sound S) Undisturbed where
  refl _ _ := ⟨rfl, rfl, rfl, fun _ h => h⟩
  trans h h' := ⟨h'.cursor.trans h.cursor, h'.sent.trans h.sent, h'.hashed.trans h.hashed,
    fun log hlog => h'.log log (h.log log hlog)⟩
  halt _ _ h := ⟨h, fun _ hq => absurd rfl hq⟩
  env h henv := ⟨h.keeps (keeps_env henv), fun _ => keeps_env henv⟩

/-- The assertion lasts while the world around changes. -/
def Lasting (K : Archive → Prop) : Prop := ∀ s s', K s → Undisturbed () s s' → K s'

/-- The obligation of a part of an upload. -/
abbrev Handled {α : Type} (S : UploadSetting F) (Q : α → Archive → Prop) (prog : UploadAct α) (s : Archive) : Prop :=
  Handles (unchangedArchive S) (Sound S) Undisturbed () Q (fun _ _ => True) prog s

theorem handled_act {K : Archive → Prop} (hK : Lasting K) {op : UploadOp} {Q : UploadRes op → Archive → Prop}
    {s : Archive} (hs : K s) (h : ∀ s r s', Sound S s → K s → uploadStep s (.op op) r s' →
      Unchanged S () s (.op op) r s' → Sound S s' ∧ ∀ a, r = .ok a → Q a s') : Handled S Q (uploadAct op) s := by
  refine Handles.act fun s₁ hI hR r s₂ hstep => ?_
  obtain ⟨hsound, hQ⟩ := h s₁ r s₂ hI (hK s s₁ hs hR) hstep.1 hstep.2
  refine ⟨hsound, fun q hq => absurd rfl hq, ?_⟩
  cases r with
  | ok a => exact hQ a rfl
  | error fault => trivial

theorem handled_quiet {K : Archive → Prop} (hK : Lasting K) {op : UploadOp} {s : Archive} (hs : K s)
    (h : ∀ s r s', uploadStep s (.op op) r s' → s' = s) : Handled S (fun _ => K) (uploadAct op) s := by
  refine handled_act hK hs fun s r s' hI hs hstep _ => ?_
  obtain rfl := h s r s' hstep
  exact ⟨hI, fun _ _ => hs⟩

end Rely

/-! ## §5 — One upload -/

section Parts

variable {F : Type} [PyFloat F] {S : UploadSetting F} {s : Archive}

/-- Each entry has the digest of content that the run hashed for its path. -/
def HashedAll (S : UploadSetting F) (entries : List FileEntry) (s : Archive) : Prop :=
  ∀ entry ∈ entries, ∃ content, (entry.path, content) ∈ s.hashed ∧ S.sha256 content = entry.sha256

/-- The run may send the files of the manifest. -/
structure Cleared (S : UploadSetting F) (batch : BatchManifest) (s : Archive) : Prop where
  hashed : HashedAll S batch.files s
  approval : ∃ log ∈ s.log :: s.past, HasApproval S batch log

/-- The cursor that the run holds records only what was sent. -/
def RecordsSent (S : UploadSetting F) (cursor : Dict Str Str) (s : Archive) : Prop :=
  ∀ path digest, cursor.get? path = some digest → Sent S s path digest

omit [PyFloat F] in
theorem lasting_hashedAll (entries : List FileEntry) : Lasting (HashedAll S entries) := by
  intro s s' h hkeeps entry hentry
  rw [hkeeps.hashed]
  exact h entry hentry

theorem lasting_cleared (batch : BatchManifest) : Lasting (Cleared S batch) := by
  intro s s' h hkeeps
  obtain ⟨log, hlog, happroval⟩ := h.approval
  exact ⟨lasting_hashedAll batch.files s s' h.hashed hkeeps, log, hkeeps.log log hlog, happroval⟩

omit [PyFloat F] in
theorem lasting_sent (path digest : Str) : Lasting fun s => Sent S s path digest := by
  rintro s s' ⟨content, hmem, hdigest⟩ hkeeps
  exact ⟨content, hkeeps.sent ▸ hmem, hdigest⟩

omit [PyFloat F] in
theorem lasting_recordsSent (cursor : Dict Str Str) : Lasting (RecordsSent S cursor) :=
  fun s s' h hkeeps path digest hget => lasting_sent path digest s s' (h path digest hget) hkeeps

theorem Lasting.and {K K' : Archive → Prop} (h : Lasting K) (h' : Lasting K') : Lasting fun s => K s ∧ K' s :=
  fun s s' hs hkeeps => ⟨h s s' hs.1 hkeeps, h' s s' hs.2 hkeeps⟩

theorem handled_buildEntries (paths : List Str) (before : List (Str × Bytes)) (hs : ∀ e ∈ before, e ∈ s.hashed) :
    Handled S (fun entries s => (∀ e ∈ before, e ∈ s.hashed) ∧ HashedAll S entries s) (buildEntries S paths) s := by
  induction paths generalizing before s with
  | nil => exact ⟨hs, nofun⟩
  | cons path paths ih =>
    have hlasting : Lasting fun s => ∀ e ∈ before, e ∈ s.hashed := by
      intro s s' h hkeeps e he
      rw [hkeeps.hashed]
      exact h e he
    have hread : Handled S (fun content s => ∀ e ∈ (path, content) :: before, e ∈ s.hashed)
        (uploadAct (.readBytes path)) s := by
      refine handled_act hlasting hs ?_
      rintro s r s' hI hs (⟨fault, rfl, rfl⟩ | ⟨content, rfl, -, rfl⟩) -
      · exact ⟨hI, nofun⟩
      · refine ⟨⟨hI.approved, hI.honest⟩, ?_⟩
        rintro _ ⟨⟩ e he
        rcases List.mem_cons.mp he with rfl | he
        · exact List.mem_cons_self
        · exact List.mem_cons_of_mem _ (hs e he)
    refine Handles.bind hread fun content s hs => ?_
    refine Handles.bind (ih ((path, content) :: before) hs) fun entries s hs => ?_
    refine ⟨fun e he => hs.1 e (List.mem_cons_of_mem _ he), fun entry hentry => ?_⟩
    rcases List.mem_cons.mp hentry with rfl | hentry
    · exact ⟨content, hs.1 _ List.mem_cons_self, rfl⟩
    · exact hs.2 entry hentry

theorem handled_evaluate {K : Archive → Prop} (hK : Lasting K) (batch : BatchManifest) (hs : K s) :
    Handled S (fun d s => K s ∧ (d.allowed = true → ∃ log ∈ s.log :: s.past, HasApproval S batch log))
      (evaluate S batch) s := by
  refine Handles.bind (handled_quiet hK hs fun _ _ _ h => h) fun _ s hs => ?_
  have hread : Handled S (fun file s => K s ∧ (file = s.log ∨ file = .unreadable)) (uploadAct .readLog) s := by
    refine handled_act hK hs ?_
    rintro s r s' hI hs ⟨rfl, hfile⟩ -
    exact ⟨hI, fun file h => ⟨hs, hfile file h⟩⟩
  refine Handles.bind hread fun file s hs => Handles.get ?_
  cases heval : Gate.evaluateToolCall S.host (fun _ => file) (buildToolCall (F := F) batch) S.rules S.context with
  | error fault => trivial
  | ok d =>
    refine ⟨hs.1, fun hallowed => ?_⟩
    have happroval := hasApproval_of_allowed heval hallowed
    rcases hs.2 with rfl | rfl
    · exact ⟨s.log, List.mem_cons_self, happroval⟩
    -- a log that cannot be read approves nothing
    · obtain ⟨target, hash, -, hvalid⟩ := happroval
      cases hvalid

theorem handled_loadCursor {K : Archive → Prop} (hK : Lasting K) (hs : K s) :
    Handled S (fun cursor s => K s ∧ RecordsSent S cursor s) (loadCursor S) s := by
  have hread : Handled S (fun file s => K s ∧ ∀ cursor, cursorOf S file = .ok cursor → RecordsSent S cursor s)
      (uploadAct .readCursor) s := by
    refine handled_act hK hs ?_
    rintro s r s' hI hs ⟨rfl, hfile⟩ -
    refine ⟨hI, fun file h => ⟨hs, fun cursor hcursor path digest hget => ?_⟩⟩
    rcases hfile file h with rfl | rfl
    · exact hI.honest cursor hcursor path digest hget
    · rw [← Except.ok.inj hcursor] at hget
      cases hget
  refine Handles.bind hread fun file s hs => Handles.get ?_
  cases hcursor : cursorOf S file with
  | error fault => trivial
  | ok cursor => exact ⟨hs.1, hs.2 cursor hcursor⟩

theorem Sound.with_cursor (hI : Sound S s) {cursor : Dict Str Str} {text : Str} (hrecords : RecordsSent S cursor s)
    (htext : cursorText S cursor = .ok text) {file : Gate.LogFile}
    (hfile : file = .undecodable ∨ ∃ beginning, beginning <+: text ∧ file = .text beginning) :
    Sound S { s with cursor := file } := by
  refine ⟨hI.approved, fun read hread path digest hget => ?_⟩
  rcases hfile with rfl | ⟨beginning, hbeginning, rfl⟩
  · cases hread
  · exact hrecords path digest (get?_of_beginning htext hbeginning hread hget)

theorem handled_advanceCursor {batch : BatchManifest} {entry : FileEntry} (hs : Cleared S batch s)
    (hsent : Sent S s entry.path entry.sha256) :
    Handled S (fun _ => Cleared S batch) (advanceCursor S entry) s := by
  have hK := (lasting_cleared (S := S) batch).and (lasting_sent (S := S) entry.path entry.sha256)
  refine Handles.bind (handled_loadCursor hK ⟨hs, hsent⟩) fun cursor s hs => ?_
  have hrecords : RecordsSent S (cursor.set entry.path entry.sha256) s := by
    intro path digest hget
    rw [Dict.get?_set] at hget
    split at hget
    · rename_i hpath
      obtain rfl := Option.some.inj hget
      exact hpath ▸ hs.1.2
    · exact hs.2 path digest hget
  have hK' := (lasting_cleared (S := S) batch).and (lasting_recordsSent (S := S) (cursor.set entry.path entry.sha256))
  refine Handles.bind (handled_quiet hK' ⟨hs.1.1, hrecords⟩ fun _ _ _ h => h) fun _ s hs => ?_
  cases htext : cursorText S (cursor.set entry.path entry.sha256) with
  | error fault => exact Handles.bind (Q := fun _ _ => False) (Handles.get trivial) fun _ _ h => h.elim
  | ok text =>
    refine Handles.bind (Handles.get (Q := fun t s => t = text ∧ Cleared S batch s ∧
      RecordsSent S (cursor.set entry.path entry.sha256) s) ⟨rfl, hs⟩) ?_
    rintro _ s ⟨rfl, hs⟩
    refine Handles.bind (handled_act (Q := fun _ s => Cleared S batch s ∧
      RecordsSent S (cursor.set entry.path entry.sha256) s) hK' hs ?_) fun _ s hs => ?_
    · rintro s r s' hI hs (⟨fault, rfl, rfl⟩ | ⟨rfl, rfl⟩) -
      · exact ⟨hI, fun _ h => by cases h⟩
      · refine ⟨hI.with_cursor hs.2 htext (.inr ⟨[], List.nil_prefix, rfl⟩), ?_⟩
        rintro _ ⟨⟩
        exact ⟨⟨hs.1.hashed, hs.1.approval⟩, hs.2⟩
    · split
      · refine Handles.bind (handled_act (Q := fun _ s => Cleared S batch s) hK' hs ?_) fun _ s hs => ?_
        · rintro s r s' hI hs ⟨file, hfile, rfl⟩ -
          rcases hfile with ⟨rfl, rfl⟩ | ⟨fault, rfl, hfile⟩
          · refine ⟨hI.with_cursor hs.2 htext (.inr ⟨_, List.prefix_refl _, rfl⟩), ?_⟩
            rintro _ ⟨⟩
            exact ⟨hs.1.hashed, hs.1.approval⟩
          · exact ⟨hI.with_cursor hs.2 htext hfile, fun _ h => by cases h⟩
        · exact handled_quiet (lasting_cleared batch) hs fun _ _ _ h => h
      · exact Handles.bind (Q := fun _ _ => False) (Handles.raise trivial) fun _ _ h => h.elim

theorem handled_send {batch : BatchManifest} {entry : FileEntry} (hentry : entry ∈ batch.files) {op : UploadOp}
    (hop : sentPath (.op op) = some entry.path) (hs : Cleared S batch s)
    (hstep : ∀ s r s', uploadStep s (.op op) r s' → (∃ fault, r = .error fault ∧ s' = s) ∨
      ∃ content, s.tree entry.path = some content ∧ s' = { s with sent := (entry.path, content) :: s.sent }) :
    Handled S (fun _ s => Cleared S batch s ∧ Sent S s entry.path entry.sha256) (uploadAct op) s := by
  refine handled_act (lasting_cleared batch) hs fun s r s' hI hs h hunchanged => ?_
  rcases hstep s r s' h with ⟨fault, rfl, rfl⟩ | ⟨content, htree, rfl⟩
  · exact ⟨hI, nofun⟩
  · obtain ⟨hashed, hmem, hdigest⟩ := hs.hashed entry hentry
    -- what is sent has the digest of what was hashed
    have hsame : S.sha256 content = entry.sha256 := (hunchanged _ hop content htree hashed hmem).trans hdigest
    refine ⟨⟨?_, ?_⟩, fun _ _ => ⟨⟨hs.hashed, hs.approval⟩, content, List.mem_cons_self, hsame⟩⟩
    · intro path c hc
      rcases List.mem_cons.mp hc with heq | hc
      · obtain ⟨rfl, rfl⟩ := Prod.mk.inj heq
        refine ⟨batch, ?_, hs.approval⟩
        rw [hsame]
        exact hentry
      · exact hI.approved path c hc
    · intro cursor hcursor path digest hget
      obtain ⟨c, hc, hcd⟩ := hI.honest cursor hcursor path digest hget
      exact ⟨c, List.mem_cons_of_mem _ hc, hcd⟩

theorem handled_webViewLink {K : Archive → Prop} (hK : Lasting K) (fileId : Str) (hs : K s) :
    Handled S (fun _ => K) (webViewLink fileId) s :=
  Handles.bind (handled_quiet hK hs fun _ _ _ h => h) fun _ _ hs => Handles.ret hs

theorem handled_upsertFile {batch : BatchManifest} {entry : FileEntry} (hentry : entry ∈ batch.files)
    (name parent : Str) (hs : Cleared S batch s) :
    Handled S (fun _ s => Cleared S batch s ∧ Sent S s entry.path entry.sha256) (upsertFile entry.path name parent)
      s := by
  have hK := (lasting_cleared (S := S) batch).and (lasting_sent (S := S) entry.path entry.sha256)
  refine Handles.bind (handled_quiet (lasting_cleared batch) hs fun _ _ _ h => h) fun found s hs => ?_
  cases found with
  | some existing =>
    refine Handles.bind (handled_send hentry rfl hs ?_) fun answered s hs => ?_
    · rintro s r s' (⟨fault, rfl, rfl⟩ | h)
      · exact .inl ⟨fault, rfl, rfl⟩
      · exact .inr h
    · exact Handles.bind (handled_webViewLink hK _ hs) fun _ _ hs => Handles.ret hs
  | none =>
    refine Handles.bind (handled_send hentry rfl hs ?_) fun fileId s hs => ?_
    · rintro s r s' (⟨fault, rfl, rfl⟩ | h)
      · exact .inl ⟨fault, rfl, rfl⟩
      · exact .inr h
    · split
      · exact Handles.raise trivial
      · exact Handles.bind (handled_webViewLink hK _ hs) fun _ _ hs => Handles.ret hs

theorem handled_uploadEntry {batch : BatchManifest} {entry : FileEntry} (hentry : entry ∈ batch.files) (moment : Str)
    (hs : Cleared S batch s) : Handled S (fun _ => Cleared S batch) (uploadEntry S moment entry) s := by
  have hK := (lasting_cleared (S := S) batch).and (lasting_sent (S := S) entry.path entry.sha256)
  refine Handles.bind (handled_quiet (lasting_cleared batch) hs fun _ _ _ h => h) fun folderId s hs => ?_
  refine Handles.bind (handled_upsertFile hentry _ folderId hs) fun result s hs => ?_
  refine Handles.bind (handled_quiet hK hs fun _ _ _ h => h) fun _ s hs => ?_
  exact Handles.bind (handled_advanceCursor hs.1 hs.2) fun _ _ hs => Handles.ret hs

theorem handled_uploadEntries {batch : BatchManifest} (moment : Str) (cursor : Dict Str Str) {entries : List FileEntry}
    (hentries : ∀ entry ∈ entries, entry ∈ batch.files) (hs : Cleared S batch s) :
    Handled S (fun _ _ => True) (uploadEntries S moment cursor entries) s := by
  induction entries generalizing s with
  | nil => exact Handles.ret trivial
  | cons entry entries ih =>
    have hrest : ∀ e ∈ entries, e ∈ batch.files := fun e he => hentries e (List.mem_cons_of_mem entry he)
    unfold uploadEntries
    split
    · exact ih hrest hs
    · refine Handles.bind (handled_uploadEntry (hentries entry List.mem_cons_self) moment hs) fun receipt s hs => ?_
      exact Handles.bind (ih hrest hs) fun _ _ _ => Handles.ret trivial

theorem handled_uploadBatch (pending : StoredBatch) : Handled S (fun _ _ => True) (uploadBatch S pending) s := by
  have htrue : Lasting fun _ => True := fun _ _ _ _ => trivial
  refine Handles.bind (handled_quiet htrue trivial fun _ _ _ h => h) fun moment s _ => ?_
  have hmanifest : Handled S (fun batch s => HashedAll S batch.files s)
      (buildManifest S pending.project (pending.files.map FileEntry.path)) s :=
    Handles.bind (handled_buildEntries _ [] nofun) fun _ _ hs => Handles.ret hs.2
  refine Handles.bind hmanifest.attempt fun result s hs => ?_
  match result, hs with
  | .error .os, _ => exact Handles.raise trivial
  | .error .drive, _ => exact Handles.raise trivial
  | .error .other, _ => exact Handles.raise trivial
  | .ok current, hs =>
    refine Handles.bind (handled_evaluate (lasting_hashedAll current.files) current hs) fun decision s hs => ?_
    split
    · rename_i hallowed
      have hcleared : Cleared S current s := ⟨hs.1, hs.2 hallowed⟩
      refine Handles.bind (handled_loadCursor (lasting_cleared current) hcleared) fun cursor s hs => ?_
      exact handled_uploadEntries moment cursor (fun _ h => h) hs.1
    · exact Handles.raise trivial

theorem handled_cmdUpload (actionHash : Str) : Handled S (fun _ _ => True) (cmdUpload S actionHash) s := by
  have htrue : Lasting fun _ => True := fun _ _ _ _ => trivial
  have hlookup : Handled S (fun _ _ => True) (uploadAct (.getPending actionHash)) s := by
    refine handled_act htrue trivial ?_
    rintro s r s' hI - rfl -
    exact ⟨⟨hI.approved, hI.honest⟩, fun _ _ => trivial⟩
  refine Handles.bind hlookup fun found s _ => ?_
  cases found with
  | none => exact Handles.ret trivial
  | some pending =>
    refine Handles.bind (handled_uploadBatch pending).attempt fun result s _ => ?_
    match result with
    | .error .drive => exact Handles.ret trivial
    | .error .os => exact Handles.raise trivial
    | .error .other => exact Handles.raise trivial
    | .ok receipts =>
      refine Handles.bind (handled_quiet htrue trivial fun _ _ _ h => h) fun _ s _ => ?_
      exact Handles.bind (handled_quiet htrue trivial fun _ _ _ h => h) fun _ s _ => Handles.ret trivial

theorem sound_of_reachable {start : Archive} (hstart : Sound S start)
    {c : Config (RaisingRes UploadRes UploadFault) Unit Archive}
    (h : (unchangedArchive S).Reachable (Uploads S) start c) : Sound S c.state := by
  refine Machine.invariant contract ?_ hstart h
  rintro _ ⟨actionHash, rfl⟩ ⟨⟩ s -
  exact (Handles.safe (handled_cmdUpload actionHash)).bind fun _ _ _ => trivial

end Parts

/-! ## §6 — A run that finds everything in the cursor -/

section History

variable {F : Type} [PyFloat F] {S : UploadSetting F} {h : List (Event (RaisingRes UploadRes UploadFault))}

/-- A file is sent only where a cursor was read that does not record it as it was hashed. -/
def SendsMissing (S : UploadSetting F) (h : List (Event (RaisingRes UploadRes UploadFault)))
    (e : Event (RaisingRes UploadRes UploadFault)) : Prop :=
  ∀ path, sentPath e.op = some path → ∃ content file, ⟨.op (.readBytes path), .ok content⟩ ∈ h ∧
    ⟨.op .readCursor, .ok file⟩ ∈ h ∧
      ¬ ∃ cursor, cursorOf S file = .ok cursor ∧ cursor.get? path = some (S.sha256 content)

/-- The operation sends no file. -/
def SendsNothing (op : UploadOp) : Prop := sentPath (.op op : Raising UploadOp UploadFault) = none

theorem sendsMissing_free (op : UploadOp) (hop : SendsNothing op) (h : List (Event (RaisingRes UploadRes UploadFault)))
    (r : RaisingRes UploadRes UploadFault (.op op)) : SendsMissing S h ⟨.op op, r⟩ := by
  intro path hpath
  rw [show sentPath (.op op) = none from hop] at hpath
  cases hpath

/-- Each entry was hashed. -/
def WasHashed (S : UploadSetting F) (entries : List FileEntry) (h : List (Event (RaisingRes UploadRes UploadFault))) :
    Prop :=
  ∀ entry ∈ entries, ∃ content, ⟨.op (.readBytes entry.path), .ok content⟩ ∈ h ∧ S.sha256 content = entry.sha256

/-- The cursor was read. -/
def WasRead (S : UploadSetting F) (cursor : Dict Str Str) (h : List (Event (RaisingRes UploadRes UploadFault))) :
    Prop :=
  ∃ file, ⟨.op .readCursor, .ok file⟩ ∈ h ∧ cursorOf S file = .ok cursor

omit [PyFloat F] in
theorem lasts_wasHashed (entries : List FileEntry) : Lasts (WasHashed S entries) := by
  intro h e hh entry hentry
  obtain ⟨content, hmem, hdigest⟩ := hh entry hentry
  exact ⟨content, List.mem_append_left _ hmem, hdigest⟩

theorem lasts_wasRead (cursor : Dict Str Str) : Lasts (WasRead S cursor) := by
  rintro h e ⟨file, hmem, hcursor⟩
  exact ⟨file, List.mem_append_left _ hmem, hcursor⟩

theorem lasts_known (entries : List FileEntry) (cursor : Dict Str Str) :
    Lasts fun h => WasHashed S entries h ∧ WasRead S cursor h :=
  fun h e hh => ⟨lasts_wasHashed entries h e hh.1, lasts_wasRead cursor h e hh.2⟩

abbrev Remembers {α : Type} (S : UploadSetting F) (Q : α → List (Event (RaisingRes UploadRes UploadFault)) → Prop)
    (prog : UploadAct α) (h : List (Event (RaisingRes UploadRes UploadFault))) : Prop :=
  Records (SendsMissing S) Q (fun _ _ => True) prog h

theorem remembers_free {α : Type} {prog : UploadAct α} (hp : Fallible.Performs SendsNothing prog)
    {K : List (Event (RaisingRes UploadRes UploadFault)) → Prop} (hK : Lasts K) (hh : K h) :
    Remembers S (fun _ => K) prog h :=
  Handles.mono (handles_free sendsMissing_free hp hK hh) (fun _ _ h => h) fun _ _ _ => trivial

theorem remembers_buildEntries (paths : List Str) (before : List (Str × Bytes))
    (hh : ∀ e ∈ before, ⟨.op (.readBytes e.1), .ok e.2⟩ ∈ h) :
    Remembers S (fun entries h => (∀ e ∈ before, ⟨.op (.readBytes e.1), .ok e.2⟩ ∈ h) ∧ WasHashed S entries h)
      (buildEntries S paths) h := by
  induction paths generalizing before h with
  | nil => exact Handles.ret ⟨hh, nofun⟩
  | cons path paths ih =>
    have hread : Remembers S (fun content h => ∀ e ∈ (path, content) :: before,
        ⟨.op (.readBytes e.1), .ok e.2⟩ ∈ h) (uploadAct (.readBytes path)) h := by
      refine handles_recorded (sendsMissing_free (.readBytes path) rfl h) fun r => ?_
      cases r with
      | error fault => trivial
      | ok content =>
        intro e he
        rcases List.mem_cons.mp he with rfl | he
        · exact mem_recorded h _
        · exact List.mem_append_left _ (hh e he)
    refine Handles.bind hread fun content h hh => ?_
    refine Handles.bind (ih ((path, content) :: before) hh) fun entries h hh => ?_
    refine ⟨fun e he => hh.1 e (List.mem_cons_of_mem _ he), fun entry hentry => ?_⟩
    rcases List.mem_cons.mp hentry with rfl | hentry
    · exact ⟨content, hh.1 _ List.mem_cons_self, rfl⟩
    · exact hh.2 entry hentry

theorem remembers_loadCursor {K : List (Event (RaisingRes UploadRes UploadFault)) → Prop} (hK : Lasts K) (hh : K h) :
    Remembers S (fun cursor h => K h ∧ WasRead S cursor h) (loadCursor S) h := by
  have hread : Remembers S (fun file h => K h ∧ ⟨.op .readCursor, .ok file⟩ ∈ h) (uploadAct .readCursor) h := by
    refine handles_recorded (sendsMissing_free .readCursor rfl h) fun r => ?_
    cases r with
    | error fault => trivial
    | ok file => exact ⟨hK h _ hh, mem_recorded h _⟩
  refine Handles.bind hread fun file h hh => Handles.get ?_
  cases hcursor : cursorOf S file with
  | error fault => trivial
  | ok cursor => exact ⟨hh.1, file, hh.2, hcursor⟩

theorem performs_advanceCursor (entry : FileEntry) : Fallible.Performs SendsNothing (advanceCursor S entry) := by
  refine .bind (.bind (Fallible.performs_act rfl) fun _ => Fallible.performs_get _) fun cursor => ?_
  refine .bind (Fallible.performs_act rfl) fun _ => .bind (Fallible.performs_get _) fun text => ?_
  refine .bind (Fallible.performs_act rfl) fun _ => ?_
  split
  · exact .bind (Fallible.performs_act rfl) fun _ => Fallible.performs_act rfl
  · exact .bind (Fallible.performs_raise _) fun _ => Fallible.performs_act rfl

theorem performs_webViewLink (fileId : Str) : Fallible.Performs SendsNothing (webViewLink fileId) :=
  .bind (Fallible.performs_act rfl) fun _ => Fallible.performs_ret _

theorem remembers_send {entries : List FileEntry} {entry : FileEntry} (hentry : entry ∈ entries)
    {cursor : Dict Str Str} (hcursor : cursor.get? entry.path ≠ some entry.sha256) {op : UploadOp}
    (hop : sentPath (.op op) = some entry.path) (hh : WasHashed S entries h ∧ WasRead S cursor h) :
    Remembers S (fun _ h => WasHashed S entries h ∧ WasRead S cursor h) (uploadAct op) h := by
  refine handles_recorded (fun r path hpath => ?_) fun r => ?_
  · obtain rfl := Option.some.inj (hop.symm.trans hpath)
    obtain ⟨content, hmem, hdigest⟩ := hh.1 entry hentry
    obtain ⟨file, hfile, hread⟩ := hh.2
    refine ⟨content, file, hmem, hfile, ?_⟩
    rintro ⟨cursor', hread', hget⟩
    obtain rfl := Except.ok.inj (hread.symm.trans hread')
    exact hcursor (hdigest ▸ hget)
  · cases r with
    | error fault => trivial
    | ok a => exact lasts_known entries cursor h _ hh

theorem remembers_upsertFile {entries : List FileEntry} {entry : FileEntry} (hentry : entry ∈ entries)
    {cursor : Dict Str Str} (hcursor : cursor.get? entry.path ≠ some entry.sha256) (name parent : Str)
    (hh : WasHashed S entries h ∧ WasRead S cursor h) :
    Remembers S (fun _ h => WasHashed S entries h ∧ WasRead S cursor h) (upsertFile entry.path name parent) h := by
  have hK := lasts_known (S := S) entries cursor
  refine Handles.bind (remembers_free (Fallible.performs_act (by rfl)) hK hh) fun found h hh => ?_
  cases found with
  | some existing =>
    refine Handles.bind (remembers_send hentry hcursor rfl hh) fun answered h hh => ?_
    exact Handles.bind (remembers_free (performs_webViewLink _) hK hh) fun _ _ hh => Handles.ret hh
  | none =>
    refine Handles.bind (remembers_send hentry hcursor rfl hh) fun fileId h hh => ?_
    split
    · exact Handles.raise trivial
    · exact Handles.bind (remembers_free (performs_webViewLink _) hK hh) fun _ _ hh => Handles.ret hh

theorem remembers_uploadEntries {entries : List FileEntry} {cursor : Dict Str Str} (moment : Str)
    {rest : List FileEntry} (hrest : ∀ entry ∈ rest, entry ∈ entries)
    (hh : WasHashed S entries h ∧ WasRead S cursor h) :
    Remembers S (fun _ _ => True) (uploadEntries S moment cursor rest) h := by
  have hK := lasts_known (S := S) entries cursor
  induction rest generalizing h with
  | nil => exact Handles.ret trivial
  | cons entry rest ih =>
    have hrest' : ∀ e ∈ rest, e ∈ entries := fun e he => hrest e (List.mem_cons_of_mem entry he)
    unfold uploadEntries
    split
    · exact ih hrest' hh
    · rename_i hcursor
      have hentry : Remembers S (fun _ h => WasHashed S entries h ∧ WasRead S cursor h)
          (uploadEntry S moment entry) h := by
        refine Handles.bind (remembers_free (Fallible.performs_act (by rfl)) hK hh) fun folderId h hh => ?_
        refine Handles.bind (remembers_upsertFile (hrest entry List.mem_cons_self) hcursor _ folderId hh)
          fun result h hh => ?_
        refine Handles.bind (remembers_free (Fallible.performs_act (by rfl)) hK hh) fun _ h hh => ?_
        exact Handles.bind (remembers_free (performs_advanceCursor entry) hK hh) fun _ _ hh => Handles.ret hh
      refine Handles.bind hentry fun receipt h hh => ?_
      exact Handles.bind (ih hrest' hh) fun _ _ _ => Handles.ret trivial

theorem sendsMissing_uploadBatch (pending : StoredBatch) {trace : List (Event (RaisingRes UploadRes UploadFault))}
    {out : Option (List Receipt)} (run : Runs (uploadBatch S pending) trace out) :
    Ordered (SendsMissing S) trace := by
  refine ordered_of_handles (Q := fun _ _ => True) (E := fun _ _ => True) ?_ run
  have htrue : Lasts fun _ : List (Event (RaisingRes UploadRes UploadFault)) => True := fun _ _ _ => trivial
  refine Handles.bind (remembers_free (Fallible.performs_act (by rfl)) htrue trivial) fun moment h _ => ?_
  have hmanifest : Remembers S (fun batch h => WasHashed S batch.files h)
      (buildManifest S pending.project (pending.files.map FileEntry.path)) h :=
    Handles.bind (remembers_buildEntries _ [] nofun) fun _ _ hh => Handles.ret hh.2
  refine Handles.bind hmanifest.attempt fun result h hh => ?_
  match result, hh with
  | .error .os, _ => exact Handles.raise trivial
  | .error .drive, _ => exact Handles.raise trivial
  | .error .other, _ => exact Handles.raise trivial
  | .ok current, hh =>
    have hK := lasts_wasHashed (S := S) current.files
    have hevaluate : Fallible.Performs SendsNothing (evaluate S current) :=
      .bind (Fallible.performs_act rfl) fun _ => .bind (Fallible.performs_act rfl) fun _ => Fallible.performs_get _
    refine Handles.bind (remembers_free hevaluate hK hh) fun decision h hh => ?_
    split
    · refine Handles.bind (remembers_loadCursor hK hh) fun cursor h hh => ?_
      exact remembers_uploadEntries moment (fun _ h => h) hh
    · exact Handles.raise trivial

theorem sends_nothing (pending : StoredBatch) {trace : List (Event (RaisingRes UploadRes UploadFault))}
    {out : Option (List Receipt)} (run : Runs (uploadBatch S pending) trace out) (hall : AllInCursor S trace) :
    ∀ e ∈ trace, sentPath e.op = none := by
  intro e he
  obtain ⟨before, after, rfl⟩ := List.append_of_mem he
  have hguard := sendsMissing_uploadBatch pending run before e after rfl
  cases hpath : sentPath e.op with
  | none => rfl
  | some path =>
    obtain ⟨content, file, hread, hcursor, hmissing⟩ := hguard path hpath
    exact absurd (hall path content file (List.mem_append_left _ hread) (List.mem_append_left _ hcursor)) hmissing

end History

/-! ## §7 — The uploads of an archive -/

section Uploads

variable {F : Type} [PyFloat F]

/-- An archive of which nothing was uploaded yet. -/
def untouched (tree : Str → Option Bytes) (log : Gate.LogFile) : Archive := ⟨tree, log, [], .missing, [], []⟩

/-- **What is sent is what was approved, and the cursor records what was sent, where no file changes between its
hashing and its sending; a run that finds everything in the cursor sends nothing.** -/
theorem uploaded_as_approved (S : UploadSetting F) (tree : Str → Option Bytes) (log : Gate.LogFile)
    {c : Config (RaisingRes UploadRes UploadFault) Unit Archive}
    (h : (archive.restrict (Unchanged S)).Reachable (Uploads S) (untouched tree log) c) :
    SentAsApproved S c.state ∧ CursorHonest S c.state ∧
      ∀ pending trace out, Runs (uploadBatch S pending) trace out → AllInCursor S trace →
        ∀ e ∈ trace, sentPath e.op = none := by
  have hstart : Sound S (untouched tree log) := by
    refine ⟨nofun, fun cursor hcursor path digest hget => ?_⟩
    rw [← Except.ok.inj hcursor] at hget
    cases hget
  have hsound := sound_of_reachable hstart h
  exact ⟨hsound.approved, hsound.honest, fun pending _ _ run hall => sends_nothing pending run hall⟩

end Uploads

/-! ## §8 — One file -/

/-- The rule of `configs/external-effect-tools.yaml`. -/
def oneRule : Gate.ExternalEffectRule where
  ruleId := Str.of "drive_archive_batch_upload"
  toolNamePattern name := name = toolName
  argumentsPattern _ := true

/-- A manifest of one file, whose digest is its content. -/
def oneManifest : BatchManifest := ⟨Str.of "p", [⟨Str.of "a", [0x31]⟩]⟩

def oneCall : Gate.ToolCall SampleFloat := buildToolCall oneManifest

def oneTarget : Str := Gate.targetId oneRule oneCall

/-- The digest of what the gate hashes for the manifest. -/
def oneDigest : Str :=
  Str.of "1dd523c25f8122ed" ++ Str.of "bf68d5cea3a82377" ++ Str.of "3f575221141207b3" ++ Str.of "595d6839e4f60249"

def oneHost : Gate.Host where
  limits := ⟨4300, 1000⟩
  sha256Hex _ := oneDigest
  sha256Hex_digits _ := by decide +kernel
  hmacHex _ _ := []

/-- The owner's approval of the manifest. -/
def oneRecord : Json SampleFloat :=
  .obj [("action", .str "external_effect.approval"),
    ("approval", .obj [("channel", .str "approvals"), ("method", .str "manual_reaction"), ("owner_id", .str "o")]),
    ("hash", .str (Str.of "sha256:" ++ oneDigest)),
    ("result", .obj [("status", .str "approved")]),
    ("target_id", .str oneTarget)]

/-- The log that holds it. -/
def oneLog : Gate.LogFile := .text (oneRecord.dumps .compact)

def oneSetting : UploadSetting SampleFloat where
  host := oneHost
  rules := [oneRule]
  covers := ⟨oneRule, List.mem_singleton_self _, decide_eq_true (Eq.refl toolName), fun _ => rfl⟩
  context := ⟨some (Str.of "approvals.jsonl"), Str.of "o", false⟩
  sha256 content := content
  strOf := sampleText
  strOf_str := sampleText_str
  rootFolderName := Str.of "R"

/-- The batch of one file. -/
def oneBatch : StoredBatch where
  actionHash := Str.of "h"
  targetId := Str.of "t"
  messageId := Str.of "m"
  project := Str.of "p"
  createdAt := Str.of "c"
  channelId := Str.of "7"
  files := [⟨Str.of "a", [0x31]⟩]
  kind := Str.of "drive-archive"
  surface := Str.of "owner-dm"
  policyVersion := 6

/-- A tree with one file. -/
def oneTree (content : Bytes) : Str → Option Bytes := fun path => if path = Str.of "a" then some content else none

/-- What is found when a file is sent: where the run is `careful`, only what it hashed. -/
def found (careful : Bool) (s : Archive) (path : Str) : Option Bytes :=
  (s.tree path).bind fun content =>
    if careful ∧ ¬ s.hashed.all (fun e => e.1 ≠ path ∨ e.2 = content) then none else some content

/-- The answers of a world in which nothing fails. -/
def answered (careful : Bool) : Prog.Oracle (RaisingRes UploadRes UploadFault) Archive
  | s, .op (.getPending _) => some (.ok (some oneBatch), { s with hashed := [] })
  | s, .op .now => some (.ok (Str.of "t"), s)
  | s, .op (.readBytes path) =>
    (s.tree path).map fun content => (.ok content, { s with hashed := (path, content) :: s.hashed })
  | s, .op .loadDenylist => some (.ok (), s)
  | s, .op .readLog => some (.ok s.log, s)
  | s, .op .readCursor => some (.ok s.cursor, s)
  | s, .op (.ensureFolder _) => some (.ok (Str.of "folder"), s)
  | s, .op (.findFile _ _) => some (.ok none, s)
  | s, .op (.uploadNew path _ _) =>
    (found careful s path).map fun content => (.ok (Str.of "id"), { s with sent := (path, content) :: s.sent })
  | _, .op (.updateMedia _ _) => none
  | s, .op (.webViewLink _) => some (.ok (Str.of "link"), s)
  | s, .op (.appendReceipt _) => some (.ok (), s)
  | s, .op .makeCursorDir => some (.ok (), s)
  | s, .op .truncateCursor => some (.ok (), { s with cursor := .text [] })
  | s, .op (.writeCursor text) => some (.ok (), { s with cursor := .text text })
  | s, .op .chmodCursor => some (.ok (), s)
  | s, .op (.notifyOwner _) => some (.ok (), s)
  | s, .op (.removePending _) => some (.ok (), s)
  | _, .raise _ => none

theorem found_tree {careful : Bool} {s : Archive} {path : Str} {content : Bytes} (h : found careful s path = some content) :
    s.tree path = some content ∧ (careful = true → ∀ hashed, (path, hashed) ∈ s.hashed → content = hashed) := by
  obtain ⟨c, htree, hc⟩ := Option.bind_eq_some_iff.mp h
  split at hc
  · cases hc
  · rename_i hnot
    obtain rfl := Option.some.inj hc
    refine ⟨htree, fun hcareful hashed hmem => ?_⟩
    have hall := Classical.not_not.mp (not_and.mp hnot hcareful)
    have hone := List.all_eq_true.mp hall (path, hashed) hmem
    simpa [eq_comm] using hone

theorem answered_step {careful : Bool} {s s' : Archive} {op : Raising UploadOp UploadFault}
    {r : RaisingRes UploadRes UploadFault op} (h : answered careful s op = some (r, s')) :
    uploadStep s op r s' ∧ (careful = true → Unchanged oneSetting () s op r s') := by
  cases op with
  | raise fault => cases h
  | op o =>
    cases o
    case readBytes path =>
      obtain ⟨content, htree, heq⟩ := Option.map_eq_some_iff.mp h
      obtain ⟨rfl, rfl⟩ := Prod.mk.inj heq
      exact ⟨.inr ⟨content, rfl, htree, rfl⟩, fun _ _ hpath => (nomatch hpath)⟩
    case uploadNew path name parent =>
      obtain ⟨content, hfound, heq⟩ := Option.map_eq_some_iff.mp h
      obtain ⟨rfl, rfl⟩ := Prod.mk.inj heq
      obtain ⟨htree, hcareful⟩ := found_tree hfound
      refine ⟨.inr ⟨content, htree, rfl⟩, fun hc p hpath c hcontent hashed hmem => ?_⟩
      obtain rfl := Option.some.inj hpath
      obtain rfl := Option.some.inj (htree.symm.trans hcontent)
      rw [hcareful hc hashed hmem]
    case updateMedia => cases h
    case readLog =>
      obtain ⟨rfl, rfl⟩ := Prod.mk.inj (Option.some.inj h)
      exact ⟨⟨rfl, fun _ hr => .inl (Except.ok.inj hr).symm⟩, fun _ _ hpath => (nomatch hpath)⟩
    case readCursor =>
      obtain ⟨rfl, rfl⟩ := Prod.mk.inj (Option.some.inj h)
      exact ⟨⟨rfl, fun _ hr => .inl (Except.ok.inj hr).symm⟩, fun _ _ hpath => (nomatch hpath)⟩
    case truncateCursor =>
      obtain ⟨rfl, rfl⟩ := Prod.mk.inj (Option.some.inj h)
      exact ⟨.inr ⟨rfl, rfl⟩, fun _ _ hpath => (nomatch hpath)⟩
    case writeCursor text =>
      obtain ⟨rfl, rfl⟩ := Prod.mk.inj (Option.some.inj h)
      exact ⟨⟨.text text, .inl ⟨rfl, rfl⟩, rfl⟩, fun _ _ hpath => (nomatch hpath)⟩
    -- the others leave the world alone, but for what `getPending` forgets
    all_goals exact ⟨(Prod.mk.inj (Option.some.inj h)).2.symm, fun _ _ hpath => (nomatch hpath)⟩

/-- The upload of the batch. -/
def oneUpload : Prog (RaisingRes UploadRes UploadFault) Unit := (cmdUpload oneSetting (Str.of "h")).void

/-- An archive with one file and its approval. -/
def oneArchive : Archive := untouched (oneTree [0x31]) oneLog

/-- The machine while the upload runs. -/
def alone (prog : Prog (RaisingRes UploadRes UploadFault) Unit) (s : Archive) :
    Config (RaisingRes UploadRes UploadFault) Unit Archive := ⟨fun _ => some prog, s⟩

@[simp] theorem alone_state (prog : Prog (RaisingRes UploadRes UploadFault) Unit) (s : Archive) :
    (alone prog s).state = s := rfl

theorem alone_start {M : Machine (RaisingRes UploadRes UploadFault) Unit Archive} :
    M.Reachable (Uploads oneSetting) oneArchive (alone oneUpload oneArchive) := by
  have hstart : M.Next (Uploads oneSetting) ⟨fun _ => none, oneArchive⟩
      ⟨Function.update (fun _ => none) () (some oneUpload), oneArchive⟩ := Next.start () rfl ⟨_, rfl⟩
  rw [show Function.update (fun _ => none) () (some oneUpload) = fun _ => some oneUpload from funext fun _ => rfl]
    at hstart
  exact .single hstart

theorem alone_advance (M : Machine (RaisingRes UploadRes UploadFault) Unit Archive) (careful : Bool)
    (hstep : ∀ s op r s', answered careful s op = some (r, s') → M.step () s op r s') (n : Nat)
    {prog : Prog (RaisingRes UploadRes UploadFault) Unit} {s : Archive}
    (h : M.Reachable (Uploads oneSetting) oneArchive (alone prog s)) :
    M.Reachable (Uploads oneSetting) oneArchive
      (alone (prog.advance (answered careful) n s).1 (prog.advance (answered careful) n s).2) := by
  have hrun := Reachable.advance hstep n (p := ()) rfl h
  rwa [show Function.update (fun _ => some prog) () (some (prog.advance (answered careful) n s).1) =
    fun _ => some (prog.advance (answered careful) n s).1 from funext fun _ => rfl] at hrun

theorem alone_env {M : Machine (RaisingRes UploadRes UploadFault) Unit Archive}
    {prog : Prog (RaisingRes UploadRes UploadFault) Unit} {s s' : Archive}
    (h : M.Reachable (Uploads oneSetting) oneArchive (alone prog s)) (henv : M.env s s') :
    M.Reachable (Uploads oneSetting) oneArchive (alone prog s') := h.tail (Next.env henv)

/-- What the careful upload has sent. -/
def carefulRun : Prog (RaisingRes UploadRes UploadFault) Unit × Archive :=
  oneUpload.advance (answered true) 16 oneArchive

/-- A run of the upload that sends the file as it was hashed. -/
theorem uploaded_as_approved_once : ∃ c : Config (RaisingRes UploadRes UploadFault) Unit Archive,
    (archive.restrict (Unchanged oneSetting)).Reachable (Uploads oneSetting) oneArchive c ∧
      c.state.sent = [(Str.of "a", [0x31])] ∧ SentAsApproved oneSetting c.state ∧ CursorHonest oneSetting c.state := by
  have hrun : (archive.restrict (Unchanged oneSetting)).Reachable (Uploads oneSetting) oneArchive
      (alone carefulRun.1 carefulRun.2) :=
    alone_advance (archive.restrict (Unchanged oneSetting)) true
      (fun _ _ _ _ h => ⟨(answered_step h).1, (answered_step h).2 rfl⟩) 16 alone_start
  have hsound := uploaded_as_approved oneSetting (oneTree [0x31]) oneLog hrun
  have hsent : carefulRun.2.sent = [(Str.of "a", [0x31])] := by decide +kernel
  refine ⟨alone carefulRun.1 carefulRun.2, hrun, ?_, hsound.1, hsound.2.1⟩
  rw [alone_state]
  exact hsent

/-- The upload, when it has looked for the file in its folder. -/
def hashedRun : Prog (RaisingRes UploadRes UploadFault) Unit × Archive :=
  oneUpload.advance (answered false) 8 oneArchive

/-- The file is changed there. -/
def changedRun : Prog (RaisingRes UploadRes UploadFault) Unit × Archive :=
  hashedRun.1.advance (answered false) 8 { hashedRun.2 with tree := oneTree [0x32] }

/-- What was sent then is not what the cursor records. -/
theorem changed_file_uploaded : ∃ c : Config (RaisingRes UploadRes UploadFault) Unit Archive,
    archive.Reachable (Uploads oneSetting) oneArchive c ∧ c.state.sent = [(Str.of "a", [0x32])] ∧
      ¬ CursorHonest oneSetting c.state := by
  have hhashed : archive.Reachable (Uploads oneSetting) oneArchive (alone hashedRun.1 hashedRun.2) :=
    alone_advance archive false (fun _ _ _ _ h => (answered_step h).1) 8 alone_start
  have hchange : archive.Reachable (Uploads oneSetting) oneArchive
      (alone hashedRun.1 { hashedRun.2 with tree := oneTree [0x32] }) :=
    alone_env hhashed (.inl ⟨oneTree [0x32], rfl⟩)
  have hrun : archive.Reachable (Uploads oneSetting) oneArchive (alone changedRun.1 changedRun.2) :=
    alone_advance archive false (fun _ _ _ _ h => (answered_step h).1) 8 hchange
  have hend : changedRun.2.sent = [(Str.of "a", [0x32])] ∧
      ((cursorOf oneSetting changedRun.2.cursor).toOption.bind fun cursor => cursor.get? (Str.of "a")) =
        some [0x31] := by
    decide +kernel
  obtain ⟨cursor, hread, hget⟩ := Option.bind_eq_some_iff.mp hend.2
  refine ⟨alone changedRun.1 changedRun.2, hrun, ?_⟩
  rw [alone_state]
  refine ⟨hend.1, fun hhonest => ?_⟩
  have hcursor : cursorOf oneSetting changedRun.2.cursor = .ok cursor := by
    cases hresult : cursorOf oneSetting changedRun.2.cursor with
    | error fault =>
      rw [hresult] at hread
      cases hread
    | ok d =>
      rw [hresult] at hread
      exact congrArg Except.ok (Option.some.inj hread)
  obtain ⟨content, hmem, hdigest⟩ := hhonest cursor hcursor (Str.of "a") [0x31] hget
  have hsent := hend.1 ▸ hmem
  obtain rfl := (Prod.mk.inj (List.mem_singleton.mp hsent)).2
  cases hdigest

end Autophagy.DriveArchive
