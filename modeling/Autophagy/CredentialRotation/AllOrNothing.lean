/-
# Autophagy.CredentialRotation.AllOrNothing — what a rotation leaves behind, whatever fails.

A rotation should end with the new credentials in place and accepted, or with both files as they were, or with an
exception that does not say they were restored and the two backups still there. `all_or_nothing_iff` says that it
does, for every outcome of every seam call, except in one case (`Loses`): the rollback runs, a file that was
overwritten is not restored because that raises `OSError`, and the rollback then deletes the backups all the same.

`backup_deleted` is such a run.
-/
import Autophagy.CredentialRotation.Rotate

namespace Autophagy.CredentialRotation

open Autophagy.Python

/-! ## §1 — The property -/

/-- The text of a file, as `read_text` reads it. -/
def textOf (content : Option Bytes) : Option Str := (content.bind decodeUtf8).map universalNewlines

/-- The new texts are the old ones around a new password and its hash. -/
structure Renewed (target : RotationTarget) (verifierText noteText : Str) (renewal : Renewal) : Prop where
  verifier : ∃ encoded withHash, replaceEnvValue verifierText target.passwordHashKey encoded = .ok withHash ∧
    match target.sessionSecretKey with
    | some key => ∃ secret, replaceEnvValue withHash key secret = .ok renewal.newVerifier
    | none => renewal.newVerifier = withHash
  note : ∃ timestamp, rewriteNote noteText renewal.password timestamp = .ok renewal.newNote

/-- The new verifier and the new note are in place, and a probe of the new password was successful. -/
structure InPlace (target : RotationTarget) (files : File → Option Bytes) (renewal : Renewal) (after : Disk) :
    Prop where
  renewed : ∃ verifierText noteText, textOf (files .verifier) = some verifierText ∧
    textOf (files .note) = some noteText ∧ Renewed target verifierText noteText renewal
  content : ∀ file, ∃ bytes, utf8 (renewal.text file) = some bytes ∧ after.content (.target file) = some bytes
  accepted : (renewal.username, renewal.password) ∈ after.accepted

/-- An exception that says the original credentials were restored. -/
def Fault.ClaimsRestoration : Fault → Prop
  | .rotation reason => Str.of "original credentials were restored" <:+: reason
  | _ => False

instance (fault : Fault) : Decidable fault.ClaimsRestoration := by
  cases fault <;> unfold Fault.ClaimsRestoration <;> infer_instance

/-- Both backups are readable. -/
def BackupsKept (files : File → Option Bytes) (after : Disk) : Prop :=
  ∀ file, (files file).isSome ∧ after.content (.backup file) = files file

/-- **The property.** -/
def AllOrNothing (registry : Dict Str RotationTarget) (targetName : Str) (files : File → Option Bytes)
    (result : Except Fault Unit) (after : Disk) : Prop :=
  (∃ target renewal, registry.get? targetName = some target ∧ InPlace target files renewal after) ∨
    (∀ file, after.content (.target file) = files file) ∨
    ∃ fault, result = .error fault ∧ ¬ fault.ClaimsRestoration ∧ BackupsKept files after

/-! ## §2 — The condition -/

/-- The backups are taken. -/
def BacksUp (files : File → Option Bytes) (calls : Calls) : Prop :=
  ∀ file, (files file).isSome ∧ calls.readTarget file = .ok () ∧ calls.backUp file = .done

/-- Something fails behind the backups such that the rollback runs. -/
def RollsBack (target : RotationTarget) (calls : Calls) (renewal : Renewal) : Prop :=
  (utf8 renewal.newVerifier).isSome ∧
    match calls.write .verifier with
    | .os | .subprocess _ => True
    | .other _ => False
    | .done => (utf8 renewal.newNote).isSome ∧
        match calls.write .note with
        | .os | .subprocess _ => True
        | .other _ => False
        | .done =>
          match calls.restart with
          | .error .os | .error .subprocess => True
          | .error .other => False
          | .ok _ => ∃ status, calls.probe = .ok status ∧ status ≠ target.probeSuccessStatus

/-- The new bytes are written over the file. -/
def Overwrites (calls : Calls) : File → Prop
  | .verifier => (calls.write .verifier).replaces = true
  | .note => calls.write .verifier = .done ∧ (calls.write .note).replaces = true

instance (calls : Calls) (file : File) : Decidable (Overwrites calls file) := by
  cases file <;> unfold Overwrites <;> infer_instance

/-- The rollback restores the file. -/
def Restores (calls : Calls) (file : File) : Prop :=
  calls.readBackup file = .ok () ∧ calls.restore file = .done

/-- The restoring of the file raises `OSError`. -/
def FailsToRestore (calls : Calls) (file : File) : Prop :=
  calls.readBackup file = .error .os ∨ calls.readBackup file = .ok () ∧ calls.restore file = .os

/-- Nothing else escapes from the rollback before it deletes the backups. -/
def ReachesDelete (calls : Calls) : Prop :=
  (∀ file, Restores calls file ∨ FailsToRestore calls file) ∧
    (calls.restartAgain = .ok () ∨ calls.restartAgain = .error .subprocess)

/-- The rollback runs, leaves a file with new bytes in it, and its backup is not kept. -/
def Loses (registry : Dict Str RotationTarget) (targetName : Str) (files : File → Option Bytes) (calls : Calls) :
    Prop :=
  ∃ target renewal, registry.get? targetName = some target ∧
    (prepare targetName target calls (.initial files)).1 = .ok renewal ∧ BacksUp files calls ∧
    RollsBack target calls renewal ∧ ReachesDelete calls ∧
    (∃ file, Overwrites calls file ∧ utf8 (renewal.text file) ≠ files file ∧ FailsToRestore calls file) ∧
    (calls.delete .verifier).left ≠ files .verifier

/-! ## §3 — Parts that leave the disk alone -/

namespace Act

variable {α β : Type}

/-- The part changes nothing. -/
def Quiet (p : Act α) : Prop := ∀ disk, (p disk).2 = disk

theorem bind_apply (p : Act α) (f : α → Act β) (disk : Disk) : (p >>= f) disk =
      match p disk with
      | (.ok a, disk) => f a disk
      | (.error fault, disk) => (.error fault, disk) := rfl

theorem bind_of_ok {p : Act α} {disk disk' : Disk} {a : α} (h : p disk = (.ok a, disk')) (f : α → Act β) :
    (p >>= f) disk = f a disk' := by
  rw [bind_apply, h]

theorem bind_of_error {p : Act α} {disk disk' : Disk} {fault : Fault} (h : p disk = (.error fault, disk'))
    (f : α → Act β) : (p >>= f) disk = (.error fault, disk') := by
  rw [bind_apply, h]

theorem quiet_pure (a : α) : Quiet (pure a) := fun _ => rfl

theorem quiet_get (value : Except Fault α) : Quiet (get value) := fun _ => rfl

theorem quiet_seam (outcome : Except SeamFault α) : Quiet (seam outcome) := fun _ => rfl

theorem quiet_raise (fault : Fault) : Quiet (raise fault : Act α) := fun _ => rfl

theorem Quiet.bind {p : Act α} {f : α → Act β} (hp : Quiet p) (hf : ∀ a, Quiet (f a)) : Quiet (p >>= f) := by
  intro disk
  have hdisk := hp disk
  rw [bind_apply]
  split
  · rename_i a disk' heq
    rw [heq] at hdisk
    rw [hf a disk']
    exact hdisk
  · rename_i fault disk' heq
    rw [heq] at hdisk
    exact hdisk

theorem Quiet.of_bind_ok {p : Act α} {f : α → Act β} (hp : Quiet p) {disk : Disk} {b : β}
    (h : ((p >>= f) disk).1 = .ok b) : ∃ a, (p disk).1 = .ok a ∧ (f a disk).1 = .ok b := by
  have hdisk := hp disk
  rw [bind_apply] at h
  split at h
  · rename_i a disk' heq
    rw [heq] at hdisk
    obtain rfl : disk' = disk := hdisk
    exact ⟨a, congrArg Prod.fst heq, h⟩
  · cases h

end Act

open Act (bind_apply bind_of_ok bind_of_error quiet_pure quiet_get quiet_seam)

theorem held_of_some {path : Path} {disk : Disk} {content : Bytes} (h : disk.content path = some content) :
    held path disk = (.ok content, disk) := by
  rw [held, h]

theorem quiet_held (path : Path) : Act.Quiet (held path) := by
  intro disk
  unfold held
  split <;> rfl

theorem held_ok {path : Path} {disk : Disk} {content : Bytes} (h : (held path disk).1 = .ok content) :
    disk.content path = some content := by
  unfold held at h
  split at h
  · rename_i c heq
    rw [heq, Except.ok.inj h]
  · cases h

theorem quiet_readBytes (path : Path) (outcome : Except SeamFault Unit) : Act.Quiet (readBytes path outcome) :=
  (quiet_seam outcome).bind fun _ => quiet_held path

theorem quiet_readText (path : Path) (outcome : Except SeamFault Unit) : Act.Quiet (readText path outcome) := by
  refine (quiet_readBytes path outcome).bind fun content => ?_
  split
  · exact quiet_pure _
  · exact Act.quiet_raise _

theorem quiet_newVerifier (target : RotationTarget) (calls : Calls) (content encoded : Str) :
    Act.Quiet (newVerifier target calls content encoded) := by
  refine (quiet_get _).bind fun withHash => ?_
  split
  · exact (quiet_seam _).bind fun _ => (quiet_get _).bind fun _ => quiet_get _
  · exact quiet_pure _

/-- The preparation changes nothing. -/
theorem quiet_prepare (targetName : Str) (target : RotationTarget) (calls : Calls) :
    Act.Quiet (prepare targetName target calls) := by
  refine (quiet_seam _).bind fun user => ?_
  split
  · exact Act.quiet_raise _
  · refine (quiet_readText _ _).bind fun verifierText => ?_
    refine (quiet_get _).bind fun verifier => ?_
    refine (quiet_get _).bind fun username => ?_
    refine (quiet_readText _ _).bind fun note => ?_
    refine (quiet_get _).bind fun oldPassword => ?_
    refine (quiet_seam _).bind fun password => ?_
    refine (quiet_get _).bind fun _ => ?_
    refine (quiet_seam _).bind fun encoded => ?_
    refine (quiet_newVerifier _ _ _ _).bind fun newVerifier => ?_
    refine (quiet_seam _).bind fun timestamp => ?_
    exact (quiet_get _).bind fun newNote => quiet_pure _

theorem textOf_of_readText {path : Path} {outcome : Except SeamFault Unit} {disk : Disk} {text : Str}
    (h : (readText path outcome disk).1 = .ok text) : textOf (disk.content path) = some text := by
  obtain ⟨content, hread, hdecode⟩ := (quiet_readBytes path outcome).of_bind_ok h
  obtain ⟨_, -, hheld⟩ := (quiet_seam outcome).of_bind_ok hread
  rw [textOf, held_ok hheld, Option.bind_some]
  cases hcontent : decodeUtf8 content with
  | some decoded =>
    rw [hcontent] at hdecode
    exact congrArg some (Except.ok.inj hdecode)
  | none =>
    rw [hcontent] at hdecode
    cases hdecode

theorem content_of_parseEnv {content : Str} {document : EnvDocument} (h : parseEnv content = .ok document) :
    document.content = content := by
  unfold parseEnv at h
  cases hvalues : (splitlines content).foldlM parseLine .empty with
  | error fault =>
    rw [hvalues] at h
    cases h
  | ok values =>
    rw [hvalues] at h
    rw [← Except.ok.inj h]

/-- What the preparation returns is around the texts it read. -/
theorem renewed_of_prepare {targetName : Str} {target : RotationTarget} {calls : Calls} {disk : Disk}
    {renewal : Renewal} (h : (prepare targetName target calls disk).1 = .ok renewal) :
    ∃ verifierText noteText, textOf (disk.content (.target .verifier)) = some verifierText ∧
      textOf (disk.content (.target .note)) = some noteText ∧ Renewed target verifierText noteText renewal := by
  obtain ⟨user, -, h⟩ := (quiet_seam _).of_bind_ok h
  split at h
  · cases h
  obtain ⟨verifierText, hverifierText, h⟩ := (quiet_readText _ _).of_bind_ok h
  obtain ⟨verifier, hverifier, h⟩ := (quiet_get _).of_bind_ok h
  obtain ⟨username, -, h⟩ := (quiet_get _).of_bind_ok h
  obtain ⟨noteText, hnoteText, h⟩ := (quiet_readText _ _).of_bind_ok h
  obtain ⟨oldPassword, -, h⟩ := (quiet_get _).of_bind_ok h
  obtain ⟨password, -, h⟩ := (quiet_seam _).of_bind_ok h
  obtain ⟨_, -, h⟩ := (quiet_get _).of_bind_ok h
  obtain ⟨encoded, -, h⟩ := (quiet_seam _).of_bind_ok h
  obtain ⟨newVerifierText, hnew, h⟩ := (quiet_newVerifier _ _ _ _).of_bind_ok h
  obtain ⟨timestamp, -, h⟩ := (quiet_seam _).of_bind_ok h
  obtain ⟨newNote, hnote, h⟩ := (quiet_get _).of_bind_ok h
  obtain rfl : (⟨username, oldPassword, password, newVerifierText, newNote⟩ : Renewal) = renewal := Except.ok.inj h
  refine ⟨verifierText, noteText, textOf_of_readText hverifierText, textOf_of_readText hnoteText, ?_, timestamp, hnote⟩
  rw [content_of_parseEnv hverifier] at hnew
  obtain ⟨withHash, hhash, hnew⟩ := (quiet_get _).of_bind_ok hnew
  refine ⟨encoded, withHash, hhash, ?_⟩
  cases hkey : target.sessionSecretKey with
  | none =>
    rw [hkey] at hnew
    exact (Except.ok.inj hnew).symm
  | some key =>
    rw [hkey] at hnew
    obtain ⟨_, -, hnew⟩ := (quiet_seam _).of_bind_ok hnew
    obtain ⟨secret, -, hnew⟩ := (quiet_get _).of_bind_ok hnew
    exact ⟨secret, hnew⟩

/-! ## §4 — The backups -/

/-- The disk when the files are replaced: both backups are there, and nothing has changed. -/
structure Ready (files : File → Option Bytes) (disk : Disk) : Prop where
  target : ∀ file, disk.content (.target file) = files file
  backup : BackupsKept files disk
  accepted : disk.accepted = []

theorem attempt_apply {α : Type} (p : Act α) (disk : Disk) : Act.attempt p disk = (.ok (p disk).1, (p disk).2) := rfl

theorem backUp_apply {calls : Calls} {file : File} {disk : Disk} {content : Bytes}
    (hread : calls.readTarget file = .ok ()) (hcontent : disk.content (.target file) = some content) :
    backUp calls file disk = atomicWrite (.backup file) content (calls.backUp file) disk := by
  rw [backUp, readBytes, hread]
  show (held (.target file) >>= _) disk = _
  rw [bind_of_ok (held_of_some hcontent)]

/-- A backup that does not return has left the files alone. -/
theorem backUp_cases (calls : Calls) (file : File) (disk : Disk) :
    (∃ fault, (backUp calls file disk).1 = .error fault ∧ ¬ (calls.readTarget file = .ok () ∧
        (disk.content (.target file)).isSome ∧ calls.backUp file = .done) ∧
      ∀ f, (backUp calls file disk).2.content (.target f) = disk.content (.target f)) ∨
    ∃ content, calls.readTarget file = .ok () ∧ disk.content (.target file) = some content ∧
      calls.backUp file = .done ∧ backUp calls file disk = (.ok (), disk.put (.backup file) (some content)) := by
  cases hread : calls.readTarget file with
  | error fault =>
    refine .inl ⟨.seam fault, ?_, fun h => (nomatch h.1), ?_⟩
    · rw [backUp, readBytes, hread]
      rfl
    · intro f
      rw [backUp, readBytes, hread]
      rfl
  | ok u =>
    cases hcontent : disk.content (.target file) with
    | none =>
      have hheld : held (.target file) disk = (.error (.seam .os), disk) := by
        rw [held, hcontent]
      refine .inl ⟨.seam .os, ?_, fun h => (nomatch h.2.1), ?_⟩
      · rw [backUp, readBytes, hread]
        show ((held (.target file) >>= _) disk).1 = _
        rw [bind_of_error hheld]
      · intro f
        rw [backUp, readBytes, hread]
        show ((held (.target file) >>= _) disk).2.content _ = _
        rw [bind_of_error hheld]
    | some content =>
      rw [backUp_apply hread hcontent]
      have hother : ∀ f, (atomicWrite (.backup file) content (calls.backUp file) disk).2.content (.target f) =
          disk.content (.target f) := by
        intro f
        show (if (calls.backUp file).replaces then disk.put (.backup file) (some content) else disk).content _ = _
        split
        · exact Disk.put_backup_target disk file f _
        · rfl
      cases hwrite : calls.backUp file with
      | done => exact .inr ⟨content, rfl, rfl, rfl, rfl⟩
      | os => exact .inl ⟨_, rfl, fun h => (nomatch h.2.2), hwrite ▸ hother⟩
      | subprocess replaced => exact .inl ⟨_, rfl, fun h => (nomatch h.2.2), hwrite ▸ hother⟩
      | other replaced => exact .inl ⟨_, rfl, fun h => (nomatch h.2.2), hwrite ▸ hother⟩

theorem files_forall {P : File → Prop} (hverifier : P .verifier) (hnote : P .note) : ∀ file, P file
  | .verifier => hverifier
  | .note => hnote

/-- Either both backups are taken, or the files are as they were. -/
theorem takeBackups_cases (files : File → Option Bytes) (calls : Calls) :
    (BacksUp files calls ∧ ∃ disk, takeBackups calls (.initial files) = (.ok (), disk) ∧ Ready files disk) ∨
    (¬ BacksUp files calls ∧ ∃ fault disk, takeBackups calls (.initial files) = (.error fault, disk) ∧
      ∀ file, disk.content (.target file) = files file) := by
  rcases backUp_cases calls .verifier (.initial files) with
    ⟨fault, hresult, hnot, hsame⟩ | ⟨verifier, hread, hcontent, hdone, hbackup⟩
  · refine .inr ⟨fun h => hnot ⟨(h .verifier).2.1, (h .verifier).1, (h .verifier).2.2⟩, ?_⟩
    rw [takeBackups, bind_apply, attempt_apply, hresult]
    cases fault with
    | seam f => cases f <;> exact ⟨_, _, rfl, hsame⟩
    | unicode => exact ⟨_, _, rfl, hsame⟩
    | rotation reason => exact ⟨_, _, rfl, hsame⟩
  · rcases backUp_cases calls .note ((Disk.initial files).put (.backup .verifier) (some verifier)) with
      ⟨fault, hresult, hnot, hsame⟩ | ⟨note, hread', hcontent', hdone', hbackup'⟩
    · refine .inr ⟨fun h => hnot ⟨(h .note).2.1, (h .note).1, (h .note).2.2⟩, ?_⟩
      rw [takeBackups, bind_apply, attempt_apply, hbackup]
      show ∃ fault disk, (Act.attempt (backUp calls .note) >>= _) _ = _ ∧ _
      rw [bind_apply, attempt_apply, hresult]
      have hkept : ∀ left f, ((backUp calls .note ((Disk.initial files).put (.backup .verifier)
          (some verifier))).2.put (.backup .verifier) left).content (.target f) = files f :=
        fun left f => (Disk.put_backup_target _ _ f left).trans (hsame f)
      cases fault with
      | seam f =>
        cases f with
        | os =>
          cases hdiscard : calls.discardBackup with
          | done =>
            exact ⟨.rotation "could not create credential backups", _, rfl, hkept none⟩
          | raises g left =>
            exact ⟨.seam g, _, rfl, hkept left⟩
        | subprocess => exact ⟨_, _, rfl, hsame⟩
        | other => exact ⟨_, _, rfl, hsame⟩
      | unicode => exact ⟨_, _, rfl, hsame⟩
      | rotation reason => exact ⟨_, _, rfl, hsame⟩
    · have hverifier : files .verifier = some verifier := hcontent
      have hnote : files .note = some note := hcontent'
      refine .inl ⟨files_forall ⟨by rw [hverifier]; rfl, hread, hdone⟩ ⟨by rw [hnote]; rfl, hread', hdone'⟩, ?_⟩
      rw [takeBackups, bind_apply, attempt_apply, hbackup]
      show ∃ disk, (Act.attempt (backUp calls .note) >>= _) _ = _ ∧ _
      rw [bind_apply, attempt_apply, hbackup']
      refine ⟨_, rfl, ?_, ?_, rfl⟩
      · exact files_forall rfl rfl
      · exact files_forall ⟨by rw [hverifier]; rfl, hverifier.symm⟩ ⟨by rw [hnote]; rfl, hnote.symm⟩

/-! ## §5 — The rollback -/

section Rollback

variable {calls : Calls} {disk : Disk}

/-- One file of the rollback. -/
theorem restoreFile_cases (calls : Calls) {file : File} {content : Bytes}
    (h : disk.content (.backup file) = some content) :
    (Restores calls file ∧ restoreFile calls file disk = (.ok true, disk.put (.target file) (some content))) ∨
    (¬ Restores calls file ∧ FailsToRestore calls file ∧ restoreFile calls file disk = (.ok false, disk)) ∨
    (¬ Restores calls file ∧ ¬ FailsToRestore calls file ∧ ∃ fault disk',
      restoreFile calls file disk = (.error (.seam fault), disk') ∧
        ∀ f, disk'.content (.backup f) = disk.content (.backup f)) := by
  rw [restoreFile, bind_apply, attempt_apply, readBytes]
  unfold Restores FailsToRestore
  cases hread : calls.readBackup file with
  | error fault =>
    cases fault with
    | os => exact .inr (.inl ⟨fun h => (by cases h.1), .inl rfl, rfl⟩)
    | subprocess => exact .inr (.inr ⟨fun h => (by cases h.1), by simp, .subprocess, disk, rfl, fun _ => rfl⟩)
    | other => exact .inr (.inr ⟨fun h => (by cases h.1), by simp, .other, disk, rfl, fun _ => rfl⟩)
  | ok u =>
    have hbody : (Act.seam (.ok u) >>= fun _ => held (.backup file)) disk = (.ok content, disk) := held_of_some h
    rw [bind_of_ok hbody]
    have hkept : ∀ (replaced : Bool) f,
        (if replaced then disk.put (.target file) (some content) else disk).content (.backup f) =
          disk.content (.backup f) := by
      intro replaced f
      cases replaced with
      | true => exact Disk.put_target_backup disk file f _
      | false => rfl
    cases hwrite : calls.restore file with
    | done => exact .inl ⟨⟨rfl, rfl⟩, rfl⟩
    | os => exact .inr (.inl ⟨fun h => (by cases h.2), .inr ⟨rfl, rfl⟩, rfl⟩)
    | subprocess replaced =>
      exact .inr (.inr ⟨fun h => (by cases h.2), by simp, .subprocess, _, rfl, hkept replaced⟩)
    | other replaced => exact .inr (.inr ⟨fun h => (by cases h.2), by simp, .other, _, rfl, hkept replaced⟩)

theorem restartAgain_cases (calls : Calls) (disk : Disk) :
    ((calls.restartAgain = .ok () ∨ calls.restartAgain = .error .subprocess) ∧ ∃ restarted,
      restartAgain calls disk = (.ok restarted, disk)) ∨
    (¬ (calls.restartAgain = .ok () ∨ calls.restartAgain = .error .subprocess) ∧ ∃ fault,
      restartAgain calls disk = (.error (.seam fault), disk)) := by
  rw [restartAgain, bind_apply, attempt_apply]
  cases calls.restartAgain with
  | ok u => exact .inl ⟨.inl rfl, true, rfl⟩
  | error fault =>
    cases fault with
    | subprocess => exact .inl ⟨.inr rfl, false, rfl⟩
    | os => exact .inr ⟨by simp, .os, rfl⟩
    | other => exact .inr ⟨by simp, .other, rfl⟩

theorem not_restores_of_failsToRestore {file : File} (h : FailsToRestore calls file) : ¬ Restores calls file := by
  rintro ⟨hread, hdone⟩
  rcases h with hos | ⟨-, hos⟩
  · rw [hread] at hos
    cases hos
  · rw [hdone] at hos
    cases hos

/-- The deletion of the backups touches no other file, and keeps the second backup where it raises at the first. -/
theorem deleteBackups_apply (calls : Calls) (disk : Disk) : ∃ result disk', deleteBackups calls disk = (result, disk') ∧
      (∀ f, disk'.content (.target f) = disk.content (.target f)) ∧
      disk'.content (.backup .verifier) = (calls.delete .verifier).left ∧ disk'.accepted = disk.accepted ∧
      (result = .ok () ∨ ∃ fault, result = .error (.seam fault)) ∧
      ((calls.delete .verifier).left ≠ none → disk'.content (.backup .note) = disk.content (.backup .note) ∧
        ∃ fault, result = .error (.seam fault)) := by
  have hne : Path.backup .verifier ≠ .backup .note := by decide
  rw [deleteBackups]
  cases hfirst : calls.delete .verifier with
  | raises fault left =>
    refine ⟨.error (.seam fault), disk.put (.backup .verifier) left, ?_, fun f => ?_, Disk.put_self _ _ _, rfl,
      .inr ⟨fault, rfl⟩, fun _ => ⟨Disk.put_of_ne hne.symm _ _, fault, rfl⟩⟩
    · rw [bind_apply]
      rfl
    · exact Disk.put_backup_target _ _ _ _
  | done =>
    have htarget : ∀ left f, ((disk.put (.backup .verifier) none).put (.backup .note) left).content (.target f) =
        disk.content (.target f) :=
      fun left f => (Disk.put_backup_target _ _ _ _).trans (Disk.put_backup_target _ _ _ _)
    have hbackup : ∀ left, ((disk.put (.backup .verifier) none).put (.backup .note) left).content
        (.backup .verifier) = none :=
      fun left => (Disk.put_of_ne hne _ _).trans (Disk.put_self _ _ _)
    cases hsecond : calls.delete .note with
    | done => exact ⟨.ok (), _, rfl, htarget none, hbackup none, rfl, .inl rfl, fun h => absurd rfl h⟩
    | raises fault left =>
      exact ⟨.error (.seam fault), _, rfl, htarget left, hbackup left, rfl, .inr ⟨fault, rfl⟩, fun h => absurd rfl h⟩

/-- A file whose round of the rollback ended. -/
structure Restored (calls : Calls) (file : File) (content : Bytes) (disk : Disk) (restored : Bool) (disk' : Disk) :
    Prop where
  iff : restored = true ↔ Restores calls file
  ended : Restores calls file ∨ FailsToRestore calls file
  restores : Restores calls file → disk'.content (.target file) = some content
  fails : FailsToRestore calls file → disk'.content (.target file) = disk.content (.target file)
  frame : ∀ f ≠ file, disk'.content (.target f) = disk.content (.target f)
  backup : ∀ f, disk'.content (.backup f) = disk.content (.backup f)
  accepted : disk'.accepted = disk.accepted

theorem restoreFile_ended (calls : Calls) {file : File} {content : Bytes}
    (h : disk.content (.backup file) = some content) :
    (∃ restored disk', restoreFile calls file disk = (.ok restored, disk') ∧
      Restored calls file content disk restored disk') ∨
    (¬ (Restores calls file ∨ FailsToRestore calls file) ∧ ∃ fault disk',
      restoreFile calls file disk = (.error (.seam fault), disk') ∧
        ∀ f, disk'.content (.backup f) = disk.content (.backup f)) := by
  rcases restoreFile_cases calls h with ⟨hrestores, heq⟩ | ⟨hnot, hfails, heq⟩ | ⟨hnot, hnot', fault, disk', heq, hb⟩
  · refine .inl ⟨true, _, heq, ⟨fun _ => hrestores, fun _ => rfl⟩, .inl hrestores, fun _ => Disk.put_self _ _ _, ?_, ?_,
      fun f => Disk.put_target_backup _ _ _ _, rfl⟩
    · exact fun hfails => absurd hrestores (not_restores_of_failsToRestore hfails)
    · exact fun f hf => Disk.put_of_ne (by simpa using hf) _ _
  · exact .inl ⟨false, _, heq, ⟨nofun, fun hr => absurd hr hnot⟩, .inr hfails, fun hr => absurd hr hnot, fun _ => rfl,
      fun _ _ => rfl, fun _ => rfl, rfl⟩
  · exact .inr ⟨not_or.mpr ⟨hnot, hnot'⟩, fault, disk', heq, hb⟩

/-- The part leaves the files of the target alone. -/
def KeepsTargets {α : Type} (p : Act α) : Prop :=
  ∀ disk f, (p disk).2.content (.target f) = disk.content (.target f)

theorem KeepsTargets.bind {α β : Type} {p : Act α} {f : α → Act β} (hp : KeepsTargets p)
    (hf : ∀ a, KeepsTargets (f a)) : KeepsTargets (p >>= f) := by
  intro disk file
  have hdisk := hp disk file
  rw [bind_apply]
  split
  · rename_i a disk' heq
    rw [heq] at hdisk
    exact (hf a disk' file).trans hdisk
  · rename_i fault disk' heq
    rw [heq] at hdisk
    exact hdisk

theorem Act.Quiet.keepsTargets {α : Type} {p : Act α} (h : Act.Quiet p) : KeepsTargets p := by
  intro disk f
  rw [h disk]

theorem keepsTargets_deleteBackups (calls : Calls) : KeepsTargets (deleteBackups calls) := by
  intro disk f
  obtain ⟨result, disk', heq, htarget, -⟩ := deleteBackups_apply calls disk
  rw [heq]
  exact htarget f

theorem keepsTargets_sendProbe (target : RotationTarget) (username password : Str)
    (outcome : Except SeamFault Int) : KeepsTargets (sendProbe target username password outcome) := by
  refine (quiet_seam outcome).keepsTargets.bind fun status disk f => ?_
  show (if status = target.probeSuccessStatus then _ else disk).content _ = _
  split <;> rfl

/-- What is behind the restart of the rollback. -/
def finish (target : RotationTarget) (calls : Calls) (username oldPassword : Str) (ready : Prop) [Decidable ready] :
    Act Unit := do
  let recovered ←
    if ready then do
      let status ← sendProbe target username oldPassword calls.probeAgain
      pure (decide (status = target.probeSuccessStatus))
    else pure false
  deleteBackups calls
  if recovered then pure ()
  else Act.raise (.rotation "rotation failed and automatic rollback could not be verified")

theorem keepsTargets_finish (target : RotationTarget) (calls : Calls) (username oldPassword : Str) (ready : Prop)
    [Decidable ready] : KeepsTargets (finish target calls username oldPassword ready) := by
  have hrest : ∀ recovered : Bool, KeepsTargets (deleteBackups calls >>= fun _ =>
      if recovered then pure ()
      else Act.raise (.rotation "rotation failed and automatic rollback could not be verified")) := by
    refine fun recovered => (keepsTargets_deleteBackups calls).bind fun _ => ?_
    split
    · exact (quiet_pure _).keepsTargets
    · exact (Act.quiet_raise _).keepsTargets
  unfold finish
  split
  · exact (keepsTargets_sendProbe _ _ _ _).bind fun status => hrest (decide (status = target.probeSuccessStatus))
  · exact hrest false

/-- Where a file was not restored, the rollback deletes the backups and raises. -/
theorem finish_of_not (target : RotationTarget) (calls : Calls) (username oldPassword : Str) {ready : Prop}
    [Decidable ready] (hready : ¬ ready) {files : File → Option Bytes} (hbackup : BackupsKept files disk) :
    ∃ fault disk', finish target calls username oldPassword ready disk = (.error fault, disk') ∧
      ¬ fault.ClaimsRestoration ∧ disk'.accepted = disk.accepted ∧
      (∀ f, disk'.content (.target f) = disk.content (.target f)) ∧
      disk'.content (.backup .verifier) = (calls.delete .verifier).left ∧
      ((calls.delete .verifier).left = files .verifier → BackupsKept files disk') := by
  obtain ⟨result, disk', heq, htarget, hleft, haccepted, hresult, hkeeps⟩ := deleteBackups_apply calls disk
  have hkept : (calls.delete .verifier).left = files .verifier → BackupsKept files disk' := by
    intro hfirst
    have hsome : (calls.delete .verifier).left ≠ none := by
      rw [hfirst]
      exact Option.isSome_iff_ne_none.mp (hbackup .verifier).1
    refine files_forall ⟨(hbackup .verifier).1, hleft.trans hfirst⟩ ⟨(hbackup .note).1, ?_⟩
    exact (hkeeps hsome).1.trans (hbackup .note).2
  have hfinish : finish target calls username oldPassword ready disk = (deleteBackups calls >>= fun _ =>
        Act.raise (.rotation "rotation failed and automatic rollback could not be verified")) disk := by
    rw [finish, if_neg hready]
    rfl
  rw [hfinish]
  rcases hresult with rfl | ⟨fault, rfl⟩
  · rw [bind_of_ok heq]
    exact ⟨_, disk', rfl, by decide, haccepted, htarget, hleft, hkept⟩
  · rw [bind_of_error heq]
    exact ⟨_, disk', rfl, nofun, haccepted, htarget, hleft, hkept⟩

/-- What the rollback does from a disk with both backups. -/
theorem rollback_cases (target : RotationTarget) (calls : Calls) (username oldPassword : Str)
    {files : File → Option Bytes} (hbackup : BackupsKept files disk) :
    (¬ ReachesDelete calls ∧ ∃ fault disk', rollback target calls username oldPassword disk =
      (.error (.seam fault), disk') ∧ BackupsKept files disk') ∨
    (ReachesDelete calls ∧ (∀ file, Restores calls file) ∧
      ∀ file, (rollback target calls username oldPassword disk).2.content (.target file) = files file) ∨
    (ReachesDelete calls ∧ (∃ file, FailsToRestore calls file) ∧ ∃ fault disk',
      rollback target calls username oldPassword disk = (.error fault, disk') ∧ ¬ fault.ClaimsRestoration ∧
      disk'.accepted = disk.accepted ∧ (∀ file, Restores calls file → disk'.content (.target file) = files file) ∧
      (∀ file, FailsToRestore calls file → disk'.content (.target file) = disk.content (.target file)) ∧
      disk'.content (.backup .verifier) = (calls.delete .verifier).left ∧
      ((calls.delete .verifier).left = files .verifier → BackupsKept files disk')) := by
  have hroll : rollback target calls username oldPassword = restoreFile calls .verifier >>= fun verifierRestored =>
      restoreFile calls .note >>= fun noteRestored => restartAgain calls >>= fun restarted =>
        finish target calls username oldPassword (verifierRestored ∧ noteRestored ∧ restarted) := rfl
  have hkept : ∀ {disk' : Disk}, (∀ f, disk'.content (.backup f) = disk.content (.backup f)) →
      BackupsKept files disk' := fun h f => ⟨(hbackup f).1, (h f).trans (hbackup f).2⟩
  obtain ⟨verifier, hverifier⟩ := Option.isSome_iff_exists.mp (hbackup .verifier).1
  obtain ⟨note, hnote⟩ := Option.isSome_iff_exists.mp (hbackup .note).1
  rw [hroll]
  rcases restoreFile_ended calls ((hbackup .verifier).2.trans hverifier) with
    ⟨verifierRestored, disk₁, heq₁, h₁⟩ | ⟨hnot, fault, disk', heq, hb⟩
  case inr =>
    refine .inl ⟨fun h => hnot (h.1 .verifier), fault, disk', ?_, hkept hb⟩
    rw [bind_of_error heq]
  rw [bind_of_ok heq₁]
  rcases restoreFile_ended calls ((h₁.backup .note).trans ((hbackup .note).2.trans hnote)) with
    ⟨noteRestored, disk₂, heq₂, h₂⟩ | ⟨hnot, fault, disk', heq, hb⟩
  case inr =>
    refine .inl ⟨fun h => hnot (h.1 .note), fault, disk', ?_, hkept fun f => (hb f).trans (h₁.backup f)⟩
    rw [bind_of_error heq]
  rw [bind_of_ok heq₂]
  have hbackup₂ : BackupsKept files disk₂ := hkept fun f => (h₂.backup f).trans (h₁.backup f)
  rcases restartAgain_cases calls disk₂ with ⟨hrestart, restarted, heq₃⟩ | ⟨hnot, fault, heq₃⟩
  case inr =>
    refine .inl ⟨fun h => hnot h.2, fault, disk₂, ?_, hbackup₂⟩
    rw [bind_of_error heq₃]
  rw [bind_of_ok heq₃]
  have hreach : ReachesDelete calls := ⟨files_forall h₁.ended h₂.ended, hrestart⟩
  -- the note's round leaves the verifier alone, and the other way round
  have hfirst : disk₂.content (.target .verifier) = disk₁.content (.target .verifier) := h₂.frame .verifier (by decide)
  have hsecond : disk₁.content (.target .note) = disk.content (.target .note) := h₁.frame .note (by decide)
  have hrestores : ∀ file, Restores calls file → disk₂.content (.target file) = files file :=
    files_forall (fun h => hfirst.trans ((h₁.restores h).trans hverifier.symm))
      (fun h => (h₂.restores h).trans hnote.symm)
  have hfails : ∀ file, FailsToRestore calls file → disk₂.content (.target file) = disk.content (.target file) :=
    files_forall (fun h => hfirst.trans (h₁.fails h)) (fun h => (h₂.fails h).trans hsecond)
  by_cases hall : ∀ file, Restores calls file
  · refine .inr (.inl ⟨hreach, hall, fun file => ?_⟩)
    exact (keepsTargets_finish target calls username oldPassword _ disk₂ file).trans (hrestores file (hall file))
  · have hsome : ∃ file, FailsToRestore calls file := by
      obtain ⟨file, hfile⟩ := not_forall.mp hall
      exact ⟨file, (hreach.1 file).resolve_left hfile⟩
    have hnot : ¬ (verifierRestored = true ∧ noteRestored = true ∧ restarted = true) :=
      fun h => hall (files_forall (h₁.iff.mp h.1) (h₂.iff.mp h.2.1))
    obtain ⟨fault, disk', heq, hclaims, haccepted, htarget, hleft, hkeeps⟩ :=
      finish_of_not target calls username oldPassword hnot hbackup₂
    exact .inr (.inr ⟨hreach, hsome, fault, disk', heq, hclaims, haccepted.trans (h₂.accepted.trans h₁.accepted),
      fun file h => (htarget file).trans (hrestores file h), fun file h => (htarget file).trans (hfails file h), hleft,
      hkeeps⟩)

end Rollback

/-! ## §6 — The files are replaced -/

/-- The disk behind the body of the `try`. -/
structure Overwritten (files : File → Option Bytes) (calls : Calls) (renewal : Renewal) (disk : Disk) : Prop where
  overwritten : ∀ file, Overwrites calls file → disk.content (.target file) = utf8 (renewal.text file)
  same : ∀ file, ¬ Overwrites calls file → disk.content (.target file) = files file
  backup : BackupsKept files disk
  accepted : disk.accepted = []

section Replacing

variable {files : File → Option Bytes} {calls : Calls} {renewal : Renewal} {disk : Disk}

theorem encode_some {text : Str} {bytes : Bytes} (h : utf8 text = some bytes) (disk : Disk) :
    encode text disk = (.ok bytes, disk) := by
  rw [encode, h]
  rfl

theorem encode_none {text : Str} (h : utf8 text = none) (disk : Disk) : encode text disk = (.error .unicode, disk) := by
  rw [encode, h]
  rfl

theorem backupsKept_write (h : BackupsKept files disk) (file : File) (content : Bytes) (outcome : WriteOutcome) :
    BackupsKept files (atomicWrite (.target file) content outcome disk).2 := by
  intro f
  refine ⟨(h f).1, ?_⟩
  show (if outcome.replaces then disk.put (.target file) (some content) else disk).content _ = _
  split
  · exact (Disk.put_target_backup _ _ _ _).trans (h f).2
  · exact (h f).2

theorem accepted_write (file : File) (content : Bytes) (outcome : WriteOutcome) :
    (atomicWrite (.target file) content outcome disk).2.accepted = disk.accepted := by
  show (if outcome.replaces then disk.put (.target file) (some content) else disk).accepted = _
  split <;> rfl

theorem target_write (file : File) (content : Bytes) (outcome : WriteOutcome) (f : File) :
    (atomicWrite (.target file) content outcome disk).2.content (.target f) =
      if f = file ∧ outcome.replaces = true then some content else disk.content (.target f) := by
  show (if outcome.replaces then disk.put (.target file) (some content) else disk).content _ = _
  by_cases hf : f = file
  · subst hf
    cases outcome.replaces with
    | true => simp
    | false => simp
  · have hne : Path.target f ≠ .target file := by simpa using hf
    have hnot : ¬ (f = file ∧ outcome.replaces = true) := fun h => hf h.1
    rw [if_neg hnot]
    split
    · exact Disk.put_of_ne hne disk (some content)
    · rfl

variable (calls) in
/-- The disk behind both writes, or behind the first where that did not return. -/
theorem overwritten_of_writes (hready : Ready files disk) {verifier : Bytes}
    (hverifier : utf8 renewal.newVerifier = some verifier) :
    let disk₁ := (atomicWrite (.target .verifier) verifier (calls.write .verifier) disk).2
    (calls.write .verifier ≠ .done → Overwritten files calls renewal disk₁) ∧
      ∀ note, utf8 renewal.newNote = some note → calls.write .verifier = .done →
        Overwritten files calls renewal (atomicWrite (.target .note) note (calls.write .note) disk₁).2 := by
  intro disk₁
  have hbackup₁ : BackupsKept files disk₁ := backupsKept_write hready.backup .verifier verifier _
  have haccepted₁ : disk₁.accepted = [] := (accepted_write .verifier verifier _).trans hready.accepted
  have hnote₁ : disk₁.content (.target .note) = files .note := by
    rw [target_write, if_neg (by simp)]
    exact hready.target .note
  constructor
  · intro hdone
    refine ⟨files_forall ?_ ?_, files_forall ?_ ?_, hbackup₁, haccepted₁⟩
    · intro h
      have hreplaces : (calls.write .verifier).replaces = true := h
      rw [target_write, if_pos ⟨rfl, hreplaces⟩]
      exact hverifier.symm
    · exact fun h => absurd h.1 hdone
    · intro h
      have hreplaces : ¬ (calls.write .verifier).replaces = true := h
      rw [target_write, if_neg fun h => hreplaces h.2]
      exact hready.target .verifier
    · exact fun _ => hnote₁
  · intro note hnote hdone
    have hreplaces : (calls.write .verifier).replaces = true := by rw [hdone]; rfl
    have hfirst : disk₁.content (.target .verifier) = utf8 renewal.newVerifier := by
      rw [target_write, if_pos ⟨rfl, hreplaces⟩]
      exact hverifier.symm
    refine ⟨files_forall ?_ ?_, files_forall ?_ ?_, backupsKept_write hbackup₁ .note note _,
      (accepted_write .note note _).trans haccepted₁⟩
    · intro _
      rw [target_write, if_neg (by simp)]
      exact hfirst
    · intro h
      rw [target_write, if_pos ⟨rfl, h.2⟩]
      exact hnote.symm
    · exact fun h => absurd hreplaces h
    · intro h
      have hnot : ¬ (calls.write .note).replaces = true := fun hr => h ⟨hdone, hr⟩
      rw [target_write, if_neg fun h => hnot h.2]
      exact hnote₁

variable (calls renewal) in
/-- How the body of the `try` ends. -/
theorem replaceFiles_cases (target : RotationTarget) (hready : Ready files disk) :
    ((∃ status, calls.restart = .ok status) ∧ (∀ file, Overwrites calls file) ∧
      (∀ file, (utf8 (renewal.text file)).isSome) ∧
      (RollsBack target calls renewal ↔ ∃ status, calls.probe = .ok status ∧ status ≠ target.probeSuccessStatus) ∧
      ∃ disk', replaceFiles calls renewal disk = (.ok (), disk') ∧ Overwritten files calls renewal disk') ∨
    (RollsBack target calls renewal ∧ ∃ fault disk', fault ≠ .other ∧
      replaceFiles calls renewal disk = (.error (.seam fault), disk') ∧ Overwritten files calls renewal disk') ∨
    (¬ RollsBack target calls renewal ∧ ∃ fault disk', (fault = .seam .other ∨ fault = .unicode) ∧
      replaceFiles calls renewal disk = (.error fault, disk') ∧ BackupsKept files disk') := by
  unfold RollsBack
  cases hverifier : utf8 renewal.newVerifier with
  | none =>
    refine .inr (.inr ⟨by simp, .unicode, disk, .inr rfl, ?_, hready.backup⟩)
    rw [replaceFiles, bind_of_error (encode_none hverifier disk)]
  | some verifier =>
    obtain ⟨hfirst, hboth⟩ := overwritten_of_writes calls hready hverifier
    rw [replaceFiles, bind_of_ok (encode_some hverifier disk)]
    cases hwrite : calls.write .verifier with
    | os =>
      rw [hwrite] at hfirst
      exact .inr (.inl ⟨⟨rfl, trivial⟩, .os, _, by simp, rfl, hfirst nofun⟩)
    | subprocess replaced =>
      rw [hwrite] at hfirst
      exact .inr (.inl ⟨⟨rfl, trivial⟩, .subprocess, _, by simp, rfl, hfirst nofun⟩)
    | other replaced =>
      exact .inr (.inr ⟨fun h => h.2, .seam .other, _, .inl rfl, rfl,
        backupsKept_write hready.backup .verifier verifier _⟩)
    | done =>
      rw [hwrite] at hboth
      have hbackup := backupsKept_write hready.backup .verifier verifier .done
      have hstep : ∀ rest : Unit → Act Unit, (atomicWrite (.target .verifier) verifier .done >>= rest) disk =
            rest () (atomicWrite (.target .verifier) verifier .done disk).2 := fun _ => rfl
      rw [hstep]
      cases hnote : utf8 renewal.newNote with
      | none =>
        refine .inr (.inr ⟨fun h => (nomatch h.2.1), .unicode, _, .inr rfl, ?_, hbackup⟩)
        rw [bind_of_error (encode_none hnote _)]
      | some note =>
        have hover := hboth note hnote rfl
        rw [bind_of_ok (encode_some hnote _)]
        cases hwrite' : calls.write .note with
        | os =>
          rw [hwrite'] at hover
          exact .inr (.inl ⟨⟨rfl, rfl, trivial⟩, .os, _, by simp, rfl, hover⟩)
        | subprocess replaced =>
          rw [hwrite'] at hover
          exact .inr (.inl ⟨⟨rfl, rfl, trivial⟩, .subprocess, _, by simp, rfl, hover⟩)
        | other replaced =>
          rw [hwrite'] at hover
          exact .inr (.inr ⟨fun h => h.2.2, .seam .other, _, .inl rfl, rfl, hover.backup⟩)
        | done =>
          rw [hwrite'] at hover
          have hseam : ∀ disk, (atomicWrite (.target .note) note .done >>= fun _ => Act.seam calls.restart) disk
              = (calls.restart.mapError .seam, (atomicWrite (.target .note) note .done disk).2) := fun _ => rfl
          rw [hseam]
          cases hrestart : calls.restart with
          | error fault =>
            cases fault with
            | os => exact .inr (.inl ⟨⟨rfl, rfl, trivial⟩, .os, _, by simp, rfl, hover⟩)
            | subprocess => exact .inr (.inl ⟨⟨rfl, rfl, trivial⟩, .subprocess, _, by simp, rfl, hover⟩)
            | other => exact .inr (.inr ⟨fun h => h.2.2, .seam .other, _, .inl rfl, rfl, hover.backup⟩)
          | ok u =>
            refine .inl ⟨⟨u, rfl⟩, files_forall ?_ ?_, files_forall ?_ ?_, ?_, _, rfl, hover⟩
            · show (calls.write .verifier).replaces = true
              rw [hwrite]
              rfl
            · refine ⟨hwrite, ?_⟩
              rw [hwrite']
              rfl
            · show (utf8 renewal.newVerifier).isSome = true
              rw [hverifier]
              rfl
            · show (utf8 renewal.newNote).isSome = true
              rw [hnote]
              rfl
            · exact ⟨fun h => h.2.2, fun h => ⟨rfl, rfl, h⟩⟩

end Replacing

/-! ## §7 — The whole rotation -/

section Ends

variable {registry : Dict Str RotationTarget} {targetName : Str} {target : RotationTarget}
variable {files : File → Option Bytes} {calls : Calls} {renewal : Renewal} {disk : Disk}

/-- A file that was overwritten with other bytes is not restored, and its backup is not kept. -/
def LosesFile (files : File → Option Bytes) (calls : Calls) (renewal : Renewal) : Prop :=
  ReachesDelete calls ∧
    (∃ file, Overwrites calls file ∧ utf8 (renewal.text file) ≠ files file ∧ FailsToRestore calls file) ∧
    (calls.delete .verifier).left ≠ files .verifier

theorem not_inPlace {after : Disk} (h : after.accepted = []) : ¬ InPlace target files renewal after := by
  intro hplace
  have haccepted := hplace.accepted
  rw [h] at haccepted
  cases haccepted

variable (registry targetName target) in
/-- A rotation that ended in its rollback. -/
theorem allOrNothing_rollback (hover : Overwritten files calls renewal disk) (reason : Str) :
    AllOrNothing registry targetName files ((rollback target calls renewal.username renewal.oldPassword >>= fun _ =>
          (Act.raise (.rotation reason) : Act Unit)) disk).1
        ((rollback target calls renewal.username renewal.oldPassword >>= fun _ =>
          (Act.raise (.rotation reason) : Act Unit)) disk).2 ↔
      ¬ LosesFile files calls renewal := by
  rcases rollback_cases target calls renewal.username renewal.oldPassword hover.backup with
    ⟨hnot, fault, disk', heq, hkept⟩ | ⟨hreach, hall, hsame⟩ |
    ⟨hreach, hsome, fault, disk', heq, hclaims, haccepted, hrestores, hfails, hleft, hkeeps⟩
  · rw [bind_of_error heq]
    exact iff_of_true (.inr (.inr ⟨_, rfl, nofun, hkept⟩)) fun h => hnot h.1
  · refine iff_of_true (.inr (.inl fun file => ?_)) ?_
    · rw [← hsame file, bind_apply]
      rcases rollback target calls renewal.username renewal.oldPassword disk with ⟨_ | _, _⟩ <;> rfl
    · rintro ⟨-, ⟨file, -, -, hfails⟩, -⟩
      exact not_restores_of_failsToRestore hfails (hall file)
  · rw [bind_of_error heq]
    constructor
    · rintro (⟨_, _, -, hplace⟩ | hsame | ⟨_, -, -, hkept⟩) ⟨-, ⟨file, hwrites, hnew, hfail⟩, hlost⟩
      · exact not_inPlace (haccepted.trans hover.accepted) hplace
      · exact hnew ((hover.overwritten file hwrites).symm.trans ((hfails file hfail).symm.trans (hsame file)))
      · exact hlost (hleft.symm.trans (hkept .verifier).2)
    · intro hsafe
      by_cases hlost : (calls.delete .verifier).left = files .verifier
      · exact .inr (.inr ⟨fault, rfl, hclaims, hkeeps hlost⟩)
      -- a file that was not restored has its old bytes
      · refine .inr (.inl fun file => ?_)
        rcases hreach.1 file with hrestored | hfail
        · exact hrestores file hrestored
        · rw [hfails file hfail]
          by_cases hwrites : Overwrites calls file
          · rw [hover.overwritten file hwrites]
            exact Classical.not_not.mp fun hnew => hsafe ⟨hreach, ⟨file, hwrites, hnew, hfail⟩, hlost⟩
          · exact hover.same file hwrites

/-- A rotation whose new files are in place. -/
theorem inPlace_answered (hover : Overwritten files calls renewal disk)
    (hrenewed : ∃ verifierText noteText, textOf (files .verifier) = some verifierText ∧
      textOf (files .note) = some noteText ∧ Renewed target verifierText noteText renewal)
    (hall : ∀ file, Overwrites calls file) (hencoded : ∀ file, (utf8 (renewal.text file)).isSome) :
    InPlace target files renewal
      (deleteBackups calls { disk with accepted := disk.accepted ++ [(renewal.username, renewal.password)] }).2 := by
  obtain ⟨result, disk', heq, htarget, -, haccepted, -⟩ := deleteBackups_apply calls
    { disk with accepted := disk.accepted ++ [(renewal.username, renewal.password)] }
  rw [heq]
  refine ⟨hrenewed, fun file => ?_, ?_⟩
  · obtain ⟨bytes, hbytes⟩ := Option.isSome_iff_exists.mp (hencoded file)
    exact ⟨bytes, hbytes, (htarget file).trans ((hover.overwritten file (hall file)).trans hbytes)⟩
  · rw [show disk'.accepted = _ from haccepted]
    exact List.mem_append_right _ (List.mem_singleton_self _)

/-- What the probe of the new password decides. -/
theorem allOrNothing_probeNew (hregistry : registry.get? targetName = some target)
    (hover : Overwritten files calls renewal disk)
    (hrenewed : ∃ verifierText noteText, textOf (files .verifier) = some verifierText ∧
      textOf (files .note) = some noteText ∧ Renewed target verifierText noteText renewal)
    (hall : ∀ file, Overwrites calls file) (hencoded : ∀ file, (utf8 (renewal.text file)).isSome) :
    AllOrNothing registry targetName files (probeNew target calls renewal disk).1
        (probeNew target calls renewal disk).2 ↔
      ¬ ((∃ status, calls.probe = .ok status ∧ status ≠ target.probeSuccessStatus) ∧
        LosesFile files calls renewal) := by
  rw [probeNew, sendProbe]
  cases hprobe : calls.probe with
  | error fault =>
    refine iff_of_true (.inr (.inr ⟨.seam fault, rfl, nofun, hover.backup⟩)) ?_
    rintro ⟨⟨status, hstatus, -⟩, -⟩
    cases hstatus
  | ok status =>
    by_cases hsuccess : status = target.probeSuccessStatus
    · have hanswer : (Act.seam (.ok status) >>= answered target renewal.username renewal.password) disk = (.ok status,
            { disk with accepted := disk.accepted ++ [(renewal.username, renewal.password)] }) := by
        show answered target renewal.username renewal.password status disk = _
        rw [answered, if_pos hsuccess]
      rw [bind_of_ok hanswer, if_neg (not_not_intro hsuccess)]
      refine iff_of_true (.inl ⟨target, renewal, hregistry, inPlace_answered hover hrenewed hall hencoded⟩) ?_
      rintro ⟨⟨other, hother, hne⟩, -⟩
      exact hne ((Except.ok.inj hother).symm.trans hsuccess)
    · have hanswer : (Act.seam (.ok status) >>= answered target renewal.username renewal.password) disk =
          (.ok status, disk) := by
        show answered target renewal.username renewal.password status disk = _
        rw [answered, if_neg hsuccess]
      rw [bind_of_ok hanswer, if_pos hsuccess, allOrNothing_rollback registry targetName target hover, not_and]
      exact ⟨fun h _ => h, fun h => h ⟨status, rfl, hsuccess⟩⟩

/-- What is behind the backups. -/
theorem allOrNothing_replaceOrRestore (hregistry : registry.get? targetName = some target) (hready : Ready files disk)
    (hrenewed : ∃ verifierText noteText, textOf (files .verifier) = some verifierText ∧
      textOf (files .note) = some noteText ∧ Renewed target verifierText noteText renewal) :
    AllOrNothing registry targetName files (replaceOrRestore target calls renewal disk).1
        (replaceOrRestore target calls renewal disk).2 ↔
      ¬ (RollsBack target calls renewal ∧ LosesFile files calls renewal) := by
  rw [replaceOrRestore, bind_apply, attempt_apply]
  rcases replaceFiles_cases calls renewal target hready with
    ⟨-, hall, hencoded, hrolls, disk', heq, hover⟩ | ⟨hrolls, fault, disk', hfault, heq, hover⟩ |
    ⟨hnot, fault, disk', hfault, heq, hkept⟩
  · rw [heq, hrolls]
    exact allOrNothing_probeNew hregistry hover hrenewed hall hencoded
  · rw [heq]
    have hiff := allOrNothing_rollback registry targetName target hover
      (Str.of "rotation failed; original credentials were restored")
    have hend : (¬ (RollsBack target calls renewal ∧ LosesFile files calls renewal)) ↔
        ¬ LosesFile files calls renewal := by
      rw [not_and]
      exact ⟨fun h => h hrolls, fun h _ => h⟩
    rw [hend]
    cases fault with
    | os => exact hiff
    | subprocess => exact hiff
    | other => exact absurd rfl hfault
  · rw [heq]
    refine iff_of_true ?_ fun h => hnot h.1
    rcases hfault with rfl | rfl
    · exact .inr (.inr ⟨_, rfl, nofun, hkept⟩)
    · exact .inr (.inr ⟨_, rfl, nofun, hkept⟩)

end Ends

/-- **A rotation is all or nothing, whatever its seam calls do, except where its rollback throws a backup away.** -/
theorem all_or_nothing_iff (registry : Dict Str RotationTarget) (targetName : Str) (files : File → Option Bytes)
    (calls : Calls) :
    AllOrNothing registry targetName files (rotateTarget registry targetName calls (.initial files)).1
        (rotateTarget registry targetName calls (.initial files)).2 ↔
      ¬ Loses registry targetName files calls := by
  unfold rotateTarget Loses
  cases hregistry : registry.get? targetName with
  | none =>
    refine iff_of_true (.inr (.inl fun _ => rfl)) ?_
    rintro ⟨target, renewal, htarget, -⟩
    cases htarget
  | some target =>
    dsimp only
    have hquiet : (prepare targetName target calls (.initial files)).2 = .initial files :=
      quiet_prepare targetName target calls (.initial files)
    cases hprepare : prepare targetName target calls (.initial files) with
    | mk result disk =>
      rw [hprepare] at hquiet
      obtain rfl : disk = .initial files := hquiet
      cases result with
      | error fault =>
        rw [bind_of_error hprepare]
        refine iff_of_true (.inr (.inl fun _ => rfl)) ?_
        rintro ⟨target', renewal, htarget, hrenewal, -⟩
        obtain rfl := Option.some.inj htarget
        rw [hprepare] at hrenewal
        cases hrenewal
      | ok renewal =>
        rw [bind_of_ok hprepare]
        have hrenewed := renewed_of_prepare (congrArg Prod.fst hprepare)
        rcases takeBackups_cases files calls with ⟨hbacks, disk, heq, hready⟩ | ⟨hnot, fault, disk, heq, hsame⟩
        · rw [bind_of_ok heq, allOrNothing_replaceOrRestore hregistry hready hrenewed]
          refine not_congr ⟨fun h => ⟨target, renewal, rfl, congrArg Prod.fst hprepare, hbacks, h.1, h.2⟩, ?_⟩
          rintro ⟨target', renewal', htarget, hrenewal, -, hrolls, hloses⟩
          obtain rfl := Option.some.inj htarget
          rw [hprepare] at hrenewal
          obtain rfl := Except.ok.inj hrenewal
          exact ⟨hrolls, hloses⟩
        · rw [bind_of_error heq]
          refine iff_of_true (.inr (.inl hsame)) ?_
          rintro ⟨_, _, _, _, hbacks, -⟩
          exact hnot hbacks

/-- One dashboard. -/
def oneTarget : Dict Str RotationTarget :=
  Dict.empty.set "hq" ⟨"app", "USER", "HASH", none, 200⟩

/-- Its two files. -/
def oneTargetFiles : File → Option Bytes
  | .verifier => some (Str.of "USER=a\nHASH=b\n")
  | .note => some (Str.of "password: c\n")

/-- The note cannot be written, and the verifier not restored. -/
def fullDisk : Calls where
  currentUser := .ok "app"
  readText _ := .ok ()
  generatePassword := .ok (List.replicate 24 0x61)
  passwordHash := .ok "d"
  generateSessionSecret := .ok []
  now := .ok "t"
  readTarget _ := .ok ()
  backUp _ := .done
  discardBackup := .done
  write
    | .verifier => .done
    | .note => .os
  restart := .ok ()
  probe := .ok 200
  readBackup _ := .ok ()
  restore
    | .verifier => .os
    | .note => .done
  restartAgain := .ok ()
  probeAgain := .ok 200
  delete _ := .done

/-- The new verifier is left beside the old note, and the backups are gone. -/
theorem backup_deleted : ¬ AllOrNothing oneTarget "hq" oneTargetFiles
    (rotateTarget oneTarget "hq" fullDisk (.initial oneTargetFiles)).1
    (rotateTarget oneTarget "hq" fullDisk (.initial oneTargetFiles)).2 := by
  have haccepted : (rotateTarget oneTarget "hq" fullDisk (.initial oneTargetFiles)).2.accepted = [] := by
    decide +kernel
  have hverifier : (rotateTarget oneTarget "hq" fullDisk (.initial oneTargetFiles)).2.content (.target .verifier) =
      some (Str.of "USER=a\nHASH=d\n") := by
    decide +kernel
  have hbackup : (rotateTarget oneTarget "hq" fullDisk (.initial oneTargetFiles)).2.content (.backup .verifier) =
      none := by
    decide +kernel
  rintro (⟨target, renewal, -, hplace⟩ | hsame | ⟨fault, -, -, hkept⟩)
  · exact not_inPlace haccepted hplace
  · have hfile := hverifier.symm.trans (hsame .verifier)
    revert hfile
    decide +kernel
  · have hfile := hbackup.symm.trans (hkept .verifier).2
    cases hfile

end Autophagy.CredentialRotation
