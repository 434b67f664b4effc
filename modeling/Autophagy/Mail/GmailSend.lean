/-
# Autophagy.Mail.GmailSend — the evidence for the attachments of a mail.

`build_attachment_manifest` (triage_core) of `skills/mail/scripts`: each attachment has the last component of
its resolved path for a name, and at most `maxAttachmentBytes` bytes (`attachmentEntry_ok`). The file system
is a parameter (`Files`): resolving a path, and what `stat`, reading and `mimetypes` say of a resolved one.
-/
import Autophagy.Mail.Draft
import Autophagy.Python.White

namespace Autophagy.Mail

open Autophagy.Python

/-! ## §1 — The attachment manifest -/

/-- What `build_action` raises. A refused account names its field and the value after `strip`; `backend`
is `BackendUnavailable`, and `path` what resolving a path raises besides `OSError`. -/
inductive BuildFault
  | accountMissing
  | accountRefused (field value : Str)
  | attachmentPolicy (message code : Str)
  | missingReplyMessageId
  | codec (fault : CodecFault)
  | backend
  | path
  deriving DecidableEq

/-- How `Path(raw).expanduser().resolve(strict=True)` fails: with an `OSError`, or otherwise. -/
inductive PathFault
  | os
  | other
  deriving DecidableEq

/-- The file system, and `mimetypes.guess_type` of a name. -/
structure Files where
  resolve : Str → Except PathFault Str
  resolve_abs : ∀ raw path, resolve raw = .ok path → path.head? = some 0x2f
  isFile : Str → Bool
  size : Str → Option Nat
  sha256 : Str → Option Str
  guessType : Str → Option Str

/-- `path.name` of a resolved path. -/
def pathName (path : Str) : Str := path.rtakeWhile (· ≠ 0x2f)

/-- `path.suffix` of a name: what starts at the last dot, unless that is its first or last character. -/
def pathSuffix (name : Str) : Str :=
  let tail := name.rtakeWhile (· ≠ 0x2e)
  if tail = [] ∨ name.length ≤ tail.length + 1 then [] else 0x2e :: tail

/-- `str.lower`, which makes no other character one of the blocked suffixes. -/
def asciiLower (s : Str) : Str := s.map fun c => if 0x41 ≤ c ∧ c ≤ 0x5a then c + 0x20 else c

/-- `BLOCKED_ATTACHMENT_SUFFIXES`. -/
def blockedAttachmentSuffixes : List Str :=
  [".bat", ".cmd", ".com", ".exe", ".js", ".msi", ".ps1", ".scr"]

/-- `MAX_ATTACHMENT_COUNT`. -/
def maxAttachmentCount : Nat := 10

/-- `MAX_ATTACHMENT_BYTES`. -/
def maxAttachmentBytes : Nat := 25 * 1024 * 1024

/-- `MAX_ATTACHMENT_TOTAL_BYTES`. -/
def maxAttachmentTotalBytes : Nat := 25 * 1024 * 1024

/-- An `AttachmentPolicyError` with the default code. -/
def invalidAttachment (message : Str) : BuildFault := .attachmentPolicy message "attachment_invalid"

/-- An `AttachmentPolicyError` of a file that is not supported. -/
def unsupportedAttachment (message : Str) : BuildFault := .attachmentPolicy message "attachment_unsupported"

/-- One round of the loop in `build_attachment_manifest`: the entry of one file. -/
def attachmentEntry (files : Files) (total : Nat) (raw : Str) : Except BuildFault Attachment :=
  match files.resolve raw with
  | .error .os => .error (invalidAttachment "첨부파일을 읽을 수 없습니다")
  | .error .other => .error .path
  | .ok path =>
    if !files.isFile path then .error (invalidAttachment "첨부 대상이 일반 파일이 아닙니다")
    else if pathName path = [] || (pathName path).any (· < 32) then
      .error (invalidAttachment "첨부파일 이름이 올바르지 않습니다")
    else if asciiLower (pathSuffix (pathName path)) ∈ blockedAttachmentSuffixes then
      .error (unsupportedAttachment "보안 정책상 지원하지 않는 첨부파일 형식입니다")
    else
      match files.size path with
      | none => .error (invalidAttachment "첨부파일을 읽을 수 없습니다")
      | some sizeBytes =>
        if maxAttachmentBytes < sizeBytes then
          .error (unsupportedAttachment ("첨부파일 한 개의 최대 크기는 26214400바이트입니다"))
        else if maxAttachmentTotalBytes < total + sizeBytes then
          .error (unsupportedAttachment ("전체 첨부파일의 최대 크기는 26214400바이트입니다"))
        else
          match files.sha256 path with
          | none => .error (invalidAttachment "첨부파일을 읽을 수 없습니다")
          | some sha256 => .ok
              { sourcePath := path
                filename := pathName path
                sizeBytes
                mimeType := (files.guessType (pathName path)).getD "application/octet-stream"
                sha256 }

/-- The loop, with the bytes of the files before. -/
def attachmentEntries (files : Files) (total : Nat) : List Str → Except BuildFault (List Attachment)
  | [] => .ok []
  | raw :: rest => do
    let entry ← attachmentEntry files total raw
    let entries ← attachmentEntries files (total + entry.sizeBytes) rest
    pure (entry :: entries)

/-- `build_attachment_manifest`. -/
def buildAttachmentManifest (files : Files) (paths : List Str) : Except BuildFault (List Attachment) :=
  if maxAttachmentCount < paths.length then
    .error (unsupportedAttachment "첨부는 최대 10개까지 지원합니다")
  else attachmentEntries files 0 paths

/-- What the loop over the attachments establishes of an entry. -/
structure Entry (files : Files) (raw : Str) (a : Attachment) : Prop where
  path : files.resolve raw = .ok a.sourcePath
  name : a.filename = pathName a.sourcePath
  size : a.sizeBytes ≤ maxAttachmentBytes

theorem attachmentEntry_ok {files : Files} {total : Nat} {raw : Str} {a : Attachment}
    (h : attachmentEntry files total raw = .ok a) : Entry files raw a := by
  unfold attachmentEntry at h
  split at h
  · cases h
  · cases h
  · rename_i path hpath
    split at h
    · cases h
    · split at h
      · cases h
      · split at h
        · cases h
        · split at h
          · cases h
          · rename_i size hsize
            split at h
            · cases h
            · rename_i hbytes
              split at h
              · cases h
              · split at h
                · cases h
                · rw [← Except.ok.inj h]
                  exact ⟨hpath, rfl, not_lt.mp hbytes⟩

end Autophagy.Mail
