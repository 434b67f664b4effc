/-
# Autophagy.CredentialRotation.Rotate — one rotation, with every seam call failing where it may.

`rotate_target` of `automation/credential_rotation/rotate.py`, with `take_backups` and `delete_backups` of
`files.py`. A call of a seam has its own outcome at its own place (`Calls`): it returns, or it raises what it
likes. A write goes through a temporary file and `os.replace`, so one that raises `OSError` has changed nothing;
one that raises something else may have been carried out. A secure delete that raises may leave anything of the
backup.

The names of the backups carry random tokens, so they are no other file. `accepted` records the passwords the
dashboard took.
-/
import Autophagy.CredentialRotation.Files
import Autophagy.Python.Utf8

namespace Autophagy.CredentialRotation

open Autophagy.Python

/-! ## §1 — The disk -/

/-- The two files of a target. -/
inductive File
  | verifier
  | note
  deriving DecidableEq

/-- A file, or the backup of one. -/
inductive Path
  | target (file : File)
  | backup (file : File)
  deriving DecidableEq

/-- What the files hold, and the credentials that were accepted by a probe. -/
structure Disk where
  content : Path → Option Bytes
  accepted : List (Str × Str)

/-- The disk before a rotation. -/
def Disk.initial (files : File → Option Bytes) : Disk where
  content
    | .target file => files file
    | .backup _ => none
  accepted := []

def Disk.put (disk : Disk) (path : Path) (content : Option Bytes) : Disk :=
  { disk with content := fun p => if p = path then content else disk.content p }

@[simp] theorem Disk.put_self (disk : Disk) (path : Path) (content : Option Bytes) :
    (disk.put path content).content path = content := if_pos rfl

theorem Disk.put_of_ne {path p : Path} (h : p ≠ path) (disk : Disk) (content : Option Bytes) :
    (disk.put path content).content p = disk.content p := if_neg h

@[simp] theorem Disk.put_backup_target (disk : Disk) (file f : File) (content : Option Bytes) :
    (disk.put (.backup file) content).content (.target f) = disk.content (.target f) :=
  Disk.put_of_ne (by simp) disk content

@[simp] theorem Disk.put_target_backup (disk : Disk) (file f : File) (content : Option Bytes) :
    (disk.put (.target file) content).content (.backup f) = disk.content (.backup f) :=
  Disk.put_of_ne (by simp) disk content

@[simp] theorem Disk.accepted_put (disk : Disk) (path : Path) (content : Option Bytes) :
    (disk.put path content).accepted = disk.accepted := rfl

/-! ## §2 — What the seams do -/

/-- `atomic_write`: it returns, raises `OSError`, or raises something else before or after the replacement. -/
inductive WriteOutcome
  | done
  | os
  | subprocess (replaced : Bool)
  | other (replaced : Bool)
  deriving DecidableEq

/-- The write replaced the file. -/
def WriteOutcome.replaces : WriteOutcome → Bool
  | .done => true
  | .os => false
  | .subprocess replaced => replaced
  | .other replaced => replaced

/-- What the write raised. -/
def WriteOutcome.result : WriteOutcome → Except Fault Unit
  | .done => .ok ()
  | .os => .error (.seam .os)
  | .subprocess _ => .error (.seam .subprocess)
  | .other _ => .error (.seam .other)

/-- `secure_delete`: the file is gone, or the call raised and left something of it. -/
inductive DeleteOutcome
  | done
  | raises (fault : SeamFault) (left : Option Bytes)
  deriving DecidableEq

/-- What is left of the file. -/
def DeleteOutcome.left : DeleteOutcome → Option Bytes
  | .done => none
  | .raises _ left => left

def DeleteOutcome.result : DeleteOutcome → Except Fault Unit
  | .done => .ok ()
  | .raises fault _ => .error (.seam fault)

/-- The outcomes of the calls of one rotation, each at its place. -/
structure Calls where
  currentUser : Except SeamFault Str
  readText : File → Except SeamFault Unit
  generatePassword : Except SeamFault Str
  passwordHash : Except SeamFault Str
  generateSessionSecret : Except SeamFault Str
  now : Except SeamFault Str
  readTarget : File → Except SeamFault Unit
  backUp : File → WriteOutcome
  discardBackup : DeleteOutcome
  write : File → WriteOutcome
  restart : Except SeamFault Unit
  probe : Except SeamFault Int
  readBackup : File → Except SeamFault Unit
  restore : File → WriteOutcome
  restartAgain : Except SeamFault Unit
  probeAgain : Except SeamFault Int
  delete : File → DeleteOutcome

/-- `RotationTarget` -/
structure RotationTarget where
  account : Str
  usernameKey : Str
  passwordHashKey : Str
  sessionSecretKey : Option Str
  probeSuccessStatus : Int
  deriving DecidableEq

/-! ## §3 — Programs on the disk -/

/-- A part of the rotation: it ends with a result or an exception, and the disk behind it. -/
def Act (α : Type) := Disk → Except Fault α × Disk

namespace Act

variable {α β : Type}

instance : Monad Act where
  pure a := fun disk => (.ok a, disk)
  bind p f := fun disk =>
    match p disk with
    | (.ok a, disk) => f a disk
    | (.error fault, disk) => (.error fault, disk)

def raise (fault : Fault) : Act α := fun disk => (.error fault, disk)

/-- Go on with a value, or raise. -/
def get (value : Except Fault α) : Act α := fun disk => (value, disk)

/-- What a seam answered, or raised. -/
def seam (outcome : Except SeamFault α) : Act α := get (outcome.mapError .seam)

/-- Run the body, and catch what it raises. -/
def attempt (body : Act α) : Act (Except Fault α) := fun disk => (.ok (body disk).1, (body disk).2)

end Act

/-- What the file holds; a file that is not there raises `FileNotFoundError`. -/
def held (path : Path) : Act Bytes := fun disk =>
  match disk.content path with
  | some content => (.ok content, disk)
  | none => (.error (.seam .os), disk)

/-- `read_bytes` -/
def readBytes (path : Path) (outcome : Except SeamFault Unit) : Act Bytes := do
  Act.seam outcome
  held path

/-- `read_text(encoding="utf-8")` -/
def readText (path : Path) (outcome : Except SeamFault Unit) : Act Str := do
  let content ← readBytes path outcome
  match decodeUtf8 content with
  | some text => pure (universalNewlines text)
  | none => Act.raise .unicode

/-- `text.encode("utf-8")` -/
def encode (text : Str) : Act Bytes :=
  match utf8 text with
  | some content => pure content
  | none => Act.raise .unicode

def atomicWrite (path : Path) (content : Bytes) (outcome : WriteOutcome) : Act Unit := fun disk =>
  (outcome.result, if outcome.replaces then disk.put path (some content) else disk)

def secureDelete (path : Path) (outcome : DeleteOutcome) : Act Unit := fun disk =>
  (outcome.result, disk.put path outcome.left)

/-- Credentials that the dashboard answered with this status: that of success accepted them. -/
def answered (target : RotationTarget) (username password : Str) (status : Int) : Act Int := fun disk =>
  (.ok status,
    if status = target.probeSuccessStatus then { disk with accepted := disk.accepted ++ [(username, password)] }
    else disk)

/-- `send_probe` -/
def sendProbe (target : RotationTarget) (username password : Str) (outcome : Except SeamFault Int) : Act Int := do
  let status ← Act.seam outcome
  answered target username password status

/-! ## §4 — The rotation -/

/-- What `rotate_target` has at hand when it takes the backups. -/
structure Renewal where
  username : Str
  oldPassword : Str
  password : Str
  newVerifier : Str
  newNote : Str
  deriving DecidableEq

/-- The new text of a file. -/
def Renewal.text (renewal : Renewal) : File → Str
  | .verifier => renewal.newVerifier
  | .note => renewal.newNote

/-- The verifier around the new hash, and around a new session secret where the target has one. -/
def newVerifier (target : RotationTarget) (calls : Calls) (content encoded : Str) : Act Str := do
  let withHash ← Act.get (replaceEnvValue content target.passwordHashKey encoded)
  match target.sessionSecretKey with
  | some key => do
    let secret ← Act.seam calls.generateSessionSecret
    let secret ← Act.get (validatedSessionSecret secret)
    Act.get (replaceEnvValue withHash key secret)
  | none => pure withHash

/-- The checks of the verifier, and the username in it. -/
def checkVerifier (target : RotationTarget) (verifier : EnvDocument) : Except Fault Str := do
  let username ← requiredValue verifier target.usernameKey "verifier username"
  let _ ← requiredValue verifier target.passwordHashKey "verifier password hash"
  match target.sessionSecretKey with
  | some key => do
    let _ ← requiredValue verifier key "verifier session secret"
    pure username
  | none => pure username

/-- `rotate_target` before the backups are taken. -/
def prepare (targetName : Str) (target : RotationTarget) (calls : Calls) : Act Renewal := do
  let user ← Act.seam calls.currentUser
  if user ≠ target.account then
    Act.raise (.rotation (Str.of "target " ++ targetName ++ Str.of " must run as " ++ target.account))
  else do
    let verifierText ← readText (.target .verifier) (calls.readText .verifier)
    let verifier ← Act.get (parseEnv verifierText)
    let username ← Act.get (checkVerifier target verifier)
    let note ← readText (.target .note) (calls.readText .note)
    let oldPassword ← Act.get (notePassword note)
    let password ← Act.seam calls.generatePassword
    Act.get (validatePassword password)
    let encoded ← Act.seam calls.passwordHash
    let newVerifier ← newVerifier target calls verifier.content encoded
    let timestamp ← Act.seam calls.now
    let newNote ← Act.get (rewriteNote note password timestamp)
    pure ⟨username, oldPassword, password, newVerifier, newNote⟩

/-- One round of the loop of `take_backups`. -/
def backUp (calls : Calls) (file : File) : Act Unit := do
  let content ← readBytes (.target file) (calls.readTarget file)
  atomicWrite (.backup file) content (calls.backUp file)

/-- `take_backups`: where an `OSError` stops it, the backups it has are deleted. -/
def takeBackups (calls : Calls) : Act Unit := do
  match ← Act.attempt (backUp calls .verifier) with
  | .error (.seam .os) => Act.raise (.rotation "could not create credential backups")
  | .error fault => Act.raise fault
  | .ok _ =>
    match ← Act.attempt (backUp calls .note) with
    | .error (.seam .os) => do
      secureDelete (.backup .verifier) calls.discardBackup
      Act.raise (.rotation "could not create credential backups")
    | .error fault => Act.raise fault
    | .ok _ => pure ()

/-- `delete_backups` -/
def deleteBackups (calls : Calls) : Act Unit := do
  secureDelete (.backup .verifier) (calls.delete .verifier)
  secureDelete (.backup .note) (calls.delete .note)

/-- One round of the loop of `_rollback`: `False` where it raised `OSError`. -/
def restoreFile (calls : Calls) (file : File) : Act Bool := do
  let restoring : Act Unit := do
    let content ← readBytes (.backup file) (calls.readBackup file)
    atomicWrite (.target file) content (calls.restore file)
  match ← Act.attempt restoring with
  | .ok _ => pure true
  | .error (.seam .os) => pure false
  | .error fault => Act.raise fault

/-- The restart of `_rollback`: `False` where it raised a `SubprocessError`. -/
def restartAgain (calls : Calls) : Act Bool := do
  match ← Act.attempt (Act.seam calls.restartAgain) with
  | .ok _ => pure true
  | .error (.seam .subprocess) => pure false
  | .error fault => Act.raise fault

/-- `_rollback` -/
def rollback (target : RotationTarget) (calls : Calls) (username oldPassword : Str) : Act Unit := do
  let verifierRestored ← restoreFile calls .verifier
  let noteRestored ← restoreFile calls .note
  let restarted ← restartAgain calls
  let recovered ←
    if verifierRestored ∧ noteRestored ∧ restarted then do
      let status ← sendProbe target username oldPassword calls.probeAgain
      pure (decide (status = target.probeSuccessStatus))
    else pure false
  deleteBackups calls
  if recovered then pure ()
  else Act.raise (.rotation "rotation failed and automatic rollback could not be verified")

/-- The body of the `try` in `rotate_target`. -/
def replaceFiles (calls : Calls) (renewal : Renewal) : Act Unit := do
  let verifier ← encode renewal.newVerifier
  atomicWrite (.target .verifier) verifier (calls.write .verifier)
  let note ← encode renewal.newNote
  atomicWrite (.target .note) note (calls.write .note)
  Act.seam calls.restart

/-- What is behind the `try`: the probe of the new password decides. -/
def probeNew (target : RotationTarget) (calls : Calls) (renewal : Renewal) : Act Unit := do
  let status ← sendProbe target renewal.username renewal.password calls.probe
  if status ≠ target.probeSuccessStatus then do
    rollback target calls renewal.username renewal.oldPassword
    Act.raise (.rotation "rotation probe failed; original credentials were restored")
  else deleteBackups calls

/-- `rotate_target` behind the backups. -/
def replaceOrRestore (target : RotationTarget) (calls : Calls) (renewal : Renewal) : Act Unit := do
  match ← Act.attempt (replaceFiles calls renewal) with
  | .ok _ => probeNew target calls renewal
  | .error (.seam .other) => Act.raise (.seam .other)
  | .error (.seam _) => do
    rollback target calls renewal.username renewal.oldPassword
    Act.raise (.rotation "rotation failed; original credentials were restored")
  | .error fault => Act.raise fault

/-- `rotate_target` -/
def rotateTarget (registry : Dict Str RotationTarget) (targetName : Str) (calls : Calls) : Act Unit :=
  match registry.get? targetName with
  | none => Act.raise (.rotation "unknown dashboard target")
  | some target => do
    let renewal ← prepare targetName target calls
    takeBackups calls
    replaceOrRestore target calls renewal

end Autophagy.CredentialRotation
