/-
# Autophagy.Calendar.Authorization — the authorizations a calendar watcher hands to its confirm child.

`create_watcher_authorization` and `consume_watcher_authorization` of
`skills/calendar/scripts/calendar_confirm.py` with everything under them, and `CliCommands.confirm` of
`calendar_watch_commands.py` around the child process.

An operation is one step on the file system, on the clock or on another store, and each may fail. A file that
is written is there with its whole text from the `O_EXCL` open on; whoever reads it meanwhile, or after its
writer died, may find any beginning of that text. File contents are texts: a beginning that ends inside a
character's bytes reads no better than the one before it.
-/
import Autophagy.Calendar.Gate

namespace Autophagy.Calendar.WatchAuth

open Autophagy.Effect Autophagy.Python
open Autophagy.Effect.Fallible (get attempt ensuring)

/-! ## §1 — Data -/

/-- What the programs can raise: `GateError`, `FileExistsError` and any other `OSError`, the faults of JSON
and of encoding, `TypeError`, `ConfirmWatchError`. -/
inductive Fault
  | gate (message : Str) (exitCode : Nat)
  | fileExists
  | os
  | json (fault : JsonFault)
  | codec (fault : CodecFault)
  | type
  | watch
  deriving DecidableEq

/-- The fields of an authorization; times are texts, as in the file. -/
structure Authorization where
  dmChannelId : Str
  dmMessageId : Str
  draftId : Str
  expires : Str
  nonce : Str
  observed : Str
  ownerId : Str
  pendingCreated : Str
  sha256 : Str
  deriving DecidableEq

/-- A path: its parent and its last component. -/
structure Path where
  parent : Str
  name : Str
  deriving DecidableEq

/-- What `datetime.fromisoformat` reads: a time in microseconds, and whether the text names its zone. -/
structure Stamp where
  aware : Bool
  utc : Int
  deriving DecidableEq

/-- What a confirm consumes an authorization for: its draft, the owner and the pending entry it found, and the
clock it read. -/
structure Use where
  authorization : Authorization
  draft : Draft
  owner : Str
  entry : PendingConfirm
  checked : Int
  deriving DecidableEq

/-- `WATCH_AUTH_TTL`, in microseconds. -/
def watchAuthTtl : Int := 5 * 60 * 1000000

/-- `timedelta(seconds=30)`. -/
def skew : Int := 30 * 1000000

/-- `WATCH_AUTH_VERSION`. -/
def watchAuthVersion : Int := 1

section Data

variable (F : Type)

/-- The payload of `create_watcher_authorization`. -/
def payload (a : Authorization) : List (Str × Json F) :=
  [("action", .str "approve"), ("dm_channel_id", .str a.dmChannelId), ("dm_message_id", .str a.dmMessageId),
    ("draft_id", .str a.draftId), ("expires", .str a.expires), ("nonce", .str a.nonce),
    ("observed", .str a.observed), ("owner_id", .str a.ownerId), ("pending_created", .str a.pendingCreated),
    ("sha256", .str a.sha256), ("version", .int watchAuthVersion)]

/-- The payload with its signature. -/
def signedPayload (a : Authorization) (signature : Str) : List (Str × Json F) :=
  payload F a ++ [(Str.of "signature", .str signature)]

end Data

/-- The names of `required_types`. -/
def requiredNames : List Str :=
  ["action", "dm_channel_id", "dm_message_id", "draft_id", "expires", "nonce", "observed", "owner_id",
    "pending_created", "sha256", "version"]

section Reading

variable {F : Type}

/-- A key of type `str`. -/
def strField (record : List (Str × Json F)) (name : Str) : Option Str :=
  match Json.lookup name record with
  | some (.str s) => some s
  | _ => none

/-- The fields where `_validate_watcher_authorization` finds them as it requires them, with the action and
the version. -/
def readFields (record : List (Str × Json F)) : Option (Authorization × Str × Int) := do
  let action ← strField record "action"
  let dmChannelId ← strField record "dm_channel_id"
  let dmMessageId ← strField record "dm_message_id"
  let draftId ← strField record "draft_id"
  let expires ← strField record "expires"
  let nonce ← strField record "nonce"
  let observed ← strField record "observed"
  let ownerId ← strField record "owner_id"
  let pendingCreated ← strField record "pending_created"
  let sha256 ← strField record "sha256"
  let version ← match Json.lookup "version" record with
    | some (.int version) => some version
    | _ => none
  if record.all fun m => m.1 ∈ requiredNames then
    some (⟨dmChannelId, dmMessageId, draftId, expires, nonce, observed, ownerId, pendingCreated, sha256⟩,
      action, version)
  else none

/-- `{key: value for key, value in record.items() if key != "signature"}`. -/
def unsigned (record : List (Str × Json F)) : List (Str × Json F) :=
  record.filter fun m => m.1 ≠ Str.of "signature"

end Reading

/-! ## §2 — The operations -/

/-- Everything the programs do outside themselves. The write of an authorization carries what it says, its
removal by a confirm what it is consumed for; neither is seen by the file system. -/
inductive Op
  | authDir
  | now
  | tokenHex
  | createKey
  | readKey
  | writeAuthorization (name : Str) (a : Authorization) (text : Str)
  | isSymlink (name : Str)
  | openLock
  | chmodLock
  | lock
  | unlock
  | closeLock
  | readAuthorization (name : Str)
  | ownerId
  | loadPending
  | createSpent (nonce : Str)
  | unlinkSpent (nonce : Str)
  | unlinkAuthorization (name : Str) (use : Use)
  | runChild (draftId : Str) (path : Path)
  | removeAuthorization (name : Str)
  deriving DecidableEq

/-- What an operation answers where it does not fail. -/
@[reducible] def Res : Op → Type
  | .authDir => Str
  | .now => Int
  | .tokenHex => Str
  | .readKey => Str
  | .isSymlink _ => Bool
  | .readAuthorization _ => Str
  | .ownerId => Str
  | .loadPending => List PendingConfirm
  | _ => Unit

/-- A program of the watcher or of its child. -/
abbrev Act (α : Type) := Fallible Res Fault α

/-- Perform one operation; what it fails with is raised. -/
abbrev act (op : Op) : Act (Res op) := Fallible.act op

/-- Raise an exception. -/
abbrev raise {α : Type} (fault : Fault) : Act α := Fallible.raise fault

/-- `GateError(message, exit_code)`. -/
def gateError {α : Type} (message : Str) (exitCode : Nat) : Act α := raise (Fault.gate message exitCode)

/-- The interpreter: JSON limits, HMAC-SHA256 (hexadecimal) of a key and a text, and the two conversions of a
time. -/
structure Host where
  hasher : Hasher
  hmacSha256Hex : (key text : Str) → Str
  isoformat : Int → Str
  fromIsoformat : Str → Option Stamp

variable (F : Type) [PyFloat F] (host : Host)

/-! ## §3 — The signature -/

/-- `_canonical_json(record).encode("utf-8")`. -/
def canonicalText (record : List (Str × Json F)) : Except Fault Str :=
  match (Json.obj record).canonical host.hasher with
  | .error fault => .error (.codec fault)
  | .ok text => if isScalarText text then .ok text else .error (.codec .unicodeEncode)

/-- `_watch_auth_key`, once the key is there. -/
def readKey : Act Str := do
  let value ← act .readKey
  if value.length ≠ 32 then gateError "watcher 승인 서명 키가 올바르지 않습니다" 3 else pure value

/-- `_watch_auth_key`. -/
def watchAuthKey : Act Str := do
  let _ ← act .authDir
  match ← attempt (act .createKey) with
  | .ok _ => readKey
  | .error .fileExists => readKey
  | .error fault => raise fault

/-- `_watch_auth_signature`. -/
def watchAuthSignature (record : List (Str × Json F)) : Act Str := do
  let key ← watchAuthKey
  let text ← get (canonicalText F host (unsigned record))
  pure (host.hmacSha256Hex key text)

/-! ## §4 — The watcher -/

/-- The authorization for an entry, observed now. -/
def authorizationFor (entry : PendingConfirm) (owner nonce : Str) (observed : Int) : Authorization where
  dmChannelId := entry.dmChannelId
  dmMessageId := entry.dmMessageId
  draftId := entry.draftId
  expires := host.isoformat (observed + watchAuthTtl)
  nonce := nonce
  observed := host.isoformat observed
  ownerId := owner
  pendingCreated := host.isoformat (entry.created - entry.created % 1000000)
  sha256 := entry.sha256

/-- `create_watcher_authorization`. -/
def createWatcherAuthorization (entry : PendingConfirm) (owner : Str) : Act Path := do
  let observed ← act .now
  if owner = [] then gateError "watcher 승인 소유자가 비어 있습니다" 3
  else
    let nonce ← act .tokenHex
    let a := authorizationFor host entry owner nonce observed
    let signature ← watchAuthSignature F host (payload F a)
    let dir ← act .authDir
    let text ← get (canonicalText F host (signedPayload F a signature))
    act (.writeAuthorization (nonce ++ Str.of ".json") a text)
    pure ⟨dir, nonce ++ Str.of ".json"⟩

/-- `CliCommands.confirm`: the authorization is removed behind the child, whatever became of it. -/
def commandConfirm (entry : PendingConfirm) (owner : Str) : Act Unit := do
  match ← attempt (createWatcherAuthorization F host entry owner) with
  | .ok path => ensuring (act (.runChild entry.draftId path)) (act (.removeAuthorization path.name))
  | .error (.gate _ _) => raise .watch
  | .error .fileExists => raise .watch
  | .error .os => raise .watch
  | .error fault => raise fault

/-- What a tick does with authorizations: the approved entries, one after another, each failure caught. -/
def confirmEach : List (PendingConfirm × Str) → Act Unit
  | [] => pure ()
  | (entry, owner) :: rest => do
    let _ ← attempt (commandConfirm F host entry owner)
    confirmEach rest

/-! ## §5 — The confirm child -/

/-- `_pending_entry(draft_id)`. -/
def pendingEntry (draftId : Str) : Act PendingConfirm := do
  let entries ← act .loadPending
  match entries.filter fun entry => entry.draftId = draftId with
  | [entry] => pure entry
  | _ => gateError "반응 확인용 pending confirm이 유일하지 않습니다" 1

/-- The end of `_validate_watcher_authorization`: the pending entry of the draft. -/
def validateEntry (draft : Draft) (a : Authorization) (owner : Str) (created : Stamp) (now : Int) : Act Use := do
  let entry ← pendingEntry draft.id
  if entry.dmChannelId = a.dmChannelId ∧ entry.dmMessageId = a.dmMessageId ∧ entry.created = created.utc ∧
      entry.sha256 = a.sha256 then pure ⟨a, draft, owner, entry, now⟩
  else gateError "watcher 승인 메시지 바인딩이 일치하지 않습니다" 1

/-- Its middle: the times. An aware time does not compare with one that names no zone. -/
def validateTimes (draft : Draft) (a : Authorization) (owner : Str) (observed expires created : Stamp) :
    Act Use := do
  let now ← act .now
  if observed.aware = false then raise .type
  else if now + skew < observed.utc then gateError "watcher 승인이 만료되었거나 시각이 올바르지 않습니다" 1
  else if expires.aware = false then raise .type
  else if expires.utc ≤ now ∨ expires.utc - observed.utc ≠ watchAuthTtl then
    gateError "watcher 승인이 만료되었거나 시각이 올바르지 않습니다" 1
  else validateEntry draft a owner created now

/-- `_validate_watcher_authorization`. -/
def validateWatcherAuthorization (draft : Draft) (record : List (Str × Json F)) : Act Use :=
  match readFields record with
  | none => gateError "watcher 승인 필드가 올바르지 않습니다" 1
  | some (a, action, version) =>
    if version ≠ watchAuthVersion ∨ action ≠ Str.of "approve" then
      gateError "watcher 승인 동작이 올바르지 않습니다" 1
    else if a.draftId ≠ draft.id ∨ a.sha256 ≠ draft.sha256 then
      gateError "watcher 승인 드래프트 바인딩이 일치하지 않습니다" 1
    else do
      let owner ← act .ownerId
      if a.ownerId ≠ owner then gateError "watcher 승인 소유자가 일치하지 않습니다" 1
      else
        match host.fromIsoformat a.observed, host.fromIsoformat a.expires,
            host.fromIsoformat a.pendingCreated with
        | some observed, some expires, some created => validateTimes draft a owner observed expires created
        | _, _, _ => gateError "watcher 승인 시각이 올바르지 않습니다" 1

/-- The nonce is spent and the file removed; where that fails, the nonce is given back. -/
def spend (name : Str) (use : Use) : Act Use := do
  match ← attempt (act (.createSpent use.authorization.nonce)) with
  | .error .fileExists => gateError "watcher 승인이 이미 사용되었습니다" 1
  | .error fault => raise fault
  | .ok _ =>
    match ← attempt (act (.unlinkAuthorization name use)) with
    | .ok _ => pure use
    | .error .os =>
      act (.unlinkSpent use.authorization.nonce)
      gateError "watcher 승인 파일 소비에 실패했습니다" 3
    | .error .fileExists =>
      act (.unlinkSpent use.authorization.nonce)
      gateError "watcher 승인 파일 소비에 실패했습니다" 3
    | .error fault => raise fault

/-- The record of the file, behind its signature. -/
def consumeRecord (draft : Draft) (name : Str) (record : List (Str × Json F)) : Act Use :=
  match Json.lookup "signature" record with
  | some (.str signature) => do
    let expected ← watchAuthSignature F host (unsigned record)
    if signature.any fun c => 0x80 ≤ c then raise .type
    else if signature ≠ expected then gateError "watcher 승인 서명이 일치하지 않습니다" 1
    else
      let use ← validateWatcherAuthorization F host draft (unsigned record)
      spend name use
  | _ => gateError "watcher 승인 서명이 일치하지 않습니다" 1

/-- The content of the file; a `RecursionError` of `json.loads` is not caught. -/
def consumeContent (draft : Draft) (name raw : Str) : Act Use :=
  match (Json.loads host.hasher.limits raw : Except JsonFault (Json F)) with
  | .error .recursion => raise (.json .recursion)
  | .error _ => gateError "watcher 승인 파일 형식이 올바르지 않습니다" 1
  | .ok (.obj record) => consumeRecord F host draft name record
  | .ok _ => gateError "watcher 승인 파일 형식이 올바르지 않습니다" 1

/-- The body of the `try` of `consume_watcher_authorization`. -/
def consumeLocked (draft : Draft) (name : Str) : Act Use := do
  act .chmodLock
  act .lock
  let raw ← act (.readAuthorization name)
  consumeContent F host draft name raw

/-- `path.suffix == ".json"`: the last dot is neither the first nor the last character. -/
def hasJsonSuffix (name : Str) : Bool :=
  (Str.of ".json").isSuffixOf name && (name.length ≠ 5)

/-- `consume_watcher_authorization`. -/
def consumeWatcherAuthorization (draft : Draft) (path : Path) : Act Str := do
  let dir ← act .authDir
  if path.parent ≠ dir ∨ hasJsonSuffix path.name = false then
    gateError "watcher 승인 파일 경로가 신뢰 경계 밖입니다" 1
  else if ← act (.isSymlink path.name) then gateError "watcher 승인 파일 경로가 신뢰 경계 밖입니다" 1
  else
    act .openLock
    let use ← ensuring (consumeLocked F host draft path.name) (do act .unlock; act .closeLock)
    pure (Str.of "reaction:" ++ use.authorization.dmMessageId)

end Autophagy.Calendar.WatchAuth
