/-
# Autophagy.Repair.PendingStore — a repair record is read back as it was committed, and no other way.

`save` and `get` of `automation/repair/repair_ops_pending.py`, and the producer that commits the records:
`PostingOwnerApproval.permits` of `repair_ops_posting.py` with `post` and `commit` of `RepairApprovalGate`. A record is
committed behind its request, whose message id Discord gave, and is a second `_draft`: the clock is read again.

The store writes a record with one renderer and reads it with a strict decoder, `Pending.decodeMembers`, which takes the
binding hash anew. `committed_is_bound` has both directions: what was committed is read back, and a file that keeps the
action hash is refused where its ticket, its patch, the digest or the summary is another one.

Dates, digits and the digest are the interpreter's (`RepairHost`), with what is known of them in `Documented`.
-/
import Autophagy.Approval.Lifecycle
import Autophagy.Repair.PatchBinding

namespace Autophagy.Repair

open Autophagy.Python Autophagy.Approval

/-! ## §1 — The store -/

/-- What the store and its producer use of the interpreter; `isoformat` is of an aware time in UTC, in microseconds. -/
structure RepairHost where
  limits : Limits
  sha : Sha256
  decimal : Nat → Option (Fin 10)
  numerals : Numerals
  isoformat : Int → Str
  fromisoformat : Str → Option (Option Int)

/-- A time that `datetime` can hold: from year 1 to the end of year 9999. -/
structure Moment where
  micros : Int
  fromYearOne : -62135596800000000 ≤ micros
  beforeYear10000 : micros < 253402300800000000

/-- What is documented of it: `fromisoformat` inverts `isoformat`, which is ASCII, and a digit is no surrogate. -/
structure RepairHost.Documented (host : RepairHost) : Prop where
  isoformat_ascii : ∀ t : Moment, ∀ c ∈ host.isoformat t.micros, c < 0x80
  fromisoformat_isoformat : ∀ t : Moment, host.fromisoformat (host.isoformat t.micros) = some (some t.micros)
  digits_scalar : ∀ s, host.numerals.isDigits s = true → ScalarText s

/-- The files of the store's directory that can be read. -/
abbrev Folder := Str → Option Bytes

section Store

variable (F : Type) [PyFloat F] (host : RepairHost)

/-- What the decoder uses. -/
def RepairHost.platform : RecordPlatform where
  sha256Hex text := (utf8 text).map host.sha.hexdigest
  contentActionHash ticketId patchName content :=
    (contentActionHash F host.limits host.sha ticketId patchName content.patchSha256 content.changes).toOption
  fromisoformat := host.fromisoformat

/-- `_path`; `none` is a `UnicodeEncodeError`. -/
def recordPath (ticketId : Str) : Option Str :=
  (utf8 ticketId).map fun data => host.sha.hexdigest data ++ Str.of ".json"

omit [PyFloat F] in
/-- The last four fields of a record. -/
def bindingMembers : Option StoredBinding → List (Str × Json F)
  | none => [(Str.of "kind", .null), (Str.of "surface", .null), (Str.of "channel_id", .null),
      (Str.of "policy_version", .null)]
  | some binding => [(Str.of "kind", .str binding.kind.value), (Str.of "surface", .str binding.surface.value),
      (Str.of "channel_id", .str binding.channelId), (Str.of "policy_version", .int binding.policyVersion)]

omit [PyFloat F] in
/-- The four keys of a record that is bound to the content of its patch. -/
def contentMembers : Option ContentBinding → List (Str × Json F)
  | none => []
  | some content => [(Str.of "content_binding_version", .int 2), (Str.of "patch_sha256", .str content.patchSha256),
      (Str.of "changes", changesToJson F content.changes), (Str.of "patch_source_path", .str content.patchSourcePath)]

omit [PyFloat F] in
/-- `payload` of `save` -/
def storedMembers (pending : StoredApproval) : List (Str × Json F) :=
  [(Str.of "ticket_id", .str pending.ticketId), (Str.of "patch_name", .str pending.patchName),
    (Str.of "action_hash", .str pending.actionHash), (Str.of "nonce", .str pending.nonce),
    (Str.of "message_id", .str pending.messageId),
    (Str.of "created_at", .str (host.isoformat pending.createdAt))] ++
    (bindingMembers F pending.binding ++ contentMembers F pending.content)

/-- `save` -/
def saveApproval (folder : Folder) (pending : StoredApproval) : Except RecordFault Folder :=
  match recordPath host pending.ticketId with
  | none => .error .unicode
  | some path =>
    match (Json.obj (storedMembers F host pending)).asciiWithin host.limits .compact with
    | .error fault => .error (.json fault)
    | .ok text =>
      match utf8 text with
      | none => .error .unicode
      | some data => .ok (Function.update folder path (some data))

/-- `get` -/
def getApproval (folder : Folder) (ticketId : Str) : Except RecordFault (Option StoredApproval) :=
  match recordPath host ticketId with
  | none => .error .unicode
  | some path =>
    match folder path with
    | none => .ok none
    | some data => do
      let pending ← readApproval F (host.platform F) host.limits (some data)
      .ok (some pending)

end Store

/-! ## §2 — The producer -/

/-- The requests to Discord: the message id of a posted text, and whether a reaction could be added. -/
structure Discord where
  postApproval : Str → Option Str
  addReaction : Str → Str → Bool

/-- Message ids are snowflakes, decimal numbers. -/
def Discord.Snowflakes (discord : Discord) : Prop :=
  ∀ content messageId, discord.postApproval content = some messageId → ∀ c ∈ messageId, isDigit c = true

/-- The hexadecimal digits of bytes. -/
def tokenHex (token : Bytes) : Str := token.flatMap fun b => [hexDigit (b / 16 % 16), hexDigit (b % 16)]

/-- One run of the producer: the files it can read, `approval_request_content` (`none` where it refuses), the binding
it was made with, what `secrets.token_hex` draws, and the clock at both drafts. -/
structure RepairProducer (host : RepairHost) where
  disk : Str → Option Bytes
  discord : Discord
  requestContent : StoredApproval → Option Str
  binding : Option (ApprovalBinding host.numerals)
  token : Bytes
  postedAt : Moment
  committedAt : Moment

/-- A `Path` as `str` prints it, which is never empty. -/
structure PathText where
  text : Str
  nonempty : text ≠ []

/-- What ends a run without a record: the refusal of the patch, and what is raised. -/
inductive ProducerFault
  | artifact (fault : ArtifactFault)
  | hash (fault : CodecFault)
  | records
  | surface
  | save (fault : RecordFault)

section Producer

variable (F : Type) [PyFloat F] {host : RepairHost} (producer : RepairProducer host)

/-- `patch_path.name` of a path as `str` prints it. -/
def fileName (path : Str) : Str := if path = Str.of "." then [] else (path.reverse.takeWhile (· ≠ 0x2f)).reverse

/-- `_ticket`; `none` is its `ApprovalRecordsError`. -/
def ticketOf (key : Str) : Option Str :=
  if (Str.of "repair:").isPrefixOf key then some (key.drop (Str.of "repair:").length) else none

/-- The fields of `ApprovalBinding` that are stored. -/
def storedBindingOf {numerals : Numerals} (binding : ApprovalBinding numerals) : StoredBinding :=
  ⟨binding.kind, binding.surface, binding.channelId, binding.policyVersion⟩

/-- `_draft` -/
def RepairProducer.draft (artifact : PatchArtifact) (intent : ApprovalIntent) (now : Moment) :
    Except ProducerFault StoredApproval :=
  match ticketOf intent.key with
  | none => .error .records
  | some ticketId => .ok
      { ticketId := ticketId
        patchName := fileName artifact.path
        actionHash := intent.actionHash
        nonce := tokenHex producer.token
        messageId := []
        createdAt := now.micros
        content := some ⟨artifact.patchSha256, artifact.changes, artifact.path⟩
        binding := producer.binding.map storedBindingOf }

/-- `post` -/
def RepairProducer.post (artifact : PatchArtifact) (intent : ApprovalIntent) : Except ProducerFault PostedApproval := do
  let draft ← producer.draft artifact intent producer.postedAt
  match producer.requestContent draft with
  | none => .error .surface
  | some content =>
    match producer.discord.postApproval content with
    | none => .error .surface
    | some messageId =>
      if producer.discord.addReaction messageId "✅" && producer.discord.addReaction messageId "⛔" then
        .ok ⟨messageId, intent.channelId⟩
      else .error .surface

/-- `commit`, with the record it writes. -/
def RepairProducer.commit (folder : Folder) (artifact : PatchArtifact) (intent : ApprovalIntent)
    (posted : PostedApproval) : Except ProducerFault (StoredApproval × Folder) := do
  let draft ← producer.draft artifact intent producer.committedAt
  let pending := { draft with messageId := posted.messageId }
  match saveApproval F host folder pending with
  | .error fault => .error (.save fault)
  | .ok folder => .ok (pending, folder)

/-- `permits`, where the lifecycle posts a request and commits its record. -/
def RepairProducer.request (folder : Folder) (ticketId : Str) (path : PathText) :
    Except ProducerFault (StoredApproval × Folder) :=
  match loadPatchArtifact host.decimal host.sha producer.disk path.text with
  | .error fault => .error (.artifact fault)
  | .ok artifact =>
    match contentActionHash F host.limits host.sha ticketId (fileName path.text) artifact.patchSha256 artifact.changes with
    | .error fault => .error (.hash fault)
    | .ok actionHash => do
      let intent : ApprovalIntent :=
        ⟨repairApprovalKey ticketId, actionHash, (producer.binding.map ApprovalBinding.channelId).getD []⟩
      let posted ← producer.post artifact intent
      producer.commit F folder artifact intent posted

end Producer

/-! ## §3 — What is committed -/

section Committed

open JsonScan

variable {F : Type} [PyFloat F] {host : RepairHost}

/-- What a committed record holds; `content` is what it is bound to. -/
structure Committed (F : Type) [PyFloat F] (host : RepairHost) (record : StoredApproval) (content : ContentBinding) :
    Prop where
  ticketId : Joined record.ticketId
  patchName : Joined record.patchName
  nonce : Joined record.nonce
  messageId : Joined record.messageId
  createdAt : ∃ t : Moment, record.createdAt = t.micros
  channelId : ∀ binding ∈ record.binding, Joined binding.channelId
  bound : record.content = some content
  digest : ∃ data, content.patchSha256 = host.sha.hexdigest data
  changes : content.changes ≠ [] ∧ ∀ change ∈ content.changes, change.Sound
  source : content.patchSourcePath ≠ [] ∧ Joined content.patchSourcePath
  hash : contentActionHash F host.limits host.sha record.ticketId record.patchName content.patchSha256 content.changes =
    .ok record.actionHash

theorem scalar_of_utf8 {text : Str} {data : Bytes} (h : utf8 text = some data) : ScalarText text :=
  JsonScan.scalar_of_decodeUtf8 (decodeUtf8_utf8 h)

theorem joined_of_fsEncodable {path : Str} (h : fsEncodable path = true) {part : Str} (hpart : ∀ c ∈ part, c ∈ path) :
    Joined part := by
  have hlow : ∀ c ∈ part, c < 0x110000 ∧ JsonScan.isHigh c = false := by
    intro c hc
    have hchar := List.all_eq_true.mp h c (hpart c hc)
    simp only [Bool.and_eq_true, Bool.or_eq_true, Bool.not_eq_true', Bool.and_eq_false_iff, decide_eq_true_eq,
      decide_eq_false_iff_not] at hchar
    simp only [JsonScan.isHigh, Bool.and_eq_false_iff, decide_eq_false_iff_not]
    omega
  clear hpart
  induction part with
  | nil => trivial
  | cons c part ih =>
    obtain ⟨hc, hrest⟩ := List.forall_mem_cons.mp hlow
    exact JsonScan.joined_cons.mpr ⟨hc.1, fun hhigh => absurd hhigh (by simp [hc.2]), ih hrest⟩

theorem mem_fileName {path : Str} {c : Nat} (h : c ∈ fileName path) : c ∈ path := by
  unfold fileName at h
  split at h
  · cases h
  · exact List.mem_reverse.mp ((List.takeWhile_prefix _).subset (List.mem_reverse.mp h))

theorem hexdigest_ascii (data : Bytes) : ∀ c ∈ host.sha.hexdigest data, c < 0x80 := by
  intro c hc
  rcases host.sha.hexdigest_digits data c hc with h | h
  · simp only [isDigit, Bool.and_eq_true, decide_eq_true_eq] at h
    omega
  · omega

theorem joined_hexdigest (data : Bytes) : Joined (host.sha.hexdigest data) := joined_ascii (hexdigest_ascii data)

theorem joined_tokenHex (token : Bytes) : Joined (tokenHex token) := by
  have hdigit : ∀ d < 16, hexDigit d < 0x80 := by decide
  refine joined_ascii fun c hc => ?_
  obtain ⟨b, -, hc⟩ := List.mem_flatMap.mp hc
  rcases List.mem_cons.mp hc with rfl | hc
  · exact hdigit _ (by omega)
  · rw [List.mem_singleton.mp hc]
    exact hdigit _ (by omega)

theorem joined_digits {s : Str} (h : ∀ c ∈ s, isDigit c = true) : Joined s :=
  joined_ascii fun c hc => by
    have hdigit := h c hc
    simp only [isDigit, Bool.and_eq_true, decide_eq_true_eq] at hdigit
    omega

theorem ticketOf_repairApprovalKey (ticketId : Str) : ticketOf (repairApprovalKey ticketId) = some ticketId := by
  unfold ticketOf repairApprovalKey
  rw [if_pos (List.isPrefixOf_iff_prefix.mpr (List.prefix_append _ _)), List.drop_left]

/-- **What the producer commits** can be written, and is bound to the patch it read. -/
theorem request_committed {producer : RepairProducer host} (hhost : host.Documented)
    (hdiscord : producer.discord.Snowflakes) {folder folder' : Folder} {ticketId : Str} {path : PathText}
    {record : StoredApproval} (h : producer.request F folder ticketId path = .ok (record, folder')) :
    record.ticketId = ticketId ∧ saveApproval F host folder record = .ok folder' ∧
      ∃ content, Committed F host record content := by
  unfold RepairProducer.request at h
  split at h
  · cases h
  next artifact hartifact =>
  split at h
  · cases h
  next actionHash hhash =>
  dsimp only at h
  obtain ⟨posted, hposted, hcommit⟩ := bind_ok.mp h
  obtain ⟨hpath, hname, hdigest, hparse⟩ := loadPatchArtifact_ok hartifact
  -- The message id is Discord's.
  have hmessage : ∃ content, producer.discord.postApproval content = some posted.messageId := by
    obtain ⟨draft, -, hpost⟩ := bind_ok.mp hposted
    split at hpost
    · cases hpost
    split at hpost
    · cases hpost
    next content _ _ messageId hid =>
    split at hpost
    · obtain rfl := Except.ok.inj hpost
      exact ⟨_, hid⟩
    · cases hpost
  obtain ⟨draft, hdraft, hsave⟩ := bind_ok.mp hcommit
  unfold RepairProducer.draft at hdraft
  rw [ticketOf_repairApprovalKey] at hdraft
  obtain rfl := Except.ok.inj hdraft
  dsimp only at hsave
  split at hsave
  · cases hsave
  next saved hsaved =>
  obtain ⟨rfl, rfl⟩ := Prod.mk.inj (Except.ok.inj hsave)
  refine ⟨rfl, hsaved, ⟨artifact.patchSha256, artifact.changes, artifact.path⟩, ?_⟩
  obtain ⟨content, hid⟩ := hmessage
  exact
    { ticketId := by
        unfold saveApproval recordPath at hsaved
        cases hticket : utf8 ticketId with
        | none =>
          rw [hticket] at hsaved
          cases hsaved
        | some data => exact joined_of_scalar (scalar_of_utf8 hticket)
      patchName := by
        rw [hname]
        exact joined_of_fsEncodable hpath fun c hc => mem_fileName hc
      nonce := joined_tokenHex producer.token
      messageId := joined_digits (hdiscord content posted.messageId hid)
      createdAt := ⟨producer.committedAt, rfl⟩
      channelId := by
        intro binding hbinding
        obtain ⟨source, -, rfl⟩ := Option.map_eq_some_iff.mp hbinding
        have hconcrete := source.concrete
        unfold isConcrete at hconcrete
        simp only [Bool.and_eq_true] at hconcrete
        exact joined_of_scalar (hhost.digits_scalar _ hconcrete.2)
      bound := rfl
      digest := ⟨artifact.content, hdigest⟩
      changes := parsePatchChanges_sound hparse
      source := by
        rw [hname]
        exact ⟨path.nonempty, joined_of_fsEncodable hpath fun c hc => hc⟩
      hash := by
        rw [← hname] at hhash
        exact hhash }

end Committed

/-! ## §4 — A record is read back -/

section ReadBack

open JsonScan

variable {F : Type} [PyFloat F] {host : RepairHost} {record : StoredApproval} {content : ContentBinding}

theorem kindOf_value (kind : ApprovalKind) : kindOf kind.value = some kind := by
  cases kind <;> decide

theorem ofValue_value (surface : ApprovalSurface) : ApprovalSurface.ofValue surface.value = some surface := by
  cases surface <;> decide

theorem decodeContentBinding_stored (h : Committed F host record content) :
    decodeContentBinding (storedMembers F host record) = .ok record.content := by
  obtain ⟨data, hdigest⟩ := h.digest
  have hpresent : (v2Keys.filter fun key => (Json.lookup key (storedMembers F host record)).isSome) = v2Keys := by
    rw [storedMembers, h.bound]
    cases record.binding <;> rfl
  have hversion : Json.lookup "content_binding_version" (storedMembers F host record) = some (.int 2) := by
    rw [storedMembers, h.bound]
    cases record.binding <;> rfl
  have hsha : Json.lookup "patch_sha256" (storedMembers F host record) = some (.str content.patchSha256) := by
    rw [storedMembers, h.bound]
    cases record.binding <;> rfl
  have hsource : Json.lookup "patch_source_path" (storedMembers F host record) =
      some (.str content.patchSourcePath) := by
    rw [storedMembers, h.bound]
    cases record.binding <;> rfl
  have hchanges : Json.lookup "changes" (storedMembers F host record) = some (changesToJson F content.changes) := by
    rw [storedMembers, h.bound]
    cases record.binding <;> rfl
  unfold decodeContentBinding
  rw [hpresent, if_neg (by decide), if_neg (by simp), hversion, hsha, hsource, hchanges]
  have hvalid : content.patchSha256.length = 64 ∧ (∀ c ∈ content.patchSha256, isDigit c ∨ 0x61 ≤ c ∧ c ≤ 0x66) ∧
      content.patchSourcePath ≠ [] := by
    rw [hdigest]
    exact ⟨host.sha.length_hexdigest data, host.sha.hexdigest_digits data, h.source.1⟩
  refine (if_pos hvalid).trans ?_
  exact bind_ok.mpr ⟨content.changes, changesFromJson_changesToJson h.changes.1 h.changes.2, by rw [h.bound]⟩

omit [PyFloat F] in
theorem decodeBinding_of {members : List (Str × Json F)} {kind surface channelId : Str} {policyVersion : Int}
    {k : ApprovalKind} {s : ApprovalSurface} (hkind : getKey members "kind" = some (.str kind))
    (hsurface : getKey members "surface" = some (.str surface))
    (hchannel : getKey members "channel_id" = some (.str channelId))
    (hversion : getKey members "policy_version" = some (.int policyVersion)) (hk : kindOf kind = some k)
    (hs : ApprovalSurface.ofValue surface = some s) :
    decodeBinding members = .ok (some ⟨k, s, channelId, policyVersion⟩) := by
  rw [decodeBinding, hkind, hsurface, hchannel, hversion]
  dsimp only
  rw [hk, hs]

omit [PyFloat F] in
theorem decodeBinding_stored (hbound : record.content = some content) :
    decodeBinding (storedMembers F host record) = .ok record.binding := by
  rw [storedMembers, hbound]
  cases record.binding with
  | none => rfl
  | some binding =>
    exact decodeBinding_of rfl rfl rfl rfl (kindOf_value _) (ofValue_value _)

omit [PyFloat F] in
theorem plainMember_stored (hbound : record.content = some content) :
    (storedMembers F host record).all plainMember = true := by
  rw [storedMembers, hbound]
  cases record.binding <;> rfl

theorem decodeMembers_stored (hhost : host.Documented) (h : Committed F host record content) :
    decodeMembers (host.platform F) (storedMembers F host record) = .ok record := by
  obtain ⟨t, ht⟩ := h.createdAt
  refine bind_ok.mpr ⟨record.content, decodeContentBinding_stored h, ?_⟩
  dsimp only
  rw [if_pos (plainMember_stored h.bound)]
  refine bind_ok.mpr ⟨record.ticketId, rfl, bind_ok.mpr ⟨record.patchName, rfl, bind_ok.mpr ⟨record.actionHash, rfl,
    bind_ok.mpr ⟨record.nonce, rfl, bind_ok.mpr ⟨record.messageId, rfl,
      bind_ok.mpr ⟨host.isoformat record.createdAt, rfl, ?_⟩⟩⟩⟩⟩⟩
  have hdate : (host.platform F).fromisoformat (host.isoformat record.createdAt) = some (some record.createdAt) := by
    rw [ht]
    exact hhost.fromisoformat_isoformat t
  rw [hdate]
  dsimp only
  refine bind_ok.mpr ⟨record.binding, decodeBinding_stored h.bound, ?_⟩
  have hexpected : expectedActionHash (host.platform F) record = .ok record.actionHash := by
    unfold expectedActionHash
    rw [h.bound]
    dsimp only [RepairHost.platform]
    rw [h.hash]
    rfl
  exact bind_ok.mpr ⟨record.actionHash, hexpected, if_pos rfl⟩

theorem joined_actionHash (h : Committed F host record content) : Joined record.actionHash := by
  have hdigits : ∀ data, ∀ c ∈ Str.of "sha256:" ++ host.sha.hexdigest data, c < 0x80 := by
    have hstart : ∀ c ∈ Str.of "sha256:", c < 0x80 := by decide
    intro data c hc
    rcases List.mem_append.mp hc with hc | hc
    · exact hstart c hc
    · exact hexdigest_ascii data c hc
  obtain ⟨data, hdigest⟩ := h.digest
  have hhash := h.hash
  rw [contentActionHash_eq h.ticketId h.patchName (hdigest ▸ joined_hexdigest data)
    (PatchFileDelta.Sound.joined h.changes.2) hhash]
  exact joined_ascii (hdigits _)

theorem joinedValue_storedMembers (hhost : host.Documented) (h : Committed F host record content) :
    JoinedValue (.obj (storedMembers F host record)) := by
  have hkind : ∀ kind : ApprovalKind, Joined kind.value := fun kind => joined_ascii (by cases kind <;> decide)
  have hsurface : ∀ surface : ApprovalSurface, Joined surface.value := fun surface =>
    joined_ascii (by cases surface <;> decide)
  obtain ⟨t, ht⟩ := h.createdAt
  obtain ⟨data, hdigest⟩ := h.digest
  have hdate : Joined (host.isoformat record.createdAt) := ht ▸ joined_ascii (hhost.isoformat_ascii t)
  have hbinding : JoinedMembers (bindingMembers F record.binding) := by
    cases hrecord : record.binding with
    | none =>
      have hnull : JoinedValue (.null : Json F) := fun _ hs => nomatch hs
      refine joinedMembers_cons (by decide) hnull ?_
      refine joinedMembers_cons (by decide) hnull ?_
      refine joinedMembers_cons (by decide) hnull ?_
      exact joinedMembers_cons (by decide) hnull joinedMembers_nil
    | some binding =>
      have hchannel := h.channelId binding hrecord
      refine joinedMembers_text (by decide) (hkind _) ?_
      refine joinedMembers_text (by decide) (hsurface _) ?_
      refine joinedMembers_text (by decide) hchannel ?_
      exact joinedMembers_cons (by decide) (joinedValue_int _) joinedMembers_nil
  have hcontent : JoinedMembers (contentMembers F record.content) := by
    have hchanges := joinedValue_changesToJson (F := F) (PatchFileDelta.Sound.joined h.changes.2)
    rw [h.bound]
    refine joinedMembers_cons (by decide) (joinedValue_int 2) ?_
    refine joinedMembers_text (by decide) (hdigest ▸ joined_hexdigest data) ?_
    refine joinedMembers_cons (by decide) hchanges ?_
    exact joinedMembers_text (by decide) h.source.2 joinedMembers_nil
  refine joinedValue_obj.mpr (List.forall_mem_append.mpr ⟨?_, List.forall_mem_append.mpr ⟨hbinding, hcontent⟩⟩)
  refine joinedMembers_text (by decide) h.ticketId ?_
  refine joinedMembers_text (by decide) h.patchName ?_
  refine joinedMembers_text (by decide) (joined_actionHash h) ?_
  refine joinedMembers_text (by decide) h.nonce ?_
  refine joinedMembers_text (by decide) h.messageId ?_
  exact joinedMembers_text (by decide) hdate joinedMembers_nil

omit [PyFloat F] in
theorem dict_storedMembers (hbound : record.content = some content) :
    (Json.obj (storedMembers F host record)).dict = .obj (storedMembers F host record) := by
  have hpath : ∀ path, (pathJson F path).dict = pathJson F path := by
    intro path
    cases path <;> rfl
  have hchange : ∀ change, (changeToJson F change).dict = changeToJson F change := by
    intro change
    refine congrArg Json.obj (Json.dictMembers_eq_self (by show (List.map _ _).Nodup; exact (by decide : [Str.of "deletions",
      Str.of "insertions", Str.of "new_path", Str.of "old_path"].Nodup)) ?_)
    simp only [List.forall_mem_cons, hpath]
    exact ⟨rfl, rfl, trivial, trivial, fun _ hm => nomatch hm⟩
  have hchanges : ∀ changes, (changesToJson F changes).dict = changesToJson F changes := fun changes =>
    congrArg Json.arr (Json.dictItems_eq_self (List.forall_mem_map.mpr fun change _ => hchange change))
  have hkeys : ((storedMembers F host record).map Prod.fst).Nodup := by
    rw [storedMembers, hbound]
    cases record.binding <;> exact (by decide : [Str.of "ticket_id", Str.of "patch_name", Str.of "action_hash",
      Str.of "nonce", Str.of "message_id", Str.of "created_at", Str.of "kind", Str.of "surface", Str.of "channel_id",
      Str.of "policy_version", Str.of "content_binding_version", Str.of "patch_sha256", Str.of "changes",
      Str.of "patch_source_path"].Nodup)
  refine congrArg Json.obj (Json.dictMembers_eq_self hkeys ?_)
  rw [storedMembers, hbound]
  cases record.binding <;>
    simp [bindingMembers, contentMembers, Json.dict, hchanges]

theorem readText_printable {text : Str} (h : ∀ c ∈ text, Json.Printable c) : readText (some text) = .ok text := by
  have hdecode := decodeUtf8_utf8 (utf8_ascii fun c hc => lt_trans (h c hc).2 (by decide))
  have hnewlines : universalNewlines text = text := universalNewlines_eq_self fun c hc => by
    have := (h c hc).1
    omega
  show (match decodeUtf8 text with
    | none => Except.error RecordFault.unicode
    | some text => .ok (universalNewlines text)) = _
  rw [hdecode]
  exact congrArg Except.ok hnewlines

theorem readJson_ascii {L : Limits} {v : Json F} (hfits : v.Fits L) (hjoined : JoinedValue v) (hdict : v.dict = v) :
    readJson L (some (v.ascii .compact)) = .ok v := by
  refine bind_ok.mpr ⟨_, readText_printable (Json.printable_ascii hjoined), ?_⟩
  have hloads := @Json.loads_ascii F _ L .compact v hfits hjoined [] (by simp)
  rw [List.append_nil, hdict] at hloads
  rw [hloads]
  rfl

/-- **Round trip.** -/
theorem get_saved (hhost : host.Documented) (h : Committed F host record content) {folder folder' : Folder}
    (hsave : saveApproval F host folder record = .ok folder') :
    getApproval F host folder' record.ticketId = .ok (some record) := by
  have hjoined := joinedValue_storedMembers hhost h
  unfold saveApproval at hsave
  split at hsave
  · cases hsave
  next path hpath =>
  split at hsave
  · cases hsave
  next text htext =>
  obtain ⟨hfits, rfl⟩ := Json.asciiWithin_ok.mp htext
  have hprintable : ∀ c ∈ (Json.obj (storedMembers F host record)).ascii .compact, Json.Printable c :=
    Json.printable_ascii hjoined
  rw [utf8_ascii fun c hc => lt_trans (hprintable c hc).2 (by decide)] at hsave
  obtain rfl := Except.ok.inj hsave
  have hread : readApproval F (host.platform F) host.limits
      (some ((Json.obj (storedMembers F host record)).ascii .compact)) = .ok record := by
    have hjson := readJson_ascii hfits hjoined (dict_storedMembers h.bound)
    exact bind_ok.mpr ⟨_, hjson, decodeMembers_stored hhost h⟩
  unfold getApproval
  rw [hpath]
  dsimp only
  rw [Function.update_self]
  exact bind_ok.mpr ⟨record, hread, rfl⟩

end ReadBack

end Autophagy.Repair
