/-
# Autophagy.Repair.AlteredRecord — no altered repair record is read as a valid one.

The decoder takes the binding hash of a record anew, from its ticket, the name and the digest of the patch and the
summary. `committed_is_bound` has both directions for every record that the producer commits: the store reads it back
(`PendingStore.get_saved`), and a file that keeps the action hash is refused where one of the four is another one. A
file without the keys of the content is a record of the older kind, whose hash has no prefix (`legacy_hash_ne`).

Strings that differ have one rendering only where a pair of surrogates stands in one of them, and no file has such a
pair (`joined_of_readJson`).
-/
import Autophagy.Python.Sample
import Autophagy.Repair.PendingStore

namespace Autophagy.Repair

open Autophagy.Python Autophagy.Approval

/-! ## §1 — What is decoded -/

section Altered

open JsonScan

variable {F : Type} [PyFloat F] {host : RepairHost} {record : StoredApproval} {content : ContentBinding}
  {members : List (Str × Json F)}

omit [PyFloat F] in
/-- The stored ticket, patch name, digest or summary is another one than that of the record. -/
def Altered (record : StoredApproval) (content : ContentBinding) (members : List (Str × Json F)) : Prop :=
  Json.lookup "ticket_id" members ≠ some (.str record.ticketId) ∨
    Json.lookup "patch_name" members ≠ some (.str record.patchName) ∨
    Json.lookup "patch_sha256" members ≠ some (.str content.patchSha256) ∨
    changesFromJson (Json.lookup "changes" members) ≠ .ok content.changes

omit [PyFloat F] in
theorem joined_of_lookup (h : JoinedMembers members) {key s : Str}
    (hlookup : Json.lookup key members = some (.str s)) : Joined s :=
  joinedValue_str.mp (h _ (Json.mem_of_lookup hlookup)).2

omit [PyFloat F] in
theorem required_ok {key value : Str} (h : required members key = .ok value) :
    Json.lookup key members = some (.str value) := by
  unfold required at h
  split at h
  · next hlookup =>
      obtain rfl := Except.ok.inj h
      exact hlookup
  · cases h

omit [PyFloat F] in
theorem joined_of_storedPath (h : JoinedMembers members) {key : Str} {path : Option Str}
    (hpath : storedPath (Json.lookup key members) = .ok path) : ∀ p ∈ path, Joined p := by
  unfold storedPath at hpath
  split at hpath
  · obtain rfl := Except.ok.inj hpath
    exact fun p hp => nomatch hp
  · next s hlookup =>
      split at hpath
      · obtain rfl := Except.ok.inj hpath
        intro p hp
        obtain rfl := Option.some.inj hp
        exact joined_of_lookup h hlookup
      · cases hpath
  · cases hpath

omit [PyFloat F] in
theorem joined_of_changeFromJson {item : Json F} (h : JoinedValue item) {change : PatchFileDelta}
    (hchange : changeFromJson item = .ok change) :
    (∀ path ∈ change.oldPath, Joined path) ∧ ∀ path ∈ change.newPath, Joined path := by
  unfold changeFromJson at hchange
  split at hchange
  · next members =>
      have hmembers := joinedValue_obj.mp h
      dsimp only at hchange
      split at hchange
      · obtain ⟨oldPath, hold, hchange⟩ := bind_ok.mp hchange
        obtain ⟨newPath, hnew, hchange⟩ := bind_ok.mp hchange
        split at hchange
        · cases hchange
        · obtain ⟨insertions, -, hchange⟩ := bind_ok.mp hchange
          obtain ⟨deletions, -, hchange⟩ := bind_ok.mp hchange
          obtain rfl := Except.ok.inj hchange
          exact ⟨joined_of_storedPath hmembers hold, joined_of_storedPath hmembers hnew⟩
      · cases hchange
  · cases hchange

omit [PyFloat F] in
theorem joinedPaths_of_changesFromJson (h : JoinedMembers members) {changes : List PatchFileDelta}
    (hchanges : changesFromJson (Json.lookup "changes" members) = .ok changes) : JoinedPaths changes := by
  unfold changesFromJson at hchanges
  split at hchanges
  · next item items hlookup =>
      have hitems := joinedValue_arr.mp (h _ (Json.mem_of_lookup hlookup)).2
      intro change hchange
      obtain ⟨source, hsource, hread⟩ := mem_of_mapM_ok hchanges hchange
      exact joined_of_changeFromJson (hitems source hsource) hread
  · cases hchanges

omit [PyFloat F] in
theorem decodeContentBinding_ok {content : ContentBinding} (h : decodeContentBinding members = .ok (some content)) :
    Json.lookup "patch_sha256" members = some (.str content.patchSha256) ∧
      changesFromJson (Json.lookup "changes" members) = .ok content.changes := by
  unfold decodeContentBinding at h
  dsimp only at h
  split at h
  · cases h
  split at h
  · cases h
  split at h
  · next digest source hversion hdigest hsource =>
      split at h
      · obtain ⟨changes, hchanges, h⟩ := bind_ok.mp h
        obtain rfl := Option.some.inj (Except.ok.inj h)
        exact ⟨hdigest, hchanges⟩
      · cases h
  · cases h

omit [PyFloat F] in
/-- What a dictionary holds that is decoded. -/
theorem decodeMembers_ok {platform : RecordPlatform} {found : StoredApproval}
    (h : decodeMembers platform members = .ok found) :
    decodeContentBinding members = .ok found.content ∧ Json.lookup "ticket_id" members = some (.str found.ticketId) ∧
      Json.lookup "patch_name" members = some (.str found.patchName) ∧
      Json.lookup "action_hash" members = some (.str found.actionHash) ∧
      expectedActionHash platform found = .ok found.actionHash := by
  obtain ⟨content, hcontent, h⟩ := bind_ok.mp h
  split at h
  · obtain ⟨ticketId, hticket, h⟩ := bind_ok.mp h
    obtain ⟨patchName, hname, h⟩ := bind_ok.mp h
    obtain ⟨actionHash, haction, h⟩ := bind_ok.mp h
    obtain ⟨nonce, -, h⟩ := bind_ok.mp h
    obtain ⟨messageId, -, h⟩ := bind_ok.mp h
    obtain ⟨createdAt, -, h⟩ := bind_ok.mp h
    split at h
    · obtain ⟨binding, -, h⟩ := bind_ok.mp h
      obtain ⟨expected, hexpected, h⟩ := bind_ok.mp h
      dsimp only at h
      split at h
      · next heq =>
          obtain rfl := Except.ok.inj h
          rw [← heq] at hexpected
          exact ⟨hcontent, required_ok hticket, required_ok hname, required_ok haction, hexpected⟩
      · cases h
    · cases h
  · cases h

theorem legacy_hash_ne {text data : Bytes} : (utf8 text).map host.sha.hexdigest ≠
    some (Str.of "sha256:" ++ host.sha.hexdigest data) := by
  intro h
  obtain ⟨bytes, -, hdigest⟩ := Option.map_eq_some_iff.mp h
  have hs : 0x73 ∈ host.sha.hexdigest bytes := by
    rw [hdigest]
    exact List.mem_append_left _ (by decide)
  rcases host.sha.hexdigest_digits bytes 0x73 hs with hdigit | hletter
  · exact absurd hdigit (by decide)
  · omega

theorem toOption_eq_some {ε α : Type} {x : Except ε α} {a : α} (h : x.toOption = some a) : x = .ok a := by
  cases x with
  | error e => cases h
  | ok b => exact congrArg Except.ok (Option.some.inj h)

theorem expectedActionHash_ok {found : StoredApproval} {hash : Str}
    (h : expectedActionHash (host.platform F) found = .ok hash) :
    (found.content = none ∧ ∃ text, (utf8 text).map host.sha.hexdigest = some hash) ∨
      ∃ content, found.content = some content ∧ contentActionHash F host.limits host.sha found.ticketId found.patchName
        content.patchSha256 content.changes = .ok hash := by
  unfold expectedActionHash at h
  cases hcontent : found.content with
  | none =>
    rw [hcontent] at h
    dsimp only at h
    split at h
    · next digest hdigest =>
        obtain rfl := Except.ok.inj h
        exact .inl ⟨rfl, _, hdigest⟩
    · cases h
  | some content =>
    rw [hcontent] at h
    dsimp only at h
    split at h
    · next digest hdigest =>
        obtain rfl := Except.ok.inj h
        exact .inr ⟨content, rfl, toOption_eq_some hdigest⟩
    · cases h

/-- What is read from a file holds no pair of surrogates. -/
theorem joined_of_readJson {L : Limits} {file : PendingFile} {v : Json F} (h : readJson L file = .ok v) :
    JoinedValue v := by
  obtain ⟨text, htext, hloads⟩ := bind_ok.mp h
  have hscalar : ScalarText text := by
    cases file with
    | none => cases htext
    | some bytes =>
      unfold readText at htext
      dsimp only at htext
      split at htext
      · cases htext
      · next decoded hdecoded =>
          obtain rfl := Except.ok.inj htext
          intro c hc
          rcases mem_universalNewlines hc with hc | rfl
          · exact scalar_of_decodeUtf8 hdecoded c hc
          · exact scalar_iff.mpr (by omega)
  cases hvalue : (Json.loads L text : Except JsonFault (Json F)) with
  | error fault =>
    rw [hvalue] at hloads
    cases hloads
  | ok w =>
    rw [hvalue] at hloads
    obtain rfl := Except.ok.inj hloads
    exact joined_of_loads hscalar hvalue

/-- **A record that keeps the action hash but not what it is made of is refused.** -/
theorem altered_refused (h : Committed F host record content) (hsha : ∀ data, host.sha.hexdigest data =
      host.sha.hexdigest (renderedBinding F record.ticketId record.patchName content.patchSha256 content.changes) →
      data = renderedBinding F record.ticketId record.patchName content.patchSha256 content.changes)
    {file : PendingFile} (hread : readJson host.limits file = .ok (Json.obj members))
    (hkept : Json.lookup "action_hash" members = some (.str record.actionHash))
    (haltered : Altered record content members) :
    ∃ fault, readApproval F (host.platform F) host.limits file = .error fault := by
  cases hfound : readApproval F (host.platform F) host.limits file with
  | error fault => exact ⟨fault, rfl⟩
  | ok found =>
    exfalso
    obtain ⟨data, hdata, hdecode⟩ := bind_ok.mp hfound
    obtain rfl : Json.obj members = data := Except.ok.inj (hread.symm.trans hdata)
    obtain ⟨hcontent, hticket, hname, haction, hexpected⟩ := decodeMembers_ok hdecode
    have hjoined := joinedValue_obj.mp (joined_of_readJson hread)
    have hsame : record.actionHash = found.actionHash := Json.str.inj (Option.some.inj (hkept.symm.trans haction))
    obtain ⟨digest, hdigest⟩ := h.digest
    have hpatch : Joined content.patchSha256 := hdigest ▸ joined_hexdigest digest
    have hpaths := PatchFileDelta.Sound.joined h.changes.2
    have hhash := contentActionHash_eq h.ticketId h.patchName hpatch hpaths h.hash
    rcases expectedActionHash_ok hexpected with ⟨-, text, hlegacy⟩ | ⟨stored, hstored, hbound⟩
    · -- The decoder takes the record for one without content.
      rw [← hsame, hhash] at hlegacy
      exact legacy_hash_ne hlegacy
    · rw [hstored] at hcontent
      obtain ⟨hstoredSha, hstoredChanges⟩ := decodeContentBinding_ok hcontent
      have hticket' := joined_of_lookup hjoined hticket
      have hname' := joined_of_lookup hjoined hname
      have hsha' := joined_of_lookup hjoined hstoredSha
      have hchanges' := joinedPaths_of_changesFromJson hjoined hstoredChanges
      have hhash' := contentActionHash_eq hticket' hname' hsha' hchanges' hbound
      have hrendered := hsha _ (List.append_cancel_left (hhash'.symm.trans (hsame.symm.trans hhash)))
      obtain ⟨htickets, hnames, hshas, hsummaries⟩ := renderedBinding_injective hticket' hname' hsha' hchanges'
        h.ticketId h.patchName hpatch hpaths hrendered
      rw [htickets] at hticket
      rw [hnames] at hname
      rw [hshas] at hstoredSha
      rw [hsummaries] at hstoredChanges
      rcases haltered with hdiffers | hdiffers | hdiffers | hdiffers
      · exact hdiffers hticket
      · exact hdiffers hname
      · exact hdiffers hstoredSha
      · exact hdiffers hstoredChanges

/-- No other data has the digest of this one. -/
def Sha256.NoSecondPreimage (sha : Sha256) (data : Bytes) : Prop := ∀ data', sha.hexdigest data' = sha.hexdigest data → data' = data

/-- **The store reads back what the producer commits, and no altered record.** -/
theorem committed_is_bound {producer : RepairProducer host} (hhost : host.Documented)
    (hdiscord : producer.discord.Snowflakes) {folder folder' : Folder} {ticketId : Str} {path : PathText}
    {record : StoredApproval} (hrequest : producer.request F folder ticketId path = .ok (record, folder'))
    (hsha : ∀ content ∈ record.content, host.sha.NoSecondPreimage
      (renderedBinding F record.ticketId record.patchName content.patchSha256 content.changes)) :
    getApproval F host folder' ticketId = .ok (some record) ∧
      ∃ content, record.content = some content ∧ ∀ (file : PendingFile) (members : List (Str × Json F)),
        readJson host.limits file = .ok (.obj members) →
        Json.lookup "action_hash" members = some (.str record.actionHash) → Altered record content members →
          ∃ fault, readApproval F (host.platform F) host.limits file = .error fault := by
  obtain ⟨rfl, hsave, content, hcommitted⟩ := request_committed hhost hdiscord hrequest
  refine ⟨get_saved hhost hcommitted hsave, content, hcommitted.bound, fun file members hread hkept haltered => ?_⟩
  exact altered_refused hcommitted (hsha content hcommitted.bound) hread hkept haltered

end Altered

/-! ## §3 — A record -/

section Sample

open JsonScan

/-- SHA-256 on the texts of a table; every other text has the digest of zeros. -/
def tableSha256 (table : List (Bytes × Str))
    (h : ∀ e ∈ table, e.2.length = 64 ∧ ∀ c ∈ e.2, isDigit c ∨ 0x61 ≤ c ∧ c ≤ 0x66) : Sha256 where
  hexdigest data := (table.lookup data).getD (List.replicate 64 0x30)
  length_hexdigest data := by
    cases hdata : table.lookup data with
    | none => rfl
    | some digest =>
      obtain ⟨front, rest, rfl, -⟩ := List.lookup_eq_some_iff.mp hdata
      exact (h (data, digest) (by simp)).1
  hexdigest_digits data := by
    cases hdata : table.lookup data with
    | none =>
      intro c hc
      rw [(List.mem_replicate.mp hc).2]
      exact .inl rfl
    | some digest =>
      obtain ⟨front, rest, rfl, -⟩ := List.lookup_eq_some_iff.mp hdata
      exact (h (data, digest) (by simp)).2

/-- A text of the table has its digest alone, where the digests differ. -/
theorem tableSha256_noSecondPreimage {table : List (Bytes × Str)}
    (h : ∀ e ∈ table, e.2.length = 64 ∧ ∀ c ∈ e.2, isDigit c ∨ 0x61 ≤ c ∧ c ≤ 0x66) {data : Bytes} {digest : Str}
    (hdata : table.lookup data = some digest) (hzeros : digest ≠ List.replicate 64 0x30)
    (hdistinct : (table.map Prod.snd).Nodup) : (tableSha256 table h).NoSecondPreimage data := by
  have hmem : ∀ {t d}, table.lookup t = some d → (t, d) ∈ table := by
    intro t d hlookup
    obtain ⟨front, rest, rfl, -⟩ := List.lookup_eq_some_iff.mp hlookup
    simp
  intro data' hsame
  have hdigest : (table.lookup data').getD (List.replicate 64 0x30) = digest := by
    show (tableSha256 table h).hexdigest data' = digest
    rw [hsame]
    show (table.lookup data).getD _ = digest
    rw [hdata]
    rfl
  cases hdata' : table.lookup data' with
  | none =>
    rw [hdata'] at hdigest
    exact absurd hdigest.symm hzeros
  | some other =>
    rw [hdata'] at hdigest
    obtain rfl : other = digest := hdigest
    exact congrArg Prod.fst (List.inj_on_of_nodup_map hdistinct (hmem hdata') (hmem hdata) rfl)

/-- A patch of one line. -/
def samplePatch : Bytes :=
  Str.of "diff --git a/a.py b/a.py\n--- a/a.py\n+++ b/a.py\n@@ -1 +1 @@\n-x\n+y\n"

/-- The digests of the patch, of its binding and of the ticket. -/
def sampleDigests : List (Bytes × Str) :=
  [(samplePatch, "d95978b1a3636b7df0887106e02a33565cad7f7ded7fcfca1da35c5e1a282ae7"),
    (renderedBinding SampleFloat "T-1" "patch.diff" "d95978b1a3636b7df0887106e02a33565cad7f7ded7fcfca1da35c5e1a282ae7"
      [⟨some "a.py", some "a.py", 1, 1⟩], "a913d9a3de9e5d8e9def42ad5e87af2635ed48d1a6fba3ce838c76f808ae4630"),
    (Str.of "T-1", "cd4a8a25abc253aa3ce196fd7f16cac5b3645e18cde9fde3b944cda591ea88d1")]

theorem sampleDigests_hex : ∀ e ∈ sampleDigests, e.2.length = 64 ∧ ∀ c ∈ e.2, isDigit c ∨ 0x61 ≤ c ∧ c ≤ 0x66 := by
  unfold sampleDigests
  repeat rw [Str.of_literal]
  decide +kernel

/-- The epoch is written as `isoformat` writes it, and every other time as its microseconds. -/
def sampleStamp (t : Int) : Str := if t = 0 then "1970-01-01T00:00:00+00:00" else intText t

def readSampleStamp (text : Str) : Int :=
  if text = "1970-01-01T00:00:00+00:00" then 0
  else
    match text with
    | 0x2d :: digits => -(natOfText digits : Int)
    | digits => natOfText digits

def sampleRepairHost : RepairHost where
  limits := ⟨4300, 1000⟩
  sha := tableSha256 sampleDigests sampleDigests_hex
  decimal _ := none
  numerals :=
    { isDigits := fun s => s ≠ [] && s.all isDigit
      toInt := fun s => some (natOfText s)
      ascii := fun s hne hall => by simp [hne, hall] }
  isoformat := sampleStamp
  fromisoformat text := some (some (readSampleStamp text))

theorem readSampleStamp_sampleStamp (t : Int) : readSampleStamp (sampleStamp t) = t := by
  have hminus : 0x2d ∈ Str.of "1970-01-01T00:00:00+00:00" := by decide
  have hnat : ∀ n, 0x2d ∉ natText n := fun n hmem => absurd (natText_isDigit n _ hmem) (by decide)
  unfold sampleStamp
  split
  · next h =>
      subst h
      decide
  unfold readSampleStamp intText
  split
  · next hneg =>
      rw [if_neg (by simp [Str.of])]
      show -(natOfText (natText t.natAbs) : Int) = t
      rw [natOfText_natText]
      omega
  · next hneg =>
      rw [if_neg fun heq => hnat t.natAbs (by rw [heq]; exact hminus)]
      split
      · next digits heq => exact absurd (by rw [heq]; exact List.mem_cons_self) (hnat t.natAbs)
      · rw [natOfText_natText]
        omega

theorem sampleRepairHost_documented : sampleRepairHost.Documented where
  isoformat_ascii t := by
    have hepoch : ∀ c ∈ Str.of "1970-01-01T00:00:00+00:00", c < 0x80 := by decide
    have hnat : ∀ n, ∀ c ∈ natText n, c < 0x80 := by
      intro n c hc
      have := natText_isDigit n c hc
      simp only [isDigit, Bool.and_eq_true, decide_eq_true_eq] at this
      omega
    show ∀ c ∈ sampleStamp t.micros, c < 0x80
    unfold sampleStamp intText
    split
    · exact hepoch
    split
    · exact List.forall_mem_cons.mpr ⟨by decide, hnat _⟩
    · exact hnat _
  fromisoformat_isoformat t := by
    show some (some (readSampleStamp (sampleStamp t.micros))) = _
    rw [readSampleStamp_sampleStamp]
  digits_scalar s h c hc := by
    obtain ⟨-, hdigits⟩ := Bool.and_eq_true_iff.mp h
    have := List.all_eq_true.mp hdigits c hc
    simp only [isDigit, Bool.and_eq_true, decide_eq_true_eq] at this
    exact JsonScan.scalar_iff.mpr (by omega)

def sampleRepairProducer : RepairProducer sampleRepairHost where
  disk path := if path = "/plans/T-1/patch.diff" then some samplePatch else none
  discord :=
    { postApproval := fun _ => some "1400000000000000001"
      addReaction := fun _ _ => true }
  requestContent _ := some "repair"
  binding := some ⟨.repair, .ownerDm, "1500000000000000002", 6, by decide⟩
  token := [0x0f, 0xa1]
  postedAt := ⟨0, by decide, by decide⟩
  committedAt := ⟨0, by decide, by decide⟩

/-- What it commits. -/
def sampleApproval : StoredApproval where
  ticketId := "T-1"
  patchName := "patch.diff"
  actionHash := "sha256:a913d9a3de9e5d8e9def42ad5e87af2635ed48d1a6fba3ce838c76f808ae4630"
  nonce := "0fa1"
  messageId := "1400000000000000001"
  createdAt := 0
  content := some ⟨"d95978b1a3636b7df0887106e02a33565cad7f7ded7fcfca1da35c5e1a282ae7",
    [⟨some "a.py", some "a.py", 1, 1⟩], "/plans/T-1/patch.diff"⟩
  binding := some ⟨.repair, .ownerDm, "1500000000000000002", 6⟩

theorem sample_requested : ∃ folder, sampleRepairProducer.request SampleFloat (fun _ => none) "T-1"
    ⟨"/plans/T-1/patch.diff", by decide⟩ = .ok (sampleApproval, folder) := by
  have hrecord : ((sampleRepairProducer.request SampleFloat (fun _ => none) "T-1"
      ⟨"/plans/T-1/patch.diff", by decide⟩).map Prod.fst).toOption = some sampleApproval := by
    decide +kernel
  cases hrequest : sampleRepairProducer.request SampleFloat (fun _ => none) "T-1"
      ⟨"/plans/T-1/patch.diff", by decide⟩ with
  | error fault =>
    rw [hrequest] at hrecord
    cases hrecord
  | ok pair =>
    rw [hrequest] at hrecord
    exact ⟨pair.2, congrArg Except.ok (Prod.ext (Option.some.inj hrecord) rfl)⟩

/-- The record with another number of lines in its summary. -/
def sampleAltered : List (Str × Json SampleFloat) :=
  storedMembers SampleFloat sampleRepairHost
    { sampleApproval with content := some ⟨"d95978b1a3636b7df0887106e02a33565cad7f7ded7fcfca1da35c5e1a282ae7",
        [⟨some "a.py", some "a.py", 2, 1⟩], "/plans/T-1/patch.diff"⟩ }

/-- The record is read back; with another summary it is not read. -/
theorem sample_record_is_bound : (∃ folder, getApproval SampleFloat sampleRepairHost folder "T-1" =
      .ok (some sampleApproval)) ∧
    ∃ fault, readApproval SampleFloat (sampleRepairHost.platform SampleFloat) sampleRepairHost.limits
      (some ((Json.obj sampleAltered).ascii .compact)) = .error fault := by
  obtain ⟨folder, hrequest⟩ := sample_requested
  have hsnowflakes : sampleRepairProducer.discord.Snowflakes := by
    rintro content messageId hposted
    obtain rfl := Option.some.inj hposted
    decide
  have hunique : ∀ content ∈ sampleApproval.content, sampleRepairHost.sha.NoSecondPreimage
      (renderedBinding SampleFloat sampleApproval.ticketId sampleApproval.patchName content.patchSha256
        content.changes) := by
    intro content hcontent
    obtain rfl := Option.some.inj hcontent
    have hdigest : sampleDigests.lookup (renderedBinding SampleFloat "T-1" "patch.diff"
        "d95978b1a3636b7df0887106e02a33565cad7f7ded7fcfca1da35c5e1a282ae7" [⟨some "a.py", some "a.py", 1, 1⟩]) =
          some (Str.of "a913d9a3de9e5d8e9def42ad5e87af2635ed48d1a6fba3ce838c76f808ae4630") := by
      unfold sampleDigests samplePatch
      repeat rw [Str.of_literal]
      decide +kernel
    have hzeros : Str.of "a913d9a3de9e5d8e9def42ad5e87af2635ed48d1a6fba3ce838c76f808ae4630" ≠
        List.replicate 64 0x30 := by
      rw [Str.of_literal]
      decide
    have hdistinct : (sampleDigests.map Prod.snd).Nodup := by
      unfold sampleDigests
      repeat rw [Str.of_literal]
      decide
    exact tableSha256_noSecondPreimage sampleDigests_hex hdigest hzeros hdistinct
  obtain ⟨hget, content, hcontent, haltered⟩ :=
    committed_is_bound sampleRepairHost_documented hsnowflakes hrequest hunique
  obtain rfl := Option.some.inj hcontent
  have hstrings : ∀ s ∈ (Json.obj sampleAltered).strings, ∀ c ∈ s, c < 0x80 := by decide +kernel
  have hread : readJson sampleRepairHost.limits (some ((Json.obj sampleAltered).ascii .compact)) =
      .ok (Json.obj sampleAltered) :=
    readJson_ascii (by decide +kernel) (fun s hs => joined_ascii (hstrings s hs)) (dict_storedMembers rfl)
  exact ⟨⟨folder, hget⟩, haltered _ sampleAltered hread rfl (.inr (.inr (.inr (by decide))))⟩

end Sample

end Autophagy.Repair
