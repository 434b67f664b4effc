/-
# Autophagy.Repair.PatchBinding — the hash that a repair approval is bound by.

`automation/repair/repair_patch_binding.py`. The hash is taken of one rendering of the ticket, the name of the patch,
the digest of its bytes and the summary the owner reads; `decode_content_binding` (in `Pending`) reads the last two back
from a stored record. The summary is stored as it is hashed, in the shape `changes_to_json` gives it.

`changesFromJson_changesToJson` is the round trip of a summary, and `renderedBinding_injective` says that the rendering
names everything it is made of. The rest of a collision is SHA-256's.
-/
import Autophagy.Repair.PatchDiff

namespace Autophagy.Repair

open Autophagy.Python

/-! ## §1 — The binding -/

/-- `hashlib.sha256(data).hexdigest()` -/
structure Sha256 where
  hexdigest : Bytes → Str
  length_hexdigest : ∀ data, (hexdigest data).length = 64
  hexdigest_digits : ∀ data, ∀ c ∈ hexdigest data, isDigit c ∨ 0x61 ≤ c ∧ c ≤ 0x66

section Binding

variable (F : Type)

/-- A path of a summary, `None` for the side that has no file. -/
def pathJson : Option Str → Json F
  | none => .null
  | some path => .str path

/-- One entry of `changes_to_json`. -/
def changeToJson (change : PatchFileDelta) : Json F :=
  .obj [(Str.of "deletions", .int change.deletions), (Str.of "insertions", .int change.insertions),
    (Str.of "new_path", pathJson F change.newPath), (Str.of "old_path", pathJson F change.oldPath)]

/-- `changes_to_json` -/
def changesToJson (changes : List PatchFileDelta) : Json F := .arr (changes.map (changeToJson F))

/-- `preimage` of `content_action_hash`. -/
def bindingPreimage (ticketId patchName patchSha256 : Str) (changes : List PatchFileDelta) : Json F :=
  .obj [(Str.of "binding_version", .int 2), (Str.of "changes", changesToJson F changes),
    (Str.of "operation", .str "repair.apply"), (Str.of "patch_name", .str patchName),
    (Str.of "patch_sha256", .str patchSha256), (Str.of "ticket_id", .str ticketId)]

variable [PyFloat F] (L : Limits) (sha : Sha256)

/-- `content_action_hash` -/
def contentActionHash (ticketId patchName patchSha256 : Str) (changes : List PatchFileDelta) : Except CodecFault Str :=
  match (bindingPreimage F ticketId patchName patchSha256 changes).sortKeys.asciiWithin L .compact with
  | .error fault => .error (.json fault)
  | .ok encoded =>
    match utf8 encoded with
    | none => .error .unicodeEncode
    | some data => .ok (Str.of "sha256:" ++ sha.hexdigest data)

/-- What is hashed, where nothing is raised. -/
def renderedBinding (ticketId patchName patchSha256 : Str) (changes : List PatchFileDelta) : Str :=
  (bindingPreimage F ticketId patchName patchSha256 changes).ascii .compact

end Binding

/-! ## §2 — The patch -/

/-- `PatchArtifact` -/
structure PatchArtifact where
  path : Str
  content : Bytes
  patchSha256 : Str
  changes : List PatchFileDelta

/-- A path that can be handed to the operating system: what is not UTF-8 in a file name stands in it as low surrogates. -/
def fsEncodable (path : Str) : Bool :=
  path.all fun c => c ≠ 0 && c < 0x110000 && (!(0xd800 ≤ c && c ≤ 0xdfff) || (0xdc80 ≤ c && c ≤ 0xdcff))

/-- What reading a patch raises: `UnicodeEncodeError` or `ValueError` of its path, and `PatchBindingError`. -/
inductive ArtifactFault
  | path
  | binding (error : PatchBindingError)
  deriving DecidableEq

/-- `load_patch_artifact`, where `disk` has the bytes of the files that can be read. -/
def loadPatchArtifact (decimal : Nat → Option (Fin 10)) (sha : Sha256) (disk : Str → Option Bytes) (path : Str) :
    Except ArtifactFault PatchArtifact :=
  if fsEncodable path then
    match disk path with
    | none => .error (.binding .unreadable)
    | some content =>
      match parsePatchChanges decimal content with
      | .error error => .error (.binding error)
      | .ok changes => .ok ⟨path, content, sha.hexdigest content, changes⟩
  else .error .path

theorem loadPatchArtifact_ok {decimal : Nat → Option (Fin 10)} {sha : Sha256} {disk : Str → Option Bytes} {path : Str}
    {artifact : PatchArtifact} (h : loadPatchArtifact decimal sha disk path = .ok artifact) :
    fsEncodable path = true ∧ artifact.path = path ∧ artifact.patchSha256 = sha.hexdigest artifact.content ∧
      parsePatchChanges decimal artifact.content = .ok artifact.changes := by
  unfold loadPatchArtifact at h
  split at h
  · next hpath =>
      split at h
      · cases h
      · split at h
        · cases h
        · next changes hchanges =>
            obtain rfl := Except.ok.inj h
            exact ⟨hpath, rfl, rfl, hchanges⟩
  · cases h

/-! ## §3 — The summary is read back -/

section Summary

variable {F : Type}

theorem storedPath_pathJson {path : Option Str} (h : ∀ p ∈ path, IsPatchPath p) :
    storedPath (some (pathJson F path)) = .ok path := by
  cases path with
  | none => rfl
  | some p => exact if_pos (h p rfl).relative

theorem countOf_int (n : Nat) : countOf (some (.int n : Json F)) = .ok n := by
  show (if 0 ≤ (n : Int) then Except.ok (n : Int).toNat else .error .record) = _
  rw [if_pos (Int.natCast_nonneg n), Int.toNat_natCast]

theorem changeFromJson_changeToJson {change : PatchFileDelta} (h : change.Sound) :
    changeFromJson (changeToJson F change) = .ok change := by
  have hkeys : (∀ m ∈ [(Str.of "deletions", Json.int (F := F) change.deletions),
      (Str.of "insertions", .int change.insertions), (Str.of "new_path", pathJson F change.newPath),
      (Str.of "old_path", pathJson F change.oldPath)],
        m.1 ∈ [Str.of "deletions", Str.of "insertions", Str.of "new_path", Str.of "old_path"]) := by
    simp
  have hpresent : ∀ k ∈ [Str.of "deletions", Str.of "insertions", Str.of "new_path", Str.of "old_path"],
      (Json.lookup k [(Str.of "deletions", Json.int (F := F) change.deletions),
        (Str.of "insertions", .int change.insertions), (Str.of "new_path", pathJson F change.newPath),
        (Str.of "old_path", pathJson F change.oldPath)]).isSome := by
    simp only [List.forall_mem_cons]
    exact ⟨rfl, rfl, rfl, rfl, fun _ hk => nomatch hk⟩
  rw [changeToJson, changeFromJson]
  rw [if_pos ⟨hkeys, hpresent⟩]
  refine bind_ok.mpr ⟨change.oldPath, storedPath_pathJson h.old, ?_⟩
  refine bind_ok.mpr ⟨change.newPath, storedPath_pathJson h.new, ?_⟩
  rw [if_neg h.named]
  refine bind_ok.mpr ⟨change.insertions, countOf_int change.insertions, ?_⟩
  exact bind_ok.mpr ⟨change.deletions, countOf_int change.deletions, rfl⟩

/-- **Round trip of the summary.** -/
theorem changesFromJson_changesToJson {changes : List PatchFileDelta} (hne : changes ≠ [])
    (h : ∀ change ∈ changes, change.Sound) : changesFromJson (some (changesToJson F changes)) = .ok changes := by
  have hitems : (changes.map (changeToJson F)).mapM changeFromJson = .ok changes := by
    refine mapM_ok.mpr (List.forall₂_map_left_iff.mpr (List.forall₂_same.mpr fun change hchange => ?_))
    exact changeFromJson_changeToJson (h change hchange)
  cases changes with
  | nil => exact absurd rfl hne
  | cons change changes => exact hitems

end Summary

/-! ## §4 — What is hashed -/

section Rendering

open JsonScan

variable {F : Type}

/-- A text that is read back from its escapes: a path, a name, whatever stands in a JSON file. -/
abbrev JoinedPaths (changes : List PatchFileDelta) : Prop :=
  ∀ change ∈ changes, (∀ path ∈ change.oldPath, Joined path) ∧ ∀ path ∈ change.newPath, Joined path

theorem PatchFileDelta.Sound.joined {changes : List PatchFileDelta} (h : ∀ change ∈ changes, change.Sound) :
    JoinedPaths changes := fun change hchange =>
  ⟨fun path hpath => joined_of_scalar ((h change hchange).old path hpath).scalar,
    fun path hpath => joined_of_scalar ((h change hchange).new path hpath).scalar⟩

theorem joinedValue_pathJson {path : Option Str} (h : ∀ p ∈ path, Joined p) : JoinedValue (pathJson F path) := by
  cases path with
  | none => exact fun s hs => nomatch hs
  | some p => exact joinedValue_str.mpr (h p rfl)

theorem joinedValue_int (n : Int) : JoinedValue (.int n : Json F) := fun _ hs => nomatch hs

theorem joinedValue_changesToJson {changes : List PatchFileDelta} (h : JoinedPaths changes) :
    JoinedValue (changesToJson F changes) := by
  refine joinedValue_arr.mpr (List.forall_mem_map.mpr fun change hchange => joinedValue_obj.mpr ?_)
  obtain ⟨hold, hnew⟩ := h change hchange
  refine joinedMembers_cons (by decide) (joinedValue_int _) ?_
  refine joinedMembers_cons (by decide) (joinedValue_int _) ?_
  refine joinedMembers_cons (by decide) (joinedValue_pathJson hnew) ?_
  exact joinedMembers_cons (by decide) (joinedValue_pathJson hold) joinedMembers_nil

theorem joinedValue_bindingPreimage {ticketId patchName patchSha256 : Str} {changes : List PatchFileDelta}
    (hticket : Joined ticketId) (hname : Joined patchName) (hsha : Joined patchSha256) (hchanges : JoinedPaths changes) :
    JoinedValue (bindingPreimage F ticketId patchName patchSha256 changes) := by
  refine joinedValue_obj.mpr ?_
  refine joinedMembers_cons (by decide) (joinedValue_int 2) ?_
  refine joinedMembers_cons (by decide) (joinedValue_changesToJson hchanges) ?_
  refine joinedMembers_text (by decide) (joined_ascii (by decide)) ?_
  refine joinedMembers_text (by decide) hname ?_
  refine joinedMembers_text (by decide) hsha ?_
  exact joinedMembers_text (by decide) hticket joinedMembers_nil

theorem pathJson_injective : Function.Injective (pathJson F) := by
  intro path path' h
  cases path <;> cases path'
  · rfl
  · cases h
  · cases h
  · exact congrArg some (Json.str.inj h)

theorem changeToJson_injective : Function.Injective (changeToJson F) := by
  intro change change' h
  simp only [changeToJson, Json.obj.injEq, List.cons.injEq, Prod.mk.injEq, true_and, and_true, Json.int.injEq,
    Int.natCast_inj] at h
  obtain ⟨hdeletions, hinsertions, hnew, hold⟩ := h
  cases change
  cases change'
  exact PatchFileDelta.mk.injEq .. ▸ ⟨pathJson_injective hold, pathJson_injective hnew, hinsertions, hdeletions⟩

theorem bindingPreimage_injective {t n d t' n' d' : Str} {c c' : List PatchFileDelta}
    (h : bindingPreimage F t n d c = bindingPreimage F t' n' d' c') : t = t' ∧ n = n' ∧ d = d' ∧ c = c' := by
  simp only [bindingPreimage, changesToJson, Json.obj.injEq, List.cons.injEq, Prod.mk.injEq, true_and, and_true,
    Json.arr.injEq, Json.str.injEq] at h
  obtain ⟨hchanges, hname, hsha, hticket⟩ := h
  exact ⟨hticket, hname, hsha, changeToJson_injective.list_map hchanges⟩

theorem sortKeys_bindingPreimage (t n d : Str) (c : List PatchFileDelta) :
    (bindingPreimage F t n d c).sortKeys = bindingPreimage F t n d c := by
  have hpath : ∀ path, (pathJson F path).sortKeys = pathJson F path := by
    intro path
    cases path <;> rfl
  have hchange : ∀ change, (changeToJson F change).sortKeys = changeToJson F change := by
    intro change
    simp only [changeToJson, Json.sortKeys, Json.sortMembers, hpath]
    rfl
  have hitems : ∀ items : List PatchFileDelta, Json.sortItems (items.map (changeToJson F)) = items.map (changeToJson F) := by
    intro items
    induction items with
    | nil => rfl
    | cons change items ih => rw [List.map_cons, Json.sortItems, hchange, ih]
  simp only [bindingPreimage, changesToJson, Json.sortKeys, Json.sortMembers, hitems]
  rfl

variable [PyFloat F] {L : Limits} {sha : Sha256}

/-- **What the hash is made of**: the digest of the rendering. -/
theorem contentActionHash_eq {t n d hash : Str} {c : List PatchFileDelta} (ht : Joined t) (hn : Joined n) (hd : Joined d)
    (hc : JoinedPaths c) (h : contentActionHash F L sha t n d c = .ok hash) :
    hash = Str.of "sha256:" ++ sha.hexdigest (renderedBinding F t n d c) := by
  unfold contentActionHash at h
  rw [sortKeys_bindingPreimage] at h
  split at h
  · cases h
  · next encoded hencoded =>
      obtain ⟨-, rfl⟩ := Json.asciiWithin_ok.mp hencoded
      have hutf8 : utf8 (renderedBinding F t n d c) = some (renderedBinding F t n d c) :=
        utf8_ascii fun k hk => lt_trans
          (Json.printable_ascii (joinedValue_bindingPreimage ht hn hd hc) k hk).2 (by decide)
      unfold renderedBinding at hutf8 ⊢
      rw [hutf8] at h
      exact (Except.ok.inj h).symm

theorem renderedBinding_injective {t n d t' n' d' : Str} {c c' : List PatchFileDelta} (ht : Joined t) (hn : Joined n)
    (hd : Joined d) (hc : JoinedPaths c) (ht' : Joined t') (hn' : Joined n') (hd' : Joined d') (hc' : JoinedPaths c')
    (h : renderedBinding F t n d c = renderedBinding F t' n' d' c') : t = t' ∧ n = n' ∧ d = d' ∧ c = c' :=
  bindingPreimage_injective
    (Json.ascii_injective (joinedValue_bindingPreimage ht hn hd hc) (joinedValue_bindingPreimage ht' hn' hd' hc') h)

end Rendering

end Autophagy.Repair
