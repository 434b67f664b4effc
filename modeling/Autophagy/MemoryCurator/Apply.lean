/-
# Autophagy.MemoryCurator.Apply — a curation on disk keeps every fact once, and a second one changes nothing.

`apply.py`: the file is read (a missing one as empty), curated, and where that changes its text the old text is copied
to a backup and the new one replaces the file. `curation_lossless` says what is left: of the entries that were read
those no earlier one has the normal form of, as they were and in their order; and a file that was curated is left alone.
The files are texts, as `read_text` and `write_text` take them: reading maps line ends to newlines.
-/
import Autophagy.MemoryCurator.Curator

namespace Autophagy.MemoryCurator

open Autophagy.Python

/-! ## §1 — The disk -/

/-- The files as texts; none where there is no file. -/
abbrev Disk := Str → Option Str

/-- `_FILENAMES` -/
def MemoryKind.filename : MemoryKind → Str
  | .memory => "MEMORY.md"
  | .user => "USER.md"

/-- `memory_path` -/
def memoryPath (memoryDir : Str) (kind : MemoryKind) : Str := memoryDir ++ 0x2f :: kind.filename

/-- `path.read_text()`, and the empty text where there is no file. -/
def readMemory (disk : Disk) (path : Str) : Str :=
  match disk path with
  | some content => universalNewlines content
  | none => []

/-- `path.write_text(text)` -/
def writeText (path text : Str) (disk : Disk) : Disk := Function.update disk path (some text)

/-- `source.replace(target)` -/
def replaceFile (source target : Str) (disk : Disk) : Disk :=
  Function.update (Function.update disk target (disk source)) source none

/-- `CurationResult` -/
structure CurationResult where
  kind : MemoryKind
  plan : CurationPlan
  changed : Bool
  appliedPath : Str
  backupPath : Option Str

/-- `apply_curation`; `stamp` is the time as it stands in the backup's name. -/
def applyCuration (casefold : Str → Str) (memoryDir : Str) (kind : MemoryKind) (dryRun : Bool) (stamp : Str)
    (disk : Disk) : Disk × CurationResult :=
  let path := memoryPath memoryDir kind
  let original := readMemory disk path
  let plan := curate casefold (parseMemoryFile kind original)
  let canonical := serializeMemoryFile plan.compacted
  let changed := canonical ≠ original
  if dryRun ∨ ¬ changed then (disk, ⟨kind, plan, changed, path, none⟩)
  else
    let backup := path ++ Str.of ".bak-" ++ stamp
    let tmp := path ++ Str.of ".curator-tmp"
    (replaceFile tmp path (writeText tmp canonical (writeText backup original disk)),
      ⟨kind, plan, changed, path, some backup⟩)

/-! ## §2 — What is kept -/

/-- The items of a list before which none has the same key. -/
def firsts {α : Type} {κ : Type} [DecidableEq κ] (key : α → κ) (items : List α) : List α :=
  (items.zipIdx.filter fun item => (items.take item.2).all fun earlier => key earlier ≠ key item.1).map Prod.fst

theorem mem_firsts {α κ : Type} [DecidableEq κ] {key : α → κ} {items : List α} {x : α} :
    x ∈ firsts key items ↔ ∃ before after, items = before ++ x :: after ∧ ∀ earlier ∈ before, key earlier ≠ key x := by
  rw [firsts, List.mem_map]
  constructor
  · rintro ⟨⟨y, i⟩, hmem, rfl⟩
    obtain ⟨hmem, hfirst⟩ := List.mem_filter.mp hmem
    have hget : items[i]? = some y := by simpa [List.mem_zipIdx_iff_getElem?] using hmem
    obtain ⟨hi, rfl⟩ := List.getElem?_eq_some_iff.mp hget
    refine ⟨items.take i, items.drop (i + 1), ?_, by simpa using hfirst⟩
    rw [← List.drop_eq_getElem_cons hi, List.take_append_drop]
  · rintro ⟨before, after, rfl, hfirst⟩
    refine ⟨(x, before.length), List.mem_filter.mpr ⟨?_, ?_⟩, rfl⟩
    · simp [List.mem_zipIdx_iff_getElem?]
    · simpa using hfirst

theorem exists_first {α κ : Type} [DecidableEq κ] {key : α → κ} {items : List α} {x : α} (hx : x ∈ items) :
    ∃ y ∈ firsts key items, key y = key x := by
  have hsome : (items.find? fun y => key y = key x).isSome = true := List.find?_isSome.mpr ⟨x, hx, by simp⟩
  obtain ⟨y, hy⟩ := Option.isSome_iff_exists.mp hsome
  obtain ⟨hkey, before, after, hitems, hbefore⟩ := List.find?_eq_some_iff_append.mp hy
  have hkey : key y = key x := by simpa using hkey
  refine ⟨y, mem_firsts.mpr ⟨before, after, hitems, fun earlier hearlier => ?_⟩, hkey⟩
  rw [hkey]
  simpa using hbefore earlier hearlier

section Keep

variable {casefold : Str → Str}

theorem keep_eq {seen : List Str} {before : List MemoryEntry}
    (hseen : ∀ key, key ∈ seen ↔ ∃ entry ∈ before, normalize casefold entry.text = key) (rest : List MemoryEntry) :
    keep casefold seen rest = ((rest.zipIdx before.length).filter fun item =>
      ((before ++ rest).take item.2).all fun earlier =>
        normalize casefold earlier.text ≠ normalize casefold item.1.text).map Prod.fst := by
  induction rest generalizing seen before with
  | nil => rfl
  | cons entry rest ih =>
    have hnew : (normalize casefold entry.text ∈ seen) ↔
        ¬ ∀ earlier ∈ before, normalize casefold earlier.text ≠ normalize casefold entry.text := by
      rw [hseen]
      push Not
      rfl
    have hnext : before ++ entry :: rest = (before ++ [entry]) ++ rest := by simp
    have hlength : before.length + 1 = (before ++ [entry]).length := by simp
    rw [keep, List.zipIdx_cons, List.filter_cons]
    simp only [List.take_left]
    by_cases hmem : normalize casefold entry.text ∈ seen
    · rw [if_pos hmem, if_neg (by simpa using hnew.mp hmem), hnext, hlength]
      apply ih
      intro key
      rw [hseen]
      constructor
      · rintro ⟨e, he, rfl⟩
        exact ⟨e, List.mem_append_left _ he, rfl⟩
      · rintro ⟨e, he, rfl⟩
        rcases List.mem_append.mp he with he | he
        · exact ⟨e, he, rfl⟩
        · rw [List.mem_singleton.mp he]
          exact (hseen _).mp hmem
    · rw [if_neg hmem, if_pos (by simpa using not_not.mp (mt hnew.mpr hmem)), List.map_cons, hnext, hlength]
      refine congrArg _ (ih fun key => ?_)
      rw [List.mem_cons, hseen]
      constructor
      · rintro (rfl | ⟨e, he, rfl⟩)
        · exact ⟨entry, by simp, rfl⟩
        · exact ⟨e, List.mem_append_left _ he, rfl⟩
      · rintro ⟨e, he, rfl⟩
        rcases List.mem_append.mp he with he | he
        · exact .inr ⟨e, he, rfl⟩
        · rw [List.mem_singleton.mp he]
          exact .inl rfl

/-- **Compaction keeps the first entries of their normal forms.** -/
theorem keep_firsts (casefold : Str → Str) (entries : List MemoryEntry) :
    keep casefold [] entries = firsts (fun entry => normalize casefold entry.text) entries := by
  have hnone : ∀ key, key ∈ ([] : List Str) ↔ ∃ entry ∈ ([] : List MemoryEntry), normalize casefold entry.text = key := by
    simp
  exact keep_eq hnone entries

theorem keep_keep (casefold : Str → Str) (seen : List Str) (entries : List MemoryEntry) :
    keep casefold seen (keep casefold seen entries) = keep casefold seen entries := by
  induction entries generalizing seen with
  | nil => rfl
  | cons entry entries ih =>
    simp only [keep]
    split
    · exact ih seen
    · next hnew =>
        simp only [keep]
        rw [if_neg hnew, ih]

theorem mem_of_mem_keep {seen : List Str} {entries : List MemoryEntry} {entry : MemoryEntry}
    (h : entry ∈ keep casefold seen entries) : entry ∈ entries := by
  induction entries generalizing seen with
  | nil => exact h
  | cons head entries ih =>
    simp only [keep] at h
    split at h
    · exact List.mem_cons_of_mem _ (ih h)
    · rcases List.mem_cons.mp h with rfl | h
      · exact List.mem_cons_self
      · exact List.mem_cons_of_mem _ (ih h)

end Keep

/-! ## §3 — What a curation leaves on disk -/

section Curation

variable {casefold : Str → Str} {memoryDir : Str} {kind : MemoryKind} {disk : Disk}

/-- The file as a curation writes it. -/
def canonicalFile (casefold : Str → Str) (kind : MemoryKind) (original : Str) : MemoryFile :=
  (curate casefold (parseMemoryFile kind original)).compacted

theorem isEntry_canonicalFile {original : Str} {entry : MemoryEntry}
    (h : entry ∈ (canonicalFile casefold kind original).entries) : IsEntry entry.text :=
  isEntry_of_mem_parse (mem_of_mem_keep h)

theorem path_ne {path suffix : Str} (h : suffix ≠ []) : path ≠ path ++ suffix := by
  intro heq
  exact h (List.append_cancel_left ((List.append_nil path).trans heq)).symm

/-- **Behind a curation the file reads as it is written**, whether it was changed or not. -/
theorem readMemory_applyCuration (casefold : Str → Str) (memoryDir : Str) (kind : MemoryKind) (stamp : Str)
    (disk : Disk) : readMemory (applyCuration casefold memoryDir kind false stamp disk).1 (memoryPath memoryDir kind) =
      serializeMemoryFile (canonicalFile casefold kind (readMemory disk (memoryPath memoryDir kind))) := by
  simp only [applyCuration]
  split
  · next hsame =>
      rcases hsame with hdry | hsame
      · cases hdry
      · exact (not_not.mp hsame).symm
  · have htmp : memoryPath memoryDir kind ≠ memoryPath memoryDir kind ++ Str.of ".curator-tmp" :=
      path_ne (by decide)
    simp only [replaceFile, writeText, readMemory, Function.update_self, Function.update_of_ne htmp]
    exact universalNewlines_serialize fun _ => isEntry_canonicalFile

theorem parse_canonicalFile (casefold : Str → Str) (kind : MemoryKind) (original : Str) :
    parseMemoryFile kind (serializeMemoryFile (canonicalFile casefold kind original)) =
      canonicalFile casefold kind original :=
  parse_serialize fun _ => isEntry_canonicalFile

theorem canonicalFile_idem (casefold : Str → Str) (kind : MemoryKind) (original : Str) :
    canonicalFile casefold kind (serializeMemoryFile (canonicalFile casefold kind original)) =
      canonicalFile casefold kind original := by
  unfold canonicalFile
  rw [show parseMemoryFile kind (serializeMemoryFile (curate casefold (parseMemoryFile kind original)).compacted) =
    (curate casefold (parseMemoryFile kind original)).compacted from parse_canonicalFile casefold kind original]
  exact congrArg (MemoryFile.mk kind) (keep_keep casefold [] _)

/-- **Compaction is lossless and idempotent.** Behind a curation the file is parsed as the first of its entries for
each normal form, in their order and as they were; each normal form is still there; and the next curation, dry or not,
reports no change and makes none. -/
theorem curation_lossless (casefold : Str → Str) (memoryDir : Str) (kind : MemoryKind) (stamp : Str) (disk : Disk) :
    let path := memoryPath memoryDir kind
    let entries := (parseMemoryFile kind (readMemory disk path)).entries
    let disk' := (applyCuration casefold memoryDir kind false stamp disk).1
    let kept := (parseMemoryFile kind (readMemory disk' path)).entries
    kept = firsts (fun entry => normalize casefold entry.text) entries ∧
      (∀ entry ∈ entries, ∃ entry' ∈ kept, normalize casefold entry'.text = normalize casefold entry.text) ∧
      ∀ dryRun stamp', (applyCuration casefold memoryDir kind dryRun stamp' disk').2.changed = false ∧
        (applyCuration casefold memoryDir kind dryRun stamp' disk').1 = disk' := by
  intro path entries disk' kept
  have hread : readMemory disk' path = serializeMemoryFile (canonicalFile casefold kind (readMemory disk path)) :=
    readMemory_applyCuration casefold memoryDir kind stamp disk
  have hkept : kept = firsts (fun entry => normalize casefold entry.text) entries := by
    show (parseMemoryFile kind (readMemory disk' path)).entries = _
    rw [hread, parse_canonicalFile]
    exact keep_firsts casefold entries
  refine ⟨hkept, fun entry hentry => ?_, fun dryRun stamp' => ?_⟩
  · rw [hkept]
    exact exists_first hentry
  · have hsame : serializeMemoryFile (canonicalFile casefold kind (readMemory disk' path)) = readMemory disk' path := by
      rw [hread, canonicalFile_idem]
    have hunchanged : ¬ serializeMemoryFile (curate casefold (parseMemoryFile kind
        (readMemory disk' (memoryPath memoryDir kind)))).compacted ≠ readMemory disk' (memoryPath memoryDir kind) :=
      not_not.mpr hsame
    simp only [applyCuration]
    rw [if_pos (.inr hunchanged)]
    exact ⟨decide_eq_false hunchanged, rfl⟩

end Curation

end Autophagy.MemoryCurator
