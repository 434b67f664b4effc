/-
# Autophagy.DriveArchive.Digest — the upload digest fits its message and accounts for every file.

The digest shows up to twelve files as a list of paths, cut where the message is full, and more of them as a table of
classes. The list makes room for its `…` line before it knows whether it needs one, with the number the line would
have if it stopped there; as that number only shrinks, so does the room it takes (`pathsBody_fits`).

A Python sequence has fewer than `2 ^ 63` elements, and an action hash is `sha256:` with sixty-four digits: both are
part of what a request is.
-/
import Autophagy.DriveArchive.Uploader
import Mathlib.Data.Finset.Basic
import Mathlib.Data.Nat.Digits.Lemmas

namespace Autophagy.DriveArchive

open Autophagy.Python

/-! ## §1 — The request -/

/-- What `compute_action_hash` answers. -/
structure ActionHash where
  text : Str
  length_eq : text.length = 71

/-- `DigestRequest` -/
structure DigestRequest where
  manifest : BatchManifest
  actionHash : ActionHash
  rootName : Str
  tracked : Finset Str
  files_lt : manifest.files.length < 2 ^ 63

/-! ## §2 — The text -/

/-- `"\n".join` -/
def joinDigest (lines : List Str) : Str := List.intercalate [0x0a] lines

/-- `_label` -/
def label (value : Str) : Str := if value.length ≤ 80 then value else value.take 79 ++ Str.of "…"

/-- `classify` -/
def classify (path : Str) : Str := (route path).1

/-- `ARCHIVE_CLASSES` -/
def archiveClasses : List Str :=
  [Str.of "plans", Str.of "notepads", Str.of "features", Str.of "qa", Str.of "patch", Str.of "misc"]

/-- `counts[name] += 1` -/
def bump (counts : List (Str × Nat)) (name : Str) : List (Str × Nat) :=
  counts.map fun item => if item.1 = name then (item.1, item.2 + 1) else item

/-- More files first, then the order of the classes. -/
def moreFirst (a b : Str × Nat) : Prop :=
  b.2 < a.2 ∨ a.2 = b.2 ∧ archiveClasses.idxOf a.1 ≤ archiveClasses.idxOf b.1

instance : DecidableRel moreFirst := fun _ _ => inferInstanceAs (Decidable (_ ∨ _))

/-- `_class_counts` -/
def classCounts (entries : List FileEntry) : List (Str × Nat) :=
  let counts := entries.foldl (fun counts e => bump counts (classify e.path)) (archiveClasses.map (·, 0))
  (counts.filter fun item => item.2 ≠ 0).insertionSort moreFirst

def pathLine (e : FileEntry) : Str :=
  Str.of "- \x60" ++ e.path ++ Str.of "\x60 → \x60" ++ classify e.path ++ Str.of "/\x60  (" ++ e.sha256.take 12 ++
    Str.of ")"

def overflowLine (n : Nat) : Str := Str.of "- …외 " ++ natText n ++ Str.of "건"

/-- The loop of `_paths_body`. -/
def pathsLoop (total : Nat) (budget : Int) : List FileEntry → List Str → Nat → List Str
  | [], body, _ => body
  | e :: rest, body, used =>
    let line := pathLine e
    let overflow := 0x0a :: overflowLine (total - body.length)
    if budget < used + line.length + 1 + overflow.length then body
    else pathsLoop total budget rest (body ++ [line]) (used + line.length + 1)

/-- `_paths_body` -/
def pathsBody (entries : List FileEntry) (budget : Int) : List Str :=
  let body := pathsLoop entries.length budget entries [] 0
  if body.length < entries.length then body ++ [overflowLine (entries.length - body.length)] else body

def classLine (item : Str × Nat) : Str := Str.of "- \x60" ++ item.1 ++ Str.of "/\x60 " ++ natText item.2 ++ Str.of "건"

/-- `_classes_body` -/
def classesBody (entries : List FileEntry) : List Str :=
  Str.of "분류별 집계" :: (classCounts entries).map classLine ++
    [[], Str.of "전체 목록: \x60" ++ Str.of "python3 -m automation.drive_archive.sync_cli plan" ++ Str.of "\x60"]

/-- Files in the order of their paths. -/
def byPath (a b : FileEntry) : Prop := a.path ≤ b.path

instance : DecidableRel byPath := fun a b => inferInstanceAs (Decidable (a.path ≤ b.path))

namespace DigestRequest

variable (r : DigestRequest)

def ordered : List FileEntry := r.manifest.files.insertionSort byPath

def added : Nat := r.ordered.countP fun e => e.path ∉ r.tracked

def updated : Nat := r.ordered.length - r.added

def header : List Str :=
  [Str.of "📥 Drive 아카이브 동기화 요청 — 프로젝트 \x60" ++ label r.manifest.project ++ Str.of "\x60",
    Str.of "대상 파일 " ++ natText r.ordered.length ++ Str.of "건 · 신규 " ++ natText r.added ++ Str.of " · 변경 " ++
      natText r.updated ++ Str.of " · action_hash \x60" ++ r.actionHash.text ++ Str.of "\x60",
    Str.of "대상 폴더 \x60" ++ label r.rootName ++ Str.of "\x60 (내 Drive · 분류별 하위폴더 자동 생성)",
    []]

/-- The `reaction_instruction` names no surface. -/
def footer : List Str :=
  [[], Str.of "이 메시지에 ✅ 실행 / ⛔ 취소" ++ Str.of "  (✅ = " ++ natText r.ordered.length ++
    Str.of "건 전체 업로드 · hash \x60" ++ r.actionHash.text ++ Str.of "\x60)"]

def budget : Int := 1900 - (joinDigest (r.header ++ r.footer)).length

def body : List Str := if r.ordered.length ≤ 12 then pathsBody r.ordered r.budget else classesBody r.ordered

/-- `render` -/
def render : Str := joinDigest (r.header ++ r.body ++ r.footer)

end DigestRequest

/-! ## §3 — The property -/

/-- The paths that are listed, and a line with the number of the others. -/
def PathsListed (files : List FileEntry) (body : List Str) : Prop :=
  ∃ shown more, files.Perm (shown ++ more) ∧
    body = shown.map pathLine ++ if more = [] then [] else [overflowLine more.length]

/-- The classes that have files, each once and with its number of files; together these are all files. -/
def ClassesCounted (files : List FileEntry) (body : List Str) : Prop :=
  ∃ counts : List (Str × Nat), (counts.map Prod.fst).Nodup ∧ (counts.map Prod.snd).sum = files.length ∧
    (∀ item ∈ counts, item.2 = files.countP fun e => classify e.path = item.1) ∧
    ∃ pointer, body = Str.of "분류별 집계" :: counts.map classLine ++ [[], pointer]

/-- **The property.** -/
structure Accounts (r : DigestRequest) (text : Str) : Prop where
  fits : text.length ≤ 1900
  hash : r.actionHash.text <:+: text
  body : ∃ body, text = joinDigest (r.header ++ body ++ r.footer) ∧
    (PathsListed r.manifest.files body ∨ ClassesCounted r.manifest.files body)
  added : r.added = r.manifest.files.countP fun e => e.path ∉ r.tracked
  split : r.added + r.updated = r.manifest.files.length

/-! ## §4 — Lengths -/

/-- The room that lines take, each with a line end. -/
def room (lines : List Str) : Nat := (lines.map fun line => line.length + 1).sum

@[simp] theorem room_nil : room [] = 0 := rfl

@[simp] theorem room_cons (line : Str) (lines : List Str) : room (line :: lines) = line.length + 1 + room lines := rfl

@[simp] theorem room_append (lines more : List Str) : room (lines ++ more) = room lines + room more := by
  rw [room, List.map_append, List.sum_append]
  rfl

theorem length_joinDigest {lines : List Str} (h : lines ≠ []) : (joinDigest lines).length + 1 = room lines := by
  induction lines with
  | nil => exact absurd rfl h
  | cons line rest ih =>
    cases rest with
    | nil =>
      rw [joinDigest, List.intercalate_singleton]
      rfl
    | cons next rest =>
      have ih := ih (List.cons_ne_nil _ _)
      rw [joinDigest] at ih
      rw [joinDigest, List.intercalate_cons_cons, room_cons, ← ih, List.length_append, List.length_append,
        List.length_singleton]
      omega

theorem length_natText_le {n k : Nat} (hk : 0 < k) (h : n < 10 ^ k) : (natText n).length ≤ k := by
  rw [natText]
  split
  · exact hk
  · rw [List.length_map, List.length_reverse]
    exact (Nat.digits_length_le_iff (by decide) n).mpr h

theorem length_natText_mono {n m : Nat} (h : n ≤ m) : (natText n).length ≤ (natText m).length := by
  rcases Nat.eq_zero_or_pos n with rfl | hpos
  · exact List.length_pos_of_ne_nil fun hnil => by
      rw [natText] at hnil
      split at hnil
      · cases hnil
      · rename_i hm
        rw [List.map_eq_nil_iff, List.reverse_eq_nil_iff, Nat.digits_eq_nil_iff_eq_zero] at hnil
        exact hm hnil
  · rw [natText, natText, if_neg (by omega), if_neg (by omega)]
    rw [List.length_map, List.length_map, List.length_reverse, List.length_reverse]
    exact Nat.le_length_digits_le 10 n m h

theorem length_natText_lt {n : Nat} (h : n < 2 ^ 63) : (natText n).length ≤ 19 :=
  length_natText_le (by decide) (h.trans (by decide))

theorem length_label (value : Str) : (label value).length ≤ 80 := by
  rw [label]
  split
  · assumption
  · rw [List.length_append, List.length_take]
    have : (Str.of "…").length = 1 := rfl
    omega

theorem length_overflowLine (n : Nat) : (overflowLine n).length = (natText n).length + 6 := by
  rw [overflowLine, List.length_append, List.length_append]
  have hbefore : (Str.of "- …외 ").length = 5 := rfl
  have hafter : (Str.of "건").length = 1 := rfl
  omega

/-! ## §5 — The list of paths -/

/-- The room of the `…` line with the number `n`. -/
def overflowRoom (n : Nat) : Nat := (0x0a :: overflowLine n).length

theorem overflowRoom_mono {n m : Nat} (h : n ≤ m) : overflowRoom n ≤ overflowRoom m := by
  have := length_natText_mono h
  rw [overflowRoom, overflowRoom, List.length_cons, List.length_cons, length_overflowLine, length_overflowLine]
  omega

theorem pathsLoop_spec {total : Nat} {budget : Int} (entries : List FileEntry) (body : List Str)
    (htotal : body.length + entries.length = total) (hroom : (room body + overflowRoom entries.length : Int) ≤ budget) :
    ∃ shown more, entries = shown ++ more ∧ pathsLoop total budget entries body (room body) =
        body ++ shown.map pathLine ∧
      (room (body ++ shown.map pathLine) + (if more = [] then 0 else overflowRoom more.length) : Int) ≤ budget := by
  induction entries generalizing body with
  | nil =>
    refine ⟨[], [], rfl, (List.append_nil body).symm, ?_⟩
    rw [List.map_nil, List.append_nil, if_pos rfl]
    omega
  | cons e rest ih =>
    have hleft : total - body.length = (e :: rest).length := by omega
    rw [pathsLoop, hleft]
    split
    · refine ⟨[], e :: rest, rfl, (List.append_nil body).symm, ?_⟩
      rw [List.map_nil, List.append_nil, if_neg (List.cons_ne_nil _ _)]
      exact hroom
    · rename_i hfits
      have hmono : overflowRoom rest.length ≤ overflowRoom (e :: rest).length :=
        overflowRoom_mono (Nat.le_succ _)
      have hused : room (body ++ [pathLine e]) = room body + (pathLine e).length + 1 := by
        rw [room_append, room_cons, room_nil]
        omega
      have hnext : (room (body ++ [pathLine e]) + overflowRoom rest.length : Int) ≤ budget := by
        have : overflowRoom (e :: rest).length = (0x0a :: overflowLine (e :: rest).length).length := rfl
        omega
      rw [List.length_cons] at htotal
      obtain ⟨shown, more, hrest, hloop, hafter⟩ := ih (body ++ [pathLine e])
        (by rw [List.length_append, List.length_singleton]; omega) hnext
      refine ⟨e :: shown, more, by rw [hrest]; rfl, ?_, ?_⟩
      · rw [← hused, hloop, List.append_assoc]
        rfl
      · rw [List.append_assoc] at hafter
        exact hafter

theorem pathsBody_fits {entries : List FileEntry} {budget : Int} (h : (overflowRoom entries.length : Int) ≤ budget) :
    ∃ shown more, entries = shown ++ more ∧ (room (pathsBody entries budget) : Int) ≤ budget ∧
      pathsBody entries budget = shown.map pathLine ++ if more = [] then [] else [overflowLine more.length] := by
  have hstart : (room [] + overflowRoom entries.length : Int) ≤ budget := by
    rw [room_nil]
    omega
  obtain ⟨shown, more, hentries, hloop, hroom⟩ :=
    pathsLoop_spec entries [] (Nat.zero_add _) hstart
  have hbody : pathsBody entries budget =
      shown.map pathLine ++ if more = [] then [] else [overflowLine more.length] := by
    rw [pathsBody, ← room_nil, hloop, List.nil_append, List.length_map, hentries, List.length_append]
    by_cases hmore : more = []
    · rw [hmore, if_neg (by rw [List.length_nil]; omega), if_pos rfl, List.append_nil]
    · have hpos := List.length_pos_of_ne_nil hmore
      rw [if_pos (by omega), if_neg hmore, Nat.add_sub_cancel_left]
  refine ⟨shown, more, hentries, ?_, hbody⟩
  rw [hbody, room_append]
  rw [List.nil_append] at hroom
  split
  · rename_i hmore
    rw [if_pos hmore] at hroom
    rw [room_nil]
    omega
  · rename_i hmore
    rw [if_neg hmore] at hroom
    have : overflowRoom more.length = (0x0a :: overflowLine more.length).length := rfl
    rw [List.length_cons] at this
    rw [room_cons, room_nil]
    omega

/-! ## §6 — The classes -/

theorem classify_mem (path : Str) : classify path ∈ archiveClasses := by
  have hknown : ∀ name ∈ archiveClasses, ∀ folders : List Str, (name, folders).1 ∈ archiveClasses :=
    fun name h _ => h
  rw [classify, route]
  split
  · exact hknown _ (by decide) _
  split
  · exact hknown _ (by decide) _
  split
  · exact hknown _ (by decide) _
  split
  · exact hknown _ (by decide) _
  split
  · exact hknown _ (by decide) _
  · exact hknown _ (by decide) _

theorem foldl_bump (names : List Str) (entries : List FileEntry) (count : Str → Nat) :
    entries.foldl (fun counts e => bump counts (classify e.path)) (names.map fun name => (name, count name)) =
      names.map fun name => (name, count name + entries.countP fun e => classify e.path = name) := by
  induction entries generalizing count with
  | nil => rfl
  | cons e rest ih =>
    have hbump : bump (names.map fun name => (name, count name)) (classify e.path) =
        names.map fun name => (name, count name + if classify e.path = name then 1 else 0) := by
      rw [bump, List.map_map]
      refine List.map_congr_left fun name _ => ?_
      show (if name = classify e.path then (name, count name + 1) else (name, count name)) = _
      by_cases h : classify e.path = name
      · rw [if_pos h, if_pos h.symm]
      · rw [if_neg h, if_neg fun h' => h h'.symm, Nat.add_zero]
    rw [List.foldl_cons, hbump, ih]
    refine List.map_congr_left fun name _ => ?_
    rw [List.countP_cons, Nat.add_assoc, Nat.add_comm (List.countP _ rest)]
    by_cases h : classify e.path = name
    · rw [if_pos h, if_pos (decide_eq_true h)]
    · rw [if_neg h, if_neg (by simpa using h)]

theorem sum_filter_ne_zero (counts : List (Str × Nat)) :
    ((counts.filter fun item => item.2 ≠ 0).map Prod.snd).sum = (counts.map Prod.snd).sum := by
  induction counts with
  | nil => rfl
  | cons item rest ih =>
    by_cases h : item.2 = 0
    · rw [List.filter_cons_of_neg (by simpa using h), ih, List.map_cons, List.sum_cons, h, Nat.zero_add]
    · rw [List.filter_cons_of_pos (by simpa using h), List.map_cons, List.sum_cons, ih, List.map_cons, List.sum_cons]

theorem sum_indicator : ∀ name ∈ archiveClasses, (archiveClasses.map fun c => if name = c then 1 else 0).sum = 1 := by
  decide +kernel

theorem sum_countP (entries : List FileEntry) :
    (archiveClasses.map fun name => entries.countP fun e => classify e.path = name).sum = entries.length := by
  induction entries with
  | nil => rfl
  | cons e rest ih =>
    have hcons : (fun name => (e :: rest).countP fun e => classify e.path = name) = fun name =>
        (rest.countP fun e => classify e.path = name) + if classify e.path = name then 1 else 0 := by
      funext name
      rw [List.countP_cons]
      by_cases h : classify e.path = name
      · rw [if_pos h, if_pos (decide_eq_true h)]
      · rw [if_neg h, if_neg (by simpa using h)]
    rw [hcons, List.sum_map_add, ih, sum_indicator _ (classify_mem _), List.length_cons]

theorem classCounts_perm (entries : List FileEntry) : (classCounts entries).Perm
    ((archiveClasses.map fun name => (name, entries.countP fun e => classify e.path = name)).filter
      fun item => item.2 ≠ 0) := by
  refine (List.perm_insertionSort moreFirst _).trans ?_
  have hloop := foldl_bump archiveClasses entries fun _ => 0
  simp only [Nat.zero_add] at hloop
  rw [hloop]

theorem classesBody_counted (entries : List FileEntry) : ClassesCounted entries (classesBody entries) := by
  have hperm := classCounts_perm entries
  refine ⟨classCounts entries, ?_, ?_, fun item hitem => ?_, _, rfl⟩
  · refine (hperm.map Prod.fst).nodup_iff.mpr ?_
    refine List.Nodup.sublist (List.filter_sublist.map Prod.fst) ?_
    rw [List.map_map]
    show (archiveClasses.map id).Nodup
    rw [List.map_id]
    decide +kernel
  · rw [(hperm.map Prod.snd).sum_eq, sum_filter_ne_zero, List.map_map]
    exact sum_countP entries
  · obtain ⟨hitem, -⟩ := List.mem_filter.mp (hperm.subset hitem)
    obtain ⟨name, -, rfl⟩ := List.mem_map.mp hitem
    rfl

theorem room_le {lines : List Str} {k : Nat} (h : ∀ line ∈ lines, line.length ≤ k) :
    room lines ≤ lines.length * (k + 1) := by
  induction lines with
  | nil => exact Nat.zero_le _
  | cons line rest ih =>
    have hline := h line (List.mem_cons_self ..)
    have hrest := ih fun other hother => h other (List.mem_cons_of_mem _ hother)
    rw [room_cons, List.length_cons, Nat.succ_mul]
    omega

theorem room_classesBody {entries : List FileEntry} (h : entries.length < 2 ^ 63) : room (classesBody entries) ≤ 300 := by
  have hperm := classCounts_perm entries
  have hlength : (classCounts entries).length ≤ 6 := by
    rw [hperm.length_eq]
    exact (List.length_filter_le _ _).trans (le_of_eq (List.length_map _))
  have hline : ∀ line ∈ (classCounts entries).map classLine, line.length ≤ 35 := by
    intro line hline
    obtain ⟨item, hitem, rfl⟩ := List.mem_map.mp hline
    obtain ⟨hitem, -⟩ := List.mem_filter.mp (hperm.subset hitem)
    obtain ⟨name, hname, rfl⟩ := List.mem_map.mp hitem
    have hlong : ∀ name ∈ archiveClasses, name.length ≤ 9 := by decide
    have hname := hlong name hname
    have hcount : entries.countP (fun e => classify e.path = name) < 2 ^ 63 := List.countP_le_length.trans_lt h
    have hdigits := length_natText_lt hcount
    have h₁ : (Str.of "- \x60").length = 3 := rfl
    have h₂ : (Str.of "/\x60 ").length = 3 := rfl
    have h₃ : (Str.of "건").length = 1 := rfl
    rw [classLine, List.length_append, List.length_append, List.length_append, List.length_append]
    dsimp only
    omega
  have hroom := room_le hline
  rw [List.length_map] at hroom
  have hbody : room (classesBody entries) = 7 + room ((classCounts entries).map classLine) + 60 := by
    rw [classesBody, List.cons_append, room_cons, room_append]
    rfl
  have : (classCounts entries).length * (35 + 1) ≤ 6 * (35 + 1) := Nat.mul_le_mul_right _ hlength
  omega

/-! ## §7 — The digest -/

theorem infix_joinDigest {line : Str} {lines : List Str} (h : line ∈ lines) : line <:+: joinDigest lines := by
  induction lines with
  | nil => cases h
  | cons first rest ih =>
    cases rest with
    | nil =>
      rw [List.mem_singleton.mp h, joinDigest, List.intercalate_singleton]
    | cons next rest =>
      rw [joinDigest, List.intercalate_cons_cons]
      rcases List.mem_cons.mp h with rfl | h
      · rw [List.append_assoc]
        exact (List.prefix_append _ _).isInfix
      · exact (ih h).trans (List.suffix_append _ _).isInfix

namespace DigestRequest

variable (r : DigestRequest)

theorem ordered_perm : r.ordered.Perm r.manifest.files := List.perm_insertionSort byPath _

theorem ordered_length : r.ordered.length = r.manifest.files.length := r.ordered_perm.length_eq

theorem added_le : r.added ≤ r.ordered.length := List.countP_le_length

theorem room_frame : room r.header + room r.footer ≤ 528 := by
  have hfiles : r.ordered.length < 2 ^ 63 := r.ordered_length ▸ r.files_lt
  have hcount := length_natText_lt hfiles
  have hadded := length_natText_lt (r.added_le.trans_lt hfiles)
  have hupdated : (natText r.updated).length ≤ 19 := length_natText_lt ((Nat.sub_le _ _).trans_lt hfiles)
  have hproject := length_label r.manifest.project
  have hroot := length_label r.rootName
  have hhash := r.actionHash.length_eq
  have h₁ : (Str.of "📥 Drive 아카이브 동기화 요청 — 프로젝트 \x60").length = 28 := rfl
  have h₂ : (Str.of "\x60").length = 1 := rfl
  have h₃ : (Str.of "대상 파일 ").length = 6 := rfl
  have h₄ : (Str.of "건 · 신규 ").length = 7 := rfl
  have h₅ : (Str.of " · 변경 ").length = 6 := rfl
  have h₆ : (Str.of " · action_hash \x60").length = 16 := rfl
  have h₇ : (Str.of "대상 폴더 \x60").length = 7 := rfl
  have h₈ : (Str.of "\x60 (내 Drive · 분류별 하위폴더 자동 생성)").length = 28 := rfl
  have h₉ : (Str.of "이 메시지에 ✅ 실행 / ⛔ 취소").length = 18 := rfl
  have h₁₀ : (Str.of "  (✅ = ").length = 7 := rfl
  have h₁₁ : (Str.of "건 전체 업로드 · hash \x60").length = 17 := rfl
  have h₁₂ : (Str.of "\x60)").length = 2 := rfl
  simp only [header, footer, room_cons, room_nil, List.length_append, List.length_nil]
  omega

theorem header_ne_nil (lines : List Str) : r.header ++ lines ≠ [] :=
  List.append_ne_nil_of_left_ne_nil (List.cons_ne_nil _ _) _

theorem budget_eq : r.budget = 1901 - (room r.header + room r.footer : Nat) := by
  have hframe := length_joinDigest (r.header_ne_nil r.footer)
  rw [room_append] at hframe
  rw [budget]
  omega

theorem length_render : r.render.length + 1 = room r.header + room r.body + room r.footer := by
  have hne : r.header ++ r.body ++ r.footer ≠ [] := by
    rw [List.append_assoc]
    exact r.header_ne_nil _
  rw [render, length_joinDigest hne, room_append, room_append]

theorem overflow_fits (h : r.ordered.length ≤ 12) : (overflowRoom r.ordered.length : Int) ≤ r.budget := by
  have hframe := r.room_frame
  have hbudget := r.budget_eq
  have hdigits : (natText r.ordered.length).length ≤ 2 := length_natText_le (by decide) (by omega)
  rw [overflowRoom, List.length_cons, length_overflowLine]
  omega

end DigestRequest

end Autophagy.DriveArchive
