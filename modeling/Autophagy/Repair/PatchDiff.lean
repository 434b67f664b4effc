/-
# Autophagy.Repair.PatchDiff — the summary of a patch that an owner is shown.

`automation/repair/repair_patch_diff.py`. A unified diff is read line by line: a `diff --git` header opens the section
of one file, the headers below it may name its paths again, and the lines of a hunk are counted. What cannot be
described is refused. The decimal digits of Unicode, which `int` accepts too, are a parameter.

`parsePatchChanges_sound` is what the rest relies on: the summary of a patch names at least one file, and every path in
it is repository relative and a text without surrogates.
-/
import Autophagy.Python.Demand
import Autophagy.Python.Integer
import Autophagy.Python.JsonAscii
import Autophagy.Python.Text
import Autophagy.Repair.Pending

namespace Autophagy.Repair

open Autophagy.Python

/-! ## §1 — Paths -/

/-- `PatchBindingError`, by its message. -/
inductive PatchBindingError
  | unreadable
  | notUtf8
  | noFileChange
  | hunkBeforeHeader
  | combinedDiff
  | binaryBody
  | namesNoFile
  | headerNotRelative
  | forbiddenPath
  | escapingPath
  | quoting
  | unsupportedEscape
  | pathNotUtf8
  | malformedOctal
  deriving DecidableEq

/-- `assert_repo_relative` -/
def assertRepoRelative (path : Str) : Except PatchBindingError Unit :=
  if path = [] ∨ path.head? = some 0x2f ∨ 0x00 ∈ path ∨ 0x0d ∈ path ∨ 0x0a ∈ path then .error .forbiddenPath
  else if Str.of ".." ∈ path.splitOn 0x2f then .error .escapingPath
  else .ok ()

section Quoting

variable (decimal : Nat → Option (Fin 10))

/-- `_OCTAL_DIGITS` -/
def isOctal (c : Nat) : Bool := 0x30 ≤ c && c ≤ 0x37

/-- `_octal` -/
def octal (digits : Str) : Except PatchBindingError Nat :=
  match intBase8 decimal digits with
  | none => .error .malformedOctal
  | some value => if digits.length = 3 ∧ 0 ≤ value ∧ value ≤ 0xff then .ok value.toNat else .error .malformedOctal

/-- `_ESCAPES` -/
def escapes : Nat → Option Nat
  | 0x5c => some 0x5c
  | 0x22 => some 0x22
  | 0x61 => some 0x07
  | 0x62 => some 0x08
  | 0x66 => some 0x0c
  | 0x6e => some 0x0a
  | 0x72 => some 0x0d
  | 0x74 => some 0x09
  | 0x76 => some 0x0b
  | _ => none

/-- The loop of `_unquote`. An escape at the end of the text has fewer than three digits; a character of a text that
was decoded always has an encoding. -/
def unquoteBody : Str → Except PatchBindingError Bytes
  | [] => .ok []
  | 0x5c :: [] => .error .unsupportedEscape
  | 0x5c :: a :: rest =>
    if isOctal a then
      match rest with
      | b :: c :: rest => do
        let byte ← octal decimal [a, b, c]
        let bytes ← unquoteBody rest
        .ok (byte :: bytes)
      | _ => .error .malformedOctal
    else
      match escapes a with
      | none => .error .unsupportedEscape
      | some byte => do
        let bytes ← unquoteBody rest
        .ok (byte :: bytes)
  | c :: rest =>
    match utf8Char c with
    | none => .error .pathNotUtf8
    | some head => do
      let bytes ← unquoteBody rest
      .ok (head ++ bytes)

/-- `_unquote` -/
def unquote (token : Str) : Except PatchBindingError Str :=
  if token.head? ≠ some 0x22 then .ok token
  else if token.length < 2 ∨ token.getLast? ≠ some 0x22 then .error .quoting
  else do
    let bytes ← unquoteBody decimal token.tail.dropLast
    match decodeUtf8 bytes with
    | none => .error .pathNotUtf8
    | some path => .ok path

/-- `_validated` -/
def validated (candidate : Str) : Except PatchBindingError Str := do
  assertRepoRelative candidate
  .ok candidate

/-- `raw.split("\t", 1)[0].rstrip()` -/
def pathToken (raw : Str) : Str := (raw.takeWhile (· ≠ 0x09)).rdropWhile isSpace

/-- `_header_path` -/
def headerPath (raw : Str) : Except PatchBindingError Str := do
  let candidate ← unquote decimal (pathToken raw)
  validated candidate

/-- `_side_path` -/
def sidePath (raw start : Str) : Except PatchBindingError (Option Str) := do
  let candidate ← unquote decimal (pathToken raw)
  if candidate = Str.of "/dev/null" then .ok none
  else if start.isPrefixOf candidate then do
    let path ← validated (candidate.drop start.length)
    .ok (some path)
  else .error .headerNotRelative

end Quoting

/-! ## §2 — Lines -/

/-- `_Section` -/
structure Section where
  oldPath : Option Str := none
  newPath : Option Str := none
  insertions : Nat := 0
  deletions : Nat := 0
  sawPaths : Bool := false
  deriving DecidableEq

/-- `freeze` -/
def Section.freeze (s : Section) : Except PatchBindingError PatchFileDelta :=
  if ¬ s.sawPaths ∨ (s.oldPath = none ∧ s.newPath = none) then .error .namesNoFile
  else .ok ⟨s.oldPath, s.newPath, s.insertions, s.deletions⟩

/-- `_leaves_hunk` -/
def leavesHunk (line : Str) : Bool := (Str.of "@@").isPrefixOf line || (Str.of "diff --").isPrefixOf line

/-- `_count_hunk_line` -/
def countHunkLine (s : Section) (line : Str) : Section :=
  if line.head? = some 0x5c then s
  else if line.head? = some 0x2b then { s with insertions := s.insertions + 1 }
  else if line.head? = some 0x2d then { s with deletions := s.deletions + 1 }
  else s

/-- The groups of `_GIT_HEADER`: the first one is as long as it can be, so it ends at the last ` b/`. -/
def gitHeader (line : Str) : Option (Str × Str) :=
  let start := Str.of "diff --git a/"
  if start.isPrefixOf line then
    (cut (Str.of " b/").reverse (line.drop start.length).reverse).map fun parts => (parts.2.reverse, parts.1.reverse)
  else none

section Parsing

variable (decimal : Nat → Option (Fin 10))

/-- `_started` -/
def started (line : Str) : Except PatchBindingError Section :=
  match gitHeader line with
  | none => .ok { }
  | some (old, new) => do
    let oldPath ← headerPath decimal old
    let newPath ← headerPath decimal new
    .ok { oldPath := some oldPath, newPath := some newPath, sawPaths := true }

/-- `_read_paths` -/
def readPaths (line : Str) (s : Section) : Except PatchBindingError Section :=
  if (Str.of "--- ").isPrefixOf line then do
    let path ← sidePath decimal (line.drop 4) (Str.of "a/")
    .ok { s with oldPath := path, sawPaths := true }
  else if (Str.of "+++ ").isPrefixOf line then do
    let path ← sidePath decimal (line.drop 4) (Str.of "b/")
    .ok { s with newPath := path, sawPaths := true }
  else if (Str.of "rename from ").isPrefixOf line then do
    let path ← headerPath decimal (line.drop 12)
    .ok { s with oldPath := some path, sawPaths := true }
  else if (Str.of "rename to ").isPrefixOf line then do
    let path ← headerPath decimal (line.drop 10)
    .ok { s with newPath := some path, sawPaths := true }
  else .ok s

/-- The variables of `parse_patch_changes`: `changes`, `section` and `in_hunk`. -/
structure DiffState where
  changes : List PatchFileDelta := []
  open_ : Option Section := none
  inHunk : Bool := false

/-- `_read_structure` -/
def readStructure (line : Str) (state : DiffState) : Except PatchBindingError DiffState :=
  if (Str.of "diff --cc ").isPrefixOf line ∨ (Str.of "diff --combined ").isPrefixOf line ∨
      (Str.of "@@@").isPrefixOf line then .error .combinedDiff
  else if (Str.of "GIT binary patch").isPrefixOf line then .error .binaryBody
  else if (Str.of "diff --git ").isPrefixOf line then
    match state.open_ with
    | none => do
      let next ← started decimal line
      .ok ⟨state.changes, some next, false⟩
    | some s => do
      let change ← s.freeze
      let next ← started decimal line
      .ok ⟨state.changes ++ [change], some next, false⟩
  else
    match state.open_ with
    | none => .ok ⟨state.changes, none, false⟩
    | some s =>
      if (Str.of "@@").isPrefixOf line then .ok ⟨state.changes, some s, true⟩
      else do
        let next ← readPaths decimal line s
        .ok ⟨state.changes, some next, false⟩

/-- One turn of the loop; a line that `splitlines` gives has no carriage return at its end. -/
def readDiffLine (state : DiffState) (line : Str) : Except PatchBindingError DiffState :=
  if state.inHunk ∧ ¬ leavesHunk line then
    match state.open_ with
    | none => .error .hunkBeforeHeader
    | some s => .ok { state with open_ := some (countHunkLine s line) }
  else readStructure decimal line state

/-- The changes behind the last line. -/
def DiffState.finish (state : DiffState) : Except PatchBindingError (List PatchFileDelta) :=
  match state.open_ with
  | none => .ok state.changes
  | some s => do
    let change ← s.freeze
    .ok (state.changes ++ [change])

/-- `parse_patch_changes` -/
def parsePatchChanges (patch : Bytes) : Except PatchBindingError (List PatchFileDelta) :=
  match decodeUtf8 patch with
  | none => .error .notUtf8
  | some text => do
    let state ← (splitlines text).foldlM (readDiffLine decimal) { }
    let changes ← state.finish
    if changes = [] then .error .noFileChange else .ok changes

end Parsing

/-! ## §3 — What a summary holds -/

section Sound

variable {decimal : Nat → Option (Fin 10)}

/-- A text without surrogates. -/
def ScalarText (s : Str) : Prop := ∀ c ∈ s, JsonScan.Scalar c

theorem ScalarText.mono {s t : Str} (hs : ScalarText s) (h : ∀ c ∈ t, c ∈ s) : ScalarText t := fun c hc => hs c (h c hc)

/-- A path that a summary may name. -/
structure IsPatchPath (path : Str) : Prop where
  relative : repoRelative path = true
  scalar : ScalarText path

/-- What the decoder of a stored summary demands of one file. -/
structure PatchFileDelta.Sound (delta : PatchFileDelta) : Prop where
  old : ∀ path ∈ delta.oldPath, IsPatchPath path
  new : ∀ path ∈ delta.newPath, IsPatchPath path
  named : ¬ (delta.oldPath = none ∧ delta.newPath = none)

theorem assertRepoRelative_ok {path : Str} : assertRepoRelative path = .ok () ↔ repoRelative path = true := by
  unfold assertRepoRelative repoRelative
  have hchars : (path.all fun c => c ≠ 0x00 && c ≠ 0x0d && c ≠ 0x0a) = true ↔
      ¬ (0x00 ∈ path ∨ 0x0d ∈ path ∨ 0x0a ∈ path) := by
    simp only [List.all_eq_true, Bool.and_eq_true, decide_eq_true_eq, not_or]
    constructor
    · intro h
      exact ⟨fun hc => (h _ hc).1.1 rfl, fun hc => (h _ hc).1.2 rfl, fun hc => (h _ hc).2 rfl⟩
    · rintro ⟨hnul, hcr, hlf⟩ c hc
      refine ⟨⟨?_, ?_⟩, ?_⟩
      · rintro rfl
        exact hnul hc
      · rintro rfl
        exact hcr hc
      · rintro rfl
        exact hlf hc
  simp only [Bool.and_eq_true, decide_eq_true_eq, hchars, List.contains_iff_mem]
  constructor
  · intro h
    split at h
    · cases h
    · next hforbidden =>
        split at h
        · cases h
        · next hescaping =>
            simp only [not_or] at hforbidden ⊢
            exact ⟨⟨⟨hforbidden.1, hforbidden.2.1⟩, hforbidden.2.2⟩, hescaping⟩
  · rintro ⟨⟨⟨hne, hhead⟩, hchars⟩, hescaping⟩
    rw [if_neg (by simp only [not_or] at hchars ⊢; exact ⟨hne, hhead, hchars⟩), if_neg hescaping]

theorem validated_ok {candidate path : Str} (hscalar : ScalarText candidate) (h : validated candidate = .ok path) :
    IsPatchPath path := by
  obtain ⟨_, hassert, hpath⟩ := bind_ok.mp h
  obtain rfl := Except.ok.inj hpath
  exact ⟨assertRepoRelative_ok.mp hassert, hscalar⟩

theorem unquote_scalar {token path : Str} (hscalar : ScalarText token) (h : unquote decimal token = .ok path) :
    ScalarText path := by
  unfold unquote at h
  split at h
  · rwa [← Except.ok.inj h]
  split at h
  · cases h
  · obtain ⟨bytes, -, hdecode⟩ := bind_ok.mp h
    split at hdecode
    · cases hdecode
    · next path' hpath =>
        obtain rfl := Except.ok.inj hdecode
        exact JsonScan.scalar_of_decodeUtf8 hpath

theorem pathToken_scalar {raw : Str} (hscalar : ScalarText raw) : ScalarText (pathToken raw) :=
  hscalar.mono fun _ hc => (List.takeWhile_prefix _).subset ((List.rdropWhile_prefix _ _).subset hc)

theorem headerPath_ok {raw path : Str} (hscalar : ScalarText raw) (h : headerPath decimal raw = .ok path) :
    IsPatchPath path := by
  obtain ⟨candidate, hunquote, hvalid⟩ := bind_ok.mp h
  exact validated_ok (unquote_scalar (pathToken_scalar hscalar) hunquote) hvalid

theorem sidePath_ok {raw start : Str} {path : Option Str} (hscalar : ScalarText raw)
    (h : sidePath decimal raw start = .ok path) : ∀ p ∈ path, IsPatchPath p := by
  obtain ⟨candidate, hunquote, hrest⟩ := bind_ok.mp h
  have hcandidate := unquote_scalar (pathToken_scalar hscalar) hunquote
  split at hrest
  · obtain rfl := Except.ok.inj hrest
    intro p hp
    cases hp
  split at hrest
  · obtain ⟨p, hvalid, hpath⟩ := bind_ok.mp hrest
    obtain rfl := Except.ok.inj hpath
    intro q hq
    obtain rfl := Option.some.inj hq
    exact validated_ok (hcandidate.mono fun _ hc => List.mem_of_mem_drop hc) hvalid
  · cases hrest

/-- The paths of a section that is being read. -/
structure Section.Sound (s : Section) : Prop where
  old : ∀ path ∈ s.oldPath, IsPatchPath path
  new : ∀ path ∈ s.newPath, IsPatchPath path

theorem Section.freeze_ok {s : Section} (hs : s.Sound) {delta : PatchFileDelta} (h : s.freeze = .ok delta) :
    delta.Sound := by
  unfold Section.freeze at h
  split at h
  · cases h
  · next hnamed =>
      obtain rfl := Except.ok.inj h
      exact ⟨hs.old, hs.new, fun hnone => hnamed (.inr hnone)⟩

theorem countHunkLine_sound {s : Section} (hs : s.Sound) (line : Str) : (countHunkLine s line).Sound := by
  unfold countHunkLine
  split
  · exact hs
  split
  · exact ⟨hs.old, hs.new⟩
  split
  · exact ⟨hs.old, hs.new⟩
  · exact hs

theorem cut_subset {sep s : Str} {parts : Str × Str} (h : cut sep s = some parts) :
    (∀ c ∈ parts.1, c ∈ s) ∧ ∀ c ∈ parts.2, c ∈ s := by
  induction s generalizing parts with
  | nil =>
    unfold cut at h
    split at h
    · obtain rfl := Option.some.inj h
      exact ⟨fun c hc => hc, fun c hc => hc⟩
    · cases h
  | cons d s ih =>
    unfold cut at h
    split at h
    · obtain rfl := Option.some.inj h
      exact ⟨fun c hc => (by cases hc), fun c hc => List.mem_of_mem_drop hc⟩
    · obtain ⟨rest, hrest, rfl⟩ := Option.map_eq_some_iff.mp h
      obtain ⟨hbefore, hbehind⟩ := ih hrest
      refine ⟨fun c hc => ?_, fun c hc => List.mem_cons_of_mem _ (hbehind c hc)⟩
      rcases List.mem_cons.mp hc with rfl | hc
      · exact List.mem_cons_self
      · exact List.mem_cons_of_mem _ (hbefore c hc)

theorem gitHeader_subset {line : Str} {groups : Str × Str} (h : gitHeader line = some groups) :
    (∀ c ∈ groups.1, c ∈ line) ∧ ∀ c ∈ groups.2, c ∈ line := by
  unfold gitHeader at h
  dsimp only at h
  split at h
  · obtain ⟨parts, hcut, rfl⟩ := Option.map_eq_some_iff.mp h
    obtain ⟨hbefore, hbehind⟩ := cut_subset hcut
    refine ⟨fun c hc => ?_, fun c hc => ?_⟩
    · exact List.mem_of_mem_drop (List.mem_reverse.mp (hbehind c (List.mem_reverse.mp hc)))
    · exact List.mem_of_mem_drop (List.mem_reverse.mp (hbefore c (List.mem_reverse.mp hc)))
  · cases h

theorem started_ok {line : Str} (hline : ScalarText line) {s : Section} (h : started decimal line = .ok s) :
    s.Sound := by
  unfold started at h
  split at h
  · obtain rfl := Except.ok.inj h
    exact ⟨fun _ hp => (nomatch hp), fun _ hp => nomatch hp⟩
  · next old new hgroups =>
      obtain ⟨hold, hnew⟩ := gitHeader_subset hgroups
      obtain ⟨oldPath, holdPath, h⟩ := bind_ok.mp h
      obtain ⟨newPath, hnewPath, h⟩ := bind_ok.mp h
      obtain rfl := Except.ok.inj h
      refine ⟨fun p hp => ?_, fun p hp => ?_⟩
      · obtain rfl := Option.some.inj hp
        exact headerPath_ok (hline.mono hold) holdPath
      · obtain rfl := Option.some.inj hp
        exact headerPath_ok (hline.mono hnew) hnewPath

theorem readPaths_ok {line : Str} (hline : ScalarText line) {s s' : Section} (hs : s.Sound)
    (h : readPaths decimal line s = .ok s') : s'.Sound := by
  have hdrop : ∀ n, ScalarText (line.drop n) := fun n => hline.mono fun _ hc => List.mem_of_mem_drop hc
  unfold readPaths at h
  split at h
  · obtain ⟨path, hpath, h⟩ := bind_ok.mp h
    obtain rfl := Except.ok.inj h
    exact ⟨sidePath_ok (hdrop 4) hpath, hs.new⟩
  split at h
  · obtain ⟨path, hpath, h⟩ := bind_ok.mp h
    obtain rfl := Except.ok.inj h
    exact ⟨hs.old, sidePath_ok (hdrop 4) hpath⟩
  split at h
  · obtain ⟨path, hpath, h⟩ := bind_ok.mp h
    obtain rfl := Except.ok.inj h
    exact ⟨fun p hp => (Option.some.inj hp ▸ headerPath_ok (hdrop 12) hpath), hs.new⟩
  split at h
  · obtain ⟨path, hpath, h⟩ := bind_ok.mp h
    obtain rfl := Except.ok.inj h
    exact ⟨hs.old, fun p hp => Option.some.inj hp ▸ headerPath_ok (hdrop 10) hpath⟩
  · rwa [← Except.ok.inj h]

/-- What the loop keeps. -/
structure DiffState.Sound (state : DiffState) : Prop where
  changes : ∀ change ∈ state.changes, change.Sound
  open_ : ∀ s ∈ state.open_, s.Sound

theorem sound_append {changes : List PatchFileDelta} (hchanges : ∀ change ∈ changes, change.Sound) {s : Section}
    (hs : s.Sound) {change : PatchFileDelta} (h : s.freeze = .ok change) :
    ∀ change' ∈ changes ++ [change], change'.Sound := by
  intro change' hmem
  rcases List.mem_append.mp hmem with hmem | hmem
  · exact hchanges change' hmem
  · rw [List.mem_singleton.mp hmem]
    exact Section.freeze_ok hs h

theorem readStructure_sound {line : Str} (hline : ScalarText line) {state state' : DiffState} (hstate : state.Sound)
    (h : readStructure decimal line state = .ok state') : state'.Sound := by
  have hopens : ∀ {changes : List PatchFileDelta} {s : Section} {inHunk : Bool},
      (∀ change ∈ changes, change.Sound) → s.Sound → (⟨changes, some s, inHunk⟩ : DiffState).Sound :=
    fun hchanges hs => ⟨hchanges, fun _ hmem => Option.some.inj hmem ▸ hs⟩
  unfold readStructure at h
  split at h
  · cases h
  split at h
  · cases h
  split at h
  · split at h
    · obtain ⟨next, hnext, h⟩ := bind_ok.mp h
      obtain rfl := Except.ok.inj h
      exact hopens hstate.changes (started_ok hline hnext)
    · next s hs =>
        obtain ⟨change, hchange, h⟩ := bind_ok.mp h
        obtain ⟨next, hnext, h⟩ := bind_ok.mp h
        obtain rfl := Except.ok.inj h
        exact hopens (sound_append hstate.changes (hstate.open_ s hs) hchange) (started_ok hline hnext)
  split at h
  · obtain rfl := Except.ok.inj h
    exact ⟨hstate.changes, fun _ hmem => nomatch hmem⟩
  · next s hs =>
      split at h
      · obtain rfl := Except.ok.inj h
        exact hopens hstate.changes (hstate.open_ s hs)
      · obtain ⟨next, hnext, h⟩ := bind_ok.mp h
        obtain rfl := Except.ok.inj h
        exact hopens hstate.changes (readPaths_ok hline (hstate.open_ s hs) hnext)

theorem readDiffLine_sound {line : Str} (hline : ScalarText line) {state state' : DiffState} (hstate : state.Sound)
    (h : readDiffLine decimal state line = .ok state') : state'.Sound := by
  unfold readDiffLine at h
  split at h
  · split at h
    · cases h
    · next s hs =>
        obtain rfl := Except.ok.inj h
        exact ⟨hstate.changes, fun _ hmem => Option.some.inj hmem ▸ countHunkLine_sound (hstate.open_ s hs) line⟩
  · exact readStructure_sound hline hstate h

theorem foldlM_sound {lines : List Str} (hlines : ∀ line ∈ lines, ScalarText line) {state state' : DiffState}
    (hstate : state.Sound) (h : lines.foldlM (readDiffLine decimal) state = .ok state') : state'.Sound := by
  induction lines generalizing state with
  | nil =>
    obtain rfl := Except.ok.inj h
    exact hstate
  | cons line lines ih =>
    rw [List.foldlM_cons] at h
    obtain ⟨next, hnext, h⟩ := bind_ok.mp h
    have hline := List.forall_mem_cons.mp hlines
    exact ih hline.2 (readDiffLine_sound hline.1 hstate hnext) h

theorem mem_of_mem_splitlinesFrom {line s l : Str} (hl : l ∈ splitlinesFrom line s) {c : Nat} (hc : c ∈ l) :
    c ∈ line ∨ c ∈ s := by
  induction line, s using lineSplit.induct with
  | case1 line =>
    rw [splitlinesFrom] at hl
    split at hl
    · cases hl
    · exact .inl (List.mem_singleton.mp hl ▸ hc)
  | case2 line rest ih =>
    rw [splitlinesFrom] at hl
    rcases List.mem_cons.mp hl with rfl | hl
    · exact .inl hc
    · rcases ih hl with hmem | hmem
      · cases hmem
      · exact .inr (by simp [hmem])
  | case3 line d rest hpair hd ih =>
    rw [splitlinesFrom.eq_3 _ _ _ hpair, if_pos hd] at hl
    rcases List.mem_cons.mp hl with rfl | hl
    · exact .inl hc
    · rcases ih hl with hmem | hmem
      · cases hmem
      · exact .inr (by simp [hmem])
  | case4 line d rest hpair hd ih =>
    rw [splitlinesFrom.eq_3 _ _ _ hpair, if_neg hd] at hl
    rcases ih hl with hmem | hmem
    · rcases List.mem_append.mp hmem with hmem | hmem
      · exact .inl hmem
      · exact .inr (List.mem_singleton.mp hmem ▸ List.mem_cons_self)
    · exact .inr (by simp [hmem])

/-- **A summary names at least one file**, and each by a path that the store takes back. -/
theorem parsePatchChanges_sound {patch : Bytes} {changes : List PatchFileDelta}
    (h : parsePatchChanges decimal patch = .ok changes) : changes ≠ [] ∧ ∀ change ∈ changes, change.Sound := by
  unfold parsePatchChanges at h
  split at h
  · cases h
  · next text htext =>
      have hscalar := JsonScan.scalar_of_decodeUtf8 htext
      obtain ⟨state, hstate, h⟩ := bind_ok.mp h
      have hsound : state.Sound := by
        refine foldlM_sound (fun line hline c hc => ?_) ⟨?_, ?_⟩ hstate
        · rcases mem_of_mem_splitlinesFrom hline hc with hmem | hmem
          · cases hmem
          · exact hscalar c hmem
        · intro change hmem
          cases hmem
        · intro s hmem
          cases hmem
      obtain ⟨all, hall, h⟩ := bind_ok.mp h
      split at h
      · cases h
      · next hne =>
          obtain rfl := Except.ok.inj h
          refine ⟨hne, ?_⟩
          unfold DiffState.finish at hall
          split at hall
          · rw [← Except.ok.inj hall]
            exact hsound.changes
          · next s hs =>
              obtain ⟨change, hchange, hall⟩ := bind_ok.mp hall
              rw [← Except.ok.inj hall]
              exact sound_append hsound.changes (hsound.open_ s hs) hchange

end Sound

end Autophagy.Repair
