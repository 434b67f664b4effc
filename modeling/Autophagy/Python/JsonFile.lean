/-
# Autophagy.Python.JsonFile — a file of JSON lines, written and read back.

The writer puts one `json.dumps(value, ensure_ascii=False)` on each line and encodes the text as UTF-8; the
reader decodes it with universal newlines, splits it with `splitlines`, skips blank lines, and keeps the
dictionaries. Between the two stand exactly two kinds of characters: a lone surrogate stops the writer, and
`U+0085`, `U+2028` and `U+2029`, which JSON writes as they are, stop the reader, because the first piece of
a record that is cut there is not complete (`readLines_cut`). Every other character survives
(`readLines_whole`).
-/
import Autophagy.Python.White
import Autophagy.Python.Canonical

namespace Autophagy.Python

open JsonScan

/-! ## §1 — Characters UTF-8 refuses -/

theorem isScalarText_append {s t : Str} :
    isScalarText (s ++ t) = true ↔ isScalarText s = true ∧ isScalarText t = true := by
  simp [isScalarText, List.all_append]

namespace Json

variable {F : Type}

/-! ## §2 — The characters of a written value -/

theorem dictMembers_eq_self {members : List (Str × Json F)} (hkeys : (members.map Prod.fst).Nodup)
    (hvalues : ∀ m ∈ members, m.2.dict = m.2) : dictMembers members = members := by
  induction members with
  | nil => rfl
  | cons m members ih =>
    obtain ⟨k, v⟩ := m
    obtain ⟨hk, hrest⟩ := List.nodup_cons.mp hkeys
    have hnone : lookup k members = none := lookup_eq_none.mpr hk
    rw [dictMembers, ih hrest fun m hm => hvalues m (by simp [hm]), putFirst, hnone, hvalues (k, v) (by simp)]

theorem dictItems_eq_self {items : List (Json F)} (h : ∀ v ∈ items, v.dict = v) : dictItems items = items := by
  induction items with
  | nil => rfl
  | cons v items ih =>
    rw [dictItems, h v (by simp), ih fun w hw => h w (by simp [hw])]

/-- A character of `text` is printable, and an ASCII one unless some string of `ss` has it. -/
def WrittenFrom (ss : List Str) (text : Str) : Prop :=
  ∀ c ∈ text, 0x20 ≤ c ∧ (0x7f ≤ c → ∃ s ∈ ss, c ∈ s)

theorem WrittenFrom.append {ss : List Str} {a b : Str} (ha : WrittenFrom ss a) (hb : WrittenFrom ss b) :
    WrittenFrom ss (a ++ b) := by
  intro c hc
  rcases List.mem_append.mp hc with hc | hc
  · exact ha c hc
  · exact hb c hc

theorem writtenFrom_ascii {ss : List Str} {text : Str} (h : ∀ c ∈ text, 0x20 ≤ c ∧ c < 0x7f) : WrittenFrom ss text :=
  fun c hc => ⟨(h c hc).1, fun hge => absurd (h c hc).2 (by omega)⟩

theorem escapeChar_written (c : Nat) :
    (0x7f ≤ c → escapeChar c = [c]) ∧ ∀ d ∈ escapeChar c, 0x20 ≤ d ∧ (0x7f ≤ d → d = c) := by
  by_cases hc : c < 0x7f
  · have hall : ∀ c < 0x7f, ∀ d ∈ escapeChar c, 0x20 ≤ d ∧ d < 0x7f := by decide
    exact ⟨fun hge => by omega, fun d hd =>
      ⟨(hall c hc d hd).1, fun hge => absurd (hall c hc d hd).2 (by omega)⟩⟩
  · have hself : escapeChar c = [c] := by
      unfold escapeChar
      repeat' split
      all_goals first | rfl | omega
    refine ⟨fun _ => hself, fun d hd => ?_⟩
    rw [hself, List.mem_singleton] at hd
    exact ⟨by omega, fun _ => hd⟩

theorem writtenFrom_escape {ss : List Str} {s : Str} (hs : s ∈ ss) : WrittenFrom ss (escape s) := by
  intro c hc
  obtain ⟨d, hd, hcd⟩ := List.mem_flatMap.mp hc
  refine ⟨((escapeChar_written d).2 c hcd).1, fun hge => ⟨s, hs, ?_⟩⟩
  rw [((escapeChar_written d).2 c hcd).2 hge]
  exact hd

theorem WrittenFrom.quotes {ss : List Str} {a : Str} (ha : WrittenFrom ss a) : WrittenFrom ss (0x22 :: (a ++ [0x22])) := by
  have hquote : WrittenFrom ss [0x22] := writtenFrom_ascii (by decide)
  exact hquote.append (ha.append hquote)

theorem writtenFrom_quoted (s : Str) : WrittenFrom [s] (quoted s) := (writtenFrom_escape (by simp)).quotes

theorem mem_quoted {s : Str} {c : Nat} (hc : c ∈ s) (hge : 0x7f ≤ c) : c ∈ quoted s := by
  refine List.mem_cons_of_mem _ (List.mem_append_left _ (List.mem_flatMap.mpr ⟨c, hc, ?_⟩))
  rw [(escapeChar_written c).1 hge]
  exact List.mem_singleton_self c

variable [PyFloat F]

section

variable {ss : List Str}

omit [PyFloat F] in
theorem writtenFrom_number {t : Str} (h : ∀ c ∈ t, isNumberChar c = true) : WrittenFrom ss t := by
  refine writtenFrom_ascii fun c hc => ?_
  have := h c hc
  simp only [isNumberChar, isDigit, Bool.or_eq_true, Bool.and_eq_true, decide_eq_true_eq] at this
  omega

theorem writtenFrom_float (x : F) : WrittenFrom ss (PyFloat.text x) := by
  rcases PyFloat.text_finite x with rfl | rfl | rfl | ⟨⟨hchars, -⟩, -⟩
  · rw [PyFloat.text_nan]
    exact writtenFrom_ascii (by decide)
  · rw [PyFloat.text_inf]
    exact writtenFrom_ascii (by decide)
  · rw [PyFloat.text_negInf]
    exact writtenFrom_ascii (by decide)
  · exact writtenFrom_number hchars

theorem writtenFrom_gap (layout : Layout) : WrittenFrom ss layout.gap := by
  cases layout with
  | compact => exact writtenFrom_ascii (by decide)
  | spaced => exact writtenFrom_ascii (by decide)

variable {body : Str → Str} {layout : Layout}

theorem writtenFrom_items {items : List (Json F)} (h : ∀ v ∈ items, WrittenFrom ss (v.dumpsWith body layout)) :
    WrittenFrom ss (dumpsItemsWith body layout items) := by
  induction items with
  | nil => exact fun c hc => by cases hc
  | cons v items ih =>
    have hcomma : WrittenFrom ss [0x2c] := writtenFrom_ascii (by decide)
    have hv := h v (by simp)
    have hitems := ih fun w hw => h w (by simp [hw])
    exact ((hcomma.append (writtenFrom_gap layout)).append hv).append hitems

theorem writtenFrom_members {members : List (Str × Json F)} (hkeys : ∀ m ∈ members, WrittenFrom ss (body m.1))
    (h : ∀ m ∈ members, WrittenFrom ss (m.2.dumpsWith body layout)) :
    WrittenFrom ss (dumpsMembersWith body layout members) := by
  induction members with
  | nil => exact fun c hc => by cases hc
  | cons m members ih =>
    obtain ⟨k, v⟩ := m
    have hcomma : WrittenFrom ss [0x2c] := writtenFrom_ascii (by decide)
    have hcolon : WrittenFrom ss [0x3a] := writtenFrom_ascii (by decide)
    have hk := (hkeys (k, v) (by simp)).quotes
    have hv := h (k, v) (by simp)
    have hmembers := ih (fun m hm => hkeys m (by simp [hm])) fun m hm => h m (by simp [hm])
    have hall := ((((hcomma.append (writtenFrom_gap layout)).append hk).append
      (hcolon.append (writtenFrom_gap layout))).append hv).append hmembers
    simpa [dumpsMembersWith] using hall

/-- **What a written value consists of:** printable ASCII, and what its strings are written as. -/
theorem writtenFrom_dumpsWith {v : Json F} (hstrings : ∀ s ∈ v.strings, WrittenFrom ss (body s)) :
    WrittenFrom ss (v.dumpsWith body layout) := by
  induction v using Json.induct with
  | null => exact writtenFrom_ascii (by decide : ∀ c ∈ Str.of "null", 0x20 ≤ c ∧ c < 0x7f)
  | bool b =>
    cases b with
    | false => exact writtenFrom_ascii (by decide : ∀ c ∈ Str.of "false", 0x20 ≤ c ∧ c < 0x7f)
    | true => exact writtenFrom_ascii (by decide : ∀ c ∈ Str.of "true", 0x20 ≤ c ∧ c < 0x7f)
  | int n => exact writtenFrom_number (intText_chars n).1
  | float x => exact writtenFrom_float x
  | str s => exact (hstrings s (by simp [strings])).quotes
  | arr items ih =>
    have ih : ∀ w ∈ items, WrittenFrom ss (w.dumpsWith body layout) := fun w hw =>
      ih w hw fun s hs => hstrings s (mem_stringsItems.mpr ⟨w, hw, hs⟩)
    cases items with
    | nil => exact writtenFrom_ascii (by decide : ∀ c ∈ [0x5b, 0x5d], 0x20 ≤ c ∧ c < 0x7f)
    | cons v items =>
      have hopen : WrittenFrom ss [0x5b] := writtenFrom_ascii (by decide)
      have hclose : WrittenFrom ss [0x5d] := writtenFrom_ascii (by decide)
      have hitems := writtenFrom_items fun w hw => ih w (List.mem_cons_of_mem _ hw)
      have hall := ((hopen.append (ih v (by simp))).append hitems).append hclose
      simpa [dumpsWith] using hall
  | obj members ih =>
    have hkeys : ∀ m ∈ members, WrittenFrom ss (body m.1) := fun m hm =>
      hstrings m.1 (mem_stringsMembers.mpr ⟨m, hm, .inl rfl⟩)
    have ih : ∀ m ∈ members, WrittenFrom ss (m.2.dumpsWith body layout) := fun m hm =>
      ih m hm fun s hs => hstrings s (mem_stringsMembers.mpr ⟨m, hm, .inr hs⟩)
    cases members with
    | nil => exact writtenFrom_ascii (by decide : ∀ c ∈ [0x7b, 0x7d], 0x20 ≤ c ∧ c < 0x7f)
    | cons m members =>
      obtain ⟨k, v⟩ := m
      have hopen : WrittenFrom ss [0x7b] := writtenFrom_ascii (by decide)
      have hclose : WrittenFrom ss [0x7d] := writtenFrom_ascii (by decide)
      have hcolon : WrittenFrom ss [0x3a] := writtenFrom_ascii (by decide)
      have hmembers := writtenFrom_members (fun m hm => hkeys m (List.mem_cons_of_mem _ hm))
        fun m hm => ih m (List.mem_cons_of_mem _ hm)
      have hall := ((((hopen.append (hkeys (k, v) (by simp)).quotes).append
        (hcolon.append (writtenFrom_gap layout))).append (ih (k, v) (by simp))).append
        hmembers).append hclose
      simpa [dumpsWith] using hall

theorem writtenFrom_dumps (layout : Layout) (v : Json F) : WrittenFrom v.strings (v.dumps layout) := by
  rw [← dumpsWith_escape]
  exact writtenFrom_dumpsWith fun s hs => writtenFrom_escape hs

end

/-- Every other character of its strings stands in the text. -/
def Written (layout : Layout) (v : Json F) : Prop :=
  ∀ s ∈ v.strings, ∀ c ∈ s, 0x7f ≤ c → c ∈ v.dumps layout

theorem mem_dumpsItems {layout : Layout} {items : List (Json F)} (h : ∀ v ∈ items, Written layout v) :
    ∀ s ∈ stringsItems items, ∀ c ∈ s, 0x7f ≤ c → c ∈ dumpsItems layout items := by
  induction items with
  | nil => exact fun s hs => by cases hs
  | cons v items ih =>
    intro s hs c hc hge
    rw [dumpsItems]
    rcases List.mem_append.mp hs with hs | hs
    · exact List.mem_append_left _ (List.mem_append_right _ (h v (by simp) s hs c hc hge))
    · exact List.mem_append_right _ (ih (fun w hw => h w (by simp [hw])) s hs c hc hge)

theorem mem_dumpsMembers {layout : Layout} {members : List (Str × Json F)}
    (h : ∀ m ∈ members, Written layout m.2) :
    ∀ s ∈ stringsMembers members, ∀ c ∈ s, 0x7f ≤ c → c ∈ dumpsMembers layout members := by
  induction members with
  | nil => exact fun s hs => by cases hs
  | cons m members ih =>
    obtain ⟨k, v⟩ := m
    intro s hs c hc hge
    simp only [dumpsMembers, List.mem_append, List.cons_append, List.mem_cons]
    rcases List.mem_cons.mp hs with rfl | hs
    · have := mem_quoted hc hge
      tauto
    · rcases List.mem_append.mp hs with hs | hs
      · have := h (k, v) (by simp) s hs c hc hge
        tauto
      · have := ih (fun m hm => h m (by simp [hm])) s hs c hc hge
        tauto

theorem written_dumps (layout : Layout) (v : Json F) : Written layout v := by
  induction v using Json.induct with
  | str t =>
    intro s hs c hc hge
    obtain rfl := List.mem_singleton.mp hs
    exact mem_quoted hc hge
  | arr items ih =>
    cases items with
    | nil => exact fun s hs => by cases hs
    | cons v items =>
      intro s hs c hc hge
      simp only [dumps, List.mem_append, List.mem_cons]
      rcases List.mem_append.mp hs with hs | hs
      · have := ih v (by simp) s hs c hc hge
        tauto
      · have := mem_dumpsItems (fun w hw => ih w (List.mem_cons_of_mem _ hw)) s hs c hc hge
        tauto
  | obj members ih =>
    cases members with
    | nil => exact fun s hs => by cases hs
    | cons m members =>
      obtain ⟨k, v⟩ := m
      intro s hs c hc hge
      simp only [dumps, List.mem_append, List.mem_cons]
      rcases List.mem_cons.mp hs with rfl | hs
      · have := mem_quoted hc hge
        tauto
      · rcases List.mem_append.mp hs with hs | hs
        · have := ih (k, v) (by simp) s hs c hc hge
          tauto
        · have := mem_dumpsMembers (fun m hm => ih m (List.mem_cons_of_mem _ hm)) s hs c hc hge
          tauto
  | _ => exact fun s hs => by cases hs

theorem noBreak_dumps {layout : Layout} {v : Json F} (h : ∀ s ∈ v.strings, NoRawBreak s) :
    NoBreak (v.dumps layout) := by
  intro c hc
  obtain ⟨hprint, hstring⟩ := writtenFrom_dumps layout v c hc
  by_cases hge : 0x7f ≤ c
  · obtain ⟨s, hs, hcs⟩ := hstring hge
    have hraw := h s hs c hcs
    simp only [isRawBreak, Bool.or_eq_false_iff, decide_eq_false_iff_not] at hraw
    simp only [isBreak, Bool.or_eq_false_iff, decide_eq_false_iff_not]
    omega
  · simp only [isBreak, Bool.or_eq_false_iff, decide_eq_false_iff_not]
    omega

theorem rawBreak_dumps {layout : Layout} {v : Json F} (h : ¬ ∀ s ∈ v.strings, NoRawBreak s) :
    ¬ NoRawBreak (v.dumps layout) := by
  intro hno
  refine h fun s hs c hc => ?_
  by_contra hraw
  rw [Bool.not_eq_false] at hraw
  have hge : 0x7f ≤ c := by
    simp only [isRawBreak, Bool.or_eq_true, decide_eq_true_eq] at hraw
    omega
  have := hno c (written_dumps layout v s hs c hc hge)
  rw [hraw] at this
  cases this

theorem isScalarText_dumps {layout : Layout} {v : Json F} :
    isScalarText (v.dumps layout) = true ↔ ∀ s ∈ v.strings, isScalarText s = true := by
  simp only [isScalarText, List.all_eq_true, Bool.not_eq_true', Bool.and_eq_false_iff, decide_eq_false_iff_not]
  constructor
  · intro h s hs c hc
    by_cases hge : 0x7f ≤ c
    · exact h c (written_dumps layout v s hs c hc hge)
    · omega
  · intro h c hc
    by_cases hge : 0x7f ≤ c
    · obtain ⟨s, hs, hcs⟩ := (writtenFrom_dumps layout v c hc).2 hge
      exact h s hs c hcs
    · omega

end Json

/-! ## §3 — The file -/

section File

variable {F : Type} [PyFloat F]

/-- The text of the records: `"".join(json.dumps(v, ensure_ascii=False) + "\n" for v in vs)`. -/
def linesText (L : Limits) : List (Json F) → Except CodecFault Str
  | [] => .ok []
  | v :: vs =>
    match v.dumpsWithin L .spaced with
    | .error fault => .error (.json fault)
    | .ok line =>
      match linesText L vs with
      | .error fault => .error fault
      | .ok text => .ok (line ++ 0x0a :: text)

/-- `path.write_text(text, encoding="utf-8")` of the records: the text of the file. -/
def writeLines (L : Limits) (vs : List (Json F)) : Except CodecFault Str :=
  match linesText L vs with
  | .error fault => .error fault
  | .ok text => if isScalarText text then .ok text else .error .unicodeEncode

/-- `isinstance(v, dict)` -/
def Json.isDict : Json F → Bool
  | .obj _ => true
  | _ => false

/-- The dictionaries of the lines, blank lines skipped. -/
def loadLines (L : Limits) : List Str → Except JsonFault (List (Json F))
  | [] => .ok []
  | line :: lines =>
    if strip line = [] then loadLines L lines
    else match Json.loads L (strip line) with
      | .error fault => .error fault
      | .ok v =>
        match loadLines L lines with
        | .error fault => .error fault
        | .ok vs => .ok (if v.isDict then v :: vs else vs)

/-- The records of a file that was read with `path.read_text(encoding="utf-8").splitlines()`. -/
def readLines (L : Limits) (file : Str) : Except JsonFault (List (Json F)) :=
  loadLines L (splitlines (universalNewlines file))

variable {L : Limits}

theorem linesText_ok {vs : List (Json F)} (hfits : ∀ v ∈ vs, v.Fits L) :
    linesText L vs = .ok (vs.flatMap fun v => v.dumps .spaced ++ [0x0a]) := by
  induction vs with
  | nil => rfl
  | cons v vs ih =>
    have hv := hfits v (by simp)
    have hline : v.dumpsWithin L .spaced = .ok (v.dumps .spaced) := by
      rw [Json.dumpsWithin, if_neg (by have := hv.2; omega), if_pos hv.1]
    rw [linesText, hline, ih fun w hw => hfits w (by simp [hw])]
    simp

theorem dumps_dict_ends {v : Json F} (hdict : v.isDict = true) (layout : Layout) :
    ∃ inside, v.dumps layout = 0x7b :: (inside ++ [0x7d]) := by
  match v with
  | .obj [] => exact ⟨[], rfl⟩
  | .obj ((k, v) :: members) => exact ⟨_, by rw [Json.dumps]⟩

theorem strip_dumps {v : Json F} (hdict : v.isDict = true) (layout : Layout) :
    strip (v.dumps layout) = v.dumps layout := by
  obtain ⟨inside, hinside⟩ := dumps_dict_ends hdict layout
  rw [hinside]
  refine stripBy_eq_self (fun c hc => ?_) (fun c hc => ?_)
  · obtain rfl : 0x7b = c := by simpa using hc
    rfl
  · have hlast : (0x7b :: (inside ++ [0x7d])).getLast? = some 0x7d := by
      rw [← List.cons_append]
      exact List.getLast?_concat
    rw [hlast] at hc
    obtain rfl : 0x7d = c := by simpa using hc
    rfl

/-- **A record on one line is read back**, before whatever the rest reads as. -/
theorem readLines_whole {v : Json F} (hfits : v.Fits L) (hdict : v.isDict = true)
    (hno : ∀ s ∈ v.strings, NoRawBreak s) (rest : Str) :
    loadLines L (splitlines (v.dumps .spaced ++ 0x0a :: rest)) = (loadLines L (splitlines rest)).map (v.dict :: ·) := by
  have hread := Json.loads_printed .spaced hfits
  have hne : v.dumps .spaced ≠ [] := by
    obtain ⟨inside, hinside⟩ := dumps_dict_ends hdict .spaced
    rw [hinside]
    exact List.cons_ne_nil _ _
  have hkeep : v.dict.isDict = true := by
    match v with
    | .obj members => rfl
  rw [splitlines, splitlinesFrom_append_noBreak (Json.noBreak_dumps hno), List.nil_append,
    splitlinesFrom_break (by decide) (by decide), loadLines, strip_dumps hdict, if_neg hne, hread]
  rw [← splitlines]
  cases (loadLines L (splitlines rest) : Except JsonFault (List (Json F))) with
  | error fault => rfl
  | ok vs => simp only [hkeep, if_true, Except.map]

theorem scan_beside {L : Limits} {layout : Layout} {v : Json F} (hfits : v.Fits L) {d : Nat} {b : Str}
    (hd : isJsonSpace d = false) :
    (scan L start (v.dumps layout ++ 0x20 :: d :: b) : Except JsonFault (Json F)) = .error .decode := by
  have hread := scan_dumps L layout v [] (0x20 :: d :: b) hfits.1 (by simpa using hfits.2) (delimited_cons rfl)
  have hblank : step L (.run [] (.done v)) 0x20 = .run [] (.done v) := rfl
  have hfail : step L (.run [] (.done v)) d = .fail .decode := by simp [step, stepDone, hd]
  rw [start, hread, scan_cons, hblank, scan_cons, hfail, scan_fail]

/-- No value's text is another's with a blank and more behind it. -/
theorem dumps_ends {layout : Layout} {v w : Json F} {a s t : Str} (ht : ∀ d ∈ s.head?, isJsonSpace d = false)
    (hw : w.dumps layout = v.dumps layout ++ a) (htext : 0x20 :: s = a ++ 0x20 :: t) : a = [] := by
  cases a with
  | nil => rfl
  | cons c a =>
    rw [List.cons_append, List.cons.injEq] at htext
    obtain ⟨rfl, rfl⟩ := htext
    cases a with
    | nil => exact absurd (ht 0x20 rfl) (by decide)
    | cons d a =>
      -- Under limits wide enough for both, the longer text both reads and faults.
      obtain ⟨n₁, h₁⟩ := Json.exists_intsWithin v
      obtain ⟨n₂, h₂⟩ := Json.exists_intsWithin w
      have hread : scan ⟨max n₁ n₂, max v.depth w.depth⟩ start ([] ++ w.dumps layout ++ []) = .ok w :=
        scan_dumps_top ⟨h₂ _ (le_max_right ..), le_max_right ..⟩ (by simp) (by simp)
      rw [List.nil_append, List.append_nil, hw, scan_beside ⟨h₁ _ (le_max_left ..), le_max_left ..⟩ (ht d rfl)] at hread
      cases hread

/-- **A value's text among other words can be told from them**: it ends at the first blank behind it. -/
theorem dumps_beside {layout : Layout} {v w : Json F} {s t : Str}
    (hs : ∀ d ∈ s.head?, isJsonSpace d = false) (ht : ∀ d ∈ t.head?, isJsonSpace d = false)
    (h : v.dumps layout ++ 0x20 :: s = w.dumps layout ++ 0x20 :: t) : v = w ∧ s = t := by
  have hsame : v.dumps layout = w.dumps layout := by
    rcases List.append_eq_append_iff.mp h with ⟨a, hw, htext⟩ | ⟨a, hv, htext⟩
    · rw [hw, dumps_ends hs hw htext, List.append_nil]
    · rw [hv, dumps_ends ht hv htext, List.append_nil]
  refine ⟨Json.dumps_injective hsame, ?_⟩
  rw [hsame, List.append_cancel_left_eq, List.cons.injEq] at h
  exact h.2

/-- Blanks behind a complete text change nothing. -/
theorem scan_append_space {s : State F} {a space : Str} {w : Json F} (h : scan L s a = .ok w)
    (hspace : ∀ c ∈ space, isJsonSpace c = true) : scan L s (a ++ space) = .ok w := by
  cases space with
  | nil => simpa using h
  | cons c space =>
    have hc : isJsonSpace c = true := hspace c (by simp)
    have hnumber : isNumberChar c = false ∧ c ≠ 0x49 := by
      simp only [isJsonSpace, Bool.or_eq_true, decide_eq_true_eq] at hc
      simp only [isNumberChar, isDigit, Bool.or_eq_false_iff, Bool.and_eq_false_iff, decide_eq_false_iff_not]
      omega
    have hstep : step L (a.foldl (step L) s) c = .run [] (.done w) := by
      rcases finish_ok h with hs | ⟨token, hs, hclose⟩
      · rw [hs, step, stepDone, if_pos hc]
      · rw [hs, step, stepNumber, hclose]
        simp [hnumber, stepDone, hc]
    have hend := scan_space_done L [] w [] fun d hd => hspace d (List.mem_cons_of_mem c hd)
    rw [List.append_nil] at hend
    rw [scan_append, scan_cons, hstep, hend]
    rfl

/-- Where a text is complete, or no longer can be: behind a top-level value or number. -/
def AtEnd : State F → Prop
  | .fail _ => True
  | .run [] (.done _) => True
  | .run [] (.num token) => token ≠ [] ∧ token ≠ [0x2d]
  | _ => False

omit [PyFloat F] in
theorem atEnd_stepDone (v : Json F) (c : Nat) : AtEnd (stepDone [] v c) := by
  unfold stepDone
  split <;> trivial

theorem atEnd_step (L : Limits) {s : State F} (h : AtEnd s) (c : Nat) : AtEnd (step L s c) := by
  match s, h with
  | .fail fault, _ => trivial
  | .run [] (.done v), _ => exact atEnd_stepDone v c
  | .run [] (.num token), ⟨hne, hminus⟩ =>
    show AtEnd (stepNumber L [] token c)
    unfold stepNumber
    split
    · refine ⟨by simp, ?_⟩
      intro heq
      have hlength := congrArg List.length heq
      have hpos := List.length_pos_of_ne_nil hne
      rw [List.length_append, List.length_singleton, List.length_singleton] at hlength
      omega
    · split
      · rename_i hletter
        exact absurd hletter.1 hminus
      · split
        · trivial
        · exact atEnd_stepDone _ c

theorem atEnd_foldl (L : Limits) {s : State F} (h : AtEnd s) (text : Str) : AtEnd (text.foldl (step L) s) := by
  induction text generalizing s with
  | nil => exact h
  | cons c text ih => exact ih (atEnd_step L h c)

theorem atEnd_of_complete {L : Limits} {s : State F} {v : Json F} (h : finish L s = .ok v) : AtEnd s := by
  rcases finish_ok h with rfl | ⟨token, rfl, hclose⟩
  · trivial
  · refine ⟨?_, ?_⟩
    · rintro rfl
      cases hclose
    · rintro rfl
      cases hclose

/-- **No proper beginning of an object's text is complete**: its last brace closes nothing then. -/
theorem not_complete_of_brace {L : Limits} {s : State F} {a b : Str} {v w : Json F}
    (hall : scan L s (a ++ (b ++ [0x7d])) = .ok w) : scan L s a ≠ .ok v := by
  intro ha
  have hend : AtEnd ((a ++ b).foldl (step L) s) := by
    rw [List.foldl_append]
    exact atEnd_foldl L (atEnd_of_complete ha) b
  rw [← List.append_assoc, scan_append] at hall
  generalize (a ++ b).foldl (step L) s = s' at hall hend
  match s', hend with
  | .fail fault, _ => cases hall
  | .run [] (.done v'), _ => cases hall
  | .run [] (.num token), _ =>
    change finish L (stepNumber L [] token 0x7d) = .ok w at hall
    obtain ⟨fault, hfault⟩ : ∃ fault, stepNumber L [] token 0x7d = (.fail fault : State F) := by
      simp only [stepNumber, show isNumberChar 0x7d = false from rfl, Bool.false_eq_true, if_false,
        show ¬ ((0x7d : Nat) = 0x49) by decide, and_false]
      cases (closeNumber L token : Except JsonFault (Json F)) with
      | error fault => exact ⟨fault, rfl⟩
      | ok v' => exact ⟨.decode, rfl⟩
    rw [hfault] at hall
    cases hall

/-- A file that was cut while an object was written into it reads as nothing. -/
theorem loads_beginning {layout : Layout} {v w : Json F} (hdict : v.isDict = true) (hfits : v.Fits L) {a : Str}
    (ha : a <+: v.dumps layout) (hload : Json.loads L a = .ok w) : a = v.dumps layout := by
  by_contra hne
  obtain ⟨b, hb⟩ := ha
  obtain ⟨inside, hinside⟩ := dumps_dict_ends hdict layout
  have hb' : b ≠ [] := by
    rintro rfl
    exact hne (by rw [← hb, List.append_nil])
  obtain ⟨front, hfront⟩ : ∃ front, b = front ++ [0x7d] := by
    have hlast : b.getLast? = some 0x7d := by
      rw [← List.getLast?_append_of_ne_nil a hb', hb, hinside, ← List.cons_append]
      exact List.getLast?_concat
    exact ⟨b.dropLast, (List.dropLast_append_getLast? _ hlast).symm⟩
  have hall : scan L start (a ++ (front ++ [0x7d])) = .ok v := by
    have hread : scan L start ([] ++ v.dumps layout ++ []) = .ok v := scan_dumps_top hfits nofun nofun
    rwa [List.nil_append, List.append_nil, ← hb, hfront] at hread
  obtain ⟨v', hscan, -⟩ := Json.scan_of_loads hload
  exact not_complete_of_brace hall hscan

/-- What stands before a raw boundary is not complete, stripped or not. -/
theorem cut_not_complete {layout : Layout} {v w : Json F} (hfits : v.Fits L) {a space b : Str} {c : Nat}
    (hspace : ∀ d ∈ space, isSpace d = true) (hc : isRawBreak c = true)
    (hsplit : v.dumps layout = a ++ (space ++ c :: b)) : scan L start a ≠ .ok w := by
  intro ha
  have hsplit' : v.dumps layout = (a ++ space.takeWhile isJsonSpace) ++ (space.dropWhile isJsonSpace ++ c :: b) := by
    rw [hsplit, List.append_assoc, ← List.append_assoc (space.takeWhile isJsonSpace), List.takeWhile_append_dropWhile]
  -- The first character that JSON does not skip is stray, whether the strip took it or not.
  obtain ⟨d, more, hnext, hd⟩ : ∃ d more, space.dropWhile isJsonSpace ++ c :: b = d :: more ∧
      (Stray d ∧ isNumberChar d = false ∧ d ≠ 0x49) := by
    cases hdrop : space.dropWhile isJsonSpace with
    | nil => exact ⟨c, b, rfl, rawBreak_stray hc⟩
    | cons d more =>
      have hmem : d ∈ space := (List.dropWhile_suffix isJsonSpace).subset (by simp [hdrop])
      have hjson : isJsonSpace d = false := by
        have := List.head?_dropWhile_not isJsonSpace space
        simpa [hdrop] using this
      exact ⟨d, more ++ c :: b, rfl, stray_of_isSpace (hspace d hmem) hjson⟩
  rw [hnext] at hsplit'
  obtain ⟨hstray, hnumber, hletter⟩ := hd
  exact beginning_not_complete hfits.1 (by simpa using hfits.2) hsplit' hstray hnumber hletter
    (scan_append_space ha fun d hd => List.mem_takeWhile_imp hd)

theorem isBreak_of_isRawBreak {c : Nat} (hc : isRawBreak c = true) : isBreak c = true ∧ c ≠ 0x0d := by
  simp only [isRawBreak, Bool.or_eq_true, decide_eq_true_eq, or_assoc] at hc
  rcases hc with rfl | rfl | rfl <;> decide

theorem noBreak_before {layout : Layout} {v : Json F} {a b : Str} (hsplit : v.dumps layout = a ++ b)
    (hno : NoRawBreak a) : NoBreak a := by
  intro d hd
  have hprint := (Json.writtenFrom_dumps layout v d (by rw [hsplit]; simp [hd])).1
  have hd' := hno d hd
  simp only [isRawBreak, Bool.or_eq_false_iff, decide_eq_false_iff_not] at hd'
  simp only [isBreak, Bool.or_eq_false_iff, decide_eq_false_iff_not]
  omega

/-- The first piece of a value that is cut at a raw boundary begins like the value, and faults. -/
theorem loads_cut {v : Json F} (hfits : v.Fits L) {d : Nat} {inside : Str} (hbegin : v.dumps .spaced = d :: inside)
    (hd : isSpace d = false) {a b : Str} {c : Nat} (hc : isRawBreak c = true) (hsplit : v.dumps .spaced = a ++ c :: b) :
    (strip a).head? = some d ∧ ∃ fault, (Json.loads L (strip a) : Except JsonFault (Json F)) = .error fault := by
  obtain ⟨a', ha⟩ : ∃ a', a = d :: a' := by
    cases a with
    | nil =>
      rw [hbegin, List.nil_append, List.cons.injEq] at hsplit
      have hspace := isSpace_of_isBreak (isBreak_of_isRawBreak hc).1
      rw [← hsplit.1, hd] at hspace
      cases hspace
    | cons d' a' =>
      rw [hbegin, List.cons_append, List.cons.injEq] at hsplit
      exact ⟨a', by rw [← hsplit.1]⟩
  have hhead : ∀ d' ∈ a.head?, isSpace d' = false := by
    intro d' hd'
    rw [ha] at hd'
    obtain rfl : d = d' := by simpa using hd'
    exact hd
  obtain ⟨after, hafter, hspace⟩ := exists_stripBy_of_head hhead
  constructor
  · have hne : strip a ≠ [] := by
      intro hnil
      rw [strip] at hnil
      rw [hnil, List.nil_append] at hafter
      have hspaced := hspace d (by simp [← hafter, ha])
      rw [hd] at hspaced
      cases hspaced
    rw [← List.head?_append_of_ne_nil _ hne, strip, ← hafter, ha]
    rfl
  · have hsplit' : v.dumps .spaced = strip a ++ (after ++ c :: b) := by
      rw [← List.append_assoc, strip, ← hafter]
      exact hsplit
    exact Json.loads_fault fun w => cut_not_complete hfits hspace hc hsplit'

/-- The same of a quoted text. -/
theorem quoted_cut (L : Limits) {s a b : Str} {c : Nat} (hc : isRawBreak c = true) (hsplit : quoted s = a ++ c :: b) :
    (strip a).head? = some 0x22 ∧ ∃ fault, (Json.loads L (strip a) : Except JsonFault (Json F)) = .error fault := by
  have hfits : (Json.str s : Json F).Fits L := ⟨rfl, Nat.zero_le _⟩
  have hbegin : (Json.str s : Json F).dumps .spaced = 0x22 :: (escape s ++ [0x22]) := rfl
  exact loads_cut hfits hbegin rfl hc hsplit

/-- **A record that is cut at a raw boundary stops the reader**, at its first piece. -/
theorem readLines_cut {v : Json F} (hfits : v.Fits L) (hdict : v.isDict = true)
    (hraw : ¬ ∀ s ∈ v.strings, NoRawBreak s) (rest : Str) :
    ∃ fault, (loadLines L (splitlines (v.dumps .spaced ++ 0x0a :: rest)) :
      Except JsonFault (List (Json F))) = .error fault := by
  have hbroken : ¬ NoRawBreak (v.dumps .spaced) := Json.rawBreak_dumps hraw
  obtain ⟨a, c, b, hsplit, hno, hc⟩ := exists_rawBreak hbroken
  have hbreak := isBreak_of_isRawBreak hc
  have hline : NoBreak a := noBreak_before hsplit hno
  have hfirst : splitlines (v.dumps .spaced ++ 0x0a :: rest) = a :: splitlines (b ++ 0x0a :: rest) := by
    rw [hsplit, List.append_assoc, splitlines, splitlinesFrom_append_noBreak hline, List.nil_append,
      List.cons_append, splitlinesFrom_break hbreak.1 hbreak.2]
    rfl
  obtain ⟨inside, hinside⟩ := dumps_dict_ends hdict .spaced
  obtain ⟨hhead, fault, hfault⟩ := loads_cut hfits hinside (by decide) hc hsplit
  have hne : strip a ≠ [] := fun hnil => by simp [hnil] at hhead
  exact ⟨fault, by rw [hfirst, loadLines, if_neg hne, hfault]⟩

theorem universalNewlines_records (layout : Layout) (vs : List (Json F)) :
    universalNewlines (vs.flatMap fun v => v.dumps layout ++ [0x0a]) =
      vs.flatMap fun v => v.dumps layout ++ [0x0a] := by
  refine universalNewlines_eq_self fun c hc => ?_
  obtain ⟨v, -, hc⟩ := List.mem_flatMap.mp hc
  rcases List.mem_append.mp hc with hc | hc
  · have := (Json.writtenFrom_dumps layout v c hc).1
    omega
  · rw [List.mem_singleton.mp hc]
    omega

theorem loadLines_records {vs : List (Json F)} (hfits : ∀ v ∈ vs, v.Fits L)
    (hdict : ∀ v ∈ vs, v.isDict = true) (hno : ∀ v ∈ vs, ∀ s ∈ v.strings, NoRawBreak s) :
    loadLines L (splitlines (vs.flatMap fun v => v.dumps .spaced ++ [0x0a])) = .ok (vs.map Json.dict) := by
  induction vs with
  | nil => rfl
  | cons v vs ih =>
    have hrest := ih (fun w hw => hfits w (by simp [hw])) (fun w hw => hdict w (by simp [hw]))
      fun w hw => hno w (by simp [hw])
    rw [List.flatMap_cons, List.append_assoc, List.singleton_append,
      readLines_whole (hfits v (by simp)) (hdict v (by simp)) (hno v (by simp)), hrest]
    rfl

theorem loadLines_fault {vs : List (Json F)} (hfits : ∀ v ∈ vs, v.Fits L)
    (hdict : ∀ v ∈ vs, v.isDict = true) (hraw : ¬ ∀ v ∈ vs, ∀ s ∈ v.strings, NoRawBreak s) :
    ∃ fault, (loadLines L (splitlines (vs.flatMap fun v => v.dumps .spaced ++ [0x0a])) :
      Except JsonFault (List (Json F))) = .error fault := by
  induction vs with
  | nil => exact absurd (fun v hv => by cases hv) hraw
  | cons v vs ih =>
    by_cases hv : ∀ s ∈ v.strings, NoRawBreak s
    · have hrest : ¬ ∀ w ∈ vs, ∀ s ∈ w.strings, NoRawBreak s := by
        intro hall
        refine hraw fun w hw => ?_
        rcases List.mem_cons.mp hw with rfl | hw
        · exact hv
        · exact hall w hw
      obtain ⟨fault, hfault⟩ := ih (fun w hw => hfits w (by simp [hw])) (fun w hw => hdict w (by simp [hw])) hrest
      refine ⟨fault, ?_⟩
      rw [List.flatMap_cons, List.append_assoc, List.singleton_append,
        readLines_whole (hfits v (by simp)) (hdict v (by simp)) hv, hfault]
      rfl
    · obtain ⟨fault, hfault⟩ := readLines_cut (hfits v (by simp)) (hdict v (by simp)) hv
        (vs.flatMap fun v => v.dumps .spaced ++ [0x0a])
      exact ⟨fault, by simpa using hfault⟩

/-- The writer writes exactly where no string holds a lone surrogate. -/
theorem writeLines_eq_ok {vs : List (Json F)} (hfits : ∀ v ∈ vs, v.Fits L) {file : Str} :
    writeLines L vs = .ok file ↔ file = vs.flatMap (fun v => v.dumps .spaced ++ [0x0a]) ∧
      ∀ v ∈ vs, ∀ s ∈ v.strings, isScalarText s = true := by
  have hscalar : isScalarText (vs.flatMap fun v => v.dumps .spaced ++ [0x0a]) = true ↔
      ∀ v ∈ vs, ∀ s ∈ v.strings, isScalarText s = true := by
    clear hfits
    induction vs with
    | nil => simp [isScalarText]
    | cons v vs ih =>
      rw [List.flatMap_cons, isScalarText_append, isScalarText_append, Json.isScalarText_dumps, ih]
      simp [isScalarText]
  rw [writeLines, linesText_ok hfits, ← hscalar]
  dsimp only
  split
  · rename_i htext
    exact ⟨fun h => ⟨(Except.ok.inj h).symm, htext⟩, fun h => congrArg Except.ok h.1.symm⟩
  · rename_i htext
    exact ⟨fun h => (by cases h), fun h => absurd h.2 htext⟩

/-- **A file with a broken record cannot be read at all.** -/
theorem readLines_fault {vs : List (Json F)} (hfits : ∀ v ∈ vs, v.Fits L)
    (hdict : ∀ v ∈ vs, v.isDict = true) {file : Str} (hwrite : writeLines L vs = .ok file)
    (h : ¬ ∀ v ∈ vs, ∀ s ∈ v.strings, isScalarText s = true ∧ NoRawBreak s) :
    ∃ fault, (readLines L file : Except JsonFault (List (Json F))) = .error fault := by
  obtain ⟨rfl, hscalar⟩ := (writeLines_eq_ok hfits).mp hwrite
  rw [readLines, universalNewlines_records]
  refine loadLines_fault hfits hdict fun hno => h fun v hv s hs => ?_
  exact ⟨hscalar v hv s hs, hno v hv s hs⟩

/-- **The round trip of a file of dictionaries.** Writing and reading back gives the same dictionaries
exactly where no string in them holds a lone surrogate or a raw line boundary. -/
theorem readLines_writeLines_iff {vs : List (Json F)} (hfits : ∀ v ∈ vs, v.Fits L) (hdict : ∀ v ∈ vs, v.isDict = true) :
    (∃ file, writeLines L vs = .ok file ∧ readLines L file = .ok (vs.map Json.dict)) ↔
      ∀ v ∈ vs, ∀ s ∈ v.strings, isScalarText s = true ∧ NoRawBreak s := by
  constructor
  · rintro ⟨file, hwrite, hread⟩
    by_contra hbroken
    obtain ⟨fault, hfault⟩ := readLines_fault hfits hdict hwrite hbroken
    rw [hfault] at hread
    cases hread
  · intro hall
    refine ⟨_, (writeLines_eq_ok hfits).mpr ⟨rfl, fun v hv s hs => (hall v hv s hs).1⟩, ?_⟩
    rw [readLines, universalNewlines_records]
    exact loadLines_records hfits hdict fun v hv s hs => (hall v hv s hs).2

end File

end Autophagy.Python
