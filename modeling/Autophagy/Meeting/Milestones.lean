/-
# Autophagy.Meeting.Milestones — the milestones file in the meeting skill's own hands.

`_emit_milestones`, the dependency-free branch of `_parse_milestones`, and `update_milestones` of
`skills/meeting/scripts/meeting_actions.py`. Unlike the poller's reader this one gives what stands behind a label to
`json.loads` as it is. Both read a file exactly where no text of it has one of the three boundaries that JSON leaves as
they are; then an update finds what an earlier one wrote (`milestones_iff_unbroken`).
-/
import Autophagy.Effect.Stateful
import Autophagy.Python.Demand
import Autophagy.Python.Sample
import Autophagy.ReminderPoller.Milestones

namespace Autophagy.Meeting

open Autophagy.Python Autophagy.Python.JsonScan Autophagy.Effect Autophagy.ReminderPoller

/-! ## §1 — The skill -/

/-- What an update raises: from the reader, a key an entry lacks, a pair that has no hash, an encoding. -/
inductive MilestoneFault
  | json (fault : JsonFault)
  | key (name : Str)
  | unhashable
  | encode
  deriving DecidableEq

/-- `ActionItem`, less the owner, which no milestone shows. -/
structure ActionItem where
  title : Str
  deadline : Option Str
  basis : Str
  deriving DecidableEq

/-- The arguments of one update; `stamp` is `now.isoformat(timespec="seconds")`. -/
structure Update where
  items : List ActionItem
  sensitive : Bool
  noteName : Str
  stamp : Str
  deriving DecidableEq

section Skill

variable {F : Type} [PyFloat F] (limits : Limits)

/-- The fallback of `_parse_milestones`. -/
def parseFallback (raw : Str) : Except JsonFault (List (Dict Str (Json F))) :=
  (splitlines raw).foldlM (parseLineWith (Json.loads limits)) []

/-- The lines of an entry: their labels, and the keys of their values. -/
def emitted : List (Label × Str) :=
  [(.title, Str.of "title"), (.field (Str.of "deadline"), Str.of "deadline"),
    (.field (Str.of "basis"), Str.of "basis"), (.field (Str.of "source"), Str.of "source"),
    (.field (Str.of "added"), Str.of "added")]

/-- One line of `_emit_milestones`. -/
def emitLine (entry : Dict Str (Json F)) (line : Label × Str) : Except MilestoneFault Str :=
  match entry.get? line.2 with
  | none => .error (.key line.2)
  | some value =>
    match value.dumpsWithin limits .spaced with
    | .error fault => .error (.json fault)
    | .ok text => .ok (line.1.text ++ text ++ [0x0a])

/-- `_emit_milestones` -/
def emitEntries (entries : List (Dict Str (Json F))) : Except MilestoneFault Str := do
  let blocks ← entries.mapM fun entry => emitted.mapM (emitLine limits entry)
  return header ++ blocks.flatten.flatten

/-- What `seen` holds for an entry. -/
def seenPair (entry : Dict Str (Json F)) : Except MilestoneFault (Option (Json F) × Option (Json F)) :=
  let hashable : Option (Json F) → Bool
    | some (.arr _) | some (.obj _) => false
    | _ => true
  let pair := (entry.get? "title", entry.get? "deadline")
  if hashable pair.1 && hashable pair.2 then .ok pair else .error .unhashable

/-- `(title, deadline) in seen` -/
def isSeen (seen : List (Option (Json F) × Option (Json F))) (title deadline : Str) : Bool :=
  seen.any fun pair =>
    match pair with
    | (some (.str t), some (.str d)) => t = title ∧ d = deadline
    | _ => false

/-- The title and the deadline an item is written with. -/
def shownTitle (update : Update) (item : ActionItem) (seq : Nat) : Str :=
  if update.sensitive then
    Str.of "[민감] 회의 마일스톤 " ++ natText seq ++ Str.of " — 상세: ~/notes/meetings/" ++ update.noteName
  else item.title

def shownDeadline (item : ActionItem) : Str :=
  match item.deadline with
  | none => "미정"
  | some deadline => if deadline = [] then "미정" else deadline

/-- The entry that is written for an item. -/
def newEntry (update : Update) (item : ActionItem) (seq : Nat) : Dict Str (Json F) :=
  ((((Dict.empty.set (Str.of "title") (.str (shownTitle update item seq))).set (Str.of "deadline")
    (.str (shownDeadline item))).set (Str.of "basis")
      (.str (if update.sensitive then "로컬 노트 참조" else item.basis))).set (Str.of "source")
        (.str (Str.of "meeting:" ++ update.noteName))).set (Str.of "added") (.str update.stamp)

/-- `existing`, `seen` and `added` in the loop. -/
structure Merged (F : Type) where
  existing : List (Dict Str (Json F))
  seen : List (Option (Json F) × Option (Json F))
  added : Nat

/-- The body of the loop. -/
def mergeItem (update : Update) (merged : Merged F) (numbered : ActionItem × Nat) : Merged F :=
  let title := shownTitle update numbered.1 numbered.2
  let deadline := shownDeadline numbered.1
  if isSeen merged.seen title deadline then merged
  else
    { existing := merged.existing ++ [newEntry update numbered.1 numbered.2]
      seen := merged.seen ++ [(some (.str title), some (.str deadline))]
      added := merged.added + 1 }

/-- `state_file.write_text(text)`: the file is emptied, then the text is encoded. -/
def writeState (text : Str) : Stateful (Option Str) MilestoneFault Unit :=
  if isScalarText text then .modify fun _ => some text
  else do
    .modify fun _ => some []
    .raise .encode

/-- `_parse_milestones(state_file.read_text(…)) if state_file.exists() else []` -/
def readState : Option Str → Except MilestoneFault (List (Dict Str (Json F)))
  | none => .ok []
  | some text =>
    match parseFallback limits (universalNewlines text) with
    | .error fault => .error (.json fault)
    | .ok entries => .ok entries

/-- `update_milestones`, on the text of the state file. -/
def updateMilestones (F : Type) [PyFloat F] (limits : Limits) (update : Update) :
    Stateful (Option Str) MilestoneFault Nat := do
  let existing ← .read (@readState F _ limits)
  let seen ← .get (existing.mapM seenPair)
  let merged := (update.items.zipIdx 1).foldl (mergeItem update) ⟨existing, seen, 0⟩
  let text ← .get (emitEntries limits merged.existing)
  writeState text
  return merged.added

end Skill

/-! ## §2 — Entries of texts -/

/-- The texts of an entry. -/
structure Texts where
  title : Str
  deadline : Str
  basis : Str
  source : Str
  added : Str
  deriving DecidableEq

def Texts.scalars (texts : Texts) : List (Label × Str) :=
  [(.title, texts.title), (.field (Str.of "deadline"), texts.deadline), (.field (Str.of "basis"), texts.basis),
    (.field (Str.of "source"), texts.source), (.field (Str.of "added"), texts.added)]

def Texts.entry {F : Type} (texts : Texts) : Dict Str (Json F) :=
  ((((Dict.empty.set (Str.of "title") (.str texts.title)).set (Str.of "deadline") (.str texts.deadline)).set
    (Str.of "basis") (.str texts.basis)).set (Str.of "source") (.str texts.source)).set (Str.of "added")
      (.str texts.added)

def Texts.pair {F : Type} (texts : Texts) : Option (Json F) × Option (Json F) :=
  (some (.str texts.title), some (.str texts.deadline))

/-- The texts of a record, which could all be encoded. -/
def recordTexts (record : MilestoneRecord) : Texts :=
  ⟨record.title, record.deadline, record.basis, record.source, record.added⟩

section Entries

variable {F : Type} [PyFloat F] {limits : Limits}

theorem emitLine_str {entry : Dict Str (Json F)} {line : Label × Str} {text : Str}
    (h : entry.get? line.2 = some (.str text)) :
    emitLine limits entry line = .ok (line.1.text ++ quoted text ++ [0x0a]) := by
  have hwithin : (Json.str text : Json F).dumpsWithin limits .spaced = .ok (quoted text) := rfl
  rw [emitLine, h]
  dsimp only
  rw [hwithin]

theorem emitEntry_texts (texts : Texts) : emitted.mapM (emitLine limits (texts.entry : Dict Str (Json F))) =
      .ok (texts.scalars.map fun scalar => scalar.1.text ++ quoted scalar.2 ++ [0x0a]) := by
  simp only [emitted, List.mapM_cons, List.mapM_nil]
  rw [@emitLine_str _ _ _ _ _ texts.title rfl, @emitLine_str _ _ _ _ _ texts.deadline rfl,
    @emitLine_str _ _ _ _ _ texts.basis rfl, @emitLine_str _ _ _ _ _ texts.source rfl,
    @emitLine_str _ _ _ _ _ texts.added rfl]
  rfl

theorem emitEntries_texts (all : List Texts) : emitEntries limits (all.map (Texts.entry : Texts → Dict Str (Json F))) =
      .ok (header ++ emitScalars (all.flatMap Texts.scalars)) := by
  have hblocks : (all.map (Texts.entry : Texts → Dict Str (Json F))).mapM
      (fun entry => emitted.mapM (emitLine limits entry)) =
      .ok (all.map fun texts => texts.scalars.map fun scalar => scalar.1.text ++ quoted scalar.2 ++ [0x0a]) := by
    rw [mapM_ok, List.forall₂_map_left_iff, List.forall₂_map_right_iff, List.forall₂_same]
    exact fun texts _ => emitEntry_texts texts
  rw [emitEntries, hblocks]
  show Except.ok _ = Except.ok _
  rw [emitScalars, List.flatMap_assoc, List.flatten_flatten, List.map_map, List.flatMap_def]
  congr 3

omit [PyFloat F] in
theorem seenPairs_texts (all : List Texts) :
    (all.map (Texts.entry : Texts → Dict Str (Json F))).mapM seenPair = .ok (all.map Texts.pair) := by
  rw [mapM_ok, List.forall₂_map_left_iff, List.forall₂_map_right_iff, List.forall₂_same]
  exact fun _ _ => rfl

omit [PyFloat F] in
theorem isSeen_texts {all : List Texts} {title deadline : Str} :
    isSeen (all.map (Texts.pair : Texts → Option (Json F) × Option (Json F))) title deadline = true ↔
      ∃ texts ∈ all, texts.title = title ∧ texts.deadline = deadline := by
  rw [isSeen, List.any_map, List.any_eq_true]
  simp [Texts.pair]

/-! ## §3 — Updates -/

/-- Every item of the update is among the entries, by its title and deadline. -/
def Known (update : Update) (all : List Texts) : Prop :=
  ∀ numbered ∈ update.items.zipIdx 1, ∃ texts ∈ all,
    texts.title = shownTitle update numbered.1 numbered.2 ∧ texts.deadline = shownDeadline numbered.1

omit [PyFloat F] in
theorem foldl_mergeItem (update : Update) (items : List (ActionItem × Nat)) (all : List Texts) (n : Nat) :
    ∃ fresh : List Texts, items.foldl (mergeItem update) (⟨all.map Texts.entry, all.map Texts.pair, n⟩ : Merged F) =
        ⟨(all ++ fresh).map Texts.entry, (all ++ fresh).map Texts.pair, n + fresh.length⟩ ∧
      (∀ numbered ∈ items, ∃ texts ∈ all ++ fresh,
        texts.title = shownTitle update numbered.1 numbered.2 ∧ texts.deadline = shownDeadline numbered.1) ∧
      ((∀ numbered ∈ items, ∃ texts ∈ all,
        texts.title = shownTitle update numbered.1 numbered.2 ∧ texts.deadline = shownDeadline numbered.1) →
          fresh = []) := by
  induction items generalizing all n with
  | nil => exact ⟨[], by simp, by simp, fun _ => rfl⟩
  | cons item items ih =>
    rw [List.foldl_cons]
    by_cases hseen : isSeen (all.map (Texts.pair : Texts → Option (Json F) × Option (Json F)))
        (shownTitle update item.1 item.2) (shownDeadline item.1) = true
    · have hstep : mergeItem update (⟨all.map Texts.entry, all.map Texts.pair, n⟩ : Merged F) item =
          ⟨all.map Texts.entry, all.map Texts.pair, n⟩ := if_pos hseen
      obtain ⟨fresh, hfold, hknown, hnone⟩ := ih all n
      obtain ⟨texts, htexts, hpair⟩ := isSeen_texts.mp hseen
      refine ⟨fresh, by rw [hstep, hfold], fun numbered hmem => ?_, fun h => ?_⟩
      · rcases List.mem_cons.mp hmem with rfl | hmem
        · exact ⟨texts, List.mem_append_left _ htexts, hpair⟩
        · exact hknown numbered hmem
      · exact hnone fun numbered hmem => h numbered (List.mem_cons_of_mem _ hmem)
    · let new : Texts := ⟨shownTitle update item.1 item.2, shownDeadline item.1,
        if update.sensitive then "로컬 노트 참조" else item.1.basis, Str.of "meeting:" ++ update.noteName, update.stamp⟩
      have hstep : mergeItem update (⟨all.map Texts.entry, all.map Texts.pair, n⟩ : Merged F) item =
          ⟨(all ++ [new]).map Texts.entry, (all ++ [new]).map Texts.pair, n + 1⟩ := by
        refine (if_neg hseen).trans ?_
        rw [List.map_append, List.map_append]
        rfl
      obtain ⟨fresh, hfold, hknown, -⟩ := ih (all ++ [new]) (n + 1)
      rw [List.append_assoc, List.singleton_append] at hfold hknown
      refine ⟨new :: fresh, ?_, fun numbered hmem => ?_, fun h => ?_⟩
      · rw [hstep, hfold, List.length_cons]
        congr 1
        omega
      · rcases List.mem_cons.mp hmem with rfl | hmem
        · exact ⟨new, by simp, rfl, rfl⟩
        · exact hknown numbered hmem
      · exact absurd (isSeen_texts.mpr (h item List.mem_cons_self)) hseen

theorem forall_emit {P : Nat → Prop} {records : List MilestoneRecord} (hnewline : P 0x0a)
    (hascii : ∀ c, 0x20 ≤ c → c < 0x7f → P c)
    (hquoted : ∀ record ∈ records, ∀ scalar ∈ record.scalars, ∀ c ∈ quoted scalar.2, P c) :
    ∀ c ∈ emitMilestones records, P c := by
  have hprint : ∀ {text : Str}, (∀ c ∈ text, c = 0x0a ∨ 0x20 ≤ c ∧ c < 0x7f) → ∀ c ∈ text, P c := by
    intro text htext c hc
    rcases htext c hc with rfl | ⟨hlow, hhigh⟩
    · exact hnewline
    · exact hascii c hlow hhigh
  have hlabels : ∀ line ∈ emitted, ∀ c ∈ line.1.text, c = 0x0a ∨ 0x20 ≤ c ∧ c < 0x7f := by decide
  have hlabel : ∀ record : MilestoneRecord, ∀ scalar ∈ record.scalars, ∀ c ∈ scalar.1.text,
      c = 0x0a ∨ 0x20 ≤ c ∧ c < 0x7f := by
    intro record scalar hscalar
    have hlabel : ∃ line ∈ emitted, line.1 = scalar.1 := by
      simp only [MilestoneRecord.scalars, List.mem_cons, List.not_mem_nil, or_false] at hscalar
      rcases hscalar with rfl | rfl | rfl | rfl | rfl <;> simp [emitted]
    obtain ⟨line, hline, heq⟩ := hlabel
    rw [← heq]
    exact hlabels line hline
  intro c hc
  rcases List.mem_append.mp hc with hc | hc
  · exact hprint (by decide) c hc
  obtain ⟨scalar, hscalar, hc⟩ := List.mem_flatMap.mp hc
  obtain ⟨record, hrecord, hscalar⟩ := List.mem_flatMap.mp hscalar
  rcases List.mem_append.mp hc with hc | hc
  · rcases List.mem_append.mp hc with hc | hc
    · exact hprint (hlabel record scalar hscalar) c hc
    · exact hquoted record hrecord scalar hscalar c hc
  · rw [List.mem_singleton.mp hc]
    exact hnewline

theorem universalNewlines_emit (F : Type) [PyFloat F] (records : List MilestoneRecord) :
    universalNewlines (emitMilestones records) = emitMilestones records := by
  apply universalNewlines_eq_self
  apply forall_emit
  · decide
  · intro c hlow _ hcr
    omega
  · intro record _ scalar _ c hc hcr
    have hlow := (Json.writtenFrom_dumps .spaced (Json.str scalar.2 : Json F) c hc).1
    omega

theorem scalar_writable (record : MilestoneRecord) : ∀ scalar ∈ record.scalars, isScalarText scalar.2 = true := by
  intro scalar hscalar
  apply record.writable
  simp only [MilestoneRecord.scalars, List.mem_cons, List.not_mem_nil, or_false] at hscalar
  rcases hscalar with rfl | rfl | rfl | rfl | rfl <;> simp

theorem isScalarText_emit (F : Type) [PyFloat F] (records : List MilestoneRecord) :
    isScalarText (emitMilestones records) = true := by
  apply List.all_eq_true.mpr
  apply forall_emit
  · decide
  · intro c _ hhigh
    have hsurrogate : ¬ 0xd800 ≤ c := by omega
    simp [hsurrogate]
  · intro record _ scalar hscalar
    have hquoted : isScalarText ((Json.str scalar.2 : Json F).dumps .spaced) = true :=
      Json.isScalarText_dumps.mpr (by simpa [Json.strings] using scalar_writable record scalar hscalar)
    exact List.all_eq_true.mp hquoted

/-! ## §4 — Reading back -/

theorem reads_loads (F : Type) [PyFloat F] (limits : Limits) :
    Reads (Json.loads limits : Str → Except JsonFault (Json F)) Json.str where
  quoted s := Json.loads_quoted limits s
  cut := by
    intro s a b c hc hsplit
    constructor
    · rintro rfl
      rw [List.nil_append, quoted, List.cons.injEq] at hsplit
      rw [← hsplit.1] at hc
      cases hc
    · obtain ⟨hstray, hnumber, hletter⟩ := rawBreak_stray hc
      exact Json.loads_fault fun w =>
        @beginning_not_complete F _ limits .spaced (.str s) w [] a b c rfl (Nat.zero_le _) hsplit hstray hnumber hletter

/-- `str(loaded)`: a string is itself, and `other` is the text of what is none. -/
def strOf {F : Type} (other : Json F → Str) : Json F → Str
  | .str s => s
  | v => other v

/-- The entry that the skill's reader makes of a record. -/
def readEntry {F : Type} (record : MilestoneRecord) : Dict Str (Json F) := record.entryWith Json.str

theorem readState_emit {records : List MilestoneRecord}
    (h : ∀ record ∈ records, record.Unbroken) :
    (readState limits (some (emitMilestones records)) : Except _ (List (Dict Str (Json F)))) =
      .ok (records.map readEntry) := by
  have hparse := @parse_emit _ _ _ _ (reads_loads F limits) _ h
  rw [readState, universalNewlines_emit F, parseFallback, hparse]
  rfl

theorem updateMilestones_fold {disk : Option Str} {all out : List Texts} {n : Nat} {update : Update}
    {seen : List (Option (Json F) × Option (Json F))}
    (hread : readState limits disk = .ok (all.map (Texts.entry : Texts → Dict Str (Json F))))
    (hfold : (update.items.zipIdx 1).foldl (mergeItem update) ⟨all.map Texts.entry, all.map Texts.pair, 0⟩ =
      ⟨out.map Texts.entry, seen, n⟩) :
    updateMilestones F limits update disk = (do
        writeState (header ++ emitScalars (out.flatMap Texts.scalars))
        return n : Stateful (Option Str) MilestoneFault Nat) disk := by
  have hfound : Stateful.read (@readState F _ limits) disk = (.ok (all.map Texts.entry), disk) := by
    rw [Stateful.read_apply, hread]
  unfold updateMilestones
  rw [Stateful.bind_of_ok hfound, seenPairs_texts, Stateful.get_ok_bind, hfold, emitEntries_texts, Stateful.get_ok_bind]

theorem writeState_bind {text : Str} (h : isScalarText text = true) (n : Nat) (disk : Option Str) :
    (do writeState text; return n : Stateful (Option Str) MilestoneFault Nat) disk = (.ok n, some text) := by
  rw [writeState, if_pos h]
  rfl

theorem updateMilestones_emit {records : List MilestoneRecord} (h : ∀ record ∈ records, record.Unbroken)
    (update : Update) :
    ∃ fresh : List Texts, Known update (records.map recordTexts ++ fresh) ∧
      (Known update (records.map recordTexts) → fresh = []) ∧
      updateMilestones F limits update (some (emitMilestones records)) = (do
          writeState (header ++ emitScalars ((records.map recordTexts ++ fresh).flatMap Texts.scalars))
          return fresh.length : Stateful (Option Str) MilestoneFault Nat) (some (emitMilestones records)) := by
  obtain ⟨fresh, hfold, hknown, hnone⟩ :=
    foldl_mergeItem (F := F) update (update.items.zipIdx 1) (records.map recordTexts) 0
  have hentries : records.map readEntry = (records.map recordTexts).map (Texts.entry : Texts → Dict Str (Json F)) := by
    rw [List.map_map]
    rfl
  have hread := @readState_emit F _ limits _ h
  rw [hentries] at hread
  rw [Nat.zero_add] at hfold
  exact ⟨fresh, hknown, hnone, updateMilestones_fold hread hfold⟩

/-- Both readers return the written entries, and an update of items that are among them adds nothing and leaves the
file. -/
def RoundTrips (F : Type) [PyFloat F] (limits : Limits) (other : Json F → Str) (records : List MilestoneRecord) : Prop :=
  parseMilestones limits (strOf other) (emitMilestones records) = .ok (records.map MilestoneRecord.entry) ∧
    (parseFallback limits (emitMilestones records) : Except _ (List (Dict Str (Json F)))) =
      .ok (records.map readEntry) ∧
    ∀ update, Known update (records.map recordTexts) →
      updateMilestones F limits update (some (emitMilestones records)) = (.ok 0, some (emitMilestones records))

/-- **The milestones file** is read back by both readers, and repeating an update adds nothing, exactly where no text of
it has one of the boundaries that JSON leaves as they are. -/
theorem milestones_iff_unbroken (F : Type) [PyFloat F] (limits : Limits) (other : Json F → Str)
    (records : List MilestoneRecord) :
    RoundTrips F limits other records ↔ ∀ record ∈ records, record.Unbroken := by
  constructor
  · rintro ⟨hpoller, -, -⟩
    by_contra hbroken
    obtain ⟨fault, hfault⟩ := @parseMilestones_broken F _ (strOf other) limits (fun _ => rfl) _ hbroken
    rw [hpoller] at hfault
    cases hfault
  · intro h
    refine ⟨parseMilestones_emit (fun _ => rfl) h, parse_emit (reads_loads F limits) h, fun update hknown => ?_⟩
    obtain ⟨fresh, -, hnone, hupdate⟩ := @updateMilestones_emit F _ limits _ h update
    obtain rfl := hnone hknown
    have htext : header ++ emitScalars ((records.map recordTexts ++ []).flatMap Texts.scalars) =
        emitMilestones records := by
      rw [List.append_nil, List.flatMap_map]
      rfl
    rw [hupdate, htext, writeState_bind (isScalarText_emit F records)]
    rfl

end Entries

/-- A milestone `보고서\u2028제출` of a meeting's minutes. -/
def separatedItem : ActionItem := ⟨Str.of "보고서" ++ 0x2028 :: Str.of "제출", some "2026-07-20", []⟩

def separatedUpdate : Update := ⟨[separatedItem], false, "n.md", "2026-07-16T09:00:00+09:00"⟩

def separatedRecord : MilestoneRecord where
  title := separatedItem.title
  deadline := "2026-07-20"
  basis := []
  source := "meeting:n.md"
  added := "2026-07-16T09:00:00+09:00"
  writable := by decide

/-- An update writes it, and neither reader nor the same update again can read the file. -/
theorem separated_milestone_is_not_read :
    let limits : Limits := ⟨4300, 1000⟩
    let file := emitMilestones [separatedRecord]
    updateMilestones SampleFloat limits separatedUpdate none = (.ok 1, some file) ∧
      (∃ fault, parseMilestones limits (strOf fun _ : Json SampleFloat => []) file = .error fault) ∧
      (∃ fault, (parseFallback limits file : Except _ (List (Dict Str (Json SampleFloat)))) = .error fault) ∧
      (∃ fault, updateMilestones SampleFloat limits separatedUpdate (some file) = (.error fault, some file)) ∧
      ¬ RoundTrips SampleFloat limits (fun _ => []) [separatedRecord] := by
  intro limits file
  have hbroken : ¬ ∀ record ∈ [separatedRecord], record.Unbroken := by decide
  obtain ⟨fault, hpoller⟩ := @parseMilestones_broken SampleFloat _ (strOf fun _ => []) limits (fun _ => rfl) _ hbroken
  obtain ⟨fault', hskill⟩ := parse_broken (reads_loads SampleFloat limits) hbroken
  have hread : (readState limits (some file) : Except _ (List (Dict Str (Json SampleFloat)))) =
      .error (.json fault') := by
    rw [readState, universalNewlines_emit SampleFloat, parseFallback, hskill]
  have hwrite : updateMilestones SampleFloat limits separatedUpdate none = (.ok 1, some file) := by
    have hread : readState limits none =
        .ok (([] : List Texts).map (Texts.entry : Texts → Dict Str (Json SampleFloat))) := rfl
    have hfold : (separatedUpdate.items.zipIdx 1).foldl (mergeItem separatedUpdate)
        (⟨([] : List Texts).map Texts.entry, ([] : List Texts).map Texts.pair, 0⟩ : Merged SampleFloat) =
          ⟨[recordTexts separatedRecord].map Texts.entry, [(recordTexts separatedRecord).pair], 1⟩ := rfl
    have hencoded := isScalarText_emit SampleFloat [separatedRecord]
    exact (updateMilestones_fold hread hfold).trans (writeState_bind hencoded 1 none)
  refine ⟨hwrite, ⟨fault, hpoller⟩, ⟨fault', hskill⟩, ⟨.json fault', ?_⟩, fun h => ?_⟩
  · exact Stateful.bind_of_error (by rw [Stateful.read_apply, hread]) _
  · rw [h.1] at hpoller
    cases hpoller

end Autophagy.Meeting
