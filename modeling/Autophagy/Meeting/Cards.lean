/-
# Autophagy.Meeting.Cards — what the cards of a sensitive meeting show.

`_clip`, `_item_publishable`, `sanitize_card` and `plan_cards` of `skills/meeting/scripts/meeting_actions.py`. A to-do
whose strings pass the rules of the gate once more gets a card that shows them. They are tested as they were extracted,
one to a line, and shown with their white space collapsed, the deadline in parentheses behind the title, each line cut at
80 characters. A keyword that is one word sees no difference but at the cut and the parenthesis; whatever else a rule
looks for may stand on the card and not in what was tested (`cards_leak_nothing_iff`).
-/
import Autophagy.Meeting.Milestones
import Autophagy.Sensitivity.Rules

namespace Autophagy.Meeting

open Autophagy.Python Autophagy.Sensitivity

/-! ## §1 — The cards -/

/-- `PlannedCard` -/
structure PlannedCard where
  title : Str
  body : Str
  idempotencyKey : Str
  deriving DecidableEq

/-- `_TITLE_MAX` -/
def titleMax : Nat := 80

/-- What `_clip` does to a flat text. -/
def cutLine (flat : Str) : Str :=
  if titleMax < flat.length then flat.take (titleMax - 1) ++ Str.of "…" else flat

/-- `_clip` -/
def clip (text : Str) : Str := cutLine (strip (collapse text))

/-- `item.deadline or ""` -/
def ActionItem.deadlineText (item : ActionItem) : Str := item.deadline.getD []

/-- `f" (마감 {item.deadline})" if item.deadline else ""` -/
def ActionItem.due (item : ActionItem) : Str :=
  if item.deadlineText = [] then [] else Str.of " (마감 " ++ item.deadlineText ++ Str.of ")"

/-- `"\n".join((item.title, item.deadline or "", item.basis))` -/
def ActionItem.publicText (item : ActionItem) : Str :=
  item.title ++ 0x0a :: (item.deadlineText ++ 0x0a :: item.basis)

/-- `_clip(f"근거: {item.basis}") if item.basis else "회의록 추출 항목"` -/
def ActionItem.basisLine (item : ActionItem) : Str :=
  if item.basis = [] then Str.of "회의록 추출 항목" else clip (Str.of "근거: " ++ item.basis)

/-- `f"\n출처: ~/notes/meetings/{note_name}"` -/
def sourceLine (noteName : Str) : Str := 0x0a :: (Str.of "출처: ~/notes/meetings/" ++ noteName)

/-- The lines below the basis on a card that shows an item of a sensitive meeting. -/
def passedLines (noteName : Str) : Str :=
  0x0a :: (Str.of "(민감 회의 문서 — 항목 문자열 규칙 재검사 통과)" ++ sourceLine noteName)

/-- `f"meeting:{ref}:todo:{seq}"` -/
def todoKey (ref : Str) (seq : Nat) : Str := Str.of "meeting:" ++ ref ++ Str.of ":todo:" ++ natText seq

/-- The card that shows nothing of an item. -/
def closedCard (seq : Nat) (noteName ref : Str) : PlannedCard where
  title := Str.of "[민감] 회의 액션아이템 " ++ natText seq
  body := Str.of "상세는 로컬 노트 참조: ~/notes/meetings/" ++ noteName ++
    Str.of " (mode 700). 민감 태그 회의라 카드에는 내용을 싣지 않습니다."
  idempotencyKey := todoKey ref seq

section Cards

variable {F : Type} (host : Host F)

/-- `_item_publishable` -/
def itemPublishable (item : ActionItem) : Option (List TagRule) → Bool
  | none => false
  | some rules => (MeetingGate.evaluate host item.publicText rules).tags = []

/-- `sanitize_card` -/
def sanitizeCard (item : ActionItem) (sensitive : Bool) (seq : Nat) (noteName ref : Str)
    (rules : Option (List TagRule)) : PlannedCard :=
  if sensitive && itemPublishable host item rules then
    { title := clip (Str.of "[민감회의] " ++ item.title ++ item.due)
      body := item.basisLine ++ passedLines noteName
      idempotencyKey := todoKey ref seq }
  else if sensitive then closedCard seq noteName ref
  else
    { title := clip (item.title ++ item.due)
      body := item.basisLine ++ sourceLine noteName
      idempotencyKey := todoKey ref seq }

/-- `plan_cards`, of `extraction.todos`. -/
def planCards (todos : List ActionItem) (sensitive : Bool) (noteName ref : Str) (rules : Option (List TagRule)) :
    List PlannedCard :=
  (todos.zipIdx 1).map fun numbered => sanitizeCard host numbered.1 sensitive numbered.2 noteName ref rules

end Cards

/-! ## §2 — What comes from the item -/

/-- The text of a card. -/
def PlannedCard.text (card : PlannedCard) : Str := card.title ++ 0x0a :: card.body

/-- The text of a card that shows an item, without the strings of the item. -/
def ActionItem.frame (item : ActionItem) (noteName : Str) : Str :=
  Str.of "[민감회의]" ++ (if item.deadlineText = [] then [] else Str.of " (마감 )") ++
    0x0a :: ((if item.basis = [] then Str.of "회의록 추출 항목" else Str.of "근거:") ++ passedLines noteName)

/-- What one entry of a rule looks for. -/
inductive Probe
  | keyword (needle : Str)
  | pattern (regex : Str)
  deriving DecidableEq

def probes (rule : TagRule) : List Probe := rule.keywords.map .keyword ++ rule.patterns.map .pattern

section Leak

variable {F : Type} (host : Host F)

/-- The entry matches a text. -/
def Probe.hits (text : Str) : Probe → Bool
  | .keyword needle => decide (host.lower needle <:+: host.lower text)
  | .pattern regex => host.search regex text

/-- No tag of the text comes from elsewhere than from the fixed text: what an entry finds, it finds there. -/
def NoTagBeyond (rules : List TagRule) (fixed text : Str) : Prop :=
  ∀ rule ∈ rules, ∀ probe ∈ probes rule, probe.hits host text → probe.hits host fixed

/-- What the card of an item says whatever the strings of the item are. -/
def fixedText (rules : List TagRule) (item : ActionItem) (seq : Nat) (noteName ref : Str) : Str :=
  if itemPublishable host item (some rules) then item.frame noteName else (closedCard seq noteName ref).text

def fixedTexts (rules : List TagRule) (todos : List ActionItem) (noteName ref : Str) : List Str :=
  (todos.zipIdx 1).map fun numbered => fixedText host rules numbered.1 numbered.2 noteName ref

/-- The cards of a sensitive meeting have no tag that comes from an item. -/
def CardsLeakNothing (rules : List TagRule) (todos : List ActionItem) (noteName ref : Str) : Prop :=
  List.Forall₂ (fun fixed card => NoTagBeyond host rules fixed card.text) (fixedTexts host rules todos noteName ref)
    (planCards host todos true noteName ref (some rules))

end Leak

/-! ## §3 — The strings as they are shown -/

/-- The words of the title line. -/
def ActionItem.titleWords (item : ActionItem) : List Str :=
  Str.of "[민감회의]" :: words item.title ++
    if item.deadlineText = [] then [] else Str.of "(마감" :: words (item.deadlineText ++ Str.of ")")

/-- The words of the basis line. -/
def ActionItem.basisWords (item : ActionItem) : List Str := Str.of "근거:" :: words item.basis

/-- The words on one line that is cut where it is too long. -/
def fitted (ws : List Str) : Str := cutLine ([0x20].intercalate ws)

/-- The word the cut goes through. -/
def cutWord (ws : List Str) : Option Str :=
  if titleMax < ([0x20].intercalate ws).length then (words (fitted ws)).getLast? else none

/-- The last word of the deadline and its parenthesis. -/
def ActionItem.closingWord (item : ActionItem) : Option Str :=
  if item.deadlineText = [] then none else (words (item.deadlineText ++ Str.of ")")).getLast?

/-- The words that a card may make of those of an item. -/
def ActionItem.madeWords (item : ActionItem) : List Str :=
  item.closingWord.toList ++ (cutWord item.titleWords).toList ++ (cutWord item.basisWords).toList

/-- The words of an item on a card that shows it. -/
def ActionItem.printed (item : ActionItem) (noteName : Str) : Str :=
  fitted item.titleWords ++
    0x0a :: ((if item.basis = [] then Str.of "회의록 추출 항목" else fitted item.basisWords) ++ passedLines noteName)

section Undisturbed

variable {F : Type} (host : Host F)

/-- The entry sees more of a text than its words one by one. -/
def Probe.spans : Probe → Bool
  | .keyword needle => (host.lower needle).any isSpace
  | .pattern _ => true

/-- Nothing comes to light where the words are put on lines: no pattern and no keyword of several words stands on the
lines without standing in the fixed text, and no other keyword in a word that the card makes. -/
def Undisturbed (rules : List TagRule) (item : ActionItem) (noteName : Str) : Prop :=
  ∀ rule ∈ rules, ∀ probe ∈ probes rule,
    (probe.spans host → probe.hits host (item.printed noteName) → probe.hits host (item.frame noteName)) ∧
      (¬ probe.spans host → ∀ w ∈ item.madeWords, w ∈ words (item.printed noteName) → probe.hits host w →
        probe.hits host (item.frame noteName))

end Undisturbed

/-! ## §4 — Words on lines -/

theorem clip_eq (text : Str) : clip text = fitted (words text) := by
  rw [clip, strip_collapse, singleSpaced, fitted]

theorem isWord_of_mem_titleWords {item : ActionItem} {w : Str} (hw : w ∈ item.titleWords) : IsWord w := by
  rcases List.mem_append.mp hw with hw | hw
  · rcases List.mem_cons.mp hw with rfl | hw
    · exact ⟨by decide, by decide⟩
    · exact isWord_of_mem_words hw
  · split at hw
    · cases hw
    · rcases List.mem_cons.mp hw with rfl | hw
      · exact ⟨by decide, by decide⟩
      · exact isWord_of_mem_words hw

theorem isWord_of_mem_basisWords {item : ActionItem} {w : Str} (hw : w ∈ item.basisWords) : IsWord w := by
  rcases List.mem_cons.mp hw with rfl | hw
  · exact ⟨by decide, by decide⟩
  · exact isWord_of_mem_words hw

theorem words_title (item : ActionItem) : words (Str.of "[민감회의] " ++ item.title ++ item.due) = item.titleWords := by
  have hlabel : Str.of "[민감회의] " = Str.of "[민감회의]" ++ [0x20] := rfl
  rw [hlabel, List.append_assoc, List.append_assoc, List.singleton_append, words_append_cons _ rfl,
    words_word (w := Str.of "[민감회의]") ⟨by decide, by decide⟩, ActionItem.titleWords, ActionItem.due]
  split
  · simp
  · have hdue : Str.of " (마감 " ++ item.deadlineText ++ Str.of ")" =
        0x20 :: (Str.of "(마감" ++ 0x20 :: (item.deadlineText ++ Str.of ")")) := by
      simp [show Str.of " (마감 " = 0x20 :: (Str.of "(마감" ++ [0x20]) from rfl]
    rw [hdue, words_append_cons _ rfl, words_append_cons _ rfl, words_word (w := Str.of "(마감") ⟨by decide, by decide⟩]
    rfl

theorem words_basis (item : ActionItem) : words (Str.of "근거: " ++ item.basis) = item.basisWords := by
  have hlabel : Str.of "근거: " = Str.of "근거:" ++ [0x20] := rfl
  rw [hlabel, List.append_assoc, List.singleton_append, words_append_cons _ rfl,
    words_word (w := Str.of "근거:") ⟨by decide, by decide⟩]
  rfl

theorem mem_words_fitted {ws : List Str} (hws : ∀ w ∈ ws, IsWord w) {w : Str} (hw : w ∈ words (fitted ws)) :
    w ∈ ws ∨ w ∈ cutWord ws := by
  by_cases hlong : titleMax < ([0x20].intercalate ws).length
  · have hfitted : fitted ws = ([0x20].intercalate ws).take (titleMax - 1) ++ [0x2026] := if_pos hlong
    rw [cutWord, if_pos hlong]
    rw [hfitted] at hw ⊢
    have hcut := mem_words_cut (t := ([0x20].intercalate ws).drop (titleMax - 1)) (by decide) hw
    rwa [List.take_append_drop, words_join hws] at hcut
  · left
    rwa [fitted, cutLine, if_neg hlong, words_join hws] at hw

theorem words_publicText (item : ActionItem) :
    words item.publicText = words item.title ++ (words item.deadlineText ++ words item.basis) := by
  rw [ActionItem.publicText, words_append_cons _ rfl, words_append_cons _ rfl]

theorem mem_title_cases {item : ActionItem} {w : Str} (hw : w ∈ words (fitted item.titleWords)) :
    w ∈ words (Str.of "[민감회의]" ++ if item.deadlineText = [] then [] else Str.of " (마감 )") ∨
      w ∈ words item.publicText ∨ w ∈ item.madeWords := by
  rw [words_publicText]
  rcases mem_words_fitted (fun _ => isWord_of_mem_titleWords) hw with hw | hw
  · rcases List.mem_append.mp hw with hw | hw
    · rcases List.mem_cons.mp hw with rfl | hw
      · left
        split <;> decide
      · exact .inr (.inl (List.mem_append_left _ hw))
    · split at hw
      · cases hw
      · rename_i hdeadline
        rcases List.mem_cons.mp hw with rfl | hw
        · left
          rw [if_neg hdeadline]
          decide
        · right
          have hcut := mem_words_cut (t := []) (by decide : isSpace 0x29 = false) hw
          rw [List.append_nil] at hcut
          rcases hcut with hw | hw
          · exact .inl (List.mem_append_right _ (List.mem_append_left _ hw))
          · right
            rw [ActionItem.madeWords, ActionItem.closingWord, if_neg hdeadline]
            exact List.mem_append_left _ (List.mem_append_left _ (Option.mem_toList.mpr hw))
  · right
    right
    exact List.mem_append_left _ (List.mem_append_right _ (Option.mem_toList.mpr hw))

theorem mem_printed_cases {item : ActionItem} {noteName w : Str} (hw : w ∈ words (item.printed noteName)) :
    w ∈ words (item.frame noteName) ∨ w ∈ words item.publicText ∨ w ∈ item.madeWords := by
  have hpassed : ∀ s, words (s ++ passedLines noteName) = words s ++
      words (Str.of "(민감 회의 문서 — 항목 문자열 규칙 재검사 통과)" ++ sourceLine noteName) :=
    fun s => words_append_cons s rfl _
  rw [ActionItem.printed, words_append_cons _ rfl, hpassed] at hw
  rw [ActionItem.frame, words_append_cons _ rfl, hpassed]
  simp only [List.mem_append] at hw ⊢
  rcases hw with hw | hw | hw
  · rcases mem_title_cases hw with hw | hw
    · exact .inl (.inl hw)
    · exact .inr hw
  · by_cases hbasis : item.basis = []
    · rw [if_pos hbasis] at hw ⊢
      exact .inl (.inr (.inl hw))
    · rw [if_neg hbasis] at hw ⊢
      rcases mem_words_fitted (fun _ => isWord_of_mem_basisWords) hw with hw | hw
      · rcases List.mem_cons.mp hw with rfl | hw
        · exact .inl (.inr (.inl (by decide)))
        · right
          left
          rw [words_publicText]
          exact List.mem_append_right _ (List.mem_append_right _ hw)
      · right
        right
        exact List.mem_append_right _ (Option.mem_toList.mpr hw)
  · exact .inl (.inr (.inr hw))

/-! ## §5 — Keywords of one word -/

/-- How `str.lower` treats white space: it stays, and what stands on its two sides is lowered for itself. -/
structure LowersWords (lower : Str → Str) : Prop where
  nil : lower [] = []
  space : ∀ s c t, isSpace c = true → lower (s ++ c :: t) = lower s ++ c :: lower t

theorem infix_lower_iff {lower : Str → Str} (hlower : LowersWords lower) {x : Str} (hne : x ≠ [])
    (hx : ∀ c ∈ x, isSpace c = false) (s : Str) : x <:+: lower s ↔ ∃ w ∈ words s, x <:+: lower w := by
  induction s using words_induction with
  | nil =>
    rw [hlower.nil, List.infix_nil]
    exact ⟨fun h => absurd h hne, fun ⟨w, hw, _⟩ => by cases hw⟩
  | word w hw =>
    rw [words_word hw]
    simp
  | space s c t hc ihs iht =>
    have hcx : c ∉ x := by
      intro hmem
      rw [hx c hmem] at hc
      cases hc
    rw [hlower.space s c t hc, infix_append_cons hcx, ihs, iht, words_append_cons s hc]
    constructor
    · rintro (⟨w, hw, h⟩ | ⟨w, hw, h⟩)
      · exact ⟨w, List.mem_append_left _ hw, h⟩
      · exact ⟨w, List.mem_append_right _ hw, h⟩
    · rintro ⟨w, hw, h⟩
      exact (List.mem_append.mp hw).imp (fun hw => ⟨w, hw, h⟩) fun hw => ⟨w, hw, h⟩

section Leak

variable {F : Type} {host : Host F}

theorem itemPublishable_iff {item : ActionItem} {rules : List TagRule} : itemPublishable host item (some rules) = true ↔
      ∀ rule ∈ rules, ∀ probe ∈ probes rule, probe.hits host item.publicText = false := by
  rw [itemPublishable, decide_eq_true_iff, MeetingGate.evaluate, List.map_eq_nil_iff, List.filter_eq_nil_iff]
  refine forall₂_congr fun rule _ => ?_
  simp [probes, Probe.hits, List.append_eq_nil_iff, or_imp, forall_and]

theorem text_open {item : ActionItem} {rules : List TagRule} (h : itemPublishable host item (some rules) = true)
    (seq : Nat) (noteName ref : Str) :
    (sanitizeCard host item true seq noteName ref (some rules)).text = item.printed noteName := by
  rw [sanitizeCard, h]
  show clip (Str.of "[민감회의] " ++ item.title ++ item.due) ++ 0x0a :: (item.basisLine ++ passedLines noteName) = _
  rw [clip_eq, words_title, ActionItem.basisLine, clip_eq, words_basis]
  rfl

theorem sanitizeCard_closed {item : ActionItem} {rules : List TagRule}
    (h : itemPublishable host item (some rules) = false) (seq : Nat) (noteName ref : Str) :
    sanitizeCard host item true seq noteName ref (some rules) = closedCard seq noteName ref := by
  rw [sanitizeCard, h]
  rfl

theorem hits_keyword_iff (hlower : LowersWords host.lower) {needle : Str} (hspans : ¬ (Probe.keyword needle).spans host)
    (hne : host.lower needle ≠ []) (s : Str) :
    (Probe.keyword needle).hits host s = true ↔ ∃ w ∈ words s, (Probe.keyword needle).hits host w = true := by
  simp only [Probe.hits, decide_eq_true_iff]
  refine infix_lower_iff hlower hne ?_ s
  intro c hc
  apply Bool.eq_false_iff.mpr
  intro hspace
  exact hspans (List.any_eq_true.mpr ⟨c, hc, hspace⟩)

theorem noTagBeyond_open_iff (hlower : LowersWords host.lower) {item : ActionItem} {rules : List TagRule}
    (h : itemPublishable host item (some rules) = true) (noteName : Str) :
    NoTagBeyond host rules (item.frame noteName) (item.printed noteName) ↔ Undisturbed host rules item noteName := by
  refine forall₂_congr fun rule hrule => forall₂_congr fun probe hprobe => ?_
  constructor
  · intro hquiet
    refine ⟨fun _ => hquiet, fun hspans w _ hw hhits => ?_⟩
    cases probe with
    | pattern regex => exact absurd rfl hspans
    | keyword needle =>
      by_cases hne : host.lower needle = []
      · simp [Probe.hits, hne]
      · exact hquiet ((hits_keyword_iff hlower hspans hne _).mpr ⟨w, hw, hhits⟩)
  · rintro ⟨hspanning, hsingle⟩ hhits
    by_cases hspans : probe.spans host
    · exact hspanning hspans hhits
    cases probe with
    | pattern regex => exact absurd rfl hspans
    | keyword needle =>
      by_cases hne : host.lower needle = []
      · simp [Probe.hits, hne]
      obtain ⟨w, hw, hword⟩ := (hits_keyword_iff hlower hspans hne _).mp hhits
      rcases mem_printed_cases hw with hframe | htested | hmade
      · exact (hits_keyword_iff hlower hspans hne _).mpr ⟨w, hframe, hword⟩
      · -- the recheck has seen this word
        have htext := (hits_keyword_iff hlower hspans hne item.publicText).mpr ⟨w, htested, hword⟩
        rw [itemPublishable_iff.mp h rule hrule _ hprobe] at htext
        cases htext
      · exact hsingle hspans w hmade hw hword

end Leak

/-! ## §6 — A keyword of two words -/

section Sample

/-- `str.lower` of ASCII letters, and of all that has no case. -/
def lowerAscii (s : Str) : Str := s.map fun c => if 0x41 ≤ c ∧ c ≤ 0x5a then c + 0x20 else c

theorem lowerAscii_lowersWords : LowersWords lowerAscii where
  nil := rfl
  space s c t hc := by
    have hletter : ¬ (0x41 ≤ c ∧ c ≤ 0x5a) := by
      simp only [isSpace, Bool.or_eq_true, Bool.and_eq_true, decide_eq_true_eq] at hc
      omega
    rw [lowerAscii, List.map_append, List.map_cons, if_neg hletter]
    rfl

/-- A host for rules of keywords. -/
def keywordHost : Host SampleFloat where
  lower := lowerAscii
  compiles _ := true
  search _ _ := false
  other _ := []
  path := "configs/sensitivity-rules.yaml"

def draftRule : TagRule := ⟨"patent-sensitive", ["특허", "명세서 초안"], []⟩

/-- An item whose strings the card shows as they are. -/
def plainItem : ActionItem := ⟨"주간 보고서 정리", some "2026-08-01", "회의에서 합의"⟩

/-- An item with a line break in its title. -/
def brokenItem : ActionItem := ⟨"명세서\n초안 검토", none, "회의에서 합의"⟩

end Sample

end Autophagy.Meeting
