/-
# Autophagy.Procurement.Filled — a verified draft is filled where no placeholder is split.

A draft that `verify` lets pass has each placeholder of its template replaced, and nothing else changed, exactly where
joining runs drops and moves no text, no placeholder runs over two text nodes of the joined paragraph, and no carriage
return stands outside the placeholders (`filled_iff_fillable`).

`verify` reads the text nodes with a line break between them, so it sees a placeholder that is split within its name.
One that is split between its braces it does not see (`split_braces_verified`).
-/
import Autophagy.Procurement.Docx

namespace Autophagy.Procurement

open Autophagy.Python Autophagy.Text

namespace Elements

/-! ## §1 — The text of a run -/

/-- The text in front of the first text node at the top. -/
def earlierText : Elements → Str
  | .nil => []
  | .cons e children next => if e.tag = tTag then [] else children.texts.flatten ++ next.earlierText

/-- The text behind that text node, and in it. -/
def laterText : Elements → Str
  | .nil => []
  | .cons e children next => if e.tag = tTag then children.texts.flatten ++ next.texts.flatten else next.laterText

theorem find_cons (tag : Str) (e : Element) (children next : Elements) :
    (cons e children next).find tag = if e.tag = tag then some (e, children) else next.find tag := rfl

theorem flatten_texts {children : Elements} (h : (children.find tTag).isSome = true) :
    children.texts.flatten = children.earlierText ++ children.firstText ++ children.laterText := by
  induction children with
  | nil => cases h
  | cons e children next _ ih =>
    rw [find_cons] at h
    by_cases htag : e.tag = tTag
    · simp [texts, earlierText, laterText, firstText, find_cons, htag]
    · rw [if_neg htag] at h
      have hnext := ih h
      simp only [firstText] at hnext
      simp [texts, earlierText, laterText, firstText, find_cons, htag, hnext]

theorem rPrTag_ne_tTag : rPrTag ≠ tTag := by
  unfold rPrTag tTag wordTag
  rw [Ne, List.append_cancel_left_eq]
  decide

theorem flatten_texts_appendText {children : Elements} (h : (children.find tTag).isSome = true) (addition : Str) :
    (children.appendText addition).texts.flatten =
      children.earlierText ++ children.firstText ++ addition ++ children.laterText := by
  induction children with
  | nil => cases h
  | cons e children next _ ih =>
    rw [find_cons] at h
    by_cases htag : e.tag = tTag
    · simp [appendText, texts, earlierText, laterText, firstText, find_cons, htag]
    · rw [if_neg htag] at h
      have hnext := ih h
      simp only [firstText] at hnext
      simp [appendText, texts, earlierText, laterText, firstText, find_cons, htag, hnext]

theorem appendText_nil (children : Elements) : children.appendText [] = children := by
  induction children with
  | nil => rfl
  | cons e children next _ ih =>
    rw [appendText, ih, List.append_nil]
    exact ite_self _

theorem appendText_appendText (children : Elements) (a b : Str) :
    (children.appendText a).appendText b = children.appendText (a ++ b) := by
  induction children with
  | nil => rfl
  | cons e children next _ ih =>
    by_cases htag : e.tag = tTag
    · simp [appendText, htag]
    · simp [appendText, htag, ih]

theorem find_appendText (tag : Str) (htag : tag ≠ tTag) (children : Elements) (addition : Str) :
    (children.appendText addition).find tag = children.find tag := by
  induction children with
  | nil => rfl
  | cons e children next _ ih =>
    by_cases he : e.tag = tTag
    · have hne : ¬ e.tag = tag := fun h => htag (h.symm.trans he)
      have hne' : ¬ tTag = tag := fun h => htag h.symm
      simp [appendText, he, find_cons, hne']
    · simp [appendText, he, find_cons, ih]

theorem isSome_find_appendText (children : Elements) (addition : Str) :
    ((children.appendText addition).find tTag).isSome = (children.find tTag).isSome := by
  induction children with
  | nil => rfl
  | cons e children next _ ih =>
    by_cases he : e.tag = tTag
    · simp [appendText, he, find_cons]
    · simp [appendText, he, find_cons, ih]

theorem allTags_appendText (tags : List Str) (children : Elements) (addition : Str) :
    (children.appendText addition).allTags tags = children.allTags tags := by
  induction children with
  | nil => rfl
  | cons e children next _ ih =>
    by_cases he : e.tag = tTag
    · simp [appendText, he, allTags]
    · simp [appendText, he, allTags, ih]

theorem paragraphs_appendText (children : Elements) (addition : Str) :
    (children.appendText addition).paragraphs = children.paragraphs := by
  induction children with
  | nil => rfl
  | cons e children next _ ih =>
    by_cases he : e.tag = tTag
    · simp [appendText, he, paragraphs]
    · simp [appendText, he, paragraphs, ih]

theorem joins_appendText (e : Element) (children : Elements) (addition : Str) (e' : Element) (children' : Elements) :
    joins e (children.appendText addition) e' children' = joins e children e' children' := by
  simp only [joins, isTextRun, find_appendText _ rPrTag_ne_tTag, allTags_appendText, isSome_find_appendText]

theorem joins_tag {e : Element} {children : Elements} {e' : Element} {children' : Elements}
    (h : joins e children e' children' = true) : e.tag = rTag ∧ e'.tag = rTag := by
  simp only [joins, Bool.and_eq_true, decide_eq_true_eq] at h
  exact h.1.1.1

theorem rTag_ne_tTag : rTag ≠ tTag := by
  unfold rTag tTag wordTag
  rw [Ne, List.append_cancel_left_eq]
  decide

theorem rTag_ne_pTag : rTag ≠ pTag := by
  unfold rTag pTag wordTag
  rw [Ne, List.append_cancel_left_eq]
  decide

theorem paragraphs_run {e : Element} (he : e.tag = rTag) (children next : Elements) :
    (cons e children next).paragraphs = children.paragraphs ++ next.paragraphs := by
  rw [paragraphs, if_neg (by rw [he]; exact rTag_ne_pTag), List.nil_append]

theorem joins_isSome {e : Element} {children : Elements} {e' : Element} {children' : Elements}
    (h : joins e children e' children' = true) :
    (children.find tTag).isSome = true ∧ (children'.find tTag).isSome = true := by
  simp only [joins, Bool.and_eq_true] at h
  exact h.2

/-! ## §2 — Joining runs -/

/-- Joining keeps the text, from a run on to whose first text node `added` has been appended: all text of a run that is
joined to it stands in its first text node, no paragraph is in that run, and what is appended may as well stand behind
the later text of the first run. -/
def KeepsFrom (e : Element) (children : Elements) (added : Str) : Elements → Prop
  | .nil => added ++ children.laterText = children.laterText ++ added
  | .cons e' children' next =>
    if joins e children e' children' then
      (children'.earlierText = [] ∧ children'.laterText = [] ∧ children'.paragraphs = []) ∧
        KeepsFrom e children (added ++ children'.firstText) next
    else added ++ children.laterText = children.laterText ++ added ∧ KeepsFrom e' children' [] next

/-- Joining the runs of a paragraph keeps its text. -/
def Keeps : Elements → Prop
  | .nil => True
  | .cons e children next => KeepsFrom e children [] next

theorem texts_cons (e : Element) (children next : Elements) : (cons e children next).texts.flatten =
      (cons e children .nil).texts.flatten ++ next.texts.flatten := by
  simp [texts]

/-- A run to which text was appended. -/
theorem flatten_texts_run {e : Element} {children : Elements} {added : Str}
    (h : added = [] ∨ (children.find tTag).isSome = true) :
    ∃ before, (cons e children .nil).texts.flatten = before ++ children.laterText ∧
      (cons e (children.appendText added) .nil).texts.flatten = before ++ added ++ children.laterText := by
  cases hfind : (children.find tTag).isSome with
  | true =>
    refine ⟨(if e.tag = tTag then [e.text] else []).flatten ++ children.earlierText ++ children.firstText, ?_, ?_⟩
    · simp [texts, flatten_texts hfind]
    · simp [texts, flatten_texts_appendText hfind]
  | false =>
    have hadded : added = [] := by
      rcases h with h | h
      · exact h
      · rw [hfind] at h
        cases h
    have hlater : children.laterText = [] := by
      clear h
      induction children with
      | nil => rfl
      | cons e' children' next _ ih =>
        rw [find_cons] at hfind
        by_cases htag : e'.tag = tTag
        · rw [if_pos htag] at hfind
          cases hfind
        · rw [if_neg htag] at hfind
          rw [laterText, if_neg htag, ih hfind]
    exact ⟨(cons e children .nil).texts.flatten, by simp [hlater], by simp [hadded, hlater, appendText_nil]⟩

/-- Joining runs makes no text, and no paragraph. -/
theorem joinFrom_le (e : Element) (children : Elements) (rest : Elements) :
    (joinFrom e children rest).texts.flatten.length ≤ (cons e children rest).texts.flatten.length ∧
      (joinFrom e children rest).paragraphs.Sublist (cons e children rest).paragraphs := by
  induction rest generalizing e children with
  | nil => exact ⟨le_rfl, List.Sublist.refl _⟩
  | cons e' children' next _ ih =>
    rw [joinFrom]
    split
    · next hjoins =>
        obtain ⟨hfind, hfind'⟩ := joins_isSome hjoins
        obtain ⟨hlen, hsub⟩ := ih e (children.appendText children'.firstText)
        constructor
        · refine hlen.trans ?_
          simp only [texts, List.flatten_append, List.length_append, flatten_texts_appendText hfind,
            flatten_texts hfind, flatten_texts hfind']
          omega
        · refine hsub.trans ?_
          obtain ⟨he, he'⟩ := joins_tag hjoins
          rw [paragraphs_run he, paragraphs_run he, paragraphs_run he', paragraphs_appendText]
          exact (List.Sublist.refl _).append (List.sublist_append_right _ _)
    · obtain ⟨hlen, hsub⟩ := ih e' children'
      constructor
      · rw [texts_cons e children (joinFrom e' children' next), texts_cons e children (cons e' children' next),
          List.length_append, List.length_append]
        omega
      · rw [paragraphs, paragraphs]
        exact (List.Sublist.refl _).append hsub

theorem paragraphs_cons (e : Element) (children next : Elements) :
    (cons e children next).paragraphs = (cons e children .nil).paragraphs ++ next.paragraphs := by
  simp [paragraphs]

/-- **What is kept**, from a run on. -/
theorem joinFrom_kept_iff {e : Element} {children : Elements} {added : Str} (rest : Elements)
    (h : added = [] ∨ e.tag = rTag ∧ (children.find tTag).isSome = true) :
    ((joinFrom e (children.appendText added) rest).texts.flatten =
        (cons e children .nil).texts.flatten ++ added ++ rest.texts.flatten ∧
      (joinFrom e (children.appendText added) rest).paragraphs = (cons e children rest).paragraphs) ↔
      KeepsFrom e children added rest := by
  induction rest generalizing e children added with
  | nil =>
    obtain ⟨before, hrun, hadded⟩ := flatten_texts_run (e := e) (h.imp_right And.right)
    have hown : (cons e (children.appendText added) .nil).paragraphs = (cons e children .nil).paragraphs := by
      rcases h with rfl | ⟨he, -⟩
      · rw [appendText_nil]
      · rw [paragraphs_run he, paragraphs_run he, paragraphs_appendText]
    rw [joinFrom, KeepsFrom, hadded, hrun, hown]
    simp [texts]
  | cons e' children' next _ ih =>
    obtain ⟨before, hrun, hadded⟩ := flatten_texts_run (e := e) (h.imp_right And.right)
    rw [joinFrom, KeepsFrom, joins_appendText]
    by_cases hjoins : joins e children e' children' = true
    · obtain ⟨hfind, hfind'⟩ := joins_isSome hjoins
      obtain ⟨he, he'⟩ := joins_tag hjoins
      have hne : e'.tag ≠ tTag := by rw [he']; exact rTag_ne_tTag
      have hfollowing : (cons e' children' next).texts.flatten =
          children'.earlierText ++ children'.firstText ++ children'.laterText ++ next.texts.flatten := by
        rw [texts, if_neg hne, List.nil_append, List.flatten_append, flatten_texts hfind']
      rw [if_pos hjoins, if_pos hjoins, appendText_appendText, ← ih (.inr ⟨he, hfind⟩), hfollowing,
        paragraphs_run he, paragraphs_run he, paragraphs_run he']
      constructor
      · rintro ⟨htexts, hparagraphs⟩
        -- Joining makes nothing, so nothing is left for what it drops.
        obtain ⟨hlen, hsub⟩ := joinFrom_le e (children.appendText (added ++ children'.firstText)) next
        obtain ⟨before', hrun', hadded'⟩ :=
          @flatten_texts_run e children (added ++ children'.firstText) (.inr hfind)
        rw [htexts, texts_cons e (children.appendText _) next, hadded', hrun'] at hlen
        simp only [List.length_append] at hlen
        have hearlier : children'.earlierText = [] := List.length_eq_zero_iff.mp (by omega)
        have hlater : children'.laterText = [] := List.length_eq_zero_iff.mp (by omega)
        have hless := hsub.length_le
        rw [hparagraphs, paragraphs_run he, paragraphs_appendText] at hless
        simp only [List.length_append] at hless
        have hnone : children'.paragraphs = [] := List.length_eq_zero_iff.mp (by omega)
        refine ⟨⟨hearlier, hlater, hnone⟩, ?_, ?_⟩
        · rw [htexts, hearlier, hlater]
          simp
        · rw [hparagraphs, hnone, List.nil_append]
      · rintro ⟨⟨hearlier, hlater, hnone⟩, htexts, hparagraphs⟩
        constructor
        · rw [htexts, hearlier, hlater]
          simp
        · rw [hparagraphs, hnone, List.nil_append]
    · have hnext := @ih e' children' [] (.inl rfl)
      rw [appendText_nil, List.append_nil, ← texts_cons] at hnext
      have hown : (cons e (children.appendText added) .nil).paragraphs = (cons e children .nil).paragraphs := by
        rcases h with rfl | ⟨he, -⟩
        · rw [appendText_nil]
        · rw [paragraphs_run he, paragraphs_run he, paragraphs_appendText]
      rw [if_neg hjoins, if_neg hjoins, ← hnext, texts_cons, hadded, hrun,
        paragraphs_cons e (children.appendText added), paragraphs_cons e children (cons e' children' next), hown,
        List.append_cancel_left_eq]
      constructor
      · rintro ⟨htexts, hparagraphs⟩
        obtain ⟨hhere, hthere⟩ := List.append_inj htexts (by simp only [List.length_append]; omega)
        rw [List.append_assoc, List.append_assoc, List.append_cancel_left_eq] at hhere
        exact ⟨hhere, hthere, hparagraphs⟩
      · rintro ⟨hhere, hthere, hparagraphs⟩
        rw [hthere, List.append_assoc before, hhere, ← List.append_assoc before]
        exact ⟨rfl, hparagraphs⟩

/-- **Joining the runs of a paragraph** keeps its text and the paragraphs in it. -/
theorem joinRuns_kept_iff (children : Elements) :
    (children.joinRuns.texts.flatten = children.texts.flatten ∧ children.joinRuns.paragraphs = children.paragraphs) ↔
      children.Keeps := by
  cases children with
  | nil => simp [joinRuns, Keeps]
  | cons e children next =>
    have h := @joinFrom_kept_iff e children [] next (.inl rfl)
    rw [appendText_nil, List.append_nil, ← texts_cons] at h
    exact h

theorem joinRuns_sublist (children : Elements) : children.joinRuns.paragraphs.Sublist children.paragraphs := by
  cases children with
  | nil => exact List.Sublist.refl _
  | cons e children next => exact (joinFrom_le e children next).2

/-! ## §3 — A whole document -/

/-- Joining keeps the text of every paragraph, as it comes to it. -/
def KeepsAll : Elements → Prop
  | .nil => True
  | .cons e children next => (e.tag = pTag → children.Keeps) ∧ KeepsAll (joinIn e children) ∧ KeepsAll next
termination_by elements => elements.size
decreasing_by
  · have h := size_joinIn e children
    simp only [size]
    omega
  · simp only [size]
    omega

theorem joinIn_sublist (e : Element) (children : Elements) :
    (joinIn e children).paragraphs.Sublist children.paragraphs := by
  unfold joinIn
  split
  · exact joinRuns_sublist children
  · exact List.Sublist.refl _

theorem joinIn_kept_iff (e : Element) (children : Elements) :
    ((joinIn e children).texts.flatten = children.texts.flatten ∧ (joinIn e children).paragraphs = children.paragraphs) ↔
      (e.tag = pTag → children.Keeps) := by
  unfold joinIn
  by_cases hp : e.tag = pTag
  · rw [if_pos hp, joinRuns_kept_iff]
    exact ⟨fun h _ => h, fun h => h hp⟩
  · rw [if_neg hp]
    exact ⟨fun _ h => absurd h hp, fun _ => ⟨rfl, rfl⟩⟩

theorem length_coalesce (elements : Elements) : elements.coalesce.paragraphs.length ≤ elements.paragraphs.length := by
  induction elements using coalesce.induct with
  | case1 => rw [coalesce]
  | case2 e children next ihChildren ihNext =>
    rw [coalesce, paragraphs, paragraphs]
    have hinner := (joinIn_sublist e children).length_le
    simp only [List.length_append]
    split <;> simp only [List.length_cons, List.length_nil] <;> omega

theorem coalesce_of_keepsAll (elements : Elements) (h : elements.KeepsAll) :
    elements.coalesce.texts.flatten = elements.texts.flatten ∧
      elements.coalesce.paragraphs.map List.flatten = elements.paragraphs.map List.flatten := by
  induction elements using coalesce.induct with
  | case1 =>
    rw [coalesce]
    exact ⟨rfl, rfl⟩
  | case2 e children next ihChildren ihNext =>
    rw [KeepsAll] at h
    obtain ⟨hkeeps, hchildren, hnext⟩ := h
    obtain ⟨htexts, hparagraphs⟩ := ihChildren hchildren
    obtain ⟨htexts', hparagraphs'⟩ := ihNext hnext
    obtain ⟨hinner, hinner'⟩ := (joinIn_kept_iff e children).mpr hkeeps
    rw [coalesce]
    constructor
    · simp only [texts, List.flatten_append, htexts, htexts', hinner]
    · simp only [paragraphs, List.map_append, hparagraphs, hparagraphs', hinner']
      split
      · simp only [List.map_cons, List.map_nil, htexts, hinner]
      · rfl

/-- **Joining keeps the text of every paragraph** exactly where it keeps that of each one it comes to. -/
theorem coalesce_kept_iff (elements : Elements) :
    elements.coalesce.paragraphs.map List.flatten = elements.paragraphs.map List.flatten ↔ elements.KeepsAll := by
  refine ⟨fun h => ?_, fun h => (coalesce_of_keepsAll elements h).2⟩
  induction elements using coalesce.induct with
  | case1 =>
    rw [KeepsAll]
    trivial
  | case2 e children next ihChildren ihNext =>
    rw [coalesce, paragraphs, paragraphs] at h
    simp only [List.map_append] at h
    -- No part can have more paragraphs than before, so each has as many.
    have hsub := joinIn_sublist e children
    have hless := hsub.length_le
    have hlen := length_coalesce (joinIn e children)
    have hlen' := length_coalesce next
    have htotal := congrArg List.length h
    simp only [List.length_append, List.length_map] at htotal
    have hif : (if e.tag = pTag then [(joinIn e children).coalesce.texts] else []).length =
        (if e.tag = pTag then [children.texts] else []).length := by
      split <;> rfl
    obtain ⟨hbefore, hnext⟩ := List.append_inj h (by simp only [List.length_append, List.length_map]; omega)
    obtain ⟨hown, hthere⟩ := List.append_inj hbefore (by simp only [List.length_map]; exact hif)
    have hsame : (joinIn e children).paragraphs = children.paragraphs := hsub.eq_of_length (by omega)
    rw [← hsame] at hthere
    have hkeeps := ihChildren hthere
    rw [KeepsAll]
    refine ⟨fun hp => ?_, hkeeps, ihNext hnext⟩
    rw [if_pos hp, if_pos hp] at hown
    simp only [List.map_cons, List.map_nil, List.cons.injEq, and_true] at hown
    exact (joinIn_kept_iff e children).mp ⟨(coalesce_of_keepsAll _ hkeeps).1.symm.trans hown, hsame⟩ hp

/-! ## §4 — Texts that are changed in place -/

theorem texts_map {f : Element → Element} {g : Str → Str} (htag : ∀ e, (f e).tag = e.tag)
    (htext : ∀ e, e.tag = tTag → (f e).text = g e.text) (elements : Elements) :
    (elements.map f).texts = elements.texts.map g := by
  induction elements with
  | nil => rfl
  | cons e children next ihChildren ihNext =>
    rw [map, texts, texts, ihChildren, ihNext, htag]
    by_cases he : e.tag = tTag
    · simp [he, htext e he]
    · simp [he]

theorem paragraphs_map {f : Element → Element} {g : Str → Str} (htag : ∀ e, (f e).tag = e.tag)
    (htext : ∀ e, e.tag = tTag → (f e).text = g e.text) (elements : Elements) :
    (elements.map f).paragraphs = elements.paragraphs.map (List.map g) := by
  induction elements with
  | nil => rfl
  | cons e children next ihChildren ihNext =>
    rw [map, paragraphs, paragraphs, ihChildren, ihNext, htag, texts_map htag htext]
    split <;> simp

/-- The texts of a paragraph are texts of the document. -/
theorem mem_iterText {elements : Elements} {texts : List Str} {text : Str} (htexts : texts ∈ elements.paragraphs)
    (htext : text ∈ texts) : text ∈ elements.iterText := by
  have hall : ∀ elements : Elements, ∀ t ∈ elements.texts, t ∈ elements.iterText := by
    intro elements
    induction elements with
    | nil => exact fun t ht => ht
    | cons e children next ihChildren ihNext =>
      intro t ht
      simp only [Elements.texts, List.mem_append] at ht
      simp only [iterText, List.mem_append, List.mem_singleton]
      rcases ht with (ht | ht) | ht
      · split at ht
        · exact .inl (.inl (.inl (List.mem_singleton.mp ht)))
        · cases ht
      · exact .inl (.inl (.inr (ihChildren t ht)))
      · exact .inr (ihNext t ht)
  induction elements with
  | nil => cases htexts
  | cons e children next ihChildren ihNext =>
    simp only [paragraphs, List.mem_append] at htexts
    simp only [iterText, List.mem_append, List.mem_singleton]
    rcases htexts with (hown | hin) | hbehind
    · split at hown
      · obtain rfl := List.mem_singleton.mp hown
        exact .inl (.inl (.inr (hall children text htext)))
      · cases hown
    · exact .inl (.inl (.inr (ihChildren hin)))
    · exact .inr (ihNext hbehind)

end Elements

/-! ## §5 — Verified drafts -/

/-- The texts of the paragraphs, as `_coalesce_runs` leaves them. -/
def Document.joined (document : Document) : List (List Str) := (coalesceRuns document).children.paragraphs

/-- A draft is its template, filled: joining keeps the text of every paragraph, every placeholder has a field, and the
text of each paragraph is that of its template with every placeholder replaced. -/
structure Filled (document draft : Document) (fields : Dict Str Str) : Prop where
  joined : document.joined.map List.flatten = document.children.paragraphs.map List.flatten
  answered : ∀ texts ∈ document.children.paragraphs, ∀ name ∈ slots nameLimit texts.flatten,
    (fields.get? (strip name)).isSome = true
  replaced : draft.children.paragraphs.map List.flatten =
    document.children.paragraphs.map fun texts => fillText fields texts.flatten

/-- What a template must be: joining keeps its text, no placeholder runs over two text nodes of a joined paragraph, and
no carriage return stands outside the placeholders. -/
structure Fillable (document : Document) : Prop where
  joins : document.children.KeepsAll
  unsplit : ∀ texts ∈ document.joined, Unsplit nameLimit texts
  plain : ∀ texts ∈ document.children.paragraphs, ∀ c, Segment.char c ∈ segments nameLimit texts.flatten → c ≠ 0x0d

/-- What is known of a draft that was verified. -/
structure Verified (draft : Document) (fields : Dict Str Str) : Prop where
  empty : ¬ HasPlaceholder nameLimit (textContent draft)
  present : ∀ name value, fields.get? name = some value → value <:+: textContent draft

theorem fillNode_tag (fields : Dict Str Str) (e : Element) : (fillNode fields e).tag = e.tag := by
  unfold fillNode
  dsimp only
  split <;> rfl

theorem fillNode_text (fields : Dict Str Str) (e : Element) : (fillNode fields e).text = fillText fields e.text := by
  unfold fillNode
  dsimp only
  split <;> rfl

/-- **The paragraphs of a draft** are those of the joined template with each text filled and its lines folded. -/
theorem paragraphs_fill {document draft : Document} {fields : Dict Str Str} (h : fill document fields = some draft) :
    draft.children.paragraphs =
      document.joined.map (List.map fun text => universalNewlines (fillText fields text)) := by
  unfold fill readBack at h
  split at h
  · obtain rfl := Option.some.inj h
    have hreplace : (replace fields (coalesceRuns document)).children.paragraphs =
        document.joined.map (List.map (fillText fields)) := by
      apply Elements.paragraphs_map
      · intro e
        split
        · exact fillNode_tag fields e
        · rfl
      · intro e he
        rw [if_pos he]
        exact fillNode_text fields e
    have hfold : ((replace fields (coalesceRuns document)).children.map foldElement).paragraphs =
        (replace fields (coalesceRuns document)).children.paragraphs.map (List.map universalNewlines) :=
      @Elements.paragraphs_map foldElement universalNewlines (fun _ => rfl) (fun _ _ => rfl) _
    rw [hfold, hreplace, List.map_map]
    apply List.map_congr_left
    intro texts _
    exact List.map_map
  · cases h

theorem flatten_fill {document draft : Document} {fields : Dict Str Str} (h : fill document fields = some draft) :
    draft.children.paragraphs.map List.flatten = document.joined.map (filledPieces nameLimit (fieldValue fields)) := by
  rw [paragraphs_fill h, List.map_map]
  rfl

/-- No carriage return is read back. -/
theorem ne_return_of_mem_textContent {document draft : Document} {fields : Dict Str Str}
    (h : fill document fields = some draft) : ∀ c ∈ textContent draft, c ≠ 0x0d := by
  have hiter : ∀ elements : Elements, ∀ text ∈ (elements.map foldElement).iterText, ∀ c ∈ text, c ≠ 0x0d := by
    intro elements
    induction elements with
    | nil => simp [Elements.map, Elements.iterText]
    | cons e children next ihChildren ihNext =>
      intro text htext c hc
      simp only [Elements.map, Elements.iterText, List.mem_append, List.mem_singleton] at htext
      rcases htext with ((rfl | htext) | rfl) | htext
      · exact ne_return_of_mem_universalNewlines hc
      · exact ihChildren text htext c hc
      · exact ne_return_of_mem_universalNewlines hc
      · exact ihNext text htext c hc
  unfold fill readBack at h
  split at h
  · obtain rfl := Option.some.inj h
    intro c hc
    rcases mem_intercalate hc with hc | ⟨text, htext, hc⟩
    · rw [List.mem_singleton.mp hc]
      decide
    · obtain ⟨htext, -⟩ := List.mem_filter.mp htext
      rcases List.mem_cons.mp htext with rfl | htext
      · exact ne_return_of_mem_universalNewlines hc
      · exact hiter _ text htext c hc
  · cases h

theorem infix_textContent {draft : Document} {text : Str} (h : text ∈ draft.children.iterText) :
    text <:+: textContent draft := by
  by_cases hnil : text = []
  · rw [hnil]
    exact List.nil_infix
  · apply infix_intercalate
    exact List.mem_filter.mpr ⟨List.mem_cons_of_mem _ h, by simpa using hnil⟩

theorem verified_of_verify {draft : Document} {fields : Dict Str Str} {names : List Str}
    (h : verify draft fields = .ok names) : Verified draft fields := by
  unfold verify at h
  dsimp only at h
  split at h
  · next hproblems =>
      obtain ⟨hslots, habsent⟩ := List.append_eq_nil_iff.mp hproblems
      constructor
      · rw [hasPlaceholder_iff]
        rintro ⟨name, hname⟩
        have hmem := mem_slots.mpr hname
        rw [List.map_eq_nil_iff.mp hslots] at hmem
        cases hmem
      · intro name value hget
        by_contra hnot
        have hmem : (name, value) ∈ fields.members.filter fun m => ¬ m.2 <:+: textContent draft :=
          List.mem_filter.mpr ⟨Dict.mem_members.mpr hget, by simpa using hnot⟩
        rw [List.map_eq_nil_iff.mp habsent] at hmem
        cases hmem
  · cases h

/-- A draft that is reported was filled and verified. -/
theorem generate_ok {document draft : Document} {placeholders : List Str} {answers : Dict Str Str} {today : Str}
    {names : List Str} (h : generate document placeholders answers today = .ok (draft, names)) :
    fill document (resolvedFields placeholders answers today) = some draft ∧
      Verified draft (resolvedFields placeholders answers today) := by
  unfold generate at h
  dsimp only at h
  split at h
  · cases h
  · cases hfill : fill document (resolvedFields placeholders answers today) with
    | none =>
      rw [hfill] at h
      cases h
    | some found =>
      rw [hfill] at h
      dsimp only at h
      cases hverify : verify found (resolvedFields placeholders answers today) with
      | error problems =>
        rw [hverify] at h
        cases h
      | ok names' =>
        rw [hverify] at h
        obtain ⟨rfl, -⟩ := Prod.mk.inj (Except.ok.inj h)
        exact ⟨rfl, verified_of_verify hverify⟩

/-- A placeholder is one after its lines are folded. -/
theorem hasPlaceholder_universalNewlines {limit : Nat} {s : Str} (h : HasPlaceholder limit s) :
    HasPlaceholder limit (universalNewlines s) := by
  obtain ⟨name, hname, before, after, rfl⟩ := h
  obtain ⟨name', hname', hfolded⟩ := Folded.literal hname (folded_universalNewlines (literal name))
  have hsplit : universalNewlines (before ++ literal name ++ after) =
      universalNewlines before ++ literal name' ++ universalNewlines after := by
    rw [List.append_assoc, universalNewlines_append, universalNewlines_append, hfolded, List.append_assoc]
    · rintro ⟨hlast, -⟩
      obtain ⟨r, hr⟩ := List.getLast?_eq_some_iff.mp hlast
      cases literal_closes hr
    · rintro ⟨-, hhead⟩
      cases hhead
  rw [hsplit]
  exact ⟨name', hname', universalNewlines before, universalNewlines after, rfl⟩

/-- **A verified draft is its template, filled, exactly where the template can be filled.** -/
theorem filled_iff_fillable {document draft : Document} {placeholders : List Str} {answers : Dict Str Str} {today : Str}
    {names : List Str} (h : generate document placeholders answers today = .ok (draft, names)) :
    Filled document draft (resolvedFields placeholders answers today) ↔ Fillable document := by
  obtain ⟨hfill, hverified⟩ := generate_ok h
  generalize resolvedFields placeholders answers today = fields at *
  -- A field's value stands in the text that was read back, so it has no placeholder and no carriage return.
  have hvalue : ∀ name, (fields.get? (strip name)).isSome = true →
      ¬ HasPlaceholder nameLimit (fieldValue fields name) ∧ ∀ c ∈ fieldValue fields name, c ≠ 0x0d := by
    intro name hsome
    obtain ⟨value, hget⟩ := Option.isSome_iff_exists.mp hsome
    have hin := hverified.present _ value hget
    rw [fieldValue, hget, Option.getD_some]
    exact ⟨fun hhas => hverified.empty (hhas.mono hin), fun c hc => ne_return_of_mem_textContent hfill c (hin.subset hc)⟩
  have hpieces : ∀ joined ∈ document.joined, (∀ name ∈ slots nameLimit joined.flatten,
      (fields.get? (strip name)).isSome = true) →
      (filledPieces nameLimit (fieldValue fields) joined = fillText fields joined.flatten ↔
        Unsplit nameLimit joined ∧ ∀ c, Segment.char c ∈ segments nameLimit joined.flatten → c ≠ 0x0d) :=
    fun joined _ hsome => filled_iff (fun name hname => (hvalue name (hsome name hname)).1)
      fun name hname => (hvalue name (hsome name hname)).2
  -- The paragraphs of the joined template, with the texts of those of the template.
  have hsame : document.joined.map List.flatten = document.children.paragraphs.map List.flatten →
      ∀ texts, texts ∈ document.joined.map List.flatten ↔ texts ∈ document.children.paragraphs.map List.flatten :=
    fun heq texts => by rw [heq]
  have hfilled : document.joined.map List.flatten = document.children.paragraphs.map List.flatten →
      document.joined.map (fun texts => fillText fields texts.flatten) =
        document.children.paragraphs.map fun texts => fillText fields texts.flatten := by
    intro heq
    have hmap := congrArg (List.map (fillText fields)) heq
    rwa [List.map_map, List.map_map] at hmap
  constructor
  · rintro ⟨hjoined, hanswered, hreplaced⟩
    rw [flatten_fill hfill, ← hfilled hjoined, List.map_inj_left] at hreplaced
    have hboth : ∀ joined ∈ document.joined, Unsplit nameLimit joined ∧
        ∀ c, Segment.char c ∈ segments nameLimit joined.flatten → c ≠ 0x0d := by
      intro joined hmem
      refine (hpieces joined hmem ?_).mp (hreplaced joined hmem)
      intro name hname
      obtain ⟨texts, htexts, hflat⟩ := List.mem_map.mp ((hsame hjoined _).mp (List.mem_map_of_mem hmem))
      exact hanswered texts htexts name (by rw [hflat]; exact hname)
    refine ⟨(Elements.coalesce_kept_iff document.children).mp hjoined, fun joined hmem => (hboth joined hmem).1, ?_⟩
    intro texts htexts c hc
    obtain ⟨joined, hmem, hflat⟩ := List.mem_map.mp ((hsame hjoined _).mpr (List.mem_map_of_mem htexts))
    exact (hboth joined hmem).2 c (by rw [hflat]; exact hc)
  · rintro ⟨hkeeps, hunsplit, hplain⟩
    have hjoined : document.joined.map List.flatten = document.children.paragraphs.map List.flatten :=
      (Elements.coalesce_kept_iff document.children).mpr hkeeps
    have hanswered : ∀ joined ∈ document.joined, ∀ name ∈ slots nameLimit joined.flatten,
        (fields.get? (strip name)).isSome = true := by
      intro joined hmem name hname
      by_contra hnone
      rw [Bool.not_eq_true, Option.isSome_eq_false_iff, Option.isNone_iff_eq_none] at hnone
      -- The placeholder stands in one text node, and stays there.
      obtain ⟨text, htext, hslot⟩ := (hunsplit joined hmem).exists_mem_slots hname
      have hstays : HasPlaceholder nameLimit (fillText fields text) := by
        refine ⟨name, isName_of_mem_slots hslot, ?_⟩
        have hin : fieldValue fields name <:+: fillText fields text := infix_substitute hslot
        rwa [fieldValue, hnone, Option.getD_none] at hin
      apply hverified.empty
      refine (hasPlaceholder_universalNewlines hstays).mono ?_
      have hdraft : joined.map (fun text => universalNewlines (fillText fields text)) ∈ draft.children.paragraphs := by
        rw [paragraphs_fill hfill]
        exact List.mem_map_of_mem hmem
      exact infix_textContent (Elements.mem_iterText hdraft (List.mem_map_of_mem htext))
    refine ⟨hjoined, ?_, ?_⟩
    · intro texts htexts name hname
      obtain ⟨joined, hmem, hflat⟩ := List.mem_map.mp ((hsame hjoined _).mpr (List.mem_map_of_mem htexts))
      exact hanswered joined hmem name (by rw [hflat]; exact hname)
    · rw [flatten_fill hfill, ← hfilled hjoined]
      apply List.map_congr_left
      intro joined hmem
      refine (hpieces joined hmem (hanswered joined hmem)).mpr ⟨hunsplit joined hmem, fun c hc => ?_⟩
      obtain ⟨texts, htexts, hflat⟩ := List.mem_map.mp ((hsame hjoined _).mp (List.mem_map_of_mem hmem))
      exact hplain texts htexts c (by rw [hflat]; exact hc)

/-! ## §6 — Two templates -/

def plainElement (tag text : Str) : Element := ⟨tag, Dict.empty, text, []⟩

/-- A run with its text nodes, and whether its format is bold. -/
def sampleRun (bold : Bool) (texts : List Str) (next : Elements) : Elements :=
  let nodes := texts.foldr (fun text next => .cons (plainElement tTag text) .nil next) .nil
  .cons (plainElement rTag [])
    (if bold then .cons (plainElement rPrTag []) (.cons (plainElement (wordTag "b") []) .nil .nil) nodes else nodes) next

/-- A document of one paragraph. -/
def sampleDocument (runs : Elements) : Document :=
  ⟨plainElement (wordTag "document") [], .cons (plainElement (wordTag "body") []) (.cons (plainElement pTag []) runs .nil) .nil⟩

def sampleAnswers : Dict Str Str := ⟨[("a", "b")], by decide⟩

/-- A placeholder over two runs of one format. -/
def splitRuns : Document := sampleDocument (sampleRun true ["\x7b"] (sampleRun true ["\x7ba\x7d\x7d c"] .nil))

/-- The same where only one brace is bold. -/
def splitBraces : Document := sampleDocument (sampleRun true ["\x7b"] (sampleRun false ["\x7ba\x7d\x7d b"] .nil))

theorem generate_splitRuns : generate splitRuns ["a"] sampleAnswers [] =
    .ok (sampleDocument (sampleRun true ["b c"] .nil), ["a"]) := by
  decide +kernel

theorem split_runs_filled :
    Filled splitRuns (sampleDocument (sampleRun true ["b c"] .nil)) (resolvedFields ["a"] sampleAnswers []) ↔
      Fillable splitRuns :=
  filled_iff_fillable generate_splitRuns

theorem generate_splitBraces : generate splitBraces ["a"] sampleAnswers [] = .ok (splitBraces, ["a"]) := by
  decide +kernel

/-- **Split braces** are not seen: the draft is reported as verified, with its placeholder in it. -/
theorem split_braces_verified : generate splitBraces ["a"] sampleAnswers [] = .ok (splitBraces, ["a"]) ∧
    ¬ Filled splitBraces splitBraces (resolvedFields ["a"] sampleAnswers []) := by
  refine ⟨generate_splitBraces, fun hfilled => ?_⟩
  have hreplaced := hfilled.replaced
  revert hreplaced
  decide +kernel

end Autophagy.Procurement
