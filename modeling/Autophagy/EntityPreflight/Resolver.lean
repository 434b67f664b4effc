/-
# Autophagy.EntityPreflight.Resolver — what the detection of mentions covers.

`detect_entities` looks up each hint from the left, goes on behind the occurrence it found, sorts what it found of all
hints, longer ones first where they start together, and keeps a span where it starts behind the one kept last.

Every occurrence that was found overlaps one that is kept. One that overlaps an earlier occurrence of its own hint is
not looked for, and the earlier one may have lost against another hint: of `aa` in `xaaa` beside `xa` the last
occurrence meets no span (`detection_skips`).
-/
import Autophagy.EntityPreflight.Contracts

namespace Autophagy.EntityPreflight.Contract

open Autophagy.Python

/-! ## §1 — The detection -/

/-- `text.find(surface, position)`, for a surface that is not empty; none for `-1`. -/
def find (text surface : Str) (position : Nat) : Option Nat :=
  (List.range' position (text.length - position)).find? fun i => surface.isPrefixOf (text.drop i)

/-- The loop over one hint: the positions from `position` on, at most `fuel` of them. -/
def positions (text surface : Str) : Nat → Nat → List Nat
  | 0, _ => []
  | fuel + 1, position =>
    match find text surface position with
    | none => []
    | some found => found :: positions text surface fuel (found + surface.length)

/-- One of `spans`. -/
structure Span where
  start : Nat
  stop : Nat
  surface : Str
  kind : EntityKind

/-- What the loop finds of one hint; the text has no more positions than characters. -/
def hintSpans (text : Str) (hint : Str × EntityKind) : List Span :=
  if hint.1 = [] then []
  else (positions text hint.1 text.length 0).map fun position => ⟨position, position + hint.1.length, hint.1, hint.2⟩

/-- The order of `sorted(entity_hints.items(), key=lambda item: (-len(item[0]), item[0]))`. -/
def hintLe (a b : Str × EntityKind) : Prop := b.1.length < a.1.length ∨ (a.1.length = b.1.length ∧ a.1 ≤ b.1)

instance : DecidableRel hintLe := fun a b => by
  unfold hintLe
  infer_instance

/-- The order of `sorted(spans, key=lambda item: (item[0], -item[1], item[2], item[3].value))`. -/
def spanLe (a b : Span) : Prop :=
  a.start < b.start ∨ (a.start = b.start ∧ (b.stop < a.stop ∨ (a.stop = b.stop ∧
    (a.surface < b.surface ∨ (a.surface = b.surface ∧ a.kind.value ≤ b.kind.value)))))

instance : DecidableRel spanLe := fun a b => by
  unfold spanLe
  infer_instance

/-- `ordered` -/
def orderedSpans (text : Str) (hints : List (Str × EntityKind)) : List Span :=
  ((hints.insertionSort hintLe).flatMap (hintSpans text)).insertionSort spanLe

/-- The spans that are kept, where `last` was kept last. -/
def choose (last : Option Span) : List Span → List Span
  | [] => []
  | span :: spans =>
    if last.all (·.stop ≤ span.start) then span :: choose (some span) spans else choose last spans

/-- The mentions of the spans, numbered from `index` on. -/
def mentions (index : Nat) : List Span → Except Str (List DetectedEntity)
  | [] => .ok []
  | span :: spans => do
    let entity ← DetectedEntity.make? (0x6d :: 0x2d :: natText index) span.surface span.kind span.start span.stop
    let entities ← mentions (index + 1) spans
    pure (entity :: entities)

/-- `detect_entities` -/
def detectEntities (text : Str) (hints : List (Str × EntityKind)) : Except Str (List DetectedEntity) :=
  mentions 1 (choose none (orderedSpans text hints))

/-! ## §2 — What is found of one hint -/

/-- The surface stands in the text at `i`. -/
def Occurs (text surface : Str) (i : Nat) : Prop := surface <+: text.drop i

theorem Occurs.le {text surface : Str} {i : Nat} (h : Occurs text surface i) (hne : surface ≠ []) :
    i + surface.length ≤ text.length := by
  have hlength := List.IsPrefix.length_le h
  have hpos := List.length_pos_iff.mpr hne
  rw [List.length_drop] at hlength
  omega

theorem Occurs.slice {text surface : Str} {i : Nat} (h : Occurs text surface i) :
    slice text i (i + surface.length) = surface := by
  obtain ⟨rest, hrest⟩ := h
  rw [Contract.slice, ← hrest, Nat.add_sub_cancel_left, List.take_left]

section Positions

variable {text surface : Str}

theorem find_eq_some {position found : Nat} (h : find text surface position = some found) :
    position ≤ found ∧ Occurs text surface found ∧ ∀ i, position ≤ i → i < found → ¬ Occurs text surface i := by
  obtain ⟨hhere, hmem, hfirst⟩ := List.find?_range'_eq_some.mp h
  obtain ⟨hle, -⟩ := List.mem_range'_1.mp hmem
  refine ⟨hle, List.isPrefixOf_iff_prefix.mp hhere, fun i hi hlt hoccurs => ?_⟩
  have hnot := hfirst i hi hlt
  rw [List.isPrefixOf_iff_prefix.mpr hoccurs] at hnot
  cases hnot

theorem find_eq_none {position : Nat} (hne : surface ≠ []) (h : find text surface position = none) {i : Nat}
    (hi : position ≤ i) : ¬ Occurs text surface i := by
  intro hoccurs
  have hle := hoccurs.le hne
  have hpos := List.length_pos_iff.mpr hne
  refine List.find?_eq_none.mp h i (List.mem_range'_1.mpr ⟨hi, ?_⟩) (List.isPrefixOf_iff_prefix.mpr hoccurs)
  omega

theorem occurs_of_mem {fuel position p : Nat} (h : p ∈ positions text surface fuel position) :
    Occurs text surface p := by
  induction fuel generalizing position with
  | zero => cases h
  | succ fuel ih =>
    rw [positions] at h
    split at h
    · cases h
    · next found hfound =>
        rcases List.mem_cons.mp h with rfl | h
        · exact (find_eq_some hfound).2.1
        · exact ih h

/-- **The scan of one hint.** Every occurrence is one that is found, or overlaps an earlier one that is. -/
theorem exists_position (hne : surface ≠ []) {fuel position : Nat} (hfuel : text.length ≤ position + fuel) {i : Nat}
    (hi : position ≤ i) (hoccurs : Occurs text surface i) :
    ∃ p ∈ positions text surface fuel position, p ≤ i ∧ i < p + surface.length := by
  have hpos := List.length_pos_iff.mpr hne
  have hle := hoccurs.le hne
  induction fuel generalizing position with
  | zero => omega
  | succ fuel ih =>
    rw [positions]
    split
    · next hnone => exact absurd hoccurs (find_eq_none hne hnone hi)
    · next found hfound =>
        obtain ⟨hposition, -, hfirst⟩ := find_eq_some hfound
        have hfirst : found ≤ i := by
          by_contra hlt
          exact hfirst i hi (by omega) hoccurs
        by_cases hin : i < found + surface.length
        · exact ⟨found, List.mem_cons_self, hfirst, hin⟩
        · have hnext : text.length ≤ found + surface.length + fuel := by omega
          obtain ⟨p, hp, hle, hlt⟩ := ih hnext (by omega)
          exact ⟨p, List.mem_cons_of_mem _ hp, hle, hlt⟩

end Positions

/-! ## §3 — Which spans are kept -/

/-- A span is where its surface, which is not empty, stands in the text. -/
structure Span.Stands (text : Str) (span : Span) : Prop where
  ne_nil : span.surface ≠ []
  occurs : Occurs text span.surface span.start
  stop_eq : span.stop = span.start + span.surface.length

theorem Span.Stands.lt {text : Str} {span : Span} (h : span.Stands text) : span.start < span.stop := by
  have hpos := List.length_pos_iff.mpr h.ne_nil
  rw [h.stop_eq]
  omega

theorem stands_of_mem_hintSpans {text : Str} {hint : Str × EntityKind} {span : Span} (h : span ∈ hintSpans text hint) :
    span.Stands text := by
  unfold hintSpans at h
  split at h
  · cases h
  · next hne =>
      obtain ⟨p, hp, rfl⟩ := List.mem_map.mp h
      exact ⟨hne, occurs_of_mem hp, rfl⟩

theorem mem_orderedSpans {text : Str} {hints : List (Str × EntityKind)} {span : Span} :
    span ∈ orderedSpans text hints ↔ ∃ hint ∈ hints, span ∈ hintSpans text hint := by
  rw [orderedSpans, List.mem_insertionSort, List.mem_flatMap]
  simp only [List.mem_insertionSort]

theorem stands_of_mem_ordered {text : Str} {hints : List (Str × EntityKind)} {span : Span}
    (h : span ∈ orderedSpans text hints) : span.Stands text := by
  obtain ⟨hint, -, hspan⟩ := mem_orderedSpans.mp h
  exact stands_of_mem_hintSpans hspan

theorem pairwise_insertionSort_key {α : Type} (r : α → α → Prop) [DecidableRel r] (key : α → Nat)
    (hle : ∀ a b, r a b → key a ≤ key b) (hge : ∀ a b, ¬ r a b → key b ≤ key a) (items : List α) :
    (items.insertionSort r).Pairwise fun a b => key a ≤ key b := by
  have hinsert : ∀ (a : α) (sorted : List α), sorted.Pairwise (fun a b => key a ≤ key b) →
      (sorted.orderedInsert r a).Pairwise fun a b => key a ≤ key b := by
    intro a sorted hsorted
    induction sorted with
    | nil => simp
    | cons b rest ih =>
      obtain ⟨hb, hrest⟩ := List.pairwise_cons.mp hsorted
      rw [List.orderedInsert_cons]
      split
      · next hr =>
          refine List.pairwise_cons.mpr ⟨fun c hc => ?_, hsorted⟩
          rcases List.mem_cons.mp hc with rfl | hc
          · exact hle a c hr
          · exact Nat.le_trans (hle a b hr) (hb c hc)
      · next hr =>
          refine List.pairwise_cons.mpr ⟨fun c hc => ?_, ih hrest⟩
          rcases (List.mem_orderedInsert r).mp hc with rfl | hc
          · exact hge c b hr
          · exact hb c hc
  induction items with
  | nil => simp
  | cons a items ih =>
    rw [List.insertionSort_cons]
    exact hinsert a _ ih

theorem orderedSpans_sorted (text : Str) (hints : List (Str × EntityKind)) :
    (orderedSpans text hints).Pairwise fun a b => a.start ≤ b.start := by
  refine pairwise_insertionSort_key spanLe Span.start ?_ ?_ _
  · rintro a b (hlt | ⟨heq, -⟩) <;> omega
  · intro a b hnot
    unfold spanLe at hnot
    omega

section Choose

variable {text : Str} {last : Option Span} {spans : List Span}

theorem mem_of_mem_choose {span : Span} (h : span ∈ choose last spans) : span ∈ spans := by
  induction spans generalizing last with
  | nil => cases h
  | cons next spans ih =>
    rw [choose] at h
    split at h
    · rcases List.mem_cons.mp h with rfl | h
      · exact List.mem_cons_self
      · exact List.mem_cons_of_mem _ (ih h)
    · exact List.mem_cons_of_mem _ (ih h)

theorem stop_le_of_mem_choose (hspans : ∀ span ∈ spans, span.start < span.stop) {before span : Span}
    (h : span ∈ choose (some before) spans) : before.stop ≤ span.start := by
  induction spans generalizing before with
  | nil => cases h
  | cons next spans ih =>
    have hrest := fun s hs => hspans s (List.mem_cons_of_mem _ hs)
    rw [choose] at h
    split at h
    · next hbehind =>
        have hbehind : before.stop ≤ next.start := by simpa using hbehind
        rcases List.mem_cons.mp h with rfl | h
        · exact hbehind
        · have hnext := ih hrest h
          have hlt := hspans next List.mem_cons_self
          omega
    · exact ih hrest h

/-- **The spans that are kept follow one another.** -/
theorem choose_apart (hspans : ∀ span ∈ spans, span.start < span.stop) :
    (choose last spans).Pairwise fun a b => a.stop ≤ b.start := by
  induction spans generalizing last with
  | nil => exact .nil
  | cons span spans ih =>
    have hrest := fun s hs => hspans s (List.mem_cons_of_mem _ hs)
    rw [choose]
    split
    · exact List.pairwise_cons.mpr ⟨fun later hlater => stop_le_of_mem_choose hrest hlater, ih hrest⟩
    · exact ih hrest

theorem exists_chosen (hsorted : spans.Pairwise fun a b => a.start ≤ b.start)
    (hspans : ∀ span ∈ spans, span.start < span.stop) (hlast : ∀ before ∈ last, ∀ span ∈ spans, before.start ≤ span.start)
    {span : Span} (h : span ∈ spans) :
    ∃ chosen, (chosen ∈ last ∨ chosen ∈ choose last spans) ∧ chosen.start ≤ span.start ∧ span.start < chosen.stop := by
  induction spans generalizing last with
  | nil => cases h
  | cons next spans ih =>
    obtain ⟨hnext, hsorted⟩ := List.pairwise_cons.mp hsorted
    have hrest := fun s hs => hspans s (List.mem_cons_of_mem _ hs)
    rw [choose]
    split
    · have hafter : ∀ before ∈ some next, ∀ s ∈ spans, before.start ≤ s.start := by
        rintro before hbefore s hs
        obtain rfl := Option.some.inj hbefore
        exact hnext s hs
      rcases List.mem_cons.mp h with rfl | h
      · exact ⟨span, .inr List.mem_cons_self, Nat.le_refl _, hspans span List.mem_cons_self⟩
      · obtain ⟨chosen, hchosen | hchosen, hle, hlt⟩ := ih hsorted hrest hafter h
        · obtain rfl := Option.some.inj hchosen
          exact ⟨next, .inr List.mem_cons_self, hle, hlt⟩
        · exact ⟨chosen, .inr (List.mem_cons_of_mem _ hchosen), hle, hlt⟩
    · next hbehind =>
        rcases List.mem_cons.mp h with rfl | h
        · -- it starts before the end of the one kept before, and not before its start
          obtain ⟨before, hbefore, hlt⟩ : ∃ before ∈ last, span.start < before.stop := by
            cases last with
            | none => exact absurd rfl hbehind
            | some before => exact ⟨before, rfl, by simpa using hbehind⟩
          exact ⟨before, .inl hbefore, hlast before hbefore span List.mem_cons_self, hlt⟩
        · exact ih hsorted hrest (fun before hbefore s hs => hlast before hbefore s (List.mem_cons_of_mem _ hs)) h

end Choose

/-! ## §4 — The mentions -/

theorem natText_injective : Function.Injective natText :=
  Function.LeftInverse.injective JsonScan.natOfText_natText

theorem mentions_eq {text : Str} {spans : List Span} (h : ∀ span ∈ spans, span.Stands text) (index : Nat) :
    ∃ entities, mentions index spans = .ok entities ∧
      entities.map (fun e => (e.start, e.stop, e.surface)) = spans.map (fun s => (s.start, s.stop, s.surface)) ∧
      (∀ e ∈ entities, ∃ i, index ≤ i ∧ e.mentionId = 0x6d :: 0x2d :: natText i) ∧
      (entities.map (·.mentionId)).Nodup := by
  induction spans generalizing index with
  | nil => exact ⟨[], rfl, rfl, by simp, .nil⟩
  | cons span spans ih =>
    have hspan := h span List.mem_cons_self
    obtain ⟨entities, hentities, hmap, hids, hnodup⟩ := ih (fun s hs => h s (List.mem_cons_of_mem _ hs)) (index + 1)
    obtain ⟨entity, hmake, hid, hsurface, -, hstart, hstop⟩ := DetectedEntity.make?_ok
      (List.cons_ne_nil 0x6d (0x2d :: natText index)) hspan.ne_nil span.kind hspan.lt
    refine ⟨entity :: entities, ?_, ?_, ?_, ?_⟩
    · simp only [mentions, hmake, hentities]
      rfl
    · rw [List.map_cons, List.map_cons, hmap, hstart, hstop, hsurface]
    · refine List.forall_mem_cons.mpr ⟨⟨index, Nat.le_refl _, hid⟩, fun e he => ?_⟩
      obtain ⟨i, hi, heq⟩ := hids e he
      exact ⟨i, by omega, heq⟩
    · refine List.nodup_cons.mpr ⟨fun hmem => ?_, hnodup⟩
      obtain ⟨e, he, heq⟩ := List.mem_map.mp hmem
      obtain ⟨i, hi, hindex⟩ := hids e he
      have heq : 0x6d :: 0x2d :: natText i = 0x6d :: 0x2d :: natText index := hindex.symm.trans (heq.trans hid)
      have hsame : i = index := natText_injective (List.cons.inj (List.cons.inj heq).2).2
      omega

/-! ## §5 — What a detection covers -/

/-- The mention and the text between the two positions have a character in common. -/
def DetectedEntity.Overlaps (entity : DetectedEntity) (start stop : Nat) : Prop :=
  entity.start < stop ∧ start < entity.stop

theorem exists_overlap {text : Str} {hints : List (Str × EntityKind)} {span : Span}
    (h : span ∈ orderedSpans text hints) :
    ∃ chosen ∈ choose none (orderedSpans text hints), chosen.start < span.stop ∧ span.start < chosen.stop := by
  have hlt : ∀ s ∈ orderedSpans text hints, s.start < s.stop := fun s hs => (stands_of_mem_ordered hs).lt
  have hnone : ∀ before ∈ (none : Option Span), ∀ s ∈ orderedSpans text hints, before.start ≤ s.start := by
    rintro before hbefore
    cases hbefore
  obtain ⟨chosen, hchosen | hchosen, hle, hstop⟩ := exists_chosen (orderedSpans_sorted text hints) hlt hnone h
  · cases hchosen
  · exact ⟨chosen, hchosen, Nat.lt_of_le_of_lt hle (hlt span h), hstop⟩

/-- **What a detection covers.** For every text and every hints it returns mentions that are in order and apart, with
which an input is refused for nothing else than its own texts and queries; and every occurrence of a hint overlaps one
of them, or overlaps an earlier occurrence of its hint that does. -/
theorem detection_covers (text : Str) (hints : List (Str × EntityKind)) :
    ∃ entities, detectEntities text hints = .ok entities ∧
      entities.Pairwise (fun a b => a.start < b.start ∧ a.stop ≤ b.start) ∧
      (∀ requestId targetSystem operation queries,
        (∃ input, PreflightInput.make? requestId text targetSystem operation entities queries = .ok input) ↔
          (requestId ≠ [] ∧ text ≠ [] ∧ targetSystem ≠ [] ∧ operation ≠ []) ∧ (queries.map (·.queryId)).Nodup ∧
          ∀ query ∈ queries, query.subjectMentionId ∈ entities.map (·.mentionId)) ∧
      ∀ hint ∈ hints, hint.1 ≠ [] → ∀ i, Occurs text hint.1 i →
        ∃ p, p ≤ i ∧ i < p + hint.1.length ∧ Occurs text hint.1 p ∧
          ∃ entity ∈ entities, entity.Overlaps p (p + hint.1.length) := by
  have hstands : ∀ span ∈ choose none (orderedSpans text hints), span.Stands text := fun span hspan =>
    stands_of_mem_ordered (mem_of_mem_choose hspan)
  obtain ⟨entities, hentities, hmap, -, hnodup⟩ := mentions_eq hstands 1
  -- a mention has the place and the surface of a span
  have hspanOf : ∀ e ∈ entities, ∃ span ∈ choose none (orderedSpans text hints),
      span.start = e.start ∧ span.stop = e.stop ∧ span.surface = e.surface := by
    intro e he
    have hmem := List.mem_map_of_mem (f := fun e : DetectedEntity => (e.start, e.stop, e.surface)) he
    rw [hmap] at hmem
    obtain ⟨span, hspan, heq⟩ := List.mem_map.mp hmem
    simp only [Prod.mk.injEq] at heq
    exact ⟨span, hspan, heq⟩
  have hentityOf : ∀ span ∈ choose none (orderedSpans text hints), ∃ e ∈ entities,
      e.start = span.start ∧ e.stop = span.stop := by
    intro span hspan
    have hmem := List.mem_map_of_mem (f := fun s : Span => (s.start, s.stop, s.surface)) hspan
    rw [← hmap] at hmem
    obtain ⟨e, he, heq⟩ := List.mem_map.mp hmem
    simp only [Prod.mk.injEq] at heq
    exact ⟨e, he, heq.1, heq.2.1⟩
  refine ⟨entities, hentities, ?_, ?_, ?_⟩
  · have hapart : (choose none (orderedSpans text hints)).Pairwise fun a b => a.stop ≤ b.start :=
      choose_apart fun span hspan => (stands_of_mem_ordered hspan).lt
    have hpairs : (entities.map fun e => (e.start, e.stop, e.surface)).Pairwise fun a b => a.2.1 ≤ b.1 := by
      rw [hmap]
      exact List.pairwise_map.mpr hapart
    refine (List.pairwise_map.mp hpairs).imp fun {a b} hab => ⟨?_, hab⟩
    have := a.start_lt_stop
    have : a.stop ≤ b.start := hab
    omega
  · intro requestId targetSystem operation queries
    have hmatch : ∀ e ∈ entities, e.Matches text := by
      intro e he
      obtain ⟨span, hspan, hstart, hstop, hsurface⟩ := hspanOf e he
      have hs := hstands span hspan
      rw [DetectedEntity.Matches, ← hstart, ← hstop, ← hsurface, hs.stop_eq]
      exact ⟨hs.occurs.le hs.ne_nil, hs.occurs.slice⟩
    rw [PreflightInput.make?_isOk]
    tauto
  · intro hint hhint hne i hoccurs
    have hfuel : text.length ≤ 0 + text.length := by omega
    obtain ⟨p, hp, hle, hlt⟩ := exists_position hne hfuel (Nat.zero_le i) hoccurs
    have hspan : (⟨p, p + hint.1.length, hint.1, hint.2⟩ : Span) ∈ orderedSpans text hints := by
      refine mem_orderedSpans.mpr ⟨hint, hhint, ?_⟩
      rw [hintSpans, if_neg hne]
      exact List.mem_map_of_mem hp
    obtain ⟨chosen, hchosen, hstart, hstop⟩ := exists_overlap hspan
    obtain ⟨e, he, hestart, hestop⟩ := hentityOf chosen hchosen
    refine ⟨p, hle, hlt, occurs_of_mem hp, e, he, ?_, ?_⟩
    · rw [hestart]
      exact hstart
    · rw [hestop]
      exact hstop

/-- Of `xaaa`, with the hints `xa` and `aa`, one mention is detected, and it has nothing of the last `aa`. -/
theorem detection_skips : ¬ ∀ (text : Str) (hints : List (Str × EntityKind)) (entities : List DetectedEntity),
    detectEntities text hints = .ok entities → ∀ hint ∈ hints, hint.1 ≠ [] → ∀ i, Occurs text hint.1 i →
      ∃ entity ∈ entities, entity.Overlaps i (i + hint.1.length) := by
  intro h
  have hspans : (choose none (orderedSpans [0x78, 0x61, 0x61, 0x61]
      [([0x78, 0x61], .person), ([0x61, 0x61], .person)])).map (fun s => (s.start, s.stop, s.surface)) =
      [(0, 2, [0x78, 0x61])] := by decide
  obtain ⟨entities, hentities, hmap, -⟩ := mentions_eq (fun span hspan => stands_of_mem_ordered (mem_of_mem_choose hspan)) 1
  have hlast : Occurs [0x78, 0x61, 0x61, 0x61] [0x61, 0x61] 2 := ⟨[], rfl⟩
  obtain ⟨e, he, hstart, hstop⟩ := h [0x78, 0x61, 0x61, 0x61] [([0x78, 0x61], .person), ([0x61, 0x61], .person)]
    entities hentities ([0x61, 0x61], .person) (by simp) (by simp) 2 hlast
  have hmem := List.mem_map_of_mem (f := fun e : DetectedEntity => (e.start, e.stop, e.surface)) he
  rw [hmap, hspans] at hmem
  simp only [List.mem_singleton, Prod.mk.injEq] at hmem
  omega

end Autophagy.EntityPreflight.Contract
