/-
# Autophagy.EntityPreflight.Normalize — when replacing surfaces is replacing spans.

`normalize.py` takes from a decision which surface becomes which value, the last mention of a surface deciding, and
replaces the surfaces one after another everywhere in the texts of a payload, longer ones first. A mention has a span;
its surface may stand elsewhere too, a replacement may hold another surface, and two mentions may share one and select
different values (`surfaces_are_not_spans`).

`normalized_spanwise` is what is left: where mentions that share a surface agree, and each surface, when its turn comes,
is found just where its mentions stand by then, the text comes out with the selected values in the place of the spans
and nothing else changed.
-/
import Autophagy.EntityPreflight.Policy
import Autophagy.EntityPreflight.Resolver
import Autophagy.Python.Sample

namespace Autophagy.EntityPreflight.Contract

open Autophagy.Python Keyed

variable {K F : Type} [Field K] [LinearOrder K]

/-! ## §1 — The payload -/

/-- `replacements`: surfaces and their values, the last one of a surface. -/
def replacements (decision : PreflightDecision K) : Dict Str Str :=
  Dict.empty.update (decision.request.entities.flatMap fun entity =>
    (decision.selected.filter (·.mentionId = entity.mentionId)).map fun selected =>
      (entity.surface, selected.normalizedValue))

/-- `normalized_payload` -/
def normalizedPayload (payload : Payload F) (decision : PreflightDecision K) : Payload F :=
  replaceMembers (replacements decision) payload

/-- `sorted(replacements.items(), key=lambda item: (-len(item[0]), item[0]))` -/
def turns (decision : PreflightDecision K) : List (Str × Str) :=
  (replacements decision).members.insertionSort longerFirst

/-! ## §2 — Spans -/

/-- The value selected for a mention. -/
def valueOf (decision : PreflightDecision K) (entity : DetectedEntity) : Option Str :=
  (decision.selected.find? (·.mentionId = entity.mentionId)).map (·.normalizedValue)

/-- The text from `position` on, with values in the place of the spans of mentions that have one. -/
def substitute (text : Str) (value : DetectedEntity → Option Str) (position : Nat) : List DetectedEntity → Str
  | [] => text.drop position
  | entity :: entities => slice text position entity.start ++
      ((value entity).getD (slice text entity.start entity.stop) ++ substitute text value entity.stop entities)

/-- The mentions in the order of their spans. -/
def inOrder (entities : List DetectedEntity) : List DetectedEntity :=
  entities.insertionSort fun a b => a.start ≤ b.start

/-- The text of a decision with the selected values in the place of their spans. -/
def spanwise (decision : PreflightDecision K) : Str :=
  substitute decision.request.rawText (valueOf decision) 0 (inOrder decision.request.entities)

/-! ## §3 — Pieces of a text -/

/-- A piece of a text: what stands between mentions, or a mention. -/
inductive Piece
  | between (text : Str)
  | mention (surface : Str)

/-- What a surface has become. -/
def valueIn (replaced : List (Str × Str)) (surface : Str) : Option Str :=
  (replaced.find? fun item => item.1 = surface).map Prod.snd

/-- A piece once some of the surfaces are replaced. -/
def Piece.render (replaced : List (Str × Str)) : Piece → Str
  | .between text => text
  | .mention surface => (valueIn replaced surface).getD surface

/-- A text once some of the surfaces are replaced. -/
def render (replaced : List (Str × Str)) (pieces : List Piece) : Str := pieces.flatMap (·.render replaced)

/-- The pieces of a text from `position` on. -/
def pieces (text : Str) (position : Nat) : List DetectedEntity → List Piece
  | [] => [.between (text.drop position)]
  | entity :: entities =>
    .between (slice text position entity.start) :: .mention entity.surface :: pieces text entity.stop entities

/-- Where the mentions of a surface stand by now, from `i` on. -/
def places (replaced : List (Str × Str)) (surface : Str) : Nat → List Piece → List Nat
  | _, [] => []
  | i, .between text :: rest => places replaced surface (i + text.length) rest
  | i, .mention s :: rest =>
    if s = surface then i :: places replaced surface (i + ((Piece.mention s).render replaced).length) rest
    else places replaced surface (i + ((Piece.mention s).render replaced).length) rest

/-- Where `text.replace(old, …)` finds `old`, from `i` on. -/
def found (old : Str) : Nat → Nat → Str → List Nat
  | _, _, [] => []
  | skip + 1, i, _ :: rest => found old skip (i + 1) rest
  | 0, i, c :: rest =>
    if old.isPrefixOf (c :: rest) then i :: found old (old.length - 1) (i + 1) rest else found old 0 (i + 1) rest

/-- Each surface, when its turn comes, is found where its mentions stand and nowhere else. -/
def FoundInPlace (pieces : List Piece) (replaced : List (Str × Str)) : List (Str × Str) → Prop
  | [] => True
  | item :: rest => found item.1 0 0 (render replaced pieces) = places replaced item.1 0 pieces ∧
      FoundInPlace pieces (replaced ++ [item]) rest

instance (pieces : List Piece) (replaced rest : List (Str × Str)) : Decidable (FoundInPlace pieces replaced rest) := by
  induction rest generalizing replaced with
  | nil => exact inferInstanceAs (Decidable True)
  | cons item rest ih =>
    have := ih (replaced ++ [item])
    exact inferInstanceAs (Decidable (_ ∧ _))

/-! ## §4 — One surface -/

section Surface

variable {old : Str}

theorem found_skip (old : Str) (i : Nat) (passed rest : Str) :
    found old passed.length i (passed ++ rest) = found old 0 (i + passed.length) rest := by
  induction passed generalizing i with
  | nil => rfl
  | cons c passed ih =>
    show found old passed.length (i + 1) (passed ++ rest) = _
    rw [ih, List.length_cons]
    congr 1
    omega

theorem replaceFrom_skip (old new passed rest : Str) :
    replaceFrom old new passed.length (passed ++ rest) = replaceFrom old new 0 rest := by
  induction passed with
  | nil => rfl
  | cons c passed ih => exact ih

theorem found_here (hne : old ≠ []) (i : Nat) (rest : Str) :
    found old 0 i (old ++ rest) = i :: found old 0 (i + old.length) rest := by
  obtain ⟨c, tail, rfl⟩ := List.exists_cons_of_ne_nil hne
  have hprefix : (c :: tail).isPrefixOf (c :: (tail ++ rest)) = true :=
    List.isPrefixOf_iff_prefix.mpr ⟨rest, rfl⟩
  rw [List.cons_append, found, if_pos hprefix, List.length_cons, Nat.add_sub_cancel, found_skip]
  congr 2
  omega

theorem replaceFrom_here (hne : old ≠ []) (new rest : Str) :
    replaceFrom old new 0 (old ++ rest) = new ++ replaceFrom old new 0 rest := by
  obtain ⟨c, tail, rfl⟩ := List.exists_cons_of_ne_nil hne
  have hprefix : (c :: tail).isPrefixOf (c :: (tail ++ rest)) = true :=
    List.isPrefixOf_iff_prefix.mpr ⟨rest, rfl⟩
  rw [List.cons_append, replaceFrom, if_pos hprefix, List.length_cons, Nat.add_sub_cancel, replaceFrom_skip]

theorem nothing_found {piece rest : Str} {i : Nat} (h : ∀ p ∈ found old 0 i (piece ++ rest), i + piece.length ≤ p)
    (new : Str) : replaceFrom old new 0 (piece ++ rest) = piece ++ replaceFrom old new 0 rest ∧
      found old 0 i (piece ++ rest) = found old 0 (i + piece.length) rest := by
  induction piece generalizing i with
  | nil => exact ⟨rfl, rfl⟩
  | cons c piece ih =>
    rw [List.cons_append, found] at h
    rw [List.cons_append, replaceFrom, found]
    split at h
    · have := h i List.mem_cons_self
      simp at this
    · next hnot =>
        rw [if_neg hnot, if_neg hnot]
        have hlength : i + (c :: piece).length = i + 1 + piece.length := by
          rw [List.length_cons]
          omega
        rw [hlength] at h ⊢
        obtain ⟨hreplace, hfound⟩ := ih h
        exact ⟨congrArg (c :: ·) hreplace, hfound⟩

end Surface

/-! ## §5 — All turns -/

section Turns

variable {replaced : List (Str × Str)} {surface value : Str}

theorem le_of_mem_places {i p : Nat} {rest : List Piece} (h : p ∈ places replaced surface i rest) : i ≤ p := by
  induction rest generalizing i with
  | nil => cases h
  | cons piece rest ih =>
    cases piece with
    | between text =>
      have := ih (show p ∈ places replaced surface (i + text.length) rest from h)
      omega
    | mention s =>
      rw [places] at h
      split at h
      · rcases List.mem_cons.mp h with rfl | h
        · exact Nat.le_refl _
        · have := ih h
          omega
      · have := ih h
        omega

theorem valueIn_append_self (hnew : valueIn replaced surface = none) :
    valueIn (replaced ++ [(surface, value)]) surface = some value := by
  rw [valueIn, Option.map_eq_none_iff] at hnew
  rw [valueIn, List.find?_append, hnew]
  simp

theorem valueIn_append_ne {s : Str} (hne : s ≠ surface) :
    valueIn (replaced ++ [(surface, value)]) s = valueIn replaced s := by
  rw [valueIn, valueIn, List.find?_append]
  simp [Ne.symm hne]

/-- **One turn.** A surface that is found where its mentions stand is replaced there. -/
theorem replaceFrom_render (hne : surface ≠ []) (hnew : valueIn replaced surface = none) {rest : List Piece} {i : Nat}
    (h : found surface 0 i (render replaced rest) = places replaced surface i rest) :
    replaceFrom surface value 0 (render replaced rest) = render (replaced ++ [(surface, value)]) rest := by
  induction rest generalizing i with
  | nil => rfl
  | cons piece rest ih =>
    cases piece with
    | between text =>
      have hsplit : render replaced (.between text :: rest) = text ++ render replaced rest := rfl
      rw [hsplit, places] at h
      rw [hsplit]
      have hnothing := nothing_found (fun p hp => le_of_mem_places (h ▸ hp)) value
      rw [hnothing.1, ih (hnothing.2.symm.trans h)]
      rfl
    | mention s =>
      have hsplit : render replaced (.mention s :: rest) = (valueIn replaced s).getD s ++ render replaced rest := rfl
      have hsplit' : render (replaced ++ [(surface, value)]) (.mention s :: rest) =
          (valueIn (replaced ++ [(surface, value)]) s).getD s ++ render (replaced ++ [(surface, value)]) rest := rfl
      rw [hsplit, places] at h
      rw [hsplit, hsplit']
      by_cases hs : s = surface
      · subst hs
        rw [if_pos rfl, Piece.render] at h
        rw [hnew, Option.getD_none] at h ⊢
        rw [found_here hne] at h
        rw [replaceFrom_here hne, ih (List.cons.inj h).2, valueIn_append_self hnew]
        rfl
      · rw [if_neg hs] at h
        have hnothing := nothing_found (fun p hp => le_of_mem_places (h ▸ hp)) value
        rw [hnothing.1, ih (hnothing.2.symm.trans h), valueIn_append_ne hs]

/-- **All turns.** Where each surface is found in its places, every mention comes out as its value. -/
theorem foldl_render {turns : List (Str × Str)} {all : List Piece} (hne : ∀ item ∈ turns, item.1 ≠ [])
    (hnodup : ((replaced ++ turns).map Prod.fst).Nodup) (h : FoundInPlace all replaced turns) :
    turns.foldl (fun text item => replaceFrom item.1 item.2 0 text) (render replaced all) =
      render (replaced ++ turns) all := by
  induction turns generalizing replaced with
  | nil => rw [List.append_nil]; rfl
  | cons item turns ih =>
    obtain ⟨hfound, hrest⟩ := h
    have hnew : valueIn replaced item.1 = none := by
      rw [valueIn, Option.map_eq_none_iff, List.find?_eq_none]
      intro other hother heq
      rw [List.map_append, List.nodup_append] at hnodup
      exact hnodup.2.2 other.1 (List.mem_map_of_mem hother) item.1 (List.mem_map_of_mem List.mem_cons_self)
        (by simpa using heq)
    have hnext : replaced ++ item :: turns = (replaced ++ [item]) ++ turns := by simp
    rw [hnext] at hnodup ⊢
    rw [List.foldl_cons, replaceFrom_render (hne item List.mem_cons_self) hnew hfound]
    exact ih (fun other hother => hne other (List.mem_cons_of_mem _ hother)) hnodup hrest

end Turns

/-! ## §6 — From surfaces to spans -/

/-- Two mentions have no character in common. -/
def Apart (a b : DetectedEntity) : Prop := a.stop ≤ b.start ∨ b.stop ≤ a.start

instance : DecidableRel Apart := fun a b => by
  unfold Apart
  infer_instance

theorem inOrder_apart {entities : List DetectedEntity} (h : entities.Pairwise Apart) :
    (inOrder entities).Pairwise fun a b => a.stop ≤ b.start := by
  have hsorted := pairwise_insertionSort_key (fun a b : DetectedEntity => a.start ≤ b.start) (·.start)
    (fun _ _ hab => hab) (fun _ _ hab => Nat.le_of_lt (Nat.lt_of_not_le hab)) entities
  have hapart : (inOrder entities).Pairwise Apart :=
    (List.Perm.pairwise_iff (fun {_ _} hab => hab.symm) (List.perm_insertionSort _ entities)).mpr h
  refine (hsorted.and hapart).imp fun {a b} ⟨hle, hab⟩ => ?_
  have := b.start_lt_stop
  unfold Apart at hab
  have : a.start ≤ b.start := hle
  omega

theorem drop_slice {text : Str} {start stop : Nat} (h : start ≤ stop) :
    slice text start stop ++ text.drop stop = text.drop start := by
  have hdrop : text.drop stop = (text.drop start).drop (stop - start) := by
    rw [List.drop_drop]
    congr 1
    omega
  rw [slice, hdrop, List.take_append_drop]

section Spans

variable {text : Str} {entities : List DetectedEntity}

theorem render_nil {position : Nat} (hmatch : ∀ e ∈ entities, e.Matches text) (hposition : ∀ e ∈ entities, position ≤ e.start)
    (hapart : entities.Pairwise fun a b => a.stop ≤ b.start) :
    render [] (pieces text position entities) = text.drop position := by
  induction entities generalizing position with
  | nil => exact List.append_nil _
  | cons e entities ih =>
    obtain ⟨hlater, hapart⟩ := List.pairwise_cons.mp hapart
    have hsplit : render [] (pieces text position (e :: entities)) = slice text position e.start ++
        (e.surface ++ render [] (pieces text e.stop entities)) := rfl
    rw [hsplit, ih (fun e' he' => hmatch e' (List.mem_cons_of_mem _ he')) hlater hapart,
      ← (hmatch e List.mem_cons_self).2, drop_slice (Nat.le_of_lt e.start_lt_stop),
      drop_slice (hposition e List.mem_cons_self)]

theorem render_substitute {replaced : List (Str × Str)} {value : DetectedEntity → Option Str} {position : Nat}
    (hmatch : ∀ e ∈ entities, e.Matches text) (hvalue : ∀ e ∈ entities, valueIn replaced e.surface = value e) :
    render replaced (pieces text position entities) = substitute text value position entities := by
  induction entities generalizing position with
  | nil => exact List.append_nil _
  | cons e entities ih =>
    have hsplit : render replaced (pieces text position (e :: entities)) = slice text position e.start ++
        ((valueIn replaced e.surface).getD e.surface ++ render replaced (pieces text e.stop entities)) := rfl
    rw [hsplit, ih (fun e' he' => hmatch e' (List.mem_cons_of_mem _ he'))
      (fun e' he' => hvalue e' (List.mem_cons_of_mem _ he')), hvalue e List.mem_cons_self, substitute,
      (hmatch e List.mem_cons_self).2]

end Spans

section Decision

variable {decision : PreflightDecision K}

theorem get?_update_agree {pairs : List (Str × Str)} {surface : Str} {value : Option Str}
    (h : ∀ v, (surface, v) ∈ pairs → value = some v) (hsome : ∀ v, value = some v → (surface, v) ∈ pairs) :
    (Dict.empty.update pairs).get? surface = value := by
  have hfold : ∀ (pairs : List (Str × Str)) (d : Dict Str Str), (∀ v, (surface, v) ∈ pairs → value = some v) →
      (d.update pairs).get? surface = if surface ∈ pairs.map Prod.fst then value else d.get? surface := by
    intro pairs
    induction pairs with
    | nil => intro d _; rfl
    | cons pair pairs ih =>
      obtain ⟨s, v⟩ := pair
      intro d hpairs
      have hrest := ih (d.set s v) fun w hw => hpairs w (List.mem_cons_of_mem _ hw)
      show ((d.set s v).update pairs).get? surface = _
      rw [hrest, Dict.get?_set, List.map_cons]
      by_cases hs : surface = s
      · rw [if_pos (List.mem_cons.mpr (.inl hs)), if_pos hs, hpairs v (hs ▸ List.mem_cons_self), ite_self]
      · have hmem : surface ∈ s :: pairs.map Prod.fst ↔ surface ∈ pairs.map Prod.fst :=
          ⟨fun hmem => (List.mem_cons.mp hmem).resolve_left hs, List.mem_cons_of_mem _⟩
        rw [if_neg hs]
        exact if_congr hmem.symm rfl rfl
  rw [hfold pairs Dict.empty h]
  split
  · rfl
  · next hnone =>
      cases value with
      | none => rfl
      | some v => exact absurd (List.mem_map_of_mem (hsome v rfl)) hnone

theorem valueOf_eq_some (hselected : (decision.selected.map (·.mentionId)).Nodup) {entity : DetectedEntity} {v : Str} :
    valueOf decision entity = some v ↔
      ∃ s ∈ decision.selected, s.mentionId = entity.mentionId ∧ s.normalizedValue = v := by
  constructor
  · intro h
    obtain ⟨s, hs, rfl⟩ := Option.map_eq_some_iff.mp h
    exact ⟨s, List.mem_of_find?_eq_some hs, by simpa using List.find?_some hs, rfl⟩
  · rintro ⟨s, hs, hid, rfl⟩
    have hsome : (decision.selected.find? (·.mentionId = entity.mentionId)).isSome = true :=
      List.find?_isSome.mpr ⟨s, hs, by simpa using hid⟩
    obtain ⟨s', hs'⟩ := Option.isSome_iff_exists.mp hsome
    have hid' : s'.mentionId = entity.mentionId := by simpa using List.find?_some hs'
    have hsame : s' = s :=
      List.inj_on_of_nodup_map hselected (List.mem_of_find?_eq_some hs') hs (hid'.trans hid.symm)
    rw [valueOf, hs', hsame]
    rfl

theorem mem_pairs {surface v : Str} : (surface, v) ∈ (decision.request.entities.flatMap fun entity =>
      (decision.selected.filter (·.mentionId = entity.mentionId)).map fun selected =>
        (entity.surface, selected.normalizedValue)) ↔
    ∃ e ∈ decision.request.entities, e.surface = surface ∧
      ∃ s ∈ decision.selected, s.mentionId = e.mentionId ∧ s.normalizedValue = v := by
  simp only [List.mem_flatMap, List.mem_map, List.mem_filter, decide_eq_true_eq, Prod.mk.injEq]
  constructor
  · rintro ⟨e, he, s, ⟨hs, hid⟩, hsurface, hvalue⟩
    exact ⟨e, he, hsurface, s, hs, hid, hvalue⟩
  · rintro ⟨e, he, hsurface, s, hs, hid, hvalue⟩
    exact ⟨e, he, s, ⟨hs, hid⟩, hsurface, hvalue⟩

/-- Mentions that share a surface have one value, or none of them has. -/
def Agree (decision : PreflightDecision K) : Prop :=
  ∀ e ∈ decision.request.entities, ∀ e' ∈ decision.request.entities, e.surface = e'.surface →
    valueOf decision e = valueOf decision e'

instance (decision : PreflightDecision K) : Decidable (Agree decision) := by
  unfold Agree
  infer_instance

theorem get?_replacements (hselected : (decision.selected.map (·.mentionId)).Nodup) (hagree : Agree decision)
    {e : DetectedEntity} (he : e ∈ decision.request.entities) :
    (replacements decision).get? e.surface = valueOf decision e := by
  apply get?_update_agree
  · intro v hv
    obtain ⟨e', he', hsurface, hchosen⟩ := mem_pairs.mp hv
    rw [hagree e he e' he' hsurface.symm]
    exact (valueOf_eq_some hselected).mpr hchosen
  · intro v hv
    exact mem_pairs.mpr ⟨e, he, rfl, (valueOf_eq_some hselected).mp hv⟩

theorem surface_ne_nil_of_turn {item : Str × Str} (h : item ∈ turns decision) : item.1 ≠ [] := by
  have hmem : item ∈ (replacements decision).members := (List.mem_insertionSort _).mp h
  have hkeys : ∀ (pairs : List (Str × Str)) (d : Dict Str Str) (k : Str), ((d.update pairs).get? k).isSome = true →
      k ∈ pairs.map Prod.fst ∨ (d.get? k).isSome = true := by
    intro pairs
    induction pairs with
    | nil => exact fun d k hk => .inr hk
    | cons pair pairs ih =>
      intro d k hk
      rcases ih (d.set pair.1 pair.2) k hk with hk | hk
      · exact .inl (List.mem_cons_of_mem _ hk)
      · rw [Dict.get?_set] at hk
        split at hk
        · next heq => exact .inl (List.mem_cons.mpr (.inl heq))
        · exact .inr hk
  have hget : (replacements decision).get? item.1 = some item.2 := Dict.mem_members.mp hmem
  rcases hkeys _ _ item.1 (Option.isSome_iff_exists.mpr ⟨_, hget⟩) with hkey | hkey
  · obtain ⟨pair, hpair, heq⟩ := List.mem_map.mp hkey
    obtain ⟨e, -, hsurface, -⟩ := mem_pairs.mp hpair
    rw [← heq, ← hsurface]
    exact e.surface_ne_nil
  · cases hkey

theorem turns_nodup (decision : PreflightDecision K) : ((turns decision).map Prod.fst).Nodup :=
  ((List.perm_insertionSort longerFirst _).map Prod.fst).nodup_iff.mpr (replacements decision).nodup

theorem valueIn_turns (decision : PreflightDecision K) (surface : Str) :
    valueIn (turns decision) surface = (replacements decision).get? surface := by
  have hmem : ∀ v, valueIn (turns decision) surface = some v ↔ (replacements decision).get? surface = some v := by
    intro v
    have hturns : valueIn (turns decision) surface = some v ↔ (surface, v) ∈ turns decision :=
      (Dict.mem_members (d := ⟨turns decision, turns_nodup decision⟩)).symm
    rw [hturns, ← Dict.mem_members]
    exact List.mem_insertionSort _
  exact Option.ext hmem

end Decision

/-! ## §7 — The normalized text -/

/-- Every surface is found in its places when its turn comes. -/
def InPlace (decision : PreflightDecision K) : Prop :=
  FoundInPlace (pieces decision.request.rawText 0 (inOrder decision.request.entities)) [] (turns decision)

instance (decision : PreflightDecision K) : Decidable (InPlace decision) := by
  unfold InPlace
  infer_instance

theorem replaceText_spanwise {decision : PreflightDecision K} (hapart : decision.request.entities.Pairwise Apart)
    (hselected : (decision.selected.map (·.mentionId)).Nodup) (hagree : Agree decision) (hfound : InPlace decision) :
    replaceText (replacements decision) decision.request.rawText = spanwise decision := by
  have horder : ∀ e ∈ inOrder decision.request.entities, e ∈ decision.request.entities := fun e he =>
    (List.mem_insertionSort _).mp he
  have hmatch : ∀ e ∈ inOrder decision.request.entities, e.Matches decision.request.rawText := fun e he =>
    decision.request.spans_match e (horder e he)
  have htext := render_nil hmatch (fun e _ => Nat.zero_le e.start) (inOrder_apart hapart)
  have hnodup : (([] ++ turns decision).map Prod.fst).Nodup := turns_nodup decision
  have hfold := foldl_render (fun item hitem => surface_ne_nil_of_turn hitem) hnodup hfound
  rw [htext] at hfold
  calc replaceText (replacements decision) decision.request.rawText
      = render ([] ++ turns decision) (pieces decision.request.rawText 0 (inOrder decision.request.entities)) := hfold
    _ = spanwise decision := by
      refine render_substitute hmatch fun e he => ?_
      rw [List.nil_append, valueIn_turns, get?_replacements hselected hagree (horder e he)]

theorem replaceMembers_append (replacements : Dict Str Str) (members members' : Payload F) :
    replaceMembers replacements (members ++ members') =
      replaceMembers replacements members ++ replaceMembers replacements members' := by
  induction members with
  | nil => rfl
  | cons m members ih => exact congrArg ((m.1, replaceValue replacements m.2) :: ·) ih

/-- **When replacing surfaces is replacing spans.** For every decision whose mentions are pairwise apart: where mentions
that share a surface agree, and every surface is found in its places when its turn comes, a payload with the text comes
out with the selected values in the place of their spans, and with every other character as it was. -/
theorem normalized_spanwise (decision : PreflightDecision K) (hapart : decision.request.entities.Pairwise Apart)
    (hselected : (decision.selected.map (·.mentionId)).Nodup) (hagree : Agree decision) (hfound : InPlace decision)
    (before after : Payload F) (key : Str) :
    normalizedPayload (before ++ (key, .str decision.request.rawText) :: after) decision =
      normalizedPayload before decision ++ (key, .str (spanwise decision)) :: normalizedPayload after decision := by
  unfold normalizedPayload
  rw [replaceMembers_append]
  show _ ++ (key, Json.str (replaceText (replacements decision) decision.request.rawText)) :: _ = _
  rw [replaceText_spanwise hapart hselected hagree hfound]

/-! ## §8 — Three decisions -/

/-- The two mentions of a sample, each of one character. -/
def sampleMention (mentionId c start : Nat) : DetectedEntity :=
  ⟨[mentionId], [c], .person, start, start + 1, by simp, by simp, by omega⟩

/-- What is selected for a mention of a sample. -/
def sampleSelected (mentionId value : Nat) : SelectedValue ℚ := ⟨[mentionId], [value], [value], 1, []⟩

/-- A decision on a text with the mentions `1` and `2`. -/
def sampleDecision (text : Str) (entities : List DetectedEntity) (selected : List (SelectedValue ℚ))
    (htext : text ≠ []) (hids : (entities.map (·.mentionId)).Nodup) (hspans : ∀ e ∈ entities, e.Matches text) :
    PreflightDecision ℚ :=
  ⟨⟨[0x69], text, [0x74], [0x6f], entities, [], sampleInput.requestId_ne_nil, htext, sampleInput.targetSystem_ne_nil,
      sampleInput.operation_ne_nil, hids, hspans, sampleInput.queryIds_nodup, by simp⟩, [],
    selected, .autoSelected, .singleHighConfidence, false, sampleAudit⟩

/-- `ab`: `a` becomes `b`, and `b` becomes `c`. -/
def chained : PreflightDecision ℚ :=
  sampleDecision [0x61, 0x62] [sampleMention 1 0x61 0, sampleMention 2 0x62 1]
    [sampleSelected 1 0x62, sampleSelected 2 0x63] (by simp) (by decide) (by decide)

/-- `aa`: only the first `a` is a mention. -/
def elsewhere : PreflightDecision ℚ :=
  sampleDecision [0x61, 0x61] [sampleMention 1 0x61 0] [sampleSelected 1 0x62] (by simp) (by decide) (by decide)

/-- `aa`: two mentions, with two values. -/
def shared : PreflightDecision ℚ :=
  sampleDecision [0x61, 0x61] [sampleMention 1 0x61 0, sampleMention 2 0x61 1]
    [sampleSelected 1 0x62, sampleSelected 2 0x63] (by simp) (by decide) (by decide)

theorem sample_texts : replaceText (replacements chained) chained.request.rawText = [0x63, 0x63] ∧
    spanwise chained = [0x62, 0x63] ∧
    replaceText (replacements elsewhere) elsewhere.request.rawText = [0x62, 0x62] ∧
    spanwise elsewhere = [0x62, 0x61] ∧
    replaceText (replacements shared) shared.request.rawText = [0x63, 0x63] ∧ spanwise shared = [0x62, 0x63] := by
  decide +kernel

/-- Mentions apart, each with one value, and the spans are not what is replaced. -/
def Diverges (decision : PreflightDecision ℚ) : Prop :=
  decision.request.entities.Pairwise Apart ∧ (decision.selected.map (·.mentionId)).Nodup ∧
    normalizedPayload [([], (.str decision.request.rawText : Json SampleFloat))] decision ≠
      [([], .str (spanwise decision))]

/-- A value that holds another surface, a surface that stands elsewhere too, and two mentions of one surface. -/
theorem surfaces_are_not_spans : Diverges chained ∧ Diverges elsewhere ∧ Diverges shared := by
  have hne : ∀ (decision : PreflightDecision ℚ) (text text' : Str),
      replaceText (replacements decision) decision.request.rawText = text → spanwise decision = text' → text ≠ text' →
      normalizedPayload [([], (.str decision.request.rawText : Json SampleFloat))] decision ≠
        [([], .str (spanwise decision))] := by
    rintro decision text text' htext hspans hdiff heq
    have htexts : replaceText (replacements decision) decision.request.rawText = spanwise decision :=
      Json.str.inj (Prod.mk.inj (List.cons.inj heq).1).2
    exact hdiff (htext.symm.trans (htexts.trans hspans))
  obtain ⟨hchained, hchained', helsewhere, helsewhere', hshared, hshared'⟩ := sample_texts
  refine ⟨⟨by decide, by decide, ?_⟩, ⟨by decide, by decide, ?_⟩, ⟨by decide, by decide, ?_⟩⟩
  · exact hne _ _ _ hchained hchained' (by decide)
  · exact hne _ _ _ helsewhere helsewhere' (by decide)
  · exact hne _ _ _ hshared hshared' (by decide)

/-- `ab`: `a` becomes `x`, and `b` becomes `y`. -/
def straight : PreflightDecision ℚ :=
  sampleDecision [0x61, 0x62] [sampleMention 1 0x61 0, sampleMention 2 0x62 1]
    [sampleSelected 1 0x78, sampleSelected 2 0x79] (by simp) (by decide) (by decide)

theorem straight_spanwise : normalizedPayload [([], (.str straight.request.rawText : Json SampleFloat))] straight =
    [([], .str (spanwise straight))] :=
  normalized_spanwise straight (by decide) (by decide) (by decide +kernel) (by decide +kernel) [] [] []

end Autophagy.EntityPreflight.Contract
