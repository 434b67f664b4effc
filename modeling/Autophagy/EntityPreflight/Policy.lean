/-
# Autophagy.EntityPreflight.Policy — what a decision depends on, and what an automatic choice rests on.

`policy.py`: the candidates of a mention are grouped by the value they stand for, the groups ranked by their best
candidate, and the first group is chosen where it is good enough, no other one is credible and none is close.

A decision depends on the candidates and not on their order (`decide_perm_auto`), but for two things that it hands on:
the ids of the candidates behind a choice come in the order of the candidates, and where several of them are equally
good the text shown is that of the first (`display_depends_on_order`). Confidences are elements of any ordered field,
and rounding them to six places is whatever function it is.
-/
import Autophagy.EntityPreflight.Contracts
import Mathlib.Algebra.Order.Field.Basic
import Mathlib.Data.List.MinMax

namespace Autophagy.EntityPreflight.Contract

open Autophagy.Python Keyed

variable {K : Type} [Field K] [LinearOrder K]

/-! ## §1 — The contract -/

/-- `ResolutionCandidate` -/
structure ResolutionCandidate (K : Type) [Field K] [LinearOrder K] where
  candidateId : Str
  mentionId : Str
  source : SourceKind
  normalizedValue : Str
  displayValue : Str
  confidence : K
  sourceRef : Str
  relationshipQueryId : Option Str
  fields_ne_nil : candidateId ≠ [] ∧ mentionId ≠ [] ∧ normalizedValue ≠ [] ∧ displayValue ≠ [] ∧ sourceRef ≠ []
  confidence_range : 0 ≤ confidence ∧ confidence ≤ 1

/-- `PreflightPolicy`; a policy is loaded only with a weight for every source. -/
structure PreflightPolicy (K : Type) [Field K] [LinearOrder K] where
  version : Str
  autoSelectMinConfidence : K
  conflictMinConfidence : K
  ambiguityMargin : K
  sourceWeights : SourceKind → K
  version_ne_nil : version ≠ []
  thresholds_range : (0 ≤ autoSelectMinConfidence ∧ autoSelectMinConfidence ≤ 1) ∧
    (0 ≤ conflictMinConfidence ∧ conflictMinConfidence ≤ 1) ∧ 0 ≤ ambiguityMargin ∧ ambiguityMargin ≤ 1
  weights_range : ∀ source, 0 ≤ sourceWeights source ∧ sourceWeights source ≤ 1
  conflict_le_auto : conflictMinConfidence ≤ autoSelectMinConfidence

/-- `SelectedValue` -/
structure SelectedValue (K : Type) where
  mentionId : Str
  normalizedValue : Str
  displayValue : Str
  confidence : K
  supportingCandidateIds : List Str

/-- `AuditMetadata` -/
structure AuditMetadata where
  correlationId : Str
  policyVersion : Str
  requestedAt : Str
  actor : Str
  purpose : Str
  inputSha256 : Str
  sensitiveAuditRef : Str

/-- `PreflightDecision` -/
structure PreflightDecision (K : Type) [Field K] [LinearOrder K] where
  request : PreflightInput
  candidates : List (ResolutionCandidate K)
  selected : List (SelectedValue K)
  decision : DecisionKind
  reason : DecisionReason
  needsConfirmation : Bool
  audit : AuditMetadata

/-- `PolicyError` and `ValueError`, with their messages. -/
inductive Refusal
  | policy (message : Str)
  | value (message : Str)

/-! ## §2 — The decision -/

/-- `_effective_confidence` -/
def effectiveConfidence (policy : PreflightPolicy K) (candidate : ResolutionCandidate K) : K :=
  candidate.confidence * policy.sourceWeights candidate.source

/-- `grouped.setdefault(candidate.normalized_value, []).append(candidate)` -/
def addTo (candidate : ResolutionCandidate K) :
    List (Str × List (ResolutionCandidate K)) → List (Str × List (ResolutionCandidate K))
  | [] => [(candidate.normalizedValue, [candidate])]
  | (normalized, group) :: groups =>
    if normalized = candidate.normalizedValue then (normalized, group ++ [candidate]) :: groups
    else (normalized, group) :: addTo candidate groups

/-- `grouped` -/
def grouped (candidates : List (ResolutionCandidate K)) : List (Str × List (ResolutionCandidate K)) :=
  candidates.foldl (fun groups candidate => addTo candidate groups) []

/-- One of `ranked`. -/
structure Ranked (K : Type) [Field K] [LinearOrder K] where
  score : K
  normalized : Str
  supporting : List (ResolutionCandidate K)

/-- `max(_effective_confidence(candidate, policy) for candidate in group)`; no group is empty. -/
def groupScore (policy : PreflightPolicy K) (group : List (ResolutionCandidate K)) : K :=
  match group.argmax (effectiveConfidence policy) with
  | some best => effectiveConfidence policy best
  | none => 0

/-- The order of `sorted(ranked, key=lambda item: (-item[0], item[1]))`. -/
def rankLe (a b : Ranked K) : Prop := b.score < a.score ∨ (a.score = b.score ∧ a.normalized ≤ b.normalized)

instance : DecidableRel (rankLe (K := K)) := fun a b => by
  unfold rankLe
  infer_instance

/-- `_rank_groups` -/
def rankGroups (policy : PreflightPolicy K) (candidates : List (ResolutionCandidate K)) : List (Ranked K) :=
  ((grouped candidates).map fun item => ⟨groupScore policy item.2, item.1, item.2⟩).insertionSort rankLe

/-- The first value is not the only one that may be meant. -/
def Conflicting (policy : PreflightPolicy K) (top : Ranked K) : List (Ranked K) → Prop
  | [] => False
  | second :: _ => policy.conflictMinConfidence ≤ second.score ∨ top.score - second.score < policy.ambiguityMargin

instance (policy : PreflightPolicy K) (top : Ranked K) (rest : List (Ranked K)) :
    Decidable (Conflicting policy top rest) := by
  cases rest <;> unfold Conflicting <;> infer_instance

/-- The `display_value` of the first of the best candidates. -/
def bestDisplay (policy : PreflightPolicy K) (supporting : List (ResolutionCandidate K)) : Str :=
  match supporting.argmax (effectiveConfidence policy) with
  | some best => best.displayValue
  | none => []

/-- The body of the loop of `decide`: a value for the mention, or the reason why there is none. -/
def settle (policy : PreflightPolicy K) (round6 : K → K) (candidates : List (ResolutionCandidate K)) (mentionId : Str) :
    Except DecisionReason (SelectedValue K) :=
  match rankGroups policy (candidates.filter (·.mentionId = mentionId)) with
  | [] => .error .noCandidate
  | top :: rest =>
    if Conflicting policy top rest then .error .candidateConflict
    else if top.score < policy.autoSelectMinConfidence then .error .lowConfidence
    else .ok ⟨mentionId, top.normalized, bestDisplay policy top.supporting, round6 top.score,
      top.supporting.map (·.candidateId)⟩

/-- `query_mentions.get(query_id)` -/
def subjectOf (request : PreflightInput) (queryId : Str) : Option Str :=
  (request.relationshipQueries.find? (·.queryId = queryId)).map (·.subjectMentionId)

/-- The reason that stands for several. -/
def worst (reasons : List DecisionReason) : DecisionReason :=
  if .candidateConflict ∈ reasons then .candidateConflict
  else if .lowConfidence ∈ reasons then .lowConfidence
  else .noCandidate

/-- The reasons among the outcomes of the loop. -/
def reasonsOf (outcomes : List (Except DecisionReason (SelectedValue K))) : List DecisionReason :=
  outcomes.filterMap fun
    | .error reason => some reason
    | .ok _ => none

/-- `decide` -/
def decide (round6 : K → K) (request : PreflightInput) (candidates : List (ResolutionCandidate K))
    (audit : AuditMetadata) (policy : PreflightPolicy K) : Except Refusal (PreflightDecision K) :=
  if audit.policyVersion ≠ policy.version then .error (.policy "audit metadata and loaded policy versions differ")
  else if ¬ (candidates.map (·.candidateId)).Nodup then .error (.value "candidate ids must be unique")
  else if ∃ candidate ∈ candidates, candidate.mentionId ∉ request.entities.map (·.mentionId) then
    .error (.value "candidate references an unknown mention")
  else if ∃ candidate ∈ candidates,
      candidate.relationshipQueryId.any fun queryId => subjectOf request queryId ≠ some candidate.mentionId then
    .error (.value "candidate references an unknown or unrelated relationship query")
  else
    match request.entities with
    | [] => .ok ⟨request, candidates, [], .notDetected, .noEntity, false, audit⟩
    | entities =>
      let outcomes := entities.map fun entity => settle policy round6 candidates entity.mentionId
      let selected := outcomes.filterMap Except.toOption
      let reasons := reasonsOf outcomes
      if reasons ≠ [] then .ok ⟨request, candidates, selected, .confirmationRequired, worst reasons, true, audit⟩
      else .ok ⟨request, candidates, selected, .autoSelected, .singleHighConfidence, false, audit⟩

/-! ## §3 — Groups -/

section Groups

variable {candidate : ResolutionCandidate K} {groups : List (Str × List (ResolutionCandidate K))}

theorem keys_addTo : (addTo candidate groups).map Prod.fst =
    if candidate.normalizedValue ∈ groups.map Prod.fst then groups.map Prod.fst
    else groups.map Prod.fst ++ [candidate.normalizedValue] := by
  induction groups with
  | nil => rfl
  | cons item groups ih =>
    obtain ⟨normalized, group⟩ := item
    rw [addTo]
    by_cases heq : normalized = candidate.normalizedValue
    · simp [heq]
    · rw [if_neg heq, List.map_cons, ih, List.map_cons]
      by_cases hmem : candidate.normalizedValue ∈ groups.map Prod.fst
      · rw [if_pos hmem, if_pos (List.mem_cons_of_mem _ hmem)]
      · rw [if_neg hmem, if_neg (by simpa [Ne.symm heq] using hmem)]
        rfl

theorem mem_addTo (hkeys : (groups.map Prod.fst).Nodup) {normalized : Str} {group : List (ResolutionCandidate K)} :
    (normalized, group) ∈ addTo candidate groups ↔
      (normalized ≠ candidate.normalizedValue ∧ (normalized, group) ∈ groups) ∨
      (normalized = candidate.normalizedValue ∧ ((∃ before, (normalized, before) ∈ groups ∧ group = before ++ [candidate]) ∨
        (normalized ∉ groups.map Prod.fst ∧ group = [candidate]))) := by
  induction groups with
  | nil => simp [addTo]
  | cons item groups ih =>
    obtain ⟨key, first⟩ := item
    obtain ⟨hkey, hkeys⟩ := List.nodup_cons.mp hkeys
    rw [addTo]
    split
    · next heq =>
        have hlater : ∀ before, (candidate.normalizedValue, before) ∉ groups := by
          intro before hmem
          rw [← heq] at hmem
          exact hkey (List.mem_map.mpr ⟨_, hmem, rfl⟩)
        subst heq
        simp only [List.mem_cons, Prod.mk.injEq, List.map_cons]
        grind
    · next hne =>
        rw [List.mem_cons, ih hkeys]
        simp only [List.mem_cons, Prod.mk.injEq, List.map_cons]
        grind

/-- **Grouping.** Every value has one group, of the candidates that stand for it, in their order. -/
theorem grouped_spec (candidates : List (ResolutionCandidate K)) : ((grouped candidates).map Prod.fst).Nodup ∧
    ∀ normalized group, (normalized, group) ∈ grouped candidates ↔ (∃ c ∈ candidates, c.normalizedValue = normalized) ∧
      group = candidates.filter (·.normalizedValue = normalized) := by
  induction candidates using List.reverseRecOn with
  | nil => exact ⟨.nil, by simp [grouped]⟩
  | append_singleton candidates c ih =>
    obtain ⟨hkeys, hmem⟩ := ih
    have hfold : grouped (candidates ++ [c]) = addTo c (grouped candidates) := by
      rw [grouped, List.foldl_append]
      rfl
    have hkey : ∀ normalized, normalized ∈ (grouped candidates).map Prod.fst ↔
        ∃ d ∈ candidates, d.normalizedValue = normalized := by
      intro normalized
      rw [List.mem_map]
      exact ⟨fun ⟨item, hitem, heq⟩ => heq ▸ ((hmem item.1 item.2).mp hitem).1,
        fun h => ⟨_, (hmem normalized _).mpr ⟨h, rfl⟩, rfl⟩⟩
    rw [hfold]
    refine ⟨?_, fun normalized group => ?_⟩
    · rw [keys_addTo]
      split
      · exact hkeys
      · next hnew =>
          refine List.nodup_append.mpr ⟨hkeys, List.nodup_singleton _, fun key hkey' d hd heq => hnew ?_⟩
          rwa [← List.mem_singleton.mp hd, ← heq]
    · rw [mem_addTo hkeys, hmem, hkey, List.filter_append]
      simp only [hmem, List.mem_append, List.mem_singleton]
      by_cases heq : normalized = c.normalizedValue
      · subst heq
        by_cases hold : ∃ d ∈ candidates, d.normalizedValue = c.normalizedValue
        · simp [hold]
        · have hnone : candidates.filter (·.normalizedValue = c.normalizedValue) = [] := by
            rw [List.filter_eq_nil_iff]
            intro d hd
            simpa using fun h => hold ⟨d, hd, h⟩
          simp [hold, hnone]
      · have hne : c.normalizedValue ≠ normalized := Ne.symm heq
        simp [heq, hne]

end Groups

/-! ## §4 — Ranks -/

section Ranks

variable {policy : PreflightPolicy K} {candidates candidates' : List (ResolutionCandidate K)}

theorem groupScore_spec (policy : PreflightPolicy K) {group : List (ResolutionCandidate K)} (hne : group ≠ []) :
    (∃ c ∈ group, effectiveConfidence policy c = groupScore policy group) ∧
      ∀ c ∈ group, effectiveConfidence policy c ≤ groupScore policy group := by
  unfold groupScore
  split
  · next best hbest =>
      exact ⟨⟨best, List.argmax_mem hbest, rfl⟩, fun c hc => List.le_of_mem_argmax hc hbest⟩
  · next hnone => exact absurd (List.argmax_eq_none.mp hnone) hne

theorem groupScore_perm {group group' : List (ResolutionCandidate K)} (hne : group ≠ []) (h : group.Perm group') :
    groupScore policy group = groupScore policy group' := by
  have hne' : group' ≠ [] := fun hnil => hne (List.perm_nil.mp (hnil ▸ h))
  obtain ⟨⟨c, hc, hscore⟩, hle⟩ := groupScore_spec policy hne
  obtain ⟨⟨c', hc', hscore'⟩, hle'⟩ := groupScore_spec policy hne'
  apply le_antisymm
  · rw [← hscore]
    exact hle' c (h.mem_iff.mp hc)
  · rw [← hscore']
    exact hle c' (h.mem_iff.mpr hc')

theorem bestDisplay_spec (policy : PreflightPolicy K) {supporting : List (ResolutionCandidate K)} (hne : supporting ≠ []) :
    ∃ best ∈ supporting, effectiveConfidence policy best = groupScore policy supporting ∧
      best.displayValue = bestDisplay policy supporting := by
  unfold bestDisplay groupScore
  split
  · next best hbest => exact ⟨best, List.argmax_mem hbest, rfl, rfl⟩
  · next hnone => exact absurd (List.argmax_eq_none.mp hnone) hne

theorem mem_rankGroups {item : Ranked K} : item ∈ rankGroups policy candidates ↔
    (∃ c ∈ candidates, c.normalizedValue = item.normalized) ∧
      item.supporting = candidates.filter (·.normalizedValue = item.normalized) ∧
      item.score = groupScore policy item.supporting := by
  rw [rankGroups, List.mem_insertionSort, List.mem_map]
  constructor
  · rintro ⟨⟨normalized, group⟩, hmem, rfl⟩
    obtain ⟨hvalue, hgroup⟩ := ((grouped_spec candidates).2 normalized group).mp hmem
    exact ⟨hvalue, hgroup, rfl⟩
  · rintro ⟨hvalue, hgroup, hscore⟩
    refine ⟨(item.normalized, item.supporting), ((grouped_spec candidates).2 _ _).mpr ⟨hvalue, hgroup⟩, ?_⟩
    rw [← hscore]

theorem exists_rank {c : ResolutionCandidate K} (hc : c ∈ candidates) :
    ∃ item ∈ rankGroups policy candidates, item.normalized = c.normalizedValue := by
  let group := candidates.filter (·.normalizedValue = c.normalizedValue)
  refine ⟨⟨groupScore policy group, c.normalizedValue, group⟩, ?_, rfl⟩
  exact mem_rankGroups.mpr ⟨⟨c, hc, rfl⟩, rfl, rfl⟩

theorem supporting_ne_nil {item : Ranked K} (h : item ∈ rankGroups policy candidates) : item.supporting ≠ [] := by
  obtain ⟨⟨c, hc, hvalue⟩, hgroup, -⟩ := mem_rankGroups.mp h
  rw [hgroup]
  exact List.ne_nil_of_mem (List.mem_filter.mpr ⟨hc, by simpa using hvalue⟩)

theorem normalized_nodup (policy : PreflightPolicy K) (candidates : List (ResolutionCandidate K)) :
    ((rankGroups policy candidates).map (·.normalized)).Nodup := by
  have hperm := (List.perm_insertionSort rankLe ((grouped candidates).map fun item =>
    (⟨groupScore policy item.2, item.1, item.2⟩ : Ranked K))).map (·.normalized)
  rw [rankGroups, hperm.nodup_iff, List.map_map]
  exact (grouped_spec candidates).1

theorem rank_total (a b : Ranked K) : rankLe a b ∨ rankLe b a := by
  have hvalues : a.normalized ≤ b.normalized ∨ b.normalized ≤ a.normalized := by
    first
      | exact List.le_total a.normalized b.normalized
      | exact le_total a.normalized b.normalized
  rcases lt_trichotomy a.score b.score with hlt | heq | hlt
  · exact .inr (.inl hlt)
  · exact hvalues.imp (fun h => .inr ⟨heq, h⟩) fun h => .inr ⟨heq.symm, h⟩
  · exact .inl (.inl hlt)

theorem rank_trans {a b c : Ranked K} (hab : rankLe a b) (hbc : rankLe b c) : rankLe a c := by
  rcases hab with hab | ⟨hab, hvalue⟩ <;> rcases hbc with hbc | ⟨hbc, hvalue'⟩
  · exact .inl (hbc.trans hab)
  · exact .inl (hbc ▸ hab)
  · exact .inl (hab ▸ hbc)
  · refine .inr ⟨hab.trans hbc, ?_⟩
    first
      | exact List.le_trans hvalue hvalue'
      | exact le_trans hvalue hvalue'

theorem rank_antisymm {a b : Ranked K} (hab : rankLe a b) (hba : rankLe b a) :
    a.score = b.score ∧ a.normalized = b.normalized := by
  rcases hab with hab | ⟨heq, hvalue⟩ <;> rcases hba with hba | ⟨heq', hvalue'⟩
  · exact absurd hab (lt_asymm hba)
  · exact absurd hab (heq' ▸ lt_irrefl _)
  · exact absurd hba (heq ▸ lt_irrefl _)
  · refine ⟨heq, ?_⟩
    first
      | exact List.le_antisymm hvalue hvalue'
      | exact le_antisymm hvalue hvalue'

theorem rankGroups_sorted (policy : PreflightPolicy K) (candidates : List (ResolutionCandidate K)) :
    (rankGroups policy candidates).Pairwise rankLe := by
  have htotal : Std.Total (rankLe (K := K)) := ⟨rank_total⟩
  have htrans : IsTrans _ (rankLe (K := K)) := ⟨fun _ _ _ => rank_trans⟩
  exact List.pairwise_insertionSort rankLe _

/-- Two ranks of one value, from candidates in another order. -/
structure SameRank (a b : Ranked K) : Prop where
  score : a.score = b.score
  normalized : a.normalized = b.normalized
  supporting : a.supporting.Perm b.supporting

/-- What decides the place of a rank. -/
def Ranked.place (item : Ranked K) : K × Str := (item.score, item.normalized)

theorem place_nodup (policy : PreflightPolicy K) (candidates : List (ResolutionCandidate K)) :
    ((rankGroups policy candidates).map Ranked.place).Nodup := by
  have hnodup := normalized_nodup policy candidates
  rw [show (fun item : Ranked K => item.normalized) = Prod.snd ∘ Ranked.place from rfl, ← List.map_map] at hnodup
  exact hnodup.of_map

theorem place_mem_perm (h : candidates.Perm candidates') {place : K × Str}
    (hmem : place ∈ (rankGroups policy candidates).map Ranked.place) :
    place ∈ (rankGroups policy candidates').map Ranked.place := by
  obtain ⟨item, hitem, rfl⟩ := List.mem_map.mp hmem
  have hne := supporting_ne_nil hitem
  obtain ⟨⟨c, hc, hvalue⟩, hgroup, hscore⟩ := mem_rankGroups.mp hitem
  rw [hgroup] at hne
  have hperm := h.filter (·.normalizedValue = item.normalized)
  refine List.mem_map.mpr ⟨⟨item.score, item.normalized, candidates'.filter (·.normalizedValue = item.normalized)⟩,
    mem_rankGroups.mpr ⟨⟨c, h.mem_iff.mp hc, hvalue⟩, rfl, ?_⟩, rfl⟩
  show item.score = _
  rw [hscore, hgroup]
  exact groupScore_perm hne hperm

/-- **The order of the candidates does not matter for the ranks.** -/
theorem rankGroups_perm (policy : PreflightPolicy K) (h : candidates.Perm candidates') :
    List.Forall₂ SameRank (rankGroups policy candidates) (rankGroups policy candidates') := by
  have hperm : ((rankGroups policy candidates).map Ranked.place).Perm
      ((rankGroups policy candidates').map Ranked.place) :=
    (List.perm_ext_iff_of_nodup (place_nodup _ _) (place_nodup _ _)).mpr fun _ =>
      ⟨place_mem_perm h, place_mem_perm h.symm⟩
  -- the places come in one order only
  have hplaces : (rankGroups policy candidates).map Ranked.place = (rankGroups policy candidates').map Ranked.place := by
    have hsorted : ∀ cs : List (ResolutionCandidate K), ((rankGroups policy cs).map Ranked.place).Pairwise fun p q =>
        rankLe (⟨p.1, p.2, []⟩ : Ranked K) ⟨q.1, q.2, []⟩ := fun cs =>
      List.pairwise_map.mpr (rankGroups_sorted policy cs)
    refine List.Perm.eq_of_pairwise (fun p q _ _ hpq hqp => ?_) (hsorted candidates) (hsorted candidates') hperm
    obtain ⟨hscore, hvalue⟩ := rank_antisymm hpq hqp
    exact Prod.ext hscore hvalue
  have hmaps : List.Forall₂ Eq ((rankGroups policy candidates).map Ranked.place)
      ((rankGroups policy candidates').map Ranked.place) := by
    rw [hplaces]
    exact List.forall₂_refl _
  have hsame : List.Forall₂ (fun a b => a.place = b.place) (rankGroups policy candidates)
      (rankGroups policy candidates') := List.forall₂_map_right_iff.mp (List.forall₂_map_left_iff.mp hmaps)
  refine List.forall₂_iff_zip.mpr ⟨hsame.length_eq, fun {a b} hzip => ?_⟩
  have hab : a.place = b.place := (List.forall₂_iff_zip.mp hsame).2 hzip
  obtain ⟨ha, hb⟩ := List.of_mem_zip hzip
  have hvalue : a.normalized = b.normalized := congrArg Prod.snd hab
  refine ⟨congrArg Prod.fst hab, hvalue, ?_⟩
  rw [(mem_rankGroups.mp ha).2.1, (mem_rankGroups.mp hb).2.1, hvalue]
  exact h.filter _

end Ranks

/-! ## §5 — One mention -/

section Mention

variable {policy : PreflightPolicy K} {round6 : K → K} {candidates candidates' : List (ResolutionCandidate K)}
  {mentionId : Str} {chosen : SelectedValue K}

/-- A candidate for the mention and the value of a choice, as good as any other for them. -/
structure IsBest (policy : PreflightPolicy K) (candidates : List (ResolutionCandidate K)) (chosen : SelectedValue K)
    (c : ResolutionCandidate K) : Prop where
  mem : c ∈ candidates
  mentionId : c.mentionId = chosen.mentionId
  normalizedValue : c.normalizedValue = chosen.normalizedValue
  best : ∀ d ∈ candidates, d.mentionId = chosen.mentionId → d.normalizedValue = chosen.normalizedValue →
    effectiveConfidence policy d ≤ effectiveConfidence policy c

/-- Two choices that differ at most in the order of the ids behind them, and in which of the best candidates is shown. -/
structure SameSelected (policy : PreflightPolicy K) (candidates : List (ResolutionCandidate K))
    (a b : SelectedValue K) : Prop where
  mentionId : a.mentionId = b.mentionId
  normalizedValue : a.normalizedValue = b.normalizedValue
  confidence : a.confidence = b.confidence
  supporting : a.supportingCandidateIds.Perm b.supportingCandidateIds
  shown : ∃ c, IsBest policy candidates a c ∧ a.displayValue = c.displayValue
  shown' : ∃ c, IsBest policy candidates a c ∧ b.displayValue = c.displayValue

theorem settle_ok (h : settle policy round6 candidates mentionId = .ok chosen) :
    ∃ top rest, rankGroups policy (candidates.filter (·.mentionId = mentionId)) = top :: rest ∧
      ¬ Conflicting policy top rest ∧ policy.autoSelectMinConfidence ≤ top.score ∧
      chosen = ⟨mentionId, top.normalized, bestDisplay policy top.supporting, round6 top.score,
        top.supporting.map (·.candidateId)⟩ := by
  unfold settle at h
  split at h
  · cases h
  · next top rest hranks =>
      split at h
      · cases h
      split at h
      · cases h
      · next hconflict hlow => exact ⟨top, rest, hranks, hconflict, not_lt.mp hlow, (Except.ok.inj h).symm⟩

theorem settle_mentionId (h : settle policy round6 candidates mentionId = .ok chosen) :
    chosen.mentionId = mentionId := by
  obtain ⟨top, rest, -, -, -, rfl⟩ := settle_ok h
  rfl

theorem mem_supporting {item : Ranked K} (h : item ∈ rankGroups policy (candidates.filter (·.mentionId = mentionId)))
    {c : ResolutionCandidate K} : c ∈ item.supporting ↔
      c ∈ candidates ∧ c.mentionId = mentionId ∧ c.normalizedValue = item.normalized := by
  rw [(mem_rankGroups.mp h).2.1]
  simp only [List.mem_filter, decide_eq_true_eq]
  tauto

theorem exists_shown {item : Ranked K} (h : item ∈ rankGroups policy (candidates.filter (·.mentionId = mentionId)))
    (hmention : chosen.mentionId = mentionId) (hvalue : chosen.normalizedValue = item.normalized) :
    ∃ c, IsBest policy candidates chosen c ∧ bestDisplay policy item.supporting = c.displayValue := by
  have hne := supporting_ne_nil h
  obtain ⟨c, hc, hscore, hdisplay⟩ := bestDisplay_spec policy hne
  obtain ⟨hmem, hm, hv⟩ := (mem_supporting h).mp hc
  refine ⟨c, ⟨hmem, hm.trans hmention.symm, hv.trans hvalue.symm, fun d hd hdm hdv => ?_⟩, hdisplay.symm⟩
  rw [hscore]
  exact (groupScore_spec policy hne).2 d ((mem_supporting h).mpr ⟨hd, hdm.trans hmention, hdv.trans hvalue⟩)

theorem isBest_perm (h : candidates.Perm candidates') {c : ResolutionCandidate K}
    (hbest : IsBest policy candidates' chosen c) : IsBest policy candidates chosen c :=
  ⟨h.mem_iff.mpr hbest.mem, hbest.mentionId, hbest.normalizedValue, fun d hd => hbest.best d (h.mem_iff.mp hd)⟩

/-- Two outcomes for a mention, from candidates in another order. -/
inductive SameOutcome (policy : PreflightPolicy K) (candidates : List (ResolutionCandidate K)) :
    Except DecisionReason (SelectedValue K) → Except DecisionReason (SelectedValue K) → Prop
  | error (reason : DecisionReason) : SameOutcome policy candidates (.error reason) (.error reason)
  | ok {a b : SelectedValue K} (h : SameSelected policy candidates a b) : SameOutcome policy candidates (.ok a) (.ok b)

theorem conflicting_same {top top' : Ranked K} {rest rest' : List (Ranked K)} (h : SameRank top top')
    (hrest : List.Forall₂ SameRank rest rest') : Conflicting policy top rest ↔ Conflicting policy top' rest' := by
  cases hrest with
  | nil => exact Iff.rfl
  | cons hsecond _ =>
    simp only [Conflicting]
    rw [h.score, hsecond.score]

/-- **The order of the candidates does not matter for a mention.** -/
theorem settle_perm (h : candidates.Perm candidates') :
    SameOutcome policy candidates (settle policy round6 candidates mentionId)
      (settle policy round6 candidates' mentionId) := by
  have hranks := rankGroups_perm policy (h.filter (·.mentionId = mentionId))
  unfold settle
  rcases hleft : rankGroups policy (candidates.filter (·.mentionId = mentionId)) with _ | ⟨top, rest⟩ <;>
    rcases hright : rankGroups policy (candidates'.filter (·.mentionId = mentionId)) with _ | ⟨top', rest'⟩ <;>
    rw [hleft, hright] at hranks
  · exact .error _
  · cases hranks
  · cases hranks
  · obtain ⟨htop, hrest⟩ := List.forall₂_cons.mp hranks
    dsimp only
    rw [← htop.score]
    by_cases hconflict : Conflicting policy top rest
    · rw [if_pos hconflict, if_pos ((conflicting_same htop hrest).mp hconflict)]
      exact .error _
    rw [if_neg hconflict, if_neg (mt (conflicting_same htop hrest).mpr hconflict)]
    split
    · exact .error _
    · have hmem : top ∈ rankGroups policy (candidates.filter (·.mentionId = mentionId)) :=
        hleft ▸ List.mem_cons_self
      have hmem' : top' ∈ rankGroups policy (candidates'.filter (·.mentionId = mentionId)) :=
        hright ▸ List.mem_cons_self
      have hshown : ∃ c, IsBest policy candidates' ⟨mentionId, top.normalized, bestDisplay policy top.supporting,
          round6 top.score, top.supporting.map (·.candidateId)⟩ c ∧
          bestDisplay policy top'.supporting = c.displayValue := exists_shown hmem' rfl htop.normalized
      obtain ⟨c, hbest, hdisplay⟩ := hshown
      exact .ok ⟨rfl, htop.normalized, rfl, htop.supporting.map _, exists_shown hmem rfl rfl, c, isBest_perm h hbest,
        hdisplay⟩

end Mention

/-! ## §6 — Decisions -/

/-- What a choice rests on: a candidate at or above the floor, all of whose rivals for the mention are below the floor
for conflicts and at least the margin below it. -/
structure Safe (policy : PreflightPolicy K) (candidates : List (ResolutionCandidate K)) (chosen : SelectedValue K)
    (c : ResolutionCandidate K) : Prop extends IsBest policy candidates chosen c where
  floor : policy.autoSelectMinConfidence ≤ effectiveConfidence policy c
  rivals : ∀ rival ∈ candidates, rival.mentionId = chosen.mentionId → rival.normalizedValue ≠ chosen.normalizedValue →
    effectiveConfidence policy rival < policy.conflictMinConfidence ∧
      policy.ambiguityMargin ≤ effectiveConfidence policy c - effectiveConfidence policy rival

section Decisions

variable {policy : PreflightPolicy K} {round6 : K → K} {candidates candidates' : List (ResolutionCandidate K)}
  {chosen : SelectedValue K} {request : PreflightInput} {audit : AuditMetadata}

/-- **What is chosen is safe to choose.** -/
theorem settle_safe [IsStrictOrderedRing K] {mentionId : Str}
    (h : settle policy round6 candidates mentionId = .ok chosen) : ∃ c, Safe policy candidates chosen c := by
  obtain ⟨top, rest, hranks, hconflict, hfloor, rfl⟩ := settle_ok h
  have hmem : top ∈ rankGroups policy (candidates.filter (·.mentionId = mentionId)) := hranks ▸ List.mem_cons_self
  have hne := supporting_ne_nil hmem
  obtain ⟨c, hc, hscore, -⟩ := bestDisplay_spec policy hne
  have htop : effectiveConfidence policy c = top.score := hscore.trans (mem_rankGroups.mp hmem).2.2.symm
  obtain ⟨hcand, hm, hv⟩ := (mem_supporting hmem).mp hc
  refine ⟨c, ⟨hcand, hm, hv, fun d hd hdm hdv => ?_⟩, htop ▸ hfloor, fun rival hrival hrm hrv => ?_⟩
  · rw [hscore]
    exact (groupScore_spec policy hne).2 d ((mem_supporting hmem).mpr ⟨hd, hdm, hdv⟩)
  · -- the rank of the rival's value is the second one or comes behind it
    have hfiltered : rival ∈ candidates.filter (·.mentionId = mentionId) :=
      List.mem_filter.mpr ⟨hrival, by simpa using hrm⟩
    obtain ⟨item, hitem, hvalue⟩ : ∃ item ∈ rankGroups policy (candidates.filter (·.mentionId = mentionId)),
        item.normalized = rival.normalizedValue := exists_rank hfiltered
    have hle : effectiveConfidence policy rival ≤ item.score := by
      rw [(mem_rankGroups.mp hitem).2.2]
      exact (groupScore_spec policy (supporting_ne_nil hitem)).2 rival ((mem_supporting hitem).mpr ⟨hrival, hrm, hvalue.symm⟩)
    have hsorted := rankGroups_sorted policy (candidates.filter (·.mentionId = mentionId))
    rw [hranks] at hitem hsorted
    rcases List.mem_cons.mp hitem with rfl | hitem
    · exact absurd hvalue.symm hrv
    · cases rest with
      | nil => cases hitem
      | cons second rest =>
        have hsecond : item.score ≤ second.score := by
          rcases List.mem_cons.mp hitem with rfl | hitem
          · exact le_rfl
          · rcases (List.pairwise_cons.mp (List.pairwise_cons.mp hsorted).2).1 item hitem with hlt | ⟨heq, -⟩
            · exact hlt.le
            · exact heq.ge
        simp only [Conflicting, not_or, not_le, not_lt] at hconflict
        refine ⟨(hle.trans hsecond).trans_lt hconflict.1, hconflict.2.trans ?_⟩
        rw [htop]
        exact sub_le_sub_left (hle.trans hsecond) _

theorem outcomes_perm (policy : PreflightPolicy K) (round6 : K → K) (h : candidates.Perm candidates')
    (entities : List DetectedEntity) :
    List.Forall₂ (SameOutcome policy candidates) (entities.map fun e => settle policy round6 candidates e.mentionId)
      (entities.map fun e => settle policy round6 candidates' e.mentionId) := by
  induction entities with
  | nil => exact .nil
  | cons entity entities ih => exact .cons (settle_perm h) ih

theorem reasonsOf_same {outcomes outcomes' : List (Except DecisionReason (SelectedValue K))}
    (h : List.Forall₂ (SameOutcome policy candidates) outcomes outcomes') : reasonsOf outcomes = reasonsOf outcomes' := by
  induction h with
  | nil => rfl
  | cons hfirst _ ih =>
    cases hfirst with
    | error reason => exact congrArg (reason :: ·) ih
    | ok _ => exact ih

theorem selected_same {outcomes outcomes' : List (Except DecisionReason (SelectedValue K))}
    (h : List.Forall₂ (SameOutcome policy candidates) outcomes outcomes') :
    List.Forall₂ (SameSelected policy candidates) (outcomes.filterMap Except.toOption)
      (outcomes'.filterMap Except.toOption) := by
  induction h with
  | nil => exact .nil
  | cons hfirst _ ih =>
    cases hfirst with
    | error reason => exact ih
    | ok hsame => exact .cons hsame ih

theorem exists_selected {entities : List DetectedEntity}
    (h : reasonsOf (entities.map fun e => settle policy round6 candidates e.mentionId) = []) {entity : DetectedEntity}
    (hentity : entity ∈ entities) : ∃ chosen,
      chosen ∈ (entities.map fun e => settle policy round6 candidates e.mentionId).filterMap Except.toOption ∧
      settle policy round6 candidates entity.mentionId = .ok chosen := by
  cases hsettle : settle policy round6 candidates entity.mentionId with
  | error reason =>
    have hmem : reason ∈ reasonsOf (entities.map fun e => settle policy round6 candidates e.mentionId) :=
      List.mem_filterMap.mpr ⟨_, List.mem_map_of_mem hentity, by rw [hsettle]⟩
    rw [h] at hmem
    cases hmem
  | ok chosen => exact ⟨chosen, List.mem_filterMap.mpr ⟨_, List.mem_map_of_mem hentity, by rw [hsettle]; rfl⟩, rfl⟩

theorem decide_ok {d : PreflightDecision K} (h : decide round6 request candidates audit policy = .ok d) :
    (request.entities = [] ∧ d = ⟨request, candidates, [], .notDetected, .noEntity, false, audit⟩) ∨
    (request.entities ≠ [] ∧
      d.selected = (request.entities.map fun e => settle policy round6 candidates e.mentionId).filterMap Except.toOption ∧
      ((reasonsOf (request.entities.map fun e => settle policy round6 candidates e.mentionId) ≠ [] ∧
          d.decision = .confirmationRequired ∧ d.needsConfirmation = true ∧
          d.reason = worst (reasonsOf (request.entities.map fun e => settle policy round6 candidates e.mentionId))) ∨
        (reasonsOf (request.entities.map fun e => settle policy round6 candidates e.mentionId) = [] ∧
          d.decision = .autoSelected ∧ d.needsConfirmation = false ∧ d.reason = .singleHighConfidence))) := by
  unfold decide at h
  split at h
  · cases h
  split at h
  · cases h
  split at h
  · cases h
  split at h
  · cases h
  split at h
  · next hnone => exact .inl ⟨hnone, (Except.ok.inj h).symm⟩
  · next hsome =>
      refine .inr ⟨hsome, ?_⟩
      dsimp only at h
      split at h
      · next hreasons =>
          obtain rfl := Except.ok.inj h
          exact ⟨rfl, .inl ⟨hreasons, rfl, rfl, rfl⟩⟩
      · next hreasons =>
          obtain rfl := Except.ok.inj h
          exact ⟨rfl, .inr ⟨not_not.mp hreasons, rfl, rfl, rfl⟩⟩

theorem decide_error_perm (h : candidates.Perm candidates') {refusal : Refusal}
    (hrefused : decide round6 request candidates audit policy = .error refusal) :
    decide round6 request candidates' audit policy = .error refusal := by
  have hids : (candidates'.map (·.candidateId)).Nodup ↔ (candidates.map (·.candidateId)).Nodup :=
    (h.map (·.candidateId)).nodup_iff.symm
  have hmentions : (∃ candidate ∈ candidates', candidate.mentionId ∉ request.entities.map (·.mentionId)) ↔
      ∃ candidate ∈ candidates, candidate.mentionId ∉ request.entities.map (·.mentionId) :=
    exists_congr fun _ => and_congr_left fun _ => h.mem_iff.symm
  have hqueries : (∃ candidate ∈ candidates', (candidate.relationshipQueryId.any fun queryId =>
        subjectOf request queryId ≠ some candidate.mentionId) = true) ↔
      ∃ candidate ∈ candidates, (candidate.relationshipQueryId.any fun queryId =>
        subjectOf request queryId ≠ some candidate.mentionId) = true :=
    exists_congr fun _ => and_congr_left fun _ => h.mem_iff.symm
  unfold decide at hrefused ⊢
  simp only [hids, hmentions, hqueries]
  split at hrefused
  · next hversion => rw [if_pos hversion, ← hrefused]
  rw [if_neg ‹_›]
  split at hrefused
  · next hdup => rw [if_pos hdup, ← hrefused]
  rw [if_neg ‹_›]
  split at hrefused
  · next hunknown => rw [if_pos hunknown, ← hrefused]
  rw [if_neg ‹_›]
  split at hrefused
  · next hunrelated => rw [if_pos hunrelated, ← hrefused]
  -- behind the checks nothing is refused
  split at hrefused
  · cases hrefused
  · dsimp only at hrefused
    split at hrefused <;> cases hrefused

end Decisions

/-- **A decision depends on the candidates and not on their order, and an automatic choice is safe.** In any order: the
same refusal, or the same decision and reason, and for the same mentions the same values with the same confidence; what
may differ is the order of the ids behind a choice, and the text shown for it among those of equally good candidates.
And where the decision is automatic, every choice rests on a candidate at or above the floor and far enough from every
rival. -/
theorem decide_perm_auto [IsStrictOrderedRing K] (round6 : K → K) (request : PreflightInput)
    {candidates candidates' : List (ResolutionCandidate K)} (h : candidates.Perm candidates') (audit : AuditMetadata)
    (policy : PreflightPolicy K) :
    (∀ refusal, decide round6 request candidates audit policy = .error refusal ↔
      decide round6 request candidates' audit policy = .error refusal) ∧
    (∀ d d', decide round6 request candidates audit policy = .ok d →
      decide round6 request candidates' audit policy = .ok d' →
      d.decision = d'.decision ∧ d.reason = d'.reason ∧ d.needsConfirmation = d'.needsConfirmation ∧
        List.Forall₂ (SameSelected policy candidates) d.selected d'.selected) ∧
    (∀ d, decide round6 request candidates audit policy = .ok d → d.decision = .autoSelected →
      ∀ entity ∈ request.entities, ∃ chosen ∈ d.selected, chosen.mentionId = entity.mentionId ∧
        ∃ c, Safe policy candidates chosen c) := by
  refine ⟨fun refusal => ⟨decide_error_perm h, decide_error_perm h.symm⟩, fun d d' hd hd' => ?_, fun d hd hauto => ?_⟩
  · have houtcomes := outcomes_perm policy round6 h request.entities
    have hreasons := reasonsOf_same houtcomes
    rcases decide_ok hd with ⟨hnone, rfl⟩ | ⟨hsome, hselected, hcase⟩ <;>
      rcases decide_ok hd' with ⟨hnone', rfl⟩ | ⟨hsome', hselected', hcase'⟩
    · exact ⟨rfl, rfl, rfl, .nil⟩
    · exact absurd hnone hsome'
    · exact absurd hnone' hsome
    · have hsame := selected_same houtcomes
      rw [← hselected, ← hselected'] at hsame
      rw [← hreasons] at hcase'
      rcases hcase with ⟨hne, hdecision, hneeds, hreason⟩ | ⟨hnil, hdecision, hneeds, hreason⟩ <;>
        rcases hcase' with ⟨hne', hdecision', hneeds', hreason'⟩ | ⟨hnil', hdecision', hneeds', hreason'⟩
      · exact ⟨hdecision.trans hdecision'.symm, hreason.trans hreason'.symm, hneeds.trans hneeds'.symm, hsame⟩
      · exact absurd hnil' hne
      · exact absurd hnil hne'
      · exact ⟨hdecision.trans hdecision'.symm, hreason.trans hreason'.symm, hneeds.trans hneeds'.symm, hsame⟩
  · intro entity hentity
    rcases decide_ok hd with ⟨hnone, -⟩ | ⟨-, hselected, ⟨-, hdecision, -⟩ | ⟨hnil, -⟩⟩
    · rw [hnone] at hentity
      cases hentity
    · rw [hdecision] at hauto
      cases hauto
    · obtain ⟨chosen, hmem, hsettle⟩ := exists_selected hnil hentity
      rw [← hselected] at hmem
      exact ⟨chosen, hmem, settle_mentionId hsettle, settle_safe hsettle⟩

/-! ## §7 — A mention with two candidates -/

/-- A candidate for the only mention of `sampleInput`, as sure as can be. -/
def sampleCandidate (candidateId displayValue : Str) (hid : candidateId ≠ []) (hdisplay : displayValue ≠ []) :
    ResolutionCandidate ℚ :=
  ⟨candidateId, [0x6d], .explicitInput, [0x76], displayValue, 1, [0x72], none,
    ⟨hid, by simp, by simp, hdisplay, by simp⟩, by norm_num⟩

def sampleInput : PreflightInput :=
  ⟨[0x69], [0x61], [0x74], [0x6f], [⟨[0x6d], [0x61], .person, 0, 1, by simp, by simp, by omega⟩], [],
    by simp, by simp, by simp, by simp, by simp, by simp [DetectedEntity.Matches, slice], by simp, by simp⟩

def samplePolicy : PreflightPolicy ℚ :=
  ⟨[0x31], 1, 1, 0, fun _ => 1, by simp, by norm_num, by norm_num, by norm_num⟩

def sampleAudit : AuditMetadata := ⟨[], [0x31], [], [], [], [], []⟩

def sampleFirst : ResolutionCandidate ℚ := sampleCandidate [0x31] [0x78] (by simp) (by simp)

def sampleSecond : ResolutionCandidate ℚ := sampleCandidate [0x32] [0x79] (by simp) (by simp)

theorem sample_shown : ((decide id sampleInput [sampleFirst, sampleSecond] sampleAudit samplePolicy).toOption.map
      fun d => d.selected.map (·.displayValue)) = some [[0x78]] ∧
    ((decide id sampleInput [sampleSecond, sampleFirst] sampleAudit samplePolicy).toOption.map
      fun d => d.selected.map (·.displayValue)) = some [[0x79]] := by
  decide +kernel

/-- Two equally good candidates, one before the other or behind it, and another text is shown. -/
theorem display_depends_on_order : ¬ ∀ candidates candidates' : List (ResolutionCandidate ℚ),
    candidates.Perm candidates' → ∀ d d', decide id sampleInput candidates sampleAudit samplePolicy = .ok d →
      decide id sampleInput candidates' sampleAudit samplePolicy = .ok d' → d.selected = d'.selected := by
  intro h
  obtain ⟨d, hd, hshown⟩ := Option.map_eq_some_iff.mp sample_shown.1
  obtain ⟨d', hd', hshown'⟩ := Option.map_eq_some_iff.mp sample_shown.2
  have hok : ∀ {candidates : List (ResolutionCandidate ℚ)} {d : PreflightDecision ℚ},
      (decide id sampleInput candidates sampleAudit samplePolicy).toOption = some d →
      decide id sampleInput candidates sampleAudit samplePolicy = .ok d := by
    intro candidates d hd
    cases hdecide : decide id sampleInput candidates sampleAudit samplePolicy with
    | error refusal =>
      rw [hdecide] at hd
      cases hd
    | ok d₀ =>
      rw [hdecide] at hd
      exact congrArg Except.ok (Option.some.inj hd)
  have hselected := h _ _ (List.Perm.swap _ _ _) d d' (hok hd) (hok hd')
  rw [hselected, hshown'] at hshown
  cases hshown

/-- The two in either order: one decision, and one value. -/
theorem decide_perm_sample :
    (∀ refusal, decide id sampleInput [sampleFirst, sampleSecond] sampleAudit samplePolicy = .error refusal ↔
      decide id sampleInput [sampleSecond, sampleFirst] sampleAudit samplePolicy = .error refusal) ∧
    ∀ d d', decide id sampleInput [sampleFirst, sampleSecond] sampleAudit samplePolicy = .ok d →
      decide id sampleInput [sampleSecond, sampleFirst] sampleAudit samplePolicy = .ok d' →
      d.decision = d'.decision ∧ d.reason = d'.reason ∧ d.needsConfirmation = d'.needsConfirmation ∧
        List.Forall₂ (SameSelected samplePolicy [sampleFirst, sampleSecond]) d.selected d'.selected :=
  have h := decide_perm_auto id sampleInput (List.Perm.swap sampleSecond sampleFirst []) sampleAudit samplePolicy
  ⟨h.1, h.2.1⟩

end Autophagy.EntityPreflight.Contract
