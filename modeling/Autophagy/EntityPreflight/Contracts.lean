/-
# Autophagy.EntityPreflight.Contracts — the typed contract of a preflight.

`contracts.py`: a value that its constructor refuses is not a value here either. Each structure has the checks of its
`__post_init__` as fields, and `make?` is the constructor, with the text of the `ValueError` it raises.
-/
import Autophagy.EntityPreflight.Write

namespace Autophagy.EntityPreflight.Contract

open Autophagy.Python

/-! ## §1 — Kinds -/

/-- `EntityKind` -/
inductive EntityKind
  | person
  | organization
  | project
  | place
  | account
  | other
  deriving DecidableEq

/-- `EntityKind.value` -/
def EntityKind.value : EntityKind → Str
  | .person => "person"
  | .organization => "organization"
  | .project => "project"
  | .place => "place"
  | .account => "account"
  | .other => "other"

/-- `SourceKind` -/
inductive SourceKind
  | explicitInput
  | relationshipQuery
  | addressbookOrganization
  | addressbookContacts
  | addressbookHistory
  | personalRag
  | hermesMemory
  deriving DecidableEq

/-! ## §2 — Mentions -/

/-- `DetectedEntity` -/
structure DetectedEntity where
  mentionId : Str
  surface : Str
  kind : EntityKind
  start : Nat
  stop : Nat
  mentionId_ne_nil : mentionId ≠ []
  surface_ne_nil : surface ≠ []
  start_lt_stop : start < stop

/-- `DetectedEntity(…)`; the positions are any integers. -/
def DetectedEntity.make? (mentionId surface : Str) (kind : EntityKind) (start stop : Int) : Except Str DetectedEntity :=
  if h : mentionId = [] ∨ surface = [] ∨ start < 0 ∨ stop ≤ start then .error "invalid detected entity"
  else .ok ⟨mentionId, surface, kind, start.toNat, stop.toNat, by tauto, by tauto, by omega⟩

theorem DetectedEntity.make?_ok {mentionId surface : Str} (hid : mentionId ≠ []) (hsurface : surface ≠ [])
    (kind : EntityKind) {start stop : Nat} (hlt : start < stop) : ∃ entity : DetectedEntity,
    make? mentionId surface kind start stop = .ok entity ∧ entity.mentionId = mentionId ∧ entity.surface = surface ∧
      entity.kind = kind ∧ entity.start = start ∧ entity.stop = stop := by
  have hvalid : ¬ (mentionId = [] ∨ surface = [] ∨ (start : Int) < 0 ∨ (stop : Int) ≤ start) := by
    simp only [hid, hsurface, false_or]
    omega
  refine ⟨⟨mentionId, surface, kind, start, stop, hid, hsurface, hlt⟩, ?_, rfl, rfl, rfl, rfl, rfl⟩
  rw [make?, dif_neg hvalid]
  rfl

/-- `RelationshipQuery` -/
structure RelationshipQuery where
  queryId : Str
  subjectMentionId : Str
  relation : Str
  targetKind : EntityKind
  question : Str
  queryId_ne_nil : queryId ≠ []
  subjectMentionId_ne_nil : subjectMentionId ≠ []
  relation_ne_nil : relation ≠ []
  question_ne_nil : question ≠ []

/-! ## §3 — Inputs -/

/-- `raw_text[start:stop]` -/
def slice (text : Str) (start stop : Nat) : Str := (text.drop start).take (stop - start)

/-- The span of a mention is where its surface stands in the text. -/
def DetectedEntity.Matches (text : Str) (entity : DetectedEntity) : Prop :=
  entity.stop ≤ text.length ∧ slice text entity.start entity.stop = entity.surface

instance (text : Str) (entity : DetectedEntity) : Decidable (entity.Matches text) := by
  unfold DetectedEntity.Matches
  infer_instance

/-- `PreflightInput` -/
structure PreflightInput where
  requestId : Str
  rawText : Str
  targetSystem : Str
  operation : Str
  entities : List DetectedEntity
  relationshipQueries : List RelationshipQuery
  requestId_ne_nil : requestId ≠ []
  rawText_ne_nil : rawText ≠ []
  targetSystem_ne_nil : targetSystem ≠ []
  operation_ne_nil : operation ≠ []
  mentionIds_nodup : (entities.map (·.mentionId)).Nodup
  spans_match : ∀ entity ∈ entities, entity.Matches rawText
  queryIds_nodup : (relationshipQueries.map (·.queryId)).Nodup
  subjects_known : ∀ query ∈ relationshipQueries, query.subjectMentionId ∈ entities.map (·.mentionId)

/-- `PreflightInput(…)` -/
def PreflightInput.make? (requestId rawText targetSystem operation : Str) (entities : List DetectedEntity)
    (relationshipQueries : List RelationshipQuery) : Except Str PreflightInput :=
  if hfields : requestId = [] ∨ rawText = [] ∨ targetSystem = [] ∨ operation = [] then
    .error "preflight input fields must be non-empty"
  else if hids : ¬ (entities.map (·.mentionId)).Nodup then .error "mention ids must be unique"
  else if hspans : ∃ entity ∈ entities, ¬ entity.Matches rawText then
    .error "entity span must match the original input"
  else if hqueries : ¬ (relationshipQueries.map (·.queryId)).Nodup then
    .error "relationship query ids must be unique"
  else if hsubjects : ∃ query ∈ relationshipQueries, query.subjectMentionId ∉ entities.map (·.mentionId) then
    .error "relationship query references an unknown mention"
  else .ok ⟨requestId, rawText, targetSystem, operation, entities, relationshipQueries, by tauto, by tauto, by tauto,
    by tauto, not_not.mp hids, by simpa using hspans, not_not.mp hqueries, by simpa using hsubjects⟩

theorem PreflightInput.make?_isOk {requestId rawText targetSystem operation : Str} {entities : List DetectedEntity}
    {relationshipQueries : List RelationshipQuery} :
    (∃ input, make? requestId rawText targetSystem operation entities relationshipQueries = .ok input) ↔
      (requestId ≠ [] ∧ rawText ≠ [] ∧ targetSystem ≠ [] ∧ operation ≠ []) ∧
      (entities.map (·.mentionId)).Nodup ∧ (∀ entity ∈ entities, entity.Matches rawText) ∧
      (relationshipQueries.map (·.queryId)).Nodup ∧
      ∀ query ∈ relationshipQueries, query.subjectMentionId ∈ entities.map (·.mentionId) := by
  unfold make?
  split
  · next h => simp; tauto
  split
  · next h => simp [h]
  split
  · next h =>
      obtain ⟨entity, hmem, hmatch⟩ := h
      simp only [reduceCtorEq, exists_false, false_iff]
      exact fun hall => hmatch (hall.2.2.1 entity hmem)
  split
  · next h => simp [h]
  split
  · next h =>
      obtain ⟨query, hmem, hsubject⟩ := h
      simp only [reduceCtorEq, exists_false, false_iff]
      exact fun hall => hsubject (hall.2.2.2.2 query hmem)
  · next hfields hids hspans hqueries hsubjects =>
      refine ⟨fun _ => ⟨by simpa [not_or] using hfields, not_not.mp hids, by simpa using hspans, not_not.mp hqueries, by simpa using hsubjects⟩,
        fun _ => ⟨_, rfl⟩⟩

end Autophagy.EntityPreflight.Contract
