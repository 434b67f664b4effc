/-
# Autophagy.Sensitivity.SameVerdict — the verdicts with and without YAML.

Where the readers find the rules as they are written, a gate loads the same rules as with YAML, and its verdict on every
text is the same. YAML makes null of a key with nothing under it: a file without tags, or a tag without items, is then
refused by a loader that takes what the other reader finds.
-/
import Autophagy.Python.Demand
import Autophagy.Python.Sample
import Autophagy.Sensitivity.Fallback

namespace Autophagy.Sensitivity

open Autophagy.Python

/-! ## §1 — The rules that are loaded -/

section Loaded

variable {F : Type} [PyFloat F] (host : Host F) {rules : List TagRule}

/-- A rule is loaded as it is, unless a pattern is none. -/
def loadOne (rule : TagRule) : Except Fault TagRule := do
  compileAll host rule.patterns
  return rule

theorem mapM_congr {α β γ : Type} {f : α → β} {g : β → Except Fault γ} {h : α → Except Fault γ} {items : List α}
    (heach : ∀ item ∈ items, g (f item) = h item) : (items.map f).mapM g = items.mapM h := by
  induction items with
  | nil => rfl
  | cons item items ih =>
    rw [List.map_cons, List.mapM_cons, List.mapM_cons, heach item List.mem_cons_self,
      ih fun i hi => heach i (List.mem_cons_of_mem _ hi)]

/-- The lists of a tag in a document. -/
def listsJson (lists : List (Str × List Str)) : List (Str × Json F) :=
  lists.map fun list => (list.1, .arr (list.2.map Json.str))

omit [PyFloat F] in
theorem map_strOf (items : List Str) : (items.map Json.str).map (strOf host) = items := by
  rw [List.map_map]
  exact List.map_id items

omit [PyFloat F] in
theorem lookup_listsJson (lists : List (Str × List Str)) (name : Str) : Json.lookup name (listsJson (F := F) lists) =
      (lists.find? fun list => list.1 = name).map fun list => .arr (list.2.map Json.str) := by
  induction lists with
  | nil => rfl
  | cons list lists ih =>
    rw [listsJson, List.map_cons, ← listsJson, Json.lookup, ih]
    by_cases hname : list.1 = name
    · rw [if_pos hname, List.find?_cons_of_pos (by simpa using hname)]
      rfl
    · rw [if_neg hname, List.find?_cons_of_neg (by simpa using hname)]

/-- The items of a list by its name. -/
def itemsOf (lists : List (Str × List Str)) (name : Str) : List Str :=
  ((lists.find? fun list => list.1 = name).map Prod.snd).getD []

theorem meeting_listOf (lists : List (Str × List Str)) (name : Str) :
    MeetingGate.listOf host (.obj (listsJson lists)) name = .ok (itemsOf lists name) := by
  have hspec : (if (Json.obj (listsJson lists) : Json F).truthy then Json.obj (listsJson lists) else .obj []) =
      (Json.obj (listsJson lists) : Json F) := by
    cases lists with
    | nil => rfl
    | cons list lists => rfl
  unfold MeetingGate.listOf
  rw [hspec]
  dsimp only
  rw [lookup_listsJson, itemsOf]
  cases lists.find? fun list => list.1 = name with
  | none => rfl
  | some list =>
    obtain ⟨key, items⟩ := list
    cases items with
    | nil => rfl
    | cons item items =>
      have htruthy : (Json.arr ((item :: items).map Json.str) : Json F).truthy = true := rfl
      rw [Option.map_some]
      dsimp only
      rw [if_pos htruthy, iterate, Except.map, map_strOf]
      rfl

omit [PyFloat F] in
theorem doctype_listOf (lists : List (Str × List Str)) (name : Str) :
    DoctypeGate.listOf host (listsJson lists) name = .ok (itemsOf lists name) := by
  unfold DoctypeGate.listOf
  rw [lookup_listsJson, itemsOf]
  cases lists.find? fun list => list.1 = name with
  | none => rfl
  | some list =>
    show Except.map _ (iterate _) = _
    rw [iterate, Except.map, map_strOf]
    rfl

/-- The lists that stand in the file. -/
def writtenLists (rule : TagRule) : List (Str × List Str) :=
  [(Str.of "keywords", rule.keywords), (Str.of "patterns", rule.patterns)].filter fun list => list.2 ≠ []

theorem itemsOf_written (rule : TagRule) :
    itemsOf (writtenLists rule) "keywords" = rule.keywords ∧ itemsOf (writtenLists rule) "patterns" = rule.patterns := by
  unfold writtenLists
  by_cases hkeywords : rule.keywords = [] <;> by_cases hpatterns : rule.patterns = [] <;>
    simp only [hkeywords, hpatterns, List.filter_cons, List.filter_nil, ne_eq, not_true_eq_false, not_false_eq_true,
      decide_false, decide_true, if_true, if_false, Bool.false_eq_true] <;> exact ⟨rfl, rfl⟩

omit [PyFloat F] in
theorem specJson_eq (rule : TagRule) : specJson (F := F) rule =
    if rule.keywords = [] ∧ rule.patterns = [] then .null else .obj (listsJson (writtenLists rule)) := rfl

/-! ## §2 — The loaders -/

omit [PyFloat F] in
theorem tagsJson_written {tags : Dict Str Spec} (h : tags.members = rules.map writtenTag) :
    (tagsJson tags : Json F) = .obj (rules.map fun rule =>
      (rule.tag, .obj (listsJson [(Str.of "keywords", rule.keywords), (Str.of "patterns", rule.patterns)]))) := by
  rw [tagsJson, h, List.map_map]
  rfl

theorem meeting_ruleOf {rule : TagRule} {lists : List (Str × List Str)}
    (hlists : itemsOf lists "keywords" = rule.keywords ∧ itemsOf lists "patterns" = rule.patterns) :
    MeetingGate.ruleOf host (rule.tag, .obj (listsJson lists)) = loadOne host rule := by
  rw [MeetingGate.ruleOf, meeting_listOf, meeting_listOf, hlists.1, hlists.2]
  rfl

omit [PyFloat F] in
theorem doctype_ruleOf {rule : TagRule} {lists : List (Str × List Str)}
    (hlists : itemsOf lists "keywords" = rule.keywords ∧ itemsOf lists "patterns" = rule.patterns) :
    DoctypeGate.ruleOf host (rule.tag, .obj (listsJson lists)) = loadOne host rule := by
  rw [DoctypeGate.ruleOf]
  dsimp only
  rw [doctype_listOf, doctype_listOf, hlists.1, hlists.2]
  rfl

theorem meeting_fallback {raw : Str} (h : (MeetingGate.readTags raw).members = rules.map writtenTag) :
    MeetingGate.loadRules host none raw = rules.mapM (loadOne host) := by
  have hdata : (MeetingGate.parseRulesFallback raw : Json F).get? "tags" = some (tagsJson (MeetingGate.readTags raw)) :=
    rfl
  rw [MeetingGate.loadRules]
  dsimp only [bind, Except.bind]
  rw [hdata, tagsJson_written h]
  exact mapM_congr fun rule _ => meeting_ruleOf host ⟨rfl, rfl⟩

/-- Meetings, with YAML. -/
theorem meeting_yaml {raw : Str} {safeLoad : SafeLoad F} (h : safeLoad raw = .ok (document rules)) (hne : rules ≠ []) :
    MeetingGate.loadRules host (some safeLoad) raw = rules.mapM (loadOne host) := by
  have hdata : (document rules : Json F).get? "tags" = some (.obj (rules.map fun rule => (rule.tag, specJson rule))) := by
    show some (if rules = [] then _ else _) = _
    rw [if_neg hne]
  rw [MeetingGate.loadRules]
  dsimp only
  rw [h]
  dsimp only [bind, Except.bind]
  rw [hdata]
  refine mapM_congr fun rule _ => ?_
  rw [specJson_eq]
  split
  · rename_i hnil
    rw [MeetingGate.ruleOf, loadOne, hnil.2]
    show Except.bind _ _ = _
    cases hcompile : compileAll host ([] : List Str) with
    | error fault => cases hcompile
    | ok value =>
      obtain ⟨tag, keywords, patterns⟩ := rule
      obtain ⟨rfl, rfl⟩ := hnil
      rfl
  · exact meeting_ruleOf host (itemsOf_written rule)

omit [PyFloat F] in
theorem doctype_fallback {raw : Str} (h : (DoctypeGate.readTags raw).members = rules.map writtenTag) :
    DoctypeGate.loadRules host none raw = rules.mapM (loadOne host) := by
  have hlookup : Json.lookup "tags" [(Str.of "tags", (tagsJson (DoctypeGate.readTags raw) : Json F))] =
      some (tagsJson (DoctypeGate.readTags raw)) := rfl
  rw [DoctypeGate.loadRules]
  dsimp only [DoctypeGate.fallbackRules, bind, Except.bind]
  rw [hlookup, tagsJson_written h]
  exact mapM_congr fun rule _ => doctype_ruleOf host ⟨rfl, rfl⟩

omit [PyFloat F] in
/-- Document types, with YAML. -/
theorem doctype_yaml {raw : Str} {safeLoad : SafeLoad F} (h : safeLoad raw = .ok (document rules)) (hne : rules ≠ []) :
    DoctypeGate.loadRules host (some safeLoad) raw = (rules.map fun rule => (rule.tag, specJson rule)).mapM
      (DoctypeGate.ruleOf host) := by
  have hlookup : Json.lookup "tags" [(Str.of "version", (.int 1 : Json F)),
      (Str.of "tags", if rules = [] then .null else .obj (rules.map fun rule => (rule.tag, specJson rule)))] =
      some (.obj (rules.map fun rule => (rule.tag, specJson rule))) := by
    show some (if rules = [] then _ else _) = _
    rw [if_neg hne]
  rw [DoctypeGate.loadRules]
  dsimp only
  rw [h]
  dsimp only [document, bind, Except.bind]
  rw [hlookup]

omit [PyFloat F] in
theorem doctype_items (hitems : ∀ rule ∈ rules, rule.keywords ≠ [] ∨ rule.patterns ≠ []) :
    (rules.map fun rule => (rule.tag, specJson (F := F) rule)).mapM (DoctypeGate.ruleOf host) =
      rules.mapM (loadOne host) := by
  refine mapM_congr fun rule hrule => ?_
  have hsome : ¬ (rule.keywords = [] ∧ rule.patterns = []) := fun hnil => by
    rcases hitems rule hrule with hne | hne
    · exact hne hnil.1
    · exact hne hnil.2
  rw [specJson_eq, if_neg hsome]
  exact doctype_ruleOf host (itemsOf_written rule)

omit [PyFloat F] in
theorem prompt_loadRules {raw : Str} (h : (PromptGate.parseRulesFallback raw).members = rules.map writtenTag) :
    PromptGate.loadRules host raw = rules.mapM (loadOne host) := by
  rw [PromptGate.loadRules, h]
  exact mapM_congr fun rule _ => rfl

end Loaded

/-! ## §3 — The same verdicts -/

/-- On a text every gate comes to the verdict that it comes to with YAML. -/
structure SameVerdict {F : Type} [PyFloat F] (host : Host F) (safeLoad : SafeLoad F) (raw text : Str) : Prop where
  meeting : (MeetingGate.loadRules host none raw).map (MeetingGate.evaluate host text) =
    (MeetingGate.loadRules host (some safeLoad) raw).map (MeetingGate.evaluate host text)
  doctype : (DoctypeGate.loadRules host none raw).map (DoctypeGate.evaluate host text) =
    (DoctypeGate.loadRules host (some safeLoad) raw).map (DoctypeGate.evaluate host text)
  prompt : (PromptGate.loadRules host raw).map (PromptGate.evaluate host text) =
    (DoctypeGate.loadRules host (some safeLoad) raw).map (DoctypeGate.evaluate host text)

/-- The rules survive the readers without YAML: each finds them exactly, and no verdict depends on the reader. -/
structure Survives (rules : List TagRule) : Prop where
  meeting : (MeetingGate.readTags (writeRules rules)).members = rules.map writtenTag
  prompt : (PromptGate.parseRulesFallback (writeRules rules)).members = rules.map writtenTag
  doctype : (DoctypeGate.readTags (writeRules rules)).members = rules.map writtenTag
  verdict : ∀ (F : Type) [PyFloat F] (host : Host F) (safeLoad : SafeLoad F),
    safeLoad (writeRules rules) = .ok (document rules) → ∀ text, SameVerdict host safeLoad (writeRules rules) text

/-- What survives. -/
structure Plain (rules : List TagRule) : Prop where
  readable : Readable rules
  some : rules ≠ []
  items : ∀ rule ∈ rules, rule.keywords ≠ [] ∨ rule.patterns ≠ []

/-- Regular expressions of which every text is one that matches nothing. -/
def sampleHost : Host SampleFloat where
  lower s := s
  compiles _ := true
  search _ _ := false
  other _ := []
  path := "sensitivity-rules.yaml"

theorem loads_all (rules : List TagRule) : rules.mapM (loadOne sampleHost) = .ok rules := by
  have hone : ∀ rule, loadOne sampleHost rule = .ok rule := by
    intro rule
    have hall : rule.patterns.all sampleHost.compiles = true := List.all_eq_true.mpr fun _ _ => rfl
    rw [loadOne, compileAll, if_pos hall]
    rfl
  refine mapM_ok.mpr ?_
  induction rules with
  | nil => exact List.Forall₂.nil
  | cons rule rules ih => exact List.Forall₂.cons (hone rule) ih

/-- **The rules survive where they are plain**, and nowhere else. -/
theorem survives_iff_plain (rules : List TagRule) : Survives rules ↔ Plain rules := by
  constructor
  · intro h
    have hverdict := h.verdict SampleFloat sampleHost (fun _ => .ok (document rules)) rfl []
    have hsome : rules ≠ [] := by
      rintro rfl
      have hbad := hverdict.meeting
      rw [meeting_fallback sampleHost h.meeting] at hbad
      cases hbad
    refine ⟨(found_iff_readable uncomments_beforeComment).mp h.meeting, hsome, fun rule hrule => ?_⟩
    by_contra hnone
    obtain ⟨hkeywords, hpatterns⟩ := not_or.mp hnone
    have hbad := hverdict.doctype
    rw [doctype_fallback sampleHost h.doctype, doctype_yaml sampleHost rfl hsome, loads_all] at hbad
    cases hread : (rules.map fun rule => (rule.tag, specJson rule)).mapM (DoctypeGate.ruleOf sampleHost) with
    | error fault =>
      rw [hread] at hbad
      cases hbad
    | ok found =>
      have hnull : (rule.tag, specJson rule) ∈ rules.map fun rule => (rule.tag, specJson (F := SampleFloat) rule) :=
        List.mem_map.mpr ⟨rule, hrule, rfl⟩
      obtain ⟨value, hvalue⟩ := exists_of_mapM_ok hread hnull
      rw [specJson_eq, if_pos ⟨not_not.mp hkeywords, not_not.mp hpatterns⟩] at hvalue
      cases hvalue
  · rintro ⟨hreadable, hsome, hitems⟩
    have hmeeting := (@found_iff_readable _ none _ uncomments_beforeComment).mpr hreadable
    have hdoctype := (@found_iff_readable _ (some []) _ uncomments_beforeHash).mpr hreadable
    refine ⟨hmeeting, hmeeting, hdoctype, fun F _ host safeLoad hyaml text => ⟨?_, ?_, ?_⟩⟩
    · rw [meeting_fallback host hmeeting, meeting_yaml host hyaml hsome]
    · rw [doctype_fallback host hdoctype, doctype_yaml host hyaml hsome, doctype_items host hitems]
    · rw [prompt_loadRules host hmeeting, doctype_yaml host hyaml hsome, doctype_items host hitems]
      rfl

/-- One keyword with a `#` in it. -/
def hashedRules : List TagRule := [⟨"patent-sensitive", ["C# 청구"], []⟩]

/-- The keyword is cut at its `#`: the text that it names is sensitive with YAML, and is not without. -/
theorem hashed_keyword_is_lost :
    ((MeetingGate.readTags (writeRules hashedRules)).get? "patent-sensitive").bind (fun spec => spec.get? "keywords") =
        some [Str.of "\"C"] ∧
      (∃ verdict, (MeetingGate.loadRules sampleHost none (writeRules hashedRules)).map
        (MeetingGate.evaluate sampleHost "C# 청구항") = .ok verdict ∧ verdict.sensitive = false) ∧
      (∃ verdict, (MeetingGate.loadRules sampleHost (some fun _ => .ok (document hashedRules))
        (writeRules hashedRules)).map (MeetingGate.evaluate sampleHost "C# 청구항") = .ok verdict ∧
        verdict.sensitive = true) ∧
      ¬ Survives hashedRules := by
  have hread : (MeetingGate.readTags (writeRules hashedRules)).members =
      [(Str.of "patent-sensitive", specOf ["\"C"] [])] := by decide +kernel
  have hcut : MeetingGate.loadRules sampleHost none (writeRules hashedRules) =
      .ok [⟨"patent-sensitive", ["\"C"], []⟩] :=
    (@meeting_fallback _ _ sampleHost [⟨"patent-sensitive", ["\"C"], []⟩] _ hread).trans (loads_all _)
  have hwhole : MeetingGate.loadRules sampleHost (some fun _ => .ok (document hashedRules)) (writeRules hashedRules) =
      .ok hashedRules := (meeting_yaml sampleHost rfl (by decide)).trans (loads_all _)
  have hget := @Dict.get?_last _ _ _ _ [] _ _ hread
  refine ⟨by rw [hget]; rfl, ⟨_, by rw [hcut]; rfl, by decide⟩, ⟨_, by rw [hwhole]; rfl, by decide⟩, fun h => ?_⟩
  · have hsame := h.meeting
    rw [hread] at hsame
    exact absurd hsame (by decide +kernel)

end Autophagy.Sensitivity
