/-
# Autophagy.Sensitivity.Fallback — which rules the readers without YAML find.

The readers cut a line at its first `#`, wherever it stands, and take the backslashes of a quoted item back but not the
quotes. All other rules are found as they are written (`survives_iff`).
-/
import Autophagy.Python.DictOrder
import Autophagy.Sensitivity.Rules

namespace Autophagy.Sensitivity

open Autophagy.Python

/-! ## §1 — Lines -/

/-- What a reader makes of a line before it looks at it. -/
structure Uncomments (uncomment : Str → Str) : Prop where
  keeps : ∀ line : Str, 0x23 ∉ line → (∀ c ∈ line.getLast?, isSpace c = false) → uncomment line = line
  cuts : ∀ line : Str, ∀ c ∈ uncomment line, c ∈ line ∧ c ≠ 0x23

theorem uncomments_beforeHash : Uncomments beforeHash where
  keeps line hhash hlast := by
    have htake : line.takeWhile (· ≠ 0x23) = line :=
      List.takeWhile_eq_self_iff.mpr fun c hc => by simpa using fun heq : c = 0x23 => hhash (heq ▸ hc)
    rw [beforeHash, htake, List.rdropWhile_eq_self_iff]
    intro hne
    simpa using hlast _ (List.getLast?_eq_some_getLast hne)
  cuts line c hc := by
    have hmem : c ∈ line.takeWhile (· ≠ 0x23) := (List.rdropWhile_prefix isSpace _).subset hc
    exact ⟨(List.takeWhile_prefix _).subset hmem, by simpa using List.mem_takeWhile_imp hmem⟩

theorem uncomments_beforeComment : Uncomments beforeComment where
  keeps line hhash hlast := by
    have hcomment : ¬ (lstrip line).head? = some 0x23 := fun h =>
      hhash ((List.dropWhile_suffix isSpace).subset (List.mem_of_mem_head? h))
    rw [beforeComment, if_neg hcomment, uncomments_beforeHash.keeps line hhash hlast]
  cuts line c hc := by
    unfold beforeComment at hc
    split at hc
    · cases hc
    · exact uncomments_beforeHash.cuts line c hc

section Reading

variable {uncomment : Str → Str} {reading : Reading}

/-- A line of blanks and a text that neither begins nor ends with white space. -/
theorem readLine_indented (hu : Uncomments uncomment) {core : Str} (hne : core ≠ []) (hhash : 0x23 ∉ core)
    (hhead : ∀ c ∈ core.head?, isSpace c = false) (hlast : ∀ c ∈ core.getLast?, isSpace c = false) (indent : Nat) :
    readLine uncomment reading (List.replicate indent 0x20 ++ core) =
      if indent = 2 ∧ core.getLast? = some 0x3a then reading.openTag core.dropLast
      else if indent = 4 ∧ core.getLast? = some 0x3a then
        match reading.currentTag with
        | some (c :: tag) => reading.openList (c :: tag) core.dropLast
        | _ => reading.readItem core
      else reading.readItem core := by
  have hblank : ∀ c ∈ List.replicate indent 0x20, isSpace c = true := by
    intro c hc
    rw [List.eq_of_mem_replicate hc]
    rfl
  have hline : uncomment (List.replicate indent 0x20 ++ core) = List.replicate indent 0x20 ++ core := by
    refine hu.keeps _ (fun hmem => ?_) fun c hc => ?_
    · rcases List.mem_append.mp hmem with hmem | hmem
      · have hbad := List.eq_of_mem_replicate hmem
        cases hbad
      · exact hhash hmem
    · rw [List.getLast?_append_of_ne_nil _ hne] at hc
      exact hlast c hc
  have hlstrip : lstrip (List.replicate indent 0x20 ++ core) = core := by
    rw [lstrip, List.dropWhile_append_of_pos hblank]
    obtain ⟨c, rest, rfl⟩ := List.exists_cons_of_ne_nil hne
    exact List.dropWhile_cons_of_neg (by simp [hhead c rfl])
  have hstrip : strip (List.replicate indent 0x20 ++ core) = core := by
    have hsurround := @stripBy_surround isSpace _ core [] hblank (by simp) hhead hlast
    rwa [List.append_nil] at hsurround
  have hindent : (List.replicate indent 0x20 ++ core).length - core.length = indent := by simp
  unfold readLine
  dsimp only
  rw [hline, hstrip, hlstrip, hindent]
  exact if_neg hne

theorem readItem_other {content : Str} (h : ¬ Str.of "- " <+: content) : reading.readItem content = reading := by
  unfold Reading.readItem
  split
  · exact if_neg h
  · rfl

theorem readLine_head (hu : Uncomments uncomment) :
    readLine uncomment (readLine uncomment reading "version: 1") "tags:" = reading := by
  have hversion : ∀ reading, readLine uncomment reading "version: 1" = reading := fun reading =>
    (@readLine_indented _ reading hu (Str.of "version: 1") (by decide) (by decide) (by decide) (by decide) 0).trans
      (readItem_other (by decide))
  have htags : ∀ reading, readLine uncomment reading "tags:" = reading := fun reading =>
    (@readLine_indented _ reading hu (Str.of "tags:") (by decide) (by decide) (by decide) (by decide) 0).trans
      (readItem_other (by decide))
  rw [hversion, htags]

theorem readLine_tag (hu : Uncomments uncomment) {tag : Str} (hhash : 0x23 ∉ tag)
    (hhead : ∀ c ∈ tag.head?, isSpace c = false) :
    readLine uncomment reading (Str.of "  " ++ tag ++ [0x3a]) = reading.openTag tag := by
  have hfirst : ∀ c ∈ (tag ++ [0x3a]).head?, isSpace c = false := by
    cases tag with
    | nil => decide
    | cons c tag => exact hhead
  have hlast : ∀ c ∈ (tag ++ [0x3a]).getLast?, isSpace c = false := by
    rw [List.getLast?_concat]
    decide
  have hread := @readLine_indented _ reading hu (tag ++ [0x3a]) (by simp) (by simp [hhash]) hfirst hlast 2
  rw [if_pos ⟨rfl, List.getLast?_concat⟩, List.dropLast_concat] at hread
  rw [List.append_assoc]
  exact hread

/-- A list name, under a tag that is not empty. -/
theorem readLine_list (hu : Uncomments uncomment) {tag key : Str} (hkey : key ∈ [Str.of "keywords", Str.of "patterns"])
    (htag : reading.currentTag = some tag) (hne : tag ≠ []) :
    readLine uncomment reading (Str.of "    " ++ key ++ [0x3a]) = reading.openList tag key := by
  have hwords : ∀ key ∈ [Str.of "keywords", Str.of "patterns"], key ++ [0x3a] ≠ [] ∧ 0x23 ∉ key ++ [0x3a] ∧
      (∀ c ∈ (key ++ [0x3a]).head?, isSpace c = false) ∧ ∀ c ∈ (key ++ [0x3a]).getLast?, isSpace c = false := by
    decide
  obtain ⟨hcore, hhash, hhead, hlast⟩ := hwords key hkey
  have hread := @readLine_indented _ reading hu (key ++ [0x3a]) hcore hhash hhead hlast 4
  rw [if_neg (by simp), if_pos ⟨rfl, List.getLast?_concat⟩, List.dropLast_concat, htag] at hread
  obtain ⟨c, rest, rfl⟩ := List.exists_cons_of_ne_nil hne
  rw [List.append_assoc]
  exact hread

/-- What the readers make of an item. -/
def readBack (s : Str) : Str := s.flatMap fun c => if c = 0x22 then [0x5c, 0x22] else [c]

theorem unescape_escapeScalar (s : Str) : unescape (escapeScalar s) = readBack s := by
  induction s with
  | nil => rfl
  | cons c s ih =>
    rw [escapeScalar, List.flatMap_cons, ← escapeScalar, readBack, List.flatMap_cons, ← readBack, ← ih]
    by_cases hslash : c = 0x5c
    · subst hslash
      rfl
    · by_cases hquote : c = 0x22
      · subst hquote
        rfl
      · rw [if_neg (by simp [hslash, hquote]), if_neg hquote, List.singleton_append, List.singleton_append, unescape]
        intro rest hc
        exact absurd hc hslash

theorem length_readBack (s : Str) : (readBack s).length = s.length + s.count 0x22 := by
  induction s with
  | nil => rfl
  | cons c s ih =>
    rw [readBack, List.flatMap_cons, ← readBack, List.length_append, ih, List.length_cons, List.count_cons]
    by_cases hquote : c = 0x22
    · rw [if_pos hquote, if_pos (by simp [hquote])]
      simp only [List.length_cons, List.length_nil]
      omega
    · rw [if_neg hquote, if_neg (by simpa using hquote)]
      simp only [List.length_cons, List.length_nil]
      omega

theorem readBack_eq_self {s : Str} : readBack s = s ↔ 0x22 ∉ s := by
  constructor
  · intro h
    have hlength := length_readBack s
    rw [h] at hlength
    exact List.count_eq_zero.mp (by omega)
  · intro h
    induction s with
    | nil => rfl
    | cons c s ih =>
      have hc : c ≠ 0x22 := fun heq => h (heq ▸ List.mem_cons_self)
      rw [readBack, List.flatMap_cons, ← readBack, ih fun hmem => h (List.mem_cons_of_mem _ hmem), if_neg hc]
      rfl

theorem mem_escapeScalar {s : Str} {c : Nat} (h : c ∈ escapeScalar s) : c = 0x5c ∨ c ∈ s := by
  obtain ⟨d, hd, hc⟩ := List.mem_flatMap.mp h
  split at hc
  · rcases List.mem_cons.mp hc with rfl | hc
    · exact .inl rfl
    · exact .inr (List.mem_singleton.mp hc ▸ hd)
  · exact .inr (List.mem_singleton.mp hc ▸ hd)

theorem readLine_item (hu : Uncomments uncomment) {tag key s : Str} (hhash : 0x23 ∉ s)
    (hlist : reading.currentList = some (tag, key)) :
    readLine uncomment reading (itemLine s) = reading.append tag key (readBack s) := by
  have hquoted : ∀ c ∈ (0x22 :: (escapeScalar s ++ [0x22]) : Str).getLast?, c = 0x22 := by
    rw [← List.cons_append, List.getLast?_concat]
    simp
  have hlast : (Str.of "- " ++ 0x22 :: (escapeScalar s ++ [0x22])).getLast? = some 0x22 := by
    rw [← List.cons_append, ← List.append_assoc, List.getLast?_concat]
  have hnot : 0x23 ∉ Str.of "- " ++ 0x22 :: (escapeScalar s ++ [0x22]) := by
    intro hmem
    simp only [List.mem_append, List.mem_cons, List.not_mem_nil, or_false] at hmem
    rcases hmem with hmem | hmem | hmem | hmem
    · exact absurd hmem (by decide)
    · cases hmem
    · rcases mem_escapeScalar hmem with hbad | hbad
      · cases hbad
      · exact hhash hbad
    · cases hmem
  have hvalue : itemValue (Str.of "- " ++ 0x22 :: (escapeScalar s ++ [0x22])) = readBack s := by
    have hdrop : (Str.of "- " ++ 0x22 :: (escapeScalar s ++ [0x22])).drop 2 =
        0x22 :: (escapeScalar s ++ [0x22]) := rfl
    have hstrip : strip (0x22 :: (escapeScalar s ++ [0x22])) = 0x22 :: (escapeScalar s ++ [0x22]) := by
      refine stripBy_eq_self (fun c hc => ?_) fun c hc => ?_
      · obtain rfl : 0x22 = c := by simpa using hc
        rfl
      · rw [hquoted c hc]
        rfl
    have hends : (0x22 :: (escapeScalar s ++ [0x22]) : Str).head? = some 0x22 ∧
        (0x22 :: (escapeScalar s ++ [0x22]) : Str).getLast? = some 0x22 := by
      refine ⟨rfl, ?_⟩
      rw [← List.cons_append, List.getLast?_concat]
    unfold itemValue
    dsimp only
    rw [hdrop, hstrip, if_pos hends, List.drop_succ_cons, List.drop_zero, List.dropLast_concat, unescape_escapeScalar]
  have hread := @readLine_indented _ reading hu (Str.of "- " ++ 0x22 :: (escapeScalar s ++ [0x22])) (by simp) hnot
    (by intro c hc; obtain rfl : 0x2d = c := by simpa [Str.of] using hc
        rfl)
    (by intro c hc; rw [hlast] at hc; obtain rfl : 0x22 = c := by simpa using hc
        rfl) 6
  rw [if_neg (by simp), if_neg (by simp), Reading.readItem, hlist] at hread
  dsimp only at hread
  rw [if_pos (List.prefix_append _ _), hvalue] at hread
  rw [← hread]
  rfl

/-! ## §2 — Lists, tags and files -/

/-- Items are appended to the open list of the last tag. -/
theorem foldl_items (hu : Uncomments uncomment) {before : List (Str × Spec)} {tag key : Str} {spec : Spec}
    {old items : List Str} (hhash : ∀ s ∈ items, 0x23 ∉ s) (hlist : reading.currentList = some (tag, key))
    (hmembers : reading.tags.members = before ++ [(tag, spec)]) (hget : spec.get? key = some old) :
    ((items.map itemLine).foldl (readLine uncomment) reading).currentTag = reading.currentTag ∧
      ((items.map itemLine).foldl (readLine uncomment) reading).tags.members =
        before ++ [(tag, spec.set key (old ++ items.map readBack))] := by
  induction items generalizing reading spec old with
  | nil => exact ⟨rfl, by rw [List.map_nil, List.map_nil, List.append_nil, Dict.set_of_get? hget]; exact hmembers⟩
  | cons s items ih =>
    have happend : reading.append tag key (readBack s) =
        { reading with tags := reading.tags.set tag (spec.set key (old ++ [readBack s])) } := by
      rw [Reading.append, Dict.get?_last hmembers]
      dsimp only
      rw [hget]
      rfl
    rw [List.map_cons, List.foldl_cons, readLine_item hu (hhash s List.mem_cons_self) hlist, happend]
    obtain ⟨htag, hfinal⟩ := @ih { reading with tags := reading.tags.set tag (spec.set key (old ++ [readBack s])) }
      (spec.set key (old ++ [readBack s])) (old ++ [readBack s]) (fun s hs => hhash s (List.mem_cons_of_mem _ hs)) hlist
      (Dict.members_set_last hmembers _) (Dict.get?_set_self _ _ _)
    refine ⟨htag, ?_⟩
    rw [hfinal, Dict.set_set, List.append_assoc]
    rfl

/-- A list of the last tag. -/
theorem foldl_list (hu : Uncomments uncomment) {before : List (Str × Spec)} {tag key : Str} {spec : Spec}
    {old items : List Str} (hkey : key ∈ [Str.of "keywords", Str.of "patterns"]) (hhash : ∀ s ∈ items, 0x23 ∉ s)
    (hne : tag = [] → items = []) (htag : reading.currentTag = some tag)
    (hmembers : reading.tags.members = before ++ [(tag, spec)]) (hget : spec.get? key = some old) :
    ((listLines key items).foldl (readLine uncomment) reading).currentTag = some tag ∧
      ((listLines key items).foldl (readLine uncomment) reading).tags.members =
        before ++ [(tag, spec.set key (old ++ items.map readBack))] := by
  unfold listLines
  split
  · rename_i hnil
    subst hnil
    exact ⟨htag, by rw [List.map_nil, List.append_nil, Dict.set_of_get? hget]; exact hmembers⟩
  · rename_i hitems
    have hopen : reading.openList tag key =
        { reading with tags := reading.tags.set tag spec, currentList := some (tag, key) } := by
      rw [Reading.openList, Dict.get?_last hmembers]
      dsimp only
      rw [hget]
      rfl
    rw [List.foldl_cons, readLine_list hu hkey htag fun hnil => hitems (hne hnil), hopen]
    obtain ⟨hsame, hfinal⟩ := @foldl_items _
      { reading with tags := reading.tags.set tag spec, currentList := some (tag, key) } hu before tag key spec old items
      hhash rfl (Dict.members_set_last hmembers _) hget
    exact ⟨hsame.trans htag, hfinal⟩

/-- What a rule must be for its lines to be lines of the file. -/
structure Legible (rule : TagRule) : Prop where
  hash : 0x23 ∉ rule.tag ∧ ∀ s ∈ rule.keywords ++ rule.patterns, 0x23 ∉ s
  head : ∀ c ∈ rule.tag.head?, isSpace c = false
  items : rule.tag = [] → rule.keywords = [] ∧ rule.patterns = []

/-- A tag as it is found. -/
def foundTag (rule : TagRule) : Str × Spec :=
  (rule.tag, specOf (rule.keywords.map readBack) (rule.patterns.map readBack))

theorem foldl_rule (hu : Uncomments uncomment) {rule : TagRule} (h : Legible rule)
    (hnew : rule.tag ∉ reading.tags.members.map Prod.fst) :
    ((ruleLines rule).foldl (readLine uncomment) reading).tags.members = reading.tags.members ++ [foundTag rule] := by
  have hopen : (reading.openTag rule.tag).tags.members = reading.tags.members ++ [(rule.tag, specOf [] [])] :=
    Dict.members_set_new hnew _
  obtain ⟨htag, hkeywords⟩ := @foldl_list _ (reading.openTag rule.tag) hu reading.tags.members rule.tag "keywords"
    (specOf [] []) [] rule.keywords (by decide) (fun s hs => h.hash.2 s (List.mem_append_left _ hs))
    (fun hnil => (h.items hnil).1) rfl hopen rfl
  obtain ⟨-, hpatterns⟩ := @foldl_list _ _ hu reading.tags.members rule.tag "patterns"
    (specOf (rule.keywords.map readBack) []) [] rule.patterns (by decide)
    (fun s hs => h.hash.2 s (List.mem_append_right _ hs)) (fun hnil => (h.items hnil).2) htag hkeywords rfl
  rw [ruleLines, List.foldl_cons, readLine_tag hu h.hash.1 h.head, List.foldl_append, hpatterns]
  rfl

/-- **The tags are found in order**, their items with the backslashes that quotes keep. -/
theorem foldl_rules (hu : Uncomments uncomment) {rules : List TagRule} (h : ∀ rule ∈ rules, Legible rule)
    (hnodup : (rules.map TagRule.tag).Nodup)
    (hnew : ∀ rule ∈ rules, rule.tag ∉ reading.tags.members.map Prod.fst) :
    ((rules.flatMap ruleLines).foldl (readLine uncomment) reading).tags.members =
      reading.tags.members ++ rules.map foundTag := by
  induction rules generalizing reading with
  | nil => simp
  | cons rule rules ih =>
    obtain ⟨hfirst, hrest⟩ := List.nodup_cons.mp hnodup
    have hrule := foldl_rule hu (h rule List.mem_cons_self) (hnew rule List.mem_cons_self)
    rw [List.flatMap_cons, List.foldl_append, ih (fun r hr => h r (List.mem_cons_of_mem _ hr)) hrest, hrule,
      List.append_assoc]
    · rfl
    · intro r hr hmem
      rw [hrule, List.map_append, List.mem_append] at hmem
      rcases hmem with hmem | hmem
      · exact hnew r (List.mem_cons_of_mem _ hr) hmem
      · have heq : r.tag = rule.tag := by simpa [foundTag] using hmem
        exact hfirst (heq ▸ List.mem_map_of_mem hr)

end Reading

/-! ## §3 — What any file can give -/

/-- A text that a reader can find. -/
def Findable (s : Str) : Prop := ∀ c ∈ s, isBreak c = false ∧ c ≠ 0x23

/-- Whatever was read: the tags and the items are of lines before their first `#`, and an empty tag has no items. -/
structure Found (reading : Reading) : Prop where
  tag : ∀ tag spec, reading.tags.get? tag = some spec → Findable tag ∧ ∀ c ∈ tag.head?, isSpace c = false
  text : ∀ tag spec, reading.tags.get? tag = some spec → ∀ key items, spec.get? key = some items → ∀ s ∈ items, Findable s
  empty : ∀ spec, reading.tags.get? [] = some spec → spec = specOf [] []
  list : ∀ tag key, reading.currentList = some (tag, key) → tag ≠ []

theorem mem_unescape {s : Str} {c : Nat} (h : c ∈ unescape s) : c ∈ s := by
  induction s using unescape.induct with
  | case1 rest ih =>
    rw [unescape] at h
    rcases List.mem_cons.mp h with rfl | h
    · exact List.mem_cons_self
    · exact List.mem_cons_of_mem _ (List.mem_cons_of_mem _ (ih h))
  | case2 d rest hpair ih =>
    rw [unescape] at h
    · rcases List.mem_cons.mp h with rfl | h
      · exact List.mem_cons_self
      · exact List.mem_cons_of_mem _ (ih h)
    · exact hpair
  | case3 => exact h

theorem findable_itemValue {content : Str} (h : Findable content) : Findable (itemValue content) := by
  have hstrip : Findable (strip (content.drop 2)) := fun c hc =>
    h c ((List.drop_suffix 2 content).subset (mem_of_mem_stripBy hc))
  unfold itemValue
  dsimp only
  split
  · intro c hc
    have hmem := mem_unescape hc
    exact hstrip c ((List.drop_suffix 1 _).subset ((List.dropLast_prefix _).subset hmem))
  · exact hstrip

section Invariant

variable {uncomment : Str → Str} {reading : Reading}

theorem Found.openTag (h : Found reading) {tag : Str} (hfind : Findable tag) (hhead : ∀ c ∈ tag.head?, isSpace c = false) :
    Found (reading.openTag tag) where
  tag t spec hget := by
    rw [Reading.openTag, Dict.get?_set] at hget
    by_cases heq : t = tag
    · subst heq
      exact ⟨hfind, hhead⟩
    · rw [if_neg heq] at hget
      exact h.tag t spec hget
  text t spec hget key items hitems := by
    rw [Reading.openTag, Dict.get?_set] at hget
    by_cases heq : t = tag
    · rw [if_pos heq] at hget
      obtain rfl := Option.some.inj hget
      have hmem := Dict.mem_members.mpr hitems
      have hnil : items = [] := by
        simp only [specOf, List.mem_cons, Prod.mk.injEq, List.not_mem_nil, or_false] at hmem
        rcases hmem with hmem | hmem
        · exact hmem.2
        · exact hmem.2
      rw [hnil]
      simp
    · rw [if_neg heq] at hget
      exact h.text t spec hget key items hitems
  empty spec hget := by
    rw [Reading.openTag, Dict.get?_set] at hget
    split at hget
    · exact (Option.some.inj hget).symm
    · exact h.empty spec hget
  list t key hlist := by cases hlist

/-- The tag that is not empty is given other lists. -/
theorem Found.update (h : Found reading) {tag : Str} (hne : tag ≠ []) {old spec : Spec}
    (hold : reading.tags.get? tag = some old)
    (hspec : ∀ key items, spec.get? key = some items → ∀ s ∈ items, Findable s) (list : Option (Str × Str))
    (hlist : ∀ t key, list = some (t, key) → t ≠ []) :
    Found { reading with tags := reading.tags.set tag spec, currentList := list } where
  tag t found hget := by
    rw [Dict.get?_set] at hget
    by_cases heq : t = tag
    · subst heq
      exact h.tag t old hold
    · rw [if_neg heq] at hget
      exact h.tag t found hget
  text t found hget key items hitems := by
    rw [Dict.get?_set] at hget
    by_cases heq : t = tag
    · rw [if_pos heq] at hget
      obtain rfl := Option.some.inj hget
      exact hspec key items hitems
    · rw [if_neg heq] at hget
      exact h.text t found hget key items hitems
  empty found hget := by
    rw [Dict.get?_set, if_neg fun heq => hne heq.symm] at hget
    exact h.empty found hget
  list := hlist

theorem Found.openList (h : Found reading) {tag : Str} (hne : tag ≠ []) (key : Str) :
    Found (reading.openList tag key) := by
  unfold Reading.openList
  split
  · exact h
  · rename_i spec hget
    refine h.update hne hget ?_ _ fun t k hlist => ?_
    · intro k items hitems
      split at hitems
      · exact h.text tag spec hget k items hitems
      · rw [Dict.get?_set] at hitems
        split at hitems
        · obtain rfl := Option.some.inj hitems
          simp
        · exact h.text tag spec hget k items hitems
    · obtain ⟨rfl, -⟩ := Prod.mk.inj (Option.some.inj hlist)
      exact hne

theorem Found.readItem (h : Found reading) {content : Str} (hfind : Findable content) : Found (reading.readItem content) := by
  unfold Reading.readItem
  split
  · rename_i tag key hlist
    split
    · unfold Reading.append
      split
      · exact h
      · rename_i spec hget
        refine h.update (h.list tag key hlist) hget ?_ _ h.list
        intro k items hitems s hs
        rw [Dict.get?_set] at hitems
        split at hitems
        · obtain rfl := Option.some.inj hitems
          rcases List.mem_append.mp hs with hs | hs
          · cases hold : spec.get? key with
            | none =>
              rw [hold] at hs
              cases hs
            | some old =>
              rw [hold] at hs
              exact h.text tag spec hget key old hold s hs
          · obtain rfl := List.mem_singleton.mp hs
            exact findable_itemValue hfind
        · exact h.text tag spec hget k items hitems s hs
    · exact h
  · exact h

/-- One line keeps the invariant. -/
theorem Found.readLine (hu : Uncomments uncomment) (h : Found reading) {line : Str} (hline : NoBreak line) :
    Found (readLine uncomment reading line) := by
  have hfind : Findable (strip (uncomment line)) := fun c hc => by
    obtain ⟨hmem, hhash⟩ := hu.cuts line c (mem_of_mem_stripBy hc)
    exact ⟨hline c hmem, hhash⟩
  have hends := (stripBy_ends isSpace (uncomment line)).1
  rw [← strip] at hends
  have hdrop : Findable (strip (uncomment line)).dropLast ∧
      ∀ c ∈ (strip (uncomment line)).dropLast.head?, isSpace c = false := by
    refine ⟨fun c hc => hfind c ((List.dropLast_prefix _).subset hc), fun c hc => hends c ?_⟩
    obtain ⟨rest, hrest⟩ := List.head?_eq_some_iff.mp hc
    obtain ⟨t, ht⟩ := List.dropLast_prefix (strip (uncomment line))
    rw [← ht, hrest]
    rfl
  unfold Sensitivity.readLine
  dsimp only
  split
  · exact h
  split
  · exact h.openTag hdrop.1 hdrop.2
  split
  · split
    · exact h.openList (List.cons_ne_nil _ _) _
    · exact h.readItem hfind
  · exact h.readItem hfind

/-- **Whatever the file**, the invariant holds of what was read. -/
theorem found_lines (hu : Uncomments uncomment) (h : Found reading) {lines : List Str} (hlines : ∀ l ∈ lines, NoBreak l) :
    Found (lines.foldl (readLine uncomment) reading) := by
  induction lines generalizing reading with
  | nil => exact h
  | cons line lines ih =>
    exact ih (h.readLine hu (hlines line List.mem_cons_self)) fun l hl => hlines l (List.mem_cons_of_mem _ hl)

theorem found_empty (start : Option Str) : Found ⟨.empty, start, none⟩ where
  tag _ _ hget := by cases hget
  text _ _ hget := by cases hget
  empty _ hget := by cases hget
  list _ _ hlist := by cases hlist

end Invariant

/-! ## §4 — The file of the rules -/

/-- A tag as it is written. -/
def writtenTag (rule : TagRule) : Str × Spec := (rule.tag, specOf rule.keywords rule.patterns)

/-- The rules that are found as they are written. -/
structure Readable (rules : List TagRule) : Prop where
  nodup : (rules.map TagRule.tag).Nodup
  tag : ∀ rule ∈ rules, Findable rule.tag ∧ ∀ c ∈ rule.tag.head?, isSpace c = false
  text : ∀ rule ∈ rules, ∀ s ∈ rule.keywords ++ rule.patterns, Findable s ∧ 0x22 ∉ s
  empty : ∀ rule ∈ rules, rule.tag = [] → rule.keywords = [] ∧ rule.patterns = []

section File

variable {uncomment : Str → Str} {start : Option Str} {rules : List TagRule}

theorem noBreak_itemLine {s : Str} (h : NoBreak s) : NoBreak (itemLine s) := by
  refine noBreak_append.mpr ⟨noBreak_append.mpr ⟨by decide, fun c hc => ?_⟩, by decide⟩
  rcases mem_escapeScalar hc with rfl | hc
  · rfl
  · exact h c hc

theorem noBreak_ruleLines {rule : TagRule} (htag : NoBreak rule.tag)
    (htext : ∀ s ∈ rule.keywords ++ rule.patterns, NoBreak s) : ∀ line ∈ ruleLines rule, NoBreak line := by
  have hlist : ∀ name items, NoBreak name → (∀ s ∈ items, NoBreak s) → ∀ line ∈ listLines name items, NoBreak line := by
    intro name items hname hitems line hline
    unfold listLines at hline
    split at hline
    · cases hline
    · rcases List.mem_cons.mp hline with rfl | hline
      · exact noBreak_append.mpr ⟨noBreak_append.mpr ⟨by decide, hname⟩, by decide⟩
      · obtain ⟨s, hs, rfl⟩ := List.mem_map.mp hline
        exact noBreak_itemLine (hitems s hs)
  intro line hline
  rcases List.mem_cons.mp hline with rfl | hline
  · exact noBreak_append.mpr ⟨noBreak_append.mpr ⟨by decide, htag⟩, by decide⟩
  · rcases List.mem_append.mp hline with hline | hline
    · exact hlist _ _ (by decide) (fun s hs => htext s (List.mem_append_left _ hs)) line hline
    · exact hlist _ _ (by decide) (fun s hs => htext s (List.mem_append_right _ hs)) line hline

/-- Rules that can be found, with the backslashes that stay. -/
theorem members_fallbackTags (hu : Uncomments uncomment) (hnodup : (rules.map TagRule.tag).Nodup)
    (htag : ∀ rule ∈ rules, Findable rule.tag ∧ ∀ c ∈ rule.tag.head?, isSpace c = false)
    (htext : ∀ rule ∈ rules, ∀ s ∈ rule.keywords ++ rule.patterns, Findable s)
    (hempty : ∀ rule ∈ rules, rule.tag = [] → rule.keywords = [] ∧ rule.patterns = []) :
    (fallbackTags uncomment start (writeRules rules)).members = rules.map foundTag := by
  have hlines : ∀ line ∈ [Str.of "version: 1", Str.of "tags:"] ++ rules.flatMap ruleLines, NoBreak line := by
    intro line hline
    rcases List.mem_append.mp hline with hline | hline
    · have hhead : ∀ line ∈ [Str.of "version: 1", Str.of "tags:"], NoBreak line := by decide
      exact hhead line hline
    · obtain ⟨rule, hrule, hline⟩ := List.mem_flatMap.mp hline
      exact noBreak_ruleLines (fun c hc => ((htag rule hrule).1 c hc).1)
        (fun s hs c hc => (htext rule hrule s hs c hc).1) line hline
  have hlegible : ∀ rule ∈ rules, Legible rule := fun rule hrule =>
    { hash := ⟨fun hmem => ((htag rule hrule).1 _ hmem).2 rfl, fun s hs hmem => (htext rule hrule s hs _ hmem).2 rfl⟩
      head := (htag rule hrule).2
      items := hempty rule hrule }
  have hfold := @foldl_rules uncomment ⟨.empty, start, none⟩ hu rules hlegible hnodup (by simp [Dict.empty])
  rw [fallbackTags, writeRules, splitlines_unlines hlines, List.foldl_append, List.foldl_cons, List.foldl_cons,
    List.foldl_nil, readLine_head hu, hfold]
  rfl

/-- **The readers find the rules as they are written** where these are readable, and nowhere else. -/
theorem found_iff_readable (hu : Uncomments uncomment) :
    (fallbackTags uncomment start (writeRules rules)).members = rules.map writtenTag ↔ Readable rules := by
  constructor
  · intro h
    have hfound := found_lines hu (found_empty start) fun l hl =>
      @noBreak_of_mem_splitlines (writeRules rules) l hl
    have hget : ∀ rule ∈ rules, (fallbackTags uncomment start (writeRules rules)).get? rule.tag =
        some (specOf rule.keywords rule.patterns) := fun rule hrule =>
      Dict.mem_members.mp (by
        rw [h]
        exact List.mem_map.mpr ⟨rule, hrule, rfl⟩)
    have hnodup : (rules.map TagRule.tag).Nodup := by
      have hkeys := (fallbackTags uncomment start (writeRules rules)).nodup
      rw [h, List.map_map] at hkeys
      exact hkeys
    have htag : ∀ rule ∈ rules, Findable rule.tag ∧ ∀ c ∈ rule.tag.head?, isSpace c = false := fun rule hrule =>
      hfound.tag rule.tag _ (hget rule hrule)
    have htext : ∀ rule ∈ rules, ∀ s ∈ rule.keywords ++ rule.patterns, Findable s := by
      intro rule hrule s hs
      rcases List.mem_append.mp hs with hs | hs
      · exact hfound.text rule.tag _ (hget rule hrule) "keywords" rule.keywords rfl s hs
      · exact hfound.text rule.tag _ (hget rule hrule) "patterns" rule.patterns rfl s hs
    have hempty : ∀ rule ∈ rules, rule.tag = [] → rule.keywords = [] ∧ rule.patterns = [] := by
      intro rule hrule hnil
      have hspec := hfound.empty _ (hnil ▸ hget rule hrule)
      have hmembers := congrArg Dict.members hspec
      simpa [specOf] using hmembers
    -- what is found is now known, and is what was written
    rw [members_fallbackTags hu hnodup htag htext hempty] at h
    refine ⟨hnodup, htag, fun rule hrule s hs => ⟨htext rule hrule s hs, ?_⟩, hempty⟩
    have hrule' := congrArg (fun m : Str × Spec => m.2.members) (List.map_inj_left.mp h rule hrule)
    have hsame : rule.keywords.map readBack = rule.keywords ∧ rule.patterns.map readBack = rule.patterns := by
      simpa [foundTag, writtenTag, specOf] using hrule'
    have heach : ∀ items : List Str, items.map readBack = items → ∀ s ∈ items, 0x22 ∉ s := by
      intro items hitems s hs
      have hid : items.map readBack = items.map id := by rw [hitems, List.map_id]
      exact readBack_eq_self.mp (List.map_inj_left.mp hid s hs)
    rcases List.mem_append.mp hs with hs | hs
    · exact heach _ hsame.1 s hs
    · exact heach _ hsame.2 s hs
  · intro h
    rw [members_fallbackTags hu h.nodup h.tag (fun rule hrule s hs => (h.text rule hrule s hs).1) h.empty]
    refine List.map_congr_left fun rule hrule => ?_
    have hsame : ∀ items : List Str, (∀ s ∈ items, s ∈ rule.keywords ++ rule.patterns) → items.map readBack = items := by
      intro items hitems
      conv_rhs => rw [← List.map_id items]
      exact List.map_congr_left fun s hs => readBack_eq_self.mpr (h.text rule hrule s (hitems s hs)).2
    rw [foundTag, hsame _ fun s hs => List.mem_append_left _ hs, hsame _ fun s hs => List.mem_append_right _ hs]
    rfl

end File

end Autophagy.Sensitivity
