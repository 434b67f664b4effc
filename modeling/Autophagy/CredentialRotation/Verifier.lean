/-
# Autophagy.CredentialRotation.Verifier — what `replace_env_value` leaves as it is.

The reader cuts the text with `str.splitlines`, the rewriter strips `\r` and `\n` from what it cuts. A line that ends at
another boundary keeps it as part of its text, and loses it when it is rewritten. Every other verifier that is accepted
is rewritten in one place and read as the same mapping with the new value (`envSurgical_iff`).
-/
import Autophagy.CredentialRotation.Lines
import Autophagy.Python.Demand

namespace Autophagy.CredentialRotation

open Autophagy.Python

/-! ## §1 — The ends that are stripped -/

/-- The line ends with nothing, `\n`, `\r` or both. -/
def PlainEnd (line : Str) : Prop := ∀ c ∈ lineEnd line, c = 0x0d ∨ c = 0x0a

instance (line : Str) : Decidable (PlainEnd line) := inferInstanceAs (Decidable (∀ c ∈ lineEnd line, _))

/-- What `rstrip` leaves of a text, and of what is stripped from its end. -/
theorem bodyOf_append {text ending : Str} (hending : ∀ c ∈ ending, c = 0x0d ∨ c = 0x0a)
    (htext : ∀ c ∈ text.getLast?, ¬ (c = 0x0d ∨ c = 0x0a)) : bodyOf (text ++ ending) = text := by
  have hpos : ∀ c ∈ ending.reverse, decide (c = 0x0d ∨ c = 0x0a) = true := fun c hc => by
    simpa using hending c (List.mem_reverse.mp hc)
  have hstay : text.reverse.dropWhile (fun c => decide (c = 0x0d ∨ c = 0x0a)) = text.reverse := by
    rw [List.dropWhile_eq_self_iff]
    intro hlength hfirst
    have hlast : text.getLast? = some text.reverse[0] := by
      rw [← List.head?_reverse, List.head?_eq_getElem?, List.getElem?_eq_getElem hlength]
    exact htext _ hlast (by simpa using hfirst)
  rw [bodyOf, List.rdropWhile, List.reverse_append, List.dropWhile_append_of_pos hpos, hstay, List.reverse_reverse]

theorem bodyOf_plain {line : Str} (h : PlainEnd line) : bodyOf line = lineText line ∧ endingOf line = lineEnd line := by
  have hsplit := lineText_append_lineEnd line
  have hbody : bodyOf line = lineText line := by
    have hcut := @bodyOf_append (lineText line) (lineEnd line) h (by
      rintro c hc (rfl | rfl)
      · exact absurd (noBreak_lineText line _ (List.mem_of_mem_getLast? hc)) (by decide)
      · exact absurd (noBreak_lineText line _ (List.mem_of_mem_getLast? hc)) (by decide))
    rwa [hsplit] at hcut
  refine ⟨hbody, ?_⟩
  have hdrop : (lineText line ++ lineEnd line).drop (lineText line).length = lineEnd line := List.drop_left
  rwa [hsplit, ← hbody] at hdrop

theorem bodyOf_odd {line : Str} (hline : IsLine line) (h : ¬ PlainEnd line) :
    bodyOf line = line ∧ endingOf line = [] := by
  have hlast : ∀ c ∈ line.getLast?, ¬ (c = 0x0d ∨ c = 0x0a) := by
    rcases hline.ending with hnil | hcrlf | ⟨c, hc, -⟩
    · exact absurd (fun c hc => by rw [hnil] at hc; cases hc) h
    · exact absurd (fun c hc => by rw [hcrlf] at hc; simpa using hc) h
    · intro d hd hplain
      rw [← lineText_append_lineEnd line, hc, List.getLast?_concat] at hd
      obtain rfl : c = d := by simpa using hd
      exact h fun e he => by rw [hc, List.mem_singleton] at he; rwa [he]
  have hbody := @bodyOf_append line [] (by simp) hlast
  rw [List.append_nil] at hbody
  exact ⟨hbody, by rw [endingOf, hbody, List.drop_length]⟩

theorem prefix_lineText {label line : Str} (hlabel : NoBreak label) : label <+: line ↔ label <+: lineText line := by
  have hsplit := lineText_append_lineEnd line
  constructor
  · rintro ⟨rest, rfl⟩
    have hpass : ∀ c ∈ label, (!isBreak c) = true := fun c hc => by rw [hlabel c hc]; rfl
    rw [lineText, List.takeWhile_append_of_pos hpass]
    exact List.prefix_append _ _
  · exact fun h => h.trans ⟨lineEnd line, hsplit⟩

theorem prefix_bodyOf {label line : Str} (hline : IsLine line) (hlabel : NoBreak label) :
    label <+: bodyOf line ↔ label <+: line := by
  by_cases hplain : PlainEnd line
  · rw [(bodyOf_plain hplain).1]
    exact (prefix_lineText hlabel).symm
  · rw [(bodyOf_odd hline hplain).1]

/-! ## §2 — The lines of keys -/

theorem partitionEquals_eq_some {line key value : Str} :
    partitionEquals line = some (key, value) ↔ line = key ++ 0x3d :: value ∧ 0x3d ∉ key := by
  have hsplit := @List.takeWhile_append_dropWhile Nat (fun c => decide (c ≠ 0x3d)) line
  have htake : 0x3d ∉ line.takeWhile (fun c => decide (c ≠ 0x3d)) := fun h => by
    simpa using List.mem_takeWhile_imp h
  constructor
  · intro h
    unfold partitionEquals at h
    split at h
    · cases h
    · rename_i c rest hdrop
      obtain ⟨rfl, rfl⟩ := Prod.mk.inj (Option.some.inj h)
      have hhead := List.head?_dropWhile_not (fun c => decide (c ≠ 0x3d)) line
      rw [hdrop] at hhead hsplit
      obtain rfl : c = 0x3d := by simpa using hhead
      exact ⟨hsplit.symm, htake⟩
  · rintro ⟨rfl, hkey⟩
    have hpass : ∀ c ∈ key, decide (c ≠ 0x3d) = true := fun c hc => by
      simpa using fun heq : c = 0x3d => hkey (heq ▸ hc)
    unfold partitionEquals
    rw [List.dropWhile_append_of_pos hpass, List.takeWhile_append_of_pos hpass]
    simp

/-- A key as `parse_env` finds them: what stands before the first `=` of a line that is no comment. -/
structure IsKey (key : Str) : Prop where
  ne : key ≠ []
  noEquals : 0x3d ∉ key
  read : ∀ value, strip (key ++ 0x3d :: value) ≠ [] ∧ (strip (key ++ 0x3d :: value)).head? ≠ some 0x23

theorem parseLine_key {key : Str} (h : IsKey key) (values : Dict Str Str) (value : Str) :
    parseLine values (key ++ 0x3d :: value) =
      if (values.get? key).isSome then .error (.rotation "verifier file has malformed or duplicate key data")
      else .ok (values.set key value) := by
  have hread : ¬ (strip (key ++ 0x3d :: value) = [] ∨ (strip (key ++ 0x3d :: value)).head? = some 0x23) := by
    rintro (hnil | hcomment)
    · exact (h.read value).1 hnil
    · exact (h.read value).2 hcomment
  unfold parseLine
  dsimp only
  rw [if_neg hread, partitionEquals_eq_some.mpr ⟨rfl, h.noEquals⟩]
  dsimp only
  by_cases hsome : (values.get? key).isSome = true
  · rw [if_pos hsome, if_pos (.inr hsome)]
  · rw [if_neg hsome, if_neg (by simpa [h.ne] using hsome)]

/-- What stands first in a line of a key does not depend on its value. -/
theorem strip_key (key : Str) : ∃ c, ∀ value, ∃ more, strip (key ++ 0x3d :: value) = c :: more := by
  have hdrop : (key ++ [0x3d]).dropWhile isSpace ≠ [] := by
    rw [Ne, List.dropWhile_eq_nil_iff]
    intro hall
    have hequals := hall 0x3d (by simp)
    cases hequals
  obtain ⟨c, more, hfirst⟩ := List.exists_cons_of_ne_nil hdrop
  have hc : isSpace c = false := by
    have hhead := List.head?_dropWhile_not isSpace (key ++ [0x3d])
    rw [hfirst] at hhead
    simpa using hhead
  refine ⟨c, fun value => ?_⟩
  have hbegin : (key ++ 0x3d :: value).dropWhile isSpace = c :: (more ++ value) := by
    have hshape : key ++ 0x3d :: value = (key ++ [0x3d]) ++ value := by simp
    rw [hshape, List.dropWhile_append, hfirst]
    rfl
  have hsame : strip (key ++ 0x3d :: value) = strip (c :: (more ++ value)) := by
    rw [strip, strip, stripBy, stripBy, hbegin, List.dropWhile_cons_of_neg (by simp [hc])]
  obtain ⟨after, hafter, hspace⟩ := @exists_stripBy_of_head isSpace (c :: (more ++ value)) (fun d hd => by
    obtain rfl : c = d := by simpa using hd
    exact hc)
  rw [hsame, strip]
  cases hstrip : stripBy isSpace (c :: (more ++ value)) with
  | nil =>
    rw [hstrip, List.nil_append] at hafter
    have hbad := hspace c (hafter ▸ List.mem_cons_self)
    rw [hc] at hbad
    cases hbad
  | cons d rest =>
    rw [hstrip, List.cons_append] at hafter
    exact ⟨rest, by rw [(List.cons.inj hafter).1]⟩

/-- What a line does that is accepted. -/
theorem parseLine_cases {values next : Dict Str Str} {line : Str} (h : parseLine values line = .ok next) :
    ((∀ other, parseLine other line = .ok other) ∧ ∀ key, IsKey key → ¬ key ++ [0x3d] <+: line) ∨
      ∃ key value, IsKey key ∧ line = key ++ 0x3d :: value ∧ values.get? key = none ∧ next = values.set key value := by
  unfold parseLine at h
  dsimp only at h
  split at h
  · rename_i hskip
    refine .inl ⟨fun other => if_pos hskip, fun key hkey => ?_⟩
    rintro ⟨value, rfl⟩
    rw [List.append_assoc, List.singleton_append] at hskip
    rcases hskip with hnil | hcomment
    · exact (hkey.read value).1 hnil
    · exact (hkey.read value).2 hcomment
  · rename_i hread
    split at h
    · rename_i key value hparts
      obtain ⟨rfl, hequals⟩ := partitionEquals_eq_some.mp hparts
      split at h
      · cases h
      · rename_i hnew
        obtain ⟨hne, hnone⟩ := not_or.mp hnew
        refine .inr ⟨key, value, ⟨hne, hequals, fun v => ?_⟩, rfl, by simpa using hnone, (Except.ok.inj h).symm⟩
        obtain ⟨c, hc⟩ := strip_key key
        obtain ⟨more, hmore⟩ := hc value
        obtain ⟨more', hmore'⟩ := hc v
        rw [hmore] at hread
        rw [hmore']
        exact ⟨List.cons_ne_nil _ _, fun hhead => hread (.inr (by rw [← hhead]; rfl))⟩
    · cases h

theorem not_prefix_of_ne {key k value : Str} (hk : IsKey k) (hkey : IsKey key) (hne : k ≠ key) :
    ¬ key ++ [0x3d] <+: k ++ 0x3d :: value := by
  rintro ⟨rest, hrest⟩
  rw [List.append_assoc, List.singleton_append] at hrest
  exact hne (append_cons_inj hkey.noEquals hk.noEquals hrest).1.symm

/-- The second mapping has `value` under the key, and everything else as the first. -/
def Renews (key value : Str) (values renewed : Dict Str Str) : Prop :=
  ∀ k, renewed.get? k = if k = key then some value else values.get? k

theorem Renews.set {key value : Str} {values renewed : Dict Str Str} (h : Renews key value values renewed)
    {k : Str} (hk : k ≠ key) (v : Str) : Renews key value (values.set k v) (renewed.set k v) := by
  intro j
  rw [Dict.get?_set, Dict.get?_set, h j]
  by_cases hj : j = k
  · rw [if_pos hj, if_pos hj, if_neg (hj ▸ hk)]
  · rw [if_neg hj, if_neg hj]

section Reading

variable {key value old : Str} {values final : Dict Str Str} {lines : List Str}

/-- Behind the line of a key no line is another one of it, and the lines are read with any value. -/
theorem foldlM_behind (hkey : IsKey key) (h : lines.foldlM parseLine values = .ok final)
    (hold : values.get? key = some old) :
    final.get? key = some old ∧ (∀ line ∈ lines, ¬ key ++ [0x3d] <+: line) ∧
      ∀ value renewed, Renews key value values renewed →
        ∃ after, lines.foldlM parseLine renewed = .ok after ∧ Renews key value final after := by
  induction lines generalizing values with
  | nil =>
    obtain rfl := Except.ok.inj h
    exact ⟨hold, by simp, fun value renewed hrenews => ⟨renewed, rfl, hrenews⟩⟩
  | cons line lines ih =>
    rw [List.foldlM_cons] at h
    obtain ⟨next, hline, hrest⟩ := bind_ok.mp h
    rcases parseLine_cases hline with ⟨hskip, hother⟩ | ⟨k, v, hk, rfl, hnone, rfl⟩
    · obtain rfl : values = next := Except.ok.inj ((hskip values).symm.trans hline)
      obtain ⟨hfinal, hlines, hreads⟩ := ih hrest hold
      refine ⟨hfinal, ?_, fun value renewed hrenews => ?_⟩
      · exact List.forall_mem_cons.mpr ⟨hother key hkey, hlines⟩
      · obtain ⟨after, hafter, hsame⟩ := hreads value renewed hrenews
        exact ⟨after, by rw [List.foldlM_cons, hskip renewed]; exact hafter, hsame⟩
    · have hne : k ≠ key := by
        rintro rfl
        rw [hold] at hnone
        cases hnone
      obtain ⟨hfinal, hlines, hreads⟩ := ih hrest (by rw [Dict.get?_set, if_neg hne.symm]; exact hold)
      refine ⟨hfinal, ?_, fun value renewed hrenews => ?_⟩
      · exact List.forall_mem_cons.mpr ⟨not_prefix_of_ne hk hkey hne, hlines⟩
      · obtain ⟨after, hafter, hsame⟩ := hreads value _ (hrenews.set hne v)
        refine ⟨after, ?_, hsame⟩
        have hfresh : ¬ (renewed.get? k).isSome = true := by rw [hrenews k, if_neg hne, hnone]; simp
        rw [List.foldlM_cons, parseLine_key hk, if_neg hfresh]
        exact hafter

/-- **Where a value comes from**: one line of its key, and with another value there the same lines give the mapping with
that value. -/
theorem foldlM_parseLine (h : lines.foldlM parseLine values = .ok final) (hnew : values.get? key = none)
    (hget : final.get? key = some old) :
    IsKey key ∧ ∃ before behind, lines = before ++ (key ++ 0x3d :: old) :: behind ∧
      (∀ line ∈ before ++ behind, ¬ key ++ [0x3d] <+: line) ∧
      ∀ value, ∃ after, (before ++ (key ++ 0x3d :: value) :: behind).foldlM parseLine values = .ok after ∧
        Renews key value final after := by
  induction lines generalizing values with
  | nil =>
    obtain rfl := Except.ok.inj h
    rw [hnew] at hget
    cases hget
  | cons line lines ih =>
    rw [List.foldlM_cons] at h
    obtain ⟨next, hline, hrest⟩ := bind_ok.mp h
    rcases parseLine_cases hline with ⟨hskip, hother⟩ | ⟨k, v, hk, rfl, hnone, rfl⟩
    · obtain rfl : values = next := Except.ok.inj ((hskip values).symm.trans hline)
      obtain ⟨hkey, before, behind, rfl, hlines, hreads⟩ := ih hrest hnew
      refine ⟨hkey, line :: before, behind, rfl, List.forall_mem_cons.mpr ⟨hother key hkey, hlines⟩, fun value => ?_⟩
      obtain ⟨after, hafter, hsame⟩ := hreads value
      exact ⟨after, by rw [List.cons_append, List.foldlM_cons, hskip values]; exact hafter, hsame⟩
    · by_cases hne : k = key
      · subst hne
        obtain ⟨hfinal, hlines, hreads⟩ := foldlM_behind hk hrest (Dict.get?_set_self _ _ _)
        obtain rfl : v = old := Option.some.inj (hfinal.symm.trans hget)
        refine ⟨hk, [], lines, rfl, hlines, fun value => ?_⟩
        have hrenews : Renews k value (values.set k v) (values.set k value) := by
          intro j
          rw [Dict.get?_set, Dict.get?_set]
          split <;> rfl
        obtain ⟨after, hafter, hsame⟩ := hreads value _ hrenews
        refine ⟨after, ?_, hsame⟩
        rw [List.nil_append, List.foldlM_cons, parseLine_key hk, if_neg (by rw [hnone]; simp)]
        exact hafter
      · obtain ⟨hkey, before, behind, rfl, hlines, hreads⟩ := ih hrest (by
          rw [Dict.get?_set, if_neg fun heq => hne heq.symm]
          exact hnew)
        refine ⟨hkey, (k ++ 0x3d :: v) :: before, behind, rfl, ?_, fun value => ?_⟩
        · exact List.forall_mem_cons.mpr ⟨not_prefix_of_ne hk hkey hne, hlines⟩
        · obtain ⟨after, hafter, hsame⟩ := hreads value
          refine ⟨after, ?_, hsame⟩
          rw [List.cons_append, List.foldlM_cons, parseLine_key hk, if_neg (by rw [hnone]; simp)]
          exact hafter

end Reading

/-! ## §3 — The verifier -/

/-- `content` with another value in the line of the key; every other character stays, the end of the line included. -/
def replacedText (content key replacement : Str) : Str :=
  ((splitlinesKeep content).map fun line =>
    if key ++ [0x3d] <+: line then key ++ 0x3d :: replacement ++ lineEnd line else line).flatten

/-- The rewriting succeeds, is read as the same mapping with the new value, and changes nothing else. -/
structure EnvSurgical (document : EnvDocument) (key replacement : Str) : Prop where
  replaced : replaceEnvValue document.content key replacement = .ok (replacedText document.content key replacement)
  renewed : ∃ after, parseEnv (replacedText document.content key replacement) = .ok after ∧
    Renews key replacement document.values after.values

theorem isKeyLine_iff {key line : Str} (hkey : IsKey key) (hbreak : NoBreak key) (hline : IsLine line) :
    isKeyLine key line = true ↔ key ++ [0x3d] <+: line := by
  rw [← prefix_bodyOf hline (noBreak_append.mpr ⟨hbreak, by decide⟩)]
  constructor
  · intro h
    unfold isKeyLine at h
    cases hparts : partitionEquals (bodyOf line) with
    | none =>
      rw [hparts] at h
      cases h
    | some parts =>
      rw [hparts] at h
      obtain rfl : parts.1 = key := by simpa using h
      exact ⟨parts.2, by rw [(partitionEquals_eq_some.mp hparts).1]; simp⟩
  · rintro ⟨v, hv⟩
    have hparts : partitionEquals (bodyOf line) = some (key, v) :=
      partitionEquals_eq_some.mpr ⟨by rw [← hv]; simp, hkey.noEquals⟩
    rw [isKeyLine, hparts]
    simp

section Verifier

variable {content key old replacement : Str} {document : EnvDocument}

/-- The one line of a key. -/
theorem key_line (h : parseEnv content = .ok document) (hget : document.values.get? key = some old) :
    IsKey key ∧ NoBreak key ∧ ∃ before line behind, splitlinesKeep content = before ++ line :: behind ∧
      lineText line = key ++ 0x3d :: old ∧ (∀ l ∈ before ++ behind, ¬ key ++ [0x3d] <+: l) ∧
      ∀ value, ∃ after, (before.map lineText ++ (key ++ 0x3d :: value) :: behind.map lineText).foldlM parseLine .empty =
        .ok after ∧ Renews key value document.values after := by
  unfold parseEnv at h
  obtain ⟨values, hvalues, hdocument⟩ := bind_ok.mp h
  obtain rfl := Except.ok.inj hdocument
  obtain ⟨hkey, before, behind, hsplit, hlines, hreads⟩ := foldlM_parseLine hvalues (Dict.get?_empty key) hget
  rw [splitlines_eq_map] at hsplit
  obtain ⟨left, right, hkeep, hleft, hright⟩ := List.map_eq_append_iff.mp hsplit
  obtain ⟨line, rest, rfl, hline, rfl⟩ := List.map_eq_cons_iff.mp hright
  subst hleft
  have hbreak : NoBreak key := by
    have htext := noBreak_lineText line
    rw [hline] at htext
    exact (noBreak_append.mp htext).1
  refine ⟨hkey, hbreak, left, line, rest, hkeep, hline, fun l hl hprefix => ?_, hreads⟩
  refine hlines (lineText l) ?_ ((prefix_lineText (noBreak_append.mpr ⟨hbreak, by decide⟩)).mp hprefix)
  rw [← List.map_append]
  exact List.mem_map_of_mem hl

/-- **A verifier is rewritten surgically** where the line of the key has a plain end, and nowhere else. -/
theorem envSurgical_iff (h : parseEnv content = .ok document) (hget : document.values.get? key = some old)
    (hreplacement : NoBreak replacement) :
    EnvSurgical document key replacement ↔ ∀ line ∈ splitlinesKeep content, key ++ [0x3d] <+: line → PlainEnd line := by
  obtain ⟨hkey, hbreak, before, line, behind, hkeep, hline, hlines, hreads⟩ := key_line h hget
  obtain rfl : document.content = content := by
    unfold parseEnv at h
    obtain ⟨values, -, hdocument⟩ := bind_ok.mp h
    rw [← Except.ok.inj hdocument]
  obtain ⟨hlined, hchain⟩ := lined_splitlinesKeep document.content
  rw [hkeep] at hlined hchain
  have hprefix : key ++ [0x3d] <+: line :=
    (prefix_lineText (noBreak_append.mpr ⟨hbreak, by decide⟩)).mpr ⟨old, by rw [hline]; simp⟩
  have hothers : ∀ (f : Str → Str) (part : List Str), (∀ l ∈ part, l ∈ before ++ behind) →
      part.map (fun l => if key ++ [0x3d] <+: l then f l else l) = part := by
    intro f part hpart
    conv_rhs => rw [← List.map_id part]
    exact List.map_congr_left fun l hl => if_neg (hlines l (hpart l hl))
  have hleft : ∀ l ∈ before, l ∈ before ++ behind := fun l hl => List.mem_append_left _ hl
  have hright : ∀ l ∈ behind, l ∈ before ++ behind := fun l hl => List.mem_append_right _ hl
  have hreplaced : replaceEnvValue document.content key replacement =
      .ok (before ++ (key ++ 0x3d :: replacement ++ endingOf line) :: behind).flatten := by
    have hsame : ∀ l ∈ before ++ line :: behind, (isKeyLine key l = true ↔ key ++ [0x3d] <+: l) := fun l hl =>
      isKeyLine_iff hkey hbreak (hlined.each l hl)
    have hmap : (before ++ line :: behind).map (fun l =>
        if isKeyLine key l then key ++ 0x3d :: replacement ++ endingOf l else l) =
        before ++ (key ++ 0x3d :: replacement ++ endingOf line) :: behind := by
      have hcongr : ∀ l ∈ before ++ line :: behind, (if isKeyLine key l then key ++ 0x3d :: replacement ++ endingOf l
          else l) = if key ++ [0x3d] <+: l then key ++ 0x3d :: replacement ++ endingOf l else l := fun l hl => by
        simp only [hsame l hl]
      rw [List.map_congr_left hcongr, List.map_append, List.map_cons, if_pos hprefix, hothers _ before hleft,
        hothers _ behind hright]
    have hcount : (before ++ line :: behind).countP (isKeyLine key) = 1 := by
      have hnone : ∀ part : List Str, (∀ l ∈ part, l ∈ before ++ behind) → part.countP (isKeyLine key) = 0 := by
        intro part hpart
        refine List.countP_eq_zero.mpr fun l hl hbad => hlines l (hpart l hl) ((hsame l ?_).mp hbad)
        rcases List.mem_append.mp (hpart l hl) with hmem | hmem
        · exact List.mem_append_left _ hmem
        · exact List.mem_append_right _ (List.mem_cons_of_mem _ hmem)
      rw [List.countP_append, List.countP_cons, hnone before hleft, hnone behind hright,
        if_pos ((hsame line (by simp)).mpr hprefix)]
    unfold replaceEnvValue
    dsimp only
    rw [hkeep, if_neg (by rw [hcount]; simp), hmap]
  have htext : replacedText document.content key replacement =
      (before ++ (key ++ 0x3d :: replacement ++ lineEnd line) :: behind).flatten := by
    rw [replacedText, hkeep, List.map_append, List.map_cons, if_pos hprefix, hothers _ before hleft,
      hothers _ behind hright]
  constructor
  · intro hsurgical l hl hl'
    obtain rfl : l = line := by
      rw [hkeep] at hl
      by_contra hne
      refine hlines l ?_ hl'
      simpa [hne] using hl
    by_contra hodd
    have hsame := Except.ok.inj (hreplaced.symm.trans hsurgical.replaced)
    rw [htext, (bodyOf_odd (hlined.each l (by simp)) hodd).2] at hsame
    have hnil : lineEnd l = [] := by simpa using hsame
    exact hodd fun c hc => by rw [hnil] at hc; cases hc
  · intro hplain
    have hend := (bodyOf_plain (hplain line (by rw [hkeep]; simp) hprefix)).2
    rw [hend] at hreplaced
    refine ⟨by rw [hreplaced, htext], ?_⟩
    have hnew : NoBreak (key ++ 0x3d :: replacement) := by
      have hshape : key ++ 0x3d :: replacement = key ++ [0x3d] ++ replacement := by simp
      rw [hshape]
      exact noBreak_append.mpr ⟨noBreak_append.mpr ⟨hbreak, by decide⟩, hreplacement⟩
    have hline' := hlined.each line (by simp)
    obtain ⟨hparts, hends⟩ := parts_of_append hnew hline'.ending
    have hother : IsLine (key ++ 0x3d :: replacement ++ lineEnd line) := ⟨by simp, by rw [hends]; exact hline'.ending⟩
    have hcr : (key ++ 0x3d :: replacement ++ lineEnd line).getLast? = some 0x0d → line.getLast? = some 0x0d := by
      intro hlast
      rw [← lineText_append_lineEnd line]
      exact (getLast_cr (noBreak_lineText line)).mpr ((getLast_cr hnew).mp hlast)
    have hhead : (key ++ 0x3d :: replacement ++ lineEnd line).head? ≠ some 0x0a := by
      obtain ⟨c, rest, rfl⟩ := List.exists_cons_of_ne_nil hkey.ne
      intro hhead
      obtain rfl : c = 0x0a := by simpa using hhead
      exact absurd (hbreak 0x0a List.mem_cons_self) (by decide)
    have hlined' := hlined.replace hother fun hclosed => by rwa [Closed, hends]
    have hchain' := isChain_apart_replace hchain hcr hhead
    have hcut : splitlines (replacedText document.content key replacement) =
        before.map lineText ++ (key ++ 0x3d :: replacement) :: behind.map lineText := by
      rw [splitlines_eq_map, htext, splitlinesKeep_joined hlined', mergeEnds_eq hchain', List.map_append, List.map_cons,
        hparts]
    obtain ⟨after, hafter, hrenews⟩ := hreads replacement
    exact ⟨⟨replacedText document.content key replacement, after⟩, by rw [parseEnv, hcut, hafter]; rfl, hrenews⟩

end Verifier

end Autophagy.CredentialRotation
