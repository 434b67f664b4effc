/-
# Autophagy.Python.Sample — what runs on concrete inputs are made with.

A host that runs a sample needs a float type and a digest. `SampleFloat` has the three special values and
one finite one. `tableSha` is the real SHA-256 on the texts of a table, and injective on all texts: what a
table does not list gets a code that is longer than every digest.
-/
import Autophagy.Python.Canonical

namespace Autophagy.Python

/-! ## §1 — Floats -/

/-- Floats of which the samples need only that they exist. -/
inductive SampleFloat
  | nan
  | inf
  | negInf
  | half
  deriving DecidableEq

theorem isFloatText_half : IsFloatText (Str.of "0.5") := by
  refine ⟨by decide, by decide, ⟨false, Str.of "0", Str.of ".5", [], []⟩, ?_, rfl, by decide⟩
  decide

instance : PyFloat SampleFloat where
  text
    | .nan => Str.of "NaN"
    | .inf => Str.of "Infinity"
    | .negInf => Str.of "-Infinity"
    | .half => Str.of "0.5"
  read t := if t = Str.of "0.5" then .half else .nan
  nan := .nan
  inf := .inf
  negInf := .negInf
  text_nan := rfl
  text_inf := rfl
  text_negInf := rfl
  text_finite
    | .nan => .inl rfl
    | .inf => .inr (.inl rfl)
    | .negInf => .inr (.inr (.inl rfl))
    | .half => .inr (.inr (.inr ⟨isFloatText_half, by decide⟩))

/-- `str` of a value, where only texts are asked for. -/
def sampleText : Json SampleFloat → Str
  | .str s => s
  | _ => []

theorem sampleText_str (s : Str) : sampleText (.str s) = s := rfl

/-! ## §2 — Digests -/

/-- A code of texts by hexadecimal digits. -/
def unaryCode (t : Str) : Str := t.flatMap fun c => List.replicate c 0x30 ++ [0x61]

theorem unaryCode_injective : Function.Injective unaryCode := by
  have hhead : ∀ (a b : Nat) (s t : Str), List.replicate a 0x30 ++ 0x61 :: s =
      List.replicate b 0x30 ++ 0x61 :: t → a = b ∧ s = t := by
    intro a
    induction a with
    | zero =>
      intro b s t h
      cases b with
      | zero => simpa using h
      | succ b => simp [List.replicate_succ] at h
    | succ a ih =>
      intro b s t h
      cases b with
      | zero => simp [List.replicate_succ] at h
      | succ b =>
        simp only [List.replicate_succ, List.cons_append, List.cons.injEq, true_and] at h
        obtain ⟨rfl, rfl⟩ := ih b s t h
        exact ⟨rfl, rfl⟩
  intro s
  induction s with
  | nil =>
    intro t h
    cases t with
    | nil => rfl
    | cons c t => simp [unaryCode] at h
  | cons c s ih =>
    intro t h
    cases t with
    | nil => simp [unaryCode] at h
    | cons d t =>
      simp only [unaryCode, List.flatMap_cons, List.append_assoc, List.singleton_append] at h
      obtain ⟨rfl, hrest⟩ := hhead c d _ _ h
      rw [ih hrest]

/-- The digests of a table, and the code of every other text. -/
def tableSha (table : List (Str × Str)) (t : Str) : Str :=
  (table.lookup t).getD (List.replicate 64 0x30 ++ 0x30 :: unaryCode t)

/-- A table of digests of at most 64 characters makes an injective hash. -/
theorem tableSha_injective {table : List (Str × Str)} (hlength : ∀ e ∈ table, e.2.length ≤ 64)
    (hdistinct : (table.map Prod.snd).Nodup) : Function.Injective (tableSha table) := by
  have hmem : ∀ {t d : Str}, table.lookup t = some d → (t, d) ∈ table := by
    intro t d hlookup
    obtain ⟨front, rest, rfl, -⟩ := List.lookup_eq_some_iff.mp hlookup
    simp
  -- No digest is as long as the code of a text.
  have hcode : ∀ {s t d : Str}, table.lookup s = some d → d ≠ List.replicate 64 0x30 ++ 0x30 :: unaryCode t := by
    rintro s t _ hlookup rfl
    have hlen := hlength _ (hmem hlookup)
    rw [List.length_append, List.length_replicate, List.length_cons] at hlen
    omega
  intro s t hsame
  unfold tableSha at hsame
  cases hs : table.lookup s with
  | some d =>
    cases ht : table.lookup t with
    | some e =>
      rw [hs, ht] at hsame
      obtain rfl : d = e := hsame
      exact congrArg Prod.fst (List.inj_on_of_nodup_map hdistinct (hmem hs) (hmem ht) rfl)
    | none =>
      rw [hs, ht] at hsame
      exact absurd hsame (hcode hs)
  | none =>
    cases ht : table.lookup t with
    | some e =>
      rw [hs, ht] at hsame
      exact absurd hsame.symm (hcode ht)
    | none =>
      rw [hs, ht] at hsame
      exact unaryCode_injective (List.cons.inj (List.append_cancel_left hsame)).2

/-- It writes hexadecimal digits where the table does. -/
theorem tableSha_digits {table : List (Str × Str)}
    (htable : ∀ e ∈ table, ∀ c ∈ e.2, (isDigit c || (0x61 ≤ c && c ≤ 0x66)) = true) (t : Str) :
    ∀ c ∈ tableSha table t, (isDigit c || (0x61 ≤ c && c ≤ 0x66)) = true := by
  intro c hc
  unfold tableSha at hc
  cases ht : table.lookup t with
  | some d =>
    rw [ht] at hc
    obtain ⟨front, rest, rfl, -⟩ := List.lookup_eq_some_iff.mp ht
    exact htable (t, d) (by simp) c hc
  | none =>
    rw [ht] at hc
    have hzero : ∀ d : Nat, d = 0x30 ∨ d = 0x61 → (isDigit d || (0x61 ≤ d && d ≤ 0x66)) = true := by
      rintro d (rfl | rfl) <;> decide
    refine hzero c ?_
    rcases List.mem_append.mp hc with hc | hc
    · exact .inl (List.mem_replicate.mp hc).2
    · rcases List.mem_cons.mp hc with rfl | hc
      · exact .inl rfl
      · obtain ⟨n, -, hn⟩ := List.mem_flatMap.mp hc
        rcases List.mem_append.mp hn with hn | hn
        · exact .inl (List.mem_replicate.mp hn).2
        · exact .inr (List.mem_singleton.mp hn)

end Autophagy.Python
