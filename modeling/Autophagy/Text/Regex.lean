/-
# Autophagy.Text.Regex — backtracking patterns, and what replacing their matches leaves.

A pattern answers at a cursor with the places its matches end at, the one the engine takes first. Repetition is
greedy, and a boundary is a place between a word character and another or an end of the text. `sub` replaces from
left to right what is taken at each cursor.

`ends_carried` carries a match from one text to another along a relation of cursors that each step of the pattern keeps.
For a replaced text and the text it was made from there is such a relation, `Kept`: outside of the replacements the two
have the same characters, and where matches start and end at boundaries the first has no boundary the second has not.
With a replacement in brackets that no match fits inside of, `not_occurs_sub` and `occurs_of_occurs_sub` say that
nothing is left to replace, and that nothing appears that was not there.
-/
import Mathlib.Data.List.Basic

namespace Autophagy.Text

/-! ## §1 — Patterns -/

/-- A place in a text: the character before it, and what follows. -/
structure Cursor (α : Type) where
  prev : Option α
  rest : List α

/-- A pattern over sets of characters. -/
inductive Regex (α : Type)
  | set (p : α → Bool)
  | boundary (word : α → Bool)
  | empty
  | seq (a b : Regex α)
  | alt (a b : Regex α)
  | many (a : Regex α)

variable {α : Type}

/-- One of the two neighbours is a word character. -/
def Cursor.isBoundary (word : α → Bool) (s : Cursor α) : Bool := s.prev.any word != s.rest.head?.any word

/-- As many steps as possible first; a step that reads nothing is not taken. -/
def iterate (step : Cursor α → List (Cursor α)) : Nat → Cursor α → List (Cursor α)
  | 0, s => [s]
  | n + 1, s => ((step s).filter fun t => t.rest.length < s.rest.length).flatMap (iterate step n) ++ [s]

namespace Regex

/-- Where the matches at a cursor end, in the order the engine tries them. -/
def ends : Regex α → Cursor α → List (Cursor α)
  | set p, s =>
    match s.rest with
    | [] => []
    | c :: rest => if p c then [⟨some c, rest⟩] else []
  | boundary word, s => if s.isBoundary word then [s] else []
  | empty, s => [s]
  | seq a b, s => (ends a s).flatMap (ends b)
  | alt a b, s => ends a s ++ ends b s
  | many a, s => iterate (ends a) s.rest.length s

/-- The characters of a text, one after the other. -/
def text [DecidableEq α] : List α → Regex α
  | [] => empty
  | c :: rest => seq (set fun d => d = c) (text rest)

/-- One of several patterns, the first first. -/
def oneOf : Regex α → List (Regex α) → Regex α
  | a, [] => a
  | a, b :: rest => alt a (oneOf b rest)

/-- `a{n}` followed by `b`. -/
def times (n : Nat) (a b : Regex α) : Regex α := n.repeat (seq a) b

/-- `a+` of one set. -/
def plus (p : α → Bool) : Regex α := seq (set p) (many (set p))

/-- `a{n,}` of one set. -/
def atLeast (n : Nat) (p : α → Bool) : Regex α := times n (set p) (many (set p))

/-- `a?`, rather with it than without. -/
def optional (a : Regex α) : Regex α := alt a empty

/-! ## §2 — Ends -/

/-- Steps that each read something. -/
inductive Runs (step : Cursor α → List (Cursor α)) : Cursor α → Cursor α → Prop
  | done (s : Cursor α) : Runs step s s
  | next {s t u : Cursor α} (hstep : t ∈ step s) (hless : t.rest.length < s.rest.length) (hrest : Runs step t u) :
      Runs step s u

theorem runs_of_mem_iterate {step : Cursor α → List (Cursor α)} {n : Nat} {s t : Cursor α} (h : t ∈ iterate step n s) :
    Runs step s t := by
  induction n generalizing s with
  | zero =>
    rw [List.mem_singleton.mp h]
    exact .done s
  | succ n ih =>
    rw [iterate] at h
    rcases List.mem_append.mp h with h | h
    · obtain ⟨u, hu, ht⟩ := List.mem_flatMap.mp h
      obtain ⟨hstep, hless⟩ := List.mem_filter.mp hu
      exact .next hstep (of_decide_eq_true hless) (ih ht)
    · rw [List.mem_singleton.mp h]
      exact .done s

theorem mem_iterate_of_runs {step : Cursor α → List (Cursor α)} {s t : Cursor α} (h : Runs step s t) {n : Nat}
    (hn : s.rest.length ≤ n) : t ∈ iterate step n s := by
  induction h generalizing n with
  | done s => cases n <;> simp [iterate]
  | @next s u t hstep hless _ ih =>
    cases n with
    | zero => omega
    | succ n =>
      rw [iterate]
      apply List.mem_append_left
      refine List.mem_flatMap.mpr ⟨u, List.mem_filter.mpr ⟨hstep, decide_eq_true hless⟩, ih (by omega)⟩

theorem mem_ends_many {a : Regex α} {s t : Cursor α} : t ∈ (many a).ends s ↔ Runs a.ends s t :=
  ⟨runs_of_mem_iterate, fun h => mem_iterate_of_runs h (Nat.le_refl _)⟩

theorem mem_ends_set {p : α → Bool} {s t : Cursor α} :
    t ∈ (set p).ends s ↔ ∃ c rest, s.rest = c :: rest ∧ p c = true ∧ t = ⟨some c, rest⟩ := by
  rw [ends]
  split
  · next hnil => simp [hnil]
  · next c rest hcons =>
      rw [hcons]
      split
      · next hp =>
          rw [List.mem_singleton]
          constructor
          · exact fun h => ⟨c, rest, rfl, hp, h⟩
          · rintro ⟨c', rest', heq, -, rfl⟩
            obtain ⟨rfl, rfl⟩ := List.cons.inj heq
            rfl
      · next hp =>
          simp only [List.not_mem_nil, false_iff]
          rintro ⟨c', rest', heq, hp', -⟩
          rw [(List.cons.inj heq).1] at hp
          exact hp hp'

theorem mem_ends_boundary {word : α → Bool} {s t : Cursor α} :
    t ∈ (boundary word).ends s ↔ s.isBoundary word = true ∧ t = s := by
  rw [ends]
  split
  · next h => simp [h]
  · next h => simp [h]

theorem mem_ends_seq {a b : Regex α} {s u : Cursor α} : u ∈ (seq a b).ends s ↔ ∃ t ∈ a.ends s, u ∈ b.ends t := by
  rw [ends, List.mem_flatMap]

theorem mem_ends_alt {a b : Regex α} {s t : Cursor α} : t ∈ (alt a b).ends s ↔ t ∈ a.ends s ∨ t ∈ b.ends s := by
  rw [ends, List.mem_append]

/-- The pattern's sets of characters all have one property, and its sets of word characters another. -/
def Over (P B : (α → Bool) → Prop) : Regex α → Prop
  | set p => P p
  | boundary word => B word
  | empty => True
  | seq a b => Over P B a ∧ Over P B b
  | alt a b => Over P B a ∧ Over P B b
  | many a => Over P B a

/-- **A match is carried over** along a relation of cursors that a character and a boundary keep: what the pattern reads
on one side it reads on the other. -/
theorem ends_carried {K : Cursor α → Cursor α → Prop} {q : Regex α}
    (hq : q.Over (fun p => ∀ s s' c rest, K s s' → s.rest = c :: rest → p c = true →
        ∃ rest', s'.rest = c :: rest' ∧ K ⟨some c, rest⟩ ⟨some c, rest'⟩)
      (fun word => ∀ s s', K s s' → s.isBoundary word = true → s'.isBoundary word = true))
    {s s' t : Cursor α} (hs : K s s') (h : t ∈ q.ends s) :
    ∃ t' ∈ q.ends s', K t t' ∧ s.rest.length + t'.rest.length = t.rest.length + s'.rest.length := by
  induction q generalizing s s' t with
  | set p =>
    obtain ⟨c, rest, hrest, hp, rfl⟩ := mem_ends_set.mp h
    obtain ⟨rest', hrest', hK⟩ := hq s s' c rest hs hrest hp
    refine ⟨⟨some c, rest'⟩, mem_ends_set.mpr ⟨c, rest', hrest', hp, rfl⟩, hK, ?_⟩
    rw [hrest, hrest', List.length_cons, List.length_cons]
    show rest.length + 1 + rest'.length = rest.length + (rest'.length + 1)
    omega
  | boundary word =>
    obtain ⟨hboundary, rfl⟩ := mem_ends_boundary.mp h
    exact ⟨s', mem_ends_boundary.mpr ⟨hq t s' hs hboundary, rfl⟩, hs, rfl⟩
  | empty =>
    obtain rfl := List.mem_singleton.mp h
    exact ⟨s', List.mem_singleton.mpr rfl, hs, rfl⟩
  | seq a b iha ihb =>
    obtain ⟨u, hu, ht⟩ := mem_ends_seq.mp h
    obtain ⟨u', hu', hK, hlen⟩ := iha hq.1 hs hu
    obtain ⟨t', ht', hK', hlen'⟩ := ihb hq.2 hK ht
    exact ⟨t', mem_ends_seq.mpr ⟨u', hu', ht'⟩, hK', by omega⟩
  | alt a b iha ihb =>
    rcases mem_ends_alt.mp h with h | h
    · obtain ⟨t', ht', hrest⟩ := iha hq.1 hs h
      exact ⟨t', mem_ends_alt.mpr (.inl ht'), hrest⟩
    · obtain ⟨t', ht', hrest⟩ := ihb hq.2 hs h
      exact ⟨t', mem_ends_alt.mpr (.inr ht'), hrest⟩
  | many a iha =>
    have hruns := mem_ends_many.mp h
    clear h
    induction hruns generalizing s' with
    | done s => exact ⟨s', mem_ends_many.mpr (.done s'), hs, rfl⟩
    | next hstep hless _ ih =>
      obtain ⟨u', hu', hK, hlen⟩ := iha hq hs hstep
      obtain ⟨t', ht', hK', hlen'⟩ := ih hK
      exact ⟨t', mem_ends_many.mpr (.next hu' (by omega) (mem_ends_many.mp ht')), hK', by omega⟩

theorem ends_keeps {J : Cursor α → Prop} {q : Regex α}
    (hq : q.Over (fun p => ∀ s c rest, J s → s.rest = c :: rest → p c = true → J ⟨some c, rest⟩) (fun _ => True))
    {s t : Cursor α} (hs : J s) (h : t ∈ q.ends s) : J t := by
  have hcarried : q.Over (fun p => ∀ s s' c rest, s' = s ∧ J s → s.rest = c :: rest → p c = true →
        ∃ rest', s'.rest = c :: rest' ∧ (⟨some c, rest'⟩ : Cursor α) = ⟨some c, rest⟩ ∧ J ⟨some c, rest⟩)
      (fun word => ∀ s s' : Cursor α, s' = s ∧ J s → s.isBoundary word = true → s'.isBoundary word = true) := by
    clear h
    induction q with
    | set p =>
      rintro s s' c rest ⟨rfl, hs⟩ hrest hp
      exact ⟨rest, hrest, rfl, hq s' c rest hs hrest hp⟩
    | boundary word =>
      rintro s _ ⟨rfl, -⟩ hboundary
      exact hboundary
    | empty => trivial
    | seq a b iha ihb => exact ⟨iha hq.1, ihb hq.2⟩
    | alt a b iha ihb => exact ⟨iha hq.1, ihb hq.2⟩
    | many a iha => exact iha hq
  obtain ⟨t', -, hK, -⟩ := ends_carried (K := fun s s' => s' = s ∧ J s) hcarried ⟨rfl, hs⟩ h
  exact hK.2

/-- **A match is local**: what the pattern reads it reads also where the same characters follow, if the neighbours on
both sides are word characters as before. -/
theorem ends_local {q : Regex α} {word : α → Bool} (hq : q.Over (fun _ => True) (· = word)) {s t : Cursor α}
    (h : t ∈ q.ends s) : ∃ y, s.rest = y ++ t.rest ∧ ∀ (s' : Cursor α) (b : List α), s'.rest = y ++ b →
      s'.prev.any word = s.prev.any word → b.head?.any word = t.rest.head?.any word →
        ∃ t' ∈ q.ends s', t'.rest = b ∧ t'.prev.any word = t.prev.any word := by
  have hhead : ∀ {y b z : List α}, b.head?.any word = z.head?.any word →
      (y ++ b).head?.any word = (y ++ z).head?.any word := by
    intro y b z h
    cases y with
    | nil => exact h
    | cons c y => rfl
  induction q generalizing s t with
  | set p =>
    obtain ⟨c, rest, hrest, hp, rfl⟩ := mem_ends_set.mp h
    exact ⟨[c], hrest, fun s' b hrest' _ _ => ⟨⟨some c, b⟩, mem_ends_set.mpr ⟨c, b, hrest', hp, rfl⟩, rfl, rfl⟩⟩
  | boundary word' =>
    obtain rfl : word' = word := hq
    obtain ⟨hboundary, rfl⟩ := mem_ends_boundary.mp h
    refine ⟨[], rfl, fun s' b hrest' hprev hnext => ⟨s', mem_ends_boundary.mpr ⟨?_, rfl⟩, hrest', hprev⟩⟩
    rwa [Cursor.isBoundary, hprev, hrest', List.nil_append, hnext]
  | empty =>
    obtain rfl := List.mem_singleton.mp h
    exact ⟨[], rfl, fun s' b hrest' hprev _ => ⟨s', List.mem_singleton.mpr rfl, hrest', hprev⟩⟩
  | seq a b iha ihb =>
    obtain ⟨u, hu, ht⟩ := mem_ends_seq.mp h
    obtain ⟨y, hy, hfirst⟩ := iha hq.1 hu
    obtain ⟨z, hz, hsecond⟩ := ihb hq.2 ht
    refine ⟨y ++ z, by rw [hy, hz, List.append_assoc], fun s' after hrest' hprev hnext => ?_⟩
    obtain ⟨u', hu', hrest, hprev'⟩ := hfirst s' (z ++ after) (by rw [hrest', List.append_assoc]) hprev
      (by rw [hz]; exact hhead hnext)
    obtain ⟨t', ht', hlast⟩ := hsecond u' after hrest hprev' hnext
    exact ⟨t', mem_ends_seq.mpr ⟨u', hu', ht'⟩, hlast⟩
  | alt a b iha ihb =>
    rcases mem_ends_alt.mp h with h | h
    · obtain ⟨y, hy, hlocal⟩ := iha hq.1 h
      refine ⟨y, hy, fun s' after hrest' hprev hnext => ?_⟩
      obtain ⟨t', ht', hlast⟩ := hlocal s' after hrest' hprev hnext
      exact ⟨t', mem_ends_alt.mpr (.inl ht'), hlast⟩
    · obtain ⟨y, hy, hlocal⟩ := ihb hq.2 h
      refine ⟨y, hy, fun s' after hrest' hprev hnext => ?_⟩
      obtain ⟨t', ht', hlast⟩ := hlocal s' after hrest' hprev hnext
      exact ⟨t', mem_ends_alt.mpr (.inr ht'), hlast⟩
  | many a iha =>
    have hruns := mem_ends_many.mp h
    clear h
    induction hruns with
    | done s =>
      exact ⟨[], rfl, fun s' b hrest' hprev _ => ⟨s', mem_ends_many.mpr (.done s'), hrest', hprev⟩⟩
    | next hstep hless _ ih =>
      obtain ⟨y, hy, hfirst⟩ := iha hq hstep
      obtain ⟨z, hz, hsecond⟩ := ih
      refine ⟨y ++ z, by rw [hy, hz, List.append_assoc], fun s' after hrest' hprev hnext => ?_⟩
      obtain ⟨u', hu', hrest, hprev'⟩ := hfirst s' (z ++ after) (by rw [hrest', List.append_assoc]) hprev
        (by rw [hz]; exact hhead hnext)
      obtain ⟨t', ht', hlast⟩ := hsecond u' after hrest hprev' hnext
      have hshorter : u'.rest.length < s'.rest.length := by
        rw [hy, List.length_append] at hless
        simp only [hrest, hrest', List.length_append]
        omega
      exact ⟨t', mem_ends_many.mpr (.next hu' hshorter (mem_ends_many.mp ht')), hlast⟩

/-- Every match reads something. -/
def Consuming : Regex α → Bool
  | set _ => true
  | boundary _ | empty | many _ => false
  | seq a b => Consuming a || Consuming b
  | alt a b => Consuming a && Consuming b

theorem ends_suffix {q : Regex α} {s t : Cursor α} (h : t ∈ q.ends s) : t.rest.length ≤ s.rest.length := by
  induction q generalizing s t with
  | set p =>
    obtain ⟨c, rest, hrest, -, rfl⟩ := mem_ends_set.mp h
    rw [hrest]
    exact Nat.le_succ _
  | boundary word =>
    obtain ⟨-, rfl⟩ := mem_ends_boundary.mp h
    exact Nat.le_refl _
  | empty =>
    obtain rfl := List.mem_singleton.mp h
    exact Nat.le_refl _
  | seq a b iha ihb =>
    obtain ⟨u, hu, ht⟩ := mem_ends_seq.mp h
    exact Nat.le_trans (ihb ht) (iha hu)
  | alt a b iha ihb =>
    rcases mem_ends_alt.mp h with h | h
    · exact iha h
    · exact ihb h
  | many a iha =>
    have hruns := mem_ends_many.mp h
    clear h
    induction hruns with
    | done s => exact Nat.le_refl _
    | next hstep hless _ ih => exact Nat.le_trans ih (Nat.le_of_lt hless)

theorem ends_less {q : Regex α} (hq : q.Consuming = true) {s t : Cursor α} (h : t ∈ q.ends s) :
    t.rest.length < s.rest.length := by
  induction q generalizing s t with
  | set p =>
    obtain ⟨c, rest, hrest, -, rfl⟩ := mem_ends_set.mp h
    rw [hrest]
    exact Nat.lt_succ_self _
  | boundary word => cases hq
  | empty => cases hq
  | many a => cases hq
  | seq a b iha ihb =>
    obtain ⟨u, hu, ht⟩ := mem_ends_seq.mp h
    rcases Bool.or_eq_true_iff.mp hq with hq | hq
    · exact Nat.lt_of_le_of_lt (ends_suffix ht) (iha hq hu)
    · exact Nat.lt_of_lt_of_le (ihb hq ht) (ends_suffix hu)
  | alt a b iha ihb =>
    obtain ⟨ha, hb⟩ := Bool.and_eq_true_iff.mp hq
    rcases mem_ends_alt.mp h with h | h
    · exact iha ha h
    · exact ihb hb h

theorem head_ends_many {p : α → Bool} {s t : Cursor α} (h : ((many (set p)).ends s).head? = some t) :
    t.rest.head?.any p = false := by
  have hiterate : ∀ (n : Nat) (s : Cursor α), s.rest.length ≤ n →
      ((iterate (set p).ends n s).head?).any (fun t => t.rest.head?.any p) = false := by
    intro n
    induction n with
    | zero =>
      intro s hs
      have hnil : s.rest = [] := List.eq_nil_of_length_eq_zero (by omega)
      simp [iterate, hnil]
    | succ n ih =>
      intro s hs
      rw [iterate, ends]
      split
      · next hnil => simp [hnil]
      · next c rest hcons =>
          split
          · next hp =>
              have hlen : s.rest.length = rest.length + 1 := by rw [hcons, List.length_cons]
              have hless : rest.length < s.rest.length := by omega
              have hfuel : rest.length ≤ n := by omega
              have hkeep : ([⟨some c, rest⟩] : List (Cursor α)).filter (fun t => t.rest.length < s.rest.length) =
                  [⟨some c, rest⟩] := by
                apply List.filter_eq_self.mpr
                intro t ht
                rw [List.mem_singleton.mp ht]
                exact decide_eq_true hless
              rw [hkeep, List.flatMap_singleton]
              have hrest := ih ⟨some c, rest⟩ hfuel
              have hne : iterate (set p).ends n ⟨some c, rest⟩ ≠ [] := by cases n <;> simp [iterate]
              rwa [List.head?_append_of_ne_nil _ hne]
          · next hp => simp [hcons, hp]
  have hall := hiterate s.rest.length s (Nat.le_refl _)
  rw [show iterate (set p).ends s.rest.length s = (many (set p)).ends s from rfl, h] at hall
  exact hall

theorem head_ends_seq {Q : Cursor α → Prop} {a b : Regex α} (hb : ∀ s t, (b.ends s).head? = some t → Q t)
    {s t : Cursor α} (h : ((seq a b).ends s).head? = some t) : Q t := by
  rw [ends] at h
  generalize a.ends s = firsts at h
  induction firsts with
  | nil => cases h
  | cons u firsts ih =>
    rw [List.flatMap_cons] at h
    cases hu : b.ends u with
    | nil =>
      rw [hu, List.nil_append] at h
      exact ih h
    | cons v vs =>
      rw [hu] at h
      exact hb u t (by rw [hu]; exact h)

theorem head_of_ends {P : α → Bool} {q : Regex α} (hq : q.Over (fun p => ∀ c, p c = true → P c = true) (fun _ => True))
    (hconsuming : q.Consuming = true) {s t : Cursor α} (h : t ∈ q.ends s) : s.rest.head?.any P = true := by
  have hkeeps : t.rest = s.rest ∨ s.rest.head?.any P = true := by
    refine ends_keeps (J := fun u => u.rest = s.rest ∨ s.rest.head?.any P = true) ?_ (.inl rfl) h
    clear h hconsuming
    induction q with
    | set p =>
      rintro u c rest (hu | hu) hrest hp
      · right
        rw [← hu, hrest]
        exact hq c hp
      · exact .inr hu
    | boundary word => trivial
    | empty => trivial
    | seq a b iha ihb => exact ⟨iha hq.1, ihb hq.2⟩
    | alt a b iha ihb => exact ⟨iha hq.1, ihb hq.2⟩
    | many a iha => exact iha hq
  rcases hkeeps with heq | hany
  · have hless := ends_less hconsuming h
    rw [heq] at hless
    exact absurd hless (Nat.lt_irrefl _)
  · exact hany

theorem Over.imp {P P' B B' : (α → Bool) → Prop} {q : Regex α} (h : q.Over P B) (hP : ∀ p, P p → P' p)
    (hB : ∀ word, B word → B' word) : q.Over P' B' := by
  induction q with
  | set p => exact hP p h
  | boundary word => exact hB word h
  | empty => trivial
  | seq a b iha ihb => exact ⟨iha h.1, ihb h.2⟩
  | alt a b iha ihb => exact ⟨iha h.1, ihb h.2⟩
  | many a iha => exact iha h

theorem over_of_forall {P B : (α → Bool) → Prop} (hP : ∀ p, P p) (hB : ∀ word, B word) (q : Regex α) : q.Over P B := by
  induction q with
  | set p => exact hP p
  | boundary word => exact hB word
  | empty => trivial
  | seq a b iha ihb => exact ⟨iha, ihb⟩
  | alt a b iha ihb => exact ⟨iha, ihb⟩
  | many a iha => exact iha

theorem over_text [DecidableEq α] {P B : (α → Bool) → Prop} {t : List α} (h : ∀ c ∈ t, P fun d => d = c) :
    (text t).Over P B := by
  induction t with
  | nil => trivial
  | cons c t ih =>
    obtain ⟨hc, ht⟩ := List.forall_mem_cons.mp h
    exact ⟨hc, ih ht⟩

theorem over_oneOf {P B : (α → Bool) → Prop} {a : Regex α} {rest : List (Regex α)} (ha : a.Over P B)
    (h : ∀ b ∈ rest, b.Over P B) : (oneOf a rest).Over P B := by
  induction rest generalizing a with
  | nil => exact ha
  | cons b rest ih =>
    obtain ⟨hb, hrest⟩ := List.forall_mem_cons.mp h
    exact ⟨ha, ih hb hrest⟩

theorem over_times {P B : (α → Bool) → Prop} {a b : Regex α} (n : Nat) (ha : a.Over P B) (hb : b.Over P B) :
    (times n a b).Over P B := by
  induction n with
  | zero => exact hb
  | succ n ih => exact ⟨ha, ih⟩

theorem ends_set_eq_nil {p : α → Bool} {s : Cursor α} {c : α} {rest : List α} (hrest : s.rest = c :: rest)
    (hc : p c = false) : (set p).ends s = [] := by
  simp [ends, hrest, hc]

theorem ends_many_ne_nil (a : Regex α) (s : Cursor α) : (many a).ends s ≠ [] :=
  List.ne_nil_of_mem (mem_ends_many.mpr (.done s))

theorem ends_seq_eq_nil {a b : Regex α} {s : Cursor α} (h : ∀ t ∈ a.ends s, b.ends t = []) : (seq a b).ends s = [] := by
  rw [ends, List.flatMap_eq_nil_iff]
  exact h

theorem ends_seq_eq_nil_of_left {a : Regex α} (b : Regex α) {s : Cursor α} (h : a.ends s = []) :
    (seq a b).ends s = [] :=
  ends_seq_eq_nil fun t ht => by
    rw [h] at ht
    cases ht

theorem ends_boundary_seq {word : α → Bool} {a : Regex α} {s : Cursor α} (h : a.ends s = []) :
    (seq (boundary word) a).ends s = [] :=
  ends_seq_eq_nil fun t ht => by
    rw [(mem_ends_boundary.mp ht).2]
    exact h

end Regex

/-! ## §3 — Occurrences and replacements -/

/-- The cursors of a text, in order. -/
def cursors : Option α → List α → List (Cursor α)
  | prev, [] => [⟨prev, []⟩]
  | prev, c :: rest => ⟨prev, c :: rest⟩ :: cursors (some c) rest

/-- The pattern matches somewhere in the text. -/
def Occurs (q : Regex α) (text : List α) : Prop := ∃ s ∈ cursors none text, q.ends s ≠ []

/-- A pattern whose matches all read something. -/
structure Pattern (α : Type) where
  regex : Regex α
  consuming : regex.Consuming = true

variable (r : Pattern α)

/-- Replace from a cursor on; every round reads something. -/
def subWith (w : List α) : Nat → Cursor α → List α
  | 0, s => s.rest
  | n + 1, s =>
    match (r.regex.ends s).head? with
    | some t => w ++ subWith w n t
    | none =>
      match s.rest with
      | [] => []
      | c :: rest => c :: subWith w n ⟨some c, rest⟩

/-- The rest of a text with what the pattern takes of it replaced. -/
def subFrom (w : List α) (s : Cursor α) : List α := subWith r w s.rest.length s

/-- `pattern.sub(w, text)` -/
def Pattern.sub (w text : List α) : List α := subFrom r w ⟨none, text⟩

variable {r} {w : List α}

theorem ends_eq_nil_of_rest {s : Cursor α} (h : s.rest = []) : r.regex.ends s = [] := by
  apply List.eq_nil_iff_forall_not_mem.mpr
  intro t ht
  have hless := Regex.ends_less r.consuming ht
  rw [h] at hless
  exact Nat.not_lt_zero _ hless

theorem subWith_eq {n m : Nat} {s : Cursor α} (hn : s.rest.length ≤ n) (hm : s.rest.length ≤ m) :
    subWith r w n s = subWith r w m s := by
  induction n generalizing m s with
  | zero =>
    have hnil : s.rest = [] := List.eq_nil_of_length_eq_zero (by omega)
    cases m with
    | zero => rfl
    | succ m => rw [subWith, subWith, ends_eq_nil_of_rest hnil, hnil]; rfl
  | succ n ih =>
    cases m with
    | zero =>
      have hnil : s.rest = [] := List.eq_nil_of_length_eq_zero (by omega)
      rw [subWith, subWith, ends_eq_nil_of_rest hnil, hnil]
      rfl
    | succ m =>
      rw [subWith, subWith]
      split
      · next t ht =>
          have hless := Regex.ends_less r.consuming (List.mem_of_mem_head? ht)
          rw [ih (m := m) (by omega) (by omega)]
      · split
        · rfl
        · next c rest hrest =>
            rw [hrest, List.length_cons] at hn hm
            have hn' : rest.length ≤ n := by omega
            have hm' : rest.length ≤ m := by omega
            exact congrArg (c :: ·) (ih hn' hm')

theorem subFrom_taken {s t : Cursor α} (h : (r.regex.ends s).head? = some t) : subFrom r w s = w ++ subFrom r w t := by
  have hless := Regex.ends_less r.consuming (List.mem_of_mem_head? h)
  obtain ⟨n, hn⟩ : ∃ n, s.rest.length = n + 1 := ⟨s.rest.length - 1, by omega⟩
  rw [subFrom, hn, subWith, h]
  exact congrArg (w ++ ·) (subWith_eq (by omega) (Nat.le_refl _))

theorem subFrom_cons {s : Cursor α} {c : α} {rest : List α} (h : r.regex.ends s = []) (hrest : s.rest = c :: rest) :
    subFrom r w s = c :: subFrom r w ⟨some c, rest⟩ := by
  rw [subFrom, hrest, List.length_cons, subWith, h, hrest]
  rfl

theorem subFrom_nil {s : Cursor α} (h : s.rest = []) : subFrom r w s = [] := by
  rw [subFrom, h, List.length_nil, subWith, h]

theorem next_mem_cursors {prev : Option α} {text : List α} {s : Cursor α} {c : α} {rest : List α}
    (h : s ∈ cursors prev text) (hrest : s.rest = c :: rest) : ⟨some c, rest⟩ ∈ cursors prev text := by
  induction text generalizing prev with
  | nil =>
    rw [List.mem_singleton.mp h] at hrest
    cases hrest
  | cons d text ih =>
    rw [cursors] at h ⊢
    rcases List.mem_cons.mp h with rfl | h
    · obtain ⟨rfl, rfl⟩ := List.cons.inj hrest
      cases text <;> simp [cursors]
    · exact List.mem_cons_of_mem _ (ih h)

theorem mem_cursors_self (s : Cursor α) : s ∈ cursors s.prev s.rest := by
  obtain ⟨prev, rest⟩ := s
  cases rest <;> simp [cursors]

theorem mem_cursors {prev : Option α} {text : List α} {s : Cursor α} :
    s ∈ cursors prev text ↔ ∃ x, text = x ++ s.rest ∧ s.prev = x.getLast?.or prev := by
  induction text generalizing prev with
  | nil =>
    obtain ⟨before, rest⟩ := s
    constructor
    · intro h
      obtain ⟨rfl, rfl⟩ := Cursor.mk.inj (List.mem_singleton.mp h)
      exact ⟨[], rfl, rfl⟩
    · rintro ⟨x, hx, hprev⟩
      obtain ⟨rfl, rfl⟩ := List.append_eq_nil_iff.mp hx.symm
      exact List.mem_singleton.mpr (by rw [Cursor.mk.injEq]; exact ⟨hprev, rfl⟩)
  | cons c text ih =>
    rw [cursors, List.mem_cons, ih]
    constructor
    · rintro (rfl | ⟨x, hx, hprev⟩)
      · exact ⟨[], rfl, rfl⟩
      · refine ⟨c :: x, congrArg (c :: ·) hx, hprev.trans ?_⟩
        cases x <;> simp [List.getLast?_cons]
    · rintro ⟨x, hx, hprev⟩
      cases x with
      | nil =>
        obtain ⟨before, rest⟩ := s
        exact .inl (by rw [Cursor.mk.injEq]; exact ⟨hprev, hx.symm⟩)
      | cons d x =>
        obtain ⟨rfl, htext⟩ := List.cons.inj hx
        refine .inr ⟨x, htext, hprev.trans ?_⟩
        cases x <;> simp [List.getLast?_cons]

theorem cursors_subset {prev : Option α} {text : List α} {s : Cursor α} (h : s ∈ cursors prev text) :
    cursors s.prev s.rest ⊆ cursors prev text := by
  obtain ⟨before, rest⟩ := s
  dsimp only
  induction rest generalizing before with
  | nil =>
    intro t ht
    rwa [List.mem_singleton.mp ht]
  | cons c rest ih =>
    intro t ht
    rcases List.mem_cons.mp ht with rfl | ht
    · exact h
    · exact ih (some c) (next_mem_cursors h rfl) ht

theorem ends_mem_cursors {q : Regex α} {s t : Cursor α} (h : t ∈ q.ends s) : t ∈ cursors s.prev s.rest := by
  refine Regex.ends_keeps (J := fun t => t ∈ cursors s.prev s.rest) (Regex.over_of_forall ?_ (fun _ => trivial) q)
    (mem_cursors_self s) h
  intro p u c rest hu hrest _
  exact next_mem_cursors hu hrest

/-- The pattern reads a stretch where it stands. -/
def Regex.Matches (q : Regex α) (before stretch after : List α) : Prop :=
  ∃ t ∈ q.ends ⟨before.getLast?, stretch ++ after⟩, t.rest = after

theorem occurs_iff {q : Regex α} {text : List α} :
    Occurs q text ↔ ∃ before stretch after, text = before ++ stretch ++ after ∧ q.Matches before stretch after := by
  constructor
  · rintro ⟨⟨prev, rest⟩, hs, hne⟩
    obtain ⟨t, ht⟩ := List.exists_mem_of_ne_nil _ hne
    obtain ⟨before, rfl, rfl⟩ := mem_cursors.mp hs
    obtain ⟨stretch, rfl, -⟩ := mem_cursors.mp (ends_mem_cursors ht)
    rw [Option.or_none] at ht
    exact ⟨before, stretch, t.rest, (List.append_assoc _ _ _).symm, t, ht, rfl⟩
  · rintro ⟨before, stretch, after, rfl, t, ht, -⟩
    refine ⟨_, mem_cursors.mpr ⟨before, ?_, ?_⟩, List.ne_nil_of_mem ht⟩
    · rw [List.append_assoc]
    · rw [Option.or_none]

/-- It reads the stretch also between other neighbours, if they are word characters as before. -/
theorem Regex.Matches.elsewhere {q : Regex α} {word : α → Bool} (hq : q.Over (fun _ => True) (· = word))
    {before stretch after before' after' : List α} (h : q.Matches before stretch after)
    (hprev : before'.getLast?.any word = before.getLast?.any word)
    (hnext : after'.head?.any word = after.head?.any word) : q.Matches before' stretch after' := by
  obtain ⟨t, ht, rfl⟩ := h
  obtain ⟨y, hy, hlocal⟩ := Regex.ends_local hq ht
  obtain rfl := List.append_cancel_right hy
  obtain ⟨t', ht', hrest, -⟩ := hlocal ⟨before'.getLast?, stretch ++ after'⟩ after' rfl hprev hnext
  exact ⟨t', ht', hrest⟩

theorem sub_of_not_occurs {text : List α} (h : ¬ Occurs r.regex text) : r.sub w text = text := by
  have hall : ∀ (n : Nat) (s : Cursor α), s.rest.length = n → s ∈ cursors none text → subFrom r w s = s.rest := by
    intro n
    induction n with
    | zero =>
      intro s hs _
      have hnil := List.eq_nil_of_length_eq_zero hs
      rw [subFrom_nil hnil, hnil]
    | succ n ih =>
      intro s hs hmem
      obtain ⟨c, rest, hrest⟩ := List.exists_cons_of_length_eq_add_one hs
      have hnone : r.regex.ends s = [] := by
        by_contra hne
        exact h ⟨s, hmem, hne⟩
      have hlen : rest.length = n := by
        rw [hrest, List.length_cons] at hs
        omega
      rw [subFrom_cons hnone hrest, ih ⟨some c, rest⟩ hlen (next_mem_cursors hmem hrest), hrest]
  exact hall _ ⟨none, text⟩ rfl (mem_cursors_self ⟨none, text⟩)

/-! ## §4 — What replacing leaves -/

section Brackets

variable (r) (word : α → Bool) (opening closing : α) (inside : List α)

/-- The replacement. -/
def bracketed : List α := opening :: (inside ++ [closing])

/-- What the pattern takes starts at a boundary, and ends at one or not before a word character. -/
def Guarded : Prop :=
  ∀ s t : Cursor α, (r.regex.ends s).head? = some t →
    s.isBoundary word = true ∧ (t.rest.head?.any word = true → t.isBoundary word = true)

/-- A cursor of the replaced text outside of the replacements, and where it stood in the text. -/
structure Kept (s' s : Cursor α) : Prop where
  rest : s'.rest = subFrom r (bracketed opening closing inside) s
  boundary : Guarded r word → s'.isBoundary word = true → s.isBoundary word = true

/-- A cursor inside a replacement. -/
def Inside (s' : Cursor α) : Prop := ∃ before after, s'.rest = before ++ closing :: after ∧ ∀ c ∈ before, c ∈ inside

variable {r word opening closing inside}

theorem boundary_sub (hguarded : Guarded r word) {s : Cursor α}
    (h : Cursor.isBoundary word ⟨s.prev, subFrom r (bracketed opening closing inside) s⟩ = true) :
    s.isBoundary word = true := by
  cases htaken : (r.regex.ends s).head? with
  | some t => exact (hguarded s t htaken).1
  | none =>
    have hnone := List.head?_eq_none_iff.mp htaken
    cases hrest : s.rest with
    | nil =>
      rw [subFrom_nil hrest] at h
      simpa [Cursor.isBoundary, hrest] using h
    | cons c rest =>
      rw [subFrom_cons hnone hrest] at h
      simpa [Cursor.isBoundary, hrest] using h

theorem boundary_closing (hopening : word opening = false) (hclosing : word closing = false)
    (hguarded : Guarded r word) {s t : Cursor α} (htaken : (r.regex.ends s).head? = some t)
    (h : Cursor.isBoundary word ⟨some closing, subFrom r (bracketed opening closing inside) t⟩ = true) :
    t.isBoundary word = true := by
  apply (hguarded s t htaken).2
  simp only [Cursor.isBoundary, Option.any_some, hclosing, Bool.false_bne] at h
  cases hnext : (r.regex.ends t).head? with
  | some u =>
    rw [subFrom_taken hnext] at h
    simp [bracketed, hopening] at h
  | none =>
    have hnone := List.head?_eq_none_iff.mp hnext
    cases hrest : t.rest with
    | nil =>
      rw [subFrom_nil hrest] at h
      cases h
    | cons c rest =>
      rw [subFrom_cons hnone hrest] at h
      exact h

theorem Kept.start (s : Cursor α) :
    Kept r word opening closing inside ⟨s.prev, subFrom r (bracketed opening closing inside) s⟩ s :=
  ⟨rfl, fun hguarded => boundary_sub hguarded⟩

theorem Kept.next {s' s : Cursor α} (h : Kept r word opening closing inside s' s)
    {c : α} {rest : List α} (hrest : s'.rest = c :: rest) (hc : c ≠ opening) :
    ∃ rest', s.rest = c :: rest' ∧ r.regex.ends s = [] ∧
      Kept r word opening closing inside ⟨some c, rest⟩ ⟨some c, rest'⟩ := by
  have hsub := h.rest.symm.trans hrest
  cases htaken : (r.regex.ends s).head? with
  | some t =>
    rw [subFrom_taken htaken] at hsub
    exact absurd (List.cons.inj hsub).1.symm hc
  | none =>
    have hnone := List.head?_eq_none_iff.mp htaken
    cases hs : s.rest with
    | nil =>
      rw [subFrom_nil hs] at hsub
      cases hsub
    | cons d rest' =>
      rw [subFrom_cons hnone hs] at hsub
      obtain ⟨rfl, rfl⟩ := List.cons.inj hsub
      exact ⟨rest', rfl, hnone, Kept.start ⟨some d, rest'⟩⟩

theorem inside_of_mem_cursors {prev : Option α} {before after : List α} {s' : Cursor α}
    (hbefore : ∀ c ∈ before, c ∈ inside) (h : s' ∈ cursors prev (before ++ closing :: after)) :
    Inside closing inside s' ∨ s' ∈ cursors (some closing) after := by
  induction before generalizing prev with
  | nil =>
    rw [List.nil_append, cursors] at h
    rcases List.mem_cons.mp h with rfl | h
    · exact .inl ⟨[], after, rfl, fun c hc => nomatch hc⟩
    · exact .inr h
  | cons c before ih =>
    rw [List.cons_append, cursors] at h
    rcases List.mem_cons.mp h with rfl | h
    · exact .inl ⟨c :: before, after, rfl, hbefore⟩
    · exact ih (fun d hd => hbefore d (List.mem_cons_of_mem _ hd)) h

/-- **Every cursor of the replaced text** stood somewhere in the text, or is inside a replacement. -/
theorem kept_or_inside (hopening : word opening = false) (hclosing : word closing = false) {s : Cursor α}
    {prev : Option α} {s' : Cursor α}
    (hkept : Kept r word opening closing inside ⟨prev, subFrom r (bracketed opening closing inside) s⟩ s)
    (h : s' ∈ cursors prev (subFrom r (bracketed opening closing inside) s)) :
    (∃ t ∈ cursors s.prev s.rest, Kept r word opening closing inside s' t) ∨ Inside closing inside s' := by
  generalize hn : s.rest.length = n
  induction n using Nat.strongRecOn generalizing s prev with
  | ind n ih =>
    have hself : ∀ {rest : List α}, subFrom r (bracketed opening closing inside) s = rest →
        s' = ⟨prev, rest⟩ → ∃ t ∈ cursors s.prev s.rest, Kept r word opening closing inside s' t := by
      intro rest hrest heq
      rw [heq, ← hrest]
      exact ⟨s, mem_cursors_self s, hkept⟩
    cases htaken : (r.regex.ends s).head? with
    | some t =>
      have hmem := List.mem_of_mem_head? htaken
      have hless := Regex.ends_less r.consuming hmem
      have hsub : subFrom r (bracketed opening closing inside) s =
          opening :: (inside ++ closing :: subFrom r (bracketed opening closing inside) t) := by
        rw [subFrom_taken htaken]
        simp [bracketed]
      rw [hsub, cursors] at h
      rcases List.mem_cons.mp h with heq | h
      · exact .inl (hself hsub heq)
      rcases inside_of_mem_cursors (fun c hc => hc) h with h | h
      · exact .inr h
      · have hkept' : Kept r word opening closing inside
            ⟨some closing, subFrom r (bracketed opening closing inside) t⟩ t :=
          ⟨rfl, fun hguarded => boundary_closing hopening hclosing hguarded htaken⟩
        rcases ih t.rest.length (by omega) hkept' h rfl with ⟨u, hu, hk⟩ | hinside
        · exact .inl ⟨u, cursors_subset (ends_mem_cursors hmem) hu, hk⟩
        · exact .inr hinside
    | none =>
      have hnone := List.head?_eq_none_iff.mp htaken
      cases hrest : s.rest with
      | nil =>
        have hsub := subFrom_nil (w := bracketed opening closing inside) (r := r) hrest
        rw [hsub] at h
        have heq := hself hsub (List.mem_singleton.mp h)
        rw [hrest] at heq
        exact .inl heq
      | cons c rest =>
        have hsub := subFrom_cons (w := bracketed opening closing inside) hnone hrest
        rw [hsub, cursors] at h
        rcases List.mem_cons.mp h with heq | h
        · have hfound := hself hsub heq
          rw [hrest] at hfound
          exact .inl hfound
        · have hlen : rest.length < n := by
            rw [← hn, hrest, List.length_cons]
            exact Nat.lt_succ_self _
          rcases ih rest.length hlen (s := ⟨some c, rest⟩) (Kept.start ⟨some c, rest⟩) h rfl with
            ⟨u, hu, hk⟩ | hinside
          · exact .inl ⟨u, List.mem_cons_of_mem _ hu, hk⟩
          · exact .inr hinside

variable (r word opening closing inside) in
/-- What matches outside of the replacements matched in the text. -/
def Carries (q : Regex α) : Prop :=
  ∀ s' s : Cursor α, Kept r word opening closing inside s' s → q.ends s' ≠ [] → q.ends s ≠ []

/-- **Nothing appears**: what is carried and fits in no replacement occurs after the replacing only where it did before. -/
theorem occurs_of_occurs_sub (hopening : word opening = false) (hclosing : word closing = false) {q : Regex α}
    (hcarries : Carries r word opening closing inside q)
    (hinside : ∀ s', Inside closing inside s' → q.ends s' = []) {text : List α}
    (h : Occurs q (r.sub (bracketed opening closing inside) text)) : Occurs q text := by
  obtain ⟨s', hs', hne⟩ := h
  rcases kept_or_inside hopening hclosing (Kept.start ⟨none, text⟩) hs' with ⟨s, hs, hkept⟩ | hin
  · exact ⟨s, hs, hcarries s' s hkept hne⟩
  · exact absurd (hinside s' hin) hne

/-- **Nothing is left**: a pattern that is carried, and starts neither in a replacement nor at one, does not occur after
its matches are replaced. -/
theorem not_occurs_sub (hopening : word opening = false) (hclosing : word closing = false)
    (hcarries : Carries r word opening closing inside r.regex)
    (hinside : ∀ s', Inside closing inside s' → r.regex.ends s' = [])
    (hstart : ∀ (s' : Cursor α) (rest : List α), s'.rest = opening :: rest → r.regex.ends s' = []) {text : List α} :
    ¬ Occurs r.regex (r.sub (bracketed opening closing inside) text) := by
  rintro ⟨s', hs', hne⟩
  rcases kept_or_inside hopening hclosing (Kept.start ⟨none, text⟩) hs' with ⟨s, hs, hkept⟩ | hin
  · have hmatch := hcarries s' s hkept hne
    obtain ⟨t, ht⟩ : ∃ t, (r.regex.ends s).head? = some t := by
      cases hends : r.regex.ends s with
      | nil => exact absurd hends hmatch
      | cons t ts => exact ⟨t, rfl⟩
    have hrest := hkept.rest
    rw [subFrom_taken ht] at hrest
    exact hne (hstart s' _ hrest)
  · exact hne (hinside s' hin)

theorem Kept.ends {q : Regex α}
    (hq : q.Over (fun p => p opening = false) (fun word' => word' = word ∧ Guarded r word)) {s' s t' : Cursor α}
    (hkept : Kept r word opening closing inside s' s) (h : t' ∈ q.ends s') :
    ∃ t ∈ q.ends s, Kept r word opening closing inside t' t := by
  have hover : q.Over
      (fun p => ∀ s s' c rest, Kept r word opening closing inside s s' → s.rest = c :: rest → p c = true →
        ∃ rest', s'.rest = c :: rest' ∧ Kept r word opening closing inside ⟨some c, rest⟩ ⟨some c, rest'⟩)
      (fun word' => ∀ s s', Kept r word opening closing inside s s' → s.isBoundary word' = true →
        s'.isBoundary word' = true) := by
    clear h
    induction q with
    | set p =>
      intro s s' c rest hk hrest hp
      have hc : c ≠ opening := by
        rintro rfl
        rw [hq] at hp
        cases hp
      obtain ⟨rest', hrest', -, hk'⟩ := hk.next hrest hc
      exact ⟨rest', hrest', hk'⟩
    | boundary word' =>
      intro s s' hk hboundary
      rw [hq.1] at hboundary ⊢
      exact hk.boundary hq.2 hboundary
    | empty => trivial
    | seq a b iha ihb => exact ⟨iha hq.1, ihb hq.2⟩
    | alt a b iha ihb => exact ⟨iha hq.1, ihb hq.2⟩
    | many a iha => exact iha hq
  obtain ⟨t, ht, hk, -⟩ := Regex.ends_carried hover hkept h
  exact ⟨t, ht, hk⟩

theorem carries_of_over {q : Regex α}
    (hq : q.Over (fun p => p opening = false) (fun word' => word' = word ∧ Guarded r word)) :
    Carries r word opening closing inside q := by
  intro s' s hkept hne
  obtain ⟨t', ht'⟩ := List.exists_mem_of_ne_nil _ hne
  obtain ⟨t, ht, -⟩ := hkept.ends hq ht'
  exact List.ne_nil_of_mem ht

theorem carries_seq {q : Regex α} {p : α → Bool} {after : Regex α}
    (hq : q.Over (fun p => p opening = false) (fun word' => word' = word ∧ Guarded r word))
    (hstarts : ∀ s t : Cursor α, t ∈ r.regex.ends s → s.rest.head?.any p = true)
    (hafter : ∀ s, after.ends s ≠ []) :
    Carries r word opening closing inside (.seq q (.seq (.set p) after)) := by
  intro s' s hkept hne
  obtain ⟨u', hu'⟩ := List.exists_mem_of_ne_nil _ hne
  obtain ⟨t', ht', hrest'⟩ := Regex.mem_ends_seq.mp hu'
  obtain ⟨v', hv', -⟩ := Regex.mem_ends_seq.mp hrest'
  obtain ⟨c, rest, hcons, hp, -⟩ := Regex.mem_ends_set.mp hv'
  obtain ⟨t, ht, hk⟩ := hkept.ends hq ht'
  -- the character is the text's own, or the first one of a match
  obtain ⟨d, rest', hrest, hd⟩ : ∃ d rest', t.rest = d :: rest' ∧ p d = true := by
    have hsub := hk.rest.symm.trans hcons
    cases htaken : (r.regex.ends t).head? with
    | some u =>
      have hany := hstarts t u (List.mem_of_mem_head? htaken)
      cases hrest : t.rest with
      | nil => simp [hrest] at hany
      | cons d rest' => exact ⟨d, rest', rfl, by simpa [hrest] using hany⟩
    | none =>
      have hnone := List.head?_eq_none_iff.mp htaken
      cases hrest : t.rest with
      | nil =>
        rw [subFrom_nil hrest] at hsub
        cases hsub
      | cons d rest' =>
        rw [subFrom_cons hnone hrest] at hsub
        exact ⟨d, rest', rfl, (List.cons.inj hsub).1 ▸ hp⟩
  obtain ⟨x, hx⟩ := List.exists_mem_of_ne_nil _ (hafter ⟨some d, rest'⟩)
  apply List.ne_nil_of_mem (a := x)
  exact Regex.mem_ends_seq.mpr ⟨t, ht, Regex.mem_ends_seq.mpr
    ⟨⟨some d, rest'⟩, Regex.mem_ends_set.mpr ⟨d, rest', hrest, hd, rfl⟩, hx⟩⟩

theorem inside_of_ends {q : Regex α} (hq : q.Over (fun p => p closing = false) (fun _ => True)) {s t : Cursor α}
    (hs : Inside closing inside s) (h : t ∈ q.ends s) : Inside closing inside t := by
  refine Regex.ends_keeps ?_ hs h
  clear h
  induction q with
  | set p =>
    rintro u c rest ⟨before, after, hrest, hbefore⟩ hcons hp
    cases before with
    | nil =>
      rw [hrest] at hcons
      rw [← (List.cons.inj hcons).1, hq] at hp
      cases hp
    | cons d before =>
      rw [hrest] at hcons
      exact ⟨before, after, (List.cons.inj hcons).2.symm, fun e he => hbefore e (List.mem_cons_of_mem _ he)⟩
  | boundary word' => trivial
  | empty => trivial
  | seq a b iha ihb => exact ⟨iha hq.1, ihb hq.2⟩
  | alt a b iha ihb => exact ⟨iha hq.1, ihb hq.2⟩
  | many a iha => exact iha hq

theorem ends_set_inside {p : α → Bool} (hclosing : p closing = false) (hinside : ∀ c ∈ inside, p c = false)
    {s : Cursor α} (hs : Inside closing inside s) : (Regex.set p).ends s = [] := by
  obtain ⟨before, after, hrest, hbefore⟩ := hs
  cases before with
  | nil => exact Regex.ends_set_eq_nil hrest hclosing
  | cons c before => exact Regex.ends_set_eq_nil hrest (hinside c (hbefore c List.mem_cons_self))

end Brackets

theorem guarded_between {word : α → Bool} {a : Regex α}
    (h : r.regex = .seq (.boundary word) (.seq a (.boundary word))) : Guarded r word := by
  intro s t ht
  have hmem := List.mem_of_mem_head? ht
  rw [h] at hmem
  obtain ⟨u, hu, hrest⟩ := Regex.mem_ends_seq.mp hmem
  obtain ⟨v, -, hv⟩ := Regex.mem_ends_seq.mp hrest
  obtain ⟨hboundary, rfl⟩ := Regex.mem_ends_boundary.mp hv
  exact ⟨(Regex.mem_ends_boundary.mp hu).1, fun _ => hboundary⟩

theorem guarded_greedy {word p : α → Bool} {a b : Regex α}
    (h : r.regex = .seq (.seq (.boundary word) a) (.seq b (.many (.set p)))) (hp : ∀ c, word c = true → p c = true) :
    Guarded r word := by
  intro s t ht
  rw [h] at ht
  obtain ⟨u, hu, -⟩ := Regex.mem_ends_seq.mp (List.mem_of_mem_head? ht)
  obtain ⟨v, hv, -⟩ := Regex.mem_ends_seq.mp hu
  refine ⟨(Regex.mem_ends_boundary.mp hv).1, fun hword => ?_⟩
  have hstop : t.rest.head?.any p = false := by
    let Q : Cursor α → Prop := fun t => t.rest.head?.any p = false
    have hmany : ∀ s t, ((Regex.many (.set p)).ends s).head? = some t → Q t := fun s t => Regex.head_ends_many
    have hseq : ∀ s t, ((Regex.seq b (.many (.set p))).ends s).head? = some t → Q t := fun s t =>
      Regex.head_ends_seq hmany
    exact Regex.head_ends_seq hseq ht
  cases hrest : t.rest with
  | nil => simp [hrest] at hword
  | cons c rest =>
    rw [hrest] at hword hstop
    have hc : p c = true := hp c (by simpa using hword)
    simp [hc] at hstop

end Autophagy.Text
