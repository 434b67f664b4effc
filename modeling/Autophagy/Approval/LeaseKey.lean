/-
# Autophagy.Approval.LeaseKey — the file name of an approval key.

`slug` of `automation/interop/approval_lease.py`, under whose text the lease and the posting journal of a key keep their
files. What is not plain is written as `%` and its code point in hexadecimal, of two digits or more, and nothing marks
where the digits end: the digits and the letters `a` to `f` are plain themselves. A key has its file for itself exactly
where each of its escapes can be read in one way (`slug_unshared_iff`).
-/
import Autophagy.Python.Json

namespace Autophagy.Approval

open Autophagy.Python

/-! ## §1 — The name -/

/-- `[A-Za-z0-9._-]` -/
def isPlain (c : Nat) : Bool :=
  (0x41 ≤ c && c ≤ 0x5a) || (0x61 ≤ c && c ≤ 0x7a) || (0x30 ≤ c && c ≤ 0x39) || c = 0x2e || c = 0x5f || c = 0x2d

/-- `f"{c:02x}"` -/
def hexText (c : Nat) : Str :=
  let digits := (Nat.digits 16 c).reverse.map hexDigit
  List.replicate (2 - digits.length) 0x30 ++ digits

/-- What stands for one character. -/
def slugChar (c : Nat) : Str := if isPlain c then [c] else 0x25 :: hexText c

/-- `slug` -/
def slug (key : Str) : Str := key.flatMap slugChar

/-- `FileKeyLease.hold`: the file under the root. -/
def leaseName (key : Str) : Str := slug key ++ Str.of ".lease"

/-- `PostingJournal._path`: the file under the root. -/
def postingName (key : Str) : Str := slug key ++ Str.of ".posting.json"

/-- The characters that Python has. -/
def IsKey (key : Str) : Prop := ∀ c ∈ key, c < 0x110000

/-! ## §2 — Reading an escape -/

/-- The digits that an escape is made of. -/
def isLowerHex (c : Nat) : Bool := (0x30 ≤ c && c ≤ 0x39) || (0x61 ≤ c && c ≤ 0x66)

/-- Each escape, read together with the digits that follow it in the key, is the escape of one character only. -/
def OneReading (key : Str) : Prop :=
  ∀ before c after, key = before ++ c :: after → isPlain c = false →
    ∀ d < 0x110000, isPlain d = false → hexText d <+: hexText c ++ after.takeWhile isLowerHex → d = c

theorem isPlain_of_isLowerHex {c : Nat} (h : isLowerHex c = true) : isPlain c = true := by
  simp only [isLowerHex, Bool.or_eq_true, Bool.and_eq_true, decide_eq_true_eq] at h
  simp only [isPlain, Bool.or_eq_true, Bool.and_eq_true, decide_eq_true_eq]
  omega

theorem isLowerHex_of_mem_hexText {c d : Nat} (h : d ∈ hexText c) : isLowerHex d = true := by
  have hdigit : ∀ n < 16, isLowerHex (hexDigit n) = true := by decide
  rcases List.mem_append.mp h with h | h
  · rw [List.eq_of_mem_replicate h]
    decide
  · obtain ⟨n, hn, rfl⟩ := List.mem_map.mp h
    exact hdigit n (Nat.digits_lt_base (by decide) (List.mem_reverse.mp hn))

@[simp] theorem slug_nil : slug [] = [] := rfl

@[simp] theorem slug_append (s t : Str) : slug (s ++ t) = slug s ++ slug t := List.flatMap_append

theorem slug_plain {c : Nat} (h : isPlain c = true) (key : Str) : slug (c :: key) = c :: slug key := by
  rw [slug, List.flatMap_cons, slugChar, if_pos h]
  rfl

theorem slug_escaped {c : Nat} (h : isPlain c = false) (key : Str) :
    slug (c :: key) = 0x25 :: (hexText c ++ slug key) := by
  rw [slug, List.flatMap_cons, slugChar, if_neg (by simp [h])]
  rfl

theorem slug_eq_self {s : Str} (h : ∀ c ∈ s, isPlain c = true) : slug s = s := by
  induction s with
  | nil => rfl
  | cons c s ih => rw [slug_plain (h c List.mem_cons_self), ih fun d hd => h d (List.mem_cons_of_mem _ hd)]

theorem slug_hex {s : Str} (h : ∀ c ∈ s, isLowerHex c = true) : slug s = s :=
  slug_eq_self fun c hc => isPlain_of_isLowerHex (h c hc)

theorem takeWhile_slug (key : Str) : (slug key).takeWhile isLowerHex = key.takeWhile isLowerHex := by
  induction key with
  | nil => rfl
  | cons c key ih =>
    cases hc : isPlain c with
    | true => rw [slug_plain hc, List.takeWhile_cons, List.takeWhile_cons, ih]
    | false =>
      have hhex : isLowerHex c = false := by
        apply Bool.eq_false_iff.mpr
        intro h
        rw [isPlain_of_isLowerHex h] at hc
        cases hc
      rw [slug_escaped hc, List.takeWhile_cons_of_neg (by decide), List.takeWhile_cons_of_neg (by simp [hhex])]

theorem prefix_takeWhile {p : Nat → Bool} {digits s : Str} (h : ∀ c ∈ digits, p c = true) (hs : digits <+: s) :
    digits <+: s.takeWhile p := by
  obtain ⟨rest, rfl⟩ := hs
  rw [List.takeWhile_append_of_pos h]
  exact List.prefix_append _ _

theorem hexText_begins {c d : Nat} {after rest : Str} (h : hexText d ++ rest = hexText c ++ slug after) :
    hexText d <+: hexText c ++ after.takeWhile isLowerHex := by
  have hdigits := prefix_takeWhile (fun _ => isLowerHex_of_mem_hexText) (⟨rest, h⟩ : hexText d <+: hexText c ++ slug after)
  rwa [List.takeWhile_append_of_pos fun _ => isLowerHex_of_mem_hexText, takeWhile_slug] at hdigits

/-! ## §3 — One key, one file -/

theorem OneReading.tail {c : Nat} {key : Str} (h : OneReading (c :: key)) : OneReading key := by
  intro before d after hkey
  exact h (c :: before) d after (by rw [hkey, List.cons_append])

theorem OneReading.eq {key : Str} (h : OneReading key) {other : Str} (hother : IsKey other)
    (hslug : slug other = slug key) : other = key := by
  induction key generalizing other with
  | nil =>
    cases other with
    | nil => rfl
    | cons d other =>
      cases hd : isPlain d with
      | true => simp [slug_plain hd] at hslug
      | false => simp [slug_escaped hd] at hslug
  | cons c key ih =>
    cases other with
    | nil =>
      cases hc : isPlain c with
      | true => simp [slug_plain hc] at hslug
      | false => simp [slug_escaped hc] at hslug
    | cons d other =>
      have htail : IsKey other := fun e he => hother e (List.mem_cons_of_mem _ he)
      cases hc : isPlain c with
      | true =>
        cases hd : isPlain d with
        | true =>
          rw [slug_plain hc, slug_plain hd, List.cons.injEq] at hslug
          rw [hslug.1, ih h.tail htail hslug.2]
        | false =>
          rw [slug_plain hc, slug_escaped hd, List.cons.injEq] at hslug
          rw [← hslug.1] at hc
          exact absurd hc (by decide)
      | false =>
        cases hd : isPlain d with
        | true =>
          rw [slug_plain hd, slug_escaped hc, List.cons.injEq] at hslug
          rw [hslug.1] at hd
          exact absurd hd (by decide)
        | false =>
          rw [slug_escaped hc, slug_escaped hd, List.cons.injEq] at hslug
          obtain rfl : d = c :=
            h [] c key rfl hc d (hother d List.mem_cons_self) hd (hexText_begins hslug.2)
          rw [ih h.tail htail (List.append_cancel_left hslug.2)]

theorem exists_shared {before after : Str} {c d : Nat} (hkey : IsKey (before ++ c :: after)) (hc : isPlain c = false)
    (hd : isPlain d = false) (hrange : d < 0x110000) (hne : d ≠ c)
    (h : hexText d <+: hexText c ++ after.takeWhile isLowerHex) :
    ∃ other, IsKey other ∧ slug other = slug (before ++ c :: after) ∧ other ≠ before ++ c :: after := by
  -- the text behind the other escape: what is left of the digits of this one, or of the digits behind them
  obtain ⟨rest, hrest, hslug⟩ : ∃ rest, IsKey rest ∧ hexText d ++ slug rest = hexText c ++ slug after := by
    have hafter : IsKey after := fun e he => hkey e (by simp [he])
    obtain ⟨left, hleft⟩ := h
    rcases List.append_eq_append_iff.mp hleft with ⟨mid, hshorter, hmid⟩ | ⟨mid, hlonger, hmid⟩
    · have hhex : ∀ e ∈ mid, isLowerHex e = true := fun e he =>
        isLowerHex_of_mem_hexText (show e ∈ hexText c by rw [hshorter]; exact List.mem_append_right _ he)
      refine ⟨mid ++ after, ?_, ?_⟩
      · intro e he
        rcases List.mem_append.mp he with he | he
        · have hplain := hhex e he
          simp only [isLowerHex, Bool.or_eq_true, Bool.and_eq_true, decide_eq_true_eq] at hplain
          omega
        · exact hafter e he
      · rw [slug_append, slug_hex hhex, hshorter, List.append_assoc]
    · have hhex : ∀ e ∈ mid, isLowerHex e = true := fun e he =>
        isLowerHex_of_mem_hexText (show e ∈ hexText d by rw [hlonger]; exact List.mem_append_right _ he)
      have hsplit : after = mid ++ (left ++ after.dropWhile isLowerHex) := by
        rw [← List.append_assoc, ← hmid, List.takeWhile_append_dropWhile]
      refine ⟨left ++ after.dropWhile isLowerHex, ?_, ?_⟩
      · intro e he
        exact hafter e (by rw [hsplit]; exact List.mem_append_right _ he)
      · conv_rhs => rw [hsplit, slug_append, slug_hex hhex]
        rw [hlonger, List.append_assoc]
  refine ⟨before ++ d :: rest, ?_, ?_, ?_⟩
  · intro e he
    rcases List.mem_append.mp he with he | he
    · exact hkey e (List.mem_append_left _ he)
    · rcases List.mem_cons.mp he with rfl | he
      · exact hrange
      · exact hrest e he
  · rw [slug_append, slug_append, slug_escaped hd, slug_escaped hc, hslug]
  · intro hsame
    exact hne (List.cons.inj (List.append_cancel_left hsame)).1

/-- **A key shares its files with no other key** exactly where it has one reading. -/
theorem slug_unshared_iff (key : Str) (hkey : IsKey key) :
    (∀ other, IsKey other → other ≠ key →
        slug other ≠ slug key ∧ leaseName other ≠ leaseName key ∧ postingName other ≠ postingName key) ↔
      OneReading key := by
  constructor
  · intro hunshared before c after hsplit hc d hrange hd hread
    by_contra hne
    subst hsplit
    obtain ⟨other, hother, hslug, hdiffers⟩ := exists_shared hkey hc hd hrange hne hread
    exact (hunshared other hother hdiffers).1 hslug
  · intro h other hother hne
    have hslug : slug other ≠ slug key := fun hsame => hne (h.eq hother hsame)
    exact ⟨hslug, fun hsame => hslug (List.append_cancel_right hsame),
      fun hsame => hslug (List.append_cancel_right hsame)⟩

/-- A key of plain characters has its files for itself. -/
theorem plain_key_unshared : IsKey (Str.of "meeting.7") ∧ ∀ other, IsKey other → other ≠ Str.of "meeting.7" →
    slug other ≠ slug "meeting.7" ∧ leaseName other ≠ leaseName "meeting.7" ∧
      postingName other ≠ postingName "meeting.7" := by
  have hmeeting : IsKey (Str.of "meeting.7") := by
    unfold IsKey
    decide
  refine ⟨hmeeting, (slug_unshared_iff "meeting.7" hmeeting).mpr ?_⟩
  intro before c after hkey hc
  have hplain : ∀ e ∈ Str.of "meeting.7", isPlain e = true := by decide
  rw [hplain c (by rw [hkey]; simp)] at hc
  cases hc

/-- **Two keys, one file**: the colon before an `a` is written as the letter `U+03AA`. -/
theorem colon_and_iota_share : Str.of "skill-deploy:a" ≠ Str.of "skill-deployΪ" ∧
    slug "skill-deploy:a" = slug "skill-deployΪ" ∧ leaseName "skill-deploy:a" = leaseName "skill-deployΪ" ∧
      postingName "skill-deploy:a" = postingName "skill-deployΪ" := by
  decide

end Autophagy.Approval
