/-
# Autophagy.Repair.GitQuoting — the paths that git quotes.

`_unquote` of `repair_patch_diff.py`, with the one exception that is no `PatchBindingError`: a lone surrogate has no
encoding. No text that was decoded holds one (`unquoteToken_eq`). Git writes a path with its C-style quoting, a byte at
a time (`gitQuote`), and `unquote_inverts` says that every path is read back from what git makes of it.
-/
import Autophagy.Repair.PatchDiff

namespace Autophagy.Repair

open Autophagy.Python

/-! ## §1 — Unquoting -/

/-- What `_unquote` raises. -/
inductive UnquoteFault
  | binding (error : PatchBindingError)
  | unicodeEncode
  deriving DecidableEq

section Quoting

variable (decimal : Nat → Option (Fin 10))

/-- The loop of `_unquote`. -/
def tokenBody : Str → Except UnquoteFault Bytes
  | [] => .ok []
  | 0x5c :: [] => .error (.binding .unsupportedEscape)
  | 0x5c :: a :: rest =>
    if isOctal a then
      match rest with
      | b :: c :: rest =>
        match octal decimal [a, b, c] with
        | .error error => .error (.binding error)
        | .ok byte => (tokenBody rest).map (byte :: ·)
      | _ => .error (.binding .malformedOctal)
    else
      match escapes a with
      | none => .error (.binding .unsupportedEscape)
      | some byte => (tokenBody rest).map (byte :: ·)
  | c :: rest =>
    match utf8Char c with
    | none => .error .unicodeEncode
    | some head => (tokenBody rest).map (head ++ ·)

/-- `_unquote` -/
def unquoteToken (token : Str) : Except UnquoteFault Str :=
  if token.head? ≠ some 0x22 then .ok token
  else if token.length < 2 ∨ token.getLast? ≠ some 0x22 then .error (.binding .quoting)
  else
    match tokenBody decimal token.tail.dropLast with
    | .error fault => .error fault
    | .ok bytes =>
      match decodeUtf8 bytes with
      | none => .error (.binding .pathNotUtf8)
      | some path => .ok path

/-- The call ends as its callers expect. -/
def Answers (token : Str) : Prop :=
  (∃ path, unquoteToken decimal token = .ok path) ∨ ∃ error, unquoteToken decimal token = .error (.binding error)

variable {decimal}

theorem exists_utf8Char {c : Nat} (h : JsonScan.Scalar c) : ∃ head, utf8Char c = some head := by
  obtain ⟨hlimit, hplain⟩ := JsonScan.scalar_iff.mp h
  unfold utf8Char
  rw [if_neg hplain, if_pos hlimit]
  split
  · exact ⟨_, rfl⟩
  split
  · exact ⟨_, rfl⟩
  split <;> exact ⟨_, rfl⟩

/-- A text that was decoded is unquoted as it is for the summary of a patch. -/
theorem tokenBody_eq {body : Str} (h : ScalarText body) :
    tokenBody decimal body = (unquoteBody decimal body).mapError .binding := by
  have hmap : ∀ {result : Except PatchBindingError Bytes} {f : Bytes → Bytes},
      (result.mapError UnquoteFault.binding).map f = (result >>= fun bytes => .ok (f bytes)).mapError .binding := by
    intro result f
    cases result <;> rfl
  induction body using tokenBody.induct decimal with
  | case1 => rfl
  | case2 => rfl
  | case3 a hoctal b c rest error hbyte =>
    simp only [tokenBody, unquoteBody, if_pos hoctal, hbyte]
    rfl
  | case4 a hoctal b c rest byte hbyte ih =>
    simp only [tokenBody, unquoteBody, if_pos hoctal, hbyte, ih (h.mono fun d hd => by simp [hd])]
    exact hmap
  | case5 a rest hoctal hshort =>
    simp only [tokenBody, unquoteBody, if_pos hoctal]
    rfl
  | case6 a rest hoctal hnone =>
    rw [tokenBody.eq_def, unquoteBody.eq_def]
    simp only [if_neg hoctal, hnone]
    rfl
  | case7 a rest hoctal byte hbyte ih =>
    rw [tokenBody.eq_def, unquoteBody.eq_def]
    simp only [if_neg hoctal, hbyte, ih (h.mono fun d hd => by simp [hd])]
    exact hmap
  | case8 c rest hend hescape hnone =>
    obtain ⟨head, hhead⟩ := exists_utf8Char (h c List.mem_cons_self)
    rw [hnone] at hhead
    cases hhead
  | case9 c rest hend hescape head hhead ih =>
    rw [tokenBody.eq_5 _ _ _ hend hescape, unquoteBody.eq_5 _ _ _ hend hescape, hhead,
      ih (h.mono fun d hd => by simp [hd])]
    exact hmap

theorem unquoteToken_eq {token : Str} (h : ScalarText token) :
    unquoteToken decimal token = (unquote decimal token).mapError .binding := by
  have hbody : ScalarText token.tail.dropLast := h.mono fun c hc => List.mem_of_mem_tail (List.mem_of_mem_dropLast hc)
  unfold unquoteToken unquote
  rw [tokenBody_eq hbody]
  split
  · rfl
  split
  · rfl
  cases unquoteBody decimal token.tail.dropLast with
  | error error => rfl
  | ok bytes =>
    show (match decodeUtf8 bytes with | none => _ | some path => _) =
      Except.mapError _ (match decodeUtf8 bytes with | none => _ | some path => _)
    cases decodeUtf8 bytes <;> rfl

theorem answers {token : Str} (h : ScalarText token) : Answers decimal token := by
  unfold Answers
  rw [unquoteToken_eq h]
  cases unquote decimal token with
  | error error => exact .inr ⟨error, rfl⟩
  | ok path => exact .inl ⟨path, rfl⟩

end Quoting

/-! ## §2 — Quoting -/

/-- The letter behind the backslash, for a byte that has one: `\a`, `\b`, `\t`, `\n`, `\v`, `\f`, `\r`, the quotation
mark and the backslash. -/
def escapeLetter : Nat → Option Nat
  | 0x07 => some 0x61
  | 0x08 => some 0x62
  | 0x09 => some 0x74
  | 0x0a => some 0x6e
  | 0x0b => some 0x76
  | 0x0c => some 0x66
  | 0x0d => some 0x72
  | 0x22 => some 0x22
  | 0x5c => some 0x5c
  | _ => none

/-- What git writes for a byte: any other control byte and whatever is not ASCII is written in octal. -/
def quoteByte (b : Nat) : Str :=
  match escapeLetter b with
  | some letter => [0x5c, letter]
  | none => if b < 0x20 ∨ 0x7f ≤ b then [0x5c, 0x30 + b / 64, 0x30 + b / 8 % 8, 0x30 + b % 8] else [b]

/-- Git's C-style quoting, with `core.quotePath`: a path of which no byte is escaped stands as it is. -/
def gitQuote (path : Bytes) : Str :=
  if path.flatMap quoteByte = path then path else 0x22 :: (path.flatMap quoteByte ++ [0x22])

section RoundTrip

variable {decimal : Nat → Option (Fin 10)}

theorem octal_quoted {b : Nat} (h : b < 256) :
    octal decimal [0x30 + b / 64, 0x30 + b / 8 % 8, 0x30 + b % 8] = .ok b := by
  have hascii : ∀ c < 0x7f, transformDecimalAndSpace decimal c = transformDecimalAndSpace (fun _ => none) c := by
    intro c hc
    unfold transformDecimalAndSpace
    rw [if_pos hc, if_pos hc]
  have hplain : octal decimal [0x30 + b / 64, 0x30 + b / 8 % 8, 0x30 + b % 8] =
      octal (fun _ => none) [0x30 + b / 64, 0x30 + b / 8 % 8, 0x30 + b % 8] := by
    unfold octal intBase8 signedValue
    simp only [List.map_cons, List.map_nil]
    rw [hascii _ (by omega), hascii _ (by omega), hascii _ (by omega)]
  have hall : ∀ b : Fin 256, octal (fun _ => none) [0x30 + b.val / 64, 0x30 + b.val / 8 % 8, 0x30 + b.val % 8] =
      .ok b.val := by decide +kernel
  exact hplain.trans (hall ⟨b, h⟩)

/-- What git wrote for a byte is read as that byte. -/
theorem tokenBody_quoteByte {b : Nat} (h : b < 256) (rest : Str) :
    tokenBody decimal (quoteByte b ++ rest) = (tokenBody decimal rest).map (b :: ·) := by
  unfold quoteByte
  split
  · rename_i letter hletter
    have hescape : isOctal letter = false ∧ escapes letter = some b := by
      unfold escapeLetter at hletter
      split at hletter <;> cases hletter <;> exact ⟨rfl, rfl⟩
    show tokenBody decimal (0x5c :: letter :: rest) = _
    rw [tokenBody.eq_def]
    simp only [hescape]
    rfl
  · rename_i hnone
    split
    · have hoctal : isOctal (0x30 + b / 64) = true := by
        simp only [isOctal, Bool.and_eq_true, decide_eq_true_eq]
        omega
      show tokenBody decimal (0x5c :: (0x30 + b / 64) :: (0x30 + b / 8 % 8) :: (0x30 + b % 8) :: rest) = _
      rw [tokenBody, if_pos hoctal, octal_quoted h]
    · rename_i hplain
      have hbackslash : b ≠ 0x5c := by
        rintro rfl
        cases hnone
      rw [List.singleton_append, tokenBody.eq_5 _ _ _ (fun h => absurd h hbackslash) (fun _ _ h => absurd h hbackslash),
        utf8Char, if_pos (by omega)]
      rfl

theorem tokenBody_quoted {path : Bytes} (h : ∀ b ∈ path, b < 256) :
    tokenBody decimal (path.flatMap quoteByte) = .ok path := by
  induction path with
  | nil => rfl
  | cons b path ih =>
    obtain ⟨hb, hpath⟩ := List.forall_mem_cons.mp h
    rw [List.flatMap_cons, tokenBody_quoteByte hb, ih hpath]
    rfl

theorem utf8_bytes {text : Str} {bytes : Bytes} (h : utf8 text = some bytes) : ∀ b ∈ bytes, b < 256 := by
  induction text generalizing bytes with
  | nil =>
    obtain rfl := Option.some.inj h
    exact List.forall_mem_nil _
  | cons c text ih =>
    obtain ⟨head, hhead, hrest⟩ := Option.bind_eq_some_iff.mp h
    obtain ⟨rest, htext, rfl⟩ := Option.map_eq_some_iff.mp hrest
    refine List.forall_mem_append.mpr ⟨fun b hb => ?_, ih htext⟩
    have hbyte : ∀ {bytes : Bytes}, some bytes = some head → b ∈ bytes := fun h => (Option.some.inj h) ▸ hb
    unfold utf8Char at hhead
    split at hhead
    · have hmem := hbyte hhead
      simp only [List.mem_cons, List.not_mem_nil, or_false] at hmem
      omega
    split at hhead
    · have hmem := hbyte hhead
      simp only [List.mem_cons, List.not_mem_nil, or_false] at hmem
      omega
    split at hhead
    · cases hhead
    split at hhead
    · have hmem := hbyte hhead
      simp only [List.mem_cons, List.not_mem_nil, or_false] at hmem
      omega
    split at hhead
    · have hmem := hbyte hhead
      simp only [List.mem_cons, List.not_mem_nil, or_false] at hmem
      omega
    · cases hhead

/-- A path that git does not quote is ASCII, and does not begin with a quotation mark. -/
theorem unquoted_path {path : Bytes} (h : path.flatMap quoteByte = path) :
    (∀ b ∈ path, b < 0x80) ∧ path.head? ≠ some 0x22 := by
  have hlength : ∀ b, 1 ≤ (quoteByte b).length ∧ ((quoteByte b).length = 1 → quoteByte b = [b] ∧ b < 0x80 ∧ b ≠ 0x22) := by
    intro b
    unfold quoteByte
    split
    · exact ⟨by simp, fun h => by simp at h⟩
    · rename_i hnone
      split
      · exact ⟨by simp, fun h => by simp at h⟩
      · refine ⟨by simp, fun _ => ⟨rfl, by omega, ?_⟩⟩
        rintro rfl
        cases hnone
  have hlonger : ∀ path : Bytes, path.length ≤ (path.flatMap quoteByte).length := by
    intro path
    induction path with
    | nil => exact Nat.le_refl _
    | cons b path ih =>
      have hb := (hlength b).1
      rw [List.flatMap_cons, List.length_append, List.length_cons]
      omega
  have hall : ∀ b ∈ path, b < 0x80 ∧ b ≠ 0x22 := by
    induction path with
    | nil => exact List.forall_mem_nil _
    | cons b path ih =>
      have hsum := congrArg List.length h
      have hrest := hlonger path
      obtain ⟨hone, hsame⟩ := hlength b
      rw [List.flatMap_cons, List.length_append, List.length_cons] at hsum
      obtain ⟨hb, hascii⟩ := hsame (by omega)
      rw [List.flatMap_cons, hb, List.singleton_append, List.cons.injEq] at h
      exact List.forall_mem_cons.mpr ⟨hascii, ih h.2⟩
  refine ⟨fun b hb => (hall b hb).1, fun hhead => ?_⟩
  exact (hall 0x22 (List.mem_of_mem_head? hhead)).2 rfl

/-- **Unquoting undoes git's quoting**, and a text that was decoded is answered with a path or a `PatchBindingError`. -/
theorem unquote_inverts (decimal : Nat → Option (Fin 10)) :
    (∀ path bytes, utf8 path = some bytes → unquoteToken decimal (gitQuote bytes) = .ok path) ∧
      ∀ token, ScalarText token → Answers decimal token := by
  refine ⟨fun path bytes hbytes => ?_, fun token => answers⟩
  have hdecode : decodeUtf8 bytes = some path := decodeUtf8_utf8 hbytes
  unfold gitQuote
  split
  · rename_i hplain
    obtain ⟨hascii, hhead⟩ := unquoted_path hplain
    have hsame : decodeUtf8 bytes = some bytes := decodeUtf8_utf8 (utf8_ascii hascii)
    rw [unquoteToken, if_pos hhead, Option.some.inj (hsame.symm.trans hdecode)]
  · have hmarks : ¬ ((0x22 :: (bytes.flatMap quoteByte ++ [0x22])).length < 2 ∨
        (0x22 :: (bytes.flatMap quoteByte ++ [0x22])).getLast? ≠ some 0x22) := by
      rw [not_or, not_not, not_lt, List.length_cons, List.length_append, ← List.cons_append, List.getLast?_concat]
      exact ⟨by simp, rfl⟩
    rw [unquoteToken, if_neg (fun h => h rfl), if_neg hmarks, List.tail_cons, List.dropLast_concat,
      tokenBody_quoted (utf8_bytes hbytes)]
    simp only [hdecode]

/-- **A lone surrogate between quotation marks** is answered with neither. -/
theorem surrogate_has_no_answer : ¬ Answers (fun _ => none) [0x22, 0xd800, 0x22] := by
  have hraises : unquoteToken (fun _ => none) [0x22, 0xd800, 0x22] = .error .unicodeEncode := by decide
  unfold Answers
  rw [hraises]
  rintro (⟨path, h⟩ | ⟨error, h⟩)
  · cases h
  · cases h

end RoundTrip

end Autophagy.Repair
