/-
# Autophagy.Python.JsonAscii — `json.dumps` with `ensure_ascii=True`, which is its default.

Every character of a string that is not printable ASCII is written as one `\uXXXX`, or as two for a character beyond
the basic plane. The scanner joins two escapes that form a surrogate pair, so a string in which a high surrogate stands
before a low one is not read back; every other string is (`loads_ascii`). What the scanner reads from a text without
surrogates has no such pair (`joined_of_loads`), hence a value that was read once is read again from its own text.
-/
import Autophagy.Python.JsonFile
import Autophagy.Python.Equality
import Autophagy.Python.Utf8

namespace Autophagy.Python

/-! ## §1 — Escapes -/

/-- `\uXXXX` -/
def unitEscape (u : Nat) : Str :=
  [0x5c, 0x75, hexDigit (u / 4096), hexDigit (u / 256 % 16), hexDigit (u / 16 % 16), hexDigit (u % 16)]

/-- One character of a string, as `ensure_ascii=True` writes it. -/
def asciiChar (c : Nat) : Str :=
  if c < 0x7f then escapeChar c
  else if c < 0x10000 then unitEscape c
  else unitEscape (0xd800 + (c - 0x10000) / 0x400) ++ unitEscape (0xdc00 + (c - 0x10000) % 0x400)

def asciiEscape (s : Str) : Str := s.flatMap asciiChar

/-- Code points of which no high surrogate stands before a low one. -/
def Joined : Str → Prop
  | [] => True
  | [c] => c < 0x110000
  | c :: d :: s => c < 0x110000 ∧ ¬ (JsonScan.isHigh c = true ∧ JsonScan.isLow d = true) ∧ Joined (d :: s)

namespace JsonScan

variable {F : Type} [PyFloat F]

theorem foldl_unitEscape (L : Limits) (stack : List (Frame F)) (target : Target F) (acc : Str) (high : Option Nat)
    {u : Nat} (hu : u < 0x10000) :
    (unitEscape u).foldl (step L) (.run stack (.str target acc high)) = .run stack (putUnit target acc high u) := by
  have h₁ := hexValue_hexDigit (u / 4096) (by omega)
  have h₂ := hexValue_hexDigit (u / 256 % 16) (by omega)
  have h₃ := hexValue_hexDigit (u / 16 % 16) (by omega)
  have h₄ := hexValue_hexDigit (u % 16) (by omega)
  have hvalue : ((u / 4096 * 16 + u / 256 % 16) * 16 + u / 16 % 16) * 16 + u % 16 = u := by omega
  simp [unitEscape, step, h₁, h₂, h₃, h₄, hvalue]

/-- What a string holds inside a text: the characters so far, the last of them perhaps waiting for its pair. -/
def Holds (target : Target F) (x : Str) (mode : Mode F) : Prop :=
  ∃ acc high, mode = .str target acc high ∧ flush acc high = x ∧ ∀ h, high = some h → isHigh h = true

/-- The text ends in a high surrogate. -/
def endsHigh (x : Str) : Bool := x.getLast?.any isHigh

omit [PyFloat F] in
theorem holds_putUnit {target : Target F} {x acc : Str} {high : Option Nat} {u : Nat} (hx : flush acc high = x)
    (hhigh : ∀ h, high = some h → isHigh h = true) (hpair : endsHigh x = true → isLow u = false) :
    Holds target (x ++ [u]) (putUnit target acc high u) := by
  subst hx
  cases high with
  | none =>
    unfold putUnit
    dsimp only
    split
    · next hu => exact ⟨_, _, rfl, rfl, fun h hh => by rwa [← Option.some.inj hh]⟩
    · exact ⟨_, _, rfl, rfl, fun h hh => by cases hh⟩
  | some h =>
    have hends : endsHigh (acc ++ [h]) = true := by simp [endsHigh, hhigh h rfl]
    unfold putUnit
    dsimp only
    rw [hpair hends, if_neg (by decide)]
    split
    · next hu => exact ⟨_, _, rfl, rfl, fun h' hh => by rwa [← Option.some.inj hh]⟩
    · exact ⟨_, _, rfl, by simp [flush], fun h' hh => by cases hh⟩

/-- One escaped character follows what the string holds. -/
theorem foldl_asciiChar (L : Limits) (stack : List (Frame F)) {target : Target F} {x : Str} {mode : Mode F}
    (hmode : Holds target x mode) {c : Nat} (hc : c < 0x110000) (hpair : endsHigh x = true → isLow c = false) :
    ∃ mode', (asciiChar c).foldl (step L) (.run stack mode) = .run stack mode' ∧ Holds target (x ++ [c]) mode' := by
  obtain ⟨acc, high, rfl, hx, hhigh⟩ := hmode
  unfold asciiChar
  split
  · next hlow =>
      rw [foldl_escapeChar_flush L stack target acc high (.inr hlow)]
      exact ⟨_, rfl, _, _, rfl, by rw [hx]; rfl, fun h hh => by cases hh⟩
  split
  · next hunit =>
      rw [foldl_unitEscape L stack target acc high hunit]
      exact ⟨_, rfl, holds_putUnit hx hhigh hpair⟩
  · next hunit =>
      -- A pair: its high unit waits, whatever the string holds, and its low unit completes the character.
      set h := 0xd800 + (c - 0x10000) / 0x400 with hh
      set l := 0xdc00 + (c - 0x10000) % 0x400 with hl
      have hhigh' : isHigh h = true ∧ isLow h = false := by
        simp only [isHigh, isLow, Bool.and_eq_true, Bool.and_eq_false_iff, decide_eq_true_eq, decide_eq_false_iff_not]
        omega
      have hlow' : isLow l = true := by
        simp only [isLow, Bool.and_eq_true, decide_eq_true_eq]
        omega
      have hwait : putUnit target acc high h = .str target x (some h) := by
        subst hx
        cases high <;> simp [putUnit, hhigh', flush]
      have hpaired : 0x10000 + (h - 0xd800) * 0x400 + (l - 0xdc00) = c := by omega
      rw [List.foldl_append, foldl_unitEscape L stack target acc high (by omega), hwait,
        foldl_unitEscape L stack target x (some h) (by omega)]
      refine ⟨_, rfl, x ++ [c], none, ?_, rfl, fun h hh => by cases hh⟩
      unfold putUnit
      dsimp only
      rw [if_pos hlow', hpaired]

theorem joined_cons {c : Nat} {s : Str} : Joined (c :: s) ↔
    c < 0x110000 ∧ (isHigh c = true → ∀ d ∈ s.head?, isLow d = false) ∧ Joined s := by
  cases s with
  | nil => simp [Joined]
  | cons d s => simp [Joined]

/-- **A string without pairs** is read back from its escapes. -/
theorem foldl_asciiEscape (L : Limits) (stack : List (Frame F)) {target : Target F} {s : Str} (hs : Joined s)
    {x : Str} {mode : Mode F} (hmode : Holds target x mode)
    (hpair : endsHigh x = true → ∀ d ∈ s.head?, isLow d = false) :
    ∃ mode', (asciiEscape s).foldl (step L) (.run stack mode) = .run stack mode' ∧ Holds target (x ++ s) mode' := by
  induction s generalizing x mode with
  | nil => exact ⟨mode, rfl, by rwa [List.append_nil]⟩
  | cons c s ih =>
    obtain ⟨hc, hnext, hrest⟩ := joined_cons.mp hs
    obtain ⟨mode', hstep, hmode'⟩ := foldl_asciiChar L stack hmode hc fun hx => hpair hx c rfl
    have hpair' : endsHigh (x ++ [c]) = true → ∀ d ∈ s.head?, isLow d = false := by
      intro hends
      exact hnext (by simpa [endsHigh] using hends)
    obtain ⟨mode'', hfold, hmode''⟩ := ih hrest hmode' hpair'
    refine ⟨mode'', ?_, by simpa using hmode''⟩
    have hsplit : asciiEscape (c :: s) = asciiChar c ++ asciiEscape s := by simp [asciiEscape]
    rw [hsplit, List.foldl_append, hstep, hfold]

theorem scan_asciiString (L : Limits) (stack : List (Frame F)) (target : Target F) {s : Str} (hs : Joined s)
    (rest : Str) : scan L (.run stack (.str target [] none)) (asciiEscape s ++ [0x22] ++ rest) =
      scan L (closeString stack s target) rest := by
  have hstart : Holds target [] (.str target [] none) := ⟨[], none, rfl, rfl, fun h hh => by cases hh⟩
  obtain ⟨mode, hfold, acc, high, rfl, hflush, -⟩ :=
    foldl_asciiEscape L stack hs hstart fun hends => by cases hends
  rw [List.append_assoc, scan_append, hfold, List.singleton_append, scan_cons]
  rw [List.nil_append] at hflush
  show scan L (closeString stack (flush acc high) target) rest = _
  rw [hflush]

theorem stringReads_asciiEscape {s : Str} (hs : Joined s) : StringReads F asciiEscape s :=
  fun L stack target rest => scan_asciiString L stack target hs rest

end JsonScan

/-! ## §2 — Texts -/

namespace Json

variable {F : Type} [PyFloat F]

/-- `json.dumps(v)`, with the separators of `layout`. -/
def ascii (layout : Layout) (v : Json F) : Str := v.dumpsWith asciiEscape layout

/-- `json.dumps`, with what it raises beyond the limits. -/
def asciiWithin (L : Limits) (layout : Layout) (v : Json F) : Except JsonFault Str :=
  if L.nesting < depth v then .error .recursion
  else if intsWithin L.digits v then .ok (v.ascii layout) else .error .value

theorem asciiWithin_ok {L : Limits} {layout : Layout} {v : Json F} {text : Str} :
    v.asciiWithin L layout = .ok text ↔ v.Fits L ∧ text = v.ascii layout := by
  unfold asciiWithin
  constructor
  · intro h
    split at h
    · cases h
    · next hdepth =>
        split at h
        · next hints => exact ⟨⟨hints, by omega⟩, (Except.ok.inj h).symm⟩
        · cases h
  · rintro ⟨⟨hints, hdepth⟩, rfl⟩
    rw [if_neg (by omega), if_pos hints]

/-- **Round trip.** -/
theorem loads_ascii {L : Limits} {layout : Layout} {v : Json F} (hfits : v.Fits L) (hstrings : ∀ s ∈ v.strings, Joined s)
    {after : Str} (hafter : ∀ c ∈ after, isJsonSpace c = true) : loads L (v.ascii layout ++ after) = .ok v.dict := by
  have hscan := @JsonScan.scan_dumpsWith_top F _ L asciiEscape layout v hfits
    (fun s hs => JsonScan.stringReads_asciiEscape (hstrings s hs)) [] after (by simp) hafter
  exact loads_of_scan hscan

/-- The text names the value. -/
theorem ascii_injective {layout : Layout} {v w : Json F} (hv : ∀ s ∈ v.strings, Joined s)
    (hw : ∀ s ∈ w.strings, Joined s) (h : v.ascii layout = w.ascii layout) : v = w := by
  obtain ⟨n, hn⟩ := exists_intsWithin v
  obtain ⟨m, hm⟩ := exists_intsWithin w
  have hread : ∀ u : Json F, (∀ s ∈ u.strings, Joined s) → u.Fits ⟨max n m, max v.depth w.depth⟩ →
      JsonScan.scan ⟨max n m, max v.depth w.depth⟩ JsonScan.start (u.ascii layout) = .ok u := by
    intro u hu hfits
    have hscan := @JsonScan.scan_dumpsWith_top F _ _ asciiEscape layout u hfits
      (fun s hs => JsonScan.stringReads_asciiEscape (hu s hs)) [] [] (by simp) (by simp)
    simpa [ascii] using hscan
  have hv' := hread v hv ⟨hn _ (le_max_left n m), le_max_left _ _⟩
  have hw' := hread w hw ⟨hm _ (le_max_right n m), le_max_right _ _⟩
  rw [h, hw'] at hv'
  exact (Except.ok.inj hv').symm

/-- The character is printable and ASCII. -/
def Printable (c : Nat) : Prop := 0x20 ≤ c ∧ c < 0x7f

omit [PyFloat F] in
theorem printable_asciiEscape {s : Str} (hs : Joined s) : ∀ c ∈ asciiEscape s, Printable c := by
  have hunit : ∀ u < 0x10000, ∀ c ∈ unitEscape u, Printable c := by
    have hdigit : ∀ d < 16, Printable (hexDigit d) := by unfold Printable; decide
    intro u hu c hc
    simp only [unitEscape, List.mem_cons, List.not_mem_nil, or_false] at hc
    rcases hc with rfl | rfl | rfl | rfl | rfl | rfl
    · exact ⟨by decide, by decide⟩
    · exact ⟨by decide, by decide⟩
    all_goals exact hdigit _ (by omega)
  have hbound : ∀ c ∈ s, c < 0x110000 := by
    induction s with
    | nil => exact fun c hc => by cases hc
    | cons d s ih =>
      obtain ⟨hd, -, hrest⟩ := JsonScan.joined_cons.mp hs
      exact List.forall_mem_cons.mpr ⟨hd, ih hrest⟩
  intro c hc
  obtain ⟨d, hd, hc⟩ := List.mem_flatMap.mp hc
  have hd := hbound d hd
  unfold asciiChar at hc
  split at hc
  · next hlow =>
      have hesc := (escapeChar_written d).2 c hc
      refine ⟨hesc.1, ?_⟩
      by_contra hnot
      have := hesc.2 (by omega)
      omega
  split at hc
  · next h => exact hunit d h c hc
  · rcases List.mem_append.mp hc with hc | hc
    · exact hunit _ (by omega) c hc
    · exact hunit _ (by omega) c hc

/-- **What `json.dumps` writes** is printable ASCII. -/
theorem printable_ascii {layout : Layout} {v : Json F} (hstrings : ∀ s ∈ v.strings, Joined s) :
    ∀ c ∈ v.ascii layout, Printable c := by
  have hbody : ∀ s ∈ v.strings, WrittenFrom [] (asciiEscape s) := fun s hs =>
    writtenFrom_ascii (printable_asciiEscape (hstrings s hs))
  intro c hc
  obtain ⟨hlow, hhigh⟩ := writtenFrom_dumpsWith hbody c hc
  refine ⟨hlow, ?_⟩
  by_contra hnot
  obtain ⟨s, hs, -⟩ := hhigh (by omega)
  cases hs

omit [PyFloat F] in
theorem mem_of_lookup {k : Str} {v : Json F} {members : List (Str × Json F)} (h : lookup k members = some v) :
    (k, v) ∈ members := by
  induction members with
  | nil => cases h
  | cons m members ih =>
    rw [lookup] at h
    split at h
    · next hk =>
        obtain rfl := Option.some.inj h
        rw [← hk]
        exact List.mem_cons_self
    · exact List.mem_cons_of_mem _ (ih h)

omit [PyFloat F] in
theorem mem_dictMembers {members : List (Str × Json F)} {m : Str × Json F} (h : m ∈ dictMembers members) :
    ∃ v, (m.1, v) ∈ members ∧ m.2 = v.dict := by
  induction members with
  | nil => cases h
  | cons b members ih =>
    obtain ⟨k, v⟩ := b
    rw [dictMembers, putFirst] at h
    split at h
    · rcases List.mem_cons.mp h with rfl | h
      · exact ⟨v, by simp, rfl⟩
      · obtain ⟨w, hw, hm⟩ := ih h
        exact ⟨w, by simp [hw], hm⟩
    · next later hlookup =>
        rcases List.mem_cons.mp h with rfl | h
        · obtain ⟨w, hw, hm⟩ := ih (mem_of_lookup hlookup)
          exact ⟨w, by simp [hw], hm⟩
        · obtain ⟨w, hw, hm⟩ := ih (List.mem_filter.mp h).1
          exact ⟨w, by simp [hw], hm⟩

omit [PyFloat F] in
/-- A dictionary built from pairs has no other strings. -/
theorem mem_strings_dict {v : Json F} {s : Str} (h : s ∈ v.dict.strings) : s ∈ v.strings := by
  induction v using Json.induct with
  | arr items ih =>
    have hitems : ∀ items : List (Json F), dictItems items = items.map dict := by
      intro items
      induction items with
      | nil => rfl
      | cons v items ih => rw [dictItems, ih, List.map_cons]
    rw [dict, strings, hitems] at h
    obtain ⟨w, hw, hs⟩ := mem_stringsItems.mp h
    obtain ⟨v, hv, rfl⟩ := List.mem_map.mp hw
    exact mem_stringsItems.mpr ⟨v, hv, ih v hv hs⟩
  | obj members ih =>
    rw [dict, strings] at h
    obtain ⟨m, hm, hs⟩ := mem_stringsMembers.mp h
    obtain ⟨v, hv, hdict⟩ := mem_dictMembers hm
    refine mem_stringsMembers.mpr ⟨(m.1, v), hv, hs.imp_right fun hs => ?_⟩
    rw [hdict] at hs
    exact ih (m.1, v) hv hs
  | _ => exact h

end Json

/-! ## §3 — What the scanner reads -/

namespace JsonScan

variable {F : Type}

/-- A value without pairs. -/
def JoinedValue (v : Json F) : Prop := ∀ s ∈ v.strings, Joined s

def JoinedMembers (members : List (Str × Json F)) : Prop := ∀ m ∈ members, Joined m.1 ∧ JoinedValue m.2

theorem joinedValue_str {s : Str} : JoinedValue (.str s : Json F) ↔ Joined s :=
  ⟨fun h => h s List.mem_cons_self, fun h _ ht => List.mem_singleton.mp ht ▸ h⟩

theorem joinedValue_arr {items : List (Json F)} : JoinedValue (.arr items) ↔ ∀ v ∈ items, JoinedValue v := by
  constructor
  · intro h v hv s hs
    exact h s (Json.mem_stringsItems.mpr ⟨v, hv, hs⟩)
  · intro h s hs
    obtain ⟨v, hv, hs⟩ := Json.mem_stringsItems.mp hs
    exact h v hv s hs

theorem joinedValue_obj {members : List (Str × Json F)} : JoinedValue (.obj members) ↔ JoinedMembers members := by
  constructor
  · intro h m hm
    exact ⟨h m.1 (Json.mem_stringsMembers.mpr ⟨m, hm, .inl rfl⟩),
      fun s hs => h s (Json.mem_stringsMembers.mpr ⟨m, hm, .inr hs⟩)⟩
  · intro h s hs
    obtain ⟨m, hm, rfl | hs⟩ := Json.mem_stringsMembers.mp hs
    · exact (h m hm).1
    · exact (h m hm).2 s hs

def JoinedFrame : Frame F → Prop
  | .arr items => ∀ v ∈ items, JoinedValue v
  | .obj members key => JoinedMembers members ∧ Joined key

def JoinedTarget : Target F → Prop
  | .value => True
  | .key members => JoinedMembers members

/-- The characters so far end in a high surrogate only where it waits for its pair. -/
def JoinedText (acc : Str) : Option Nat → Prop
  | none => Joined acc ∧ endsHigh acc = false
  | some h => Joined acc ∧ isHigh h = true

def JoinedMode : Mode F → Prop
  | .key members => JoinedMembers members
  | .colon members key => JoinedMembers members ∧ Joined key
  | .str target acc high => JoinedTarget target ∧ JoinedText acc high
  | .esc target acc high => JoinedTarget target ∧ JoinedText acc high
  | .hex target acc high unit missing =>
    JoinedTarget target ∧ JoinedText acc high ∧ 1 ≤ missing ∧ missing ≤ 4 ∧ (unit + 1) * 16 ^ missing ≤ 0x10000
  | .done v => JoinedValue v
  | _ => True

def JoinedState : State F → Prop
  | .fail _ => True
  | .run stack mode => (∀ frame ∈ stack, JoinedFrame frame) ∧ JoinedMode mode

/-- A character that is no surrogate. -/
def Scalar (c : Nat) : Prop := c < 0x110000 ∧ isHigh c = false ∧ isLow c = false

theorem joined_append {s : Str} {c : Nat} (hs : Joined s) (hc : c < 0x110000)
    (hpair : endsHigh s = true → isLow c = false) : Joined (s ++ [c]) := by
  induction s with
  | nil => exact hc
  | cons d s ih =>
    obtain ⟨hd, hnext, hrest⟩ := joined_cons.mp hs
    cases s with
    | nil => exact ⟨hd, fun h => absurd (hpair (by simpa [endsHigh] using h.1)) (by simp [h.2]), hc⟩
    | cons e s =>
      refine joined_cons.mpr ⟨hd, fun hhigh x hx => hnext hhigh x (by simpa using hx), ih hrest fun hends => ?_⟩
      exact hpair (by simpa [endsHigh] using hends)

theorem endsHigh_append (s : Str) (c : Nat) : endsHigh (s ++ [c]) = isHigh c := by
  simp [endsHigh]

theorem JoinedText.flush {acc : Str} {high : Option Nat} (h : JoinedText acc high) : Joined (flush acc high) := by
  cases high with
  | none => exact h.1
  | some u =>
    have hu := h.2
    simp only [isHigh, Bool.and_eq_true, decide_eq_true_eq] at hu
    refine joined_append h.1 (by omega) fun _ => ?_
    simp only [isLow, Bool.and_eq_false_iff, decide_eq_false_iff_not]
    omega

theorem JoinedText.push {acc : Str} {high : Option Nat} (h : JoinedText acc high) {c : Nat} (hc : Scalar c) :
    JoinedText (JsonScan.flush acc high ++ [c]) none :=
  ⟨joined_append h.flush hc.1 fun _ => hc.2.2, by rw [endsHigh_append, hc.2.1]⟩

theorem joinedMode_putUnit {target : Target F} {acc : Str} {high : Option Nat} {u : Nat} (htarget : JoinedTarget target)
    (h : JoinedText acc high) (hu : u < 0x10000) : JoinedMode (putUnit target acc high u) := by
  cases high with
  | none =>
    unfold putUnit
    dsimp only
    split
    · next hhigh => exact ⟨htarget, h.1, hhigh⟩
    · next hhigh =>
        refine ⟨htarget, joined_append h.1 (by omega) fun hends => ?_, ?_⟩
        · rw [h.2] at hends
          cases hends
        · rw [endsHigh_append]
          simpa using hhigh
  | some w =>
    have hw := h.2
    simp only [isHigh, Bool.and_eq_true, decide_eq_true_eq] at hw
    unfold putUnit
    dsimp only
    split
    · next hlow =>
        simp only [isLow, Bool.and_eq_true, decide_eq_true_eq] at hlow
        have hplain : Scalar (0x10000 + (w - 0xd800) * 0x400 + (u - 0xdc00)) := by
          refine ⟨by omega, ?_, ?_⟩
          · simp only [isHigh, Bool.and_eq_false_iff, decide_eq_false_iff_not]
            omega
          · simp only [isLow, Bool.and_eq_false_iff, decide_eq_false_iff_not]
            omega
        exact ⟨htarget, joined_append h.1 hplain.1 fun _ => hplain.2.2, by rw [endsHigh_append, hplain.2.1]⟩
    · next hlow =>
        split
        · next hhigh => exact ⟨htarget, h.flush, hhigh⟩
        · next hhigh =>
            refine ⟨htarget, ?_, ?_⟩
            · have := joined_append (c := u) h.flush (by omega) fun _ => by simpa using hlow
              simpa [flush] using this
            · have := endsHigh_append (acc ++ [w]) u
              rw [List.append_assoc] at this
              rw [show acc ++ [w, u] = acc ++ ([w] ++ [u]) from rfl, this]
              simpa using hhigh

theorem joinedState_closeString {stack : List (Frame F)} {s : Str} {target : Target F}
    (hstack : ∀ frame ∈ stack, JoinedFrame frame) (htarget : JoinedTarget target) (hs : Joined s) :
    JoinedState (closeString stack s target) := by
  cases target with
  | value => exact ⟨hstack, joinedValue_str.mpr hs⟩
  | key members => exact ⟨hstack, htarget, hs⟩

theorem joinedState_stepDone {stack : List (Frame F)} {v : Json F} (hstack : ∀ frame ∈ stack, JoinedFrame frame)
    (hv : JoinedValue v) (c : Nat) : JoinedState (stepDone stack v c) := by
  unfold stepDone
  split
  · exact ⟨hstack, hv⟩
  split
  · trivial
  · next items stack =>
      obtain ⟨hitems, hrest⟩ := List.forall_mem_cons.mp hstack
      have hall : ∀ w ∈ items ++ [v], JoinedValue w := by
        intro w hw
        rcases List.mem_append.mp hw with hw | hw
        · exact hitems w hw
        · rwa [List.mem_singleton.mp hw]
      split
      · exact ⟨List.forall_mem_cons.mpr ⟨hall, hrest⟩, trivial⟩
      split
      · exact ⟨hrest, joinedValue_arr.mpr hall⟩
      · trivial
  · next members key stack =>
      obtain ⟨⟨hmembers, hkey⟩, hrest⟩ := List.forall_mem_cons.mp hstack
      have hall : JoinedMembers (members ++ [(key, v)]) := by
        intro m hm
        rcases List.mem_append.mp hm with hm | hm
        · exact hmembers m hm
        · rw [List.mem_singleton.mp hm]
          exact ⟨hkey, hv⟩
      split
      · exact ⟨hrest, hall⟩
      split
      · exact ⟨hrest, joinedValue_obj.mpr hall⟩
      · trivial

variable [PyFloat F]

omit [PyFloat F] in
theorem joinedState_startValue {L : Limits} {stack : List (Frame F)} (hstack : ∀ frame ∈ stack, JoinedFrame frame)
    (c : Nat) : JoinedState (startValue L stack c) := by
  unfold startValue
  repeat' split
  all_goals trivial

theorem joinedValue_closeNumber {L : Limits} {token : Str} {v : Json F} (h : closeNumber L token = .ok v) :
    JoinedValue v := by
  unfold closeNumber at h
  repeat' split at h
  all_goals first
    | cases h
      exact fun s hs => nomatch hs
    | cases h

/-- **One character** that is no surrogate makes no pair. -/
theorem joinedState_step {L : Limits} {s : State F} (hs : JoinedState s) {c : Nat} (hc : Scalar c) :
    JoinedState (step L s c) := by
  cases s with
  | fail fault => trivial
  | run stack mode =>
    obtain ⟨hstack, hmode⟩ := hs
    cases mode with
    | value =>
      rw [step]
      split
      · exact ⟨hstack, trivial⟩
      · exact joinedState_startValue hstack c
    | item =>
      rw [step]
      split
      · exact ⟨hstack, trivial⟩
      split
      · exact ⟨hstack, fun s hs => absurd hs List.not_mem_nil⟩
      · have hempty : JoinedFrame (.arr [] : Frame F) := fun v hv => absurd hv List.not_mem_nil
        exact joinedState_startValue (List.forall_mem_cons.mpr ⟨hempty, hstack⟩) c
    | firstKey =>
      rw [step]
      split
      · exact ⟨hstack, trivial⟩
      split
      · exact ⟨hstack, fun s hs => absurd hs List.not_mem_nil⟩
      split
      · exact ⟨hstack, fun m hm => absurd hm List.not_mem_nil, trivial, rfl⟩
      · trivial
    | key members =>
      rw [step]
      split
      · exact ⟨hstack, hmode⟩
      split
      · exact ⟨hstack, hmode, trivial, rfl⟩
      · trivial
    | colon members key =>
      rw [step]
      split
      · exact ⟨hstack, hmode⟩
      split
      · exact ⟨List.forall_mem_cons.mpr ⟨hmode, hstack⟩, trivial⟩
      · trivial
    | str target acc high =>
      rw [step]
      split
      · exact joinedState_closeString hstack hmode.1 hmode.2.flush
      split
      · exact ⟨hstack, hmode⟩
      split
      · trivial
      · exact ⟨hstack, hmode.1, hmode.2.push hc⟩
    | esc target acc high =>
      rw [step]
      split
      · exact ⟨hstack, hmode.1, hmode.2, by decide, by decide, by decide⟩
      split
      · next d hd =>
          have hplain : Scalar d := by
            unfold unescape at hd
            repeat' split at hd
            all_goals first
              | cases hd
                exact ⟨by decide, by decide, by decide⟩
              | cases hd
          exact ⟨hstack, hmode.1, hmode.2.push hplain⟩
      · trivial
    | hex target acc high unit missing =>
      obtain ⟨htarget, htext, hlow, hhigh, hunit⟩ := hmode
      rw [step]
      split
      · trivial
      · next d hd =>
          have hdigit : d < 16 := by
            unfold hexValue at hd
            repeat' split at hd
            all_goals first
              | (obtain rfl := Option.some.inj hd
                 simp only [isDigit, Bool.and_eq_true, decide_eq_true_eq] at *
                 omega)
              | cases hd
          split
          · next hone =>
              have hu : unit * 16 + d < 0x10000 := by
                rw [hone, pow_one] at hunit
                omega
              exact ⟨hstack, joinedMode_putUnit htarget htext hu⟩
          · next hmore =>
              have hpow : 16 ^ missing = 16 * 16 ^ (missing - 1) := by
                rw [← pow_succ']
                congr 1
                omega
              have hnext : (unit * 16 + d + 1) * 16 ^ (missing - 1) ≤ 0x10000 := by
                calc (unit * 16 + d + 1) * 16 ^ (missing - 1)
                    ≤ ((unit + 1) * 16) * 16 ^ (missing - 1) := Nat.mul_le_mul_right _ (by omega)
                  _ = (unit + 1) * 16 ^ missing := by rw [hpow, Nat.mul_assoc]
                  _ ≤ 0x10000 := hunit
              exact ⟨hstack, htarget, htext, by omega, by omega, hnext⟩
    | num token =>
      rw [step]
      unfold stepNumber
      split
      · exact ⟨hstack, trivial⟩
      split
      · exact ⟨hstack, trivial⟩
      split
      · trivial
      · next v hv => exact joinedState_stepDone hstack (joinedValue_closeNumber hv) c
    | lit l read =>
      rw [step]
      unfold stepLiteral
      split
      · split
        · exact ⟨hstack, by cases l <;> exact fun s hs => absurd hs List.not_mem_nil⟩
        · exact ⟨hstack, trivial⟩
      · trivial
    | done v =>
      rw [step]
      exact joinedState_stepDone hstack hmode c

/-- **What is read from a text without surrogates** has no pair. -/
theorem joined_of_loads {L : Limits} {text : Str} (htext : ∀ c ∈ text, Scalar c) {v : Json F}
    (h : Json.loads L text = .ok v) : JoinedValue v := by
  have hrun : ∀ (text : Str) (s : State F), (∀ c ∈ text, Scalar c) → JoinedState s →
      JoinedState (text.foldl (step L) s) := by
    intro text
    induction text with
    | nil => exact fun s _ hs => hs
    | cons c text ih =>
      intro s htext hs
      exact ih _ (fun d hd => htext d (by simp [hd])) (joinedState_step hs (htext c (by simp)))
  have hend := hrun text start htext ⟨by simp, trivial⟩
  obtain ⟨w, hscan, rfl⟩ := Json.scan_of_loads h
  suffices hw : JoinedValue w from fun s hs => hw s (Json.mem_strings_dict hs)
  unfold scan finish at hscan
  split at hscan
  · cases hscan
  · next v hstate =>
      rw [hstate] at hend
      rw [← Except.ok.inj hscan]
      exact hend.2
  · next hstate =>
      split at hscan
      · cases hscan
      · next v hv =>
          split at hscan
          · rw [← Except.ok.inj hscan]
            exact joinedValue_closeNumber hv
          · cases hscan
  · cases hscan

/-! ## §4 — Bytes -/

/-- What a character is that `owed` more bytes complete, of which the next is between `low` and `high`. -/
def Completes : Nat → Nat → Nat → Nat → Prop
  | 0, _, _, _ => True
  | 1, value, low, high => ∀ b, low ≤ b → b ≤ high → Scalar (value * 64 + (b - 0x80))
  | owed + 2, value, low, high => ∀ b, low ≤ b → b ≤ high → Completes (owed + 1) (value * 64 + (b - 0x80)) 0x80 0xbf

theorem scalar_iff {c : Nat} : Scalar c ↔ c < 0x110000 ∧ ¬ (0xd800 ≤ c ∧ c ≤ 0xdfff) := by
  simp only [Scalar, isHigh, isLow, Bool.and_eq_false_iff, decide_eq_false_iff_not]
  omega

theorem scalar_of_decodeFrom {bytes : Bytes} {owed value low high : Nat} {text : Str}
    (hstate : Completes owed value low high) (h : decodeFrom owed value low high bytes = some text) :
    ∀ c ∈ text, Scalar c := by
  induction bytes generalizing owed value low high text with
  | nil =>
    cases owed with
    | zero =>
      obtain rfl := Option.some.inj h
      exact fun c hc => by cases hc
    | succ owed => cases h
  | cons b bytes ih =>
    cases owed with
    | zero =>
      unfold decodeFrom at h
      split at h
      · next hone =>
          obtain ⟨rest, hrest, rfl⟩ := Option.map_eq_some_iff.mp h
          exact List.forall_mem_cons.mpr ⟨scalar_iff.mpr (by omega), ih (by trivial : Completes 0 0 0 0) hrest⟩
      -- The first byte fixes how many follow, and between what the second one is.
      split at h
      · refine ih ?_ h
        intro c hlow hhigh
        exact scalar_iff.mpr (by omega)
      split at h
      · refine ih ?_ h
        intro c hlow hhigh d hlow' hhigh'
        refine scalar_iff.mpr ?_
        split at hlow <;> split at hhigh <;> omega
      split at h
      · refine ih ?_ h
        intro c hlow hhigh d hlow' hhigh' e hlow'' hhigh''
        refine scalar_iff.mpr ?_
        split at hlow <;> split at hhigh <;> omega
      · cases h
    | succ owed =>
      unfold decodeFrom at h
      split at h
      · next hrange =>
          split at h
          · next howed =>
              subst howed
              obtain ⟨rest, hrest, rfl⟩ := Option.map_eq_some_iff.mp h
              exact List.forall_mem_cons.mpr ⟨hstate b hrange.1 hrange.2, ih (by trivial : Completes 0 0 0 0) hrest⟩
          · next howed =>
              obtain ⟨owed, rfl⟩ := Nat.exists_eq_succ_of_ne_zero howed
              exact ih (hstate b hrange.1 hrange.2) h
      · cases h

theorem scalar_of_decodeUtf8 {bytes : Bytes} {text : Str} (h : decodeUtf8 bytes = some text) : ∀ c ∈ text, Scalar c :=
  scalar_of_decodeFrom (by trivial : Completes 0 0 0 0) h

theorem joined_of_scalar {s : Str} (h : ∀ c ∈ s, Scalar c) : Joined s := by
  induction s with
  | nil => trivial
  | cons c s ih =>
    obtain ⟨hc, hrest⟩ := List.forall_mem_cons.mp h
    refine joined_cons.mpr ⟨hc.1, fun hhigh => ?_, ih hrest⟩
    exact absurd hhigh (by simp [hc.2.1])

theorem joined_ascii {s : Str} (h : ∀ c ∈ s, c < 0x80) : Joined s :=
  joined_of_scalar fun c hc => scalar_iff.mpr (by have := h c hc; omega)

omit [PyFloat F]

theorem joined_member {k : Str} (hk : ∀ c ∈ k, c < 0x80) {v : Json F} (hv : JoinedValue v) :
    Joined (k, v).1 ∧ JoinedValue (k, v).2 :=
  ⟨joined_ascii hk, hv⟩

theorem joinedMembers_nil : JoinedMembers ([] : List (Str × Json F)) := List.forall_mem_nil _

theorem joinedMembers_cons {k : Str} (hk : ∀ c ∈ k, c < 0x80) {v : Json F} (hv : JoinedValue v)
    {members : List (Str × Json F)} (h : JoinedMembers members) : JoinedMembers ((k, v) :: members) :=
  List.forall_mem_cons.mpr ⟨joined_member hk hv, h⟩

theorem joinedMembers_text {k s : Str} (hk : ∀ c ∈ k, c < 0x80) (hs : Joined s) {members : List (Str × Json F)}
    (h : JoinedMembers members) : JoinedMembers ((k, .str s) :: members) :=
  joinedMembers_cons hk (joinedValue_str.mpr hs) h

end JsonScan

end Autophagy.Python
