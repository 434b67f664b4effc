/-
# Autophagy.Mail.Mode — the mode of the mail commands.

`effective_mode` of `skills/mail/scripts/triage_mode.py`. The runtime file is to win over the seed of the repository,
and anything unreadable to mean `no-go`. The loop over the two files goes on to the seed whenever the runtime file says
nothing that it understands, so a damaged file gives the mode of the seed; and content of other kinds raises
(`mode_fails_closed_iff`).
-/
import Autophagy.Approval.PendingFile
import Autophagy.Mail.Gate
import Autophagy.Python.JsonFile
import Autophagy.Python.Sample

namespace Autophagy.Mail

open Autophagy.Python Autophagy.Effect Autophagy.Approval

/-! ## §1 — The two files -/

/-- `MODES` -/
def modes : List Str := ["no-go", "read-go", "full-go"]

/-- What resolving the mode raises: from reading a file, or `AttributeError` where the JSON is no object. -/
inductive ModeFault
  | read (fault : RecordFault)
  | attribute
  deriving DecidableEq

namespace TriageMode

variable (F : Type) [PyFloat F] (L : Limits)

/-- The mode a file gives; none where the loop goes on. The file may be missing. -/
def modeIn (file : Option PendingFile) : Except ModeFault (Option Str) :=
  match file with
  | none => .ok none
  | some file =>
    match readJson (F := F) L file with
    | .error .os => .ok none
    | .error (.json .decode) => .ok none
    | .error fault => .error (.read fault)
    | .ok (.obj members) =>
      match Json.lookup "mode" members with
      | some (.str mode) => .ok (if mode ∈ modes then some mode else none)
      | _ => .ok none
    | .ok _ => .error .attribute

/-- `effective_mode`; `shadows` is `_runtime_path_shadows_seed`. -/
def effectiveMode (shadows : Bool) (runtime seed : Option PendingFile) : Except ModeFault Str :=
  if shadows then .ok "no-go"
  else do
    match ← modeIn F L runtime with
    | some mode => return mode
    | none =>
      match ← modeIn F L seed with
      | some mode => return mode
      | none => return "no-go"

/-! ## §2 — Content -/

/-- The file holds an object with this mode. -/
def Names (mode : Str) (file : PendingFile) : Prop :=
  ∃ members, readJson (F := F) L file = .ok (.obj members) ∧ Json.lookup "mode" members = some (.str mode)

/-- The file holds a valid mode object. -/
def ValidMode (file : PendingFile) : Prop := ∃ mode ∈ modes, Names F L mode file

/-- The seed is missing, or a reader of objects survives it and it names no mode that lets anything happen. -/
def GrantsNothing (seed : Option PendingFile) : Prop :=
  ∀ file ∈ seed, ClosedContent F L file ∧ ¬ Names F L "read-go" file ∧ ¬ Names F L "full-go" file

variable {F L}

theorem modeIn_some_iff {file : PendingFile} {mode : Str} :
    modeIn F L (some file) = .ok (some mode) ↔ mode ∈ modes ∧ Names F L mode file := by
  unfold modeIn Names
  cases hread : readJson (F := F) L file with
  | error fault =>
    cases fault with
    | json fault => cases fault <;> simp [hread]
    | _ => simp [hread]
  | ok value =>
    cases value with
    | obj members =>
      cases hlookup : Json.lookup "mode" members with
      | none => simp [hread, hlookup]
      | some found =>
        cases found with
        | str name =>
          by_cases hname : name ∈ modes
          · simp only [hread, hlookup, if_pos hname, Except.ok.injEq, Option.some.injEq, Json.obj.injEq, Json.str.injEq,
              exists_eq_left']
            exact ⟨fun h => ⟨h ▸ hname, h⟩, fun h => h.2⟩
          · simp only [hread, hlookup, if_neg hname, Except.ok.injEq, reduceCtorEq, Json.obj.injEq, Json.str.injEq,
              exists_eq_left', Option.some.injEq, false_iff, not_and]
            exact fun hmode h => hname (h ▸ hmode)
        | _ => simp [hread, hlookup]
    | _ => simp [hread]

theorem modeIn_none_iff {file : PendingFile} :
    modeIn F L (some file) = .ok none ↔ ClosedContent F L file ∧ ¬ ValidMode F L file := by
  rw [closedContent_iff, ValidMode]
  unfold modeIn Names
  cases hread : readJson (F := F) L file with
  | error fault =>
    cases fault with
    | os => simp [hread]
    | json fault => cases fault <;> simp [hread]
    | _ => simp [hread]
  | ok value =>
    cases value with
    | obj members =>
      cases hlookup : Json.lookup "mode" members with
      | none => simp [hread, hlookup]
      | some found =>
        cases found with
        | str mode => simp [hread, hlookup]
        | _ => simp [hread, hlookup]
    | _ => simp [hread]

theorem seed_noGo_iff {seed : Option PendingFile} :
    (modeIn F L seed = .ok none ∨ modeIn F L seed = .ok (some "no-go")) ↔ GrantsNothing F L seed := by
  cases seed with
  | none => exact ⟨fun _ _ h => (nomatch h), fun _ => .inl rfl⟩
  | some file =>
    rw [modeIn_none_iff, modeIn_some_iff]
    have hunique : ∀ {mode mode'}, Names F L mode file → Names F L mode' file → mode = mode' := by
      rintro mode mode' ⟨members, hread, hlookup⟩ ⟨members', hread', hlookup'⟩
      obtain rfl := Json.obj.inj (Except.ok.inj (hread.symm.trans hread'))
      exact Json.str.inj (Option.some.inj (hlookup.symm.trans hlookup'))
    constructor
    · rintro (⟨hclosed, hinvalid⟩ | ⟨-, hnames⟩) other hother
      · obtain rfl := Option.some.inj hother
        exact ⟨hclosed, fun h => hinvalid ⟨_, by decide, h⟩, fun h => hinvalid ⟨_, by decide, h⟩⟩
      · obtain rfl := Option.some.inj hother
        have hclosed : ClosedContent F L file := by
          obtain ⟨members, hread, -⟩ := hnames
          exact closedContent_iff.mpr (.inr (.inr ⟨members, hread⟩))
        exact ⟨hclosed, fun h => absurd (hunique hnames h) (by decide), fun h => absurd (hunique hnames h) (by decide)⟩
    · intro h
      obtain ⟨hclosed, hread, hfull⟩ := h file rfl
      by_cases hno : Names F L "no-go" file
      · exact .inr ⟨by decide, hno⟩
      · refine .inl ⟨hclosed, ?_⟩
        rintro ⟨mode, hmode, hnames⟩
        rcases List.mem_cons.mp hmode with rfl | hmode
        · exact hno hnames
        rcases List.mem_cons.mp hmode with rfl | hmode
        · exact hread hnames
        · rw [List.mem_singleton.mp hmode] at hnames
          exact hfull hnames

theorem effectiveMode_noGo_iff {shadows : Bool} {runtime : PendingFile} {seed : Option PendingFile}
    (hinvalid : ¬ ValidMode F L runtime) :
    effectiveMode F L shadows (some runtime) seed = .ok "no-go" ↔
      shadows = true ∨ (ClosedContent F L runtime ∧ GrantsNothing F L seed) := by
  cases shadows with
  | true => simp [effectiveMode]
  | false =>
    rw [← seed_noGo_iff]
    by_cases hclosed : ClosedContent F L runtime
    · have hruntime : modeIn F L (some runtime) = .ok none := modeIn_none_iff.mpr ⟨hclosed, hinvalid⟩
      rw [effectiveMode, if_neg (by simp), hruntime]
      show (modeIn F L seed >>= _) = _ ↔ _
      cases modeIn F L seed with
      | error fault => simp [bind, Except.bind]
      | ok found => cases found <;> simp [bind, Except.bind, pure, Except.pure, hclosed]
    · have hruntime : ∀ found, modeIn F L (some runtime) ≠ .ok found := by
        intro found h
        cases found with
        | none => exact hclosed (modeIn_none_iff.mp h).1
        | some mode => exact hinvalid ⟨mode, modeIn_some_iff.mp h⟩
      rw [effectiveMode, if_neg (by simp)]
      cases h : modeIn F L (some runtime) with
      | error fault => simp [bind, Except.bind, hclosed]
      | ok found => exact absurd h (hruntime found)

end TriageMode

/-! ## §3 — The commands that send -/

/-- A mail is handed to one of the two backends. -/
def Op.Sends {F : Type} : Op F → Prop
  | .runSend _ _ => True
  | .executeGmail _ _ => True
  | _ => False

section Senders

variable {F : Type}

/-- Nothing is sent. -/
def SendsNothing (trace : List (Event (Res (F := F)))) : Prop := ∀ e ∈ trace, ¬ e.op.Sends

variable {trace : List (Event (Res (F := F)))} {out : Option Unit}

theorem runs_raise {fault : MailFault} (run : Runs (raise fault : Act F Unit) trace out) : trace = [] := by
  cases run with
  | stop => rfl
  | @call _ _ r _ _ rest => exact r.elim

variable [PyFloat F] {host : Host F}

theorem executeDraft_silent {draft : Draft F} {approval : Approval}
    (run : Runs (executeDraft host draft approval) trace out)
    (htold : ∀ answer : Str, ⟨.effectiveMode, answer⟩ ∈ trace → answer = Str.of "no-go") : SendsNothing trace := by
  unfold executeDraft at run
  cases hcheck : checkHash host draft with
  | error fault =>
    rw [hcheck] at run
    cases run with
    | stop => exact fun e he => nomatch he
    | @call _ _ r _ _ rest => exact r.elim
  | ok _ =>
    rw [hcheck] at run
    cases run with
    | stop => exact fun e he => nomatch he
    | @call _ _ mode _ _ rest =>
      obtain rfl : mode = Str.of "no-go" := htold mode List.mem_cons_self
      change Runs (raise (.gate 3) : Act F Unit) _ _ at rest
      obtain rfl := runs_raise rest
      intro e he
      rw [List.mem_singleton.mp he]
      exact id

theorem cmdWatch_silent (run : Runs (cmdWatch host) trace out)
    (htold : ∀ answer : Str, ⟨.effectiveMode, answer⟩ ∈ trace → answer = Str.of "no-go") : SendsNothing trace := by
  unfold cmdWatch at run
  cases run with
  | stop => exact fun e he => nomatch he
  | @call _ _ testing _ _ rest =>
    cases testing with
    | true =>
      obtain rfl := runs_raise rest
      intro e he
      rw [List.mem_singleton.mp he]
      exact id
    | false =>
      cases rest with
      | stop =>
        intro e he
        rw [List.mem_singleton.mp he]
        exact id
      | @call _ _ mode _ _ rest =>
        obtain rfl : mode = Str.of "no-go" := htold mode (List.mem_cons_of_mem _ List.mem_cons_self)
        change Runs (.ret () : Act F Unit) _ _ at rest
        cases rest with
        | ret =>
          intro e he
          rcases List.mem_cons.mp he with rfl | he
          · exact id
          · rw [List.mem_singleton.mp he]
            exact id
        | stop =>
          intro e he
          rcases List.mem_cons.mp he with rfl | he
          · exact id
          · rw [List.mem_singleton.mp he]
            exact id

variable (F) (L : Limits) (shadows : Bool) (runtime : PendingFile) (seed : Option PendingFile)

/-- The history is told the mode of the two files. -/
def ToldMode (trace : List (Event (Res (F := F)))) : Prop :=
  ∀ answer : Str, ⟨.effectiveMode, answer⟩ ∈ trace →
    TriageMode.effectiveMode F L shadows (some runtime) seed = .ok answer

/-- A runtime file that is no valid mode object means `no-go`: nothing is raised, and the commands that ask for the mode
send nothing. -/
def ModeFailsClosed : Prop :=
  ¬ TriageMode.ValidMode F L runtime →
    TriageMode.effectiveMode F L shadows (some runtime) seed = .ok (Str.of "no-go") ∧
      ∀ (host : Host F) (trace : List (Event (Res (F := F)))) (out : Option Unit), ToldMode F L shadows runtime seed trace →
        (∀ draft approval, Runs (executeDraft host draft approval) trace out → SendsNothing trace) ∧
          (Runs (cmdWatch host) trace out → SendsNothing trace)

/-- **The mode fails closed** exactly where the runtime file is a valid mode object after all, or stands beside the
seed, or is passed over for a seed that grants nothing. -/
theorem mode_fails_closed_iff :
    ModeFailsClosed F L shadows runtime seed ↔
      TriageMode.ValidMode F L runtime ∨ shadows = true ∨
        (ClosedContent F L runtime ∧ TriageMode.GrantsNothing F L seed) := by
  by_cases hvalid : TriageMode.ValidMode F L runtime
  · exact ⟨fun _ => .inl hvalid, fun _ h => absurd hvalid h⟩
  · rw [← TriageMode.effectiveMode_noGo_iff hvalid]
    constructor
    · exact fun h => .inr (h hvalid).1
    · intro h _
      have hmode := h.resolve_left hvalid
      refine ⟨hmode, fun host trace out htold => ?_⟩
      have hnoGo : ∀ answer : Str, ⟨.effectiveMode, answer⟩ ∈ trace → answer = Str.of "no-go" := by
        intro answer hanswer
        have hfound := htold answer hanswer
        rw [hmode] at hfound
        exact (Except.ok.inj hfound).symm
      exact ⟨fun draft approval run => executeDraft_silent run hnoGo, fun run => cmdWatch_silent run hnoGo⟩

end Senders

/-! ## §4 — A damaged file -/

/-- What is left of a file that was cut off while it was written. -/
def cutFile : PendingFile := some (Str.of "\x7b\"mode\": \"no-g")

def fullGoSeed : PendingFile := some (Str.of "\x7b\"mode\": \"full-go\"\x7d")

/-- **A damaged runtime file lets the seed decide**: mail is sent again. -/
theorem cut_file_gives_full_go :
    ¬ TriageMode.ValidMode SampleFloat ⟨4300, 1000⟩ cutFile ∧
      TriageMode.effectiveMode SampleFloat ⟨4300, 1000⟩ false (some cutFile) (some fullGoSeed) = .ok (Str.of "full-go") ∧
        ¬ ModeFailsClosed SampleFloat ⟨4300, 1000⟩ false cutFile (some fullGoSeed) := by
  have hinvalid : ¬ TriageMode.ValidMode SampleFloat ⟨4300, 1000⟩ cutFile := by
    rintro ⟨mode, hmode, hnames⟩
    have hsome := TriageMode.modeIn_some_iff.mpr ⟨hmode, hnames⟩
    rw [show TriageMode.modeIn SampleFloat ⟨4300, 1000⟩ (some cutFile) = .ok none by decide +kernel] at hsome
    cases hsome
  have hmode : TriageMode.effectiveMode SampleFloat ⟨4300, 1000⟩ false (some cutFile) (some fullGoSeed) =
      .ok (Str.of "full-go") := by decide +kernel
  refine ⟨hinvalid, hmode, fun h => ?_⟩
  have hclosed := (h hinvalid).1
  rw [hmode] at hclosed
  exact absurd (Except.ok.inj hclosed) (by decide)

end Autophagy.Mail
