/-
# Autophagy.Triage.Prompt — a mail put into a prompt template.

`build_prompt` of `skills/mail/scripts/triage_core.py` fills the placeholders by one `str.replace` after another, so a
field that quotes a later placeholder gets that field's text in it (`subject_gets_body`). `placed_iff` says which mails
come out as they should.
-/
import Autophagy.Python.White
import Autophagy.Text.Filling

namespace Autophagy.Triage

open Autophagy.Python Autophagy.Text

/-- `INSTRUCTION_DEFAULT` -/
def instructionDefault : Str := "(별도 지시 없음)"

/-- `PROMPT_BODY_LIMIT` -/
def promptBodyLimit : Nat := 6000

/-- What `build_prompt` takes beside the template. -/
structure PromptFields where
  subject : Str
  sender : Str
  body : Str
  instruction : Str

/-- The `ValueError`s of `build_prompt`. -/
inductive PromptError
  | missing (name : Str)
  | noInstruction
  deriving DecidableEq

/-- No name of a placeholder is longer than `INSTRUCTION`. -/
def nameLimit : Nat := 11

/-- The calls of `str.replace`, in their order. -/
def replacements (template : Str) (mail : PromptFields) : List (Str × Str) :=
  let instruction := strip mail.instruction
  (if literal "INSTRUCTION" <:+: template then
    [(Str.of "INSTRUCTION", if instruction = [] then instructionDefault else instruction)]
  else []) ++
    [(Str.of "SUBJECT", mail.subject), (Str.of "SENDER", mail.sender), (Str.of "BODY", mail.body.take promptBodyLimit)]

/-- The placeholders that every template has. -/
def requiredNames : List Str := ["SUBJECT", "SENDER", "BODY"]

/-- `build_prompt` -/
def buildPrompt (template : Str) (mail : PromptFields) : Except PromptError Str :=
  match requiredNames.find? fun name => ¬ literal name <:+: template with
  | some name => .error (.missing name)
  | none =>
    if ¬ literal "INSTRUCTION" <:+: template ∧ strip mail.instruction ≠ [] then .error .noInstruction
    else .ok (putAll (replacements template mail) template)

/-- Each field's text stands where the template has its placeholder; and no call has put it anywhere else. -/
structure Placed (template : Str) (mail : PromptFields) (prompt : Str) : Prop where
  whole : prompt = substitute nameLimit (valuesOf (replacements template mail)) template
  calls : ∀ j ≤ (replacements template mail).length, putAll ((replacements template mail).take j) template =
    substitute nameLimit (valuesOf ((replacements template mail).take j)) template

/-- No text put in before has one more of the placeholders of a field, but where the field's text is its placeholder. -/
def Unquoted (template : Str) (mail : PromptFields) : Prop :=
  ∀ j : Fin (replacements template mail).length,
    (replacements template mail)[j].2 = literal (replacements template mail)[j].1 ∨
      occurrences nameLimit (replacements template mail)[j].1
        (substitute nameLimit (valuesOf ((replacements template mail).take j)) template) =
          occurrences nameLimit (replacements template mail)[j].1 template

instance (template : Str) (mail : PromptFields) : Decidable (Unquoted template mail) :=
  inferInstanceAs (Decidable (∀ _ : Fin _, _ ∨ _))

theorem names_replacements (template : Str) (mail : PromptFields) : (replacements template mail).map Prod.fst <:+
      [Str.of "INSTRUCTION", Str.of "SUBJECT", Str.of "SENDER", Str.of "BODY"] := by
  unfold replacements
  dsimp only
  split
  · exact List.suffix_rfl
  · exact List.suffix_cons _ _

/-- **Exactly where** no field's text is put into another's. -/
theorem placed_iff {template prompt : Str} {mail : PromptFields} (h : buildPrompt template mail = .ok prompt) :
    Placed template mail prompt ↔ Unquoted template mail := by
  have hsuffix := names_replacements template mail
  have hnames : ∀ field ∈ replacements template mail, IsName nameLimit field.1 := by
    have hall : ∀ name ∈ [Str.of "INSTRUCTION", Str.of "SUBJECT", Str.of "SENDER", Str.of "BODY"],
        name ≠ [] ∧ name.length ≤ nameLimit ∧ ∀ c ∈ name, isNameChar c = true := by decide
    intro field hfield
    obtain ⟨hne, hshort, hchars⟩ := hall _ (hsuffix.subset (List.mem_map_of_mem hfield))
    exact ⟨hne, hshort, hchars⟩
  have hdistinct : ((replacements template mail).map Prod.fst).Nodup := hsuffix.sublist.nodup (by decide)
  have hprompt : prompt = putAll (replacements template mail) template := by
    unfold buildPrompt at h
    split at h
    · cases h
    split at h
    · cases h
    · exact (Except.ok.inj h).symm
  rw [Unquoted, ← stages_iff hnames hdistinct template]
  refine ⟨fun hplaced => hplaced.calls, fun hcalls => ⟨?_, hcalls⟩⟩
  have hwhole := hcalls _ le_rfl
  rwa [List.take_length, ← hprompt] at hwhole

/-- A template, and a mail whose subject quotes the placeholder of the body. -/
def sampleTemplate : Str := "\x7b\x7bSUBJECT\x7d\x7d \x7b\x7bSENDER\x7d\x7d \x7b\x7bBODY\x7d\x7d"

theorem placed_plain : Placed sampleTemplate ⟨"s", "f", "b", []⟩ "s f b" :=
  (placed_iff (by decide +kernel)).mpr (by decide +kernel)

def quotedMail : PromptFields := ⟨"\x7b\x7bBODY\x7d\x7d", "f", "b", []⟩

/-- **A quoted placeholder** gets the body. -/
theorem subject_gets_body : buildPrompt sampleTemplate quotedMail = .ok (Str.of "b f b") ∧
    ¬ Placed sampleTemplate quotedMail (Str.of "b f b") := by
  have hbuild : buildPrompt sampleTemplate quotedMail = .ok (Str.of "b f b") := by decide +kernel
  exact ⟨hbuild, fun h => absurd h.whole (by decide +kernel)⟩

end Autophagy.Triage
