/-
# Autophagy.CredentialRotation.Files — the verifier and the credential note of one dashboard.

The pure half of `automation/credential_rotation/files.py`: reading the two texts, and rewriting them around a new
password. A rewriting replaces exactly one line and refuses any other number; everything else stays as it is, line
ends included.
-/
import Autophagy.Python.Dict
import Autophagy.Python.White

namespace Autophagy.CredentialRotation

open Autophagy.Python

/-- What a seam call may raise: `OSError`, `subprocess.SubprocessError`, anything else. -/
inductive SeamFault
  | os
  | subprocess
  | other
  deriving DecidableEq

/-- What `rotate_target` may raise: what a seam raised, a `UnicodeError`, or a `RotationError`. -/
inductive Fault
  | seam (fault : SeamFault)
  | unicode
  | rotation (reason : Str)
  deriving DecidableEq

/-- `text.splitlines(keepends=True)`, inside a line. -/
def splitlinesKeepFrom (line : Str) : Str → List Str
  | [] => if line = [] then [] else [line]
  | 0x0d :: 0x0a :: rest => (line ++ [0x0d, 0x0a]) :: splitlinesKeepFrom [] rest
  | c :: rest =>
    if isBreak c then (line ++ [c]) :: splitlinesKeepFrom [] rest else splitlinesKeepFrom (line ++ [c]) rest

/-- `text.splitlines(keepends=True)` -/
def splitlinesKeep (text : Str) : List Str := splitlinesKeepFrom [] text

/-- `line.rstrip("\r\n")` -/
def bodyOf (line : Str) : Str := line.rdropWhile fun c => c = 0x0d ∨ c = 0x0a

/-- `line[len(body):]` -/
def endingOf (line : Str) : Str := line.drop (bodyOf line).length

/-- `line.partition("=")`; `none` where there is no separator. -/
def partitionEquals (line : Str) : Option (Str × Str) :=
  match line.dropWhile (· ≠ 0x3d) with
  | [] => none
  | _ :: value => some (line.takeWhile (· ≠ 0x3d), value)

/-! ## §1 — The verifier -/

/-- `EnvDocument` -/
structure EnvDocument where
  content : Str
  values : Dict Str Str
  deriving DecidableEq

/-- One line of `parse_env`. -/
def parseLine (values : Dict Str Str) (line : Str) : Except Fault (Dict Str Str) :=
  let stripped := strip line
  if stripped = [] ∨ stripped.head? = some 0x23 then .ok values
  else
    match partitionEquals line with
    | some (key, value) =>
      if key = [] ∨ (values.get? key).isSome then
        .error (.rotation "verifier file has malformed or duplicate key data")
      else .ok (values.set key value)
    | none => .error (.rotation "verifier file has malformed or duplicate key data")

/-- `parse_env` -/
def parseEnv (content : Str) : Except Fault EnvDocument := do
  let values ← (splitlines content).foldlM parseLine .empty
  pure ⟨content, values⟩

/-- `required_value` -/
def requiredValue (document : EnvDocument) (key label : Str) : Except Fault Str :=
  match document.values.get? key with
  | some (c :: value) => .ok (c :: value)
  | _ => .error (.rotation (Str.of "required " ++ label ++ Str.of " is missing"))

/-- The line is the one of the key. -/
def isKeyLine (expectedKey line : Str) : Bool :=
  (partitionEquals (bodyOf line)).any fun parts => parts.1 = expectedKey

/-- `replace_env_value` -/
def replaceEnvValue (content expectedKey replacement : Str) : Except Fault Str :=
  let lines := splitlinesKeep content
  if lines.countP (isKeyLine expectedKey) ≠ 1 then
    .error (.rotation "verifier file changed during rotation preparation")
  else .ok (lines.map fun line =>
    if isKeyLine expectedKey line then expectedKey ++ 0x3d :: replacement ++ endingOf line else line).flatten

/-! ## §2 — The note -/

/-- `password:` -/
def passwordLabel : Str := "password:"

/-- `rotated:` -/
def rotatedLabel : Str := "rotated:"

/-- `note_password` -/
def notePassword (content : Str) : Except Fault Str :=
  let labelled := (splitlinesKeep content).filter fun line => passwordLabel <+: bodyOf line
  match labelled.map fun line => ((bodyOf line).drop passwordLabel.length).dropWhile isSpace with
  | [c :: password] => .ok (c :: password)
  | _ => .error (.rotation "credential note must contain exactly one non-empty password line")

/-- One line of `rewrite_note`. -/
def rewriteLine (password line : Str) : Str :=
  if passwordLabel <+: bodyOf line then
    Str.of "password: " ++ password ++ (if endingOf line = [] then [0x0a] else endingOf line)
  else if rotatedLabel <+: bodyOf line then []
  else line

/-- `rewrite_note` -/
def rewriteNote (content password timestamp : Str) : Except Fault Str :=
  let lines := splitlinesKeep content
  if lines.countP (fun line => passwordLabel <+: bodyOf line) ≠ 1 then
    .error (.rotation "credential note changed during rotation preparation")
  else
    let before := (lines.map (rewriteLine password)).flatten
    let ended :=
      if before ≠ [] ∧ before.getLast? ≠ some 0x0a ∧ before.getLast? ≠ some 0x0d then before ++ [0x0a] else before
    .ok (ended ++ Str.of "rotated: " ++ timestamp ++ [0x0a])

/-! ## §3 — The new secrets -/

/-- `PASSWORD_ALPHABET` -/
def isPasswordChar (c : Nat) : Bool :=
  (0x61 ≤ c && c ≤ 0x7a) || (0x41 ≤ c && c ≤ 0x5a) || (0x30 ≤ c && c ≤ 0x39)

/-- `_validate_password` -/
def validatePassword (password : Str) : Except Fault Unit :=
  if password.length ≠ 24 ∨ ¬ password.all isPasswordChar then
    .error (.rotation "password generator violated the required 24-character alphanumeric contract")
  else .ok ()

/-- `"0123456789abcdef"` -/
def isHexDigit (c : Nat) : Bool := (0x30 ≤ c && c ≤ 0x39) || (0x61 ≤ c && c ≤ 0x66)

/-- `_validated_session_secret` -/
def validatedSessionSecret (secret : Str) : Except Fault Str :=
  if secret.length ≠ 64 ∨ ¬ secret.all isHexDigit then
    .error (.rotation "session secret generator violated the required 64-hex contract")
  else .ok secret

end Autophagy.CredentialRotation
