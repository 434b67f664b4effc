/-
# Autophagy.Skill.Names — the words a skill's records are made of.

A skill name, a content digest and a nonce are the same three patterns in every file of the supply chain
(`skill_gate.py`, `skill_gate_publish.py`, `skill_review.py`, `peer_attestation.py`); they are stated once,
as gaps of templates.
-/
import Autophagy.Text.Template
import Autophagy.Python.Json

namespace Autophagy.Skill

open Autophagy.Python Autophagy.Text

/-- `[a-z]` -/
def isLower (c : Nat) : Bool := 0x61 ≤ c && c ≤ 0x7a

/-- `[A-Z]` -/
def isUpper (c : Nat) : Bool := 0x41 ≤ c && c ≤ 0x5a

/-- `[0-9a-f]` -/
def isHex (c : Nat) : Bool := isDigit c || (0x61 ≤ c && c ≤ 0x66)

/-- `[a-z0-9][a-z0-9-]{1,40}` -/
def skillGap : Gap Nat :=
  .headed (fun c => isLower c || isDigit c) (fun c => isLower c || isDigit c || c = 0x2d) 1 40

/-- `[0-9a-f]{n}` -/
def hexGap (n : Nat) : Gap Nat := .span isHex n (some n)

/-- `PASS|FAIL` -/
def verdictGap : Gap Nat := .oneOf ["PASS", "FAIL"]

/-- The text is a skill name. -/
def isSkillName (s : Str) : Bool := skillGap.admits s

/-- The text is a content digest. -/
def isDigest (s : Str) : Bool := (hexGap 64).admits s

end Autophagy.Skill
