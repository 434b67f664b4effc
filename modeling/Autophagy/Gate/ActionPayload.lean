/-
# Autophagy.Gate.ActionPayload — the text that identifies a tool call.

`_action_hash` of `automation/interop/external_effect_gate.py` hashes one text: the canonical JSON of the action, the
arguments, the target and the name of the tool. Two calls have one text exactly where they are the same but for the
order of the keys (`action_payload_identifies`).
-/
import Autophagy.Gate.ExternalEffect
import Autophagy.Python.KeyOrder
import Autophagy.Python.Sample

namespace Autophagy.Gate

open Autophagy.Python

/-- Two calls for a target each are one: the tools, the targets and the arguments agree. -/
def SameCall {F : Type} (call call' : ToolCall F) (target target' : Str) : Prop :=
  call.toolName = call'.toolName ∧ target = target' ∧ Json.Same (.obj call.arguments) (.obj call'.arguments)

section Payload

variable {F : Type}

/-- The arguments are a dictionary, and so is every dictionary in them. -/
def ToolCall.Distinct (call : ToolCall F) : Prop := Json.Distinct (.obj call.arguments)

theorem distinct_actionPayload {call : ToolCall F} (h : call.Distinct) (target : Str) :
    (actionPayload call target).Distinct := by
  refine ⟨?_, trivial, h, trivial, trivial, trivial⟩
  show [Str.of "action", Str.of "arguments", Str.of "target_id", Str.of "tool_name"].Nodup
  decide

theorem same_actionPayload_iff (call call' : ToolCall F) (target target' : Str) :
    Json.Same (actionPayload call target) (actionPayload call' target') ↔ SameCall call call' target target' := by
  have hkeys : Str.of "action" ≠ Str.of "arguments" ∧ Str.of "action" ≠ Str.of "target_id" ∧
      Str.of "arguments" ≠ Str.of "target_id" ∧ Str.of "action" ≠ Str.of "tool_name" ∧
        Str.of "arguments" ≠ Str.of "tool_name" ∧ Str.of "target_id" ≠ Str.of "tool_name" := by decide
  obtain ⟨h₁, h₂, h₃, h₄, h₅, h₆⟩ := hkeys
  rw [actionPayload, actionPayload, Json.Same]
  constructor
  · rintro ⟨members, hmembers, -, -, harguments, htarget, htool, -⟩
    obtain rfl := Json.obj.inj hmembers
    obtain ⟨w, hw, harguments⟩ := harguments
    obtain ⟨w', hw', htarget⟩ := htarget
    obtain ⟨w'', hw'', htool⟩ := htool
    rw [Json.lookup, if_neg h₁, Json.lookup, if_pos rfl] at hw
    rw [Json.lookup, if_neg h₂, Json.lookup, if_neg h₃, Json.lookup, if_pos rfl] at hw'
    rw [Json.lookup, if_neg h₄, Json.lookup, if_neg h₅, Json.lookup, if_neg h₆, Json.lookup, if_pos rfl] at hw''
    rw [Json.same_str, ← Option.some.inj hw'] at htarget
    rw [Json.same_str, ← Option.some.inj hw''] at htool
    rw [← Option.some.inj hw] at harguments
    exact ⟨(Json.str.inj htool).symm, (Json.str.inj htarget).symm, harguments⟩
  · rintro ⟨htool, htarget, harguments⟩
    refine ⟨_, rfl, rfl, ⟨_, if_pos rfl, Json.same_str.mpr rfl⟩, ⟨.obj call'.arguments, ?_, harguments⟩, ⟨.str target', ?_, ?_⟩,
      ⟨.str call'.toolName, ?_, ?_⟩, trivial⟩
    · rw [Json.lookup, if_neg h₁, Json.lookup, if_pos rfl]
    · rw [Json.lookup, if_neg h₂, Json.lookup, if_neg h₃, Json.lookup, if_pos rfl]
    · rw [htarget, Json.same_str]
    · rw [Json.lookup, if_neg h₄, Json.lookup, if_neg h₅, Json.lookup, if_neg h₆, Json.lookup, if_pos rfl]
    · rw [htool, Json.same_str]

variable [PyFloat F] (host : Host)

/-- **The hashed text identifies the call**: calls of one text are the same, and what is the same has one text, or
raises the same. -/
theorem action_payload_identifies {call call' : ToolCall F} (hcall : call.Distinct) (hcall' : call'.Distinct)
    (target target' : Str) :
    (∀ text, canonicalJson host (actionPayload call target) = .ok text →
        canonicalJson host (actionPayload call' target') = .ok text → SameCall call call' target target') ∧
      (SameCall call call' target target' →
        canonicalJson host (actionPayload call target) = canonicalJson host (actionPayload call' target')) := by
  have hsort := Json.sortKeys_eq_iff (distinct_actionPayload hcall target) (distinct_actionPayload hcall' target')
  rw [same_actionPayload_iff] at hsort
  constructor
  · intro text h h'
    apply hsort.mp
    have htext := canonicalJson_ok h
    rw [canonicalJson_ok h'] at htext
    exact (Json.dumps_injective htext).symm
  · intro h
    rw [canonicalJson, canonicalJson, hsort.mpr h]

end Payload

/-! ## Two orders of keys -/

/-- A host for calls without a deep or long value; its hashes are not looked at. -/
def payloadHost : Host where
  limits := ⟨4300, 1000⟩
  sha256Hex _ := []
  sha256Hex_digits _ _ h := nomatch h
  hmacHex _ _ := []

/-- A call with a nested argument, its keys in two orders. -/
def sendCall : ToolCall SampleFloat :=
  ⟨"send_mail", [("to", .str "a@b.c"), ("flags", .obj [("urgent", .bool true), ("copies", .int 2)])]⟩

def sendCall' : ToolCall SampleFloat :=
  ⟨"send_mail", [("flags", .obj [("copies", .int 2), ("urgent", .bool true)]), ("to", .str "a@b.c")]⟩

theorem send_calls_identified :
    canonicalJson payloadHost (actionPayload sendCall "t") = canonicalJson payloadHost (actionPayload sendCall' "t") := by
  refine (action_payload_identifies payloadHost (show sendCall.Distinct from ?_) (show sendCall'.Distinct from ?_)
    "t" "t").2 ?_
  · exact ⟨by decide, trivial, ⟨by decide, trivial, trivial, trivial⟩, trivial⟩
  · exact ⟨by decide, ⟨by decide, trivial, trivial, trivial⟩, trivial, trivial⟩
  · refine ⟨rfl, rfl, _, rfl, rfl, ⟨.str "a@b.c", rfl, rfl⟩, ⟨_, rfl, _, rfl, rfl, ⟨.bool true, rfl, rfl⟩,
      ⟨.int 2, rfl, rfl⟩, trivial⟩, trivial⟩

end Autophagy.Gate
