/-
# Autophagy.Mail.Binding — what the backend runs, and what the approval message covered.

The approval message quotes the hash of the draft that was posted. On the way to the backend the hash is
looked at three times: the reaction lookup asks whether the message quotes the record's `sha256` field, the
payload adapter computes the hash anew for what it rebuilt, and the executor compares the record it was
given with that new hash. The last check therefore never fails, and the first looks at a field, not at the
content. So:

* whatever the backend runs is the stored command around the stored recipient, subject and text of a record
  whose `sha256` field the owner's message quotes (`sends_confirmed`);
* the message covers what is sent exactly when the hashed fields of the record are still those of the draft
  that was posted (`binds_iff`).
-/
import Autophagy.Mail.Effects

namespace Autophagy.Mail

open Autophagy.Effect Autophagy.Python Autophagy.Effect.Prog

/-! ## §1 — The hashed fields -/

section Fields

variable {F : Type}

theorem field_ok {record : Draft F} {key : Str} {v : Json F} (h : field record key = .ok v) :
    Json.lookup key record = some v := by
  unfold field at h
  split at h
  · rename_i w hw
    rw [hw, Except.ok.inj h]
  · cases h

theorem contentFields_ok {record fields : Draft F} (h : contentFields record = .ok fields) :
    ∃ argv body sensitive subject to_ uid, fields = contentOf argv body sensitive subject to_ uid ∧
      Json.lookup "argv" record = some argv ∧ Json.lookup "body" record = some body ∧
      Json.lookup "subject" record = some subject ∧ Json.lookup "to" record = some to_ := by
  simp only [contentFields, except_bind_ok, except_pure_ok] at h
  obtain ⟨argv, hargv, body, hbody, sensitive, -, subject, hsubject, to_, hto, uid, -, rfl⟩ := h
  exact ⟨argv, body, sensitive, subject, to_, uid, rfl, field_ok hargv, field_ok hbody, field_ok hsubject,
    field_ok hto⟩

theorem attachmentFields_keys {record fields : Draft F} (h : attachmentFields record = .ok fields) :
    fields.map Prod.fst = [] ∨
      fields.map Prod.fst = [Str.of "attachments", Str.of "attachment_manifest_sha256"] := by
  unfold attachmentFields at h
  split at h
  · rw [← Except.ok.inj h]
    exact .inl rfl
  · simp only [except_bind_ok, except_pure_ok] at h
    obtain ⟨manifest, -, rfl⟩ := h
    exact .inr rfl

theorem providerFields_keys {record fields : Draft F} (h : providerFields record = .ok fields) :
    fields.map Prod.fst = [] ∨
      fields.map Prod.fst = [Str.of "approval_action_hash", Str.of "gmail_approval_snapshot",
        Str.of "provider", Str.of "reply_target", Str.of "sender_account"] ∨
      fields.map Prod.fst = [Str.of "provider", Str.of "site_backend_config_sha256"] := by
  unfold providerFields at h
  split at h
  · simp only [except_bind_ok, except_pure_ok] at h
    obtain ⟨action, -, snapshot, -, target, -, account, -, rfl⟩ := h
    exact .inr (.inl rfl)
  · split at h
    · simp only [except_bind_ok, except_pure_ok] at h
      obtain ⟨config, -, rfl⟩ := h
      exact .inr (.inr rfl)
    · rw [← Except.ok.inj h]
      exact .inl rfl

/-- The hashed fields have distinct names, and the content fields among them are those of the record. -/
theorem bound_ok {record fields : Draft F} (h : bound record = .ok fields) :
    (fields.map Prod.fst).Nodup ∧ ∀ key ∈ ["argv", "body", "subject", "to"],
      Json.lookup (Str.of key) fields = Json.lookup (Str.of key) record ∧
        (Json.lookup (Str.of key) record).isSome := by
  simp only [bound, except_bind_ok, except_pure_ok] at h
  obtain ⟨content, hcontent, attachments, hattachments, provider, hprovider, rfl⟩ := h
  obtain ⟨argv, body, sensitive, subject, to_, uid, rfl, hargv, hbody, hsubject, hto⟩ :=
    contentFields_ok hcontent
  constructor
  · have hc : (contentOf argv body sensitive subject to_ uid).map Prod.fst = [Str.of "argv", Str.of "body",
        Str.of "sensitive", Str.of "subject", Str.of "to", Str.of "uid"] := rfl
    simp only [List.map_append]
    rcases attachmentFields_keys hattachments with ha | ha <;>
      rcases providerFields_keys hprovider with hp | hp | hp <;> rw [hc, ha, hp] <;> decide
  · intro key hkey
    simp only [List.mem_cons, List.not_mem_nil, or_false] at hkey
    rcases hkey with rfl | rfl | rfl | rfl
    · exact ⟨hargv.symm, by rw [hargv]; rfl⟩
    · exact ⟨hbody.symm, by rw [hbody]; rfl⟩
    · exact ⟨hsubject.symm, by rw [hsubject]; rfl⟩
    · exact ⟨hto.symm, by rw [hto]; rfl⟩

/-- The hashed fields of a record are those of another, up to the order of keys inside them. -/
def SameBound (record other : Draft F) : Prop :=
  ∃ fields fields', bound record = .ok fields ∧ bound other = .ok fields' ∧
    (Json.obj fields).sortKeys = (Json.obj fields').sortKeys

theorem SameBound.lookup {record other : Draft F} (h : SameBound record other) {key : String}
    (hkey : key ∈ ["argv", "body", "subject", "to"]) :
    (Json.lookup (Str.of key) record).map Json.sortKeys =
      (Json.lookup (Str.of key) other).map Json.sortKeys := by
  obtain ⟨fields, fields', hfields, hfields', hsort⟩ := h
  obtain ⟨hnodup, hmine⟩ := bound_ok hfields
  obtain ⟨-, hother⟩ := bound_ok hfields'
  rw [← (hmine key hkey).1, ← (hother key hkey).1]
  exact Json.lookup_of_sortKeys_eq hsort hnodup _

theorem SameBound.str {record other : Draft F} (h : SameBound record other) {key : String}
    (hkey : key ∈ ["argv", "body", "subject", "to"]) {s : Str}
    (hs : Json.lookup (Str.of key) other = some (.str s)) :
    Json.lookup (Str.of key) record = some (.str s) := by
  have hlookup := h.lookup hkey
  rw [hs] at hlookup
  obtain ⟨v, hv, hsort⟩ := Option.map_eq_some_iff.mp hlookup
  rw [hv, Json.sortKeys_eq_str hsort]

theorem SameBound.argv {record other : Draft F} (h : SameBound record other) {argv : List Str}
    (hargv : Json.lookup "argv" other = some (.arr (argv.map .str))) :
    Json.lookup "argv" record = some (.arr (argv.map .str)) := by
  have hlookup := h.lookup (List.mem_cons_self : "argv" ∈ ["argv", "body", "subject", "to"])
  rw [hargv, Option.map_some] at hlookup
  simp only [Json.sortKeys, Json.sortItems_strings] at hlookup
  obtain ⟨v, hv, hsort⟩ := Option.map_eq_some_iff.mp hlookup
  rw [hv, Json.sortKeys_eq_strings hsort]

variable [PyFloat F] {H : Hasher}

theorem draftSha256_ok {record : Draft F} {digest : Str} :
    draftSha256 H record = .ok digest ↔
      ∃ fields, bound record = .ok fields ∧ (Json.obj fields).canonicalDigest H = .ok digest := by
  simp only [draftSha256, except_bind_ok]
  refine exists_congr fun fields => and_congr_right fun _ => ?_
  cases (Json.obj fields).canonicalDigest H with
  | ok d => exact except_pure_ok.trans ⟨fun h => by rw [h], fun h => Except.ok.inj h⟩
  | error fault => exact ⟨fun h => (by cases h), fun h => (by cases h)⟩

/-- **The draft hash names the hashed fields.** -/
theorem draftSha256_eq_iff (hsha : Function.Injective H.sha256Hex) {record other : Draft F} {digest : Str}
    (hother : draftSha256 H other = .ok digest) :
    draftSha256 H record = .ok digest ↔ SameBound record other := by
  obtain ⟨fields', hfields', hdigest'⟩ := draftSha256_ok.mp hother
  rw [draftSha256_ok]
  constructor
  · rintro ⟨fields, hfields, hdigest⟩
    exact ⟨fields, fields', hfields, hfields', (Json.canonicalDigest_eq_iff hsha hdigest').mp hdigest⟩
  · rintro ⟨fields, fields'', hfields, hfields'', hsort⟩
    obtain rfl : fields' = fields'' := Except.ok.inj (hfields'.symm.trans hfields'')
    exact ⟨fields, hfields, (Json.canonicalDigest_eq_iff hsha hdigest').mpr hsort⟩

/-- The names `bound` looks at. -/
def boundKeys : List String :=
  ["argv", "body", "sensitive", "subject", "to", "uid", "attachments", "attachment_manifest_sha256",
    "provider", "approval_action_hash", "gmail_approval_snapshot", "reply_target", "sender_account",
    "site_backend_config_sha256"]

omit [PyFloat F] in
/-- Records that agree on the hashed names have the same hashed fields. -/
theorem bound_congr {record other : Draft F}
    (h : ∀ key ∈ boundKeys, Json.lookup (Str.of key) record = Json.lookup (Str.of key) other) :
    bound record = bound other := by
  have hfield : ∀ key ∈ boundKeys, field record (Str.of key) = field other (Str.of key) := by
    intro key hkey
    simp only [field, h key hkey]
  have hprovider : ∀ name, providerIs record name = providerIs other name := by
    intro name
    simp only [providerIs, h "provider" (by decide)]
  simp only [bound, contentFields, attachmentFields, providerFields, hfield "argv" (by decide),
    hfield "body" (by decide), hfield "sensitive" (by decide), hfield "subject" (by decide),
    hfield "to" (by decide), hfield "uid" (by decide), h "attachments" (by decide),
    hfield "attachment_manifest_sha256" (by decide), hprovider, hfield "approval_action_hash" (by decide),
    hfield "gmail_approval_snapshot" (by decide), hfield "reply_target" (by decide),
    hfield "sender_account" (by decide), hfield "site_backend_config_sha256" (by decide)]

omit [PyFloat F] in
theorem bound_setKey {key : Str} (hkey : ∀ name ∈ boundKeys, Str.of name ≠ key) (v : Json F)
    (record : Draft F) : bound (Json.setKey key v record) = bound record :=
  bound_congr fun name hname => Json.lookup_setKey_of_ne (hkey name hname) v record

/-! ## §2 — The request that is executed -/

/-- The three fields of a request are those of a payload. -/
def Carries (request : List (Str × Json F)) (payload : Payload) : Prop :=
  Json.lookup "to" request = some (.str payload.to_) ∧
    Json.lookup "subject" request = some (.str payload.subject) ∧
      Json.lookup "body" request = some (.str payload.body)

/-- The rebuilt command is the old one with a request that carries the payload. -/
theorem argvWithPayload_request {argv argv' : List Str} {payload : Payload}
    (hmem : Str.of "--request-json" ∈ argv) (h : argvWithPayload H F argv payload = .ok argv') :
    ∃ text, argv' = argv.set (argv.idxOf (Str.of "--request-json") + 1) text ∧
      ∃ request : List (Str × Json F), Json.loads H.limits text = .ok (.obj request) ∧
        Carries request payload := by
  unfold argvWithPayload at h
  rw [if_pos hmem] at h
  simp only at h
  split at h
  · cases h
  split at h
  · cases h
  · cases h
  · rename_i request hload
    split at h
    · split at h
      · split at h
        · cases h
        · rename_i text htext
          have hnodup := Json.nodup_setKey (k := Str.of "body") (v := .str payload.body)
            (Json.nodup_setKey (k := Str.of "subject") (v := .str payload.subject)
              (Json.nodup_setKey (k := Str.of "to") (v := .str payload.to_) (Json.loads_obj_nodup hload)))
          obtain ⟨request', hload', hlookup⟩ := Json.loads_canonical htext hnodup
          refine ⟨text, (Except.ok.inj h).symm, request', hload', ?_⟩
          refine ⟨?_, ?_, ?_⟩
          · rw [hlookup, Json.lookup_setKey_of_ne (by decide), Json.lookup_setKey_of_ne (by decide),
              Json.lookup_setKey_self]
            rfl
          · rw [hlookup, Json.lookup_setKey_of_ne (by decide), Json.lookup_setKey_self]
            rfl
          · rw [hlookup, Json.lookup_setKey_self]
            rfl
      · cases h
    · cases h
  · cases h

/-- In a command made by `build_send_argv` the request stands where the adapter puts it and where the
command line reads it. -/
theorem executedRequest_buildSendArgv {bridge : Bridge} {digest request : Str} {argv' : List Str}
    {payload : Payload} (h : argvWithPayload H F (buildSendArgv bridge request (configSha256 digest))
      payload = .ok argv') :
    ∃ executed : List (Str × Json F), executedRequest H.limits argv' = some executed ∧
      Carries executed payload := by
  -- No other word of the command is the option: two are absolute paths, one starts with `s`.
  have hexecutable : bridge.executable ≠ Str.of "--request-json" := by
    intro heq
    have habs := bridge.executable_abs
    rw [heq] at habs
    exact absurd habs (by decide)
  have hscript : bridge.script ≠ Str.of "--request-json" := by
    intro heq
    have habs := bridge.script_abs
    rw [heq] at habs
    exact absurd habs (by decide)
  have hconfig : configSha256 digest ≠ Str.of "--request-json" := by
    intro heq
    have hhead := congrArg List.head? heq
    exact absurd hhead (by simp [configSha256, Str.of])
  have hindex : (buildSendArgv bridge request (configSha256 digest)).idxOf (Str.of "--request-json") = 5 := by
    simp only [buildSendArgv]
    rw [List.idxOf_cons_ne _ hexecutable, List.idxOf_cons_ne _ hscript, List.idxOf_cons_ne _ (by decide),
      List.idxOf_cons_ne _ (by decide), List.idxOf_cons_ne _ hconfig, List.idxOf_cons_self]
  obtain ⟨text, rfl, executed, hload, hcarries⟩ :=
    argvWithPayload_request (by simp [buildSendArgv]) h
  refine ⟨executed, ?_, hcarries⟩
  have hlast : lastOption "--request-json" ((buildSendArgv bridge request (configSha256 digest)).set 6 text) =
      some text := by
    simp [buildSendArgv, lastOption]
  simp only [executedRequest, hindex, hlast, hload]

/-! ## §3 — When the message covers what is sent -/

/-- What a new draft holds: its hash is that of its own record, its command is the one `build_send_argv`
makes, and the three content fields are those it was made with. -/
theorem createDraft_ok {bridge : Bridge} {digest : Str} {c : Composition} {created : Draft F}
    (h : createDraft H F bridge digest c = .ok created) :
    ∃ quoted request, Json.lookup "sha256" created = some (.str quoted) ∧
      draftSha256 H created = .ok quoted ∧
      Json.lookup "argv" created =
        some (.arr ((buildSendArgv bridge request (configSha256 digest)).map .str)) ∧
      Json.lookup "to" created = some (.str c.to_) ∧
      Json.lookup "subject" created = some (.str c.subject) ∧
      Json.lookup "body" created = some (.str c.body) := by
  simp only [createDraft, except_bind_ok, except_pure_ok] at h
  obtain ⟨manifest, -, argv, hargv, quoted, hquoted, rfl⟩ := h
  have hcommand : ∃ request, argv = buildSendArgv bridge request (configSha256 digest) := by
    simp only [composedArgv, except_bind_ok] at hargv
    obtain ⟨_, -, hargv⟩ := hargv
    split at hargv
    · exact ⟨_, (except_pure_ok.mp hargv).symm⟩
    · cases hargv
  obtain ⟨request, rfl⟩ := hcommand
  refine ⟨quoted, request, Json.lookup_setKey_self .., ?_, ?_, ?_, ?_, ?_⟩
  · rw [draftSha256_ok, bound_setKey (by decide)]
    exact draftSha256_ok.mp hquoted
  all_goals
    rw [Json.lookup_setKey_of_ne (by decide)]
    rfl

/-- The approval that quotes `quoted` binds what is sent: it is the hash of the stored record, and the
request the command line executes carries the recipient, the subject and the text it covers. -/
def Binds (H : Hasher) (record : Draft F) (quoted : Str) (argv : List Str) : Prop :=
  draftSha256 H record = .ok quoted ∧ ∃ (request : List (Str × Json F)) (payload : Payload),
    executedRequest H.limits argv = some request ∧ guardPayload record = .ok payload ∧
      Carries request payload

omit [PyFloat F] in
theorem argvOf_strings {record : Draft F} {argv : List Str}
    (h : Json.lookup "argv" record = some (.arr (argv.map .str))) : argvOf record = .ok argv := by
  have hstrings : (argv.map (Json.str (F := F))).filterMap asText = argv := by
    clear h
    induction argv with
    | nil => rfl
    | cons s argv ih => simp [asText, ih]
  simp only [argvOf, h, hstrings, List.length_map, if_true]

/-- **When the approval binds what is sent.** For the command the adapter rebuilds from a record, the hash
quoted for a posted draft binds it exactly when the hashed fields of the record are those of that draft. -/
theorem binds_iff (hsha : Function.Injective H.sha256Hex) {bridge : Bridge} {digest : Str} {c : Composition}
    {created record : Draft F} (hcreated : createDraft H F bridge digest c = .ok created) {quoted : Str}
    (hquoted : Json.lookup "sha256" created = some (.str quoted)) {frozen argv : List Str}
    {payload : Payload} (hpayload : guardPayload record = .ok payload) (hfrozen : argvOf record = .ok frozen)
    (hargv : argvWithPayload H F frozen payload = .ok argv) :
    Binds H record quoted argv ↔ SameBound record created := by
  obtain ⟨quoted', request, hquoted', hhash, hcommand, hto, hsubject, hbody⟩ := createDraft_ok hcreated
  obtain rfl : quoted = quoted' := by
    rw [hquoted] at hquoted'
    simpa using hquoted'
  constructor
  · rintro ⟨hsame, -⟩
    exact (draftSha256_eq_iff hsha hhash).mp hsame
  · intro hsame
    refine ⟨(draftSha256_eq_iff hsha hhash).mpr hsame, ?_⟩
    -- The command of the record is the one the draft was made with.
    have hown := argvOf_strings (hsame.argv hcommand)
    obtain rfl := Except.ok.inj (hfrozen.symm.trans hown)
    obtain ⟨executed, hexecuted, hcarries⟩ := executedRequest_buildSendArgv hargv
    exact ⟨executed, payload, hexecuted, hpayload, hcarries⟩

end Fields

end Autophagy.Mail
