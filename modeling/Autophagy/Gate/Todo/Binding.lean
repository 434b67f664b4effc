/-
# Autophagy.Gate.Todo.Binding — what a todo approval covers, and what the gate's hash names.

Two hashes stand between the owner and the insert. The approval message quotes the `sha256` field of the
draft; the reaction check compares the message with that field, and the executor reads the other fields, so
the message covers the insert exactly when it quotes the hash of the fields as they stand in the record
(`binds_iff`). The gate hashes the words of the command joined by plain blanks; each JSON word ends at the
first blank behind it, so that hash does name the command (`actionHash_injective`).
-/
import Autophagy.Effect.Ordered
import Autophagy.Python.JsonFile
import Autophagy.Python.Sample
import Autophagy.Gate.Todo.Effects

namespace Autophagy.Todo

open Autophagy.Effect Autophagy.Python Autophagy.Effect.Prog

/-! ## §1 — Commands and their hash -/

section Commands

variable {F : Type} [PyFloat F] {H : Hasher}

theorem compact_ok {payload : Draft F} {text : Str} (h : compact H payload = .ok text) :
    text = (Json.obj payload).sortKeys.dumps .compact := by
  unfold compact at h
  split at h
  · rename_i text' htext
    rw [← Except.ok.inj h]
    exact Json.canonical_ok htext
  · cases h

theorem compact_congr {payload other : Draft F} (h : (Json.obj payload).sortKeys = (Json.obj other).sortKeys) :
    compact H payload = compact H other := by
  simp only [compact, Json.canonical, h]

theorem insertArgv_ok {request : TaskRequest F} {argv : List Str} (h : insertArgv H request = .ok argv) :
    ∃ params body, compact H [("tasklist", request.tasklist)] = .ok params ∧ compact H (insertBody request) = .ok body ∧
      argv = insertWords params body := by
  simp only [insertArgv, except_bind_ok, except_pure_ok] at h
  obtain ⟨params, hparams, body, hbody, rfl⟩ := h
  exact ⟨params, body, hparams, hbody, rfl⟩

/-- **The joined command names the words.** -/
theorem joined_injective {a b : TaskRequest F} {argv argv' : List Str} (ha : insertArgv H a = .ok argv)
    (hb : insertArgv H b = .ok argv') (h : joined argv = joined argv') : argv = argv' := by
  obtain ⟨params, body, hparams, hbody, rfl⟩ := insertArgv_ok ha
  obtain ⟨params', body', hparams', hbody', rfl⟩ := insertArgv_ok hb
  have hjoined : ∀ p q : Str, joined (insertWords p q) =
      Str.of "gws tasks tasks insert --params " ++ (p ++ 0x20 :: (Str.of "--json " ++ q)) := by
    intro p q
    simp [joined, insertWords, Str.of]
  rw [hjoined, hjoined, List.append_cancel_left_eq, compact_ok hparams, compact_ok hparams'] at h
  -- The first JSON word ends at the blank before the option `--json`.
  have hoption : ∀ q : Str, ∀ d ∈ (Str.of "--json " ++ q).head?, isJsonSpace d = false := by
    rintro q d hd
    obtain rfl : 0x2d = d := Option.some.inj hd
    rfl
  obtain ⟨hsame, htail⟩ := dumps_beside (hoption _) (hoption _) h
  rw [compact_ok hparams, compact_ok hparams', hsame, List.append_cancel_left htail]

variable {host : Host F}

theorem canonicalJson_ok {v : Json F} {text : Str} (h : Gate.canonicalJson host.gate v = .ok text) :
    text = v.sortKeys.dumps .compact := by
  unfold Gate.canonicalJson at h
  split at h
  · rename_i text' htext
    rw [← Except.ok.inj h]
    exact Json.canonical_ok (H := host.hasher) (by rw [Json.canonical, Host.hasher, htext])
  · cases h

theorem actionHash_ok {call : Gate.ToolCall F} {target hash : Str}
    (h : Gate.actionHash host.gate call target = .ok hash) :
    hash = Str.of "sha256:" ++ host.gate.sha256Hex ((Gate.actionPayload call target).sortKeys.dumps .compact) := by
  simp only [Gate.actionHash, except_bind_ok, except_pure_ok] at h
  obtain ⟨canonical, hcanonical, bytes, hbytes, rfl⟩ := h
  obtain rfl : canonical = bytes := by
    unfold Gate.encodeUtf8 at hbytes
    split at hbytes
    · exact Except.ok.inj hbytes
    · cases hbytes
  rw [canonicalJson_ok hcanonical]

/-- **The gate's hash names the command**, whatever rule matched it, where SHA-256 does not collide. -/
theorem actionHash_names_argv (hsha : Function.Injective host.gate.sha256Hex) {a b : TaskRequest F}
    {argv argv' : List Str} (ha : insertArgv host.hasher a = .ok argv)
    (hb : insertArgv host.hasher b = .ok argv') {target target' hash : Str}
    (hhash : Gate.actionHash host.gate (buildToolCall (F := F) argv) target = .ok hash)
    (hhash' : Gate.actionHash host.gate (buildToolCall (F := F) argv') target' = .ok hash) : argv = argv' := by
  have hdigest := List.append_cancel_left ((actionHash_ok hhash).symm.trans (actionHash_ok hhash'))
  have hpayload := Json.dumps_injective (hsha hdigest)
  have hnames : [Str.of "action", Str.of "arguments", Str.of "target_id", Str.of "tool_name"].Nodup := by decide
  have harguments := Json.lookup_of_sortKeys_eq hpayload hnames "arguments"
  have hcommand : (Json.obj [(Str.of "command", Json.str (F := F) (joined argv))]).sortKeys =
      (Json.obj [(Str.of "command", Json.str (joined argv'))]).sortKeys :=
    Option.some.inj harguments
  have htext := Json.lookup_of_sortKeys_eq hcommand (List.nodup_singleton _) "command"
  refine joined_injective ha hb ?_
  exact Json.str.inj (Option.some.inj htext)

/-! ## §2 — Which requests have one command -/

/-- The same value up to the order of keys, an empty one counting as any other empty one. -/
def SameOptional (v w : Json F) : Prop :=
  v.truthy = w.truthy ∧ (v.truthy = true → v.sortKeys = w.sortKeys)

/-- Requests for the same task. -/
structure SameTask (a b : TaskRequest F) : Prop where
  tasklist : a.tasklist.sortKeys = b.tasklist.sortKeys
  title : a.title.sortKeys = b.title.sortKeys
  notes : SameOptional a.notes b.notes
  due : SameOptional a.due b.due

theorem lookup_insertBody (request : TaskRequest F) : ((insertBody request).map Prod.fst).Nodup ∧
      Json.lookup "title" (insertBody request) = some request.title ∧
      Json.lookup "notes" (insertBody request) = (if request.notes.truthy then some request.notes else none) ∧
      Json.lookup "due" (insertBody request) = if request.due.truthy then some request.due else none := by
  unfold insertBody
  cases request.notes.truthy <;> cases request.due.truthy <;>
    simp [Json.lookup, Str.of]

theorem sameOptional_of_lookup {v w : Json F}
    (h : (if v.truthy then some v else none).map Json.sortKeys =
      (if w.truthy then some w else none).map Json.sortKeys) : SameOptional v w := by
  cases hv : v.truthy <;> cases hw : w.truthy <;> simp_all [SameOptional]

/-- **Two requests have one command exactly when they are for the same task.** -/
theorem insertArgv_eq_iff {a b : TaskRequest F} {argv : List Str} (hb : insertArgv H b = .ok argv) :
    insertArgv H a = .ok argv ↔ SameTask a b := by
  obtain ⟨params, body, hparams, hbody, rfl⟩ := insertArgv_ok hb
  constructor
  · intro ha
    obtain ⟨params', body', hparams', hbody', hwords⟩ := insertArgv_ok ha
    simp only [insertWords, List.cons.injEq, and_true, true_and] at hwords
    obtain ⟨rfl, rfl⟩ := hwords
    have hlist := Json.dumps_injective ((compact_ok hparams').symm.trans (compact_ok hparams))
    have hobject := Json.dumps_injective ((compact_ok hbody').symm.trans (compact_ok hbody))
    obtain ⟨hnodup, htitle, hnotes, hdue⟩ := lookup_insertBody a
    obtain ⟨-, htitle', hnotes', hdue'⟩ := lookup_insertBody b
    have hlookup := Json.lookup_of_sortKeys_eq hobject hnodup
    refine ⟨?_, ?_, ?_, ?_⟩
    · exact Option.some.inj (Json.lookup_of_sortKeys_eq hlist (List.nodup_singleton _) "tasklist")
    · have h := hlookup "title"
      rw [htitle, htitle'] at h
      exact Option.some.inj h
    · have h := hlookup "notes"
      rw [hnotes, hnotes'] at h
      exact sameOptional_of_lookup h
    · have h := hlookup "due"
      rw [hdue, hdue'] at h
      exact sameOptional_of_lookup h
  · intro hsame
    have hlist : (Json.obj [(Str.of "tasklist", a.tasklist)]).sortKeys =
        (Json.obj [(Str.of "tasklist", b.tasklist)]).sortKeys := by
      simp only [Json.sortKeys, Json.sortMembers, hsame.tasklist]
    have hobject : (Json.obj (insertBody a)).sortKeys = (Json.obj (insertBody b)).sortKeys := by
      have hoptional : ∀ {v w : Json F} (name : Str), SameOptional v w →
          Json.sortMembers (if v.truthy then [(name, v)] else []) =
            Json.sortMembers (if w.truthy then [(name, w)] else []) := by
        rintro v w name ⟨htruthy, hsort⟩
        cases hw : w.truthy with
        | true => simp [htruthy, hw, Json.sortMembers, hsort (htruthy.trans hw)]
        | false => simp [htruthy, hw, Json.sortMembers]
      have happend : ∀ d d' : Draft F, Json.sortMembers (d ++ d') = Json.sortMembers d ++ Json.sortMembers d' := by
        intro d d'
        induction d with
        | nil => rfl
        | cons m d ih => simp [Json.sortMembers, ih]
      simp only [Json.sortKeys, insertBody, Json.sortMembers, happend, hsame.title,
        hoptional _ hsame.notes, hoptional _ hsame.due]
    simp only [insertArgv, compact_congr hlist, compact_congr hobject, hparams, hbody]
    rfl

/-! ## §3 — What the message covers -/

/-- The text quotes the hash of these fields. -/
def Quotes (H : Hasher) (content : Str) (fields : Draft F) : Prop :=
  ∃ digest, draftSha256 H fields = .ok digest ∧ digest <:+: content

/-- **The approval binds the command**: its title, notes, due and tasklist are the ones whose hash the
message quotes. -/
def Binds (F : Type) [PyFloat F] (H : Hasher) (content : Str) (argv : List Str) : Prop :=
  ∃ (fields : Draft F) (request : TaskRequest F), Quotes H content fields ∧
    requestOf fields = .ok request ∧ insertArgv H request = .ok argv

/-- The message quotes the hash of the title, notes, due and tasklist as they stand in the record. -/
def Covers (H : Hasher) (content : Str) (record : Draft F) : Prop :=
  ∃ fields request stored, Quotes H content fields ∧ requestOf fields = .ok request ∧
    requestOf record = .ok stored ∧ SameTask request stored

theorem binds_iff {content : Str} {record : Draft F} {stored : TaskRequest F} {argv : List Str}
    (hstored : requestOf record = .ok stored) (hargv : insertArgv H stored = .ok argv) :
    Binds F H content argv ↔ Covers H content record := by
  constructor
  · rintro ⟨fields, request, hquotes, hrequest, hsame⟩
    exact ⟨fields, request, stored, hquotes, hrequest, hstored, (insertArgv_eq_iff hargv).mp hsame⟩
  · rintro ⟨fields, request, stored', hquotes, hrequest, hstored', hsame⟩
    obtain rfl := Except.ok.inj (hstored.symm.trans hstored')
    exact ⟨fields, request, hquotes, hrequest, (insertArgv_eq_iff hargv).mpr hsame⟩

end Commands

end Autophagy.Todo
