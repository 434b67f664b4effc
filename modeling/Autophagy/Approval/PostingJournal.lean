/-
# Autophagy.Approval.PostingJournal — what the posting journal says of its file.

`PostingJournal.outstanding` of `automation/interop/approval_lease.py`. A reservation in a file keeps
`request_owner_approval` from posting. A file that cannot be read counts as one, and so does text that is no JSON; JSON
that is no object counts as no reservation, and four kinds of content raise (`journal_fails_closed_iff`).
-/
import Autophagy.Approval.Lifecycle
import Autophagy.Approval.PendingFile
import Autophagy.Python.JsonFile
import Autophagy.Python.Sample

namespace Autophagy.Approval

open Autophagy.Effect Autophagy.Python

/-! ## §1 — Reading a reservation -/

/-- The journal file of a key: there may be none. -/
abbrev JournalFile := Option PendingFile

/-- What a file that cannot be read counts as. -/
def unreadReservation (key : Str) : Reservation := [("action_hash", []), ("at", []), ("key", key)]

section Journal

variable {F : Type} [PyFloat F] (L : Limits) (str : Json F → Str)

/-- `PostingJournal.outstanding`; `str` is the built-in function. -/
def journalOutstanding (file : JournalFile) (key : Str) : Except RecordFault (Option Reservation) :=
  match file with
  | none => .ok none
  | some file =>
    match readJson (F := F) L file with
    | .error .os => .ok (some (unreadReservation key))
    | .error (.json .decode) => .ok (some (unreadReservation key))
    | .error fault => .error fault
    | .ok (.obj members) => .ok (some (members.map fun m => (m.1, str m.2)))
    | .ok _ => .ok none

theorem outstanding_some_iff (file : PendingFile) (key : Str) :
    (∃ reservation, journalOutstanding L str (some file) key = .ok (some reservation)) ↔ ClosedContent F L file := by
  rw [closedContent_iff, journalOutstanding]
  cases readJson (F := F) L file with
  | error fault =>
    cases fault with
    | os => simp
    | json fault => cases fault <;> simp
    | _ => simp
  | ok value => cases value <;> simp

end Journal

/-! ## §2 — No second message -/

theorem no_post_of_reserved {intent : ApprovalIntent} {trace : List (Event Res)} {out : Option Verdict}
    (run : Runs (requestOwnerApproval intent) trace out)
    (hreserved : ∀ answer : Option Reservation, ⟨.journalOutstanding intent.key, answer⟩ ∈ trace → answer.isSome) :
    ∀ e ∈ trace, ∀ posting, e.op ≠ .post posting := by
  unfold requestOwnerApproval withLease at run
  cases run with
  | stop => simp
  | @call _ _ held _ _ rest =>
    cases held with
    | false =>
      cases rest with
      | ret => simp
      | stop => simp
    | true =>
      unfold requestOwned at rest
      cases rest with
      | stop => simp
      | @call _ _ answer _ _ rest =>
        cases answer with
        | none =>
          have hsome := hreserved none (List.mem_cons_of_mem _ List.mem_cons_self)
          cases hsome
        | some reservation =>
          -- the verdict, and the release of the lease
          cases rest with
          | stop => simp
          | call rest =>
            cases rest with
            | ret => simp
            | stop => simp

section Closed

variable {F : Type} [PyFloat F] (L : Limits) (str : Json F → Str)

/-- What a run is told about the journal of a key is what its file says. -/
def ToldBy (file : JournalFile) (key : Str) (trace : List (Event Res)) : Prop :=
  ∀ answer, ⟨.journalOutstanding key, answer⟩ ∈ trace → journalOutstanding L str file key = .ok answer

/-- **The posting journal fails closed** exactly where the file has content of three kinds: it counts as a reservation,
and no run of a request under its key posts a message. -/
theorem journal_fails_closed_iff (file : PendingFile) (key : Str) :
    ((∃ reservation, journalOutstanding L str (some file) key = .ok (some reservation)) ∧
        ∀ intent trace out, intent.key = key → Runs (requestOwnerApproval intent) trace out →
          ToldBy L str (some file) key trace → ∀ e ∈ trace, ∀ posting, e.op ≠ .post posting) ↔
      ClosedContent F L file := by
  rw [← outstanding_some_iff L str file key]
  constructor
  · exact fun h => h.1
  · rintro ⟨reservation, hreservation⟩
    refine ⟨⟨reservation, hreservation⟩, ?_⟩
    rintro intent trace out rfl run htold
    refine no_post_of_reserved run fun answer hanswer => ?_
    have hfound := htold answer hanswer
    rw [hreservation] at hfound
    obtain rfl := Except.ok.inj hfound
    rfl

end Closed

/-! ## §3 — A list -/

/-- The history of a request up to its message, where the journal has nothing. -/
def postingTrace (intent : ApprovalIntent) : List (Event Res) :=
  [⟨.hold intent.key, true⟩, ⟨.journalOutstanding intent.key, (none : Option Reservation)⟩,
    ⟨.outstanding intent.key, (.ok [] : Except RecordsFault (List ApprovalRequest))⟩,
    ⟨.now, (Str.of "2026-07-21T09:00:00+00:00" : Str)⟩,
    ⟨.journalReserve intent.key intent.actionHash "2026-07-21T09:00:00+00:00", ()⟩,
    ⟨.post intent, (⟨"m2", intent.channelId⟩ : PostedApproval)⟩]

theorem postingTrace_runs (intent : ApprovalIntent) : Runs (requestOwnerApproval intent) (postingTrace intent) none :=
  .call (.call (.call (.call (.call (.call (.stop _))))))

theorem postingTrace_told {intent : ApprovalIntent} {answer : Option Reservation}
    (h : ⟨.journalOutstanding intent.key, answer⟩ ∈ postingTrace intent) : answer = none := by
  rcases List.mem_cons.mp h with h | h
  · cases h
  rcases List.mem_cons.mp h with h | h
  · cases h
    rfl
  · cases h with
    | tail _ h => cases h with
      | tail _ h => cases h with
        | tail _ h => cases h with
          | tail _ h => cases h

/-- **A JSON list is no reservation**: the file is there, the answer is none, and a message is posted. -/
theorem list_posts_again :
    journalOutstanding ⟨4300, 1000⟩ (fun _ : Json SampleFloat => []) (some (some (Str.of "[]"))) "skill-deploy:todo" =
        .ok none ∧
      ToldBy ⟨4300, 1000⟩ (fun _ : Json SampleFloat => []) (some (some (Str.of "[]"))) "skill-deploy:todo"
        (postingTrace ⟨"skill-deploy:todo", "h", "c"⟩) ∧
      Runs (requestOwnerApproval ⟨"skill-deploy:todo", "h", "c"⟩) (postingTrace ⟨"skill-deploy:todo", "h", "c"⟩) none ∧
      ∃ e ∈ postingTrace ⟨"skill-deploy:todo", "h", "c"⟩, e.op = .post ⟨"skill-deploy:todo", "h", "c"⟩ := by
  have hnone : journalOutstanding ⟨4300, 1000⟩ (fun _ : Json SampleFloat => []) (some (some (Str.of "[]")))
      "skill-deploy:todo" = .ok none := by decide +kernel
  refine ⟨hnone, ?_, postingTrace_runs _, _, List.getLast_mem (by simp [postingTrace]), rfl⟩
  intro answer hanswer
  rw [hnone, postingTrace_told hanswer]

end Autophagy.Approval
