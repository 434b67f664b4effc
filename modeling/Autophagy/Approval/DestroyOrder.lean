/-
# Autophagy.Approval.DestroyOrder — what one `request_owner_approval` run may destroy, and when.

The lifecycle promises (L2, L3, L4 of its docstring) that a request the owner has decided is never
destroyed. Nothing is assumed about the gate: every probe may answer anything at any time, may raise,
and the list of outstanding records is arbitrary.

`Allowed` states what each event needs to have seen before it; `Cleaning` is the invariant that carries
the proof through the cleanup loops. It ties the history to the records still to be treated (`todo`)
and to the `cleared` list the code accumulates, so that the verdict's report is exact as well.

The one subtlety is a record listed twice. Its two snapshot probes may disagree, and the code then
drops it on the strength of the first answer. `drop` is therefore guarded by the *last* probe only for
a record that is listed once.
-/
import Autophagy.Approval.Lifecycle
import Mathlib.Data.List.Induction

namespace Autophagy.Approval

open Autophagy.Effect Autophagy.Python

/-! ## §1 — Reading a history -/

/-- A history of lifecycle operations. -/
abbrev History := List (Event Res)

/-- The event of one probe of the producer. -/
def probed (r : ApprovalRequest) (answer : Except SurfaceFault Probe) : Event Res := ⟨.probe r, answer⟩

/-- The answers the probes of `r` gave, in order; a raised fault reads as unverifiable. -/
def answers (r : ApprovalRequest) (h : History) : List Probe :=
  h.filterMap fun
    | ⟨.probe r', answer⟩ => if r' = r then some (seen answer) else none
    | _ => none

/-- The records dropped so far, in drop order. -/
def dropped (h : History) : List ApprovalRequest :=
  h.filterMap fun
    | ⟨.drop r, _⟩ => some r
    | _ => none

/-- The intents posted so far. -/
def posts (h : History) : List ApprovalIntent :=
  h.filterMap fun
    | ⟨.post i, _⟩ => some i
    | _ => none

/-- The answer of the last probe of `r`. -/
def lastProbe (r : ApprovalRequest) (h : History) : Option Probe := (answers r h).getLast?

/-- The call owns the key, found no reservation, and read `rs` as the outstanding records. -/
def opening (key : Str) (rs : List ApprovalRequest) : History :=
  [⟨.hold key, true⟩, ⟨.journalOutstanding key, (none : Option Reservation)⟩,
    ⟨.outstanding key, (.ok rs : Except RecordsFault (List ApprovalRequest))⟩]

/-- **A clean whole snapshot.** Every outstanding record was probed, in order, right after it was read,
and every answer was `BOUND_PENDING` or `MISSING`. -/
def CleanSnapshot (key : Str) (rs : List ApprovalRequest) (h : History) : Prop :=
  ∃ as after, h = opening key rs ++ List.zipWith probed rs as ++ after ∧
    as.length = rs.length ∧ ∀ a ∈ as, seen a = .boundPending ∨ seen a = .missing

/-- `r` was deleted, successfully, by the event just before. -/
def JustDeleted (r : ApprovalRequest) (h : History) : Prop :=
  ∃ before, h = before ++ [⟨.delete r, (.ok () : Except SurfaceFault Unit)⟩]

/-- A probe of `r` answered `MISSING`, and where `r` is listed once no later probe said otherwise. -/
def FoundMissing (rs : List ApprovalRequest) (r : ApprovalRequest) (h : History) : Prop :=
  .missing ∈ answers r h ∧ (rs.count r = 1 → lastProbe r h = some .missing)

/-- **What an event needs.** The events of one call that change the gate, each with what the history
before it must show; the call read the outstanding records `rs`. -/
def Allowed (intent : ApprovalIntent) (rs : List ApprovalRequest) (h : History) : Event Res → Prop
  | ⟨.delete r, _⟩ => CleanSnapshot intent.key rs h ∧ lastProbe r h = some .boundPending
  | ⟨.drop r, _⟩ => CleanSnapshot intent.key rs h ∧ (JustDeleted r h ∨ FoundMissing rs r h)
  | ⟨.post i, _⟩ => i = intent ∧ CleanSnapshot intent.key rs h ∧ (dropped h).Perm rs ∧ posts h = []
  | _ => True

/-! ## §2 — The reading functions along a history -/

section Reading

variable (r r' : ApprovalRequest) (a : Except SurfaceFault Probe) (h h' : History)

@[simp] theorem answers_append : answers r (h ++ h') = answers r h ++ answers r h' :=
  List.filterMap_append

@[simp] theorem answers_probed : answers r [probed r' a] = if r' = r then [seen a] else [] := by
  simp only [answers, probed, List.filterMap_cons, List.filterMap_nil]
  split <;> simp_all

@[simp] theorem dropped_append : dropped (h ++ h') = dropped h ++ dropped h' :=
  List.filterMap_append

@[simp] theorem posts_append : posts (h ++ h') = posts h ++ posts h' :=
  List.filterMap_append

theorem lastProbe_snoc_probed : lastProbe r (h ++ [probed r a]) = some (seen a) := by
  simp [lastProbe]

end Reading

theorem answers_zipWith (r : ApprovalRequest) (rs : List ApprovalRequest)
    (as : List (Except SurfaceFault Probe)) :
    answers r (List.zipWith probed rs as) =
      ((rs.zip (as.map seen)).filter fun e => e.1 = r).map (·.2) := by
  induction rs generalizing as with
  | nil => rfl
  | cons x rs ih =>
    cases as with
    | nil => rfl
    | cons a as =>
      have hsplit : List.zipWith probed (x :: rs) (a :: as) =
          [probed x a] ++ List.zipWith probed rs as := rfl
      rw [hsplit, answers_append, ih, answers_probed]
      by_cases hx : x = r <;> simp [hx]

theorem length_answers_zipWith (r : ApprovalRequest) {rs : List ApprovalRequest}
    {as : List (Except SurfaceFault Probe)} (hlen : as.length = rs.length) :
    (answers r (List.zipWith probed rs as)).length = rs.count r := by
  induction rs generalizing as with
  | nil => rfl
  | cons x rs ih =>
    cases as with
    | nil => simp at hlen
    | cons a as =>
      have hsplit : List.zipWith probed (x :: rs) (a :: as) =
          [probed x a] ++ List.zipWith probed rs as := rfl
      rw [hsplit, answers_append, List.length_append, ih (by simpa using hlen), answers_probed,
        List.count_cons]
      by_cases hx : x = r <;> simp [hx, Nat.add_comm]

theorem dropped_zipWith (rs : List ApprovalRequest) (as : List (Except SurfaceFault Probe)) :
    dropped (List.zipWith probed rs as) = [] := by
  induction rs generalizing as with
  | nil => rfl
  | cons x rs ih =>
    cases as with
    | nil => rfl
    | cons a as => exact ih as

theorem posts_zipWith (rs : List ApprovalRequest) (as : List (Except SurfaceFault Probe)) :
    posts (List.zipWith probed rs as) = [] := by
  induction rs generalizing as with
  | nil => rfl
  | cons x rs ih =>
    cases as with
    | nil => rfl
    | cons a as => exact ih as

/-! ## §3 — The cleanup invariant -/

/-- **The cleanup invariant.** Between two operations of the cleanup: the history is allowed, it starts
with a clean whole snapshot of `rs`, `cleared` lists exactly the dropped records, nothing has been
posted, and the outstanding records are those dropped plus those still `todo`. -/
structure Cleaning (intent : ApprovalIntent) (rs : List ApprovalRequest) (h : History)
    (todo : List ApprovalRequest) (cleared : List Cleared) : Prop where
  ordered : Ordered (Allowed intent rs) h
  clean : CleanSnapshot intent.key rs h
  report : cleared.map (·.request) = dropped h
  account : (dropped h ++ todo).Perm rs
  unposted : posts h = []

theorem CleanSnapshot.snoc {key : Str} {rs : List ApprovalRequest} {h : History}
    (hc : CleanSnapshot key rs h) (h' : History) : CleanSnapshot key rs (h ++ h') := by
  obtain ⟨as, after, rfl, hlen, hans⟩ := hc
  exact ⟨as, after ++ h', by simp, hlen, hans⟩

namespace Cleaning

variable {intent : ApprovalIntent} {rs todo : List ApprovalRequest} {h : History}
  {cleared : List Cleared} {r : ApprovalRequest}

theorem probed (hc : Cleaning intent rs h todo cleared) (r : ApprovalRequest)
    (a : Except SurfaceFault Probe) : Cleaning intent rs (h ++ [Approval.probed r a]) todo cleared where
  ordered := ordered_snoc.mpr ⟨hc.ordered, trivial⟩
  clean := hc.clean.snoc _
  report := by simpa [dropped, Approval.probed] using hc.report
  account := by simpa [dropped, Approval.probed] using hc.account
  unposted := by simpa [posts, Approval.probed] using hc.unposted

theorem deleted (hc : Cleaning intent rs h todo cleared) (hlast : lastProbe r h = some .boundPending)
    (a : Except SurfaceFault Unit) : Cleaning intent rs (h ++ [⟨.delete r, a⟩]) todo cleared where
  ordered := ordered_snoc.mpr ⟨hc.ordered, hc.clean, hlast⟩
  clean := hc.clean.snoc _
  report := by simpa [dropped] using hc.report
  account := by simpa [dropped] using hc.account
  unposted := by simpa [posts] using hc.unposted

theorem drop (hc : Cleaning intent rs h (r :: todo) cleared)
    (hwhy : JustDeleted r h ∨ FoundMissing rs r h) (reason : Reason) :
    Cleaning intent rs (h ++ [⟨.drop r, ()⟩]) todo (cleared ++ [⟨r, reason⟩]) where
  ordered := ordered_snoc.mpr ⟨hc.ordered, hc.clean, hwhy⟩
  clean := hc.clean.snoc _
  report := by
    rw [List.map_append, hc.report, dropped_append]
    rfl
  account := by
    have hd : dropped [(⟨.drop r, ()⟩ : Event Res)] = [r] := rfl
    rw [dropped_append, hd, List.append_assoc]
    exact hc.account
  unposted := by simpa [posts] using hc.unposted

theorem perm {todo' : List ApprovalRequest} (hc : Cleaning intent rs h todo cleared)
    (hp : todo.Perm todo') : Cleaning intent rs h todo' cleared where
  ordered := hc.ordered
  clean := hc.clean
  report := hc.report
  account := (List.Perm.append_left _ hp.symm).trans hc.account
  unposted := hc.unposted

end Cleaning

/-- The verdict a call returns reports exactly what it dropped. -/
def Reports (v : Verdict) (h : History) : Prop := v.cleared.map (·.request) = dropped h

/-! ## §4 — The cleanup loops -/

section Loops

variable {intent : ApprovalIntent} {rs rest : List ApprovalRequest} {h : History}
  {cleared : List Cleared}

theorem dropGone_cleaning {gone : List ApprovalRequest}
    (hc : Cleaning intent rs h (gone ++ rest) cleared) (hgone : ∀ r ∈ gone, FoundMissing rs r h) :
    Always recorded (Ordered (Allowed intent rs))
      (fun cleared' h' => Cleaning intent rs h' rest cleared') (dropGone gone cleared) h := by
  induction gone generalizing h cleared with
  | nil => exact ⟨hc.ordered, hc⟩
  | cons r gone ih =>
    have hr : FoundMissing rs r h := hgone r (by simp)
    refine Always.event (.drop r) hc.ordered fun u => ?_
    refine ih (hc.drop (.inr hr) .messageMissing) ?_
    intro r' hr'
    obtain ⟨hmem, hlast⟩ := hgone r' (by simp [hr'])
    have hsame : answers r' (h ++ [⟨.drop r, u⟩]) = answers r' h := by
      simp [answers]
    exact ⟨by rw [hsame]; exact hmem, by simpa only [lastProbe, hsame] using hlast⟩

theorem destroy_cleaning (reason : Reason) {doomed : List ApprovalRequest}
    (hc : Cleaning intent rs h (doomed ++ rest) cleared) :
    Always recorded (Ordered (Allowed intent rs))
      (fun result h' => match result with
        | .error v => Reports v h'
        | .ok cleared' => Cleaning intent rs h' rest cleared')
      (destroy reason doomed cleared) h := by
  induction doomed generalizing h cleared with
  | nil => exact ⟨hc.ordered, hc⟩
  | cons r doomed ih =>
    refine Always.event (.probe r) hc.ordered fun a => ?_
    have hp := hc.probed r a
    have hlast : lastProbe r (h ++ [probed r a]) = some (seen a) := lastProbe_snoc_probed r a h
    change Always recorded _ _ _ (h ++ [probed r a])
    generalize h ++ [probed r a] = h₁ at hp hlast ⊢
    simp only [Prog.bind]
    cases hseen : seen a with
    | approved => exact ⟨hp.ordered, hp.report⟩
    | cancelled => exact ⟨hp.ordered, hp.report⟩
    | unverifiable => exact ⟨hp.ordered, hp.report⟩
    | bindingMismatch => exact ⟨hp.ordered, hp.report⟩
    | missing =>
      refine Always.event (.drop r) hp.ordered fun _ => ?_
      rw [hseen] at hlast
      refine ih (hp.drop (.inr ⟨?_, fun _ => hlast⟩) .messageMissing)
      exact List.mem_of_getLast? hlast
    | boundPending =>
      rw [hseen] at hlast
      refine Always.event (.delete r) hp.ordered fun d => ?_
      have hd := hp.deleted hlast d
      cases d with
      | error fault => exact ⟨hd.ordered, hd.report⟩
      | ok _ =>
        refine Always.event (.drop r) hd.ordered fun _ => ?_
        exact ih (hd.drop (.inl ⟨h₁, rfl⟩) reason)

end Loops

/-! ## §5 — The whole call -/

theorem snapshot_spec {I : History → Prop} (hI : ∀ h r a, I h → I (h ++ [probed r a]))
    (rs : List ApprovalRequest) {h : History} (h0 : I h) :
    Always recorded I
      (fun shot h' => ∃ as : List (Except SurfaceFault Probe), as.length = rs.length ∧
        h' = h ++ List.zipWith probed rs as ∧ shot = rs.zip (as.map seen))
      (snapshot rs) h := by
  induction rs generalizing h with
  | nil => exact ⟨h0, [], by simp⟩
  | cons r rs ih =>
    refine Always.event (.probe r) h0 fun a => ?_
    change Always recorded I _ (snapshot rs >>= fun tail => pure ((r, seen a) :: tail))
      (h ++ [probed r a])
    refine Always.bind (ih (hI h r a h0)) ?_
    rintro shot h' hI' ⟨as, hlen, rfl, rfl⟩
    refine ⟨hI', a :: as, congrArg (· + 1) hlen, ?_, rfl⟩
    rw [List.append_assoc]
    rfl

theorem ordered_probes (intent : ApprovalIntent) (rs : List ApprovalRequest) (h : History)
    (r : ApprovalRequest) (a : Except SurfaceFault Probe) (ho : Ordered (Allowed intent rs) h) :
    Ordered (Allowed intent rs) (h ++ [probed r a]) :=
  ordered_snoc.mpr ⟨ho, trivial⟩

theorem ordered_opening (intent : ApprovalIntent) (rs : List ApprovalRequest) :
    Ordered (Allowed intent rs) (opening intent.key rs) :=
  ordered_of_free (by simp [opening, Allowed])

theorem foundMissing_of_snapshot {key : Str} {rs : List ApprovalRequest}
    {as : List (Except SurfaceFault Probe)} (hlen : as.length = rs.length) {r : ApprovalRequest}
    (hr : r ∈ answering (fun p => p = .missing) (rs.zip (as.map seen))) :
    FoundMissing rs r (opening key rs ++ List.zipWith probed rs as) := by
  have hopen : answers r (opening key rs) = [] := rfl
  have hans : answers r (opening key rs ++ List.zipWith probed rs as) =
      answers r (List.zipWith probed rs as) := by
    rw [answers_append, hopen, List.nil_append]
  have hmem : .missing ∈ answers r (List.zipWith probed rs as) := by
    rw [answers_zipWith]
    simp only [answering, List.mem_map, List.mem_filter] at hr ⊢
    obtain ⟨e, ⟨he, hmissing⟩, rfl⟩ := hr
    exact ⟨e, ⟨he, by simp⟩, by simpa using hmissing⟩
  refine ⟨by rw [hans]; exact hmem, ?_⟩
  intro hcount
  rw [lastProbe, hans]
  -- Listed once, the record has one answer, which is then the last.
  have hone := length_answers_zipWith r hlen
  rw [hcount] at hone
  obtain ⟨x, hx⟩ := List.length_eq_one_iff.mp hone
  rw [hx] at hmem ⊢
  simp only [List.mem_singleton] at hmem
  simp [← hmem]

theorem post_spec (intent : ApprovalIntent) {rs : List ApprovalRequest} {h : History}
    {cleared : List Cleared} (hc : Cleaning intent rs h [] cleared) :
    Always recorded (Ordered (Allowed intent rs)) Reports (postIntent intent cleared) h := by
  have hdropped : (dropped h).Perm rs := by simpa using hc.account
  refine Always.guarded Op.now hc.ordered (fun _ => trivial) fun at_ h₁ => ?_
  refine Always.guarded (Op.journalReserve intent.key intent.actionHash at_) h₁
    (fun _ => trivial) fun u h₂ => ?_
  have hpost : ∀ posted, Allowed intent rs (h ++ [⟨.now, at_⟩] ++
      [⟨.journalReserve intent.key intent.actionHash at_, u⟩]) ⟨.post intent, posted⟩ := by
    intro posted
    refine ⟨rfl, (hc.clean.snoc _).snoc _, ?_, ?_⟩
    · simpa [dropped] using hdropped
    · simpa [posts] using hc.unposted
  refine Always.guarded (Op.post intent) h₂ hpost fun posted h₃ => ?_
  refine Always.guarded (Op.commit intent posted at_) h₃ (fun _ => trivial) fun u' h₄ => ?_
  refine Always.guarded (Op.journalClear intent.key) h₄ (fun _ => trivial) fun u'' h₅ => ?_
  refine ⟨h₅, ?_⟩
  simpa [Reports, dropped] using hc.report

theorem supersede_spec (intent : ApprovalIntent) {rs pending : List ApprovalRequest} {h : History}
    {cleared : List Cleared} (hc : Cleaning intent rs h pending cleared) :
    Always recorded (Ordered (Allowed intent rs)) Reports (supersede intent pending cleared) h := by
  have hsplit := hc.perm (content_split intent pending)
  unfold supersede
  split
  · -- The same content is already pending: only its duplicates go.
    rename_i canonical duplicates hsame
    rw [hsame] at hsplit
    have hdup : Cleaning intent rs h
        (duplicates ++ canonical :: otherContent intent pending) cleared :=
      hsplit.perm List.perm_middle.symm
    refine Always.bind (destroy_cleaning .duplicateCollapsed hdup) ?_
    intro result h' ho hr
    cases result with
    | error v => exact ⟨ho, hr⟩
    | ok cleared' => exact ⟨ho, hr.report⟩
  · -- New content: everything pending goes, then the intent is posted.
    rename_i hsame
    rw [hsame, List.nil_append, ← List.append_nil (otherContent intent pending)] at hsplit
    refine Always.bind (destroy_cleaning .contentChanged hsplit) ?_
    intro result h' ho hr
    cases result with
    | error v => exact ⟨ho, hr⟩
    | ok cleared' => exact post_spec intent hr

theorem settle_spec (intent : ApprovalIntent) {rs : List ApprovalRequest}
    {as : List (Except SurfaceFault Probe)} (hlen : as.length = rs.length)
    (ho : Ordered (Allowed intent rs) (opening intent.key rs ++ List.zipWith probed rs as)) :
    Always recorded (Ordered (Allowed intent rs)) Reports
      (settle intent (rs.zip (as.map seen)))
      (opening intent.key rs ++ List.zipWith probed rs as) := by
  have hnone : dropped (opening intent.key rs ++ List.zipWith probed rs as) = [] := by
    rw [dropped_append, dropped_zipWith]
    rfl
  have hnopost : posts (opening intent.key rs ++ List.zipWith probed rs as) = [] := by
    rw [posts_append, posts_zipWith]
    rfl
  rcases settle_cases intent (rs.zip (as.map seen)) with ⟨v, hv, hcleared⟩ | ⟨hclean, hrun⟩
  · rw [hv]
    refine ⟨ho, ?_⟩
    rw [Reports, hcleared, hnone]
    rfl
  have hmap : (rs.zip (as.map seen)).map (·.1) = rs := by
    rw [List.map_fst_zip]
    simp [hlen]
  have hsnd : (rs.zip (as.map seen)).map (·.2) = as.map seen := by
    rw [List.map_snd_zip]
    simp [hlen]
  have hanswers : ∀ a ∈ as, seen a = .boundPending ∨ seen a = .missing := by
    intro a ha
    obtain ⟨e, he, hea⟩ := List.mem_map.mp (hsnd ▸ List.mem_map_of_mem (f := seen) ha)
    rw [← hea]
    exact hclean e he
  have hstart : Cleaning intent rs (opening intent.key rs ++ List.zipWith probed rs as)
      (answering (fun p => p = .missing) (rs.zip (as.map seen)) ++
        answering (fun p => p = .boundPending) (rs.zip (as.map seen))) [] :=
    { ordered := ho
      clean := ⟨as, [], by simp, hlen, hanswers⟩
      report := by rw [hnone]; rfl
      account := by
        rw [hnone, List.nil_append]
        exact (clean_split hclean).trans (List.Perm.of_eq hmap)
      unposted := hnopost }
  rw [hrun]
  refine Always.bind (dropGone_cleaning hstart fun r hr => foundMissing_of_snapshot hlen hr) ?_
  intro cleared h _ hc
  exact supersede_spec intent hc

theorem posts_length_le_one {intent : ApprovalIntent} {rs : List ApprovalRequest} {h : History}
    (ho : Ordered (Allowed intent rs) h) : (posts h).length ≤ 1 := by
  induction h using List.reverseRecOn with
  | nil => simp [posts]
  | append_singleton h e ih =>
    obtain ⟨ho', he⟩ := ordered_snoc.mp ho
    rw [posts_append, List.length_append]
    obtain ⟨op, res⟩ := e
    cases op with
    | post i =>
      have hnone : posts h = [] := he.2.2.2
      rw [hnone]
      rfl
    | _ => simpa [posts] using ih ho'

theorem requestOwned_spec (intent : ApprovalIntent) :
    Always recorded (fun h => ∃ rs, Ordered (Allowed intent rs) h) Reports (requestOwned intent)
      [⟨.hold intent.key, true⟩] := by
  have hfree : ∀ h : History, (∀ e ∈ h, ∀ before, Allowed intent [] before e) →
      ∃ rs, Ordered (Allowed intent rs) h := fun h he => ⟨[], ordered_of_free he⟩
  refine Always.event (Op.journalOutstanding intent.key) (hfree _ (by simp [Allowed]))
    fun reservation => ?_
  cases reservation with
  | some entry => exact ⟨hfree _ (by simp [Allowed]), rfl⟩
  | none =>
    refine Always.event (Op.outstanding intent.key) (hfree _ (by simp [Allowed])) fun listed => ?_
    cases listed with
    | error fault => exact ⟨hfree _ (by simp [Allowed]), rfl⟩
    | ok rs =>
      change Always recorded _ _ (snapshot rs >>= fun shot => settle intent shot)
        (opening intent.key rs)
      refine Always.mono ?_ (fun h ho => ⟨rs, ho⟩) (fun _ _ _ hv => hv)
      refine Always.bind (snapshot_spec (ordered_probes intent rs) rs
        (ordered_opening intent rs)) ?_
      rintro shot h ho ⟨as, hlen, rfl, rfl⟩
      exact settle_spec intent hlen ho

/-- **Nothing the owner decided is destroyed.** In every run of one `request_owner_approval` call, cut
anywhere, against every gate: there is the list `rs` of outstanding records the call read such that
each delete, drop and post was allowed (`Allowed`) where it stands, there is at most one post, and the
verdict reports exactly the dropped records, in drop order. -/
theorem request_destroys_nothing_decided (intent : ApprovalIntent) {trace : History}
    {out : Option Verdict} (run : Runs (requestOwnerApproval intent) trace out) :
    (∃ rs, Ordered (Allowed intent rs) trace ∧ (posts trace).length ≤ 1) ∧
      ∀ v, out = some v → v.cleared.map (·.request) = dropped trace := by
  have hcall : Always recorded (fun h => ∃ rs, Ordered (Allowed intent rs) h) Reports
      (requestOwnerApproval intent) [] := by
    refine Always.event (Op.hold intent.key) ⟨[], ordered_nil⟩ fun owned => ?_
    cases owned with
    | false => exact ⟨⟨[], ordered_of_free (by simp [Allowed])⟩, rfl⟩
    | true =>
      change Always recorded _ _ (requestOwned intent >>= fun verdict =>
        Lease.release intent.key >>= fun _ => pure verdict) [⟨.hold intent.key, true⟩]
      refine Always.bind (requestOwned_spec intent) ?_
      rintro v h ⟨rs, ho⟩ hv
      refine Always.event (Op.release intent.key) ⟨rs, ho⟩ fun u => ?_
      refine ⟨⟨rs, ordered_snoc.mpr ⟨ho, trivial⟩⟩, ?_⟩
      simpa [Reports, dropped] using hv
  obtain ⟨⟨rs, ho⟩, hv⟩ := hcall.runs run
  exact ⟨⟨rs, ho, posts_length_le_one ho⟩, hv⟩

/-! ## §6 — A complete run, and the record that is listed twice -/

/-- The sample values of the runs below. -/
def sampleRequest (action : Str) : ApprovalRequest where
  key := "deploy:wiki"
  actionHash := action
  messageId := "100"
  channelId := "7"
  createdAt := "2026-01-01T00:00:00Z"

def sampleIntent : ApprovalIntent where
  key := "deploy:wiki"
  actionHash := "new"
  channelId := "7"

/-- A superseding run up to its post: the old message is probed twice, deleted and dropped, then the
new one is posted. -/
def supersedeTrace : History :=
  opening sampleIntent.key [sampleRequest "old"] ++
    [probed (sampleRequest "old") (.ok .boundPending), probed (sampleRequest "old") (.ok .boundPending),
      ⟨.delete (sampleRequest "old"), (.ok () : Except SurfaceFault Unit)⟩,
      ⟨.drop (sampleRequest "old"), ()⟩, ⟨.now, Str.of "t"⟩,
      ⟨.journalReserve sampleIntent.key sampleIntent.actionHash "t", ()⟩,
      ⟨.post sampleIntent, (⟨"101", "7"⟩ : PostedApproval)⟩]

theorem request_destroys_nothing_decided_supersede :
    (∃ rs, Ordered (Allowed sampleIntent rs) supersedeTrace ∧ (posts supersedeTrace).length ≤ 1) ∧
      dropped supersedeTrace = [sampleRequest "old"] ∧ posts supersedeTrace = [sampleIntent] := by
  have run : Runs (requestOwnerApproval sampleIntent) supersedeTrace none := by
    iterate 10 refine Runs.call ?_
    exact Runs.stop _
  exact ⟨(request_destroys_nothing_decided sampleIntent run).1, rfl, rfl⟩

/-- A record listed twice whose two snapshot probes disagree is dropped although its last probe found
the message bound and pending, and without any delete: the last answer alone does not guard `drop`. -/
theorem drop_of_duplicate_listing :
    ∃ trace out, Runs (requestOwnerApproval sampleIntent) trace out ∧
      ¬ Ordered (fun h e => ∀ r, e.op = .drop r →
        JustDeleted r h ∨ lastProbe r h = some .missing) trace := by
  refine ⟨opening sampleIntent.key [sampleRequest "new", sampleRequest "new"] ++
    [probed (sampleRequest "new") (.ok .missing), probed (sampleRequest "new") (.ok .boundPending)] ++
      [⟨.drop (sampleRequest "new"), ()⟩], none, ?_, ?_⟩
  · iterate 6 refine Runs.call ?_
    exact Runs.stop _
  · intro ho
    rcases (ordered_snoc.mp ho).2 _ rfl with ⟨before, hlast⟩ | hmissing
    · have hops := congrArg (fun h : History => (h.map Event.op).getLast?) hlast
      simp [probed] at hops
    · revert hmissing
      decide

end Autophagy.Approval
