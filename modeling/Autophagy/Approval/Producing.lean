/-
# Autophagy.Approval.Producing — producers over the lifecycle.

Each approval producer gives `request_owner_approval` its own store and its own surface, and runs it under the
key lease. `Producer` is that interface with exceptions, and `Producer.request` is `request_owner_approval` over
it, the lease released in a `finally`.

`Producer.handles_request` is the rule of such a producer. What it must show of its own operations is little: a
probe that answers `MISSING` and a delete that returns have seen the message gone, and a record whose message is
gone may be dropped. The lifecycle then drops nothing else, and posts only when every listed message is gone.
-/
import Autophagy.Approval.Lifecycle
import Autophagy.Effect.Raise

namespace Autophagy.Approval

open Autophagy.Effect Autophagy.Python
open Autophagy.Effect.Machine (Handles)

/-! ## §1 — The producer's side of the lifecycle -/

/-- `ApprovalGate` with the lease and the posting journal it runs under; `unsupported` is raised where it is asked
for what only a watcher does. -/
structure Producer {Op : Type} (Res : Op → Type) (ε : Type) where
  outstanding : Str → Fallible Res ε (Except RecordsFault (List ApprovalRequest))
  probe : ApprovalRequest → Fallible Res ε (Except SurfaceFault Probe)
  delete : ApprovalRequest → Fallible Res ε (Except SurfaceFault Unit)
  drop : ApprovalRequest → Fallible Res ε Unit
  post : ApprovalIntent → Fallible Res ε PostedApproval
  commit : ApprovalIntent → PostedApproval → Str → Fallible Res ε Unit
  now : Fallible Res ε Str
  journalOutstanding : Str → Fallible Res ε (Option Reservation)
  journalReserve : Str → Str → Str → Fallible Res ε Unit
  journalClear : Str → Fallible Res ε Unit
  hold : Str → Fallible Res ε Bool
  release : Str → Fallible Res ε Unit
  unsupported : ε

namespace Producer

variable {Op' : Type} {Res' : Op' → Type} {ε : Type}

/-- What the operations of the lifecycle are for a producer. -/
def perform (g : Producer Res' ε) : (op : Op) → Fallible Res' ε (Res op)
  | .hold key => g.hold key
  | .release key => g.release key
  | .journalOutstanding key => g.journalOutstanding key
  | .journalReserve key actionHash at_ => g.journalReserve key actionHash at_
  | .journalClear key => g.journalClear key
  | .outstanding key => g.outstanding key
  | .probe request => g.probe request
  | .delete request => g.delete request
  | .drop request => g.drop request
  | .now => g.now
  | .post intent => g.post intent
  | .commit intent posted createdAt => g.commit intent posted createdAt
  | .watcherProbe _ => Fallible.raise g.unsupported
  | .watcherApply _ _ => Fallible.raise g.unsupported
  | .watcherDrop _ => Fallible.raise g.unsupported

/-- What `request_owner_approval` does while it owns the key. -/
def requestOwned (g : Producer Res' ε) (intent : ApprovalIntent) : Fallible Res' ε Verdict :=
  (Approval.requestOwned intent).interpret g.perform

/-- `request_owner_approval`. -/
def request (g : Producer Res' ε) (intent : ApprovalIntent) : Fallible Res' ε Verdict :=
  Fallible.holding (g.hold intent.key) (g.release intent.key)
    { outcome := .deferred, reason := some .leaseHeld } (g.requestOwned intent)

theorem performs_request {P : Op' → Prop} {g : Producer Res' ε} (h : ∀ op, Fallible.Performs P (g.perform op))
    (intent : ApprovalIntent) : Fallible.Performs P (g.request intent) :=
  Fallible.Performs.holding (h (.hold intent.key)) (h (.release intent.key)) (Prog.Only.interpret h _)

/-! ## §2 — What a producer drops -/

section Rule

variable {Pid σ : Type} (M : Machine (RaisingRes Res' ε) Pid σ) (I : σ → Prop) (R : Pid → σ → σ → Prop) (p : Pid)

/-- An assertion no operation takes away. -/
structure Stable (K : σ → Prop) : Prop where
  rely : ∀ s s', K s → R p s s' → K s'
  step : ∀ op s r s', I s → K s → M.step p s (.op op) r s' → K s'

/-- What the operations of a producer of a key must show: `Listed` holds of the requests read from the store, `Covers` of
the list as a whole, and `Gone` of a request whose message is not there any more. -/
structure Careful (g : Producer Res' ε) (key : Str) (Listed Gone : ApprovalRequest → σ → Prop)
    (Covers : List ApprovalRequest → σ → Prop) : Prop where
  listed : ∀ r, Stable M I R p (Listed r)
  gone : ∀ r, Stable M I R p (Gone r)
  covers : ∀ rs, Stable M I R p (Covers rs)
  hold : ∀ s, Handles M I R p (fun _ _ => True) (fun _ _ => True) (g.hold key) s
  release : ∀ s, Handles M I R p (fun _ _ => True) (fun _ _ => True) (g.release key) s
  journal : ∀ s, Handles M I R p (fun _ _ => True) (fun _ _ => True) (g.journalOutstanding key) s
  outstanding : ∀ s, Handles M I R p
    (fun found s => ∀ rs, found = .ok rs → Covers rs s ∧ ∀ r ∈ rs, Listed r s) (fun _ _ => True)
    (g.outstanding key) s
  probe : ∀ r s, Listed r s → Handles M I R p (fun answer s => answer = .ok .missing → Gone r s)
    (fun _ _ => True) (g.probe r) s
  delete : ∀ r s, Listed r s → Handles M I R p (fun answer s => answer = .ok () → Gone r s)
    (fun _ _ => True) (g.delete r) s
  drop : ∀ r s, Gone r s → Handles M I R p (fun _ _ => True) (fun _ _ => True) (g.drop r) s
  post : ∀ intent cleared rs s, Covers rs s → (∀ r ∈ rs, Gone r s) →
    Handles M I R p (fun _ _ => True) (fun _ _ => True)
      ((postIntent intent cleared).interpret g.perform) s

variable {M I R p}

theorem Stable.handles {K : σ → Prop} (hK : Stable M I R p K) {α : Type} {prog : Fallible Res' ε α} {s : σ}
    {Q : α → σ → Prop} {E : ε → σ → Prop} (h : Handles M I R p Q E prog s) (hs : K s) :
    Handles M I R p (fun a s => Q a s ∧ K s) E prog s := by
  induction prog generalizing s with
  | ret a => exact ⟨h, hs⟩
  | call op k ih =>
    cases op with
    | op o =>
      intro s₁ hI hR r s₂ hs₂
      obtain ⟨hI₂, hG, hk⟩ := h s₁ hI hR r s₂ hs₂
      exact ⟨hI₂, hG, ih r hk (hK.step o s₁ r s₂ hI (hK.rely s s₁ hs hR) hs₂)⟩
    | raise fault => exact h

theorem Stable.all {K : ApprovalRequest → σ → Prop} (hK : ∀ r, Stable M I R p (K r)) (rs : List ApprovalRequest) :
    Stable M I R p (fun s => ∀ r ∈ rs, K r s) where
  rely s s' h hR := fun r hr => (hK r).rely s s' (h r hr) hR
  step op s r s' hI h hstep := fun x hx => (hK x).step op s r s' hI (h x hx) hstep

theorem Stable.and {K K' : σ → Prop} (hK : Stable M I R p K) (hK' : Stable M I R p K') :
    Stable M I R p (fun s => K s ∧ K' s) where
  rely s s' h hR := ⟨hK.rely s s' h.1 hR, hK'.rely s s' h.2 hR⟩
  step op s r s' hI h hstep := ⟨hK.step op s r s' hI h.1 hstep, hK'.step op s r s' hI h.2 hstep⟩

theorem interpret_bind {α β : Type} (g : Producer Res' ε) (prog : Act α) (f : α → Act β) :
    (prog >>= f).interpret g.perform = prog.interpret g.perform >>= fun a => (f a).interpret g.perform := by
  induction prog with
  | ret a => rfl
  | call op k ih =>
    show g.perform op >>= (fun r => (k r >>= f).interpret g.perform) =
      (g.perform op >>= fun r => (k r).interpret g.perform) >>= _
    rw [Prog.bind_assoc]
    congr 1
    funext r
    exact ih r

theorem interpret_act (g : Producer Res' ε) (op : Op) : (act op).interpret g.perform = g.perform op := by
  show g.perform op >>= (fun r => Prog.ret r) = g.perform op
  generalize g.perform op = prog
  induction prog with
  | ret a => rfl
  | call op k ih =>
    show Prog.call op _ = Prog.call op _
    congr 1
    funext r
    exact ih r

theorem handles_act (g : Producer Res' ε) (op : Op) {Q : Res op → σ → Prop} {E : ε → σ → Prop} {s : σ}
    (h : Handles M I R p Q E (g.perform op) s) :
    Handles M I R p Q E ((act op).interpret g.perform) s := by
  rw [interpret_act]
  exact h

variable {g : Producer Res' ε} {key : Str} {Listed Gone : ApprovalRequest → σ → Prop}
  {Covers : List ApprovalRequest → σ → Prop} {s : σ}

theorem Careful.handles_probe (h : Careful M I R p g key Listed Gone Covers) {r : ApprovalRequest}
    (hr : Listed r s) :
    Handles M I R p (fun answer s => answer = .missing → Gone r s) (fun _ _ => True)
      ((Approval.probe r).interpret g.perform) s := by
  show Handles M I R p _ _ (((act (.probe r)) >>= fun answer => .ret (seen answer)).interpret g.perform) s
  rw [interpret_bind, interpret_act]
  refine Handles.bind (h.probe r s hr) ?_
  intro answer s hanswer
  refine Handles.ret fun hmissing => hanswer ?_
  cases answer with
  | ok a => exact congrArg Except.ok hmissing
  | error fault => cases hmissing

theorem Careful.handles_snapshot (h : Careful M I R p g key Listed Gone Covers) (rs : List ApprovalRequest) :
    ∀ s, (∀ r ∈ rs, Listed r s) → Handles M I R p
        (fun shot s => shot.map Prod.fst = rs ∧ ∀ e ∈ shot, e.2 = .missing → Gone e.1 s) (fun _ _ => True)
        ((snapshot rs).interpret g.perform) s := by
  induction rs with
  | nil => exact fun s _ => Handles.ret ⟨rfl, nofun⟩
  | cons r rs ih =>
    intro s hlisted
    show Handles M I R p _ _
      ((Approval.probe r >>= fun answer => snapshot rs >>= fun tail => .ret ((r, answer) :: tail)).interpret
        g.perform) s
    rw [interpret_bind]
    have hrest : ∀ x ∈ rs, Listed x s := fun x hx => hlisted x (List.mem_cons_of_mem r hx)
    refine Handles.bind ((Stable.all h.listed rs).handles (h.handles_probe (hlisted r List.mem_cons_self)) hrest) ?_
    rintro answer s ⟨hanswer, hrest⟩
    rw [interpret_bind]
    by_cases hmissing : answer = .missing
    · refine Handles.bind ((h.gone r).handles (ih s hrest) (hanswer hmissing)) ?_
      rintro shot s ⟨⟨hmap, hshot⟩, hgone⟩
      refine Handles.ret ⟨by rw [List.map_cons, hmap], ?_⟩
      intro e he hmiss
      rcases List.mem_cons.mp he with rfl | he
      · exact hgone
      · exact hshot e he hmiss
    · refine Handles.bind (ih s hrest) ?_
      rintro shot s ⟨hmap, hshot⟩
      refine Handles.ret ⟨by rw [List.map_cons, hmap], ?_⟩
      intro e he hmiss
      rcases List.mem_cons.mp he with rfl | he
      · exact absurd hmiss hmissing
      · exact hshot e he hmiss

theorem Careful.handles_dropGone (h : Careful M I R p g key Listed Gone Covers) (rs : List ApprovalRequest) :
    ∀ cleared s, (∀ r ∈ rs, Gone r s) → Handles M I R p (fun _ s => ∀ r ∈ rs, Gone r s) (fun _ _ => True)
        ((dropGone rs cleared).interpret g.perform) s := by
  induction rs with
  | nil => exact fun _ s hgone => Handles.ret hgone
  | cons r rs ih =>
    intro cleared s hgone
    show Handles M I R p _ _ ((act (.drop r) >>= fun _ =>
      dropGone rs (cleared ++ [⟨r, .messageMissing⟩])).interpret g.perform) s
    rw [interpret_bind, interpret_act]
    refine Handles.bind ((Stable.all h.gone (r :: rs)).handles (h.drop r s (hgone r List.mem_cons_self)) hgone) ?_
    rintro _ s ⟨-, hgone⟩
    refine ((h.gone r).handles (ih _ s fun x hx => hgone x (List.mem_cons_of_mem r hx))
      (hgone r List.mem_cons_self)).mono ?_ fun _ _ h => h
    rintro cleared s ⟨hrest, hr⟩ x hx
    rcases List.mem_cons.mp hx with rfl | hx
    · exact hr
    · exact hrest x hx

/-- Where the cleanup loop goes through, every message it was given is gone. -/
theorem Careful.handles_destroy (h : Careful M I R p g key Listed Gone Covers) (reason : Reason)
    (rs : List ApprovalRequest) :
    ∀ cleared s, (∀ r ∈ rs, Listed r s) →
      Handles M I R p (fun ended s => (∃ cleared, ended = .ok cleared) → ∀ r ∈ rs, Gone r s)
        (fun _ _ => True) ((destroy reason rs cleared).interpret g.perform) s := by
  induction rs with
  | nil => exact fun _ s _ => Handles.ret fun _ => nofun
  | cons r rs ih =>
    intro cleared s hlisted
    have hr := hlisted r List.mem_cons_self
    have hrest : ∀ x ∈ rs, Listed x s := fun x hx => hlisted x (List.mem_cons_of_mem r hx)
    -- both ways of clearing a record end with its drop and the rest of the loop
    have hclear : ∀ (c : Cleared) s, Gone r s → (∀ x ∈ rs, Listed x s) →
        Handles M I R p (fun ended s => (∃ cleared, ended = .ok cleared) → ∀ x ∈ r :: rs, Gone x s) (fun _ _ => True)
          ((act (.drop r) >>= fun _ => destroy reason rs (cleared ++ [c])).interpret g.perform) s := by
      intro c s hgone hrest
      rw [interpret_bind, interpret_act]
      refine Handles.bind (((h.gone r).and (Stable.all h.listed rs)).handles (h.drop r s hgone) ⟨hgone, hrest⟩) ?_
      rintro _ s ⟨-, hgone, hrest⟩
      refine ((h.gone r).handles (ih _ s hrest) hgone).mono ?_ fun _ _ h => h
      rintro ended s ⟨hended, hgone⟩ hok x hx
      rcases List.mem_cons.mp hx with rfl | hx
      · exact hgone
      · exact hended hok x hx
    have hhalt : ∀ (v : Verdict) s, Handles M I R p
        (fun ended s => (∃ cleared, ended = Except.ok cleared) → ∀ x ∈ r :: rs, Gone x s) (fun _ _ => True)
        ((Prog.ret (Except.error v) : Act (Except Verdict (List Cleared))).interpret g.perform) s := by
      refine fun v s => Handles.ret ?_
      rintro ⟨_, hok⟩
      cases hok
    rw [destroy, interpret_bind]
    refine Handles.bind (((h.listed r).and (Stable.all h.listed rs)).handles (h.handles_probe hr) ⟨hr, hrest⟩) ?_
    rintro answer s ⟨hanswer, hr, hrest⟩
    cases answer with
    | approved => exact hhalt _ s
    | cancelled => exact hhalt _ s
    | unverifiable => exact hhalt _ s
    | bindingMismatch => exact hhalt _ s
    | missing => exact hclear ⟨r, .messageMissing⟩ s (hanswer rfl) hrest
    | boundPending =>
      have hdelete : Handles M I R p (fun answer s => answer = .ok () → Gone r s) (fun _ _ => True)
          ((ApprovalGate.delete r).interpret g.perform) s := handles_act g (.delete r) (h.delete r s hr)
      dsimp only
      rw [interpret_bind]
      refine Handles.bind ((Stable.all h.listed rs).handles hdelete hrest) ?_
      rintro result s ⟨hresult, hrest⟩
      cases result with
      | error fault => exact hhalt _ s
      | ok u => exact hclear ⟨r, reason⟩ s (hresult rfl) hrest

theorem Careful.handles_settle (h : Careful M I R p g key Listed Gone Covers) (intent : ApprovalIntent)
    {shot : List (ApprovalRequest × Probe)} (hcovers : Covers (shot.map Prod.fst) s)
    (hlisted : ∀ r ∈ shot.map Prod.fst, Listed r s) (hgone : ∀ e ∈ shot, e.2 = .missing → Gone e.1 s) :
    Handles M I R p (fun _ _ => True) (fun _ _ => True) ((settle intent shot).interpret g.perform) s := by
  obtain ⟨v, hret, -⟩ | ⟨hclean, hsettle⟩ := settle_cases intent shot
  · rw [hret]
    exact Handles.ret trivial
  rw [hsettle, interpret_bind]
  have hmissing : ∀ r ∈ answering (fun p => p = .missing) shot, Gone r s := by
    intro r hr
    obtain ⟨e, he, rfl⟩ := List.mem_map.mp hr
    obtain ⟨hmem, hprobe⟩ := List.mem_filter.mp he
    exact hgone e hmem (of_decide_eq_true hprobe)
  refine Handles.bind (((h.covers _).and (Stable.all h.listed _)).handles
    (h.handles_dropGone _ [] s hmissing) ⟨hcovers, hlisted⟩) ?_
  rintro cleared s ⟨hmissing, hcovers, hlisted⟩
  have hpending : ∀ r ∈ answering (fun p => p = .boundPending) shot, Listed r s := by
    intro r hr
    obtain ⟨e, he, rfl⟩ := List.mem_map.mp hr
    exact hlisted _ (List.mem_map_of_mem (List.mem_filter.mp he).1)
  unfold supersede
  split
  · rename_i canonical duplicates hsame
    have hduplicates : ∀ r ∈ duplicates, Listed r s := by
      intro r hr
      have hmem : r ∈ sameContent intent (answering (fun p => p = .boundPending) shot) := by
        rw [hsame]
        exact List.mem_cons_of_mem _ hr
      exact hpending r (List.mem_filter.mp ((List.perm_insertionSort _ _).subset hmem)).1
    rw [interpret_bind]
    refine Handles.bind (h.handles_destroy _ _ cleared s hduplicates) ?_
    rintro ended s -
    cases ended with
    | error halted => exact Handles.ret trivial
    | ok cleared => exact Handles.ret trivial
  · rename_i hsame
    -- nothing pending has the intent's content, so the loop below is given all that is pending
    have hall : otherContent intent (answering (fun p => p = .boundPending) shot) =
        answering (fun p => p = .boundPending) shot := by
      refine List.filter_eq_self.mpr ?_
      intro r hr
      refine decide_eq_true fun heq => ?_
      have hmem : r ∈ sameContent intent (answering (fun p => p = .boundPending) shot) :=
        (List.perm_insertionSort _ _).symm.subset (List.mem_filter.mpr ⟨hr, decide_eq_true heq⟩)
      rw [hsame] at hmem
      cases hmem
    rw [interpret_bind, hall]
    refine Handles.bind (((h.covers _).and (Stable.all h.gone _)).handles
      (h.handles_destroy .contentChanged _ cleared s hpending) ⟨hcovers, hmissing⟩) ?_
    rintro ended s ⟨hended, hcovers, hmissing⟩
    cases ended with
    | error halted => exact Handles.ret trivial
    | ok cleared =>
      refine h.post intent cleared _ s hcovers ?_
      intro r hr
      obtain ⟨e, he, rfl⟩ := List.mem_map.mp hr
      rcases hclean e he with hbound | hmiss
      · exact hended ⟨cleared, rfl⟩ _ (List.mem_map_of_mem (List.mem_filter.mpr ⟨he, decide_eq_true hbound⟩))
      · exact hmissing _ (List.mem_map_of_mem (List.mem_filter.mpr ⟨he, decide_eq_true hmiss⟩))

/-- **The rule.** A careful producer keeps the invariant through a whole request. -/
theorem Careful.handles_request (intent : ApprovalIntent) (h : Careful M I R p g intent.key Listed Gone Covers) :
    Handles M I R p (fun _ _ => True) (fun _ _ => True) (g.request intent) s := by
  have howned : ∀ s, Handles M I R p (fun _ _ => True) (fun _ _ => True) (g.requestOwned intent) s := by
    intro s
    have hjournal : Handles M I R p (fun _ _ => True) (fun _ _ => True)
        ((PostingJournal.outstanding intent.key).interpret g.perform) s :=
      handles_act g (.journalOutstanding intent.key) (h.journal s)
    rw [requestOwned, Approval.requestOwned, interpret_bind]
    refine Handles.bind hjournal ?_
    rintro reserved s -
    cases reserved with
    | some reservation => exact Handles.ret trivial
    | none =>
      have hfound : Handles M I R p
          (fun found s => ∀ rs, found = .ok rs → Covers rs s ∧ ∀ r ∈ rs, Listed r s) (fun _ _ => True)
          ((ApprovalGate.outstanding intent.key).interpret g.perform) s :=
        handles_act g (.outstanding intent.key) (h.outstanding s)
      dsimp only
      rw [interpret_bind]
      refine Handles.bind hfound ?_
      intro found s hfound
      cases found with
      | error fault => exact Handles.ret trivial
      | ok rs =>
        obtain ⟨hcovers, hlisted⟩ := hfound rs rfl
        dsimp only
        rw [interpret_bind]
        refine Handles.bind (((h.covers rs).and (Stable.all h.listed rs)).handles
          (h.handles_snapshot rs s hlisted) ⟨hcovers, hlisted⟩) ?_
        rintro shot s ⟨⟨rfl, hshot⟩, hcovers, hlisted⟩
        exact h.handles_settle intent hcovers hlisted hshot
  exact Handles.holding (K := fun _ => True) (Q := fun _ _ => True) (E := fun _ _ => True)
    (h.hold s) (fun s _ => howned s) (fun _ s _ => h.release s)

end Rule

end Producer

end Autophagy.Approval
