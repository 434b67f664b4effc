/-
# Autophagy.OwnerDm.Kept — no owner message is lost in the queue, and where one would be.

The queue of a session is compared with a waiting line of groups (`Autophagy.Data.Line`): an event that `route`
merges joins the last group, one that it appends makes a group, `prepend` puts one in front, and the gateway takes
the first. `owner_messages_kept` says that in every history the entries are the groups, each with the text, the
receipts and the media of its events, where two things never happen:

* an event with media is merged into a tail that has no list of media: the media are dropped;
* an event is put in front of a slot that holds `None`: the `None` is dropped.

`media_dropped` shows both.
-/
import Autophagy.Data.Line
import Autophagy.OwnerDm.Dispatch

namespace Autophagy.OwnerDm

open Autophagy.Python Autophagy.Data

variable {O : Type}

/-! ## §1 — The property -/

/-- The text of an entry. -/
def textOf (o : Obj O) : Str := (o.bind Event.text).getD []

/-- The receipts of an entry under one of the two keys. -/
def receiptsOf (key : Str) (o : Obj O) : List O :=
  match o.bind Event.metadata with
  | some metadata => receiptsAt metadata key
  | none => []

/-- The media of an entry. -/
def mediaOf (o : Obj O) : List O := (o.bind Event.mediaUrls).getD []

/-- An entry carries a group of events: a single event is its own entry, and a merged one has the text, all
receipts and all media of its events. -/
structure Carries (group : List (Obj O)) (entry : Obj O) : Prop where
  nonempty : group ≠ []
  alone : ∀ event, group = [event] → entry = event
  text : ∀ event ∈ group, textOf event <:+: textOf entry
  receipts : ∀ key ∈ [receiptMessageIdsKey, receiptMembersKey],
    receiptsOf key entry = group.flatMap (receiptsOf key)
  media : mediaOf entry = group.flatMap mediaOf

/-- What a step asks of the line of a session. Only a rejected event asks for nothing. -/
def Step.request (session : Str) (q : Queues O) : Step O → Option (Request (Obj O))
  | .route s event relatedness cap =>
    if s = session then
      match (q.route s event relatedness cap).1 with
      | .mergedTail => some (.join event)
      | .appended => some (.append event)
      | .rejectedOverCap => none
    else none
  | .prepend s event => if s = session then some (.putFront event) else none
  | .pop s => if s = session then some .take else none

/-- What the gateway is handed in a step. -/
def Step.handed (session : Str) (q : Queues O) : Step O → List (Obj O)
  | .route _ _ _ _ => []
  | .prepend _ _ => []
  | .pop s => if s = session then (q.pop s).1.toList else []

/-- What a history asks of the line of a session. -/
def requests (session : Str) (q : Queues O) : List (Step O) → List (Request (Obj O))
  | [] => []
  | step :: steps => (step.request session q).toList ++ requests session (step.next q) steps

/-- What the gateway was handed in a history. -/
def handed (session : Str) (q : Queues O) : List (Step O) → List (Obj O)
  | [] => []
  | step :: steps => step.handed session q ++ handed session (step.next q) steps

/-- The queue of a session is what it should be behind a history: its entries, and what the gateway was handed,
carry the groups of the line, in which every event that was not rejected stands once and in order. -/
structure Kept (session : Str) (steps : List (Step O)) : Prop where
  waiting : List.Forall₂ Carries (Line.empty.run (requests session .empty steps)).waiting
    ((run .empty steps).entries session)
  taken : List.Forall₂ Carries (Line.empty.run (requests session .empty steps)).taken
    (handed session .empty steps)
  once : (Line.empty.run (requests session .empty steps)).items.Perm
    ((requests session .empty steps).filterMap Request.item)
  ordered : ((requests session .empty steps).filterMap Request.arrival).Sublist
    (Line.empty.run (requests session .empty steps)).items
  capped : ∀ event relatedness cap,
    (run .empty steps).queueDepth session <
        ((run .empty steps).route session event relatedness cap).2.queueDepth session →
      ((run .empty steps).route session event relatedness cap).2.queueDepth session ≤ cap

/-- A step that loses nothing: media are merged only into a tail that has a list of them, and nothing is put in
front of a `None`. -/
def Step.Lossless (q : Queues O) : Step O → Prop
  | .route s event .mergeTail _ =>
    (mergeInto (q.tail s) event).isSome → mediaOf event = [] ∨ ((q.tail s).bind Event.mediaUrls).isSome
  | .route _ _ .separate _ => True
  | .prepend s _ => q.pendingSlot.get? s ≠ some none
  | .pop _ => True

/-- Every step of a history loses nothing in the state it meets. -/
def AllLossless (q : Queues O) : List (Step O) → Prop
  | [] => True
  | step :: steps => step.Lossless q ∧ AllLossless (step.next q) steps

/-! ## §2 — Merging -/

theorem mergeInto_eq_some {tail event : Obj O} {merged : Event O} (h : mergeInto tail event = some merged) :
    ∃ t e tailText tailMetadata eventText eventMetadata, tail = some t ∧ event = some e ∧
      t.text = some tailText ∧ t.metadata = some tailMetadata ∧ e.text = some eventText ∧
      e.metadata = some eventMetadata ∧
      merged = { t with
        text := some (if tailText = [] then eventText else tailText ++ 0x0a :: eventText)
        metadata := some ((tailMetadata.set receiptMessageIdsKey
          (.list (mergedReceipts tailMetadata eventMetadata receiptMessageIdsKey))).set receiptMembersKey
          (.list (mergedReceipts tailMetadata eventMetadata receiptMembersKey)))
        mediaUrls := t.mediaUrls.map (· ++ e.mediaUrls.getD []) } := by
  simp only [mergeInto, Option.bind_eq_bind, Option.bind_eq_some_iff] at h
  obtain ⟨t, rfl, e, rfl, tailText, htext, tailMetadata, hmetadata, eventText, htext', eventMetadata,
    hmetadata', h⟩ := h
  exact ⟨t, e, tailText, tailMetadata, eventText, eventMetadata, rfl, rfl, htext, hmetadata, htext', hmetadata',
    (Option.some.inj h).symm⟩

/-- The receipts of a merged entry are those of the tail and then those of the event. -/
theorem receiptsOf_merged {tail event : Obj O} {merged : Event O} (h : mergeInto tail event = some merged)
    {key : Str} (hkey : key ∈ [receiptMessageIdsKey, receiptMembersKey]) :
    receiptsOf key (some merged) = receiptsOf key tail ++ receiptsOf key event := by
  obtain ⟨t, e, tailText, tailMetadata, eventText, eventMetadata, rfl, rfl, -, hmetadata, -, hmetadata', rfl⟩ :=
    mergeInto_eq_some h
  have hne : receiptMessageIdsKey ≠ receiptMembersKey := by decide
  show receiptsAt _ key = _
  simp only [receiptsOf, Option.bind_some, hmetadata, hmetadata']
  simp only [List.mem_cons, List.not_mem_nil, or_false] at hkey
  rcases hkey with rfl | rfl
  · show receiptsAt (Dict.set _ _ _) _ = mergedReceipts _ _ _
    rw [receiptsAt, Dict.get?_set_of_ne hne, Dict.get?_set_self]
  · show receiptsAt (Dict.set _ _ _) _ = mergedReceipts _ _ _
    rw [receiptsAt, Dict.get?_set_self]

theorem textOf_merged {tail event : Obj O} {merged : Event O} (h : mergeInto tail event = some merged) :
    textOf tail <:+: textOf (some merged) ∧ textOf event <:+: textOf (some merged) := by
  obtain ⟨t, e, tailText, tailMetadata, eventText, eventMetadata, rfl, rfl, htext, -, htext', -, rfl⟩ :=
    mergeInto_eq_some h
  simp only [textOf, Option.bind_some, htext, htext', Option.getD_some]
  split
  · rename_i hempty
    rw [hempty]
    exact ⟨List.nil_infix, List.infix_rfl⟩
  · exact ⟨(List.prefix_append _ _).isInfix, ((List.suffix_cons _ _).trans (List.suffix_append _ _)).isInfix⟩

theorem mediaOf_merged {tail event : Obj O} {merged : Event O} (h : mergeInto tail event = some merged)
    (hmedia : mediaOf event = [] ∨ (tail.bind Event.mediaUrls).isSome) :
    mediaOf (some merged) = mediaOf tail ++ mediaOf event := by
  obtain ⟨t, e, tailText, tailMetadata, eventText, eventMetadata, rfl, rfl, -, -, -, -, rfl⟩ := mergeInto_eq_some h
  show (Option.map _ t.mediaUrls).getD [] = (t.mediaUrls).getD [] ++ (e.mediaUrls).getD []
  rcases hmedia with hempty | hlist
  · have hnone : e.mediaUrls.getD [] = [] := hempty
    rw [hnone]
    cases t.mediaUrls <;> simp
  · obtain ⟨urls, hurls⟩ := Option.isSome_iff_exists.mp hlist
    have hurls' : t.mediaUrls = some urls := hurls
    rw [hurls']
    rfl

theorem Carries.single (event : Obj O) : Carries [event] event where
  nonempty := List.cons_ne_nil _ _
  alone e he := (List.cons.inj he).1
  text e he := by
    obtain rfl := List.mem_singleton.mp he
    exact List.infix_rfl
  receipts key _ := by simp
  media := by simp

/-- An entry that carries a group carries the event merged into it as well. -/
theorem Carries.merge {group : List (Obj O)} {tail event : Obj O} {merged : Event O} (hc : Carries group tail)
    (h : mergeInto tail event = some merged)
    (hmedia : mediaOf event = [] ∨ (tail.bind Event.mediaUrls).isSome) :
    Carries (group ++ [event]) (some merged) where
  nonempty := List.append_ne_nil_of_right_ne_nil _ (List.cons_ne_nil _ _)
  alone e he := by
    obtain ⟨hnil, -⟩ := List.append_inj' (he.trans (List.nil_append [e]).symm) rfl
    exact absurd hnil hc.nonempty
  text e he := by
    rcases List.mem_append.mp he with he | he
    · exact (hc.text e he).trans (textOf_merged h).1
    · rw [List.mem_singleton.mp he]
      exact (textOf_merged h).2
  receipts key hkey := by
    rw [receiptsOf_merged h hkey, hc.receipts key hkey]
    simp
  media := by
    rw [mediaOf_merged h hmedia, hc.media]
    simp

/-! ## §3 — What the operations do to the entries -/

namespace Queues

variable {q : Queues O} {session : Str}

/-- Overflow waits only behind a head. -/
def Packed (q : Queues O) (session : Str) : Prop := q.slotTaken session = false → q.queued session = []

theorem slotTaken_eq_false : q.slotTaken session = false ↔ q.pendingSlot.get? session = none := by
  rw [slotTaken, Option.isSome_eq_false_iff, Option.isNone_iff_eq_none]

theorem entries_of_merge {event : Obj O} {merged : Event O} (h : mergeInto (q.tail session) event = some merged) :
    ∃ front, q.entries session = front ++ [q.tail session] := by
  obtain ⟨t, -, -, -, -, -, htail, -⟩ := mergeInto_eq_some h
  rcases List.eq_nil_or_concat (q.queued session) with hnil | ⟨front, last, hqueued⟩
  · have hslot : (q.pendingSlot.get? session).join = some t := by
      rw [← htail, tail, hnil]
      rfl
    refine ⟨[], ?_⟩
    rw [entries, hnil, htail, Option.join_eq_some_iff.mp hslot]
    rfl
  · rw [List.concat_eq_append] at hqueued
    have hlast : q.tail session = last := by
      rw [tail, hqueued, List.getLast?_concat]
    refine ⟨(q.pendingSlot.get? session).toList ++ front, ?_⟩
    rw [entries, hqueued, hlast, List.append_assoc]

theorem entries_setTail {front : List (Obj O)} {last : Obj O} (h : q.entries session = front ++ [last])
    (hpacked : q.Packed session) (merged : Event O) :
    (q.setTail session merged).entries session = front ++ [some merged] ∧
      (q.setTail session merged).Packed session := by
  unfold setTail
  split
  · rename_i hempty
    have hnil : q.queued session = [] := List.isEmpty_iff.mp hempty
    constructor
    · rw [entries, hnil, List.append_nil] at h
      show (Option.toList (Dict.get? (Dict.set _ _ _) _)) ++ q.queued session = _
      rw [Dict.get?_set_self, hnil, List.append_nil]
      cases hslot : q.pendingSlot.get? session with
      | none =>
        rw [hslot] at h
        exact absurd h (by simp)
      | some o =>
        rw [hslot] at h
        obtain ⟨hfront, -⟩ := List.append_inj' (h.symm.trans (List.nil_append [o]).symm) rfl
        rw [hfront]
        rfl
    · exact fun _ => hnil
  · rename_i hne
    obtain ⟨before, lastQueued, hqueued⟩ := (List.eq_nil_or_concat (q.queued session)).resolve_left
      fun hnil => hne (List.isEmpty_iff.mpr hnil)
    rw [List.concat_eq_append] at hqueued
    have hset : ({ q with overflow := q.overflow.set session ((q.queued session).dropLast ++ [some merged]) } :
        Queues O).queued session = before ++ [some merged] := by
      show (Dict.get? (Dict.set _ _ _) _).getD [] = _
      rw [Dict.get?_set_self, hqueued, List.dropLast_concat]
      rfl
    constructor
    · rw [entries, hset]
      show (q.pendingSlot.get? session).toList ++ _ = _
      rw [entries, hqueued, ← List.append_assoc] at h
      obtain ⟨hfront, -⟩ := List.append_inj' h rfl
      rw [← hfront, List.append_assoc]
    · intro hslot
      have hnil := hpacked hslot
      rw [hqueued] at hnil
      exact absurd hnil (by simp)

/-- An appended event stands last. -/
theorem entries_append (hpacked : q.Packed session) (event : Obj O) :
    (q.append session event).entries session = q.entries session ++ [event] ∧
      (q.append session event).Packed session := by
  unfold append
  split
  · rename_i hslot
    constructor
    · show (q.pendingSlot.get? session).toList ++ (Dict.get? (Dict.set _ _ _) _).getD [] = _
      rw [Dict.get?_set_self, entries, List.append_assoc]
      rfl
    · intro hfree
      exact absurd (hfree.symm.trans hslot) (by simp)
  · rename_i hslot
    have hfree : q.slotTaken session = false := by simpa using hslot
    constructor
    · show (Dict.get? (Dict.set _ _ _) _).toList ++ q.queued session = _
      rw [Dict.get?_set_self, entries, hpacked hfree, slotTaken_eq_false.mp hfree]
      rfl
    · intro _
      exact hpacked hfree

theorem entries_prepend (hpacked : q.Packed session) (hslot : q.pendingSlot.get? session ≠ some none) (event : Obj O) :
    (q.prepend session event).entries session = event :: q.entries session ∧
      (q.prepend session event).Packed session := by
  have htaken : (q.prepend session event).pendingSlot.get? session = some event := Dict.get?_set_self _ _ _
  constructor
  · rw [entries, htaken]
    show event :: (q.prepend session event).queued session = _
    congr 1
    cases hold : q.pendingSlot.get? session with
    | none =>
      have hnil : q.queued session = [] := hpacked (slotTaken_eq_false.mpr hold)
      rw [entries, hold, hnil, queued, prepend, hold]
      exact hnil
    | some o =>
      cases o with
      | none => exact absurd hold hslot
      | some oldHead =>
        rw [entries, hold, queued, prepend, hold]
        show (Dict.get? (Dict.set _ _ _) _).getD [] = _
        rw [Dict.get?_set_self]
        rfl
  · intro hfalse
    rw [slotTaken_eq_false.mp hfalse] at htaken
    cases htaken

theorem entries_pop (hpacked : q.Packed session) : (q.pop session).2.entries session = (q.entries session).drop 1 ∧
      (q.pop session).1.toList = (q.entries session).take 1 ∧ (q.pop session).2.Packed session := by
  cases hslot : q.pendingSlot.get? session with
  | none =>
    have hnil : q.queued session = [] := hpacked (slotTaken_eq_false.mpr hslot)
    have hnext : (q.pop session).2 = { q with pendingSlot := q.pendingSlot.pop session } := by
      rw [pop, hnil]
    have hgone : (q.pendingSlot.pop session).get? session = none := by rw [Dict.get?_pop, if_pos rfl]
    refine ⟨?_, ?_, fun _ => by rw [hnext]; exact hnil⟩
    · rw [hnext, entries, entries, hslot]
      show (Dict.get? (Dict.pop _ _) _).toList ++ q.queued session = _
      rw [hgone, hnil]
      rfl
    · show (q.pendingSlot.get? session).toList = _
      rw [entries, hslot, hnil]
      rfl
  | some head =>
    have hhead : (q.pop session).1.toList = (q.entries session).take 1 := by
      show (q.pendingSlot.get? session).toList = _
      rw [entries, hslot]
      rfl
    have hdrop : (q.entries session).drop 1 = q.queued session := by
      rw [entries, hslot]
      rfl
    rw [hdrop]
    refine ⟨?_, hhead, ?_⟩
    · rw [entries, pop]
      split
      · rename_i hnil
        show (Dict.get? (Dict.pop _ _) _).toList ++ q.queued session = _
        rw [Dict.get?_pop, if_pos rfl, hnil]
        rfl
      · rename_i next hone
        show (Dict.get? (Dict.set _ _ _) _).toList ++ (Dict.get? (Dict.pop _ _) _).getD [] = _
        rw [Dict.get?_set_self, Dict.get?_pop, if_pos rfl, hone]
        rfl
      · rename_i next rest _ hmany
        show (Dict.get? (Dict.set _ _ _) _).toList ++ (Dict.get? (Dict.set _ _ _) _).getD [] = _
        rw [Dict.get?_set_self, Dict.get?_set_self, hmany]
        rfl
    · intro hfalse
      rw [slotTaken_eq_false, pop] at hfalse
      rw [pop]
      split at hfalse
      · rename_i hnil
        exact hnil
      · rw [Dict.get?_set_self] at hfalse
        cases hfalse
      · rw [Dict.get?_set_self] at hfalse
        cases hfalse

theorem route_of_merge {event : Obj O} {relatedness : Relatedness} {cap : Nat} {merged : Event O}
    (h : (if relatedness = .mergeTail then mergeInto (q.tail session) event else none) = some merged) :
    q.route session event relatedness cap = (.mergedTail, q.setTail session merged) := by
  rw [route, h]

theorem route_of_not_merge {event : Obj O} {relatedness : Relatedness} {cap : Nat}
    (h : (if relatedness = .mergeTail then mergeInto (q.tail session) event else none) = none) :
    q.route session event relatedness cap =
      if cap ≤ q.queueDepth session then (.rejectedOverCap, q) else (.appended, q.append session event) := by
  rw [route, h]

theorem queueDepth_append (q : Queues O) (session : Str) (event : Obj O) :
    (q.append session event).queueDepth session = q.queueDepth session + 1 := by
  unfold append
  split
  · rename_i hslot
    show (if q.slotTaken session = true then 1 else 0) + ((Dict.get? (Dict.set _ _ _) _).getD []).length = _
    rw [Dict.get?_set_self, Option.getD_some, List.length_append, queueDepth]
    rfl
  · rename_i hslot
    show (if (Dict.get? (Dict.set _ _ _) _).isSome = true then 1 else 0) + (q.queued session).length = _
    rw [Dict.get?_set_self, queueDepth, if_neg hslot, Nat.zero_add]
    exact Nat.add_comm _ _

theorem queueDepth_setTail {event : Obj O} {merged : Event O}
    (h : mergeInto (q.tail session) event = some merged) :
    (q.setTail session merged).queueDepth session = q.queueDepth session := by
  obtain ⟨t, -, -, -, -, -, htail, -⟩ := mergeInto_eq_some h
  unfold setTail
  split
  · rename_i hempty
    have hslot : q.slotTaken session = true := by
      rw [tail, List.isEmpty_iff.mp hempty] at htail
      rw [slotTaken, Option.join_eq_some_iff.mp htail]
      rfl
    show (if (Dict.get? (Dict.set _ _ _) _).isSome = true then 1 else 0) + (q.queued session).length = _
    rw [Dict.get?_set_self, queueDepth, hslot]
    rfl
  · rename_i hne
    have hpos : 0 < (q.queued session).length :=
      List.length_pos_of_ne_nil fun hnil => hne (List.isEmpty_iff.mpr hnil)
    show (if q.slotTaken session = true then 1 else 0) + ((Dict.get? (Dict.set _ _ _) _).getD []).length = _
    rw [Dict.get?_set_self, Option.getD_some, List.length_append, List.length_dropLast, queueDepth]
    simp only [List.length_singleton]
    omega

/-- `route` makes the queue longer only up to the cap. -/
theorem queueDepth_route (q : Queues O) (session : Str) (event : Obj O) (relatedness : Relatedness)
    (cap : Nat) (h : q.queueDepth session < (q.route session event relatedness cap).2.queueDepth session) :
    (q.route session event relatedness cap).2.queueDepth session ≤ cap := by
  cases hmerge : (if relatedness = .mergeTail then mergeInto (q.tail session) event else none) with
  | some merged =>
    rw [route_of_merge hmerge] at h
    have hinto : mergeInto (q.tail session) event = some merged := by
      split at hmerge
      · exact hmerge
      · cases hmerge
    exact absurd h (by rw [queueDepth_setTail hinto]; exact lt_irrefl _)
  | none =>
    rw [route_of_not_merge hmerge] at h ⊢
    split at h
    · exact absurd h (lt_irrefl _)
    · rename_i hcap
      rw [if_neg hcap]
      show (q.append session event).queueDepth session ≤ cap
      rw [queueDepth_append]
      omega

end Queues

/-! ## §4 — One step -/

variable {session : Str} {q : Queues O}

/-- What a session sees of the two dictionaries is the same. -/
def Queues.SameAt (session : Str) (q q' : Queues O) : Prop :=
  q'.pendingSlot.get? session = q.pendingSlot.get? session ∧ q'.overflow.get? session = q.overflow.get? session

namespace Queues

variable {s : Str} (h : session ≠ s)
include h

theorem setTail_frame (q : Queues O) (merged : Event O) : SameAt session q (q.setTail s merged) := by
  unfold setTail
  split
  · exact ⟨Dict.get?_set_of_ne h _ _, rfl⟩
  · exact ⟨rfl, Dict.get?_set_of_ne h _ _⟩

theorem append_frame (q : Queues O) (event : Obj O) : SameAt session q (q.append s event) := by
  unfold append
  split
  · exact ⟨rfl, Dict.get?_set_of_ne h _ _⟩
  · exact ⟨Dict.get?_set_of_ne h _ _, rfl⟩

theorem route_frame (q : Queues O) (event : Obj O) (relatedness : Relatedness) (cap : Nat) :
    SameAt session q (q.route s event relatedness cap).2 := by
  unfold route
  split
  · exact setTail_frame h q _
  · split
    · exact ⟨rfl, rfl⟩
    · exact append_frame h q event

theorem prepend_frame (q : Queues O) (event : Obj O) : SameAt session q (q.prepend s event) := by
  unfold prepend
  split
  · exact ⟨Dict.get?_set_of_ne h _ _, Dict.get?_set_of_ne h _ _⟩
  · exact ⟨Dict.get?_set_of_ne h _ _, rfl⟩

theorem pop_frame (q : Queues O) : SameAt session q (q.pop s).2 := by
  have hpop : ∀ {β : Type} (d : Dict Str β), (d.pop s).get? session = d.get? session := by
    intro β d
    rw [Dict.get?_pop, if_neg h]
  unfold pop
  split
  · exact ⟨hpop _, rfl⟩
  · exact ⟨Dict.get?_set_of_ne h _ _, hpop _⟩
  · exact ⟨Dict.get?_set_of_ne h _ _, Dict.get?_set_of_ne h _ _⟩

end Queues

theorem Step.frame (step : Step O) (q : Queues O) {session : Str} (h : session ≠ step.session) :
    Queues.SameAt session q (step.next q) := by
  cases step with
  | route s event relatedness cap => exact Queues.route_frame h q event relatedness cap
  | prepend s event => exact Queues.prepend_frame h q event
  | pop s => exact Queues.pop_frame h q

theorem Step.request_of_ne (step : Step O) (q : Queues O) {session : Str} (h : session ≠ step.session) :
    step.request session q = none := by
  cases step <;> exact if_neg (Ne.symm h)

theorem Step.handed_of_ne (step : Step O) (q : Queues O) {session : Str} (h : session ≠ step.session) :
    step.handed session q = [] := by
  cases step with
  | route s event relatedness cap => rfl
  | prepend s event => rfl
  | pop s => exact if_neg (Ne.symm h)

/-- The entries of a session and what it was handed carry the groups of its line. -/
structure Follows (session : Str) (q : Queues O) (line : Line (Obj O)) (given : List (Obj O)) : Prop where
  packed : q.Packed session
  waiting : List.Forall₂ Carries line.waiting (q.entries session)
  taken : List.Forall₂ Carries line.taken given

theorem forall₂_concat_right {α β : Type} {R : α → β → Prop} {as : List α} {bs : List β} {b : β}
    (h : List.Forall₂ R as (bs ++ [b])) : ∃ front a, as = front ++ [a] ∧ List.Forall₂ R front bs ∧ R a b := by
  have hlength : as.length = bs.length + 1 := by simpa using h.length_eq
  obtain ⟨front, a, rfl⟩ := (List.eq_nil_or_concat as).resolve_left (by rintro rfl; simp at hlength)
  rw [List.concat_eq_append] at h hlength ⊢
  have hfront : front.length = bs.length := by simpa using hlength
  have htake := List.forall₂_take front.length h
  have hdrop := List.forall₂_drop front.length h
  rw [List.take_left, hfront, List.take_left] at htake
  rw [List.drop_left, hfront, List.drop_left] at hdrop
  exact ⟨front, a, rfl, htake, (List.forall₂_cons.mp hdrop).1⟩

variable {line : Line (Obj O)} {given : List (Obj O)}

theorem Follows.merge {event : Obj O} {merged : Event O} (hf : Follows session q line given)
    (h : mergeInto (q.tail session) event = some merged)
    (hmedia : mediaOf event = [] ∨ ((q.tail session).bind Event.mediaUrls).isSome) :
    Follows session (q.setTail session merged) (line.step (.join event)) given := by
  obtain ⟨front, hentries⟩ := Queues.entries_of_merge h
  obtain ⟨hset, hpacked⟩ := Queues.entries_setTail hentries hf.packed merged
  have hwaiting := hf.waiting
  rw [hentries] at hwaiting
  obtain ⟨groups, group, hline, hgroups, hgroup⟩ := forall₂_concat_right hwaiting
  refine ⟨hpacked, ?_, hf.taken⟩
  show List.Forall₂ Carries (Line.joinLast event line.waiting) _
  rw [hset, hline, Line.joinLast_snoc]
  exact List.rel_append hgroups (List.Forall₂.cons (hgroup.merge h hmedia) List.Forall₂.nil)

theorem Follows.append (hf : Follows session q line given) (event : Obj O) :
    Follows session (q.append session event) (line.step (.append event)) given := by
  obtain ⟨hentries, hpacked⟩ := Queues.entries_append hf.packed event
  refine ⟨hpacked, ?_, hf.taken⟩
  show List.Forall₂ Carries (line.waiting ++ [[event]]) _
  rw [hentries]
  exact List.rel_append hf.waiting (List.Forall₂.cons (Carries.single event) List.Forall₂.nil)

theorem Follows.prepend (hf : Follows session q line given) (hslot : q.pendingSlot.get? session ≠ some none)
    (event : Obj O) :
    Follows session (q.prepend session event) (line.step (.putFront event)) given := by
  obtain ⟨hentries, hpacked⟩ := Queues.entries_prepend hf.packed hslot event
  refine ⟨hpacked, ?_, hf.taken⟩
  show List.Forall₂ Carries ([event] :: line.waiting) _
  rw [hentries]
  exact List.Forall₂.cons (Carries.single event) hf.waiting

theorem Follows.pop (hf : Follows session q line given) :
    Follows session (q.pop session).2 (line.step .take) (given ++ (q.pop session).1.toList) := by
  obtain ⟨hentries, htaken, hpacked⟩ := Queues.entries_pop hf.packed
  refine ⟨hpacked, ?_, ?_⟩
  · rw [hentries]
    exact List.forall₂_drop 1 hf.waiting
  · rw [htaken]
    exact List.rel_append hf.taken (List.forall₂_take 1 hf.waiting)

theorem Follows.route {event : Obj O} {relatedness : Relatedness} {cap : Nat}
    (hf : Follows session q line given) (h : (Step.route session event relatedness cap).Lossless q) :
    Follows session (q.route session event relatedness cap).2
      (line.run ((Step.route session event relatedness cap).request session q).toList) given := by
  rw [Step.request, if_pos rfl]
  cases hmerge : (if relatedness = .mergeTail then mergeInto (q.tail session) event else none) with
  | some merged =>
    rw [Queues.route_of_merge hmerge]
    cases relatedness with
    | separate => cases hmerge
    | mergeTail =>
      have hinto : mergeInto (q.tail session) event = some merged := hmerge
      exact hf.merge hinto (h (by rw [hinto]; rfl))
  | none =>
    rw [Queues.route_of_not_merge hmerge]
    by_cases hcap : cap ≤ q.queueDepth session
    · rw [if_pos hcap]
      exact hf
    · rw [if_neg hcap]
      exact hf.append event

/-- **One step.** A step that loses nothing keeps the entries and the line together. -/
theorem Follows.step (hf : Follows session q line given) {step : Step O} (h : step.Lossless q) :
    Follows session (step.next q) (line.run (step.request session q).toList) (given ++ step.handed session q) := by
  by_cases hsession : session = step.session
  · cases step with
    | route s event relatedness cap =>
      obtain rfl : session = s := hsession
      rw [Step.handed, List.append_nil]
      exact hf.route h
    | prepend s event =>
      obtain rfl : session = s := hsession
      rw [Step.handed, List.append_nil, Step.request, if_pos rfl]
      exact hf.prepend h event
    | pop s =>
      obtain rfl : session = s := hsession
      rw [Step.handed, if_pos rfl, Step.request, if_pos rfl]
      exact hf.pop
  · obtain ⟨hslot, hqueued⟩ := step.frame q hsession
    have hqueued' : (step.next q).queued session = q.queued session := congrArg (·.getD []) hqueued
    rw [step.request_of_ne q hsession, step.handed_of_ne q hsession, List.append_nil]
    refine ⟨?_, ?_, hf.taken⟩
    · intro hfree
      rw [Queues.slotTaken_eq_false, hslot] at hfree
      rw [hqueued']
      exact hf.packed (Queues.slotTaken_eq_false.mpr hfree)
    · rw [Queues.entries, hslot, hqueued']
      exact hf.waiting

/-! ## §5 — Whole histories -/

/-- **Whole histories.** -/
theorem Follows.run (steps : List (Step O)) :
    ∀ {q : Queues O} {line : Line (Obj O)} {given : List (Obj O)}, Follows session q line given → AllLossless q steps →
      Follows session (run q steps) (line.run (requests session q steps)) (given ++ handed session q steps) := by
  induction steps with
  | nil =>
    intro q line given hf _
    rw [handed, List.append_nil]
    exact hf
  | cons step steps ih =>
    intro q line given hf h
    have hnext := ih (hf.step h.1) h.2
    rw [List.append_assoc] at hnext
    rw [requests, Line.run_append, handed]
    exact hnext

theorem Follows.empty : Follows session (.empty : Queues O) .empty [] :=
  ⟨fun _ => rfl, List.Forall₂.nil, List.Forall₂.nil⟩

/-- **No owner message is lost.** In every history in which media are merged only into a tail that has a list of
them, and nothing is put in front of a `None`, the queue of every session is what it should be. -/
theorem owner_messages_kept (steps : List (Step O)) (h : AllLossless .empty steps) (session : Str) :
    Kept session steps := by
  have hempty : Follows session (.empty : Queues O) .empty [] := Follows.empty
  have hf := hempty.run steps h
  exact {
    waiting := hf.waiting
    taken := by simpa using hf.taken
    once := Line.conserved _
    ordered := Line.arranged _
    capped := (Autophagy.OwnerDm.run .empty steps).queueDepth_route session }

/-- A message with text, receipts and media. -/
private def message (text : Str) (id : Nat) (media : Option (List Nat)) : Obj Nat :=
  some {
    text := some text
    metadata := some (Dict.empty.set receiptMessageIdsKey (.list [id]))
    mediaUrls := media
    rest := id }

/-- Two messages merged, a third, one put in front, and the gateway taking two. -/
private def mergedHistory (session : Str) : List (Step Nat) :=
  [.route session (message (Str.of "a") 1 (some [])) .separate 2,
    .route session (message (Str.of "b") 2 (some [20])) .mergeTail 2,
    .route session (message (Str.of "c") 3 (some [30])) .separate 2,
    .prepend session (message (Str.of "d") 4 none), .pop session, .pop session]

theorem owner_messages_kept_merged : Kept (Str.of "dm") (mergedHistory (Str.of "dm")) := by
  refine owner_messages_kept _ ?_ _
  show AllLossless .empty (mergedHistory (Str.of "dm"))
  refine ⟨trivial, fun _ => .inr rfl, trivial, ?_, trivial, trivial, trivial⟩
  exact fun hnone => absurd hnone (by decide)

/-- A message whose tail has no list of media loses its own. -/
theorem media_dropped :
    ¬ ∀ (steps : List (Step Nat)) (session : Str), Kept session steps := by
  intro h
  have hkept := (h [.route [] (message (Str.of "a") 1 none) .separate 2,
    .route [] (message (Str.of "b") 2 (some [20])) .mergeTail 2] []).waiting
  obtain ⟨hcarries, -⟩ := List.forall₂_cons.mp hkept
  exact absurd hcarries.media (by decide)

end Autophagy.OwnerDm
