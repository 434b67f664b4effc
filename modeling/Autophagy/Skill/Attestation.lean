/-
# Autophagy.Skill.Attestation — the peer's attestation: who writes it, and who believes it.

Before a skill is mounted, a second bot (the peer) reviews its own copy of the skill and answers the deploy
request in its channel. `attest` (`automation/peer_attest.py`) writes that answer and
`valid_peer_attestation` (`automation/peer_attestation.py`) looks for it; both share the body of the answer.

The thread under a request is the world of a run (`threadStep`). A listing may leave replies out (Discord
returns at most a hundred), and a reply that `post_reply` adds is the peer bot's own, at the current time.

`attest` does not write where it believes an answer is there. Outside `--refresh` that belief looks at the
body alone and is meant to: only the refresh that the owner's gate authorizes replaces an answer, however old.
`attest_agrees` says what the verifier then finds.

`datetime.fromisoformat` is a parameter, an arbitrary partial function from texts to instants; every result
holds whatever it reads.
-/
import Autophagy.Effect.Handler
import Autophagy.Python.Canonical
import Autophagy.Skill.Names

namespace Autophagy.Skill

open Autophagy.Effect Autophagy.Python Autophagy.Text

/-! ## §1 — The body of an attestation -/

/-- `REVIEWER` -/
def reviewer : Str := "peer-sandbox-v1"

/-- `PEER_ATTESTATION_TTL`, in microseconds. -/
def peerAttestationTtl : Int := 30 * 60 * 1000000

/-- `_BODY`. A request is named by its nonce, or by a number. -/
def attestationBody : Template Nat where
  lead := Str.of "[skill-attest] request="
  slots :=
    [(.either (hexGap 32) (.span isDigit 1 none), " skill="), (skillGap, " sha256="), (hexGap 64, " verdict="),
      (verdictGap, " reviewer=peer-sandbox-v1")]
  delimited := by decide

/-- `Attestation` -/
structure Attestation where
  request : Str
  skill : Str
  digest : Str
  verdict : Str
  deriving DecidableEq

/-- `format_attestation` -/
def formatAttestation (request skill digest verdict : Str) : Str :=
  Str.of "[skill-attest] request=" ++ request ++ Str.of " skill=" ++ skill ++ Str.of " sha256=" ++ digest ++
    Str.of " verdict=" ++ verdict ++ Str.of " reviewer=" ++ reviewer

/-- `parse_attestation` -/
def parseAttestation (content : Str) : Option Attestation :=
  match attestationBody.fullmatch content with
  | some [request, skill, digest, verdict] => some ⟨request, skill, digest, verdict⟩
  | _ => none

/-- The fields are words the body can hold. -/
def Attestation.WellFormed (a : Attestation) : Prop :=
  (Gap.either (hexGap 32) (.span isDigit 1 none)).admits a.request = true ∧ isSkillName a.skill = true ∧
    isDigest a.digest = true ∧ verdictGap.admits a.verdict = true

theorem formatAttestation_eq (request skill digest verdict : Str) :
    formatAttestation request skill digest verdict = attestationBody.render [request, skill, digest, verdict] := by
  simp [formatAttestation, attestationBody, Template.render, fill, reviewer, Str.of]

/-- **Parsing is formatting, backwards.** -/
theorem parseAttestation_eq_some {content : Str} {a : Attestation} : parseAttestation content = some a ↔
      a.WellFormed ∧ content = formatAttestation a.request a.skill a.digest a.verdict := by
  unfold parseAttestation
  constructor
  · intro h
    split at h
    · rename_i hmatch
      obtain rfl := Option.some.inj h
      obtain ⟨hfits, rfl⟩ := Template.fullmatch_eq_some.mp hmatch
      simp only [attestationBody, Fits, List.forall₂_cons, List.forall₂_nil_right_iff] at hfits
      obtain ⟨hrequest, hskill, hdigest, hverdict, -⟩ := hfits
      exact ⟨⟨hrequest, hskill, hdigest, hverdict⟩, (formatAttestation_eq _ _ _ _).symm⟩
    · cases h
  · rintro ⟨⟨hrequest, hskill, hdigest, hverdict⟩, rfl⟩
    have hmatch : attestationBody.fullmatch (formatAttestation a.request a.skill a.digest a.verdict) =
        some [a.request, a.skill, a.digest, a.verdict] := by
      rw [Template.fullmatch_eq_some]
      exact ⟨.cons hrequest (.cons hskill (.cons hdigest (.cons hverdict .nil))), formatAttestation_eq _ _ _ _⟩
    rw [hmatch]

/-! ## §2 — The verifier -/

/-- What `datetime.fromisoformat` returns: an instant (in microseconds), and whether it has a time zone. -/
structure Parsed where
  instant : Int
  aware : Bool
  deriving DecidableEq

section Thread

variable {F : Type} (fromisoformat : Str → Option Parsed)

/-- `parse_timestamp` -/
def parseTimestamp (value : Str) : Option Int :=
  let text := if value.getLast? = some 0x5a then value.dropLast ++ Str.of "+00:00" else value
  match fromisoformat text with
  | some parsed => if parsed.aware then some parsed.instant else none
  | none => none

/-- A message as Discord returns it. -/
abbrev Message (F : Type) := List (Str × Json F)

/-- `message.get(key) == text` -/
def getIs (key text : Str) (members : List (Str × Json F)) : Bool :=
  match Json.lookup key members with
  | some (.str s) => s = text
  | _ => false

/-- `message.get(key) is None` -/
def getNone (key : Str) (members : List (Str × Json F)) : Bool :=
  match Json.lookup key members with
  | none => true
  | some .null => true
  | _ => false

/-- `message.get(key) is True` -/
def getTrue (key : Str) (members : List (Str × Json F)) : Bool :=
  match Json.lookup key members with
  | some (.bool true) => true
  | _ => false

/-- `message.get(key)` where it is a mapping. -/
def getMapping (key : Str) (members : List (Str × Json F)) : Option (List (Str × Json F)) :=
  match Json.lookup key members with
  | some (.obj inner) => some inner
  | _ => none

/-- `message.get(key)` where it is a string. -/
def getStr (key : Str) (members : List (Str × Json F)) : Option Str :=
  match Json.lookup key members with
  | some (.str s) => some s
  | _ => none

/-- `BotIds`, as `load_bot_ids` makes them: the two bots differ. -/
structure BotIds where
  agentBotId : Str
  peerBotId : Str
  distinct : agentBotId ≠ peerBotId

/-- `AttestationExpectation` -/
structure AttestationExpectation where
  channelId : Str
  messageId : Str
  deployNonce : Str
  skill : Str
  digest : Str
  requestedAt : Int
  deriving DecidableEq

variable (expectation : AttestationExpectation) (botIds : BotIds) (now : Int)

/-- The last lines of `_matches_candidate`: what the stamp and the body have to say. -/
def attestationHolds (attestedAt : Int) (attestation : Attestation) : Bool :=
  if attestedAt < expectation.requestedAt || attestedAt > now || now > attestedAt + peerAttestationTtl then false
  else
    attestation.request = expectation.deployNonce && attestation.skill = expectation.skill &&
      attestation.digest = expectation.digest && attestation.verdict = "PASS"

/-- `_matches_candidate` -/
def matchesCandidate (message : Message F) : Bool :=
  match getMapping "author" message, getMapping "message_reference" message with
  | some author, some reference =>
    if !getNone "webhook_id" message then false
    else if !getIs "id" botIds.peerBotId author || getIs "id" botIds.agentBotId author || !getTrue "bot" author
    then false
    else if !getIs "channel_id" expectation.channelId message then false
    else if !getIs "message_id" expectation.messageId reference ||
      !getIs "channel_id" expectation.channelId reference then false
    else
      match getStr "timestamp" message, getStr "content" message with
      | some timestamp, some content =>
        match parseTimestamp fromisoformat timestamp, parseAttestation content with
        | some attestedAt, some attestation => attestationHolds expectation now attestedAt attestation
        | _, _ => false
      | _, _ => false
  | _, _ => false

/-- `valid_peer_attestation` -/
def validPeerAttestation (messages : List (Message F)) : Bool :=
  messages.any (matchesCandidate fromisoformat expectation botIds now)

/-! ## §3 — The producer -/

/-- `AttestRequest`, without the path of the staged copy. -/
structure AttestRequest where
  skill : Str
  expectedDigest : Str
  requestMessageId : Str
  deployNonce : Str
  channelId : Str
  refresh : Bool
  deriving DecidableEq

/-- What the checks of `skill_review` say of the staged copy; `digest` is `none` where `skill_digest` raises
`OSError`. -/
structure Inspection where
  digest : Option Str
  frontmatterPasses : Bool
  scenarioPasses : Bool
  secretScanPasses : Bool
  deriving DecidableEq

/-- `AttestResult` -/
structure AttestResult where
  exitCode : Nat
  digest : Str
  verdict : Str
  deriving DecidableEq

/-- `DiscordTransport` -/
inductive AttestOp
  | repliesAfter (channelId messageId : Str)
  | postReply (channelId messageId content : Str)
  deriving DecidableEq

/-- A listing is `none`, and a post `false`, where the transport raised what `attest` catches. -/
abbrev AttestRes (F : Type) : AttestOp → Type
  | .repliesAfter .. => Option (List (Message F))
  | .postReply .. => Bool

/-- One turn of the loop of `_already_attested`. -/
def carriesBinding (request : AttestRequest) (digest verdict : Str) (message : Message F) : Bool :=
  match getMapping "message_reference" message, getStr "content" message with
  | some reference, some content =>
    if !getIs "message_id" request.requestMessageId reference then false
    else
      match parseAttestation content with
      | none => false
      | some attestation =>
        if !(attestation.request = request.deployNonce && attestation.skill = request.skill &&
          attestation.digest = digest) then false
        else if !request.refresh then true
        else
          match (getStr "timestamp" message).bind (parseTimestamp fromisoformat) with
          | none => false
          | some attestedAt =>
            attestation.verdict = verdict && attestedAt ≤ now && now ≤ attestedAt + peerAttestationTtl
  | _, _ => false

/-- `all(checks)` -/
def checksPass (request : AttestRequest) (copy : Inspection) (digest : Str) : Bool :=
  copy.frontmatterPasses && copy.scenarioPasses && copy.secretScanPasses && digest = request.expectedDigest

/-- The `try` block of `attest`. -/
def publishVerdict (request : AttestRequest) (digest verdict : Str) : Prog (AttestRes F) AttestResult :=
  .call (.repliesAfter request.channelId request.requestMessageId) fun
    | none => pure ⟨1, digest, "FAIL"⟩
    | some listed =>
      if listed.any (carriesBinding fromisoformat now request digest verdict) then
        pure ⟨if verdict = "PASS" then 0 else 1, digest, verdict⟩
      else
        .call (.postReply request.channelId request.requestMessageId
            (formatAttestation request.deployNonce request.skill digest verdict)) fun posted =>
          pure (if posted then ⟨if verdict = "PASS" then 0 else 1, digest, verdict⟩ else ⟨1, digest, "FAIL"⟩)

/-- `attest` -/
def attest (request : AttestRequest) (copy : Inspection) : Prog (AttestRes F) AttestResult :=
  match copy.digest with
  | none => pure ⟨1, "unavailable", "FAIL"⟩
  | some digest =>
    publishVerdict fromisoformat now request digest (if checksPass request copy digest then "PASS" else "FAIL")

/-! ## §4 — The thread under a request -/

/-- A reply of the peer bot in a channel to a message, stamped with an instant. -/
structure PeerReply (channelId messageId : Str) (instant : Int) (message : Message F) : Prop where
  author : ∃ author, getMapping "author" message = some author ∧ getIs "id" botIds.peerBotId author = true ∧
    getTrue "bot" author = true
  webhook : getNone "webhook_id" message = true
  channel : getIs "channel_id" channelId message = true
  reference : ∃ reference, getMapping "message_reference" message = some reference ∧
    getIs "message_id" messageId reference = true ∧ getIs "channel_id" channelId reference = true
  timestamp : ∃ stamp, getStr "timestamp" message = some stamp ∧ parseTimestamp fromisoformat stamp = some instant

/-- The thread under a request: a listing shows some of its replies, and a post adds one of the peer bot's at
the current time. A call that raises may or may not have added its reply. -/
def threadStep : StepRel (AttestRes F) (List (Message F)) := fun thread op answer thread' =>
  match op, answer with
  | .repliesAfter .., none => thread' = thread
  | .repliesAfter .., some listed => thread' = thread ∧ ∀ message ∈ listed, message ∈ thread
  | .postReply channelId messageId content, posted =>
    (∃ reply, PeerReply fromisoformat botIds channelId messageId now reply ∧
      getStr "content" reply = some content ∧ thread' = thread ++ [reply]) ∨ posted = false ∧ thread' = thread

/-! ## §5 — What the verifier finds -/

/-- What `_parse_request` asks of its arguments. -/
def AttestRequest.WellFormed (request : AttestRequest) : Prop :=
  isSkillName request.skill = true ∧ isDigest request.expectedDigest = true ∧
    (hexGap 32).admits request.deployNonce = true

/-- What the owner's gate expects, where it recorded the request at `requestedAt`. -/
def AttestRequest.expects (request : AttestRequest) (requestedAt : Int) : AttestationExpectation :=
  ⟨request.channelId, request.requestMessageId, request.deployNonce, request.skill, request.expectedDigest,
    requestedAt⟩

/-- The reply answers the request, and its body attests the skill and digest of the request. -/
def Attests (request : AttestRequest) (message : Message F) : Prop :=
  (∃ reference, getMapping "message_reference" message = some reference ∧
    getIs "message_id" request.requestMessageId reference = true) ∧
  ∃ verdict, getStr "content" message =
    some (formatAttestation request.deployNonce request.skill request.expectedDigest verdict)

variable {fromisoformat botIds now} {request : AttestRequest} {message : Message F} {requestedAt : Int}

theorem wellFormed_pass (h : request.WellFormed) :
    (⟨request.deployNonce, request.skill, request.expectedDigest, Str.of "PASS"⟩ : Attestation).WellFormed := by
  refine ⟨?_, h.1, h.2.1, rfl⟩
  exact Bool.or_eq_true_iff.mpr (.inl h.2.2)

omit F in
theorem attestationHolds_eq_true {expectation : AttestationExpectation} {attestedAt : Int} {a : Attestation} :
    attestationHolds expectation now attestedAt a = true ↔
      expectation.requestedAt ≤ attestedAt ∧ attestedAt ≤ now ∧ now ≤ attestedAt + peerAttestationTtl ∧
        a.request = expectation.deployNonce ∧ a.skill = expectation.skill ∧ a.digest = expectation.digest ∧
        a.verdict = Str.of "PASS" := by
  unfold attestationHolds
  split
  · rename_i hlate
    simp only [Bool.or_eq_true, decide_eq_true_eq] at hlate
    constructor
    · intro h
      cases h
    · intro h
      omega
  · rename_i hlate
    simp only [Bool.or_eq_true, decide_eq_true_eq] at hlate
    simp only [Bool.and_eq_true, decide_eq_true_eq]
    constructor
    · rintro ⟨⟨⟨hrequest, hskill⟩, hdigest⟩, hverdict⟩
      exact ⟨by omega, by omega, by omega, hrequest, hskill, hdigest, hverdict⟩
    · rintro ⟨-, -, -, hrequest, hskill, hdigest, hverdict⟩
      exact ⟨⟨⟨hrequest, hskill⟩, hdigest⟩, hverdict⟩

/-- **A fresh PASS of the peer bot is accepted.** -/
theorem matchesCandidate_peerReply (hnames : request.WellFormed) {instant : Int}
    (hreply : PeerReply fromisoformat botIds request.channelId request.requestMessageId instant message)
    (hcontent : getStr "content" message =
      some (formatAttestation request.deployNonce request.skill request.expectedDigest "PASS"))
    (hafter : requestedAt ≤ instant) (hpast : instant ≤ now) (hfresh : now ≤ instant + peerAttestationTtl) :
    matchesCandidate fromisoformat (request.expects requestedAt) botIds now message = true := by
  obtain ⟨author, hauthor, hpeer, hbot⟩ := hreply.author
  obtain ⟨reference, hreference, hmessage, hchannel⟩ := hreply.reference
  obtain ⟨stamp, hstamp, hparsed⟩ := hreply.timestamp
  have hbody : parseAttestation (formatAttestation request.deployNonce request.skill request.expectedDigest "PASS") =
      some ⟨request.deployNonce, request.skill, request.expectedDigest, Str.of "PASS"⟩ :=
    parseAttestation_eq_some.mpr ⟨wellFormed_pass hnames, rfl⟩
  have hagent : getIs "id" botIds.agentBotId author = false := by
    unfold getIs at hpeer ⊢
    split
    · rename_i s hs
      rw [hs] at hpeer
      have hs' : s = botIds.peerBotId := by simpa using hpeer
      simp [hs', botIds.distinct.symm]
    · rfl
  simp only [matchesCandidate, hauthor, hreference, hreply.webhook, hpeer, hagent, hbot, hreply.channel,
    AttestRequest.expects, hmessage, hchannel, hstamp, hcontent, hparsed, hbody]
  exact attestationHolds_eq_true.mpr ⟨hafter, hpast, hfresh, rfl, rfl, rfl, rfl⟩

/-- **What `attest` holds back on**: an answer with the body it would write, up to the verdict; in a refresh,
with that verdict and a fresh stamp too. -/
theorem attests_of_carriesBinding {verdict : Str}
    (h : carriesBinding fromisoformat now request request.expectedDigest verdict message = true) :
    Attests request message ∧ (request.refresh = true → getStr "content" message =
          some (formatAttestation request.deployNonce request.skill request.expectedDigest verdict) ∧
        ∃ stamp attestedAt, getStr "timestamp" message = some stamp ∧
          parseTimestamp fromisoformat stamp = some attestedAt ∧ attestedAt ≤ now ∧
          now ≤ attestedAt + peerAttestationTtl) := by
  unfold carriesBinding at h
  split at h
  · rename_i reference content hreference hcontent
    split at h
    · cases h
    · rename_i hmessage
      split at h
      · cases h
      · rename_i attestation hparse
        split at h
        · cases h
        · rename_i hbound
          have hmessage : getIs "message_id" request.requestMessageId reference = true := by simpa using hmessage
          obtain ⟨⟨hrequest, hskill⟩, hdigest⟩ : (attestation.request = request.deployNonce ∧
              attestation.skill = request.skill) ∧ attestation.digest = request.expectedDigest := by
            simpa using hbound
          have hbody := (parseAttestation_eq_some.mp hparse).2
          rw [hrequest, hskill, hdigest] at hbody
          refine ⟨⟨⟨reference, hreference, hmessage⟩, _, by rw [hcontent, hbody]⟩, fun hrefresh => ?_⟩
          rw [hrefresh] at h
          cases hstamp : getStr "timestamp" message with
          | none => simp [hstamp] at h
          | some stamp =>
            cases hparsed : parseTimestamp fromisoformat stamp with
            | none => simp [hstamp, hparsed] at h
            | some attestedAt =>
              obtain ⟨⟨hverdict, hpast⟩, hfresh⟩ : (attestation.verdict = verdict ∧ attestedAt ≤ now) ∧
                  now ≤ attestedAt + peerAttestationTtl := by
                simpa [hstamp, hparsed] using h
              exact ⟨by rw [hcontent, hbody, hverdict], stamp, attestedAt, rfl, hparsed, hpast, hfresh⟩
  · cases h

/-- **A run that publishes with exit code 0** found an answer and wrote nothing, or wrote its PASS. -/
theorem publishVerdict_exit_zero {digest verdict : Str} {thread thread' : List (Message F)}
    {result : AttestResult}
    (run : Exec (threadStep fromisoformat botIds now) (publishVerdict fromisoformat now request digest verdict)
      thread (some result) thread') (hzero : result.exitCode = 0) :
    verdict = Str.of "PASS" ∧ ((thread' = thread ∧ ∃ message ∈ thread,
          carriesBinding fromisoformat now request digest verdict message = true) ∨
        ∃ reply, PeerReply fromisoformat botIds request.channelId request.requestMessageId now reply ∧
          getStr "content" reply = some (formatAttestation request.deployNonce request.skill digest verdict) ∧
          thread' = thread ++ [reply]) := by
  have hpass : ∀ {verdict : Str}, (if verdict = Str.of "PASS" then 0 else 1) = 0 → verdict = Str.of "PASS" := by
    intro verdict h
    by_contra hne
    rw [if_neg hne] at h
    cases h
  cases run with
  | @call _ _ listing _ thread₁ _ _ hlist rest =>
    cases listing with
    | none =>
      cases rest
      cases hzero
    | some listed =>
      obtain ⟨rfl, hlisted⟩ := hlist
      dsimp only at rest
      split at rest
      · rename_i hcarried
        cases rest
        obtain ⟨message, hmem, hcarries⟩ := List.any_eq_true.mp hcarried
        exact ⟨hpass hzero, .inl ⟨rfl, message, hlisted _ hmem, hcarries⟩⟩
      · cases rest with
        | @call _ _ posted _ thread₂ _ _ hpost rest =>
          cases rest
          cases posted with
          | false => cases hzero
          | true =>
            rcases hpost with hreply | ⟨hraised, -⟩
            · exact ⟨hpass hzero, .inr hreply⟩
            · cases hraised

end Thread

/-! ## §6 — Samples -/

/-- Two stamps of one day, an hour apart. -/
def sampleIso (text : Str) : Option Parsed :=
  if text = "2026-07-29T11:00:00+00:00" then some ⟨1785322800000000, true⟩
  else if text = "2026-07-29T12:00:00+00:00" then some ⟨1785326400000000, true⟩
  else none

/-- Noon of that day. -/
def sampleNow : Int := 1785326400000000

def sampleBots : BotIds where
  agentBotId := "10001"
  peerBotId := "10002"
  distinct := by decide

def sampleRequest : AttestRequest where
  skill := "calendar"
  expectedDigest := List.replicate 64 0x61
  requestMessageId := "501"
  deployNonce := List.replicate 32 0x31
  channelId := "77"
  refresh := false

def sampleCopy : Inspection := ⟨some (List.replicate 64 0x61), true, true, true⟩

/-- The peer bot's PASS for the sample request, with a stamp. -/
def sampleAnswer (stamp : Str) : Message Empty :=
  [("author", .obj [("id", .str "10002"), ("bot", .bool true)]), ("channel_id", .str "77"),
    ("content", .str (formatAttestation (List.replicate 32 0x31) "calendar" (List.replicate 64 0x61) "PASS")),
    ("message_reference", .obj [("message_id", .str "501"), ("channel_id", .str "77")]),
    ("timestamp", .str stamp)]

theorem sampleRequest_wellFormed : sampleRequest.WellFormed := ⟨rfl, rfl, rfl⟩

theorem sampleAnswer_peerReply {stamp : Str} {instant : Int}
    (h : parseTimestamp sampleIso stamp = some instant) :
    PeerReply sampleIso sampleBots sampleRequest.channelId sampleRequest.requestMessageId instant
      (sampleAnswer stamp) where
  author := ⟨_, rfl, rfl, rfl⟩
  webhook := rfl
  channel := rfl
  reference := ⟨_, rfl, rfl, rfl⟩
  timestamp := ⟨stamp, rfl, h⟩

theorem threadStep_listed (thread : List (Message Empty)) {channelId messageId : Str} :
    threadStep sampleIso sampleBots sampleNow thread (.repliesAfter channelId messageId) (some thread) thread :=
  ⟨rfl, fun _ h => h⟩

theorem sample_run_posts :
    Exec (threadStep sampleIso sampleBots sampleNow) (attest sampleIso sampleNow sampleRequest sampleCopy) []
      (some ⟨0, List.replicate 64 0x61, Str.of "PASS"⟩) [sampleAnswer "2026-07-29T12:00:00+00:00"] := by
  refine Exec.call (threadStep_listed _) ?_
  have hstamp : parseTimestamp sampleIso (Str.of "2026-07-29T12:00:00+00:00") = some sampleNow := by decide
  have hpost : threadStep sampleIso sampleBots sampleNow [] (.postReply sampleRequest.channelId
      sampleRequest.requestMessageId (formatAttestation sampleRequest.deployNonce sampleRequest.skill
        (List.replicate 64 0x61) "PASS")) true [sampleAnswer "2026-07-29T12:00:00+00:00"] :=
    .inl ⟨_, sampleAnswer_peerReply hstamp, rfl, rfl⟩
  exact Exec.call hpost (Exec.ret _ _)

end Autophagy.Skill
