import Autophagy.Approval.BadRecord
import Autophagy.Approval.DestroyOrder
import Autophagy.Approval.Kept
import Autophagy.Approval.LeaseKey
import Autophagy.Approval.PostingJournal
import Autophagy.Approval.SingleLive
import Autophagy.Approval.SurfaceAudit
import Autophagy.Budget.DiffTells
import Autophagy.Calendar.OneUse
import Autophagy.Calendar.Request
import Autophagy.Calendar.SingleRun
import Autophagy.Coordination.Labels
import Autophagy.Coordination.Machine
import Autophagy.CredentialRotation.AllOrNothing
import Autophagy.CredentialRotation.Note
import Autophagy.Doctype.AppendOnly
import Autophagy.DriveArchive.Digest
import Autophagy.DriveArchive.ProbedWherePosted
import Autophagy.DriveArchive.UploadedAsApproved
import Autophagy.Effect.Stateful
import Autophagy.EntityPreflight.Normalize
import Autophagy.EntityPreflight.Once
import Autophagy.Gate.ActionPayload
import Autophagy.Gate.FailClosed
import Autophagy.Gate.Todo.SingleInsert
import Autophagy.Interop.Delegation
import Autophagy.Interop.LoopGuard
import Autophagy.Mail.Bridge
import Autophagy.Mail.Confirmed
import Autophagy.Mail.EachDraft
import Autophagy.Mail.FirstObject
import Autophagy.Mail.Mode
import Autophagy.ManagedSkill.Release
import Autophagy.Meeting.Cards
import Autophagy.Meeting.Extraction
import Autophagy.Meeting.Milestones
import Autophagy.MemoryCurator.Alerting
import Autophagy.MemoryCurator.Deletion
import Autophagy.Number.Nearest
import Autophagy.OwnerDm.Kept
import Autophagy.Procurement.Amount
import Autophagy.Procurement.Filled
import Autophagy.Procurement.TemplateAtomic
import Autophagy.Prompt.AppendOnly
import Autophagy.Rag.ChunkContent
import Autophagy.Rag.Converged
import Autophagy.Rag.DiscordLossless
import Autophagy.RegressionBank.Registry
import Autophagy.ReminderPoller.RemindedOnce
import Autophagy.Repair.AlteredRecord
import Autophagy.Repair.GitQuoting
import Autophagy.Repair.Redaction
import Autophagy.ReportHub.NeverStalls
import Autophagy.Sensitivity.SameVerdict
import Autophagy.Skill.Attestation
import Autophagy.Skill.ReviewLedger
import Autophagy.Topics.Invariant
import Autophagy.Triage.Prompt
import Autophagy.Triage.Recipients
import Autophagy.Triage.Ticks
import Autophagy.Wiki.NoteLost
import Autophagy.Wiki.SavedOnce
