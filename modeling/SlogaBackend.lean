import SlogaBackend.Mls.Binding
import SlogaBackend.Mls.CallCeiling
import SlogaBackend.Mls.CallCreates
import SlogaBackend.Mls.CommitFraming
import SlogaBackend.Mls.RemovalReasons
import SlogaBackend.Mls.Reseating
import SlogaBackend.Mls.CallAgreement
import SlogaBackend.Mls.WriteSkew
import SlogaBackend.Payments.OrderFencing
import SlogaBackend.Payments.DisputedRefunds
import SlogaBackend.Payments.VoidedPayments
import SlogaBackend.Payments.NumberOwnership
import SlogaBackend.Payments.PayableSessions
import SlogaBackend.Payments.PurchaseRuns
import SlogaBackend.Payments.BadgeSync
import SlogaBackend.Payments.SettledEvents
import SlogaBackend.Permissions.Silence
import SlogaBackend.Permissions.Reordering
import SlogaBackend.Unreads.ReadPointers
import SlogaBackend.Unreads.Drivers
import SlogaBackend.Calendar.FiresOnce
import SlogaBackend.Calendar.Windows
import SlogaBackend.Calendar.Viewers
import SlogaBackend.Calendar.Cancellation
import SlogaBackend.Ratelimits.Ratelimiter
import SlogaBackend.Bonfire.MemberTopics
import SlogaBackend.Pushd.Reservations
import SlogaBackend.Pushd.Budgets
import SlogaBackend.Pushd.Offenders
import SlogaBackend.Files.Sanitize
import SlogaBackend.Polls.Finals
import SlogaBackend.Presence.Agreement
import SlogaBackend.E2EE.Generations
import SlogaBackend.E2EE.Payloads
import SlogaBackend.Softres.Cap
import SlogaBackend.Files.Nonces
import SlogaBackend.Scheduled.Attachments
import SlogaBackend.Relationships.Agreement
import SlogaBackend.Coalesced.Coalescing
import SlogaBackend.Coalesced.Cancellation
import SlogaBackend.Coalesced.Admission
import SlogaBackend.Voice.StraySweep
import SlogaBackend.Voice.Siblings
import SlogaBackend.Voice.Moves
import SlogaBackend.Voice.RosterRepair
import SlogaBackend.January.Bodies
import SlogaBackend.RemoteControl.Capability
import SlogaBackend.RemoteControl.Uniqueness
import SlogaBackend.Payments.EarlyReversals
import SlogaBackend.Prot.Idempotency
import SlogaBackend.Names.NameFilter
import SlogaBackend.Imports.StoatReconcile
