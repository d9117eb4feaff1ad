import Rubrica.Transactions.Rules
import Rubrica.Transactions.Table
import Rubrica.Billing.Synchronization
import Rubrica.Billing.Serial
import Rubrica.Billing.Tolerance
import Rubrica.Billing.Allowance
import Rubrica.Teams.Seats
import Rubrica.Sessions.Rotation
import Rubrica.Sessions.Index
import Rubrica.Sessions.Password
import Rubrica.Accounts.OneTenant
import Rubrica.Signatures.Strangers
import Rubrica.Signatures.Listing
import Rubrica.Signatures.Auditors
import Rubrica.Signatures.Answers
import Rubrica.Signatures.Frozen
import Rubrica.Signatures.FreeSignatures
import Rubrica.Signatures.Originals
import Rubrica.Signatures.Replay
import Rubrica.Signatures.Versions
import Rubrica.Signatures.Certificates
import Rubrica.Signatures.Verification
import Rubrica.Notifications.Acceptance
import Rubrica.Identity.Identifiers
import Rubrica.Sessions.Tickets
import Rubrica.Teams.Reactivation
import Rubrica.Accounts.Tokens
import Rubrica.Signatures.Stamps
import Rubrica.Signatures.LinkTokens
import Rubrica.Identity.Canonical
import Rubrica.Documents.ActiveContent
import Rubrica.Billing.Portal
import Rubrica.Billing.Repeats
import Rubrica.Mfa.RecoveryCodes
import Rubrica.Documents.AppendOnly
import Rubrica.Teams.BusinessIdentity
import Rubrica.Documents.ContentDisposition
import Rubrica.Documents.Confinement
import Rubrica.Documents.Relocation
import Rubrica.Sessions.Admission
