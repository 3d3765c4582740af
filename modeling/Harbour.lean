import Harbour.Main
import Harbour.Intake
import Harbour.Proofs.Chain
import Harbour.Proofs.History
import Harbour.Proofs.Run
import Harbour.Proofs.Ledger
import Harbour.Proofs.Refinement
import Harbour.Proofs.Notifications
import Harbour.Proofs.Refusals
import Harbour.Proofs.Grouping
import Harbour.Proofs.Integrity
import Harbour.Proofs.Preimage
import Harbour.Proofs.Replay
import Harbour.Proofs.Snapshot
import Harbour.Proofs.Deliveries
import Harbour.Proofs.Window
import Harbour.Proofs.Deduplication
import Harbour.Proofs.Usage
import Harbour.Proofs.Consistency
import Harbour.Proofs.Effects
import Harbour.Proofs.Limits
import Harbour.Proofs.Interleaving
import Harbour.Proofs.Workload
import Harbour.Proofs.Accounting
import Harbour.Proofs.Load
import Harbour.Proofs.Numeral
import Harbour.Proofs.Quoted
import Harbour.Proofs.Spelling
import Harbour.Proofs.Layouts
import Harbour.Proofs.Codecs
import Harbour.Proofs.Exchange
import Harbour.Proofs.Identifiers
import Harbour.Proofs.Instant
import Harbour.Proofs.Payloads
import Harbour.Proofs.Growth
import Harbour.Proofs.Unseen
import Harbour.Proofs.Tampering
import Harbour.Proofs.Agreement
import Harbour.Proofs.Decisions
import Harbour.Proofs.Tally
import Harbour.Proofs.Numbering
import Harbour.Proofs.Pool
import Harbour.Proofs.Lengthening
import Harbour.Proofs.Text
import Harbour.Proofs.Settings
import Harbour.Proofs.Grammar
import Harbour.Proofs.Records
import Harbour.Proofs.Loaders
import Harbour.Proofs.Reencodings
import Harbour.Proofs.Acceptance
