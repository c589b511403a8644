import KernelWrap.Compute.Session
import KernelWrap.Main
import KernelWrap.Proofs.Closed
import KernelWrap.Proofs.Lines
import KernelWrap.Proofs.Header
import KernelWrap.Proofs.Grammar
import KernelWrap.Proofs.Written
import KernelWrap.Proofs.RoundTrip
import KernelWrap.Proofs.Marshalling
import KernelWrap.Proofs.Ledger
import KernelWrap.Proofs.Ownership
import KernelWrap.Proofs.Names
import KernelWrap.Proofs.Evaluation
import KernelWrap.Proofs.Dispatching
import KernelWrap.Proofs.Launches
import KernelWrap.Proofs.Reporting
import KernelWrap.Proofs.Dimensions
import KernelWrap.Proofs.Assets
import KernelWrap.Proofs.Sessions
import KernelWrap.Proofs.Comments
import KernelWrap.Proofs.Accounting
import KernelWrap.Proofs.Events
import KernelWrap.Proofs.Agreement
import KernelWrap.Proofs.Quotes
import KernelWrap.Proofs.Literals
import KernelWrap.Proofs.Accepted
import KernelWrap.Proofs.Parameters
import KernelWrap.Proofs.Turns
import KernelWrap.Proofs.Courses
import KernelWrap.Proofs.Links
import KernelWrap.Proofs.Rebuild
import KernelWrap.Proofs.Schedules
import KernelWrap.Proofs.Stripping
import KernelWrap.Proofs.Refusals
import KernelWrap.Proofs.Failures
import KernelWrap.Proofs.Normalizing
import KernelWrap.Proofs.Matching
import KernelWrap.Proofs.Clashes
import KernelWrap.Proofs.Embedding
import KernelWrap.Proofs.Aborted
import KernelWrap.Proofs.Widths
import KernelWrap.Proofs.Directives
import KernelWrap.Proofs.LineMaps
import KernelWrap.Proofs.Tokens
