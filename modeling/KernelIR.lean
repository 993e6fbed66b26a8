import KernelIR.Script.Action
import KernelIR.Proofs.Acceptance
import KernelIR.Proofs.Meaning
import KernelIR.Proofs.Holders
import KernelIR.Proofs.Actions
import KernelIR.Proofs.Deduplication
import KernelIR.Proofs.ControlFlow
import KernelIR.Proofs.Atomicity
import KernelIR.Proofs.Callees
import KernelIR.Proofs.Signatures
import KernelIR.Proofs.NormalForm
import KernelIR.Proofs.Immutability
import KernelIR.Proofs.Requests
import KernelIR.Proofs.Frame
import KernelIR.Proofs.Ledger
import KernelIR.Proofs.Refinement
import KernelIR.Proofs.Ownership
import KernelIR.Proofs.Conversions
import KernelIR.Proofs.Widths
import KernelIR.Proofs.Separation.Interleaving
import KernelIR.Proofs.Sums
import KernelIR.Proofs.Extraction
import KernelIR.Proofs.Lookup
import KernelIR.Proofs.Admission
import KernelIR.Proofs.Decoding
import KernelIR.Proofs.NameUses
