import LogSweep.Main
import LogSweep.Proofs.ArgumentOrder
import LogSweep.Proofs.Exclusion
import LogSweep.Proofs.History
import LogSweep.Proofs.Joining
import LogSweep.Proofs.Layering
import LogSweep.Proofs.Pruning
import LogSweep.Proofs.Respelling
import LogSweep.Proofs.Shrinking
import LogSweep.Proofs.Transcript
import LogSweep.Proofs.Verbosity
import LogSweep.Proofs.Resumption
import LogSweep.Proofs.Gaps
import LogSweep.Proofs.Passes
import LogSweep.Proofs.Padding
import LogSweep.Proofs.Grammar
import LogSweep.Proofs.Thinning
import LogSweep.Proofs.NameOrder
import LogSweep.Proofs.PathParts
import LogSweep.Proofs.WalkFailure
import LogSweep.Proofs.Refusal
import LogSweep.Proofs.Warnings
import LogSweep.Proofs.Schema
import LogSweep.Proofs.NewlineRuns
import LogSweep.Proofs.Halting
