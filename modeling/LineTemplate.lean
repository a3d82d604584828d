import LineTemplate.FileSystem.Build
import LineTemplate.Main
import LineTemplate.Proofs.Termination
import LineTemplate.Proofs.IncludeGraph
import LineTemplate.Proofs.Leaves
import LineTemplate.Proofs.Shift
import LineTemplate.Proofs.Chain
import LineTemplate.Proofs.Inheritance
import LineTemplate.Proofs.Loading
import LineTemplate.Proofs.FirstFault
import LineTemplate.Proofs.OnePass
import LineTemplate.Proofs.ListingAgreement
import LineTemplate.Proofs.Pasting
import LineTemplate.Proofs.Continuation
import LineTemplate.Proofs.Provenance
import LineTemplate.Proofs.BoundPairs
import LineTemplate.Proofs.Saving
import LineTemplate.Proofs.ReadBack
import LineTemplate.Proofs.Outcome
import LineTemplate.Proofs.Matches
import LineTemplate.Proofs.QuotedValue
import LineTemplate.Proofs.Simultaneous
import LineTemplate.Proofs.LineStart
import LineTemplate.Proofs.LoadedLines
import LineTemplate.Proofs.MissingFiles
import LineTemplate.Proofs.Terminators
import LineTemplate.Proofs.ReferenceNames
import LineTemplate.Proofs.ListingReading
