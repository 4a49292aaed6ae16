import V2x.Main
import V2x.Proofs.CommandLine
import V2x.Proofs.Cursor
import V2x.Proofs.Decode.Extended
import V2x.Proofs.Decode.Spare
import V2x.Proofs.Dissector.Accounting
import V2x.Proofs.Dissector.ActiveRegion
import V2x.Proofs.Dissector.Causes
import V2x.Proofs.Dissector.FirstWins
import V2x.Proofs.Dissector.Nesting
import V2x.Proofs.Dissector.Policy
import V2x.Proofs.Dissector.Recovery
import V2x.Proofs.Dissector.Reports
import V2x.Proofs.Dissector.Resolution
import V2x.Proofs.Dissector.Truncation
import V2x.Proofs.Dissector.Undecoded
import V2x.Proofs.Machine.BuiltIn
import V2x.Proofs.Machine.Octets
import V2x.Proofs.Per.OpenType
import V2x.Proofs.Per.Width
import V2x.Proofs.Reordering
import V2x.Proofs.Session
import V2x.Proofs.Shared
import V2x.Proofs.Tree.Query
import V2x.Proofs.Tree.Shape
import V2x.Session
