import Sigma16.Main
import Sigma16.Proofs.ControlRegisters.History
import Sigma16.Proofs.Decoder.Alias
import Sigma16.Proofs.Decoder.FetchLength
import Sigma16.Proofs.Decoder.Literal
import Sigma16.Proofs.Decoder.Reassembly
import Sigma16.Proofs.Decoder.RoundTrip
import Sigma16.Proofs.Decoder.Scan
import Sigma16.Proofs.Entry.PackedFields
import Sigma16.Proofs.Entry.Packing
import Sigma16.Proofs.Table.PseudoShape
import Sigma16.Proofs.Decoder.Append
import Sigma16.Proofs.Table.Deletion
import Sigma16.Proofs.Table.Order
import Sigma16.Proofs.Consistency.Report
import Sigma16.Proofs.Consistency.ReportAppend
import Sigma16.Proofs.Decoder.OperandBits
import Sigma16.Proofs.Table.Omitted
import Sigma16.Proofs.Consistency.Duplicates
import Sigma16.Proofs.Consistency.Gaps
import Sigma16.Proofs.Entry.Text
import Sigma16.Proofs.Table.Index
import Sigma16.Proofs.CommandLine.Decode
import Sigma16.Proofs.Listing.Complete
