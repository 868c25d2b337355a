import IdlFormat.Edit
import IdlFormat.Main
import IdlFormat.Proofs.Relayout
import IdlFormat.Proofs.Substance
import IdlFormat.Proofs.Bead
import IdlFormat.Proofs.Clean
import IdlFormat.Proofs.Monitor
import IdlFormat.Proofs.Overlong
import IdlFormat.Proofs.Breaks
import IdlFormat.Proofs.Indentation
import IdlFormat.Proofs.FileTree
import IdlFormat.Proofs.Width
import IdlFormat.Proofs.JsonToken
import IdlFormat.Proofs.JsonRoundTrip
import IdlFormat.Proofs.Logging
import IdlFormat.Proofs.Utf8
import IdlFormat.Proofs.Accounting
import IdlFormat.Proofs.Journal
import IdlFormat.Proofs.RunLog
import IdlFormat.Proofs.Unmasking
import IdlFormat.Proofs.AttributeBlock
import IdlFormat.Proofs.CanonicalSpacing
import IdlFormat.Proofs.AliasList
import IdlFormat.Proofs.UnitEnd
import IdlFormat.Proofs.CommentMargin
import IdlFormat.Proofs.Directive
import IdlFormat.Proofs.Bodies
import IdlFormat.Proofs.EnumList
import IdlFormat.Proofs.Position
import IdlFormat.Proofs.Search
import IdlFormat.Proofs.Layering
import IdlFormat.Proofs.Refusal
import IdlFormat.Proofs.NameRun
import IdlFormat.Proofs.SquareBrackets
import IdlFormat.Proofs.Repair
import IdlFormat.Proofs.Stability
