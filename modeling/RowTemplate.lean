import RowTemplate.Form
import RowTemplate.Grammar.Template
import RowTemplate.LineArray
import RowTemplate.LineBuffer.Log
import RowTemplate.Number.Reading
import RowTemplate.Params.Shape
import RowTemplate.Proofs.AppendOnly
import RowTemplate.Proofs.Binding
import RowTemplate.Proofs.Errors
import RowTemplate.Proofs.Expansion
import RowTemplate.Proofs.Extension
import RowTemplate.Proofs.FewerRows
import RowTemplate.Proofs.FirstDefect
import RowTemplate.Proofs.FirstRows
import RowTemplate.Proofs.Fragments
import RowTemplate.Proofs.JsonForm
import RowTemplate.Proofs.Layout
import RowTemplate.Proofs.Mentions
import RowTemplate.Proofs.Moment
import RowTemplate.Proofs.Nesting
import RowTemplate.Proofs.NumberText
import RowTemplate.Proofs.Outline
import RowTemplate.Proofs.Parsing
import RowTemplate.Proofs.PlainText
import RowTemplate.Proofs.ReadBack
import RowTemplate.Proofs.Reading
import RowTemplate.Proofs.Rendering
import RowTemplate.Proofs.Representation
import RowTemplate.Proofs.Rounding
import RowTemplate.Proofs.RowSources
import RowTemplate.Proofs.Runs
import RowTemplate.Proofs.Seam
import RowTemplate.Proofs.Sessions
import RowTemplate.Proofs.Shadowing
import RowTemplate.Proofs.StackDiscipline
import RowTemplate.Proofs.Substitution
import RowTemplate.Proofs.Table
import RowTemplate.Proofs.Unrolling
import RowTemplate.Proofs.WriteOnce
import RowTemplate.Proofs.WritingLog
import RowTemplate.Proofs.WrittenLines
