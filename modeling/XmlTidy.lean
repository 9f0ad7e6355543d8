import XmlTidy.Text.Digit
import XmlTidy.Text.Quoted
import XmlTidy.Text.Utf8
import XmlTidy.Text.Width
import XmlTidy.Text.WordChar
import XmlTidy.Number.Binary
import XmlTidy.Number.Measure
import XmlTidy.Json.Read
import XmlTidy.Json.Shown
import XmlTidy.Json.Write
import XmlTidy.Markup.Read
import XmlTidy.Layout.Render
import XmlTidy.Settings.Load
import XmlTidy.Settings.Page
import XmlTidy.Printing.Document
import XmlTidy.Log.Notice
import XmlTidy.Format.Formatter
import XmlTidy.Command.Run
import XmlTidy.Main
import XmlTidy.Proofs.Accounting
import XmlTidy.Proofs.CollectedFragments
import XmlTidy.Proofs.Columns
import XmlTidy.Proofs.DeclarationText
import XmlTidy.Proofs.ExactFit
import XmlTidy.Proofs.FailedEmbedding
import XmlTidy.Proofs.FinalLine
import XmlTidy.Proofs.ForcedBreaks
import XmlTidy.Proofs.Formattable
import XmlTidy.Proofs.FormattedSiblings
import XmlTidy.Proofs.Grammar
import XmlTidy.Proofs.GreedyWrapping
import XmlTidy.Proofs.HardLines
import XmlTidy.Proofs.Idempotence
import XmlTidy.Proofs.IgnoreRanges
import XmlTidy.Proofs.InPlaceFormatting
import XmlTidy.Proofs.Ink
import XmlTidy.Proofs.LineRoom
import XmlTidy.Proofs.Lossless
import XmlTidy.Proofs.Overrides
import XmlTidy.Proofs.OwnLines
import XmlTidy.Proofs.Positions
import XmlTidy.Proofs.ProfileFiles
import XmlTidy.Proofs.RangeFidelity
import XmlTidy.Proofs.Requoting
import XmlTidy.Proofs.RestoredProfiles
import XmlTidy.Proofs.Segmentation
import XmlTidy.Proofs.SpaceScope
import XmlTidy.Proofs.StrayValues
import XmlTidy.Proofs.StrictForm
import XmlTidy.Proofs.SubsetContents
import XmlTidy.Proofs.TrailingBlanks
