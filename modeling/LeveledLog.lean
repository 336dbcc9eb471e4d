import LeveledLog.Argument
import LeveledLog.Arrivals
import LeveledLog.Bench
import LeveledLog.Binary64
import LeveledLog.Buffer
import LeveledLog.Bytes
import LeveledLog.CivilDate
import LeveledLog.Command.Launch
import LeveledLog.Command.Options
import LeveledLog.Command.Rehearsal
import LeveledLog.Command.Relay
import LeveledLog.Decimal
import LeveledLog.Descriptor
import LeveledLog.Diagnostic
import LeveledLog.Dialogue
import LeveledLog.Duration
import LeveledLog.Fault
import LeveledLog.Format.Fault
import LeveledLog.Format.Spec
import LeveledLog.Format.Template
import LeveledLog.Format.Verb
import LeveledLog.Hexadecimal
import LeveledLog.Level
import LeveledLog.Line
import LeveledLog.Logger
import LeveledLog.Main
import LeveledLog.Numeral
import LeveledLog.Path
import LeveledLog.Proofs.Acceptance
import LeveledLog.Proofs.Binary64.Interval
import LeveledLog.Proofs.Binary64.Nearest
import LeveledLog.Proofs.Binary64.Pattern
import LeveledLog.Proofs.Buffer.Conservation
import LeveledLog.Proofs.Buffer.Flow
import LeveledLog.Proofs.Buffer.Order
import LeveledLog.Proofs.Buffer.Undo
import LeveledLog.Proofs.CivilDate
import LeveledLog.Proofs.Command.Delivery
import LeveledLog.Proofs.Command.Options
import LeveledLog.Proofs.Custody
import LeveledLog.Proofs.Decimal.Figures
import LeveledLog.Proofs.Decimal.Notation
import LeveledLog.Proofs.Decimal.ReadBack
import LeveledLog.Proofs.Decimal.Value
import LeveledLog.Proofs.Descriptor
import LeveledLog.Proofs.Duration
import LeveledLog.Proofs.Exchange
import LeveledLog.Proofs.Format.Grammar
import LeveledLog.Proofs.Format.Slots
import LeveledLog.Proofs.Format.Tiling
import LeveledLog.Proofs.History
import LeveledLog.Proofs.Line.Escaping
import LeveledLog.Proofs.Line.Filling
import LeveledLog.Proofs.Line.Markers
import LeveledLog.Proofs.Numeral
import LeveledLog.Proofs.Radix.Digits
import LeveledLog.Proofs.Radix.Reading
import LeveledLog.Proofs.Rendering.AlternateReal
import LeveledLog.Proofs.Rendering.Character
import LeveledLog.Proofs.Rendering.Clean
import LeveledLog.Proofs.Rendering.DefaultReal
import LeveledLog.Proofs.Rendering.Form
import LeveledLog.Proofs.Rendering.HexText
import LeveledLog.Proofs.Rendering.Number
import LeveledLog.Proofs.Rendering.Padding
import LeveledLog.Proofs.Rendering.Precision
import LeveledLog.Proofs.Rendering.Quotation
import LeveledLog.Proofs.Rendering.ShortestReal
import LeveledLog.Proofs.Rendering.WholeNumber
import LeveledLog.Proofs.Rounding
import LeveledLog.Proofs.Runes
import LeveledLog.Proofs.Saturation
import LeveledLog.Proofs.Session.Closing
import LeveledLog.Proofs.Session.Conservation
import LeveledLog.Proofs.Session.Ownership
import LeveledLog.Proofs.Session.Suppression
import LeveledLog.Proofs.Settings
import LeveledLog.Proofs.Stamp
import LeveledLog.Proofs.Word
import LeveledLog.Proofs.Writer.Emission
import LeveledLog.Proofs.Writer.Forgery
import LeveledLog.Proofs.Writer.Refusal
import LeveledLog.Quoted
import LeveledLog.Rendering.Integer
import LeveledLog.Rendering.Layout
import LeveledLog.Rendering.Real
import LeveledLog.Rendering.Text
import LeveledLog.Rendering.Value
import LeveledLog.Rounding
import LeveledLog.Session
import LeveledLog.Settings
import LeveledLog.Shortest
import LeveledLog.Stamp
import LeveledLog.Store
import LeveledLog.SystemError
import LeveledLog.Utf8
import LeveledLog.Word
import LeveledLog.Writer
