import CommandBridge.Batch
import CommandBridge.Catalogue
import CommandBridge.Command.Basic
import CommandBridge.Command.Describe
import CommandBridge.Command.Parse
import CommandBridge.CommandLine
import CommandBridge.Conversion
import CommandBridge.Converter
import CommandBridge.Datum
import CommandBridge.Decimal
import CommandBridge.Flag
import CommandBridge.Guard
import CommandBridge.Journal
import CommandBridge.Manager
import CommandBridge.Options
import CommandBridge.Proofs.Batch
import CommandBridge.Proofs.Batch.Again
import CommandBridge.Proofs.Batch.Append
import CommandBridge.Proofs.Batch.Enabled
import CommandBridge.Proofs.Body
import CommandBridge.Proofs.Canonical
import CommandBridge.Proofs.Converter
import CommandBridge.Proofs.Cursor
import CommandBridge.Proofs.Dispatch
import CommandBridge.Proofs.Distribution
import CommandBridge.Proofs.FlagWords
import CommandBridge.Proofs.Grammar
import CommandBridge.Proofs.Guard
import CommandBridge.Proofs.Guard.Search
import CommandBridge.Proofs.Guard.Selection
import CommandBridge.Proofs.InstallText
import CommandBridge.Proofs.Item
import CommandBridge.Proofs.KeptFlags
import CommandBridge.Proofs.Layout
import CommandBridge.Proofs.NamedValues
import CommandBridge.Proofs.Opening
import CommandBridge.Proofs.Operators
import CommandBridge.Proofs.Outline
import CommandBridge.Proofs.Rearrangement
import CommandBridge.Proofs.Relay
import CommandBridge.Proofs.Relay.Guarded
import CommandBridge.Proofs.Relay.Install
import CommandBridge.Proofs.Relay.PassThrough
import CommandBridge.Proofs.Relay.Stable
import CommandBridge.Proofs.Synonyms
import CommandBridge.Proofs.Tiling
import CommandBridge.Proofs.Tiling.Append
import CommandBridge.Proofs.Tiling.Quoted
import CommandBridge.Proofs.Vocabulary
import CommandBridge.Reason
import CommandBridge.Request
import CommandBridge.Summary
import CommandBridge.Text.Basic
import CommandBridge.Text.Blank
import CommandBridge.Text.Literal
import CommandBridge.Text.Printable
import CommandBridge.Token.Basic
import CommandBridge.Token.Scan
import CommandBridge.Translation
