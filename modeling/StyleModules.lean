import StyleModules.Text.Segment
import StyleModules.Text.ControlSequence
import StyleModules.Text.Quoted
import StyleModules.Text.Encoding
import StyleModules.Text.Upper
import StyleModules.Text.Word
import StyleModules.Text.Digit
import StyleModules.Sheet.Tree
import StyleModules.Category.Default
import StyleModules.Layout.Lines
import StyleModules.Component.ImportLine
import StyleModules.Component.Reorder
import StyleModules.Json.Reader
import StyleModules.Json.Printer
import StyleModules.Category.Json
import StyleModules.Path
import StyleModules.Files.World
import StyleModules.Project.Runner
import StyleModules.Command.Run
import StyleModules.Main
import StyleModules.Proofs.Layout.Idempotence
import StyleModules.Proofs.Component.SecondSync
import StyleModules.Proofs.Component.Recognition
import StyleModules.Proofs.Sheet.Descent
import StyleModules.Proofs.Sheet.Lexis
import StyleModules.Proofs.Sheet.Listing
import StyleModules.Proofs.Sheet.Outline
import StyleModules.Proofs.Sheet.Concatenation
import StyleModules.Proofs.Sheet.Ownership
import StyleModules.Proofs.Layout.Quoting
import StyleModules.Proofs.Layout.Conservation
import StyleModules.Proofs.Files.Change
import StyleModules.Proofs.Files.Effect
import StyleModules.Proofs.Component.SyncRun
import StyleModules.Proofs.Component.SyncEffects
import StyleModules.Proofs.Files.Tree
import StyleModules.Proofs.Files.Evolution
import StyleModules.Proofs.Project.Handling
import StyleModules.Proofs.Project.Settling
import StyleModules.Proofs.Files.Clock
import StyleModules.Proofs.Project.Restamping
import StyleModules.Proofs.Project.Interleaving
import StyleModules.Proofs.Project.SecondScan
import StyleModules.Proofs.Json.ReadBack
import StyleModules.Proofs.Command.SpecDocument
import StyleModules.Proofs.Project.StoredRunner
import StyleModules.Proofs.Command.FormatRun
import StyleModules.Proofs.Command.FormatCheck
import StyleModules.Proofs.Files.Contents
import StyleModules.Proofs.Project.Locality
import StyleModules.Proofs.Project.SyncOrder
import StyleModules.Proofs.Project.Isolation
import StyleModules.Proofs.Project.Action
import StyleModules.Proofs.Project.Territory
import StyleModules.Proofs.Project.Adoption
import StyleModules.Proofs.Project.Vanishing
import StyleModules.Proofs.Layout.PlanOrder
import StyleModules.Proofs.Layout.Rearrangement
import StyleModules.Proofs.Component.Placement
import StyleModules.Proofs.Component.SoleImport
import StyleModules.Proofs.Component.Extraction
import StyleModules.Proofs.Component.LiteralBody
import StyleModules.Proofs.Component.QuotedSelector
import StyleModules.Proofs.Layout.Labels
import StyleModules.Proofs.Layout.Spacing
import StyleModules.Proofs.Sheet.Shape
import StyleModules.Proofs.Layout.InertEntries
import StyleModules.Proofs.Project.FirstPoll
