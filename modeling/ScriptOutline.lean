import ScriptOutline.Code.Basic
import ScriptOutline.Code.Construct
import ScriptOutline.Code.OfTree
import ScriptOutline.Code.Unfold
import ScriptOutline.CommandLine.Bundle
import ScriptOutline.CommandLine.Options
import ScriptOutline.CommandLine.Run
import ScriptOutline.Dialect
import ScriptOutline.Json.Basic
import ScriptOutline.Json.Pretty
import ScriptOutline.Main
import ScriptOutline.Outline.Arguments
import ScriptOutline.Outline.Entry
import ScriptOutline.Outline.Listing
import ScriptOutline.Outline.ParsedSource
import ScriptOutline.Outline.Record
import ScriptOutline.Outline.Source
import ScriptOutline.Outline.Visit
import ScriptOutline.Outline.Walk
import ScriptOutline.ParseTree.Basic
import ScriptOutline.ParseTree.Table
import ScriptOutline.Path
import ScriptOutline.Project.FileOutline
import ScriptOutline.Project.FileTree
import ScriptOutline.Project.Glob.Matching
import ScriptOutline.Project.Glob.Reader
import ScriptOutline.Project.Glob.Token
import ScriptOutline.Project.Lookup
import ScriptOutline.Project.Repository
import ScriptOutline.Project.RuleFile
import ScriptOutline.Project.Scope
import ScriptOutline.Project.Sources
import ScriptOutline.StringLiteral
import ScriptOutline.Text.Blank
import ScriptOutline.Text.Compact
import ScriptOutline.Text.Hexadecimal
import ScriptOutline.Text.LetterCase
import ScriptOutline.Text.Lines
import ScriptOutline.Text.Slice
import ScriptOutline.Proofs.Address
import ScriptOutline.Proofs.Positions
import ScriptOutline.Proofs.Spots
import ScriptOutline.Proofs.Descent
import ScriptOutline.Proofs.Slots
import ScriptOutline.Proofs.Arrivals
import ScriptOutline.Proofs.SlotOrder
import ScriptOutline.Proofs.Completeness
import ScriptOutline.Proofs.SourceOrder
import ScriptOutline.Proofs.Names
import ScriptOutline.Proofs.Nesting
import ScriptOutline.Proofs.Regions
import ScriptOutline.Proofs.Decorators
import ScriptOutline.Proofs.ArgumentTexts
import ScriptOutline.Proofs.LineFeeds
import ScriptOutline.Proofs.OneLine
import ScriptOutline.Proofs.TextIndependence
import ScriptOutline.Proofs.Parts
import ScriptOutline.Proofs.WellFormed
import ScriptOutline.Proofs.DefaultSources
import ScriptOutline.Proofs.Readings
import ScriptOutline.Proofs.Views
import ScriptOutline.Proofs.Renditions
import ScriptOutline.Proofs.Comments
import ScriptOutline.Proofs.Parentheses
import ScriptOutline.Proofs.WrittenParameters
import ScriptOutline.Proofs.Records
import ScriptOutline.Proofs.PathOrder
import ScriptOutline.Proofs.FileTrees
import ScriptOutline.Proofs.Scan
import ScriptOutline.Proofs.Batch
import ScriptOutline.Proofs.CodeEscapes
import ScriptOutline.Proofs.LiteralTokens
import ScriptOutline.Proofs.MalformedEscapes
import ScriptOutline.Proofs.CodeUnits
import ScriptOutline.Proofs.Compaction
import ScriptOutline.Proofs.Headlines
import ScriptOutline.Proofs.ForcedDialect
import ScriptOutline.Proofs.Slices
