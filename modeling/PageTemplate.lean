import PageTemplate.Parser
import PageTemplate.Node.Shown
import PageTemplate.Node.View
import PageTemplate.Context
import PageTemplate.Context.Storage
import PageTemplate.Value.Operators
import PageTemplate.PageMap
import PageTemplate.ExportStore
import PageTemplate.TemplateLibrary
import PageTemplate.Pagination
import PageTemplate.Evaluation
import PageTemplate.SiteConfig
import PageTemplate.FileFault
import PageTemplate.CommandLine
import PageTemplate.Cancellation
import PageTemplate.Main
import PageTemplate.Proofs.Spelling
import PageTemplate.Proofs.Stretches
import PageTemplate.Proofs.Lexing
import PageTemplate.Proofs.Shapes
import PageTemplate.Proofs.Derivation
import PageTemplate.Proofs.Lookahead
import PageTemplate.Proofs.Building
import PageTemplate.Proofs.Items
import PageTemplate.Proofs.Automaton
import PageTemplate.Proofs.Frames
import PageTemplate.Proofs.Units
import PageTemplate.Proofs.Pieces
import PageTemplate.Proofs.Plans
import PageTemplate.Proofs.ParsedTrees
import PageTemplate.Proofs.Completion
import PageTemplate.Proofs.Calls
import PageTemplate.Proofs.FreshStarts
import PageTemplate.Proofs.Layout
import PageTemplate.Proofs.Formula
import PageTemplate.Proofs.FormulaTrees
import PageTemplate.Proofs.Network
import PageTemplate.Proofs.Progress
import PageTemplate.Proofs.Steps
import PageTemplate.Proofs.FormulaValues
import PageTemplate.Proofs.Confinement
import PageTemplate.Proofs.Scopes
import PageTemplate.Proofs.Effects
import PageTemplate.Proofs.Movers
import PageTemplate.Proofs.Crowds
import PageTemplate.Proofs.Stages
import PageTemplate.Proofs.Keeping
import PageTemplate.Proofs.Waiting
import PageTemplate.Proofs.Readings
import PageTemplate.Proofs.FrontEnd
import PageTemplate.Proofs.Kept
import PageTemplate.Proofs.TemplateKeys
import PageTemplate.Proofs.TemplateBatches
import PageTemplate.Proofs.StageRuns
import PageTemplate.Proofs.Inclusions
import PageTemplate.Proofs.Interleavings
import PageTemplate.Proofs.Outcomes
import PageTemplate.Proofs.Delivery
import PageTemplate.Proofs.Sequential
import PageTemplate.Proofs.LocalBindings
import PageTemplate.Proofs.Branches
import PageTemplate.Proofs.Rounds
import PageTemplate.Proofs.Bindings
import PageTemplate.Proofs.DottedNames
import PageTemplate.Proofs.PathLaws
import PageTemplate.Proofs.Merging
import PageTemplate.Proofs.Comparisons
import PageTemplate.Proofs.Arithmetic
import PageTemplate.Proofs.Exports
import PageTemplate.Proofs.Batches
import PageTemplate.Proofs.UnreadNames
import PageTemplate.Proofs.PageOrder
import PageTemplate.Proofs.PageShares
import PageTemplate.Proofs.LinkRanges
import PageTemplate.Proofs.PagePaths
import PageTemplate.Proofs.PageLinks
import PageTemplate.Proofs.PlainText
import PageTemplate.Proofs.CallTokens
import PageTemplate.Proofs.CallNodes
import PageTemplate.Proofs.CallArguments
import PageTemplate.Proofs.PageRequests
import PageTemplate.Proofs.Numerals
import PageTemplate.Proofs.TokenEnds
import PageTemplate.Proofs.LexFaults
import PageTemplate.Proofs.BlockTokens
import PageTemplate.Proofs.LineBreaks
import PageTemplate.Proofs.RebuildingEnds
import PageTemplate.Proofs.StoreHistories
import PageTemplate.Proofs.NodeShapes
import PageTemplate.Proofs.NodeTokens
import PageTemplate.Proofs.NodePlaces
import PageTemplate.Proofs.ScopeStorage
