import AccessibleMarkup.Command.Arguments
import AccessibleMarkup.Command.Output
import AccessibleMarkup.Command.Run
import AccessibleMarkup.Command.Settings
import AccessibleMarkup.Config.Basic
import AccessibleMarkup.Config.Reader
import AccessibleMarkup.Decimal.Shortest
import AccessibleMarkup.Document.Access
import AccessibleMarkup.Document.Basic
import AccessibleMarkup.Document.References
import AccessibleMarkup.Document.State
import AccessibleMarkup.Failure
import AccessibleMarkup.Files.Access
import AccessibleMarkup.Files.Discovery
import AccessibleMarkup.Files.Disk
import AccessibleMarkup.Files.Glob
import AccessibleMarkup.Files.IgnoreRules
import AccessibleMarkup.Files.Path
import AccessibleMarkup.Json.Printer
import AccessibleMarkup.Linter.Allowance
import AccessibleMarkup.Linter.Analyzer
import AccessibleMarkup.Linter.Basic
import AccessibleMarkup.Linter.Discovery
import AccessibleMarkup.Linter.Registry
import AccessibleMarkup.Linter.Session
import AccessibleMarkup.Main
import AccessibleMarkup.Markup.Attribute
import AccessibleMarkup.Markup.Attribute.Reader
import AccessibleMarkup.Markup.ControlFlow
import AccessibleMarkup.Markup.Element
import AccessibleMarkup.Markup.Filter
import AccessibleMarkup.Markup.Names
import AccessibleMarkup.Markup.Outline
import AccessibleMarkup.Markup.Role
import AccessibleMarkup.Markup.Tag
import AccessibleMarkup.Markup.Tag.Lexer
import AccessibleMarkup.Proofs.AllowComments
import AccessibleMarkup.Proofs.AnchorSearch
import AccessibleMarkup.Proofs.AppendedText
import AccessibleMarkup.Proofs.AttributeEdges
import AccessibleMarkup.Proofs.AttributeEffects
import AccessibleMarkup.Proofs.AttributeInsertion
import AccessibleMarkup.Proofs.AttributePlaces
import AccessibleMarkup.Proofs.AttributeReading
import AccessibleMarkup.Proofs.AttributeSequences
import AccessibleMarkup.Proofs.AttributeSpelling
import AccessibleMarkup.Proofs.Blanking
import AccessibleMarkup.Proofs.ByteSlices
import AccessibleMarkup.Proofs.CollapsedText
import AccessibleMarkup.Proofs.CollectedFindings
import AccessibleMarkup.Proofs.ContentTags
import AccessibleMarkup.Proofs.ContentVotes
import AccessibleMarkup.Proofs.ControlTags
import AccessibleMarkup.Proofs.DocumentTraits
import AccessibleMarkup.Proofs.DocumentTree
import AccessibleMarkup.Proofs.ElementEnds
import AccessibleMarkup.Proofs.ElementExtents
import AccessibleMarkup.Proofs.ElementRenaming
import AccessibleMarkup.Proofs.FaultlessRules
import AccessibleMarkup.Proofs.FilteredText
import AccessibleMarkup.Proofs.FixConvergence
import AccessibleMarkup.Proofs.FixDemands
import AccessibleMarkup.Proofs.FixExhaustion
import AccessibleMarkup.Proofs.FixLocality
import AccessibleMarkup.Proofs.FixMeasure
import AccessibleMarkup.Proofs.FixProgress
import AccessibleMarkup.Proofs.FixRounds
import AccessibleMarkup.Proofs.ForestRecovery
import AccessibleMarkup.Proofs.HiddenFocus
import AccessibleMarkup.Proofs.LexerPhases
import AccessibleMarkup.Proofs.Lexing
import AccessibleMarkup.Proofs.LinePositions
import AccessibleMarkup.Proofs.LinkedDocuments
import AccessibleMarkup.Proofs.ListInsertion
import AccessibleMarkup.Proofs.ListLevels
import AccessibleMarkup.Proofs.ListRenaming
import AccessibleMarkup.Proofs.LoneRules
import AccessibleMarkup.Proofs.LooseItems
import AccessibleMarkup.Proofs.MarkupTrees
import AccessibleMarkup.Proofs.MissingIds
import AccessibleMarkup.Proofs.NavigationNames
import AccessibleMarkup.Proofs.NormalizedValues
import AccessibleMarkup.Proofs.OpeningTags
import AccessibleMarkup.Proofs.OutlineForest
import AccessibleMarkup.Proofs.OutlineReadings
import AccessibleMarkup.Proofs.OutlineRenaming
import AccessibleMarkup.Proofs.OutlineSteps
import AccessibleMarkup.Proofs.OutlineWrapping
import AccessibleMarkup.Proofs.ParentRepair
import AccessibleMarkup.Proofs.PlainElements
import AccessibleMarkup.Proofs.PlainMarkup
import AccessibleMarkup.Proofs.PlainRepairs
import AccessibleMarkup.Proofs.PlannedEdits
import AccessibleMarkup.Proofs.QuotedValues
import AccessibleMarkup.Proofs.ReferenceIndexes
import AccessibleMarkup.Proofs.ReferenceLookups
import AccessibleMarkup.Proofs.RegistryLookups
import AccessibleMarkup.Proofs.RegularRepairs
import AccessibleMarkup.Proofs.RegularTags
import AccessibleMarkup.Proofs.RepeatedAttributes
import AccessibleMarkup.Proofs.ReportPlaces
import AccessibleMarkup.Proofs.ReportedViolations
import AccessibleMarkup.Proofs.RoleGroups
import AccessibleMarkup.Proofs.RovingTabs
import AccessibleMarkup.Proofs.RuleBlocks
import AccessibleMarkup.Proofs.RuleIsolation
import AccessibleMarkup.Proofs.RuleOrder
import AccessibleMarkup.Proofs.SessionFreshness
import AccessibleMarkup.Proofs.SharedAttributes
import AccessibleMarkup.Proofs.SoleItems
import AccessibleMarkup.Proofs.SpelledTags
import AccessibleMarkup.Proofs.TabFocusRepair
import AccessibleMarkup.Proofs.TabGroups
import AccessibleMarkup.Proofs.TabPlaces
import AccessibleMarkup.Proofs.TagAgreement
import AccessibleMarkup.Proofs.TagEditFrame
import AccessibleMarkup.Proofs.TagPlaces
import AccessibleMarkup.Proofs.TagRenaming
import AccessibleMarkup.Proofs.TagSequences
import AccessibleMarkup.Proofs.TemplatedValues
import AccessibleMarkup.Proofs.WellFormedReports
import AccessibleMarkup.Proofs.WrappedItems
import AccessibleMarkup.Proofs.WrappedTags
import AccessibleMarkup.Proofs.WrappedTexts
import AccessibleMarkup.Proofs.WrittenElements
import AccessibleMarkup.Repair.Edit
import AccessibleMarkup.Repair.Fix
import AccessibleMarkup.Repair.Plan
import AccessibleMarkup.Report.Basic
import AccessibleMarkup.Report.Collection
import AccessibleMarkup.Report.Json
import AccessibleMarkup.Report.Location
import AccessibleMarkup.Report.Severity
import AccessibleMarkup.Report.Violation
import AccessibleMarkup.Rules.AriaAttributeValue
import AccessibleMarkup.Rules.Basic
import AccessibleMarkup.Rules.Catalogue
import AccessibleMarkup.Rules.HeadingOrder
import AccessibleMarkup.Rules.HiddenFocusable
import AccessibleMarkup.Rules.Identifiers
import AccessibleMarkup.Rules.LandmarkUniqueness
import AccessibleMarkup.Rules.ListItemCount
import AccessibleMarkup.Rules.ListNestingDepth
import AccessibleMarkup.Rules.ListSemantics
import AccessibleMarkup.Rules.LiveRegion
import AccessibleMarkup.Rules.PanelVisibility
import AccessibleMarkup.Rules.RequiredChildren
import AccessibleMarkup.Rules.RequiredParent
import AccessibleMarkup.Rules.RequiredState
import AccessibleMarkup.Rules.TabRovingFocus
import AccessibleMarkup.Rules.TablistSelection
import AccessibleMarkup.Text.Ascii
import AccessibleMarkup.Text.Blank
import AccessibleMarkup.Text.Bytes
import AccessibleMarkup.Text.CharClass
import AccessibleMarkup.Text.Lowercase
import AccessibleMarkup.Text.Pattern
import AccessibleMarkup.Text.Quoted
import AccessibleMarkup.Toml.Moment
import AccessibleMarkup.Toml.Reader
import AccessibleMarkup.Toml.Scalar
import AccessibleMarkup.Toml.Tree
import AccessibleMarkup.Toml.Value
