import FormHarvest.CommandLine.Command
import FormHarvest.CommandLine.Extract
import FormHarvest.CommandLine.Help
import FormHarvest.CommandLine.Option
import FormHarvest.CommandLine.Places
import FormHarvest.CommandLine.Reading
import FormHarvest.Decimal.Double
import FormHarvest.Decimal.Numeral
import FormHarvest.Decimal.Shortest
import FormHarvest.DocComment.Argument
import FormHarvest.DocComment.Directive
import FormHarvest.DocComment.Tag
import FormHarvest.DocComment.Undecorated
import FormHarvest.Encoding.Source
import FormHarvest.Encoding.Utf8
import FormHarvest.Encoding.Wide
import FormHarvest.Extraction.Domain
import FormHarvest.Extraction.Extractor
import FormHarvest.Extraction.Finding
import FormHarvest.Extraction.Options
import FormHarvest.Extraction.Route
import FormHarvest.Extraction.Scope
import FormHarvest.Files.Discovery
import FormHarvest.Files.Fault
import FormHarvest.Files.FileSystem
import FormHarvest.Files.FileTree
import FormHarvest.Files.Glob
import FormHarvest.Files.Path
import FormHarvest.Json.Basic
import FormHarvest.Json.Reader
import FormHarvest.Json.Shown
import FormHarvest.Json.Texts
import FormHarvest.Json.Writer
import FormHarvest.Log
import FormHarvest.Main
import FormHarvest.Message.Basic
import FormHarvest.Message.Catalogue
import FormHarvest.Moment
import FormHarvest.Output.MessageJson
import FormHarvest.Output.Writer
import FormHarvest.Output.Xliff
import FormHarvest.Php.Cursor
import FormHarvest.Php.Lexer
import FormHarvest.Php.Node
import FormHarvest.Php.Operators
import FormHarvest.Php.Parser
import FormHarvest.Php.Quotation
import FormHarvest.Php.Token
import FormHarvest.Php.TokenStream
import FormHarvest.Proofs.AccountedSources
import FormHarvest.Proofs.Advancing
import FormHarvest.Proofs.AdvancingParsers
import FormHarvest.Proofs.AgreeingExpressions
import FormHarvest.Proofs.AgreeingParsers
import FormHarvest.Proofs.AgreeingStatements
import FormHarvest.Proofs.BlankEnds
import FormHarvest.Proofs.BracketBounds
import FormHarvest.Proofs.Brackets
import FormHarvest.Proofs.CatalogueInvariant
import FormHarvest.Proofs.CatalogueSummary
import FormHarvest.Proofs.ChangedTrees
import FormHarvest.Proofs.ChoiceConventions
import FormHarvest.Proofs.DeepTrees
import FormHarvest.Proofs.DoubleQuotes
import FormHarvest.Proofs.EncodedTexts
import FormHarvest.Proofs.EscapeFaults
import FormHarvest.Proofs.EscapedTexts
import FormHarvest.Proofs.ExtractionsAlone
import FormHarvest.Proofs.FileActions
import FormHarvest.Proofs.FileReadings
import FormHarvest.Proofs.FirstUnreadable
import FormHarvest.Proofs.FlaggedTrees
import FormHarvest.Proofs.Forest
import FormHarvest.Proofs.FoundFiles
import FormHarvest.Proofs.FurtherFields
import FormHarvest.Proofs.HarvestedRuns
import FormHarvest.Proofs.InsertedBlanks
import FormHarvest.Proofs.Interpolations
import FormHarvest.Proofs.KeptFields
import FormHarvest.Proofs.KeyedInsertion
import FormHarvest.Proofs.LastDefault
import FormHarvest.Proofs.Layouts
import FormHarvest.Proofs.Lexemes
import FormHarvest.Proofs.LoadedSettings
import FormHarvest.Proofs.MergedRuns
import FormHarvest.Proofs.Merging
import FormHarvest.Proofs.MessageObjects
import FormHarvest.Proofs.MessageOrigins
import FormHarvest.Proofs.NotedDiagnostics
import FormHarvest.Proofs.Nowdocs
import FormHarvest.Proofs.OnePass
import FormHarvest.Proofs.OperatorTrees
import FormHarvest.Proofs.OptionMaps
import FormHarvest.Proofs.ParseSteps
import FormHarvest.Proofs.ParsedTrees
import FormHarvest.Proofs.ParserParts
import FormHarvest.Proofs.ParsingProgress
import FormHarvest.Proofs.PassedOver
import FormHarvest.Proofs.PlacedTexts
import FormHarvest.Proofs.PrecedenceClimbing
import FormHarvest.Proofs.PrintedSources
import FormHarvest.Proofs.ReadArrays
import FormHarvest.Proofs.ReadExpressions
import FormHarvest.Proofs.ReadJson
import FormHarvest.Proofs.ReadMessages
import FormHarvest.Proofs.ReadTranslations
import FormHarvest.Proofs.ReadingOrder
import FormHarvest.Proofs.ReadingRuns
import FormHarvest.Proofs.RealPlaces
import FormHarvest.Proofs.RecursiveRuns
import FormHarvest.Proofs.RepeatedRuns
import FormHarvest.Proofs.ReportTotals
import FormHarvest.Proofs.ReportedFiles
import FormHarvest.Proofs.SavedFiles
import FormHarvest.Proofs.SavedSettings
import FormHarvest.Proofs.Scopes
import FormHarvest.Proofs.SearchedFolders
import FormHarvest.Proofs.SeparateFiles
import FormHarvest.Proofs.SettingsActions
import FormHarvest.Proofs.SettledPaths
import FormHarvest.Proofs.SharedLiterals
import FormHarvest.Proofs.SingleQuotes
import FormHarvest.Proofs.SourceCuts
import FormHarvest.Proofs.SourceRuns
import FormHarvest.Proofs.SourceSigns
import FormHarvest.Proofs.Spelled
import FormHarvest.Proofs.SpelledParsers
import FormHarvest.Proofs.Spots
import FormHarvest.Proofs.Stations
import FormHarvest.Proofs.StoppedRuns
import FormHarvest.Proofs.StringOrder
import FormHarvest.Proofs.TextOrder
import FormHarvest.Proofs.TextSpots
import FormHarvest.Proofs.TokenPlaces
import FormHarvest.Proofs.TranslationUnits
import FormHarvest.Proofs.TwoPasses
import FormHarvest.Proofs.TwoRuns
import FormHarvest.Proofs.UpdatedSettings
import FormHarvest.Proofs.ValueComments
import FormHarvest.Proofs.WantedFiles
import FormHarvest.Proofs.WholeRuns
import FormHarvest.Proofs.WrittenFiles
import FormHarvest.Proofs.WrittenGroups
import FormHarvest.Proofs.WrittenMessages
import FormHarvest.Proofs.WrittenTags
import FormHarvest.Proofs.WrittenValues
import FormHarvest.Proofs.WrittenWords
import FormHarvest.Proofs.XmlDocuments
import FormHarvest.Proofs.XmlNesting
import FormHarvest.Proofs.XmlReading
import FormHarvest.Proofs.XmlScanning
import FormHarvest.Report.Basic
import FormHarvest.Report.Saving
import FormHarvest.Run.Basic
import FormHarvest.Run.Outcome
import FormHarvest.Run.Settings
import FormHarvest.Settings.Basic
import FormHarvest.Settings.Fault
import FormHarvest.Settings.Group
import FormHarvest.Settings.Store
import FormHarvest.Settings.Update
import FormHarvest.Text.Blank
import FormHarvest.Text.CodePoint
import FormHarvest.Text.Digit
import FormHarvest.Text.Lowercase
import FormHarvest.Text.Printable
import FormHarvest.Text.Quoted
import FormHarvest.Text.Ranges
import FormHarvest.Text.Word
import FormHarvest.Xml.Element
