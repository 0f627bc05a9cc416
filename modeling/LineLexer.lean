import LineLexer.Builder
import LineLexer.Legend
import LineLexer.Position.Json
import LineLexer.Proofs.BreakStyles
import LineLexer.Proofs.Dependence
import LineLexer.Proofs.Joins
import LineLexer.Proofs.LookAhead
import LineLexer.Proofs.MarkerSearch
import LineLexer.Proofs.Reference
import LineLexer.Proofs.Requests
import LineLexer.Proofs.RulesDocuments
import LineLexer.Proofs.TokenDocuments
import LineLexer.Proofs.TokenText
import LineLexer.Rules.Json
import LineLexer.Token.Json
import LineLexer.Proofs.TokenColumns
import LineLexer.Proofs.ReservedWords
import LineLexer.Proofs.SkippedCharacters
import LineLexer.Proofs.MarkerChecks
import LineLexer.Proofs.Reports
import LineLexer.Proofs.Violations
import LineLexer.Proofs.Json.Interruptions
import LineLexer.Proofs.Json.PromptDecoders
import LineLexer.Proofs.PartialRules
import LineLexer.Proofs.RulesSources
import LineLexer.Proofs.ModifierMembers
import LineLexer.Proofs.BuilderSteps
import LineLexer.Proofs.RenderedTokens
import LineLexer.Proofs.EscapedMessages
import LineLexer.Proofs.ParsedLabels
import LineLexer.Proofs.Cursors
