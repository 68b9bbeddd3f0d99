import GraphIndex.Main
import GraphIndex.Statement.Text
import GraphIndex.Proofs.Statement.Joins
import GraphIndex.Proofs.Plan.Numbering
import GraphIndex.Proofs.Statement.Truth
import GraphIndex.Proofs.Plan.JoinSets
import GraphIndex.Proofs.Query.Meaning
import GraphIndex.Proofs.Plan.Conditions
import GraphIndex.Proofs.Plan.Partners
import GraphIndex.Proofs.Plan.Filters
import GraphIndex.Proofs.Plan.Clauses
import GraphIndex.Proofs.Plan.Trees
import GraphIndex.Proofs.Plan.Selections
import GraphIndex.Proofs.Plan.Matching
import GraphIndex.Proofs.Plan.Complement
import GraphIndex.Proofs.Statement.Pages
import GraphIndex.Proofs.Engine.Answers
import GraphIndex.Proofs.Engine.Paging
import GraphIndex.Proofs.Engine.Totals
import GraphIndex.Proofs.Plan.Dimensions
import GraphIndex.Proofs.Plan.Calls
import GraphIndex.Proofs.Plan.Scoping
import GraphIndex.Proofs.Statement.Slots
import GraphIndex.Proofs.Statement.Written
import GraphIndex.Proofs.Plan.Bindings
import GraphIndex.Proofs.Plan.Outlines
import GraphIndex.Proofs.Query.Keys
import GraphIndex.Proofs.Plan.GroupKeys
import GraphIndex.Proofs.Plan.GroupRows
import GraphIndex.Proofs.Engine.Counts
import GraphIndex.Proofs.Number.Rounding
import GraphIndex.Proofs.Engine.Percentages
import GraphIndex.Proofs.Engine.Members
import GraphIndex.Proofs.Query.KleeneTrees
import GraphIndex.Proofs.Query.ShortValues
import GraphIndex.Proofs.Query.ShortForms
import GraphIndex.Proofs.Query.Alternatives
import GraphIndex.Proofs.Json.Numbers
import GraphIndex.Proofs.Json.Values
import GraphIndex.Proofs.Query.ReadBack
import GraphIndex.Proofs.Query.Language.Words
import GraphIndex.Proofs.Query.Language.Tokens
import GraphIndex.Proofs.Query.Language.Conditions
import GraphIndex.Proofs.Query.Language.Chains
import GraphIndex.Proofs.Query.Language.Queries
import GraphIndex.Proofs.Query.Presence
import GraphIndex.Proofs.Query.Tables
import GraphIndex.Proofs.CommandLine.PageSize
import GraphIndex.Proofs.Engine.Days
import GraphIndex.Proofs.Engine.Ranking
import GraphIndex.Proofs.Engine.Periods
import GraphIndex.Proofs.Engine.SelectedFields
import GraphIndex.Proofs.Query.DateTexts
import GraphIndex.Proofs.Calendar.Instants
import GraphIndex.Proofs.Query.RelativeDates
import GraphIndex.Proofs.Query.SettledDates
import GraphIndex.Proofs.Statement.Substrings
import GraphIndex.Proofs.Number.Numerals
import GraphIndex.Proofs.Number.Overflow
import GraphIndex.Proofs.Number.Shortest
import GraphIndex.Proofs.Number.Scaling
import GraphIndex.Proofs.Json.Doubles
import GraphIndex.Proofs.Query.Language.Values
import GraphIndex.Proofs.Query.Language.Decimals
import GraphIndex.Proofs.Query.FiniteValues
import GraphIndex.Proofs.Statement.Classes
import GraphIndex.Proofs.Query.NumericComparisons
import GraphIndex.Proofs.Config.Precedence
import GraphIndex.Proofs.Plan.Fragments
