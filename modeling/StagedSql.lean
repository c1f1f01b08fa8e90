import StagedSql.Main
import StagedSql.Proofs.Condition.Grouping
import StagedSql.Proofs.Condition.Keys
import StagedSql.Proofs.Condition.Patterns
import StagedSql.Proofs.Plan.ExpectedErrors
import StagedSql.Proofs.Plan.FilteredWrites
import StagedSql.Proofs.Plan.GivenColumns
import StagedSql.Proofs.Plan.ListedColumns
import StagedSql.Proofs.Plan.PageCounts
import StagedSql.Proofs.Plan.PreparedTexts
import StagedSql.Proofs.Plan.RecursiveLookups
import StagedSql.Proofs.Plan.ResolvedColumns
import StagedSql.Proofs.Plan.Rounds
import StagedSql.Proofs.Plan.Sequencing
import StagedSql.Proofs.Plan.WholeRows
import StagedSql.Proofs.Selection.Interleaving
import StagedSql.Proofs.Settings.Substitution
import StagedSql.Proofs.Sql.FormatMarks
import StagedSql.Proofs.Transaction.Protocol
import StagedSql.Proofs.UrlStack.Guards
import StagedSql.Proofs.Value.Documents
import StagedSql.Value.Wire
