import PatchReview.Text.Basic
import PatchReview.Text.Word
import PatchReview.Text.Lowercase
import PatchReview.Pattern.Basic
import PatchReview.Pattern.Scan
import PatchReview.Diff.FileDiff
import PatchReview.Json.Basic
import PatchReview.Json.Reader
import PatchReview.Security.Scan
import PatchReview.Authorship.Detection
import PatchReview.Complexity.Analysis
import PatchReview.Coverage.Mapping
import PatchReview.Tools.Server
import PatchReview.Proofs.Diff.Lines
import PatchReview.Proofs.Diff.Sections
import PatchReview.Proofs.Fallible
import PatchReview.Proofs.Diff.Counts
import PatchReview.Proofs.Diff.Composition
import PatchReview.Proofs.Diff.Header
import PatchReview.Proofs.Diff.Reading
import PatchReview.Proofs.Diff.Writing
import PatchReview.Proofs.Diff.RoundTrip
import PatchReview.Proofs.Diff.Script
import PatchReview.Proofs.Pattern.Reading
import PatchReview.Proofs.Pattern.Matches
import PatchReview.Proofs.Security.Overall
import PatchReview.Proofs.Coverage.Names
import PatchReview.Proofs.Coverage.Tests
import PatchReview.Proofs.Authorship.Marks
import PatchReview.Proofs.Complexity.Brace
import PatchReview.Proofs.Diff.Order
import PatchReview.Proofs.Order
import PatchReview.Proofs.Pattern.Returns
import PatchReview.Proofs.Complexity.Size
import PatchReview.Proofs.Diff.Boundaries
import PatchReview.Proofs.Diff.Failure
import PatchReview.Proofs.Failure
import PatchReview.Proofs.LineEndings
import PatchReview.Proofs.Tools.Session
import PatchReview.Proofs.Tools.Validation
import PatchReview.Proofs.Tools.Outcome
import PatchReview.Proofs.Json.Numbers
import PatchReview.Proofs.Json.RoundTrip
import PatchReview.Proofs.Json.Reports
import PatchReview.Proofs.Coverage.Partition
import PatchReview.Proofs.Pattern.Spans
import PatchReview.Proofs.Security.Findings
import PatchReview.Proofs.Security.Keys
import PatchReview.Proofs.Coverage.Growth
import PatchReview.Proofs.Number.Precision
import PatchReview.Proofs.Authorship.Scoring
import PatchReview.Proofs.Pattern.Blanks
import PatchReview.Proofs.Pattern.Margins
import PatchReview.Proofs.Complexity.Decisions
import PatchReview.Proofs.Complexity.Indentation
import PatchReview.Proofs.Diff.Identity
import PatchReview.Proofs.Complexity.Joining
import PatchReview.Proofs.Complexity.Nesting
import PatchReview.Proofs.Complexity.Scopes
import PatchReview.Proofs.Authorship.Runs
import PatchReview.Proofs.Diff.Numbering
import PatchReview.Proofs.Authorship.Ranges
import PatchReview.Proofs.Diff.Partition
import PatchReview.Proofs.Diff.Content
import PatchReview.Proofs.Diff.Rereading
import PatchReview.Proofs.Text.Words
import PatchReview.Proofs.Diff.MarkedPaths
import PatchReview.Proofs.Pattern.Moves
import PatchReview.Proofs.Security.Placement
import PatchReview.Proofs.Security.Markup
import PatchReview.Proofs.Complexity.Extents
import PatchReview.Proofs.Complexity.Comments
import PatchReview.Proofs.Complexity.Balance
import PatchReview.Proofs.Tools.Checks
import PatchReview.Proofs.Text.Lowercase
import PatchReview.Proofs.Coverage.Mentions
import PatchReview.Proofs.Number.HalfUp
import PatchReview.Proofs.Authorship.Ratio
import PatchReview.Proofs.Number.Nearest
import PatchReview.Proofs.Number.Scaled
import PatchReview.Proofs.Complexity.Means
