import Templates.World.Script
import Templates.World.Plain
import Templates.Proofs.Caching
import Templates.Proofs.Matching
import Templates.Proofs.Mangling
import Templates.Proofs.Ranking
import Templates.Proofs.Reporting
import Templates.Proofs.Ending
import Templates.Proofs.Deduction.Exact
import Templates.Proofs.Enclosing
import Templates.Proofs.Ownership
import Templates.Proofs.Lifetimes
import Templates.Proofs.Claiming
import Templates.Proofs.Ranking.Reflexive
import Templates.Proofs.Ranking.Transitive
import Templates.Proofs.Selection
import Templates.Proofs.Pinning
import Templates.Proofs.Pinning.Values
import Templates.Proofs.Failing
import Templates.Proofs.Repeating
import Templates.Proofs.Muffling
import Templates.Proofs.Deductions
import Templates.Proofs.Screening
import Templates.Proofs.Mixing
import Templates.Proofs.Inheriting
import Templates.Proofs.Splicing
import Templates.Proofs.Closing
import Templates.Proofs.Flattening
import Templates.Proofs.Winning
import Templates.Proofs.Undoing
import Templates.Proofs.Defaulting
import Templates.Proofs.Furnishing
import Templates.Proofs.Refusing
import Templates.Proofs.Overloading
import Templates.Proofs.Owning
import Templates.Proofs.Recurring
import Templates.Proofs.Placing
import Templates.Proofs.Sizing
import Templates.Proofs.Tracing
import Templates.Proofs.Assigning
import Templates.Proofs.Bracketing
import Templates.Proofs.Storing
import Templates.Proofs.Naming
import Templates.Proofs.Distinguishing
