import ViewRouting.Options
import ViewRouting.Session.Program
import ViewRouting.Trace.Switchboard
import ViewRouting.Proofs.Lexical.Agreement
import ViewRouting.Proofs.Reachable
import ViewRouting.Proofs.HelperNames
import ViewRouting.Proofs.Description
import ViewRouting.Proofs.Invariant
import ViewRouting.Proofs.Records
import ViewRouting.Proofs.Precedence
import ViewRouting.Proofs.Notes
import ViewRouting.Proofs.Courses
import ViewRouting.Proofs.Acceptance
import ViewRouting.Proofs.Percent
import ViewRouting.Proofs.Filling
import ViewRouting.Proofs.Bodies
import ViewRouting.Proofs.Histories
import ViewRouting.Proofs.Overlays
import ViewRouting.Proofs.Fusion
import ViewRouting.Proofs.Parallel
import ViewRouting.Proofs.Lexical.Places
import ViewRouting.Proofs.HelperPaths
import ViewRouting.Proofs.LiveRoutes
import ViewRouting.Proofs.Lookup
import ViewRouting.Proofs.Lexical.Standing
import ViewRouting.Proofs.Consistency
import ViewRouting.Proofs.Bags
import ViewRouting.Proofs.Lowering
import ViewRouting.Proofs.Channels
import ViewRouting.Proofs.Log
import ViewRouting.Proofs.Hoisting
import ViewRouting.Proofs.Refusals
import ViewRouting.Proofs.Boundaries
import ViewRouting.Proofs.SnakeForm
import ViewRouting.Proofs.ViewWords
import ViewRouting.Proofs.Grammar
import ViewRouting.Proofs.HandlerWords
import ViewRouting.Proofs.Merging
import ViewRouting.Proofs.Messages
import ViewRouting.Proofs.Queries
import ViewRouting.Proofs.Columns
import ViewRouting.Proofs.Readers
import ViewRouting.Proofs.Decimals
import ViewRouting.Proofs.Summaries
