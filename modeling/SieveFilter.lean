import SieveFilter.Main
import SieveFilter.Incidence.Access
import SieveFilter.Proofs.Reduction.FirstPass
import SieveFilter.Proofs.Reduction.Writing
import SieveFilter.Proofs.Incidence.Failing
import SieveFilter.Proofs.Reduction.Failing
import SieveFilter.Proofs.Reduction.EarlyStop
import SieveFilter.Proofs.Incidence.Upkeep
import SieveFilter.Proofs.Incidence.Decrements
import SieveFilter.Proofs.Incidence.Operations
import SieveFilter.Proofs.Reduction.Copying
import SieveFilter.Proofs.Reduction.Idempotence
import SieveFilter.Proofs.Incidence.Layout
import SieveFilter.Proofs.Reduction.Layout
import SieveFilter.Proofs.Reduction.Limits
import SieveFilter.Proofs.Reduction.Reruns
import SieveFilter.Proofs.Relation.Grammar
import SieveFilter.Proofs.Relation.RoundTrip
import SieveFilter.Proofs.Incidence.Confluence
import SieveFilter.Proofs.Incidence.Convergence
import SieveFilter.Proofs.Incidence.Halving
import SieveFilter.Proofs.CommandLine.Endings
import SieveFilter.Proofs.Incidence.Connectivity
import SieveFilter.Proofs.Incidence.Contents
import SieveFilter.Proofs.Relation.Parities
import SieveFilter.Proofs.Relation.Roots
import SieveFilter.Proofs.Roster.ColumnLookup
import SieveFilter.Proofs.Arena.Reservations
import SieveFilter.Proofs.Incidence.Offences
import SieveFilter.Proofs.Incidence.UnusedRows
import SieveFilter.Proofs.Incidence.Floors
import SieveFilter.Proofs.Roster.Histories
import SieveFilter.Proofs.Stream.Division
import SieveFilter.Proofs.Settings.Precedence
