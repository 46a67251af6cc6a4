import Wellbore.Main
import Wellbore.Restart.Plan
import Wellbore.Grid.CentreTable
import Wellbore.Proofs.Walk
import Wellbore.Proofs.Grouping
import Wellbore.Proofs.Segment.Table
import Wellbore.Proofs.Branch.Partition
import Wellbore.Proofs.SortedMap
import Wellbore.Proofs.Connection.Attachments
import Wellbore.Proofs.Connection.Loading
import Wellbore.Proofs.Reconstruction.Consistent
import Wellbore.Proofs.Reconstruction.Detail
import Wellbore.Proofs.Restart.Blocks
import Wellbore.Proofs.Restart.Layout
import Wellbore.Proofs.Restart.WellHeader
import Wellbore.Proofs.Restart.Writing
import Wellbore.Proofs.Restart.ReadBack
import Wellbore.Proofs.Segment.Loading
import Wellbore.Proofs.Restart.PlannedReport
import Wellbore.Proofs.Archive.Bisection
import Wellbore.Proofs.Archive.Timeline
import Wellbore.Proofs.Archive.Lookup
import Wellbore.Proofs.Archive.Family
import Wellbore.Proofs.Restart.Agreement
import Wellbore.Proofs.Segment.Reading
import Wellbore.Proofs.Reconstruction.Separation
import Wellbore.Proofs.Case.Loading
import Wellbore.Proofs.Case.ReportOrder
import Wellbore.Proofs.Connection.Calls
import Wellbore.Proofs.Connection.Branches
import Wellbore.Proofs.Segment.Calls
import Wellbore.Proofs.Branch.Moved
import Wellbore.Proofs.Branch.Order
import Wellbore.Proofs.Branch.Padding
import Wellbore.Proofs.Grid.Numbering
import Wellbore.Proofs.Grid.Catalog
import Wellbore.Proofs.Connection.Cells
import Wellbore.Proofs.Segment.WellheadLinks
import Wellbore.Proofs.Loops
import Wellbore.Proofs.Branch.Rings
import Wellbore.Proofs.Reconstruction.Namesakes
import Wellbore.Proofs.Branch.Junctions
import Wellbore.Proofs.Segment.Failures
import Wellbore.Proofs.Reconstruction.RepeatedGrids
import Wellbore.Proofs.Case.RepeatedReports
import Wellbore.Proofs.Segment.Relinking
import Wellbore.Proofs.Connection.Interruption
import Wellbore.Proofs.Branch.ForkReport
import Wellbore.Proofs.Branch.Listing
import Wellbore.Proofs.Branch.Growth
import Wellbore.Proofs.Restart.Addresses
import Wellbore.Proofs.Segment.Completeness
import Wellbore.Proofs.Case.SharedReaders
import Wellbore.Proofs.Grid.Extents
import Wellbore.Proofs.Grid.Ranks
import Wellbore.Proofs.Grid.Centres
import Wellbore.Proofs.Grid.Registration
import Wellbore.Proofs.Grid.Descriptions
import Wellbore.Proofs.Decimal.Digits
import Wellbore.Proofs.Decimal.FiniteReals
import Wellbore.Proofs.Time.Calendar
import Wellbore.Proofs.Time.ReadBack
import Wellbore.Proofs.Json.Literals
import Wellbore.Proofs.Json.ReadBack
import Wellbore.Proofs.Json.Denotations
import Wellbore.Proofs.Json.Records
import Wellbore.Proofs.Restart.Dumps
