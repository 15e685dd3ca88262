import Seismogram.Columns
import Seismogram.Proofs.Assembly.FailingFast
import Seismogram.Proofs.Assembly.Integrity
import Seismogram.Proofs.Assembly.Parallel
import Seismogram.Proofs.Assembly.Slicing
import Seismogram.Proofs.Assembly.StoredOrder
import Seismogram.Proofs.Columns.TimeAxis
import Seismogram.Proofs.Directory.Growth
import Seismogram.Proofs.Directory.Listings
import Seismogram.Proofs.Directory.Responses
import Seismogram.Proofs.Query.Consultation
import Seismogram.Proofs.Query.Coordinates
import Seismogram.Proofs.Query.PoleZero
import Seismogram.Proofs.Query.Splitting
import Seismogram.Proofs.Steim.Digits
import Seismogram.Proofs.Steim.Idle
import Seismogram.Proofs.Steim.RoundTrip
import Seismogram.Proofs.Steim.Safety
import Seismogram.Proofs.Stored.Catalog
import Seismogram.Proofs.Stored.Config
import Seismogram.Proofs.Time.Stamps
import Seismogram.Session
import Seismogram.Stored.Config
