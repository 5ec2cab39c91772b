import Camus.Storage.EpochSizes
import Camus.Storage.Coalesce
import Camus.Storage.VectoredWrite
import Camus.Storage.CoalescedRead
import Camus.Storage.ScanSafety
import Camus.Storage.TailRepair
import Camus.Storage.RecoverySafety
import Camus.Storage.TornGroup
import Camus.Storage.Reading
import Camus.Storage.Definitive
import Camus.Api.Selection
import Camus.Api.Publication
import Camus.Api.Latch
