import Applesauce.FormatRoundTrip
import Applesauce.SeqQueue
import Applesauce.ScratchBudget
import Applesauce.FlowsAgree
import Applesauce.BlockReading
import Applesauce.PipelineRoundTrip
import Applesauce.ScanInvariant
import Applesauce.ScanStatistics
import Applesauce.BatchBarrier
import Applesauce.UntrustedReads
import Applesauce.UntrustedBlocks
import Applesauce.BlockCounts
import Applesauce.ForkBounds
import Applesauce.ForcedForks
import Applesauce.WriterFaults
import Applesauce.StoredSize
import Applesauce.ScanAdmission
import Applesauce.DirectoryTimes
import Applesauce.LzTables
import Applesauce.ForkFile
import Applesauce.MemoryFile
import Applesauce.CopyProgress
import Applesauce.XattrRead
import Applesauce.Verification
import Applesauce.FileChunks
import Applesauce.RealErrors
import Applesauce.SourceHandle
import Applesauce.AcceptedReads
import Applesauce.InfoAccounting
import Applesauce.PathTruncation
import Applesauce.PooledRuns
import Applesauce.VendorBackends
import Applesauce.XattrNames
import Applesauce.OpenWriters
import Applesauce.ScratchLimit
