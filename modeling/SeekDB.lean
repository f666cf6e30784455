import SeekDB.LogSubmitRun
import SeekDB.LogStreamIdle
import SeekDB.NioStmtParse
import SeekDB.TxDataRoundTrip
import SeekDB.TxCallbackJournal
import SeekDB.NioUnpacking
import SeekDB.NioResponseStream
import SeekDB.ObNumberFloor
import SeekDB.ObNumberRem
import SeekDB.ObNumberCast
import SeekDB.ChangeStreamMinDep
import SeekDB.ChangeStreamRefresh
import SeekDB.LclCycle
import SeekDB.ObBase64
import SeekDB.ObTimeConvert
import SeekDB.IntegerBaseDiffFilter
import SeekDB.IteratorStorage
import SeekDB.BlockLocate
import SeekDB.LogGroupChecksum
import SeekDB.ObjLockPriorityQueue
import SeekDB.ObUniversalCompression
