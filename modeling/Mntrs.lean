import Mntrs.Cache.FileNames
import Mntrs.Cache.FsyncThread
import Mntrs.Cache.MemCache
import Mntrs.Cache.MemLimiter
import Mntrs.Cache.ReadRace
import Mntrs.Cache.StaleBlocks
import Mntrs.Csi.PublishRuns
import Mntrs.Csi.VolumeIds
import Mntrs.Delete.BarrierProgress
import Mntrs.Delete.Strict
import Mntrs.Fs.OffModeContents
import Mntrs.Fs.StatInflight
import Mntrs.Fs.XattrNames
import Mntrs.Log.ErrorLog
import Mntrs.Mount.ProcMounts
import Mntrs.Mount.Redact
import Mntrs.Mount.Registry
import Mntrs.Mount.Sessions
import Mntrs.Names.BatchAgreement
import Mntrs.Names.ListedInodes
import Mntrs.Names.ListingKeys
import Mntrs.Names.PathText
import Mntrs.Names.Tombstones
import Mntrs.Names.WarmStat
import Mntrs.Prefetch.Budget
import Mntrs.Prefetch.DownloadLoop
import Mntrs.Prefetch.DropRace
import Mntrs.Prefetch.Parking
import Mntrs.Prefetch.PartQueue
import Mntrs.Prefetch.Wakeups
import Mntrs.WinFsp.EaCodec
import Mntrs.WinFsp.RenamedInos
import Mntrs.WinFsp.Reparse
import Mntrs.WinFsp.Wildcard
import Mntrs.Writeback.CreateEmpty
import Mntrs.Writeback.Deadlines
import Mntrs.Writeback.DirtyScan
import Mntrs.Writeback.DrainPolls
import Mntrs.Writeback.Sidecar
import Mntrs.Writeback.StuckUploads
import Mntrs.Writeback.UploadTime
import Mntrs.Writeback.XattrRuns
