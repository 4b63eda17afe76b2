import KfswServices.Command.RemoteOnce
import KfswServices.Command.RoundTrip
import KfswServices.Command.Stats
import KfswServices.Fbo.Conformance
import KfswServices.Fbo.ScheduleFull
import KfswServices.Fbo.ScheduleLate
import KfswServices.Fbo.ScheduleOrder
import KfswServices.Fbo.ScheduleStatus
import KfswServices.Ftp.Agreement
import KfswServices.Ftp.Codec
import KfswServices.Ftp.Growing
import KfswServices.Ftp.ReadOnly
import KfswServices.Ftp.Resumption
import KfswServices.Ftp.Workers
import KfswServices.Fwu.LiteBlocks
import KfswServices.Fwu.LiteCodec
import KfswServices.Fwu.LiteLoss
import KfswServices.Fwu.LiteSound
import KfswServices.Fwu.SlotFile
import KfswServices.Gndwdt.Watchdog
import KfswServices.Golden.Check
import KfswServices.Health.Registry
import KfswServices.Hk.Beacon
import KfswServices.Hk.Boot
import KfswServices.Hk.Clean
import KfswServices.Hk.Extract
import KfswServices.Hk.Ordered
import KfswServices.Hk.Serve
import KfswServices.Journal.Emitted
import KfswServices.Journal.Ring
import KfswServices.Limits.Status
import KfswServices.Log.Codec
import KfswServices.Log.Remote
import KfswServices.Log.Windows
import KfswServices.Param.Defaults
import KfswServices.Param.Reads
import KfswServices.Param.Text
import KfswServices.Remexec.Capture
import KfswServices.Scrub.Decay
import KfswServices.Scrub.Reads
import KfswServices.Table.History
