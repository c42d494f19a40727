import LtpDdt.FuzzySync.RaceLoop
import LtpDdt.Ujson.ValidTheorems
import LtpDdt.RunShell.RecordTheorems
import LtpDdt.Checksum.Crc32c
import LtpDdt.Timer.Ts
import LtpDdt.Rtc.Time
import LtpDdt.Doio.StopTheorems
import LtpDdt.Doio.Tokens
import LtpDdt.Fsx.ShadowTheorems
import LtpDdt.Fsx.Limits
import LtpDdt.Memutils.Mapping
import LtpDdt.SysConf.Restore
import LtpDdt.TstTest.FsTypes
import LtpDdt.Zoo.Zoolib
import LtpDdt.RandomRange.Bit
import LtpDdt.TstCmd.CheckCmd
import LtpDdt.Pan.Scheduler
import LtpDdt.Pan.LtpPan
import LtpDdt.Pan.SplitStr
import LtpDdt.TstTest.ForkTestrun
import LtpDdt.TstTest.Buffers
import LtpDdt.TstTest.Cleanup
import LtpDdt.TstTest.Filesize
import LtpDdt.NetVars.Ipv4
import LtpDdt.RandomRange.RangeTheorems
import LtpDdt.Cgroup.Scan
import LtpDdt.Cgroup.Read
import LtpDdt.Netlink.ContentTheorems
import LtpDdt.Netlink.Qdisc
import LtpDdt.Ddt.Transfer
import LtpDdt.Kconfig.Bounds
import LtpDdt.Kconfig.Cmdline
import LtpDdt.Kconfig.ValidateVar
import LtpDdt.Metaparse.HashTheorems
import LtpDdt.Metaparse.LengthTheorems
import LtpDdt.MetaparseSh.ShellTheorems
import LtpDdt.Ujson.ExactTheorems
import LtpDdt.Ujson.File
import LtpDdt.Ujson.RoundTrip
import LtpDdt.Ujson.VisitTheorems
import LtpDdt.Tlibio.Stride
import LtpDdt.TstRes.Fork
import LtpDdt.BoolExpr.ShuntingYardTheorems
