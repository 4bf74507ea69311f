import WrSwitch.Machine.Run
import WrSwitch.Machine.Prefix
import WrSwitch.Rtu.Types
import WrSwitch.Rtu.Hash
import WrSwitch.Rtu.Driver
import WrSwitch.Rtu.FilterDb
import WrSwitch.Rtu.Table
import WrSwitch.Rtu.RepInvariant
import WrSwitch.Rtu.AbstractMap
import WrSwitch.Rtu.Refinement
import WrSwitch.Rtu.EntryWords
import WrSwitch.Rtu.HwMirror
import WrSwitch.Rtu.Flush
import WrSwitch.Shm.Seqlock
import WrSwitch.Shm.Segment
import WrSwitch.Machine.Bytes
import WrSwitch.MiniRpc.Types
import WrSwitch.MiniRpc.Export
import WrSwitch.MiniRpc.Marshal
import WrSwitch.Rtu.ExportDescs
import WrSwitch.Rtu.Exports
import WrSwitch.Rtu.Validation
import WrSwitch.Rtu.RegFields
import WrSwitch.Rtu.Config
import WrSwitch.Rtu.ConfigMirror
import WrSwitch.Rtu.ConfigRuns
import WrSwitch.MiniRpc.SharedMem
import WrSwitch.MiniRpc.ExactlyOnce
import WrSwitch.MiniRpc.Socket
import WrSwitch.MiniRpc.Replies
import WrSwitch.Tools.WrsVlans
import WrSwitch.Tools.ConfigRtud
import WrSwitch.Hal.GenericFsm
import WrSwitch.Hal.Types
import WrSwitch.Hal.PllFsm
import WrSwitch.Hal.TxSetupFsm
import WrSwitch.Hal.RxSetupFsm
import WrSwitch.Hal.PortFsm
import WrSwitch.Hal.PortFlags
import WrSwitch.Hal.TxBarrier
import WrSwitch.Machine.Ring
import WrSwitch.Pstats.Device
import WrSwitch.Pstats.System
import WrSwitch.Pstats.ExactCounts
import WrSwitch.Pstats.IrqRing
import WrSwitch.Nic.Driver
import WrSwitch.Nic.TxConservation
import WrSwitch.RadiusVlan.Fsm
import WrSwitch.RadiusVlan.AccessControl
import WrSwitch.Machine.Handles
import WrSwitch.RadiusVlan.Resources
import WrSwitch.Machine.Chain
import WrSwitch.MiniRpc.ReplySizes
import WrSwitch.MiniRpc.Links
import WrSwitch.Rtu.Aging
import WrSwitch.Tools.Preserved
import WrSwitch.Machine.Text
import WrSwitch.Libwr.ConfigLpcalib
import WrSwitch.Libwr.ConfigStore
import WrSwitch.Hal.TxCalibration
import WrSwitch.Libwr.DotConfig
import WrSwitch.Machine.Cache
import WrSwitch.Snmp.StatusGroups
import WrSwitch.Snmp.StatusAlarms
import WrSwitch.Machine.Writes
import WrSwitch.Snmp.ReadRounds
import WrSwitch.Snmp.PtpDataTable
import WrSwitch.Snmp.PtpInstanceTable
import WrSwitch.Snmp.PortStatusTable
import WrSwitch.Snmp.Snapshots
import WrSwitch.Sdb.Library
import WrSwitch.Sdb.Walk
import WrSwitch.Sdb.Calls
import WrSwitch.Machine.Pieces
import WrSwitch.Sdb.Gensdbfs
import WrSwitch.Sdb.Placement
import WrSwitch.Sdb.ImageScan
import WrSwitch.Sdb.RoundTrip
import WrSwitch.Fec.Gf256
import WrSwitch.Fec.ReedSolomon
import WrSwitch.Fec.Erasures
import WrSwitch.Fec.Packets
import WrSwitch.Fec.SecDed
import WrSwitch.Fec.Transmission
import WrSwitch.Fec.RoundTrip
import WrSwitch.Libwr.PortBitmap
import WrSwitch.Machine.Keyed
import WrSwitch.Snmp.FdbTables
import WrSwitch.Snmp.FdbViews
import WrSwitch.Machine.Crc
import WrSwitch.Rtu.HashCrc
import WrSwitch.Rtu.StaticEntries
import WrSwitch.Rtu.Anchored
import WrSwitch.Rtu.Learning
import WrSwitch.Rtu.LearningRuns
import WrSwitch.Rtu.Latest
import WrSwitch.Libwr.SfpWrite
import WrSwitch.Tools.PortList
import WrSwitch.Tools.PortOptions
import WrSwitch.Machine.FirstMatch
import WrSwitch.Libwr.SfpDb
import WrSwitch.Hal.SfpPoll
import WrSwitch.Hal.Timers
import WrSwitch.Hal.Timeouts
import WrSwitch.Hal.HeldRuns
import WrSwitch.Hal.TxRetries
import WrSwitch.Hal.PhaseWindow
import WrSwitch.Hal.HeldPort
import WrSwitch.Libwr.PtpdNetif
import WrSwitch.Machine.Timeline
import WrSwitch.Tools.LeapSeconds
import WrSwitch.Machine.Recency
import WrSwitch.RadiusVlan.Servers
import WrSwitch.Machine.Decimal
import WrSwitch.Tools.TimeLib
import WrSwitch.Tools.WrDate
import WrSwitch.Ppsg.Counter
import WrSwitch.Ppsg.Clocksource
import WrSwitch.Nic.Timestamps
import WrSwitch.Nic.Packets
import WrSwitch.Nic.PacketPaths
import WrSwitch.Nic.Wakeups
import WrSwitch.Wdog.Swcore
import WrSwitch.Libwr.I2cBitbang
import WrSwitch.Libwr.SfpBuses
import WrSwitch.Libwr.SfpMemory
import WrSwitch.Machine.TwoWireRecovery
import WrSwitch.Libwr.I2cReset
import WrSwitch.Libwr.I2cFpga
import WrSwitch.Libwr.SfpGpio
import WrSwitch.Hal.PortLeds
