import ZeusLe.Library.BitField
import ZeusLe.Library.Decimal
import ZeusLe.Library.DelayedWork
import ZeusLe.Library.Fields
import ZeusLe.Library.Handles
import ZeusLe.Library.LittleEndian
import ZeusLe.Library.Log
import ZeusLe.Library.Loop
import ZeusLe.Library.Overwrite
import ZeusLe.Library.Owners
import ZeusLe.Library.Riff
import ZeusLe.Library.Run
import ZeusLe.Library.Segments
import ZeusLe.Library.Snapshot
import ZeusLe.Library.Takes
import ZeusLe.Library.Versions
import ZeusLe.Library.Word
import ZeusLe.FileSystem
import ZeusLe.WavFile
import ZeusLe.Record
import ZeusLe.WavSizes
import ZeusLe.WavUpdate
import ZeusLe.WavContents
import ZeusLe.RecordLifecycle
import ZeusLe.RecordStream
import ZeusLe.RecordLed
import ZeusLe.RecordContinuity
import ZeusLe.RecordPlayback
import ZeusLe.RecordRestart
import ZeusLe.RecordNames
import ZeusLe.RecordScan
import ZeusLe.RecordPrefix
import ZeusLe.Audio
import ZeusLe.AudioPairing
import ZeusLe.RecordTiming
import ZeusLe.RecordSplit
import ZeusLe.RecordAlignment
import ZeusLe.Protocol
import ZeusLe.SyncTimer
import ZeusLe.FreqControl
import ZeusLe.FreqResync
import ZeusLe.AudioSync
import ZeusLe.CentralTiming
import ZeusLe.SamplingGrid
import ZeusLe.Mgr
import ZeusLe.MgrCoroutine
import ZeusLe.MgrActivation
import ZeusLe.CentralScan
import ZeusLe.PairRequest
import ZeusLe.CentralSync
import ZeusLe.CentralPairing
import ZeusLe.Broadcast
import ZeusLe.ClockPairing
import ZeusLe.ClockLatency
import ZeusLe.CommandDelivery
import ZeusLe.CentralControl
import ZeusLe.RecordingAgreement
import ZeusLe.DiskCache
import ZeusLe.DiskCacheInvariant
import ZeusLe.DiskCacheCoherence
import ZeusLe.DiskCacheTransparency
import ZeusLe.ChargerMfd
import ZeusLe.ChargerEvents
import ZeusLe.ChargerCurrent
import ZeusLe.ChargerRegisters
import ZeusLe.LedCurrent
import ZeusLe.LedPattern
import ZeusLe.Lp58xxEngine
import ZeusLe.LedPrograms
import ZeusLe.LedSync
import ZeusLe.InputCodec
import ZeusLe.AudioSettings
import ZeusLe.SettingsPersistence
import ZeusLe.SettingsKeys
import ZeusLe.CodecProperties
import ZeusLe.CodecRegisters
import ZeusLe.FtpLine
import ZeusLe.FtpFraming
import ZeusLe.FtpOverflow
import ZeusLe.FtpPath
import ZeusLe.FtpPathBuffer
import ZeusLe.FtpTrim
import ZeusLe.FtpFiles
import ZeusLe.Ftp
import ZeusLe.FtpSteps
import ZeusLe.FtpServer
import ZeusLe.FtpResponse
import ZeusLe.FtpArgument
import ZeusLe.FtpTransfer
import ZeusLe.FtpPathCommands
import ZeusLe.FtpSessions
import ZeusLe.FtpSockets
import ZeusLe.FtpDispatch
import ZeusLe.AdvCodec
import ZeusLe.SdCard
import ZeusLe.HciIpc
import ZeusLe.HciDelivery
