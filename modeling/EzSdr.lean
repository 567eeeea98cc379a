import EzSdr.Framework.Machine
import EzSdr.Framework.BTreeMap
import EzSdr.Framework.Fallible
import EzSdr.StreamQueue.Model
import EzSdr.StreamQueue.Steps
import EzSdr.StreamQueue.Invariant
import EzSdr.StreamQueue.Channel
import EzSdr.StreamQueue.Conservation
import EzSdr.StreamQueue.Critical
import EzSdr.StreamQueue.GapPlacement
import EzSdr.ModeS.Crc
import EzSdr.ModeS.Correct
import EzSdr.ModeS.IcaoFilter
import EzSdr.ModeS.Score
import EzSdr.ModeS.Parity
import EzSdr.Ingest.Source
import EzSdr.Ingest.Loop
import EzSdr.Ingest.ProductSession
import EzSdr.Ingest.Receipt
import EzSdr.Ingest.ReceiptLaw
import EzSdr.Ingest.ReceiptShape
import EzSdr.Ingest.ReceiptCommands
import EzSdr.Ingest.ReceiptRun
import EzSdr.Daemon.Channelizer
import EzSdr.Daemon.Spec
import EzSdr.Daemon.State
import EzSdr.Daemon.Geometry
import EzSdr.Framework.BoundedQueue
import EzSdr.Broadcast.Model
import EzSdr.Broadcast.Accounting
import EzSdr.Broadcast.Order
import EzSdr.Lrpt.Interleaver
import EzSdr.Lrpt.FrameSync
import EzSdr.Lrpt.Ccsds
import EzSdr.Lrpt.CcsdsSound
import EzSdr.Lrpt.CcsdsRoundTrip
import EzSdr.Lrpt.ImageBuilder
import EzSdr.Lrpt.ImageOrder
import EzSdr.Lrpt.ViterbiDecode
import EzSdr.ModeS.CprPairing
import EzSdr.Uat.Chunks
import EzSdr.Capture.RecordingRun
import EzSdr.Capture.TelemetryRun
import EzSdr.ModeS.Authority
import EzSdr.Ingest.EpochLaw
import EzSdr.Capture.ChannelRun
import EzSdr.Lrpt.ReedSolomon
import EzSdr.Rds.Resync
import EzSdr.LocalCapture.RecorderRun
import EzSdr.LocalCapture.AdsbRun
import EzSdr.StreamQueue.Fairness
import EzSdr.Lrpt.ViterbiMetrics
import EzSdr.ModeS.TwoBit
import EzSdr.Hardware.CallbackIq
import EzSdr.Daemon.Reconfigure
import EzSdr.Audio.RateConverter
import EzSdr.Capture.Spectrum
import EzSdr.ModeS.IcaoHistory
import EzSdr.ModeS.CrcPolynomial
import EzSdr.ModeS.BeastFrames
import EzSdr.Capture.Clock
import EzSdr.Lrpt.ImageBounds
import EzSdr.Scan.HitList
import EzSdr.Framework.GridSamples
import EzSdr.Scan.FixedCapture
import EzSdr.Rds.RadioText
import EzSdr.LocalCapture.Radio
import EzSdr.Framework.Runs
import EzSdr.Client.ControlQueue
import EzSdr.Receiver.MessageRate
import EzSdr.Passes.Scheduler
import EzSdr.Gain.Partition
import EzSdr.Audio.Playback
import EzSdr.Scan.Observation
import EzSdr.Audio.OutputBuffer
import EzSdr.Capture.Chunking
import EzSdr.Receiver.Stats
import EzSdr.Client.MqttPending
import EzSdr.Receiver.PacketTable
import EzSdr.Client.Settings
import EzSdr.ModeS.Demodulate
import EzSdr.LocalCapture.RadioRun
import EzSdr.Daemon.Server
import EzSdr.Uat.ReedSolomon
import EzSdr.Lrpt.InterleavedLink
