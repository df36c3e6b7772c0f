import LinkFPGA.Library.Runs
import LinkFPGA.Library.LatestWins
import LinkFPGA.Library.Network
import LinkFPGA.Library.SlotTable
import LinkFPGA.Library.RingQueue
import LinkFPGA.Library.Sweep
import LinkFPGA.Library.Blocks
import LinkFPGA.Library.Clocked
import LinkFPGA.Library.Sampling
import LinkFPGA.Library.Serial
import LinkFPGA.Library.Threshold
import LinkFPGA.Library.Sessions
import LinkFPGA.Library.SharedStream
import LinkFPGA.Library.CString
import LinkFPGA.Library.Heartbeat
import LinkFPGA.Library.Json
import LinkFPGA.Library.KeyedWrites
import LinkFPGA.Library.Roster
import LinkFPGA.Library.Ledger
import LinkFPGA.Library.Selection
import LinkFPGA.Library.Overflow
import LinkFPGA.Library.Reanchor
import LinkFPGA.Firmware.Types
import LinkFPGA.Firmware.Tlv
import LinkFPGA.Firmware.Memory
import LinkFPGA.Firmware.Median
import LinkFPGA.Firmware.CheckedMedian
import LinkFPGA.Firmware.Clock
import LinkFPGA.Firmware.Measurement
import LinkFPGA.Firmware.BeatPulse
import LinkFPGA.Firmware.World
import LinkFPGA.Firmware.Session
import LinkFPGA.Firmware.Link
import LinkFPGA.Firmware.Main
import LinkFPGA.Firmware.CheckedArithmetic
import LinkFPGA.Firmware.AudioState
import LinkFPGA.Firmware.AudioBuffer
import LinkFPGA.Firmware.AudioCatalog
import LinkFPGA.Firmware.LinkAudio
import LinkFPGA.Firmware.AudioSend
import LinkFPGA.Firmware.Tdm
import LinkFPGA.Firmware.SyncSources
import LinkFPGA.Firmware.HttpServer
import LinkFPGA.Firmware.HttpResponse
import LinkFPGA.Firmware.WebUi
import LinkFPGA.Firmware.Device
import LinkFPGA.Firmware.GhostTime
import LinkFPGA.Gateware.GhostTime
import LinkFPGA.Gateware.BeatPulse
import LinkFPGA.Gateware.Midi
import LinkFPGA.Gateware.Tdm
import LinkFPGA.Gateware.Eurorack
import LinkFPGA.Proofs.Supervisor
import LinkFPGA.Proofs.Housekeeping
import LinkFPGA.Proofs.PeerTable
import LinkFPGA.Proofs.SessionTracking
import LinkFPGA.Proofs.PeerMeasurements
import LinkFPGA.Proofs.Drift
import LinkFPGA.Proofs.Merging
import LinkFPGA.Proofs.WalkBounds
import LinkFPGA.Proofs.TlvCodec
import LinkFPGA.Proofs.MedianSelection
import LinkFPGA.Proofs.MeasurementRuns
import LinkFPGA.Proofs.Accuracy
import LinkFPGA.Proofs.DiscoveryCodec
import LinkFPGA.Proofs.PeerMap
import LinkFPGA.Proofs.Tempo
import LinkFPGA.Proofs.BeatContinuity
import LinkFPGA.Proofs.StatusFlags
import LinkFPGA.Proofs.Adoption
import LinkFPGA.Proofs.AliveSchedule
import LinkFPGA.Proofs.Sending
import LinkFPGA.Proofs.PeerRecords
import LinkFPGA.Proofs.EntryOrder
import LinkFPGA.Proofs.MalformedDiscovery
import LinkFPGA.Proofs.Election
import LinkFPGA.Proofs.ElectionCycles
import LinkFPGA.Proofs.AudioFrames
import LinkFPGA.Proofs.AudioWalk
import LinkFPGA.Proofs.AudioBodies
import LinkFPGA.Proofs.JitterRing
import LinkFPGA.Proofs.EntryBounds
import LinkFPGA.Proofs.ExactWalks
import LinkFPGA.Proofs.AudioAcceptance
import LinkFPGA.Proofs.AudioCodec
import LinkFPGA.Proofs.AudioStream
import LinkFPGA.Proofs.Announcement
import LinkFPGA.Proofs.AudioCalls
import LinkFPGA.Proofs.AnnouncementSize
import LinkFPGA.Proofs.AudioPath
import LinkFPGA.Proofs.Subscriptions
import LinkFPGA.Proofs.SubscriberList
import LinkFPGA.Proofs.SubscriberExpiry
import LinkFPGA.Proofs.Catalog
import LinkFPGA.Proofs.CatalogMessages
import LinkFPGA.Proofs.CatalogExpiry
import LinkFPGA.Proofs.AnnouncementRoundTrip
import LinkFPGA.Proofs.FrameService
import LinkFPGA.Proofs.SyncSources
import LinkFPGA.Proofs.EuroTempo
import LinkFPGA.Proofs.EuroJacks
import LinkFPGA.Proofs.HttpSegments
import LinkFPGA.Proofs.RequestBuffer
import LinkFPGA.Proofs.ContentLength
import LinkFPGA.Proofs.HttpResponses
import LinkFPGA.Proofs.HttpServing
import LinkFPGA.Proofs.PeerName
import LinkFPGA.Proofs.ChannelList
import LinkFPGA.Proofs.WebControl
import LinkFPGA.Proofs.HandlerReadings
import LinkFPGA.Proofs.MainLoop
import LinkFPGA.Proofs.BeatAgreement
import LinkFPGA.Proofs.PeerExpiry
import LinkFPGA.Proofs.Presence
import LinkFPGA.Proofs.HostTime
import LinkFPGA.Proofs.PulseTrain
import LinkFPGA.Proofs.BeatGrid
import LinkFPGA.Proofs.PulsePeriods
import LinkFPGA.Proofs.MidiTransmitter
import LinkFPGA.Proofs.MidiLoopback
import LinkFPGA.Proofs.MidiTransport
import LinkFPGA.Proofs.MidiStamps
import LinkFPGA.Proofs.MidiDataStream
import LinkFPGA.Proofs.TdmFrames
import LinkFPGA.Proofs.TdmReceive
import LinkFPGA.Proofs.FrameCounter
import LinkFPGA.Proofs.SignedOverflow
