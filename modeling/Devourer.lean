import Devourer.Lib.Runs
import Devourer.Lib.Network
import Devourer.Lib.Octets
import Devourer.Lib.Wire
import Devourer.Lib.SlidingWindow
import Devourer.Lib.Bits
import Devourer.Lib.BitStream
import Devourer.Lib.RingBuffer
import Devourer.Lib.Samples
import Devourer.Lib.Shuffle
import Devourer.Lib.Fetch
import Devourer.Lib.Bitmap
import Devourer.Lib.Layout
import Devourer.Lib.Signed
import Devourer.Lib.Triples
import Devourer.Lib.Circular
import Devourer.Lib.RingQueue
import Devourer.Lib.Memory
import Devourer.Lib.Tally
import Devourer.Lib.Packed
import Devourer.Lib.Pick
import Devourer.Lib.DoubleOps
import Devourer.Lib.Deadlines
import Devourer.Lib.Segments
import Devourer.Lib.SegmentReaders
import Devourer.Lib.Reach
import Devourer.Lib.Marks
import Devourer.Lib.Mixers
import Devourer.Lib.Progression
import Devourer.Lib.Adjacent
import Devourer.Lib.Branches
import Devourer.HopSchedule
import Devourer.Event
import Devourer.EventLines
import Devourer.Chanmig.ChannelDef
import Devourer.Chanmig.ChannelBins
import Devourer.Chanmig.ScanText
import Devourer.Chanmig.ScanPlan
import Devourer.Chanmig.ScanFairness
import Devourer.Chanmig.MigTypes
import Devourer.Chanmig.ReplayWindow
import Devourer.Chanmig.MigProposer
import Devourer.Chanmig.MigResponder
import Devourer.Chanmig.MigEffects
import Devourer.Chanmig.MigLink
import Devourer.Chanmig.MigActivation
import Devourer.Chanmig.MigAck
import Devourer.Chanmig.MigNonce
import Devourer.Chanmig.DroneMoves
import Devourer.Chanmig.MigReplay
import Devourer.Chanmig.DroneRadio
import Devourer.Chanmig.DronePump
import Devourer.Chanmig.GroundMoves
import Devourer.Chanmig.MigForeign
import Devourer.Chanmig.GroundRadio
import Devourer.Chanmig.MigWire
import Devourer.Chanmig.MigGate
import Devourer.Chanmig.GateHistory
import Devourer.Chanmig.MoveBudget
import Devourer.Chanmig.CommitInstant
import Devourer.Chanmig.JsonlLite
import Devourer.Chanmig.JsonlReads
import Devourer.Chanmig.SurveyJsonl
import Devourer.Chanmig.TokenReads
import Devourer.Chanmig.PlanGrammar
import Devourer.Chanmig.SurveyReads
import Devourer.Chanmig.SurveyRoundTrip
import Devourer.Chanmig.EvidenceStore
import Devourer.Chanmig.EvidenceOrigin
import Devourer.Chanmig.ActiveLink
import Devourer.Chanmig.ChannelScore
import Devourer.Chanmig.Recommend
import Devourer.Chanmig.RoundCount
import Devourer.Chanmig.MigAccounts
import Devourer.Chanmig.MigBounds
import Devourer.Sensing.DwellExecutor
import Devourer.Hopset.HopsetState
import Devourer.Hopset.HopsetTypes
import Devourer.Hopset.HopsetWire
import Devourer.Hopset.HopsetAuthority
import Devourer.Hopset.AuthorityMoves
import Devourer.Hopset.HopsetLimits
import Devourer.Hopset.HopsetLead
import Devourer.Hopset.HopsetReplay
import Devourer.Hopset.HopsetFollower
import Devourer.Hopset.FollowerMoves
import Devourer.Hopset.HopsetLink
import Devourer.Hopset.HopsetForward
import Devourer.Hopset.HopsetSchedule
import Devourer.Hopset.HopsetCodec
import Devourer.Hopset.HopsetPolicy
import Devourer.Hopset.PolicyHistory
import Devourer.Hopset.HopsetSense
import Devourer.Hopset.HopsetFusion
import Devourer.Hopset.FusionLaws
import Devourer.Hopset.SenseAbsence
import Devourer.Hopset.FeedbackAge
import Devourer.Hopset.FollowerAnchors
import Devourer.Hopset.HopsetProbes
import Devourer.Hopset.BandReadings
import Devourer.Hopset.SenseEvidence
import Devourer.Hopset.CommitReasons
import Devourer.Cell.RxReceipt
import Devourer.Cell.ReceiptLaws
import Devourer.Cell.ReceiptCoverage
import Devourer.TxAggPlan
import Devourer.TxAggGuard
import Devourer.Sta.CryptoOps
import Devourer.Sta.Dot11
import Devourer.Sta.RsnElement
import Devourer.Sta.RsnDowngrade
import Devourer.Sta.BssTable
import Devourer.Sta.BssFlood
import Devourer.Sta.Eapol
import Devourer.Sta.Supplicant
import Devourer.Sta.SupplicantState
import Devourer.Sta.SupplicantLaws
import Devourer.Sta.SupplicantReplay
import Devourer.Sta.StationSm
import Devourer.Sta.StationState
import Devourer.Sta.StationLaws
import Devourer.Sta.BssSelect
import Devourer.Sta.StationQueue
import Devourer.Sta.CcmpReplay
import Devourer.Sta.Ccmp
import Devourer.Sta.FourWayDeadline
import Devourer.Sta.CcmpFields
import Devourer.Sta.EapolRoundTrip
import Devourer.Sta.KeyDataReads
import Devourer.Sta.KeyDataGrammar
import Devourer.Radio.AckResponder
import Devourer.Radio.ArmLaws
import Devourer.Usb.RxOwnership
import Devourer.Usb.RxTransfers
import Devourer.Usb.RxPayloads
import Devourer.Usb.RxParking
import Devourer.Usb.TxQuiesce
import Devourer.Usb.CtrlBatch
import Devourer.Usb.CtrlLaws
import Devourer.Usb.CtrlReplay
import Devourer.Usb.WriteBatch
import Devourer.Usb.WriteLedger
import Devourer.Usb.WriteVerdict
import Devourer.Pcie.BufferDescriptor
import Devourer.Pcie.Dma88xx
import Devourer.Pcie.Completion88xx
import Devourer.Pcie.DmaAx
import Devourer.Pcie.WdPages
import Devourer.Pcie.PagesInUse
import Devourer.Pcie.RxDrain
import Devourer.Pcie.RxReassembly
import Devourer.Mt7612u.Radiotap
import Devourer.Mt7612u.TxBuild
import Devourer.Mt7612u.SendPackets
import Devourer.Mt7612u.RxParse
import Devourer.Mt7612u.HeaderPad
import Devourer.Mt7612u.RadiotapReads
import Devourer.Mt7612u.RadiotapFields
import Devourer.Mt7612u.RadiotapRate
import Devourer.Mt7612u.RxQueue
import Devourer.Mt7612u.AsyncRing
import Devourer.Mt7612u.RingAccounts
import Devourer.Mt7612u.RingStops
import Devourer.Mt7612u.StationIdentity
import Devourer.Mt7612u.StationFilter
import Devourer.Jaguar1.FrameParser
import Devourer.FrameParsers
import Devourer.TriggerTwt
import Devourer.TriggerParse
import Devourer.Kestrel.SchedEncode
import Devourer.BfReportDecode
import Devourer.BfReportSplit
import Devourer.SweepSpec
import Devourer.Chanmig.PrimaryFeed
import Devourer.StreamTelemetry
import Devourer.Jaguar3.PhyTableLoader
import Devourer.Jaguar3.TxPktPwrBanks
import Devourer.ToneMask
import Devourer.ToneTables
import Devourer.Mt7612u.Mcu
import Devourer.Radio.RadiotapIterator
import Devourer.Kestrel.TxRate
import Devourer.Jaguar3.SendPackets
import Devourer.Sta.StaClient
import Devourer.Sta.StaKeys
import Devourer.Sta.StaLink
import Devourer.Sta.StaDelivery
