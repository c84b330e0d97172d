import Streambox.Lib.BitStream
import Streambox.Lib.Blocks
import Streambox.Lib.Run
import Streambox.Lib.SlotPool
import Streambox.Lib.Custody
import Streambox.Lib.DueQueue
import Streambox.Lib.Brackets
import Streambox.Lib.Align
import Streambox.Lib.LengthPrefix
import Streambox.Lib.Fallible
import Streambox.Lib.BitField
import Streambox.Lib.Prediction
import Streambox.Lib.Crc
import Streambox.Lib.Counter
import Streambox.Shader.P010
import Streambox.Shader.Vdin1Amly
import Streambox.Shader.AmlyToP010
import Streambox.Shader.AmlyToNv12
import Streambox.Shader.Bounds
import Streambox.Shader.PairReaders
import Streambox.Vfmcap.Capture
import Streambox.Vfmcap.Calls
import Streambox.Vfmcap.Tokens
import Streambox.Vfmcap.SignalProtocol
import Streambox.Vfmcap.Signal
import Streambox.PathB.Pipeline
import Streambox.PathB.Lookahead
import Streambox.PathB.Ownership
import Streambox.PathB.Engine
import Streambox.PathB.CallSpec
import Streambox.PathB.Sessions
import Streambox.PathB.SignalEvents
import Streambox.Element.Lifecycle
import Streambox.Element.LateRelease
import Streambox.Element.PathBFailure
import Streambox.Element.PathBStart
import Streambox.Element.PlaneLayout
import Streambox.Element.SourceFrameRate
import Streambox.Element.OutputFormat
import Streambox.Element.FrameCustody
import Streambox.Vulkan.ImportCaches
import Streambox.Vulkan.OutputLayouts
import Streambox.Vulkan.OutputPools
import Streambox.Vulkan.Exclusive
import Streambox.Vulkan.Renders
import Streambox.Vulkan.Fence
import Streambox.Vfmcap.Resources
import Streambox.Vfmcap.Conversion
import Streambox.Vfmcap.Decimation
import Streambox.Vfmcap.FrameRate
import Streambox.Vfmcap.ReconfigFailure
import Streambox.Vfmcap.Timeouts
import Streambox.Vulkan.DmabufCache
import Streambox.Vulkan.ImageCache
import Streambox.Vulkan.PoolSetup
import Streambox.Vulkan.Descriptors
import Streambox.Vulkan.Reconfigure
import Streambox.Vulkan.Sync
import Streambox.WifiDisplay.RtpSink
import Streambox.WifiDisplay.RtpPacket
import Streambox.WifiDisplay.RtpParser
import Streambox.WifiDisplay.RtcpParser
import Streambox.WifiDisplay.TunnelRenderer
import Streambox.WifiDisplay.LossConcealment
import Streambox.WifiDisplay.Reception
import Streambox.WifiDisplay.ReorderQueue
import Streambox.WifiDisplay.StreamSource
import Streambox.WifiDisplay.HandOff
import Streambox.WifiDisplay.ParsedMessage
import Streambox.WifiDisplay.NetworkSession
import Streambox.WifiDisplay.Looper
import Streambox.WifiDisplay.Transport
import Streambox.WifiDisplay.StreamLink
import Streambox.WifiDisplay.NetworkThread
import Streambox.WifiDisplay.RtspText
import Streambox.WifiDisplay.DisplaySink
import Streambox.WifiDisplay.PeerChecks
import Streambox.WifiDisplay.RefBase
import Streambox.Adpcm.Blocks
import Streambox.Adpcm.ImaBlock
import Streambox.Adpcm.MsBlock
import Streambox.Adpcm.Decoder
import Streambox.Adpcm.Framing
import Streambox.Adpcm.Headers
import Streambox.Adpcm.Resume
import Streambox.Adpcm.Provenance
import Streambox.Adpcm.InBounds
import Streambox.Aac.Wrapper
import Streambox.Aac.SyncWord
import Streambox.V4l2Dec.OutputPort
import Streambox.V4l2Dec.CaptureBuffers
import Streambox.V4l2Dec.DemuxPackets
import Streambox.V4l2Dec.DemuxHeaders
import Streambox.V4l2Dec.DroppedPackets
import Streambox.V4l2Dec.Superframe
import Streambox.Flac.BitReader
import Streambox.Flac.Golomb
import Streambox.Flac.Residuals
import Streambox.Flac.Prediction
import Streambox.Flac.Subframe
import Streambox.Flac.FrameHeader
import Streambox.Flac.Frame
import Streambox.Flac.Metadata
import Streambox.Flac.AudioDecode
import Streambox.Flac.Pcm
import Streambox.Flac.Stream
