import FsBridge.Lib.Machine
import FsBridge.Bridge.Session
import FsBridge.Bridge.SessionQueue
import FsBridge.Bridge.SessionLaws
import FsBridge.Pipeline.Cascade
import FsBridge.Pipeline.CascadeTurns
import FsBridge.Pipeline.CascadeBargeIn
import FsBridge.Bridge.Esl
import FsBridge.Bridge.EslClient
import FsBridge.Bridge.EslClientLink
import FsBridge.Bridge.EslReplies
import FsBridge.Module.StreamFrame
import FsBridge.Module.StartFailure
import FsBridge.Module.UplinkConservation
import FsBridge.Lib.Framing
import FsBridge.Bridge.Control
import FsBridge.Bridge.ControlFraming
import FsBridge.Bridge.OriginateVars
import FsBridge.Lib.Path
import FsBridge.Lib.Utf8
import FsBridge.Lib.Utf8Form
import FsBridge.Lib.JsonText
import FsBridge.Lib.JsonString
import FsBridge.Lib.Rfc3339
import FsBridge.Bridge.Bundle
import FsBridge.Bridge.RecordingPaths
import FsBridge.Bridge.Routes
import FsBridge.Lib.Cells
import FsBridge.Lib.Fs
import FsBridge.Lib.Slice
import FsBridge.Bridge.Recorder
import FsBridge.Bridge.RecordingAudio
import FsBridge.Bridge.RecordingContent
import FsBridge.Bridge.RecordingTracks
import FsBridge.Bridge.RecorderSteps
import FsBridge.Bridge.RecorderIsolation
import FsBridge.Bridge.Sweeper
import FsBridge.Pipeline.CascadeContexts
import FsBridge.Pipeline.CascadeHistory
import FsBridge.Bridge.SessionBlocking
import FsBridge.Pipeline.DownlinkSamples
import FsBridge.Pipeline.DownlinkHalves
import FsBridge.Module.PlaybackFifo
import FsBridge.Module.PlaybackOverflow
import FsBridge.Module.PlaybackResampling
import FsBridge.Bridge.ServeWS
import FsBridge.Cmd.Lifecycle
import FsBridge.Cmd.Shutdown
import FsBridge.Module.InitialMetadata
import FsBridge.Module.LockLifetime
import FsBridge.Bridge.QueryParams
import FsBridge.Module.StreamUri
import FsBridge.Module.Utf8Check
import FsBridge.Module.TextCommands
import FsBridge.Module.UriGrammar
import FsBridge.Module.Handshake
import FsBridge.Bridge.ControlReplies
import FsBridge.Bridge.EslFraming
import FsBridge.Bridge.EslTotal
import FsBridge.Bridge.EventBus
import FsBridge.Bridge.EslHandshake
import FsBridge.Bridge.EslClose
import FsBridge.Bridge.CallEvents
import FsBridge.Bridge.ControlEvents
import FsBridge.Bridge.Agent
import FsBridge.Bridge.AgentTrace
import FsBridge.Bridge.EventTimeline
import FsBridge.Bridge.FinishWait
import FsBridge.Bridge.FinishInvariant
import FsBridge.Bridge.FinishProgress
import FsBridge.Bridge.RecordingAlignment
import FsBridge.Bridge.RecordingHeader
import FsBridge.Bridge.RecordingList
import FsBridge.Bridge.RecordingMeta
import FsBridge.Bridge.LokiBatching
import FsBridge.Bridge.LokiLines
import FsBridge.Bridge.SweepPass
import FsBridge.Bridge.RecordingFaults
import FsBridge.Lib.Resample
import FsBridge.Providers.ResamplePCM16
import FsBridge.Providers.OpenAIASR
import FsBridge.Providers.OpenAITTS
import FsBridge.Lib.Word
import FsBridge.Providers.ResampleLoop
import FsBridge.Module.ClientConfig
import FsBridge.Module.BufferSizes
import FsBridge.Pipeline.MockTone
import FsBridge.Lib.Consumer
import FsBridge.Lib.Utf8Scan
import FsBridge.Lib.WsFrame
import FsBridge.Lib.WsStream
import FsBridge.Libwsc.Utf8Validator
import FsBridge.Libwsc.Deflate
import FsBridge.Libwsc.Receiver
import FsBridge.Libwsc.ReceiverFrames
import FsBridge.Libwsc.Messages
import FsBridge.Libwsc.Delivery
import FsBridge.Libwsc.Send
import FsBridge.Libwsc.Upgrade
import FsBridge.Libwsc.Context
import FsBridge.Libwsc.Client
import FsBridge.Libwsc.ContextMoves
import FsBridge.Libwsc.ContextLaws
import FsBridge.Libwsc.ClientLaws
import FsBridge.Libwsc.ClientSteps
import FsBridge.Libwsc.ContextWire
import FsBridge.Libwsc.Outbound
import FsBridge.Libwsc.ContextCallbacks
import FsBridge.Libwsc.SendQueue
import FsBridge.Libwsc.Closing
import FsBridge.Libwsc.Inbound
import FsBridge.Libwsc.LateStop
import FsBridge.Module.Downlink
