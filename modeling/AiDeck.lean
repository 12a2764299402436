import AiDeck.Lib.Bytes
import AiDeck.Crc32
import AiDeck.Uart.Protocol
import AiDeck.Uart.Invariant
import AiDeck.Uart.Bounds
import AiDeck.Uart.Windows
import AiDeck.Uart.Soundness
import AiDeck.Uart.InSync
import AiDeck.Uart.Resync
import AiDeck.Cpx.Types
import AiDeck.Host.Framing
import AiDeck.Cpx.ReceivePath
import AiDeck.Coroutine.List
import AiDeck.Lib.Transition
import AiDeck.Coroutine.Runtime
import AiDeck.Coroutine.Invariant
import AiDeck.Coroutine.WakeUp
import AiDeck.Cpx.SpiRequests
import AiDeck.Cpx.SendTask
import AiDeck.Cpx.SendTurns
import AiDeck.Cpx.SendSerial
import AiDeck.Cpx.SendOrder
import AiDeck.Cpx.Link
import AiDeck.Cpx.LinkTask
import AiDeck.Cpx.LinkInvariant
import AiDeck.Cpx.LinkSteps
import AiDeck.Cpx.LinkLoop
import AiDeck.Cpx.LinkRest
import AiDeck.Cpx.LinkOnce
import AiDeck.Lib.Fifo
import AiDeck.Lib.Ring
import AiDeck.Queues.Queue
import AiDeck.Queues.Refinement
import AiDeck.Queues.Async
import AiDeck.Queues.AsyncInvariant
import AiDeck.Queues.AsyncSignals
import AiDeck.Streamer.Packet
import AiDeck.Streamer.Send
import AiDeck.Streamer.Client
import AiDeck.Streamer.FrameRoundTrip
import AiDeck.Streamer.Receiver
import AiDeck.Streamer.ReceiverInvariant
import AiDeck.Streamer.Origin
import AiDeck.Streamer.BufferRoundTrip
import AiDeck.Streamer.ClientSound
import AiDeck.Host.UdpTransport
import AiDeck.Com.Packet
import AiDeck.Com.Transfer
import AiDeck.Host.UdpFresh
import AiDeck.Host.Reconnect
import AiDeck.Com.Routing
import AiDeck.Com.Task
import AiDeck.Com.TaskInvariant
import AiDeck.Com.TaskSafe
import AiDeck.Coroutine.GroupWait
import AiDeck.Wifi.Stream
import AiDeck.Wifi.Viewer
import AiDeck.Lib.Captures
import AiDeck.Wifi.Pipeline
import AiDeck.Wifi.PipelineInvariant
import AiDeck.Wifi.PipelineSafe
import AiDeck.Coroutine.Schedule
import AiDeck.Camera.Task
import AiDeck.Camera.Frame
import AiDeck.Camera.History
import AiDeck.Camera.Invariant
import AiDeck.Camera.TaskSteps
import AiDeck.Camera.Steps
import AiDeck.Camera.Contexts
import AiDeck.Camera.Safe
import AiDeck.Lib.Precedes
import AiDeck.Frontnet.Task
import AiDeck.Frontnet.State
import AiDeck.Frontnet.Contexts
import AiDeck.Frontnet.Invariant
import AiDeck.Frontnet.Completions
import AiDeck.Frontnet.Tasks
import AiDeck.Frontnet.Callback
import AiDeck.Frontnet.Safe
import AiDeck.Trace.Buffer
import AiDeck.Trace.Dump
import AiDeck.Rng
import AiDeck.Com.Console
import AiDeck.Wifi.Chunks
import AiDeck.Camera.Crop
import AiDeck.Camera.Himax
import AiDeck.Camera.Timing
import AiDeck.Coroutine.Ghost
import AiDeck.Coroutine.Restart
import AiDeck.Queues.Overwrite
import AiDeck.Lib.Duplex
import AiDeck.Cpx.SpiPayload
import AiDeck.Lib.Crc
import AiDeck.Crc32.Reflected
import AiDeck.Lib.Share
import AiDeck.Images.Kernels
import AiDeck.Images.KernelShares
import AiDeck.Lib.Loop
import AiDeck.Images.Resize
import AiDeck.Lib.Cores
import AiDeck.Lib.Summed
import AiDeck.Lib.Eliminate
import AiDeck.Lib.Regions
import AiDeck.Faces.Chunk
import AiDeck.Faces.Integral
import AiDeck.Faces.IntegralImage
import AiDeck.Faces.SquareRoot
import AiDeck.Faces.Window
import AiDeck.Faces.Cascade
import AiDeck.Faces.Suppress
import AiDeck.Faces.Resize
import AiDeck.Faces.L1Memory
import AiDeck.Lib.Decimal
import AiDeck.Images.Ppm
import AiDeck.Network.Allocator
import AiDeck.Network.Run
import AiDeck.Network.Shares
import AiDeck.Lib.Dot
import AiDeck.Lib.Tiles
import AiDeck.Lib.Convolution
import AiDeck.Lib.Copies
import AiDeck.Lib.Moves
import AiDeck.Network.Matmul
import AiDeck.Network.MaxPool
import AiDeck.Network.Conv
import AiDeck.Network.ConvCores
import AiDeck.Network.Linear
import AiDeck.Network.Dma
import AiDeck.Network.TileLoop
import AiDeck.Network.Tiling
import AiDeck.Network.ConvLayer
import AiDeck.Network.ConvTile
import AiDeck.Network.ConvRun
import AiDeck.Network.Pooling
import AiDeck.Network.FullyConnected
import AiDeck.Network.Frontnet
