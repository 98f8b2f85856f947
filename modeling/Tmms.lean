import Tmms.ConnectionOutput
import Tmms.ConnectionClose
import Tmms.WriteLoop
import Tmms.Backlog
import Tmms.WriteComplete
import Tmms.WriteInterest
import Tmms.Ring
import Tmms.Timers
import Tmms.TimersInvariant
import Tmms.TimersContract
import Tmms.TimerFiring
import Tmms.TimerCascade
import Tmms.IdleTimeout
import Tmms.FunctorQueue
import Tmms.EventLoop
import Tmms.Registration
import Tmms.Dispatch
import Tmms.TcpServer
import Tmms.ConnectionLifetime
import Tmms.TTime
import Tmms.WheelClock
import Tmms.WheelPace
import Tmms.TaksMgr
import Tmms.TaskPeriods
import Tmms.TaskOnce
import Tmms.FileMgr
import Tmms.LogRotation
import Tmms.MsgBuffer
import Tmms.TcpInput
import Tmms.Framing
import Tmms.TestContext
import Tmms.ParseMessage
import Tmms.UdpOutput
import Tmms.UdpInput
import Tmms.Transition
import Tmms.WakeUp
import Tmms.LoopGroup
import Tmms.EdgePoll
import Tmms.LoopDeadlock
import Tmms.OutputReadiness
import Tmms.AfterClose
import Tmms.UdpClose
import Tmms.Reconnect
import Tmms.ConnectionTable
import Tmms.EdgeHandlers
import Tmms.RoundRobin
import Tmms.DnsService
import Tmms.EventLoopThread
import Tmms.TimerSlots
import Tmms.RefusedDelay
import Tmms.PeriodicTimers
import Tmms.UdpOnce
import Tmms.EventInterest
import Tmms.ConnectStatus
import Tmms.Activation
import Tmms.CalendarCheck
import Tmms.FailedRotation
import Tmms.Scripted
import Tmms.TaskCallbacks
import Tmms.Config
import Tmms.InetAddress
import Tmms.AddressRoundTrip
import Tmms.Occurrence
import Tmms.Substrings
import Tmms.PathParts
import Tmms.DottedQuad
import Tmms.AddressClass
import Tmms.HostInfo
import Tmms.ReentrantRecords
import Tmms.Channel
import Tmms.ConnectionStream
import Tmms.MessageReceiver
import Tmms.MessageChannel
import Tmms.LoopObject
import Tmms.PostedSends
import Tmms.MessagePipeline
import Tmms.ReentrantSimulation
import Tmms.TcpConnectionSeen
import Tmms.PolledSender
import Tmms.PolledReceiver
import Tmms.PolledInput
import Tmms.PolledChannel
import Tmms.ByteQueue
import Tmms.MessageFormat
import Tmms.TimerCalendar
import Tmms.TimerSeconds
import Tmms.PostedTimers
import Tmms.SplitJoin
import Tmms.UdpChannel
import Tmms.FixedWidth
import Tmms.IsoTime
import Tmms.LogFiles
import Tmms.LogStream
import Tmms.LogLines
import Tmms.LogOrder
import Tmms.LogNames
import Tmms.Program
