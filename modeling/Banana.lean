import Banana.MultiThreading.RingBufferWakeup
import Banana.MultiThreading.Shutdown
import Banana.MultiThreading.ConcurrentHashMap
import Banana.MultiThreading.WaitFreeConcurrentRingBuffer
import Banana.MultiThreading.MessageCenter
import Banana.Network.NetWorkService
import Banana.Network.ReactorHistory
import Banana.Network.ExactReceive
import Banana.Network.TcpServerStartUp
import Banana.Examples.ConcurrentConnection
import Banana.Examples.ConcurrenceSimulateServer
import Banana.Examples.OversizeFrames
import Banana.Examples.MapReduceIsolation
import Banana.Network.ExactSend
import Banana.MultiThreading.GetTaskRef
import Banana.MultiThreading.RingBufferInterchange
import Banana.Network.NetAcceptService
import Banana.Network.AddEventHandler
import Banana.Network.Connector
import Banana.Network.StreamRequests
import Banana.Network.AcceptPath
import Banana.Network.ReactorRelease
import Banana.MultiThreading.MessageCenterInstance
import Banana.Network.RequestOverlap
import Banana.Examples.MapReduceRobustness
import Banana.Network.StreamIsolation
import Banana.Network.AcceptTasks
import Banana.Examples.SimulateProgress
import Banana.Examples.EchoClients
