import RemoteProcedure.Machine.Word
import RemoteProcedure.Machine.Memory
import RemoteProcedure.Machine.Decimal
import RemoteProcedure.Machine.Numeral
import RemoteProcedure.Machine.Atoi
import RemoteProcedure.Machine.Stream
import RemoteProcedure.Machine.Transition
import RemoteProcedure.Machine.Cursor
import RemoteProcedure.Data
import RemoteProcedure.Cleanup
import RemoteProcedure.Integer
import RemoteProcedure.IntegerField
import RemoteProcedure.Request
import RemoteProcedure.MessageCleanup
import RemoteProcedure.RequestStores
import RemoteProcedure.RequestDecode
import RemoteProcedure.RequestScan
import RemoteProcedure.RequestSafety
import RemoteProcedure.RequestCorruption
import RemoteProcedure.Answer
import RemoteProcedure.IntegerText
import RemoteProcedure.AnswerSafety
import RemoteProcedure.Mapper
import RemoteProcedure.Documentation
import RemoteProcedure.DocumentationSafety
import RemoteProcedure.DocumentationText
import RemoteProcedure.Receive
import RemoteProcedure.Client
import RemoteProcedure.RequestLength
import RemoteProcedure.RequestCleanup
import RemoteProcedure.Framing
import RemoteProcedure.Dispatch
import RemoteProcedure.RemoteCall
import RemoteProcedure.DispatchSafety
import RemoteProcedure.Server
import RemoteProcedure.Survival
import RemoteProcedure.Descriptors
import RemoteProcedure.Connection
import RemoteProcedure.OneAnswer
import RemoteProcedure.Sweep
import RemoteProcedure.SweepEnd
import RemoteProcedure.SweepRemoval
import RemoteProcedure.AnswerDelivery
import RemoteProcedure.MapperStores
import RemoteProcedure.Defaults
import RemoteProcedure.ClientSend
import RemoteProcedure.CommandLine
import RemoteProcedure.CommandGrammar
import RemoteProcedure.AtMostOnce
import RemoteProcedure.Tracking
import RemoteProcedure.Isolation
import RemoteProcedure.DefaultCalls
import RemoteProcedure.Shutdown
import RemoteProcedure.MapperHeap
import RemoteProcedure.ServerHeap
import RemoteProcedure.ClientRun
import RemoteProcedure.Outcome
import RemoteProcedure.Independence
import RemoteProcedure.Availability
import RemoteProcedure.Blocking
import RemoteProcedure.Reaping
