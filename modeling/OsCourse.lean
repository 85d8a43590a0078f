import OsCourse.Transition
import OsCourse.Stdio
import OsCourse.FileCompare
import OsCourse.FileCopy
import OsCourse.FifoTransfer
import OsCourse.WordXor
import OsCourse.CharDevice
import OsCourse.KeyChange
import OsCourse.ConcurrentKeys
import OsCourse.FailedWrite
import OsCourse.ModuleInit
import OsCourse.EncryptedPage
import OsCourse.DeviceAccess
import OsCourse.DeviceSecrecy
import OsCourse.CursorList
import OsCourse.PageSequence
import OsCourse.SequenceSecrecy
import OsCourse.SequenceSafety
import OsCourse.ReactorLoop
import OsCourse.DispatchPass
import OsCourse.ReactServer
import OsCourse.ReactorLiveness
import OsCourse.ClientTable
import OsCourse.PrimeCheck
import OsCourse.Pipeline
import OsCourse.PipelineOrder
import OsCourse.PipelineCompleteness
import OsCourse.PipelineIsolation
import OsCourse.ActiveObject
import OsCourse.TaskQueue
import OsCourse.CString
import OsCourse.Codec
import OsCourse.StShell
import OsCourse.ShellPipeline
import OsCourse.ShellDescriptors
import OsCourse.ShellProcesses
import OsCourse.PipeDeadlock
import OsCourse.Decimal
import OsCourse.ControlMessages
import OsCourse.FileChecksum
import OsCourse.TransferVerdict
import OsCourse.QuietMode
import OsCourse.TestSelection
import OsCourse.CInt
import OsCourse.SendFile
import OsCourse.ReceiveFile
import OsCourse.SharedName
import OsCourse.ElapsedTime
import OsCourse.FileSizes
import OsCourse.DifferenceReport
import OsCourse.CopyOptions
import OsCourse.ShellInput
import OsCourse.ChatBuffer
import OsCourse.MessageDisplay
import OsCourse.QueueRefinement
import OsCourse.PipelineTermination
import OsCourse.ChatTurns
import OsCourse.SequenceMemory
import OsCourse.DescriptorNumbers
import OsCourse.BasicShell
import OsCourse.SharedFile
import OsCourse.ReactorRun
import OsCourse.DriverLifetime
import OsCourse.Halting
import OsCourse.PerformanceTest
import OsCourse.PerformanceCalls
import OsCourse.PerformanceMeeting
import OsCourse.CheckedCopy
