import Hytch.FrameStream
import Hytch.Attachments
import Hytch.LogBoundaries
import Hytch.NothingTwice
import Hytch.NothingLost
import Hytch.SessionRevival
import Hytch.ClearLog
import Hytch.NewSession
import Hytch.SecondDaemon
import Hytch.ControlFirst
import Hytch.LogMatchesLive
import Hytch.LastOutput
import Hytch.DetachedInput
import Hytch.PushedInput
import Hytch.AttachLoop
import Hytch.FrameGrammar
import Hytch.LogBounds
import Hytch.IntermediateEscapes
import Hytch.FileFaults
import Hytch.RotationStages
import Hytch.ShortReads
import Hytch.CrashedRotation
import Hytch.FailedAppends
import Hytch.SessionNames
import Hytch.AttachCycles
import Hytch.TrailingArguments
import Hytch.SpawnRequests
import Hytch.ReExec
import Hytch.FileDirectory
import Hytch.SessionDirectory
import Hytch.SessionsApart
import Hytch.EncodeLimit
import Hytch.AncestryChains
import Hytch.PathComponents
import Hytch.DetachKeys
import Hytch.DisplayNames
import Hytch.ClearInside
import Hytch.SocketAddresses
import Hytch.LogCap
import Hytch.SessionEnd
import Hytch.ClosedResizes
import Hytch.SessionList
import Hytch.DefaultCommand
import Hytch.Requests
import Hytch.PtySize
import Hytch.TypedInput
import Hytch.KillCommand
import Hytch.TimedSpawn
import Hytch.RemoveCommand
import Hytch.Invocations
import Hytch.BoundedMemory
import Hytch.EdgeTriggered
import Hytch.PtyPolling
import Hytch.ControlMessages
import Hytch.DaemonProcesses
import Hytch.WindingDown
import Hytch.SlowClients
import Hytch.SlowDisk
import Hytch.LiveOutput
import Hytch.ClosedConnections
