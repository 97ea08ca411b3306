import Multi64.AgentRx
import Multi64.AgentScan
import Multi64.AgentStream
import Multi64.Backend
import Multi64.CheckedCart
import Multi64.CodecReplies
import Multi64.CodecRequests
import Multi64.Connector
import Multi64.ConnectorWrites
import Multi64.Correlation
import Multi64.Daemon
import Multi64.DaemonOwnership
import Multi64.Dk64Fix
import Multi64.Dk64Scan
import Multi64.Ed64Pipe
import Multi64.ExfatAgree
import Multi64.ExfatCommands
import Multi64.ExfatDir
import Multi64.ExfatChain
import Multi64.ExfatDirSlots
import Multi64.ExfatNewEntry
import Multi64.ExfatPath
import Multi64.ExfatPlace
import Multi64.ExfatRename
import Multi64.ExfatRenameKept
import Multi64.ExfatRenamePlan
import Multi64.ExfatResolve
import Multi64.ExfatRestore
import Multi64.ExfatRewrite
import Multi64.ExfatSet
import Multi64.ExfatSlabs
import Multi64.ExfatWalk
import Multi64.FatReplace
import Multi64.FatReplaceKept
import Multi64.GenericConnector
import Multi64.HostCodec
import Multi64.HostWatch
import Multi64.L3Decode
import Multi64.L3Encode
import Multi64.L3Stream
import Multi64.Lib.Act
import Multi64.Lib.Bytes
import Multi64.Lib.Carry
import Multi64.Lib.Cycle
import Multi64.Lib.Effect
import Multi64.Lib.History
import Multi64.Lib.Image
import Multi64.Lib.Line
import Multi64.Lib.Pack
import Multi64.Lib.Queue
import Multi64.Lib.Ring
import Multi64.Lib.Scan
import Multi64.Lib.SortedMap
import Multi64.Lib.Store
import Multi64.Lib.Text
import Multi64.Lib.Undo
import Multi64.LinkPaths
import Multi64.LinkReply
import Multi64.LinkSteps
import Multi64.M64p
import Multi64.MemDisk
import Multi64.MemHandle
import Multi64.MemProto
import Multi64.MemRequest
import Multi64.MemSafety
import Multi64.MemServe
import Multi64.MemWalk
import Multi64.OotConnector
import Multi64.OotConsole
import Multi64.OotItems
import Multi64.OotReads
import Multi64.PartitionDisk
import Multi64.PatchCrc
import Multi64.PokeHold
import Multi64.PokeOnce
import Multi64.ReadMany
import Multi64.RelayOrder
import Multi64.Sc64Correlation
import Multi64.ProCorrelation
import Multi64.ProResolve
import Multi64.Pj64Values
import Multi64.GenericReplay
import Multi64.ProSend
import Multi64.Sc64WriteEnable
import Multi64.GoldenEyeFrames
import Multi64.RepackRound
import Multi64.Sc64Link
import Multi64.Sc64Pipe
import Multi64.SdReadCache
import Multi64.Snapshot
import Multi64.SnapshotApply
import Multi64.SnapshotLink
import Multi64.SnapshotMerge
import Multi64.SnapshotOwn
import Multi64.SnapshotWord
import Multi64.Transport
import Multi64.World
import Multi64.WriteMany
import Multi64.X7Access
import Multi64.X7Accounts
import Multi64.X7Cart
import Multi64.X7Driver
import Multi64.X7Place
import Multi64.X7Receive
import Multi64.X7RoundTrip
import Multi64.X7Send
import Multi64.X7Steps
import Multi64.X7Stream
import Multi64.X7Wire
import Multi64.Yaz0
import Multi64.Yaz0Bound
import Multi64.Yaz0Image
