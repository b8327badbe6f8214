import Proskrnl.Library.Bytes
import Proskrnl.Library.ListUpdate
import Proskrnl.Library.Outcome
import Proskrnl.Library.CallStack
import Proskrnl.Library.CStrings
import Proskrnl.Abi.Status
import Proskrnl.Lib.Rtl
import Proskrnl.Lib.Crc32
import Proskrnl.Cm.KeyTree
import Proskrnl.Cm.Record
import Proskrnl.Cm.Replay
import Proskrnl.Cm.Snapshot
import Proskrnl.Cm.Services
import Proskrnl.Cm.Image
import Proskrnl.Cm.Refine
import Proskrnl.Cm.Steps
import Proskrnl.Cm.Boot
import Proskrnl.Cm.Durability
import Proskrnl.Cm.Acceptance
import Proskrnl.Library.RefCount
import Proskrnl.Cm.Node
import Proskrnl.Cm.KeyBody
import Proskrnl.Cm.NodeTree
import Proskrnl.Cm.NodeReplay
import Proskrnl.Cm.BodyAccounts
import Proskrnl.Cm.Representation
import Proskrnl.Ke.KernelStack
import Proskrnl.Ke.Dispatcher
import Proskrnl.Ke.Ledger
import Proskrnl.Ke.Invariant
import Proskrnl.Ke.Completion
import Proskrnl.Ke.Signals
import Proskrnl.Ke.Waits
import Proskrnl.Ke.Steps
import Proskrnl.Ke.Guarantees
import Proskrnl.Npfs.Isolation
import Proskrnl.Library.Slots
import Proskrnl.Ps.Process
import Proskrnl.Ps.Lifecycle
import Proskrnl.Ps.Steps
import Proskrnl.Ps.Exit
import Proskrnl.Library.Intervals
import Proskrnl.Mm.Protection
import Proskrnl.Mm.Image
import Proskrnl.Mm.Vad
import Proskrnl.Mm.Section
import Proskrnl.Mm.Virtual
import Proskrnl.Mm.Access
import Proskrnl.Mm.Layout
import Proskrnl.Se.Token
import Proskrnl.Se.Access
import Proskrnl.Se.Compare
import Proskrnl.Se.Restrict
import Proskrnl.Se.Descriptor
import Proskrnl.Se.DefaultDacl
import Proskrnl.Library.Forest
import Proskrnl.Mm.UserCopy
import Proskrnl.Afd.Receive
import Proskrnl.Afd.Confinement
import Proskrnl.Afd.Exposure
import Proskrnl.Cm.TornAppend
import Proskrnl.Cm.CrashRecovery
import Proskrnl.Cm.Loading
import Proskrnl.Library.Census
import Proskrnl.Cm.Notify
import Proskrnl.Cm.NotifyRun
import Proskrnl.Cm.Links
import Proskrnl.Library.Chains
import Proskrnl.Library.Splice
import Proskrnl.Fat.Names
import Proskrnl.Fat.Codec
import Proskrnl.Fat.Entry
import Proskrnl.Fat.Volume
import Proskrnl.Fat.Chain
import Proskrnl.Fat.Directory
import Proskrnl.Fat.RoundTrip
import Proskrnl.Mm.PageCache
import Proskrnl.Fat.File
import Proskrnl.Fat.Extent
import Proskrnl.Fat.FileData
import Proskrnl.Fat.Mount
import Proskrnl.Fat.FileRun
import Proskrnl.Lib.Upcase
import Proskrnl.Fat.ShortNames
import Proskrnl.Fat.CacheCover
import Proskrnl.Fat.Walks
import Proskrnl.Library.Loops
import Proskrnl.Mm.Placement
import Proskrnl.Mm.Freeing
import Proskrnl.Mm.FreeRange
import Proskrnl.Mm.Rollback
import Proskrnl.Mm.Failure
import Proskrnl.Io.ShareAccess
import Proskrnl.Fat.OpenFile
import Proskrnl.Fat.DeleteOnClose
import Proskrnl.Library.Segments
import Proskrnl.Fat.Time
import Proskrnl.Fat.Namespace
import Proskrnl.Fat.Room
import Proskrnl.Fat.Rename
import Proskrnl.Fat.ControlBlocks
import Proskrnl.Fat.RenameFailure
import Proskrnl.Ob.KeyedEvent
import Proskrnl.Ke.Clock
import Proskrnl.Ps.CloseProtection
import Proskrnl.Library.Stores
import Proskrnl.Ob.Enumerate
import Proskrnl.Library.Paths
import Proskrnl.Ob.Object
import Proskrnl.Ob.Lookup
import Proskrnl.Ob.Resolve
import Proskrnl.Ob.NameBuffers
import Proskrnl.Ob.Create
import Proskrnl.Io.Locks
import Proskrnl.Io.ShareModes
import Proskrnl.Npfs.WaitForPipe
import Proskrnl.Io.CompletionPort
import Proskrnl.Io.DirectoryNotify
import Proskrnl.Fat.WatchedVolume
import Proskrnl.Npfs.Lifetime
import Proskrnl.Mm.ImageContents
import Proskrnl.Io.MatchMask
import Proskrnl.Ps.ThreadContext
import Proskrnl.Fat.Aliases
import Proskrnl.Mm.PoolRuns
import Proskrnl.Fat.DataServices
import Proskrnl.Fat.SectionExtension
import Proskrnl.Se.Reference
import Proskrnl.Se.Adjust
import Proskrnl.Io.FilePosition
import Proskrnl.Ke.UserApc
import Proskrnl.Resolv.Memory
import Proskrnl.Resolv.Lookups
import Proskrnl.Resolv.TableReads
