import Cdroid.Lib.Comp
import Cdroid.Lib.Containers
import Cdroid.Runtime.Values
import Cdroid.Service.NullThread
import Cdroid.Service.Binding
import Cdroid.Service.Token
import Cdroid.Service.Callers
import Cdroid.Service.Registry
import Cdroid.Service.Hearing
import Cdroid.Service.PackageManager
import Cdroid.Runtime.Process
import Cdroid.Utils.Looper
import Cdroid.Runtime.MainLoop
import Cdroid.Utils.Fifo
import Cdroid.Lib.Loop
import Cdroid.Runtime.ApplicationLoader
import Cdroid.Runtime.ActivityThread
import Cdroid.Runtime.Dispatch
import Cdroid.Lib.Codec
import Cdroid.Binder.Parcel
import Cdroid.Binder.Codecs
import Cdroid.Runtime.Parcelable
import Cdroid.Runtime.RoundTrip
import Cdroid.Binder.Transaction
import Cdroid.Runtime.ApplicationThread
import Cdroid.Service.Requests
import Cdroid.Binder.Weights
import Cdroid.Service.Replies
import Cdroid.Lib.Lines
import Cdroid.Aidl.Language
import Cdroid.Aidl.Preprocess
import Cdroid.Lib.Exchange
import Cdroid.Lib.Names
import Cdroid.Aidl.CType
import Cdroid.Aidl.CppBinder
import Cdroid.Aidl.CppInterface
import Cdroid.Aidl.JavaType
import Cdroid.Aidl.JavaBinder
import Cdroid.Aidl.Oneway
import Cdroid.Lib.Runs
import Cdroid.Lib.Mailbox
import Cdroid.Utils.Polls
import Cdroid.Utils.Wakeups
import Cdroid.Servicemanager.Bio
import Cdroid.Servicemanager.ServiceManager
import Cdroid.Servicemanager.Messages
import Cdroid.Servicemanager.Permission
import Cdroid.Servicemanager.Registry
import Cdroid.Servicemanager.Loop
import Cdroid.Servicemanager.Client
import Cdroid.Lib.SearchTree
import Cdroid.Lib.Tiling
import Cdroid.Driver.Buffers
import Cdroid.Driver.Pages
import Cdroid.Driver.Links
import Cdroid.Driver.Region
import Cdroid.Driver.Allocator
import Cdroid.Driver.AsyncSpace
import Cdroid.Lib.WorkLists
import Cdroid.Driver.Works
import Cdroid.Driver.Deaths
import Cdroid.Driver.Notices
import Cdroid.Driver.DeathRuns
import Cdroid.Driver.OneWay
import Cdroid.Driver.OneWayRuns
import Cdroid.Lib.Blocks
import Cdroid.Binder.Memory
import Cdroid.Binder.WriteBounds
import Cdroid.Binder.ObjectTable
import Cdroid.Lib.Trace
import Cdroid.Binder.ReadBounds
import Cdroid.Binder.Framing
import Cdroid.Runtime.Framing
import Cdroid.Binder.Ownership
import Cdroid.Binder.Obituaries
import Cdroid.Lib.Segments
import Cdroid.Binder.MemoryDealer
import Cdroid.Binder.BestFit
import Cdroid.Lib.OrderedLists
import Cdroid.Utils.SortedVector
import Cdroid.Utils.SortedSearch
import Cdroid.Service.Attach
import Cdroid.Service.Start
import Cdroid.Service.Faults
import Cdroid.Service.Connections
import Cdroid.Lib.Memo
import Cdroid.Runtime.Dispatchers
import Cdroid.Runtime.ReadBack
import Cdroid.Service.ReceiverLists
import Cdroid.Aidl.PreprocessedErrors
import Cdroid.Aidl.MethodIds
import Cdroid.Aidl.SingleInterface
import Cdroid.Aidl.Imports
import Cdroid.Aidl.ExtraText
import Cdroid.Aidl.CopyBlock
import Cdroid.Utils.PollAll
import Cdroid.Servicemanager.Reader
import Cdroid.Servicemanager.Listing
import Cdroid.Lib.Table
import Cdroid.Driver.References
import Cdroid.Driver.Transaction
import Cdroid.Driver.Counts
import Cdroid.Driver.Owed
import Cdroid.Driver.Undo
import Cdroid.Driver.FailedTransaction
import Cdroid.Driver.HandleTable
import Cdroid.Driver.HandleRefinement
import Cdroid.Driver.ThreadRead
import Cdroid.Driver.ReadBuffer
import Cdroid.Binder.ObjectLookup
import Cdroid.Lib.Unicode
import Cdroid.Lib.Substitution
import Cdroid.Utils.Unicode
import Cdroid.Utils.Utf16Sizing
import Cdroid.Utils.Utf8Text
import Cdroid.Aidl.Namespaces
import Cdroid.Binder.WriteStatus
import Cdroid.Binder.ObjectWrites
import Cdroid.Driver.ReadCodes
import Cdroid.Lib.CallChains
import Cdroid.Driver.Stacks
import Cdroid.Driver.StackChains
import Cdroid.Driver.StackSteps
import Cdroid.Driver.StackExits
import Cdroid.Driver.StackRuns
import Cdroid.Lib.Tally
import Cdroid.Utils.RefBase
import Cdroid.Utils.RefCounts
import Cdroid.Utils.RefSteps
import Cdroid.Utils.RefRuns
import Cdroid.Lib.Probing
import Cdroid.Utils.BasicHashtable
import Cdroid.Utils.HashtableChains
import Cdroid.Utils.HashtableSteps
import Cdroid.Utils.HashtableFinds
import Cdroid.Utils.HashtableRuns
import Cdroid.Lib.Linked
import Cdroid.Utils.LruCache
import Cdroid.Utils.LruSteps
import Cdroid.Utils.LruRuns
