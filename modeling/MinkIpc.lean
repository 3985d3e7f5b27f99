import MinkIpc.Run
import MinkIpc.Bytes
import MinkIpc.ObjectError
import MinkIpc.TICrypto
import MinkIpc.TIFreshness
import MinkIpc.ObjectTable
import MinkIpc.Outcome
import MinkIpc.Wire
import MinkIpc.Objects
import MinkIpc.MarshalIn
import MinkIpc.Containment
import MinkIpc.BufferLayout
import MinkIpc.ObjectWords
import MinkIpc.ObjectEncode
import MinkIpc.RequestRoundTrip
import MinkIpc.ResponseRoundTrip
import MinkIpc.Invocation
import MinkIpc.InvocationMatching
import MinkIpc.HandleSafety
import MinkIpc.TISession
import MinkIpc.TIToken
import MinkIpc.TIMessage
import MinkIpc.TIAccounting
import MinkIpc.TIReferences
import MinkIpc.IDEncode
import MinkIpc.IDSet
import MinkIpc.IDSetHeap
import MinkIpc.IDSetFailure
import MinkIpc.IDSubset
import MinkIpc.TITable
import MinkIpc.TableHistory
import MinkIpc.MemObjLookup
import MinkIpc.MarshalOutFailure
import MinkIpc.CalleeRelease
import MinkIpc.CallerCleanup
import MinkIpc.SockUnix
import MinkIpc.SockUnixFragments
import MinkIpc.MetadataInfo
import MinkIpc.MDScan
import MinkIpc.MetadataRoundTrip
import MinkIpc.Serve
import MinkIpc.VersionSync
import MinkIpc.TIBounds
import MinkIpc.TIDenotes
import MinkIpc.TIRollback
import MinkIpc.TIRequest
import MinkIpc.TIRoundTrip
import MinkIpc.Teec
import MinkIpc.TeecContainment
import MinkIpc.TeecRestoration
import MinkIpc.TeecSizes
import MinkIpc.AdaptorCallback
import MinkIpc.AdaptorInvoke
import MinkIpc.CheckedReads
import MinkIpc.Elf
import MinkIpc.ElfContainment
import MinkIpc.Rpmb
import MinkIpc.RpmbRead
import MinkIpc.CWait
import MinkIpc.CWaitConservation
import MinkIpc.TEnv
import MinkIpc.TEnvAccess
import MinkIpc.ArgumentCount
import MinkIpc.ClientEnv
import MinkIpc.ClientEnvOwnership
import MinkIpc.GpTransfer
import MinkIpc.GpBackup
import MinkIpc.MemoryPool
import MinkIpc.MemoryPoolAccounts
import MinkIpc.ProcessRegistry
import MinkIpc.ProcessRegistryRuns
import MinkIpc.ReservedBuffers
import MinkIpc.ConnlessDispatch
import MinkIpc.ConnlessDispatchRuns
import MinkIpc.PreLauncher
import MinkIpc.SocketLifeCycle
import MinkIpc.LaunchDescriptors
import MinkIpc.OutputWrapping
import MinkIpc.TzComTable
import MinkIpc.TzComMarshal
import MinkIpc.TzComWorker
import MinkIpc.LinkCredentials
import MinkIpc.OsIndCredentials
import MinkIpc.CredentialQueries
import MinkIpc.ElfImage
import MinkIpc.ElfSymbols
import MinkIpc.ElfRelocate
import MinkIpc.ListenerQueue
import MinkIpc.RpmbInit
import MinkIpc.SocketWait
import MinkIpc.AutoStart
