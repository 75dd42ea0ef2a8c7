import Tethra.ActionRelations
import Tethra.AtomicPrograms
import Tethra.AuthRateLimits
import Tethra.AuthenticatedEncryption
import Tethra.AutoReconnect
import Tethra.BackendLogs
import Tethra.BackendRaces
import Tethra.Base64Strings
import Tethra.BlockMarkers
import Tethra.BlockPhases
import Tethra.BlockTracker
import Tethra.BreadthFirst
import Tethra.CappedBodies
import Tethra.CommandFences
import Tethra.ConnectionPool
import Tethra.ControlSequences
import Tethra.DeviceAuth
import Tethra.DeviceEnrollment
import Tethra.DeviceReports
import Tethra.EngineBackends
import Tethra.EnteredCommands
import Tethra.ExclusiveRegisters
import Tethra.FailedPushes
import Tethra.Failures
import Tethra.FalseAlarms
import Tethra.FileTrees
import Tethra.FirstHeader
import Tethra.FolderDownloads
import Tethra.FolderUploads
import Tethra.HostKeyPrompts
import Tethra.HostKeyTrust
import Tethra.HostPasswords
import Tethra.HostSessions
import Tethra.HostileBackends
import Tethra.HttpBackend
import Tethra.HttpCalls
import Tethra.HttpSync
import Tethra.HttpWire
import Tethra.IdentityFormats
import Tethra.IdentityReferences
import Tethra.IdleLock
import Tethra.InjectedText
import Tethra.ItemVersions
import Tethra.JsonTexts
import Tethra.JsonValues
import Tethra.JumpClosure
import Tethra.KeyConsistency
import Tethra.KeyedTables
import Tethra.LocalRemovals
import Tethra.LostUpdates
import Tethra.MalformedItems
import Tethra.MarkerResync
import Tethra.MuxNames
import Tethra.OptIns
import Tethra.OutputPump
import Tethra.PaneLayouts
import Tethra.PartialWrites
import Tethra.PasswordChanges
import Tethra.PercentEncoding
import Tethra.ProjectRequests
import Tethra.PromiseQueues
import Tethra.PromiseTails
import Tethra.PromptMirror
import Tethra.PromptStripping
import Tethra.PushOrders
import Tethra.RandomAccessFiles
import Tethra.RekeyAttestations
import Tethra.ReplicatedRegisters
import Tethra.RepositoryActions
import Tethra.RepositoryRequests
import Tethra.RepositoryRuns
import Tethra.RepositoryUpdates
import Tethra.RowUpdates
import Tethra.RunningSessions
import Tethra.RustText
import Tethra.ScreenRewrite
import Tethra.ScriptText
import Tethra.SecretFleets
import Tethra.SecretLinks
import Tethra.SequentialUpdates
import Tethra.ServerAuthorization
import Tethra.SessionFleets
import Tethra.SessionTunnels
import Tethra.SftpResume
import Tethra.SftpSessions
import Tethra.SftpTransfers
import Tethra.SharedTasks
import Tethra.ShellHooks
import Tethra.ShellInjection
import Tethra.ShellQuoting
import Tethra.ShellWords
import Tethra.SkippedWrites
import Tethra.SlidingWindows
import Tethra.SshConfigDirectives
import Tethra.SshConfigImports
import Tethra.StaleMarkers
import Tethra.StampedRegisters
import Tethra.StatefulActions
import Tethra.SyncConvergence
import Tethra.SyncEngine
import Tethra.SyncErase
import Tethra.SyncErrors
import Tethra.SyncFileBackend
import Tethra.SyncFilter
import Tethra.SyncFleets
import Tethra.SyncItems
import Tethra.SyncJoin
import Tethra.SyncLiveness
import Tethra.SyncRuns
import Tethra.TabCloses
import Tethra.TerminalEvents
import Tethra.TerminalInput
import Tethra.TerminalLocks
import Tethra.TerminalMarkers
import Tethra.TerminalOps
import Tethra.TerminalScreens
import Tethra.TextPatterns
import Tethra.Transducers
import Tethra.TransferQueue
import Tethra.Trimming
import Tethra.UnixPaths
import Tethra.UpdateOrder
import Tethra.VaultCrypto
import Tethra.VaultKeys
import Tethra.VaultLocking
import Tethra.VaultRecords
import Tethra.VaultRepository
import Tethra.VaultState
import Tethra.VaultTypes
import Tethra.WindowTransfers
import Tethra.WorkspaceTabs
import Tethra.ZshHooks
