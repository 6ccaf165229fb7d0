import Deltabase.Storage.FirstSplit
import Deltabase.Storage.RefusedIndex
import Deltabase.Storage.IndexCreation
import Deltabase.Storage.IndexReload
import Deltabase.Storage.OpenInstance
import Deltabase.Wal.AppendOnlyLog
import Deltabase.Wal.TornTail
import Deltabase.Wal.FailedFlush
import Deltabase.Recovery.UndoneChanges
import Deltabase.Recovery.FiledRuns
import Deltabase.Recovery.ResumedRecovery
import Deltabase.Recovery.RedoPass
import Deltabase.Recovery.LoggedView
import Deltabase.Executor.NodeExecutor
import Deltabase.Executor.StreamedResult
import Deltabase.Storage.IndexSelection
import Deltabase.Storage.WriteAhead
import Deltabase.Recovery.TableCounters
import Deltabase.Recovery.CatalogRedo
import Deltabase.Recovery.SessionSchemas
import Deltabase.Recovery.PageRoom
import Deltabase.Executor.AcceptedStatements
import Deltabase.Storage.StorageRoundTrip
import Deltabase.Network.RequestDispatch
import Deltabase.Client.DeltabaseConnector
import Deltabase.Network.SocketHandle
import Deltabase.Sql.RefusedRenderings
import Deltabase.Sql.ParserTermination
import Deltabase.Sql.LexerInvariance
import Deltabase.Storage.TransparentPool
import Deltabase.Executor.AccessPaths
import Deltabase.Executor.ProjectedRows
import Deltabase.Types.TokenOrder
import Deltabase.Storage.TruncatedFiles
import Deltabase.Network.ResultChunks
import Deltabase.Storage.Buffer
import Deltabase.Storage.BufferRuns
import Deltabase.Engine.RelationRuns
import Deltabase.Storage.PageVector
