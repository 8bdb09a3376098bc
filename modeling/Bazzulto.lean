import Bazzulto.Bzinit.Supervisor
import Bazzulto.Drivers.Tty
import Bazzulto.Fat32.Listing
import Bazzulto.Fat32.Rename
import Bazzulto.Heap.Tiling
import Bazzulto.Ipc.Fifo
import Bazzulto.Ipc.MessageQueue
import Bazzulto.Ipc.SemaphoreTable
import Bazzulto.Ipc.Socket
import Bazzulto.Ipc.TableLock
import Bazzulto.Loader.Digest
import Bazzulto.Memory.Reclaim
import Bazzulto.Memory.Sharing
import Bazzulto.Permission.PolicyStore
import Bazzulto.Scheduler.Reuse
import Bazzulto.Shell.Executor
import Bazzulto.Shell.Line
import Bazzulto.Shell.Quoting
import Bazzulto.Signals.Context
import Bazzulto.Signals.Defaults
import Bazzulto.Time.DateTime
import Bazzulto.Vfs.Dirents
import Bazzulto.Vfs.Panic
import Bazzulto.Vfs.Rename
import Bazzulto.Vfs.WorkingDirectory
