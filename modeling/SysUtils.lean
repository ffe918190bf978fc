import SysUtils.Utils.SymLnkPath
import SysUtils.Utils.FileName
import SysUtils.Utils.LoadFiles
import SysUtils.Utils.Numbers
import SysUtils.Utils.ScopedFd
import SysUtils.Convertor
import SysUtils.NetCards.Reflush
import SysUtils.Registry.MultiString
import SysUtils.Registry.Fallback
import SysUtils.Registry.Installed
import SysUtils.Registry.Autoruns
import SysUtils.Services.Refresh
import SysUtils.ProcessLock.Handles
import SysUtils.ProcessLock.Sharing
import SysUtils.Scan.Reloading
import SysUtils.Scan.Labels
import SysUtils.Scan.Naming
import SysUtils.Scan.Duration
import SysUtils.Scan.Records
import SysUtils.Scan.Liveness
import SysUtils.Scan.LockOrder
import SysUtils.Scan.Lifecycle
import SysUtils.ThreadPool.Waiters
import SysUtils.ThreadPool.Order
import SysUtils.ThreadPool.Draining
import SysUtils.ThreadPool.Refinement
