import BuckyOS.Scheduler.Isolation
import BuckyOS.Scheduler.Rbac
import BuckyOS.Scheduler.Reports
import BuckyOS.Scheduler.Throttle
import BuckyOS.Workflow.Cycles
import BuckyOS.Workflow.Orderly
import BuckyOS.Workflow.Cache
import BuckyOS.Workflow.Abort
import BuckyOS.Workflow.Server
import BuckyOS.Workflow.References
import BuckyOS.Workflow.Rounds
import BuckyOS.Workflow.Misfire
import BuckyOS.KLog.Logs.Front
import BuckyOS.KLog.Logs.Agreement
import BuckyOS.KLog.MetaRevisions
import BuckyOS.KLog.Snapshots
import BuckyOS.KLog.SnapshotBuild
import BuckyOS.KLog.LogIds
import BuckyOS.KLog.Retention
import BuckyOS.TaskManager.Controls
import BuckyOS.TaskManager.Trees
import BuckyOS.TaskManager.Digest
import BuckyOS.TaskManager.Events
import BuckyOS.TaskManager.Pages
import BuckyOS.TaskManager.Backoff
import BuckyOS.SysConfig.Security
import BuckyOS.MsgQueue.Isolation
import BuckyOS.MsgQueue.Refinement
import BuckyOS.KEvent.Patterns
import BuckyOS.KEvent.Drains
import BuckyOS.KEvent.Ring
import BuckyOS.Slog.Format
import BuckyOS.VerifyHub.Login
import BuckyOS.VerifyHub.Replay
import BuckyOS.VerifyHub.Separation
