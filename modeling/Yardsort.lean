import Yardsort.Activity.DigestTold
import Yardsort.Activity.LocateSound
import Yardsort.Activity.PathsKept
import Yardsort.Activity.ProvenanceSound
import Yardsort.Activity.Reconcile
import Yardsort.Activity.ResumeRuns
import Yardsort.Activity.TranscriptRead
import Yardsort.Changes.ListingsRead
import Yardsort.Client.Session
import Yardsort.Core.Env
import Yardsort.Core.Memory
import Yardsort.Core.TemplateParts
import Yardsort.Desktop.Publish
import Yardsort.Desktop.When
import Yardsort.Forge.Threads
import Yardsort.Harness.Expand
import Yardsort.Host.GrantRuns
import Yardsort.Host.SignInRuns
import Yardsort.Ipc.Conn
import Yardsort.Mobile.ControlRuns
import Yardsort.Mobile.FeedRuns
import Yardsort.Mobile.PageFeedRuns
import Yardsort.Mobile.WatchRuns
import Yardsort.Proto.Decoders
import Yardsort.Pty.Delivery
import Yardsort.Pty.Headless
import Yardsort.Pty.Presence
import Yardsort.Pty.QueryCuts
import Yardsort.Pty.Quiet
import Yardsort.Pty.Replies
import Yardsort.Pty.ViewExit
import Yardsort.Relay.HubRuns
import Yardsort.Relay.NoticeRuns
import Yardsort.Relay.RecheckRuns
import Yardsort.Remote.Follow
import Yardsort.Remote.PageWalk
import Yardsort.Remote.Reach
import Yardsort.Remote.UploadClient
import Yardsort.Schedule.Grid
import Yardsort.Schedule.History
import Yardsort.Schedule.SettleRuns
import Yardsort.Server.LoginRuns
import Yardsort.Server.OneAtATime
import Yardsort.Server.PairingAlone
import Yardsort.Smoke.Cancel
import Yardsort.Smoke.Diff
import Yardsort.Smoke.Onward
import Yardsort.Smoke.QueueRuns
import Yardsort.Smoke.Separate
import Yardsort.Workflow.Circles
import Yardsort.Workflow.OneMessage
import Yardsort.Workflow.Recovery
import Yardsort.Workspaces.NamingSafe
import Yardsort.Workspaces.WorktreeRuns
