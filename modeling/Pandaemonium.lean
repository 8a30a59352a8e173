import Pandaemonium.Toml.Depth
import Pandaemonium.Toml.DocumentGrammar
import Pandaemonium.Toml.PathIdentity
import Pandaemonium.Toml.Elements
import Pandaemonium.Codex.NotificationIds
import Pandaemonium.Internal.Memchr
import Pandaemonium.Toml.ScanSwar
import Pandaemonium.Toml.DirectPath
import Pandaemonium.Llm.StdioRead
import Pandaemonium.Toml.EditFrame
import Pandaemonium.Toml.PendingLines
import Pandaemonium.Claude.Inflight
import Pandaemonium.Codex.ExecServer
import Pandaemonium.Codex.RouterClear
import Pandaemonium.Codex.RouterClose
import Pandaemonium.Claude.Reencoding
import Pandaemonium.Llm.NotifyWake
import Pandaemonium.Opencode.BusDial
import Pandaemonium.Opencode.TurnErrors
import Pandaemonium.Tmux.Commands
import Pandaemonium.Claude.ControlRequests
import Pandaemonium.Claude.Sessions
import Pandaemonium.Codex.RingRuns
import Pandaemonium.Opencode.ActiveTurns
import Pandaemonium.Opencode.Sse
import Pandaemonium.Tmux.Fields
import Pandaemonium.Tmux.Output
import Pandaemonium.Tmux.Quoting
import Pandaemonium.Toml.DateTimeDispatch
import Pandaemonium.Toml.DateTimeText
import Pandaemonium.Toml.DirectStrings
import Pandaemonium.Toml.IntegerWidth
import Pandaemonium.Toml.Sections
import Pandaemonium.Toml.StringStyle
import Pandaemonium.Claude.PermissionUpdate
