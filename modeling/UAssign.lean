import UAssign.Proxy.Terminal
import UAssign.Proxy.Input
import UAssign.Proxy.Connection
import UAssign.Proxy.Wire
import UAssign.Proxy.Events
import UAssign.SimpleCrypto.Python
import UAssign.App.Expiry
import UAssign.App.Requests
import UAssign.App.Create
import UAssign.App.Clean
import UAssign.App.Idle
import UAssign.App.Images
import UAssign.App.Pass
import UAssign.App.Tasks
import UAssign.App.Prune
import UAssign.Expire.Notify
import UAssign.Expire.Ticks
import UAssign.Expire.Queue
import UAssign.App.CutShort
import UAssign.App.Lifecycle
import UAssign.App.Shutdown
import UAssign.App.Specs
import UAssign.App.Precheck
import UAssign.App.Websocket
import UAssign.App.Assignment
import UAssign.Sched.Runner
import UAssign.Sched.Late
import UAssign.Specbuild.Perform
import UAssign.Specbuild.Gobuild
import UAssign.Specbuild.Write
import UAssign.Lib.Redirect
import UAssign.Js.Helpers
import UAssign.Js.Runtime
import UAssign.Docker.BuildBody
import UAssign.Docker.Compat
import UAssign.Docker.Cancel
import UAssign.Gobuild.Build
import UAssign.App.Middleware
import UAssign.Specbuild.Generate
import UAssign.App.Database
import UAssign.App.Command
