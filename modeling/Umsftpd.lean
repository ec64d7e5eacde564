import Umsftpd.Shell.Answers
import Umsftpd.Shell.Input
import Umsftpd.Shell.Writing
import Umsftpd.Shell.Streams
import Umsftpd.Vfs.Mounts
import Umsftpd.Vfs.Slashes
import Umsftpd.Vfs.Frozen
import Umsftpd.Vfs.Basenames
import Umsftpd.Vfs.Atomicity
import Umsftpd.Vfs.Overlay
import Umsftpd.Vfs.CwdLength
import Umsftpd.Vfs.Attributes
import Umsftpd.Vfs.OpenRuns
import Umsftpd.Passdb.Window
import Umsftpd.Rfc4648.RoundTrip
import Umsftpd.Rfc4648.Size
import Umsftpd.StringList.Runs
import Umsftpd.Strings.Ancestors
import Umsftpd.Strings.Bounds
import Umsftpd.Rfc6238.Now
import Umsftpd.Session.Gating
import Umsftpd.CLib.Json
import Umsftpd.JsonConfig
import Umsftpd.JsonConfig.Files
import Umsftpd.Server
import Umsftpd.Server.Connections
