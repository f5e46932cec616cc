import WinDOS.Fs.Requests

/-!
# The cluster numbers a call uses

Which cluster numbers a call of the driver reads and writes by. They are the numbers that the call
gets to on the disk as it is before; a device that fails makes a call stop early.
-/

set_option autoImplicit false

namespace WinDOS

open Bytes

namespace Exfat

/-! ### The numbers -/

section Uses

variable {R : Nat → Prop} {fs : Exfat}

end Uses

end Exfat

end WinDOS
