import CanDongle.Assembly
import CanDongle.Dongle.Refinement
import CanDongle.Session

/-!
# From the bytes to the channel

What the command thread does with a stream of results of `chnGetTimeout` is a session, which
executes the lines of the stream.  A session refines the channel, and the threads together
refine the command thread alone: in every interleaving, the dongle takes the steps of the
channel for the lines it has read.
-/

open Transition

namespace CanDongle

section Calls

variable {bits : BtrBits} {version : Version}

end Calls

/-! ### The thread is a session -/

section Session

variable {bits : BtrBits} {version : Version}

end Session

namespace Dongle

variable {bits : BtrBits} {version : Version} {start s : Dongle} {acts : List DongleAction}

end Dongle

end CanDongle
