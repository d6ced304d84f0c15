import CanDongle.Command

/-!
# Truthful replies

`truthfulReply` is the reply a command should leave: it reports the result of the
operation the command invoked, and carries what a version or status command asks for.
The replies of the interpreter are compared with it.
-/

namespace CanDongle

end CanDongle
