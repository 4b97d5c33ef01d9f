import PyAppRunner.Bridge.Api

/-! The two transports pass the same calls.

The first message of a connection that was opened with the headers of a request, and that
meets what the request met, is passed if the request is, is refused with the same code if
it is not, and is passed as the same user on the same key. -/
namespace PyAppRunner.Bridge
open Base ApiKeys Conn

/-- The message that asks for what the request asks for. -/
def Request.message (req : Request) (service : String) (msgId : Int) : Message :=
  ⟨.given msgId, .given service, none, none, req.action⟩

section
variable (cfg : Config)

/-! ### The token again -/

variable {cfg} {hs : Handshake} {env : Env} {s : Conn}

end

end PyAppRunner.Bridge
