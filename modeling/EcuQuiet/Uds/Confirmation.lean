import EcuQuiet.Note
import EcuQuiet.Uds.Service

/-!
# Confirmation of a request

A positive response names the service of the request it confirms.
-/

namespace EcuQuiet.Uds

/-- Whether a response confirms a request with the given service identifier. A response of another
service is worth a note. -/
def confirm (request : UInt8) (response : Bytes) : Except DiagnosticError Unit × List Note :=
  match response with
  | [] => (.error .noResponse, [])
  | first :: _ =>
    if first = request + positiveOffset then (.ok (), [])
    else (.error .wrongMessage, [.serviceMismatch request first])

end EcuQuiet.Uds
