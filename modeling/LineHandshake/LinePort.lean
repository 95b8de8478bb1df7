import LineHandshake.Fault
import LineHandshake.Line

/-!
What a client needs of its port. `readLine` gives the bytes up to and including the first CRLF, or
fewer if no more come in time.
-/

namespace LineHandshake

structure LinePort (σ : Type) where
  readLine : σ → Except Fault Bytes × σ
  write : Bytes → σ → Except Fault Unit × σ
  close : σ → Except Fault Unit × σ

def Bytes.cutThrough (pattern : Bytes) : Bytes → Option (Bytes × Bytes)
  | [] => none
  | b :: bs =>
    if pattern.isPrefixOf (b :: bs) then
      some ((b :: bs).take pattern.length, (b :: bs).drop pattern.length)
    else (cutThrough pattern bs).map fun r => (b :: r.1, r.2)

end LineHandshake
