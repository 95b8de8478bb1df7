import LineHandshake.Client

/-!
A line port in memory, for a client without a server.
-/

namespace LineHandshake

structure MemoryPort where
  incoming : Bytes := []
  written : Bytes := []
  isConnected : Bool := true
  closeFault : Option Fault := none
  closeCalls : Nat := 0
deriving DecidableEq

namespace MemoryPort

def readLine (p : MemoryPort) : Except Fault Bytes × MemoryPort :=
  match Bytes.cutThrough Line.crlfBytes p.incoming with
  | some (line, rest) => (.ok line, { p with incoming := rest })
  | none =>
    if p.isConnected then (.ok p.incoming, { p with incoming := [] })
    else (.error (.port .disconnected), p)

def write (bs : Bytes) (p : MemoryPort) : Except Fault Unit × MemoryPort :=
  if p.isConnected then (.ok (), { p with written := p.written ++ bs })
  else (.error (.port .connectionFailed), p)

def close (p : MemoryPort) : Except Fault Unit × MemoryPort :=
  (match p.closeFault with | none => .ok () | some f => .error f,
    { p with closeCalls := p.closeCalls + 1 })

def linePort : LinePort MemoryPort := ⟨readLine, write, close⟩

inductive Step
  | inject (bs : Bytes)
  | disconnect
  | failClose (f : Fault)
  | call (c : Client.Call)

def step [Json.Stack] (p : MemoryPort) : Step → Except Fault Client.Result × MemoryPort × Log
  | .inject bs => (.ok .done, { p with incoming := p.incoming ++ bs }, [])
  | .disconnect => (.ok .done, { p with isConnected := false }, [])
  | .failClose f => (.ok .done, { p with closeFault := some f }, [])
  | .call c => (Client.call linePort c).perform p

end MemoryPort

end LineHandshake
