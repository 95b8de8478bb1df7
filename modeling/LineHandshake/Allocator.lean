import LineHandshake.Address
import LineHandshake.Log

/-!
Port numbers handed out in increasing order. A port that is taken when its turn comes is passed
over for good, and so is every port once it was handed out.
-/

namespace LineHandshake

structure Probe where
  port : Int
  isFree : Bool
deriving DecidableEq, Repr

structure PortCall where
  probes : List Probe
  result : Except Fault Int

structure Allocator where
  next : Int
  last : Int
deriving DecidableEq, Repr

namespace Allocator

def firstPort : Int := 14220

def create (first last : Int) : Except Fault Allocator :=
  if 0 < first ∧ first ≤ last ∧ last ≤ Address.maxPort then .ok ⟨first, last⟩
  else .error (.invalidRange first last)

def standard : Allocator := ⟨firstPort, Address.maxPort⟩

def skipped (port : Int) : Record :=
  ⟨.debug, text "common.ports", text "Port " ++ Text.ofInt port ++ text " busy, skipping"⟩

variable {σ : Type}

/-- The first free one of `count` ports from `port` on, and the probes made. Each of them finds the
host as it is then, and hands it on to the next. -/
def search (probe : Int → σ → Bool × σ) (port : Int) :
    (count : Nat) → σ → Option Int × List Probe × σ
  | 0, s => (none, [], s)
  | count + 1, s =>
    match probe port s with
    | (true, s) => (some port, [⟨port, true⟩], s)
    | (false, s) =>
      let r := search probe (port + 1) count s
      (r.1, ⟨port, false⟩ :: r.2.1, r.2.2)

def nextPort (probe : Int → σ → Bool × σ) (a : Allocator) (s : σ) : PortCall × Allocator × σ :=
  match search probe a.next (a.last + 1 - a.next).toNat s with
  | (some port, probes, s) => (⟨probes, .ok port⟩, { a with next := port + 1 }, s)
  | (none, probes, s) =>
    (⟨probes, .error (.portsExhausted a.last)⟩, { a with next := max a.next (a.last + 1) }, s)

end Allocator

def PortCall.log (c : PortCall) : Log :=
  (c.probes.filter (!·.isFree)).map fun p => Allocator.skipped p.port

end LineHandshake
