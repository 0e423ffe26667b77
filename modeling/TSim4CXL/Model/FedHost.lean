/-
  One SIMWrapper and the host that feeds it.

  The host makes a list of `traceGenerator` calls. The ring hands their packets over in the order
  in which they are sent, so a poll that returns a packet returns the first one that is still
  coming; when it does is left open. Everything else is as for a SIMWrapper on its own.
-/
import TSim4CXL.Model.Host
import TSim4CXL.Model.LoneHost

namespace TSim4CXL

/-! ## Calls -/

/-- A call of a `traceGenerator`. -/
inductive Call
  | read (address size device delta : Nat)
  | write (address : Nat) (data : Nat → UInt8) (size device delta : Nat)
  | signal (signalID : Nat)
  | wait (waitID : Nat)
  | terminate (delta : Nat)

def Call.acts (packetSize : Nat) : Call → Option (List HostAct)
  | .read address size device delta => trcRead packetSize address size device delta
  | .write address data size device delta => trcWrite packetSize address data size device delta
  | .signal signalID => some (trcSignal packetSize signalID)
  | .wait waitID => some (trcWait packetSize waitID)
  | .terminate delta => some (trcTerminate packetSize delta)

/-- The packets of the calls, one call after the other. -/
def callPackets (packetSize : Nat) : List Call → Option (List Packet)
  | [] => some []
  | call :: calls => do
      let acts ← call.acts packetSize
      let packets ← callPackets packetSize calls
      return packetsOf acts ++ packets

/-! ## The fed SIMWrapper -/

structure FedHost where
  received : List Packet
  coming : List Packet
  host : SimWrapper × List Event

namespace FedHost

def init (packets : List Packet) : FedHost := ⟨[], packets, LoneHost.init⟩

/-- A poll takes the first packet that is coming. -/
def take (s : FedHost) : LoneAct → Except Fault FedHost
  | .step (.recv packet) _ _ =>
      match s.coming with
      | [] => .error .notEnabled
      | first :: rest =>
          if packet = first then .ok { s with received := s.received ++ [packet], coming := rest }
          else .error .notEnabled
  | _ => .ok s

def step (cfg : Config) (mem : Nat → Nat → UInt8) (s : FedHost) (a : LoneAct) :
    Except Fault FedHost := do
  let host ← LoneHost.step cfg mem s.host a
  let s ← s.take a
  return { s with host := host }

def Reachable (cfg : Config) (mem : Nat → Nat → UInt8) (packets : List Packet) : FedHost → Prop :=
  Transition.Reach (step cfg mem) Transition.anyStep (init packets)

end FedHost

end TSim4CXL
