/-
  One SIMWrapper on its own, and everything around it left free.

  The environment may hand it any packet, set any flag, and send the ack of any payload it
  has forwarded, once, in any order. The backing store of the devices, `mem`, does not
  change meanwhile: the ack of a read points into it, as `backward_trans` has it.
-/
import TSim4CXL.Model.MemWrapper

namespace TSim4CXL

/-- What can happen: a step of the SIMWrapper, which finds `sync` and `active_dram` as given, or
    the ack of a forwarded payload. -/
inductive LoneAct
  | step (a : SimWrapper.Act) (sync : SyncObject) (activeDram : Nat)
  | ack (p : Payload)

namespace LoneHost

/-- The bytes behind a data pointer. -/
def load (mem : Nat → Nat → UInt8) (ptr : DataPtr) (length : Nat) : List UInt8 :=
  match ptr with
  | .null => []
  | .buffer bytes => bytes.take length
  | .memData d a => (List.range length).map fun j => mem d (a + j)

/-- The ack of a payload. -/
def ackOf (p : Payload) : Payload := MemWrapper.backwardTrans p.deviceId (MemWrapper.genTrans p)

def init : SimWrapper × List Event := (SimWrapper.init, [])

def step (cfg : Config) (mem : Nat → Nat → UInt8) (s : SimWrapper × List Event) :
    LoneAct → Except Fault (SimWrapper × List Event)
  | .step a sync activeDram =>
      match s.1.act cfg 0 ⟨sync, activeDram, load mem⟩ a with
      | .ok (w, es) => .ok (w, s.2 ++ es)
      | .error e => .error e
  | .ack p =>
      if p ∈ sent (.uspFw 0) s.2 ∧ p.bare ∉ (sent (.simBw 0) s.2).map Payload.bare then
        .ok (s.1.nbTransportBw (ackOf p), s.2 ++ [.call (.simBw 0) (ackOf p)])
      else .error .notEnabled

end LoneHost

end TSim4CXL
