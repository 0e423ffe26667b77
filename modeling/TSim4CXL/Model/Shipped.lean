/-
  The simulator with the shipped DRAM controller behind each Bridge.

  `MemWrapper` leaves the DRAM open. Here it is a GenericDRAMController: `send` and `tick` of
  `Bridge::ClockTick` go to it, and what it calls back goes to `out_queue` in the same tick.
  Ramulator's memory system between the two is not part of the sources; DDR5_3200C.yaml gives it
  one channel, so it maps the address of a request and hands `send` and `tick` on to its one
  controller.

  The `dram` of a `MemWrapper` is not used here.
-/
import TSim4CXL.Model.Top
import TSim4CXL.Model.DramController

namespace TSim4CXL

open Transition Ramulator

/-- The address mapper, and what does not change of the controller. -/
structure MemorySystem where
  addrVec : Nat → List Int
  dram : DramConfig

/-- `tlm_command` as an `int`. -/
def Command.typeId : Command → Int
  | .read => Request.Read
  | .write => Request.Write

/-- The request `ClockTick` makes of a payload. -/
def MemorySystem.request (M : MemorySystem) (p : Payload) : Request :=
  { addr := p.address, addrVec := M.addrVec p.address, typeId := p.command.typeId }

/-! ## A device -/

/-- The controller of a device, and the `trans` of the requests sent to it, by their numbers. -/
structure Dram where
  run : DramRun
  trans : List Payload

namespace Dram

def init : Dram := ⟨.init, []⟩

/-- `req.trans` of request `n`. -/
def transOf (c : Dram) (n : Nat) : Payload := c.trans.getD n ⟨0, .read, 0, 0, 0, .null, 0, 0⟩

end Dram

/-- What can go wrong: a fault of the simulator, or an exception of the controller. -/
abbrev ShippedFault := Fault ⊕ DramError

namespace MemWrapper

/-- `memory_system->send` of the request at the front of `in_queue`, which leaves if it was
    accepted. -/
def sendFront (M : MemorySystem) (d : Nat) (m : MemWrapper) (c : Dram) :
    Except ShippedFault ((MemWrapper × Dram) × List Event) :=
  match m.inQueue with
  | [] => .ok ((m, c), [])
  | p :: q =>
      match c.run.step M.dram (.send (M.request p)) with
      | .error e => .error (.inr e)
      | .ok run =>
          let c' : Dram := ⟨run, c.trans ++ [p]⟩
          if c.run.next ∈ run.accepted then .ok
            (({ m with inQueue := q }, c'), [.call (.accept d) p])
          else .ok ((m, c'), [])

/-- `memory_system->tick` with the `cmd_complete` calls it makes. -/
def tickDram (M : MemorySystem) (P : Parts) (d : Nat) (m : MemWrapper) (c : Dram) :
    Except ShippedFault ((MemWrapper × Dram) × List Event) :=
  match c.run.step M.dram (.tick P) with
  | .error e => .error (.inr e)
  | .ok run =>
      let done := (run.called.drop c.run.called.length).map c.transOf
      .ok (({ m with outQueue := m.outQueue ++ done }, { c with run := run }),
        done.map (.call (.complete d)))

/-- `Bridge::ClockTick`. -/
def clockTickShipped (M : MemorySystem) (P : Parts) (d : Nat) (m : MemWrapper) (c : Dram) :
    Except ShippedFault ((MemWrapper × Dram) × List Event) :=
  match sendFront M d m c with
  | .error e => .error e
  | .ok (s, es) =>
      match tickDram M P d s.1 s.2 with
      | .error e => .error e
      | .ok (s', es') => .ok (s', es ++ es')

/-- One iteration of `simulate_dram`. -/
def simulateShipped (M : MemorySystem) (P : Parts) (d activeCores now : Nat) (m : MemWrapper)
    (c : Dram) :
    Except ShippedFault ((MemWrapper × Dram) × List Event) :=
  if m.running then
    match clockTickShipped M P d ((m.collect now).issue now) c with
    | .error e => .error e
    | .ok (s, es) =>
        if activeCores = 0 ∧ s.1.mOutstanding = 0 then
          .ok (({ s.1 with running := false }, s.2), es ++ [.dramIdle d])
        else .ok (s, es)
  else .error (.inl .notEnabled)

end MemWrapper

/-! ## The simulator -/

/-- A step of an open DRAM. -/
def Action.isDram : Action → Bool
  | .mem _ (.simulateDram _ _) => true
  | .mem _ (.complete _) => true
  | _ => false

inductive ShippedAction
  | other (a : Action)
  | simulateDram (d : Nat) (P : Parts) (now : Nat)

structure ShippedSys where
  sys : Sys
  dram : Nat → Dram

namespace ShippedSys

def init (cfg : Config) : ShippedSys := ⟨Sys.init cfg, fun _ => Dram.init⟩

def step (cfg : Config) (M : MemorySystem) (s : ShippedSys) :
    ShippedAction → Except ShippedFault ShippedSys
  | .other a =>
      if a.isDram then .error (.inl .notEnabled)
      else match Sys.step cfg s.sys a with
      | .ok t => .ok { s with sys := t }
      | .error e => .error (.inl e)
  | .simulateDram d P now =>
      if s.sys.stopped then .error (.inl .notEnabled)
      else if d < cfg.dramNum then
        match (s.sys.mem d).simulateShipped M P d s.sys.activeCores now (s.dram d) with
        | .ok ((m, c), es) =>
            .ok ⟨({ s.sys with mem := Function.update s.sys.mem d m } : Sys).emit es,
              Function.update s.dram d c⟩
        | .error e => .error e
      else .error (.inl .notEnabled)

end ShippedSys

end TSim4CXL
