/-
  Top (Top.h): the components of the simulator and the steps they take.

  SystemC runs one process at a time from one `wait` to the next. A step of `Sys` is
  such a stretch of one component: it changes that component and emits events, which
  every component then hears in order. Nothing is assumed about the order in which
  components move, so a run is any interleaving; time is not modelled here.

  `log` is a history variable: all events so far, oldest first. No step reads it.
-/
import TSim4CXL.Model.SimWrapper
import TSim4CXL.Model.Usp
import TSim4CXL.Model.Controller
import TSim4CXL.Model.MemWrapper
import Mathlib.Logic.Function.Basic

namespace TSim4CXL

open Transition

structure Sys where
  sim : Nat → SimWrapper
  usp : Nat → Usp
  dsp : Nat → Dsp
  ctrl : Controller
  mem : Nat → MemWrapper
  sync : SyncObject
  activeCores : Nat
  activeDram : Nat
  stopped : Bool
  log : List Event

/-- One stretch of one component. -/
inductive Action
  | sim (h : Nat) (a : SimWrapper.Act)
  | usp (h : Nat) (a : Usp.Act)
  | dsp (h : Nat) (a : Dsp.Act)
  | ctrl (a : Controller.Act)
  | mem (d : Nat) (a : MemWrapper.Act)

def Action.owner : Action → Comp
  | .sim h _ => .sim h
  | .usp h _ => .usp h
  | .dsp h _ => .dsp h
  | .ctrl _ => .ctrl
  | .mem d _ => .mem d

namespace Sys

/-- Everything empty, one core per host active, `active_dram |= 1`. -/
def init (cfg : Config) : Sys where
  sim := fun _ => SimWrapper.init
  usp := fun _ => Usp.init
  dsp := fun _ => Dsp.init
  ctrl := Controller.init
  mem := fun _ => MemWrapper.init
  sync := SyncObject.init
  activeCores := cfg.hostNum
  activeDram := 1
  stopped := false
  log := []

/-- The bytes behind a data pointer. -/
def load (s : Sys) (ptr : DataPtr) (length : Nat) : List UInt8 :=
  match ptr with
  | .null => []
  | .buffer bytes => bytes.take length
  | .memData d a => (List.range length).map fun j => (s.mem d).memData (a + j)

def env (s : Sys) : SimEnv := ⟨s.sync, s.activeDram, s.load⟩

/-- `active_cores--` of a host that ended. -/
def hearCores (n : Nat) : Event → Nat
  | .coreDone _ => n - 1
  | _ => n

/-- `active_dram = 0` of a device that left its loop. -/
def hearDram (n : Nat) : Event → Nat
  | .dramIdle _ => 0
  | _ => n

/-- `sc_stop`. -/
def hearStop (b : Bool) : Event → Bool
  | .stop _ => true
  | _ => b

/-- All components hear the events in order. -/
def emit (s : Sys) (es : List Event) : Sys where
  sim := fun h => es.foldl (SimWrapper.hear h) (s.sim h)
  usp := fun h => es.foldl (Usp.hear h) (s.usp h)
  dsp := fun h => es.foldl (Dsp.hear h) (s.dsp h)
  ctrl := es.foldl Controller.hear s.ctrl
  mem := fun d => es.foldl (MemWrapper.hear d) (s.mem d)
  sync := es.foldl SyncObject.hear s.sync
  activeCores := es.foldl hearCores s.activeCores
  activeDram := es.foldl hearDram s.activeDram
  stopped := es.foldl hearStop s.stopped
  log := s.log ++ es

/-- One step. After `sc_stop` there is none; components past `host_num` and `dram_num` do not
    exist. -/
def step (cfg : Config) (s : Sys) (a : Action) : Except Fault Sys :=
  if s.stopped then .error .notEnabled
  else match a with
  | .sim h a =>
      if h < cfg.hostNum then
        match (s.sim h).act cfg h s.env a with
        | .ok (w, es) => .ok (({ s with sim := Function.update s.sim h w } : Sys).emit es)
        | .error e => .error e
      else .error .notEnabled
  | .usp h a =>
      if h < cfg.hostNum then
        match (s.usp h).act cfg h a with
        | .ok (u, es) => .ok (({ s with usp := Function.update s.usp h u } : Sys).emit es)
        | .error e => .error e
      else .error .notEnabled
  | .dsp h a =>
      if h < cfg.hostNum then
        let (d, es) := (s.dsp h).act h a
        .ok (({ s with dsp := Function.update s.dsp h d } : Sys).emit es)
      else .error .notEnabled
  | .ctrl a =>
      match s.ctrl.act cfg a with
      | .ok (c, es) => .ok (({ s with ctrl := c } : Sys).emit es)
      | .error e => .error e
  | .mem d a =>
      if d < cfg.dramNum then
        match (s.mem d).act d s.activeCores s.load a with
        | .ok (m, es) => .ok (({ s with mem := Function.update s.mem d m } : Sys).emit es)
        | .error e => .error e
      else .error .notEnabled

/-- The states of all runs of the simulator. -/
def Reachable (cfg : Config) (s : Sys) : Prop := Reach (step cfg) anyStep (init cfg) s

/-- The states of the runs whose steps all meet `ok` in the state before them. -/
def ReachableBy (cfg : Config) (ok : Sys → Action → Prop) (s : Sys) : Prop :=
  Reach (step cfg) ok (init cfg) s

end Sys

/-! ## Concrete runs -/

/-- A small simulator: `payloads` payloads of two bytes a packet, every latency 1. -/
def smallConfig (hosts devices payloads : Nat) : Config where
  hostNum := hosts
  dramNum := devices
  packetSize := 2 * payloads
  dramReqSize := 2
  portLatency := 1
  linkLatency := 1
  devIcLatency := 1
  cpuLatency := fun _ => 1
  dramSize := fun _ => 4096

/-- A packet for device 0 whose data is one byte over and over. -/
def Packet.fill (type : PacketType) (address : Nat) (byte : UInt8) : Packet where
  type := type
  size := 0
  delta := 0
  address := address
  deviceId := 0
  data := List.replicate maxDataSize byte
  data_length := List.length_replicate

/-- Every component once, requests first. Those that cannot move are skipped by `runSkip`. -/
def round (cfg : Config) : List Action :=
  (List.range cfg.hostNum).flatMap (fun h =>
      [.sim h .process, .sim h .negedge, .usp h .fw, .dsp h .fw]) ++
    [.ctrl .fw] ++
    (List.range cfg.dramNum).flatMap (fun d =>
      [.mem d .peq, .mem d .posedge, .mem d (.simulateDram true 0), .mem d (.complete 0),
        .mem d .negedge]) ++
    [.ctrl .bw] ++
    (List.range cfg.hostNum).flatMap (fun h =>
      [.dsp h .bw, .usp h .bw, .sim h .peq, .sim h .posedge])

/-- `n` rounds. -/
def rounds (cfg : Config) (n : Nat) : List Action := (List.replicate n (round cfg)).flatten

end TSim4CXL
