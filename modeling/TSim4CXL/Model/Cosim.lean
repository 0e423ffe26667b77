/-
  The simulator with its host processes (host.cpp of the backplane; main.cpp, traceGenerator.cpp
  and packetManager.cpp of the host).

  Every SIMWrapper has a `Shmem`, at the other end of which a host process makes its calls one
  after the other. SystemC runs one process at a time, so while the backplane is in a call of one
  ring (`busy`) only host processes move. `periodic_process` polls the ring, `clock_negedge` sends
  the response to a read; that it does so before its WACK block nobody can tell.

  The guard on `hostBlocked` in `recv` stands for the host process, which is here itself: it is
  lifted before a packet is handed over.
-/
import TSim4CXL.Model.Top
import TSim4CXL.Model.FedHost

namespace TSim4CXL

/-- The packet `clock_negedge` sends; what would go past the data of the packet is left out. -/
def responsePacket (cfg : Config) (bytes : List UInt8) : Packet :=
  { Packet.zero with
    size := cfg.packetSize
    data := (List.range maxDataSize).map fun k => bytes.getD k 0
    data_length := by rw [List.length_map, List.length_range] }

/-- The acts of the calls, one call after the other. -/
def callActs (packetSize : Nat) : List Call → Option (List HostAct)
  | [] => some []
  | call :: calls => do
      let acts ← call.acts packetSize
      let rest ← callActs packetSize calls
      return acts ++ rest

/-! ## A host process -/

/-- The channel of a host and its process: `todo` is what it has not finished, `stored` the copies
    its responses were stored with. -/
structure HostLink where
  shmem : Shmem
  todo : List HostAct
  stored : List (Copy × Packet)

namespace HostLink

/-- The call the host process makes next, or the step of the call it is in. -/
def move (l : HostLink) : Shmem.Move :=
  match l.shmem.host, l.todo with
  | .ready, .send p _ :: _ => .send p
  | .ready, .store _ :: _ => .recv
  | _, _ => .go

/-- A step of the host process. An act ends with the store to the index of its ring; the handshake
    is not one of the acts. -/
def host (l : HostLink) : Except Fault HostLink :=
  match l.shmem.hostStep l.move with
  | .error e => .error e
  | .ok m =>
      match l.shmem.host, l.todo with
      | .sendStore _, .send _ _ :: rest =>
          .ok { l with shmem := m, todo := if l.shmem.greeted then rest else l.todo }
      | .recvStore p, .store c :: rest => .ok ⟨m, rest, l.stored ++ [(c, p)]⟩
      | _, _ => .ok { l with shmem := m }

/-- A step of the backplane on the rings. -/
def back (l : HostLink) (m : Shmem.Move) : Except Fault HostLink :=
  match l.shmem.backStep m with
  | .error e => .error e
  | .ok shmem => .ok { l with shmem := shmem }

end HostLink

/-! ## All of it -/

structure Cosim where
  sys : Sys
  link : Nat → HostLink
  busy : Option Nat

/-- What can happen.
    * `back h`: the next step on the rings of host `h` in the backplane
    * `poll h`: `recv_packet` is called
    * `sys a`: a stretch of a component that does not look at a ring
    * `host h`: the next step of host process `h` -/
inductive CosimAct
  | back (h : Nat)
  | poll (h : Nat)
  | sys (a : Action)
  | host (h : Nat)

def ShmemPc.isReady : ShmemPc → Bool
  | .ready => true
  | _ => false

namespace Cosim

/-- The rings as they were left, every host about to make the calls of its trace. -/
def init (cfg : Config) (ib bi : Nat → PacketBuffer) (acts : Nat → List HostAct) : Cosim where
  sys := Sys.init cfg
  link := fun h => ⟨Shmem.init (ib h) (bi h), acts h, []⟩
  busy := none

/-- `periodic_process` is where it polls. -/
def Polling (s : Sys) (h : Nat) : Prop := (s.sim h).proc = .loop ∧ (s.sim h).status = .running

instance (s : Sys) (h : Nat) : Decidable (Polling s h) := inferInstanceAs (Decidable (_ ∧ _))

/-- A stretch of `periodic_process` that begins with a poll. -/
def Polls (s : Sys) : Action → Prop
  | .sim _ (.recv _) => True
  | .sim h .process => Polling s h
  | _ => False

instance (s : Sys) (a : Action) : Decidable (Polls s a) :=
  match a with
  | .sim _ (.recv _) => isTrue trivial
  | .sim h .process => inferInstanceAs (Decidable (Polling s h))
  | .sim _ .posedge => isFalse not_false
  | .sim _ .negedge => isFalse not_false
  | .sim _ .peq => isFalse not_false
  | .usp _ _ => isFalse not_false
  | .dsp _ _ => isFalse not_false
  | .ctrl _ => isFalse not_false
  | .mem _ _ => isFalse not_false

/-- The backplane cannot tell whether the host waits. -/
def unblock (s : Sys) (h : Nat) : Sys :=
  { s with sim := Function.update s.sim h { s.sim h with hostBlocked := false } }

/-- A step of the set-up, of `recv_packet` or of `send_packet`. A packet received is handled at
    once. -/
def back (cfg : Config) (s : Cosim) (h : Nat) : Except Fault Cosim :=
  if s.sys.stopped then .error .notEnabled
  else if h < cfg.hostNum ∧ (s.busy = none ∨ s.busy = some h) then
    match (s.link h).back .go with
    | .error e => .error e
    | .ok l =>
        let busy := if l.shmem.back.isReady then none else some h
        match (s.link h).shmem.back, (s.link h).shmem.connected with
        | .recvStore p, true =>
            match Sys.step cfg (unblock s.sys h) (.sim h (.recv p)) with
            | .error e => .error e
            | .ok t => .ok ⟨t, Function.update s.link h l, busy⟩
        | _, _ => .ok ⟨s.sys, Function.update s.link h l, busy⟩
  else .error .notEnabled

def poll (cfg : Config) (s : Cosim) (h : Nat) : Except Fault Cosim :=
  if s.sys.stopped then .error .notEnabled
  else if h < cfg.hostNum ∧ s.busy = none ∧ Polling s.sys h then
    match (s.link h).back .recv with
    | .error e => .error e
    | .ok l => .ok ⟨s.sys, Function.update s.link h l, some h⟩
  else .error .notEnabled

/-- A stretch of a component. A response it makes is on its way to the host when it ends. -/
def stretch (cfg : Config) (s : Cosim) (a : Action) : Except Fault Cosim :=
  if s.busy = none ∧ ¬ Polls s.sys a then
    match Sys.step cfg s.sys a with
    | .error e => .error e
    | .ok t =>
        match a with
        | .sim h _ =>
            match responsesOf h (t.log.drop s.sys.log.length) with
            | [] => .ok { s with sys := t }
            | bytes :: _ =>
                match (s.link h).back (.send (responsePacket cfg bytes)) with
                | .error e => .error e
                | .ok l => .ok ⟨t, Function.update s.link h l, some h⟩
        | _ => .ok { s with sys := t }
  else .error .notEnabled

def host (s : Cosim) (h : Nat) : Except Fault Cosim :=
  match (s.link h).host with
  | .error e => .error e
  | .ok l => .ok { s with link := Function.update s.link h l }

def step (cfg : Config) (s : Cosim) : CosimAct → Except Fault Cosim
  | .back h => s.back cfg h
  | .poll h => s.poll cfg h
  | .sys a => s.stretch cfg a
  | .host h => s.host h

end Cosim

end TSim4CXL
