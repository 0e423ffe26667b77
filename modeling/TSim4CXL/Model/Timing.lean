/-
  `periodic_process` in simulated time.

  The thread runs in stretches from one `wait` to the next; `now` is when the next one
  begins. What else the simulator does up to then is a function of what this host has
  handled and when (`World`): the flags, `active_dram`, and whether the response to its
  read has been sent. `polls k` is how many polls of the ring come back empty before packet
  `k` is visible; while the host waits for a response there is nothing it could send.

  Times are picoseconds. Payloads pile up in `r_queue` and `w_queue` here, what the clock
  edges do with them is part of the `World`.
-/
import TSim4CXL.Model.SimWrapper
import Mathlib.Logic.Function.Iterate

namespace TSim4CXL

/-- What `periodic_process` finds when it runs. -/
structure World where
  sync : SyncObject
  activeDram : Nat
  answered : Bool

def World.env (v : World) : SimEnv := ⟨v.sync, v.activeDram, fun _ _ => []⟩

/-- A host, its clock period and the packets its process sends. -/
structure HostSetup where
  cfg : Config
  host : Nat
  period : Nat
  packets : List Packet

namespace HostSetup

/-- The length of a `wait`. -/
def time (S : HostSetup) : Delay → Nat
  | .period => S.period
  | .ns n => 1000 * n

/-- Simulated time an empty poll takes. -/
def pollTime (S : HostSetup) (w : SimWrapper) : Nat :=
  match w.emptyPollWait with
  | none => 0
  | some d => S.time d

end HostSetup

/-- `next` is the number of packets received, `handled` the packets handled and when. -/
structure Timed where
  w : SimWrapper
  now : Nat
  next : Nat
  emptyPolls : Nat
  handled : List (Packet × Nat)

/-- The rest of the simulator. -/
abbrev Surroundings := List (Packet × Nat) → Nat → World

namespace Timed

def init (polls : Nat → Nat) : Timed := ⟨SimWrapper.init, 0, 0, polls 0, []⟩

/-- The SIMWrapper after what the clock edges did: a response sets `req_done`. -/
def hear (world : Surroundings) (s : Timed) : SimWrapper :=
  if s.w.proc = .loop ∧ s.w.hostBlocked = true ∧ (world s.handled s.now).answered = true then
    { s.w with reqDone := true, hostBlocked := false }
  else s.w

section

variable (S : HostSetup) (world : Surroundings) (polls : Nat → Nat)

/-- A poll that returns `packet`. A packet without delta is handled at once. -/
def receive (s : Timed) (w : SimWrapper) (packet : Packet) : Timed :=
  match w.recv S.host (world s.handled s.now).env packet with
  | .error _ => { s with w := w }
  | .ok (w', _) =>
      { w := w'
        now := s.now + S.time (w'.proc.delay S.cfg S.host)
        next := s.next + 1
        emptyPolls := polls (s.next + 1)
        handled := if packet.delta = 0 then s.handled ++ [(packet, s.now)] else s.handled }

/-- A poll that comes back empty. -/
def pollEmpty (s : Timed) (w : SimWrapper) : Timed :=
  { s with
    w := w
    now := s.now + S.pollTime w
    emptyPolls := if w.hostBlocked then s.emptyPolls else s.emptyPolls - 1 }

/-- The thread resumed elsewhere. After `wait(delta)` the packet is handled. -/
def resume (s : Timed) (w : SimWrapper) : Timed :=
  match w.process S.cfg S.host (world s.handled s.now).env with
  | .error _ => { s with w := w }
  | .ok (w', _) =>
      { s with
        w := w'
        now := s.now + S.time (w'.proc.delay S.cfg S.host)
        handled := match w.proc with
          | .delta packet => s.handled ++ [(packet, s.now)]
          | _ => s.handled }

/-- One stretch of `periodic_process`. -/
def wake (s : Timed) : Timed :=
  let w := s.hear world
  if w.proc = .loop ∧ w.status = .running then
    if w.hostBlocked = false ∧ s.emptyPolls = 0 then
      match S.packets[s.next]? with
      | some packet => s.receive S world polls w packet
      | none => s.pollEmpty S w
    else s.pollEmpty S w
  else s.resume S world w

/-- Packet `k` is handled at time `t`. -/
def HandledAt (k t : Nat) : Prop :=
  ∃ n packet, ((wake S world polls)^[n] (init polls)).handled[k]? = some (packet, t)

end

end Timed

end TSim4CXL
