/-
  The acks of one host in simulated time: `USP::bw_thread`, the event queue and the incoming slots
  of the SIMWrapper, and its rising edges.

  Times are integer ticks. `wake` is when the `wait` of `bw_thread` ends, `edge` when the clock
  rises next; both happen at their time and time does not pass them by. A notification of the event
  queue has no delay, so time stands still until it is delivered; within one time anything may come
  in any order. What else the SIMWrapper does may happen at any time, as may the arrival of an ack.
  `fw_thread` shares nothing with `bw_thread` and is left out.
-/
import TSim4CXL.Model.SimWrapper
import TSim4CXL.Model.Usp

namespace TSim4CXL

/-- The `wait` that `bw_thread` is suspended in. -/
def UspBw.delay : UspBw → Delay
  | .idle => .period
  | .wack _ d => d
  | .rack _ d => d

/-- A host: its period, which is the one of its clock and of `wait(period)`, and the length of a
    nanosecond, both in ticks. -/
structure AckSetup where
  cfg : Config
  host : Nat
  period : Nat
  ns : Nat

/-- The length of a `wait`. -/
def AckSetup.time (S : AckSetup) : Delay → Nat
  | .period => S.period
  | .ns n => S.ns * n

/-- The period is positive, and so is every wait of `bw_thread` for an ack. -/
structure AckSetup.Waits (S : AckSetup) : Prop where
  period : 0 < S.period
  ns : 0 < S.ns
  port : 1 ≤ S.cfg.portLatency
  link : 1 ≤ S.cfg.linkLatency

/-- `sent` are the acks the USP has sent, with the times, `racks` and `wacks` what `clock_posedge`
    has appended to `rack_queue` and `wack_queue`, `ended` the acks taken out of these again, which
    `clock_negedge` answers with END_RESP. -/
structure AckLink where
  usp : Usp
  w : SimWrapper
  now : Nat
  wake : Nat
  edge : Nat
  sent : List (Payload × Nat)
  racks : List Payload
  wacks : List Payload
  ended : List Payload

namespace AckLink

/-- The threads start at time 0, the clock rises for the first time at `phase`. -/
def init (phase : Nat) : AckLink where
  usp := Usp.init
  w := SimWrapper.init
  now := 0
  wake := 0
  edge := phase
  sent := []
  racks := []
  wacks := []
  ended := []

/-- What can happen:
    * `ack p`: the DSP hands an ack to the USP
    * `bw`: `bw_thread` resumes
    * `peq`: a notification of the event queue
    * `posedge`: a rising edge
    * `other b env`: anything else the SIMWrapper does
    * `tick`: time passes -/
inductive Act
  | ack (p : Payload)
  | bw
  | peq
  | posedge
  | other (b : SimWrapper.Act) (env : SimEnv)
  | tick

/-- Neither a notification nor a rising edge. -/
def Act.isOther : SimWrapper.Act → Bool
  | .posedge => false
  | .peq => false
  | _ => true

def step (S : AckSetup) (s : AckLink) : Act → Except Fault AckLink
  | .ack p => .ok { s with usp := s.usp.nbTransportBw p }
  | .bw =>
      if s.now = s.wake then
        let r := s.usp.bwThread S.cfg S.host
        .ok { s with
          usp := r.1
          w := r.2.foldl (SimWrapper.hear S.host) s.w
          wake := s.now + S.time r.1.bw.delay
          sent := s.sent ++ (TSim4CXL.sent (.simBw S.host) r.2).map (·, s.now) }
      else .error .notEnabled
  | .peq =>
      match s.w.peqCb with
      | .error e => .error e
      | .ok w => .ok { s with w := w }
  | .posedge =>
      if s.now = s.edge then
        let w := s.w.clockPosedge
        .ok { s with
          w := w
          edge := s.edge + S.period
          racks := s.racks ++ w.rackQueue.drop s.w.rackQueue.length
          wacks := s.wacks ++ w.wackQueue.drop s.w.wackQueue.length }
      else .error .notEnabled
  | .other b env =>
      if Act.isOther b then
        match s.w.act S.cfg S.host env b with
        | .error e => .error e
        | .ok (w, es) =>
            .ok { s with w := w, ended := s.ended ++ TSim4CXL.sent (.endResp S.host) es }
      else .error .notEnabled
  | .tick =>
      if s.now < s.wake ∧ s.now < s.edge ∧ s.w.peq = [] then .ok { s with now := s.now + 1 }
      else .error .notEnabled

end AckLink

end TSim4CXL
