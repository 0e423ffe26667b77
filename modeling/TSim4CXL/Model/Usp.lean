/-
  USP, the upstream port of a host (usp.cpp), and DSP, the downstream port behind it
  (dsp.cpp).

  Both threads of the USP keep a payload in a local variable while they wait; `UspFw`
  and `UspBw` say where a thread is suspended and what it holds. A step of a thread runs
  it to its next `wait`. The DSP pops and hands on without waiting in between.
-/
import TSim4CXL.Model.Log

namespace TSim4CXL

/-! ## USP -/

/-- `r_msg`: payloads per read flit. -/
def rMsg : Nat := 2

/-- `pipeline` of the USP: acks per response pipeline cycle. -/
def uspPipeline : Nat := 8

/-- Where `USP::fw_thread` is suspended.
    * `idle`: `wait(period)` at the end of an iteration
    * `lastFlit p`: phase 4, `p` taken from `pending_queue`
    * `firstFlit`: phase 0
    * `midFlit p`: phases 1 to 3, `p` taken from `pending_queue`
    * `readFlit`: the read branch -/
inductive UspFw
  | idle
  | lastFlit (p : Payload)
  | firstFlit (delay : Delay)
  | midFlit (p : Payload)
  | readFlit (delay : Delay)
deriving DecidableEq

/-- Where `USP::bw_thread` is suspended: with a write or a read ack in hand, or between two
    iterations. -/
inductive UspBw
  | idle
  | wack (p : Payload) (delay : Delay)
  | rack (p : Payload) (delay : Delay)
deriving DecidableEq

structure Usp where
  rQueue : List Payload
  wQueue : List Payload
  rackQueue : List Payload
  wackQueue : List Payload
  pendingQueue : List Payload
  fIdx : Nat
  rackNum : Nat
  wackNum : Nat
  stats : Statistics
  fw : UspFw
  bw : UspBw

namespace Usp

def init : Usp where
  rQueue := []
  wQueue := []
  rackQueue := []
  wackQueue := []
  pendingQueue := []
  fIdx := 0
  rackNum := 0
  wackNum := 0
  stats := {}
  fw := .idle
  bw := .idle

/-- `wait(port_latency+link_latency, SC_NS)`. -/
def flitLatency (cfg : Config) : Delay := .ns (u32 (cfg.portLatency + cfg.linkLatency))

/-! ### fw_thread -/

/-- The READ part of an iteration: `flit_packing_68(true)` up to its `wait`, or the
    `wait(period)` of the loop. -/
def checkRead (cfg : Config) (u : Usp) : Except Fault Usp :=
  if rMsg ≤ u.rQueue.length then
    if cfg.payloadNum / rMsg = 0 then .error .divZero
    else
      let delay :=
        if u.stats.readFlit % (cfg.payloadNum / rMsg) = 0 then flitLatency cfg else .period
      .ok { u with fw := .readFlit delay }
  else .ok { u with fw := .idle }

/-- `flit_packing_68(false)` up to its `wait`. -/
def startWriteFlit (cfg : Config) (u : Usp) : Except Fault Usp :=
  if u.fIdx = 4 then do
    let (p, q) ← front u.pendingQueue
    pure { u with fIdx := 0, pendingQueue := q, fw := .lastFlit p }
  else if u.fIdx = 0 then
    let delay := if u.stats.writeFlit % 20 = 0 then flitLatency cfg else .period
    pure { u with fw := .firstFlit delay }
  else do
    let (p, q) ← front u.pendingQueue
    pure { u with pendingQueue := q, fw := .midFlit p }

/-- The end of `flit_packing_68(false)` in phases 0 to 3: the next write becomes pending. -/
def takeWrite (u : Usp) : Except Fault Usp := do
  let (p, q) ← front u.wQueue
  pure { u with wQueue := q, pendingQueue := u.pendingQueue ++ [p], fIdx := u.fIdx + 1 }

/-- The payloads `n` times `front` and `pop_front` give. -/
def fronts : Nat → List Payload → Except Fault (List Payload × List Payload)
  | 0, q => .ok ([], q)
  | n + 1, q => do
      let (p, q) ← front q
      let (ps, q) ← fronts n q
      pure (p :: ps, q)

/-- `fw_thread` resumed after the `wait` it is suspended in. -/
def fwThread (cfg : Config) (h : Nat) (u : Usp) : Except Fault (Usp × List Event) :=
  match u.fw with
  | .idle =>
      if u.wQueue ≠ [] ∨ u.fIdx = 4 then do
        let u ← startWriteFlit cfg u
        pure (u, [])
      else do
        let u ← checkRead cfg u
        pure (u, [])
  | .lastFlit p => do
      let u ← checkRead cfg { u with stats := u.stats.increaseWFlit }
      pure (u, [.call (.dspFw h) p])
  | .firstFlit _ => do
      let u ← takeWrite { u with stats := u.stats.increaseWFlit }
      let u ← checkRead cfg u
      pure (u, [])
  | .midFlit p => do
      let u ← takeWrite { u with stats := u.stats.increaseWFlit }
      let u ← checkRead cfg u
      pure (u, [.call (.dspFw h) p])
  | .readFlit _ => do
      let (ps, q) ← fronts rMsg u.rQueue
      pure ({ u with rQueue := q, stats := u.stats.increaseRFlit, fw := .idle },
        ps.map (.call (.dspFw h)))

/-! ### bw_thread -/

/-- The wait of a response flit: the port latency once per pipeline cycle. -/
def ackDelay (cfg : Config) (num : Nat) : Delay :=
  if num % uspPipeline = 0 then .ns cfg.portLatency else .ns cfg.linkLatency

/-- The RACK part of an iteration up to its `wait`. -/
def checkRack (cfg : Config) (u : Usp) : Usp :=
  match u.rackQueue with
  | [] => { u with bw := .idle }
  | p :: q => { u with rackQueue := q, bw := .rack p (ackDelay cfg u.rackNum) }

/-- `bw_thread` resumed after the `wait` it is suspended in. -/
def bwThread (cfg : Config) (h : Nat) (u : Usp) : Usp × List Event :=
  match u.bw with
  | .idle =>
      match u.wackQueue with
      | [] => (checkRack cfg u, [])
      | p :: q => ({ u with wackQueue := q, bw := .wack p (ackDelay cfg u.wackNum) }, [])
  | .wack p _ => (checkRack cfg { u with wackNum := u32 (u.wackNum + 1) }, [.call (.simBw h) p])
  | .rack p _ => ({ u with rackNum := u32 (u.rackNum + 1), bw := .idle }, [.call (.simBw h) p])

/-! ### Calls of the neighbours -/

/-- `nb_transport_fw` with phase BEGIN_REQ. -/
def nbTransportFw (u : Usp) (p : Payload) : Usp :=
  match p.command with
  | .read => { u with rQueue := u.rQueue ++ [p] }
  | .write => { u with wQueue := u.wQueue ++ [p] }

def nbTransportBw (u : Usp) (p : Payload) : Usp :=
  match p.command with
  | .read => { u with rackQueue := u.rackQueue ++ [p] }
  | .write => { u with wackQueue := u.wackQueue ++ [p] }

inductive Act
  | fw
  | bw

def act (cfg : Config) (h : Nat) (u : Usp) : Act → Except Fault (Usp × List Event)
  | .fw => u.fwThread cfg h
  | .bw => .ok (u.bwThread cfg h)

/-- What an event does to USP `h`. -/
def hear (h : Nat) (u : Usp) : Event → Usp
  | .call (.uspFw k) p => if k = h then u.nbTransportFw p else u
  | .call (.uspBw k) p => if k = h then u.nbTransportBw p else u
  | _ => u

end Usp

/-! ## DSP -/

structure Dsp where
  rQueue : List Payload
  wQueue : List Payload
  rackQueue : List Payload
  wackQueue : List Payload

namespace Dsp

def init : Dsp := ⟨[], [], [], []⟩

/-- One iteration of `fw_thread`: `if (!queue.empty())`, the first read, then the first write. -/
def fwThread (h : Nat) (d : Dsp) : Dsp × List Event :=
  ({ d with rQueue := d.rQueue.drop 1, wQueue := d.wQueue.drop 1 },
    (d.rQueue.take 1 ++ d.wQueue.take 1).map (.call (.ctrlFw h)))

/-- One iteration of `bw_thread`. -/
def bwThread (h : Nat) (d : Dsp) : Dsp × List Event :=
  ({ d with rackQueue := d.rackQueue.drop 1, wackQueue := d.wackQueue.drop 1 },
    (d.rackQueue.take 1 ++ d.wackQueue.take 1).map (.call (.uspBw h)))

def nbTransportFw (d : Dsp) (p : Payload) : Dsp :=
  match p.command with
  | .read => { d with rQueue := d.rQueue ++ [p] }
  | .write => { d with wQueue := d.wQueue ++ [p] }

def nbTransportBw (d : Dsp) (p : Payload) : Dsp :=
  match p.command with
  | .read => { d with rackQueue := d.rackQueue ++ [p] }
  | .write => { d with wackQueue := d.wackQueue ++ [p] }

inductive Act
  | fw
  | bw

def act (h : Nat) (d : Dsp) : Act → Dsp × List Event
  | .fw => d.fwThread h
  | .bw => d.bwThread h

/-- What an event does to DSP `h`. -/
def hear (h : Nat) (d : Dsp) : Event → Dsp
  | .call (.dspFw k) p => if k = h then d.nbTransportFw p else d
  | .call (.dspBw k) p => if k = h then d.nbTransportBw p else d
  | _ => d

end Dsp

end TSim4CXL
