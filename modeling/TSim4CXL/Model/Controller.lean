/-
  Controller (controller.cpp): merges the requests of all hosts, splits the acks of all
  devices again by the two address-keyed maps `w_trans_id` and `r_trans_id`.

  `CtrlFw` and `CtrlBw` say where the two threads are suspended. The packing branch of
  `flit_packing_68` is chosen before its waits; the position in its loop is part of the
  suspended state.
-/
import TSim4CXL.Model.Log

namespace TSim4CXL

/-- `pipeline` of the controller: requests per request pipeline cycle. -/
def ctrlPipeline : Nat := 16

/-- Where `Controller::fw_thread` is suspended. -/
inductive CtrlFw
  | idle
  | read (delay : Delay)
  | write (delay : Delay)
deriving DecidableEq

/-- Where `Controller::bw_thread` is suspended.
    * `idle`: `wait(period)` of the loop
    * `drsWait`, `ndrWait`, `mixWait`: the first `wait` of the only-DRS, only-NDR and mixed branch
    * `drsFlit i`, `ndrFlit i`: `wait(period)` of round `i` of the branch's loop
    * `mixRead`: `wait(period)` before the one read ack of the mixed branch -/
inductive CtrlBw
  | idle
  | drsWait
  | drsFlit (i : Nat)
  | ndrWait
  | ndrFlit (i : Nat)
  | mixWait
  | mixRead
deriving DecidableEq

structure Controller where
  rTransId : Nat → Nat
  wTransId : Nat → Nat
  rNum : Nat
  wNum : Nat
  rQueue : List Payload
  wQueue : List Payload
  rackQueue : List Payload
  wackQueue : List Payload
  fw : CtrlFw
  bw : CtrlBw

namespace Controller

/-- A map never asked for a key yet gives 0 (`operator[]`). -/
def init : Controller where
  rTransId := fun _ => 0
  wTransId := fun _ => 0
  rNum := 0
  wNum := 0
  rQueue := []
  wQueue := []
  rackQueue := []
  wackQueue := []
  fw := .idle
  bw := .idle

/-- `r_trans_id` or `w_trans_id`, by the command of the payload. -/
def transId (c : Controller) : Command → Nat → Nat
  | .read => c.rTransId
  | .write => c.wTransId

/-! ### fw_thread -/

/-- `master[device_map[trans]]->nb_transport_fw`. -/
def sendFw (cfg : Config) (p : Payload) : Except Fault (List Event) :=
  if p.deviceId < cfg.dramNum then .ok [.call (.memFw p.deviceId) p] else .error .noSocket

/-- The wait of a request: the controller latency once per pipeline cycle. -/
def fwDelay (cfg : Config) (num : Nat) : Delay :=
  if num % ctrlPipeline = 0 then .ns cfg.ctrlLatency else .ns cfg.linkLatency

/-- The WRITE part of an iteration up to its `wait`. -/
def checkWrite (cfg : Config) (c : Controller) : Controller :=
  if c.wQueue ≠ [] then { c with fw := .write (fwDelay cfg c.wNum) } else { c with fw := .idle }

/-- `fw_thread` resumed after the `wait` it is suspended in. -/
def fwThread (cfg : Config) (c : Controller) : Except Fault (Controller × List Event) :=
  match c.fw with
  | .idle =>
      if c.rQueue ≠ [] then .ok ({ c with fw := .read (fwDelay cfg c.rNum) }, [])
      else .ok (checkWrite cfg c, [])
  | .read _ => do
      let (p, q) ← front c.rQueue
      let es ← sendFw cfg p
      pure (checkWrite cfg { c with rQueue := q, rNum := u32 (c.rNum + 1) }, es)
  | .write _ => do
      let (p, q) ← front c.wQueue
      let es ← sendFw cfg p
      pure ({ c with wQueue := q, wNum := u32 (c.wNum + 1), fw := .idle }, es)

/-! ### bw_thread -/

/-- `slave[id]->nb_transport_bw` with `id` looked up in `transId` by address. -/
def sendBw (cfg : Config) (transId : Nat → Nat) (p : Payload) : Except Fault (List Event) :=
  if transId p.address < cfg.hostNum then .ok [.call (.dspBw (transId p.address)) p]
  else .error .noSocket

/-- Round `i` of the only-DRS loop up to its `wait`: at most 3 rounds. -/
def drsRound (c : Controller) (i : Nat) : Controller :=
  if i < 3 ∧ c.rackQueue ≠ [] then { c with bw := .drsFlit i } else { c with bw := .idle }

/-- Round `i` of the only-NDR loop up to its `wait`: at most 2 rounds. -/
def ndrRound (c : Controller) (i : Nat) : Controller :=
  if i < 2 ∧ c.wackQueue ≠ [] then { c with bw := .ndrFlit i } else { c with bw := .idle }

/-- The write acks of the mixed branch: at most `n`, without a `wait`. -/
def mixWrites (cfg : Config) : Nat → Controller → Except Fault (Controller × List Event)
  | 0, c => .ok (c, [])
  | n + 1, c =>
      match c.wackQueue with
      | [] => .ok (c, [])
      | p :: q => do
          let es ← sendBw cfg c.wTransId p
          let (c, es') ← mixWrites cfg n { c with wackQueue := q }
          pure (c, es ++ es')

/-- `bw_thread` resumed after the `wait` it is suspended in. -/
def bwThread (cfg : Config) (c : Controller) : Except Fault (Controller × List Event) :=
  match c.bw with
  | .idle =>
      if c.rackQueue = [] ∧ c.wackQueue = [] then .ok (c, [])
      else if c.wackQueue = [] then .ok ({ c with bw := .drsWait }, [])
      else if c.rackQueue = [] then .ok ({ c with bw := .ndrWait }, [])
      else .ok ({ c with bw := .mixWait }, [])
  | .drsWait => .ok (drsRound c 0, [])
  | .drsFlit i => do
      let (p, q) ← front c.rackQueue
      let es ← sendBw cfg c.rTransId p
      pure (drsRound { c with rackQueue := q } (i + 1), es)
  | .ndrWait => .ok (ndrRound c 0, [])
  | .ndrFlit i => do
      let (p, q) ← front c.wackQueue
      let es ← sendBw cfg c.wTransId p
      pure (ndrRound { c with wackQueue := q } (i + 1), es)
  | .mixWait => do
      let (c, es) ← mixWrites cfg 2 c
      pure ({ c with bw := .mixRead }, es)
  | .mixRead => do
      let (p, q) ← front c.rackQueue
      let es ← sendBw cfg c.rTransId p
      pure ({ c with rackQueue := q, bw := .idle }, es)

/-! ### Calls of the neighbours -/

/-- `trans_id[trans.get_address()] = id`. -/
def setTransId (m : Nat → Nat) (address id : Nat) : Nat → Nat :=
  fun a => if a = address then id else m a

/-- `nb_transport_fw` on slave socket `id`. -/
def nbTransportFw (c : Controller) (id : Nat) (p : Payload) : Controller :=
  match p.command with
  | .read => { c with rTransId := setTransId c.rTransId p.address id, rQueue := c.rQueue ++ [p] }
  | .write => { c with wTransId := setTransId c.wTransId p.address id, wQueue := c.wQueue ++ [p] }

/-- `nb_transport_bw`; the `id` it looks up is not used. -/
def nbTransportBw (c : Controller) (p : Payload) : Controller :=
  match p.command with
  | .read => { c with rackQueue := c.rackQueue ++ [p] }
  | .write => { c with wackQueue := c.wackQueue ++ [p] }

inductive Act
  | fw
  | bw

def act (cfg : Config) (c : Controller) : Act → Except Fault (Controller × List Event)
  | .fw => c.fwThread cfg
  | .bw => c.bwThread cfg

/-- What an event does to the controller. -/
def hear (c : Controller) : Event → Controller
  | .call (.ctrlFw h) p => c.nbTransportFw h p
  | .call (.ctrlBw _) p => c.nbTransportBw p
  | _ => c

end Controller

end TSim4CXL
