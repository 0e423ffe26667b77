/-
  SIMWrapper (sim_wrapper.cpp) and SyncObject (sync_object.h).

  `periodic_process` is a thread: `ProcState` says in which `wait` it is suspended,
  and one `process` step runs it from there to its next `wait`. The shared-memory ring
  is not modelled here: `recv` is a poll that returns a packet, a poll that comes back
  empty is a `process` step from `loop`. The host process is modelled as far as the
  backplane can tell: after a read request it sends nothing until the response
  (`readPacketData` blocks), `hostBlocked` in the state.

  The names of log files, the printed counters `active_cycle` and `total_cycle` are
  left out. `r_idx` and `w_idx` only number the packets; they are kept unbounded.
-/
import TSim4CXL.Lib.Store
import TSim4CXL.Model.Log

namespace TSim4CXL

/-! ## SyncObject -/

/-- The flag table. An index past its 2000000000 entries is outside the model. -/
structure SyncObject where
  sync : Nat → Bool

namespace SyncObject

def init : SyncObject := ⟨fun _ => false⟩

def signal (o : SyncObject) (syncId : Nat) : SyncObject :=
  ⟨fun a => if a = syncId then true else o.sync a⟩

def free (o : SyncObject) (syncId : Nat) : SyncObject :=
  ⟨fun a => if a = syncId then false else o.sync a⟩

def checkSignal (o : SyncObject) (syncId : Nat) : Bool := o.sync syncId

/-- What an event does to the table. -/
def hear (o : SyncObject) : Event → SyncObject
  | .signal _ a => o.signal a
  | .free _ a => o.free a
  | _ => o

@[simp] theorem checkSignal_init (a : Nat) : init.checkSignal a = false := rfl

@[simp] theorem checkSignal_signal (o : SyncObject) (b a : Nat) :
    (o.signal b).checkSignal a = if a = b then true else o.checkSignal a := rfl

@[simp] theorem checkSignal_free (o : SyncObject) (b a : Nat) :
    (o.free b).checkSignal a = if a = b then false else o.checkSignal a := rfl

end SyncObject

/-! ## SIMWrapper -/

/-- `Status` of host.h, after the connection is set up. -/
inductive Status
  | running
  | terminated
deriving DecidableEq, Repr

/-- Where `periodic_process` is suspended.
    * `loop`: the `wait(period)` that ends an iteration or follows an empty poll
    * `delta`: `wait(delta)` before a packet is handled
    * `gate`: `wait(period)` of `handle_wait_packet`, after `check_signal` returned `syncDone`
    * `readCpu`, `writeCpu`: `wait(cpu_latency)` of the read and write handlers
    * `done`: left the loop and called `sc_stop` -/
inductive ProcState
  | loop
  | delta (packet : Packet)
  | gate (packet : Packet) (syncDone : Bool)
  | readCpu (packet : Packet)
  | writeCpu (packet : Packet)
  | done
deriving DecidableEq

/-- The `wait` the process is suspended in. -/
def ProcState.delay (cfg : Config) (h : Nat) : ProcState → Delay
  | .loop => .period
  | .delta packet => .ns packet.delta
  | .gate _ _ => .period
  | .readCpu _ => .ns (cfg.cpuLatency h)
  | .writeCpu _ => .ns (cfg.cpuLatency h)
  | .done => .period

structure SimWrapper where
  rQueue : List Payload
  wQueue : List Payload
  rackQueue : List Payload
  wackQueue : List Payload
  syncQueue : List Nat
  rackIncoming : Option Payload
  wackIncoming : Option Payload
  peq : List Payload
  packetData : Nat → UInt8
  rackNum : Nat
  wackNum : Nat
  rIdx : Nat
  wIdx : Nat
  outstanding : Nat
  reqDone : Bool
  status : Status
  received : Bool
  terminated : Bool
  hostBlocked : Bool
  proc : ProcState
  stats : Statistics

/-- What a SIMWrapper reads of the rest of the system: the flags, `active_dram` and the bytes
    behind a data pointer. -/
structure SimEnv where
  sync : SyncObject
  activeDram : Nat
  load : DataPtr → Nat → List UInt8

/-- `memcpy(dst + offset, src, ..)`. -/
def memcpy (dst : Nat → UInt8) (offset : Nat) (src : List UInt8) : Nat → UInt8 :=
  Store.write dst offset src

namespace SimWrapper

def init : SimWrapper where
  rQueue := []
  wQueue := []
  rackQueue := []
  wackQueue := []
  syncQueue := []
  rackIncoming := none
  wackIncoming := none
  peq := []
  packetData := fun _ => 0
  rackNum := 0
  wackNum := 0
  rIdx := 0
  wIdx := 0
  outstanding := 0
  reqDone := false
  status := .running
  received := false
  terminated := false
  hostBlocked := false
  proc := .loop
  stats := {}

/-! ### periodic_process -/

/-- The payload `add_payload` makes for chunk `i` of a read packet. -/
def readPayload (cfg : Config) (h : Nat) (packet : Packet) (n i : Nat) : Payload where
  address := u32 (packet.address + cfg.dramReqSize * i)
  command := .read
  dataLength := cfg.dramReqSize
  id := h
  deviceId := packet.deviceId
  dataPtr := .null
  packet := n
  chunk := i

/-- The payload `add_payload` makes for chunk `i` of a write packet. -/
def writePayload (cfg : Config) (h : Nat) (packet : Packet) (n i : Nat) : Payload where
  address := u32 (packet.address + cfg.dramReqSize * i)
  command := .write
  dataLength := cfg.dramReqSize
  id := h
  deviceId := packet.deviceId
  dataPtr := .buffer ((packet.data.drop (cfg.dramReqSize * i)).take cfg.dramReqSize)
  packet := n
  chunk := i

/-- The payloads the read handler makes, in the order of its loop. -/
def readPayloads (cfg : Config) (h : Nat) (packet : Packet) (n : Nat) : List Payload :=
  (List.range cfg.payloadNum).map (readPayload cfg h packet n)

/-- The payloads the write handler makes, in the order of its loop. -/
def writePayloads (cfg : Config) (h : Nat) (packet : Packet) (n : Nat) : List Payload :=
  (List.range cfg.payloadNum).map (writePayload cfg h packet n)

/-- `handle_read_packet` from the end of `wait(cpu_latency)`, then `r_idx++` and the
    `wait(period)` of the main loop. -/
def handleReadPacket (cfg : Config) (h : Nat) (w : SimWrapper) (packet : Packet) :
    SimWrapper × List Event :=
  let ps := readPayloads cfg h packet w.rIdx
  ({ w with
      reqDone := false
      stats := (w.stats.increaseRPacket).updateTotalReadSize cfg.packetSize
      rQueue := w.rQueue ++ ps
      rIdx := w.rIdx + 1
      proc := .loop },
    .readPacket h packet :: ps.map (.call (.create h)))

/-- `handle_write_packet` from the end of `wait(cpu_latency)`, then `w_idx++` and the
    `wait(period)` of the main loop. -/
def handleWritePacket (cfg : Config) (h : Nat) (w : SimWrapper) (packet : Packet) :
    SimWrapper × List Event :=
  let ps := writePayloads cfg h packet w.wIdx
  ({ w with
      reqDone := false
      syncQueue := w.syncQueue ++ [packet.address]
      stats := (w.stats.increaseWPacket).updateTotalWriteSize cfg.packetSize
      wQueue := w.wQueue ++ ps
      wIdx := w.wIdx + 1
      proc := .loop },
    .writePacket h packet :: ps.map (.call (.create h)))

/-- The end of an iteration with status TERMINATED: `sc_stop` or one more period. -/
def endIteration (h : Nat) (env : SimEnv) (w : SimWrapper) : SimWrapper × List Event :=
  if env.activeDram = 0 then ({ w with proc := .done }, [.stop h])
  else ({ w with proc := .loop }, [])

/-- One `check_signal` of `handle_wait_packet` and the `wait(period)` after it. -/
def pollGate (h : Nat) (env : SimEnv) (w : SimWrapper) (packet : Packet) :
    SimWrapper × List Event :=
  ({ w with proc := .gate packet (env.sync.checkSignal packet.address) },
    if env.sync.checkSignal packet.address then [.pass h packet.address] else [])

/-- `handle_packet` up to its first `wait`. Every type but read and write ends the host. -/
def handlePacket (h : Nat) (env : SimEnv) (w : SimWrapper) (packet : Packet) :
    SimWrapper × List Event :=
  match packet.type with
  | .read => pollGate h env w packet
  | .write => ({ w with proc := .writeCpu packet }, [])
  | _ => endIteration h env { w with status := .terminated }

/-- A poll of the ring that returns `packet`. -/
def recv (h : Nat) (env : SimEnv) (w : SimWrapper) (packet : Packet) :
    Except Fault (SimWrapper × List Event) :=
  if w.proc = .loop ∧ w.status = .running ∧ w.hostBlocked = false then
    let w := { w with received := true, hostBlocked := packet.type = .read }
    if packet.delta ≠ 0 then .ok ({ w with proc := .delta packet }, [])
    else .ok (handlePacket h env w packet)
  else .error .notEnabled

/-- `periodic_process` resumed after the `wait` it is suspended in. From `loop` with status
    RUNNING this is a poll that comes back empty. -/
def process (cfg : Config) (h : Nat) (env : SimEnv) (w : SimWrapper) :
    Except Fault (SimWrapper × List Event) :=
  match w.proc with
  | .loop =>
      match w.status with
      | .running => .ok (w, [])
      | .terminated =>
          let r := endIteration h env { w with terminated := true }
          .ok (r.1, (if w.terminated then [] else [.coreDone h]) ++ r.2)
  | .delta packet => .ok (handlePacket h env w packet)
  | .gate packet false => .ok (pollGate h env w packet)
  | .gate packet true => .ok ({ w with proc := .readCpu packet }, [.free h packet.address])
  | .readCpu packet => .ok (handleReadPacket cfg h w packet)
  | .writeCpu packet => .ok (handleWritePacket cfg h w packet)
  | .done => .error .notEnabled

/-- Simulated time an empty poll takes in periodic_process: none before the first packet and
    while `req_done` holds, else one period. -/
def emptyPollWait (w : SimWrapper) : Option Delay :=
  if w.received = false then none else if w.reqDone = false then some .period else none

/-! ### Clock edges and event queue -/

def clockPosedge (w : SimWrapper) : SimWrapper :=
  { w with
    rackQueue := w.rackQueue ++ w.rackIncoming.toList
    rackIncoming := none
    wackQueue := w.wackQueue ++ w.wackIncoming.toList
    wackIncoming := none }

/-- `forward_trans` of the first payload of `r_queue`. -/
def forwardRead (h : Nat) (w : SimWrapper) : SimWrapper × List Event :=
  match w.rQueue with
  | [] => (w, [])
  | p :: q => ({ w with rQueue := q, outstanding := u32 (w.outstanding + 1) }, [.call (.uspFw h) p])

/-- `forward_trans` of the first payload of `w_queue`. -/
def forwardWrite (h : Nat) (w : SimWrapper) : SimWrapper × List Event :=
  match w.wQueue with
  | [] => (w, [])
  | p :: q => ({ w with wQueue := q, outstanding := u32 (w.outstanding + 1) }, [.call (.uspFw h) p])

/-- The RACK block of `clock_negedge`. -/
def sendRack (cfg : Config) (h : Nat) (env : SimEnv) (w : SimWrapper) : SimWrapper × List Event :=
  match w.rackQueue with
  | [] => (w, [])
  | p :: q =>
      let data :=
        memcpy w.packetData (u32 (cfg.dramReqSize * w.rackNum)) (env.load p.dataPtr p.dataLength)
      let w := { w with
        rackQueue := q
        packetData := data
        rackNum := u32 (w.rackNum + 1)
        outstanding := u32Pred w.outstanding }
      if w.rackNum = cfg.payloadNum then
        ({ w with reqDone := true, rackNum := 0, hostBlocked := false },
          [.call (.endResp h) p, .respond h ((List.range cfg.packetSize).map data)])
      else (w, [.call (.endResp h) p])

/-- The WACK block of `clock_negedge`. -/
def sendWack (cfg : Config) (h : Nat) (w : SimWrapper) : Except Fault (SimWrapper × List Event) :=
  match w.wackQueue with
  | [] => .ok (w, [])
  | p :: q =>
      let w := { w with
        wackQueue := q
        wackNum := u32 (w.wackNum + 1)
        outstanding := u32Pred w.outstanding }
      if w.wackNum = cfg.payloadNum then
        match w.syncQueue with
        | [] => .error .emptySync
        | sig :: rest =>
            .ok ({ w with syncQueue := rest, wackNum := 0 }, [.call (.endResp h) p, .signal h sig])
      else .ok (w, [.call (.endResp h) p])

def clockNegedge (cfg : Config) (h : Nat) (env : SimEnv) (w : SimWrapper) :
    Except Fault (SimWrapper × List Event) :=
  let r := w.forwardRead h
  let f := r.1.forwardWrite h
  let a := f.1.sendRack cfg h env
  match a.1.sendWack cfg h with
  | .error e => .error e
  | .ok (w', es) => .ok (w', r.2 ++ f.2 ++ a.2 ++ es)

/-- `nb_transport_bw`: a zero-delay notification of the event queue. -/
def nbTransportBw (w : SimWrapper) (p : Payload) : SimWrapper := { w with peq := w.peq ++ [p] }

/-- One notification: the ack goes to its incoming slot, whatever is in there. -/
def peqCb (w : SimWrapper) : Except Fault SimWrapper :=
  match w.peq with
  | [] => .error .notEnabled
  | p :: q =>
      match p.command with
      | .read => .ok { w with peq := q, rackIncoming := some p }
      | .write => .ok { w with peq := q, wackIncoming := some p }

/-! ### Steps -/

/-- What can happen at a SIMWrapper. -/
inductive Act
  | recv (packet : Packet)
  | process
  | posedge
  | negedge
  | peq

def act (cfg : Config) (h : Nat) (env : SimEnv) (w : SimWrapper) :
    Act → Except Fault (SimWrapper × List Event)
  | .recv packet => w.recv h env packet
  | .process => w.process cfg h env
  | .posedge => .ok (w.clockPosedge, [])
  | .negedge => w.clockNegedge cfg h env
  | .peq =>
      match w.peqCb with
      | .error e => .error e
      | .ok w' => .ok (w', [])

/-- What an event does to SIMWrapper `h`. -/
def hear (h : Nat) (w : SimWrapper) : Event → SimWrapper
  | .call (.simBw k) p => if k = h then w.nbTransportBw p else w
  | _ => w

theorem hear_of_source_ne {h : Nat} {w : SimWrapper} {e : Event} (he : e.source ≠ .usp h) :
    w.hear h e = w := by
  unfold hear
  split
  · rename_i k p
    exact if_neg fun hk => he (by rw [hk]; rfl)
  · rfl

end SimWrapper

end TSim4CXL
