/-
  MEMWrapper (mem_wrapper.cpp) with its Bridge (Bridge.cpp).

  Ramulator is not part of the sources. `dram` holds the requests it has accepted and
  not yet completed; `complete i` is a callback for one of them, whenever and in
  whatever order. So it completes each accepted request at most once and no other.
  Whether `memory_system->send` accepts is an argument of the step (`accept`), the time
  `sc_time_stamp` gives in nanoseconds another one (`now`).

  `active_cycle` and `total_cycle` are only counted and left out.
-/
import TSim4CXL.Model.SimWrapper

namespace TSim4CXL

structure MemWrapper where
  peq : List Payload
  rQueue : List Payload
  wQueue : List Payload
  rackQueue : List Payload
  wackQueue : List Payload
  memRequest : List Payload
  inQueue : List Payload
  dram : List Payload
  outQueue : List Payload
  mOutstanding : Nat
  memData : Nat → UInt8
  rTransMap : Nat → Nat
  wTransMap : Nat → Nat
  stats : Statistics
  running : Bool

namespace MemWrapper

def init : MemWrapper where
  peq := []
  rQueue := []
  wQueue := []
  rackQueue := []
  wackQueue := []
  memRequest := []
  inQueue := []
  dram := []
  outQueue := []
  mOutstanding := 0
  memData := fun _ => 0
  rTransMap := fun _ => 0
  wTransMap := fun _ => 0
  stats := {}
  running := true

/-! ### Requests in -/

/-- `nb_transport_fw`: a zero-delay notification of the event queue. -/
def nbTransportFw (m : MemWrapper) (p : Payload) : MemWrapper := { m with peq := m.peq ++ [p] }

/-- `gen_trans` with the address, command, length and id of `p`; the new object's data
    pointer is not set. -/
def genTrans (p : Payload) : Payload := { p with dataPtr := .null }

@[simp] theorem genTrans_eq_bare (p : Payload) : genTrans p = p.bare := rfl

/-- One notification: a new payload for the DRAM; a write is stored at once. -/
def peqCb (d : Nat) (load : DataPtr → Nat → List UInt8) (m : MemWrapper) :
    Except Fault (MemWrapper × List Event) :=
  match m.peq with
  | [] => .error .notEnabled
  | p :: q =>
      match p.command with
      | .read => .ok ({ m with peq := q, rQueue := m.rQueue ++ [genTrans p] }, [.call (.peqCb d) p])
      | .write =>
          .ok ({ m with
            peq := q
            memData := memcpy m.memData p.address (load p.dataPtr p.dataLength)
            wQueue := m.wQueue ++ [genTrans p] }, [.call (.peqCb d) p])

def clockPosedge (m : MemWrapper) : MemWrapper :=
  { m with
    rQueue := m.rQueue.drop 1
    wQueue := m.wQueue.drop 1
    memRequest := m.memRequest ++ m.rQueue.take 1 ++ m.wQueue.take 1 }

/-! ### simulate_dram -/

/-- `map[addr] = value` on a map keyed by `uint32_t`. -/
def setTime (m : Nat → Nat) (addr value : Nat) : Nat → Nat :=
  fun a => if a = u32 addr then value else m a

/-- `update_trans_delay`. -/
def updateTransDelay (now : Nat) (m : MemWrapper) (p : Payload) : MemWrapper :=
  match p.command with
  | .read =>
      { m with
        stats := m.stats.updateReadLatency
          (u32 (now + 4294967296 - u32 (m.rTransMap (u32 p.address)))) }
  | .write =>
      { m with
        stats := m.stats.updateWriteLatency
          (u32 (now + 4294967296 - u32 (m.wTransMap (u32 p.address)))) }

/-- `getCompletedCommand` and what `simulate_dram` does with it. -/
def collect (now : Nat) (m : MemWrapper) : MemWrapper :=
  match m.outQueue with
  | [] => m
  | p :: q =>
      match p.command with
      | .read => updateTransDelay now { m with outQueue := q, rackQueue := m.rackQueue ++ [p] } p
      | .write => updateTransDelay now { m with outQueue := q, wackQueue := m.wackQueue ++ [p] } p

/-- The statistics and start time of one request handed to the bridge. -/
def recordRequest (now : Nat) (m : MemWrapper) (p : Payload) : MemWrapper :=
  match p.command with
  | .read =>
      { m with
        stats := (m.stats.increaseRRequest).updateTotalReadSize p.dataLength
        rTransMap := setTime m.rTransMap p.address (u32 now) }
  | .write =>
      { m with
        stats := (m.stats.increaseWRequest).updateTotalWriteSize p.dataLength
        wTransMap := setTime m.wTransMap p.address (u32 now) }

/-- One round of `while (mem_request.size() > 0)`, with `Bridge::sendCommand`. -/
def sendCommand (now : Nat) (m : MemWrapper) (p : Payload) : MemWrapper :=
  let m := recordRequest now m p
  { m with inQueue := m.inQueue ++ [p], mOutstanding := u32 (m.mOutstanding + 1) }

/-- `while (mem_request.size() > 0)`. -/
def issue (now : Nat) (m : MemWrapper) : MemWrapper :=
  m.memRequest.foldl (sendCommand now) { m with memRequest := [] }

/-- `Bridge::ClockTick` up to `memory_system->tick`. -/
def clockTick (d : Nat) (accept : Bool) (m : MemWrapper) : MemWrapper × List Event :=
  match m.inQueue with
  | [] => (m, [])
  | p :: q =>
      if accept then ({ m with inQueue := q, dram := m.dram ++ [p] }, [.call (.accept d) p])
      else (m, [])

/-- One iteration of `simulate_dram`. -/
def simulateDram (d activeCores : Nat) (accept : Bool) (now : Nat) (m : MemWrapper) :
    Except Fault (MemWrapper × List Event) :=
  if m.running then
    let r := ((m.collect now).issue now).clockTick d accept
    if activeCores = 0 ∧ r.1.mOutstanding = 0 then
      .ok ({ r.1 with running := false }, r.2 ++ [.dramIdle d])
    else .ok r
  else .error .notEnabled

/-- `cmd_complete` of the `i`-th request Ramulator holds; nothing ticks it after the loop. -/
def complete (d i : Nat) (m : MemWrapper) : Except Fault (MemWrapper × List Event) :=
  if m.running then
    match m.dram[i]? with
    | none => .error .notEnabled
    | some p =>
        .ok ({ m with dram := m.dram.eraseIdx i, outQueue := m.outQueue ++ [p] },
          [.call (.complete d) p])
  else .error .notEnabled

/-! ### Responses out -/

/-- `backward_trans`: a read's data pointer is set to the backing store. -/
def backwardTrans (d : Nat) (p : Payload) : Payload :=
  match p.command with
  | .read => { p with dataPtr := .memData d p.address }
  | .write => p

@[simp] theorem backwardTrans_bare (d : Nat) (p : Payload) : (backwardTrans d p).bare = p.bare := by
  unfold backwardTrans
  split <;> rfl

@[simp] theorem backwardTrans_command (d : Nat) (p : Payload) :
    (backwardTrans d p).command = p.command := by
  unfold backwardTrans
  split <;> rfl

/-- The first read ack, then the first write ack. -/
def clockNegedge (d : Nat) (m : MemWrapper) : MemWrapper × List Event :=
  let acks := m.rackQueue.take 1 ++ m.wackQueue.take 1
  ({ m with
      rackQueue := m.rackQueue.drop 1
      wackQueue := m.wackQueue.drop 1
      mOutstanding := acks.foldl (fun n _ => u32Pred n) m.mOutstanding },
    (acks.map (backwardTrans d)).map (.call (.ctrlBw d)))

/-! ### Steps -/

inductive Act
  | peq
  | posedge
  | negedge
  | simulateDram (accept : Bool) (now : Nat)
  | complete (i : Nat)

def act (d activeCores : Nat) (load : DataPtr → Nat → List UInt8) (m : MemWrapper) :
    Act → Except Fault (MemWrapper × List Event)
  | .peq => m.peqCb d load
  | .posedge => .ok (m.clockPosedge, [])
  | .negedge => .ok (m.clockNegedge d)
  | .simulateDram accept now => m.simulateDram d activeCores accept now
  | .complete i => m.complete d i

/-- What an event does to MEMWrapper `d`. -/
def hear (d : Nat) (m : MemWrapper) : Event → MemWrapper
  | .call (.memFw k) p => if k = d then m.nbTransportFw p else m
  | _ => m

end MemWrapper

end TSim4CXL
