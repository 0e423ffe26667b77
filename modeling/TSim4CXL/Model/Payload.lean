/-
  What all components share: the configuration, packets of the shared-memory ring,
  generic payloads, and the flit and request counters.

  A payload is a value here, not an address of a pool: `packet` and `chunk` tell
  which packet of which host it was created for, so two payloads of one run are
  never confused when a pool hands the same object out again. They are history
  variables, no step reads them.

  `uint32_t` variables are `Nat`s kept below 2^32 by `u32`. Waits carry the
  argument of the `wait` call (`Delay`) and no time.
-/
import TSim4CXL.Lib.Transition

namespace TSim4CXL

/-- The value a `uint32_t` variable takes. -/
def u32 (n : Nat) : Nat := n % 4294967296

/-- `x--` on a `uint32_t`. -/
def u32Pred (n : Nat) : Nat := if n = 0 then 4294967295 else n - 1

theorem u32Pred_u32_succ (n : Nat) : u32Pred (u32 (n + 1)) = u32 n := by
  unfold u32Pred u32
  split <;> omega

/-! ## Configuration -/

/-- `MAX_DATA_SIZE`. -/
def maxDataSize : Nat := 2048

/-- The values of system.json and memory.json the components read (`Configurations`). -/
structure Config where
  hostNum : Nat
  dramNum : Nat
  packetSize : Nat
  dramReqSize : Nat
  portLatency : Nat
  linkLatency : Nat
  devIcLatency : Nat
  cpuLatency : Nat → Nat
  dramSize : Nat → Nat

/-- `packet_size / dram_req_size`, the payloads of one packet. -/
def Config.payloadNum (cfg : Config) : Nat := cfg.packetSize / cfg.dramReqSize

/-- Chunk `i` ends inside the packet. -/
theorem Config.chunk_le (cfg : Config) {i : Nat} (hi : i < cfg.payloadNum) :
    cfg.dramReqSize * i + cfg.dramReqSize ≤ cfg.packetSize := by
  rw [← Nat.mul_succ]
  exact Nat.le_trans (Nat.mul_le_mul_left _ hi) (Nat.mul_div_le _ _)

/-- `dram_req_size` divides `packet_size <= MAX_DATA_SIZE`. -/
structure Config.WellSized (cfg : Config) : Prop where
  pos : 0 < cfg.dramReqSize
  dvd : cfg.dramReqSize ∣ cfg.packetSize
  le : cfg.packetSize ≤ maxDataSize

namespace Config.WellSized

variable {cfg : Config}

theorem mul_payloadNum (hc : cfg.WellSized) : cfg.dramReqSize * cfg.payloadNum = cfg.packetSize :=
  Nat.mul_div_cancel' hc.dvd

theorem payloadNum_le (hc : cfg.WellSized) : cfg.payloadNum ≤ maxDataSize :=
  Nat.le_trans (Nat.div_le_self ..) hc.le

/-- Chunk `i` lies inside its packet. -/
theorem chunk_le (hc : cfg.WellSized) {i : Nat} (hi : i < cfg.payloadNum) :
    cfg.dramReqSize * i + cfg.dramReqSize ≤ cfg.packetSize := by
  rw [← Nat.mul_succ, ← hc.mul_payloadNum]
  exact Nat.mul_le_mul_left _ hi

end Config.WellSized

/-- `get_cxl_ctrl_latency`. -/
def Config.ctrlLatency (cfg : Config) : Nat := u32 (cfg.portLatency + cfg.devIcLatency)

/-- The argument of a `wait`: one period of the component's clock, or nanoseconds. -/
inductive Delay
  | period
  | ns (n : Nat)
deriving DecidableEq, Repr

/-! ## Packets and payloads -/

inductive PacketType
  | read
  | write
  | barWait
  | barSignal
  | elapsed
  | terminated
deriving DecidableEq, Repr

/-- `Packet` of sim_packet.h. -/
structure Packet where
  type : PacketType
  size : Nat
  delta : Nat
  address : Nat
  deviceId : Nat
  data : List UInt8
  data_length : data.length = maxDataSize
deriving DecidableEq

/-- `tlm_command`; `TLM_IGNORE_COMMAND` is never set. -/
inductive Command
  | read
  | write
deriving DecidableEq, Repr

/-- What the data pointer of a payload points at: a buffer of `handle_write_packet`, or
    `&mem_data[address]` of a device. -/
inductive DataPtr
  | null
  | buffer (bytes : List UInt8)
  | memData (device address : Nat)
deriving DecidableEq, Repr

/-- `tlm_generic_payload`, with `device_map[payload]` as `deviceId`. -/
structure Payload where
  address : Nat
  command : Command
  dataLength : Nat
  id : Nat
  deviceId : Nat
  dataPtr : DataPtr
  packet : Nat
  chunk : Nat
deriving DecidableEq, Repr

/-- The request a payload stands for, whatever its data pointer is. -/
def Payload.bare (p : Payload) : Payload := { p with dataPtr := .null }

@[simp] theorem Payload.bare_bare (p : Payload) : p.bare.bare = p.bare := rfl
@[simp] theorem Payload.bare_address (p : Payload) : p.bare.address = p.address := rfl
@[simp] theorem Payload.bare_command (p : Payload) : p.bare.command = p.command := rfl
@[simp] theorem Payload.bare_id (p : Payload) : p.bare.id = p.id := rfl
@[simp] theorem Payload.bare_packet (p : Payload) : p.bare.packet = p.packet := rfl
@[simp] theorem Payload.bare_chunk (p : Payload) : p.bare.chunk = p.chunk := rfl
@[simp] theorem Payload.bare_deviceId (p : Payload) : p.bare.deviceId = p.deviceId := rfl

/-- The packet of a payload and its chunk. -/
def Payload.key (p : Payload) : Nat × Nat := (p.packet, p.chunk)

@[simp] theorem Payload.key_bare (p : Payload) : p.bare.key = p.key := rfl

/-- The payloads of one command, in their order. -/
def ofCmd (c : Command) (ps : List Payload) : List Payload := ps.filter (·.command = c)

@[simp] theorem ofCmd_nil (c : Command) : ofCmd c [] = [] := rfl

@[simp] theorem ofCmd_append (c : Command) (ps qs : List Payload) :
    ofCmd c (ps ++ qs) = ofCmd c ps ++ ofCmd c qs := List.filter_append ..

theorem ofCmd_cons (c : Command) (p : Payload) (ps : List Payload) :
    ofCmd c (p :: ps) = if p.command = c then p :: ofCmd c ps else ofCmd c ps := by
  simp [ofCmd, List.filter_cons]

theorem mem_ofCmd {c : Command} {p : Payload} {ps : List Payload} :
    p ∈ ofCmd c ps ↔ p ∈ ps ∧ p.command = c := by
  simp [ofCmd]

theorem ofCmd_eq_self {c : Command} {ps : List Payload} (h : ∀ p ∈ ps, p.command = c) :
    ofCmd c ps = ps := by
  simpa [ofCmd] using h

theorem ofCmd_eq_nil {c c' : Command} {ps : List Payload} (hc : c ≠ c')
    (h : ∀ p ∈ ps, p.command = c') : ofCmd c ps = [] := by
  simp only [ofCmd, List.filter_eq_nil_iff, decide_eq_true_eq]
  intro p hp hpc
  exact hc (hpc.symm.trans (h p hp))

/-! ## Why a step cannot be taken -/

inductive Fault
  /-- the process is not in a state where this step is its next one -/
  | notEnabled
  /-- `front` / `pop_front` on an empty payload queue -/
  | emptyFront
  /-- `front` / `pop_front` on an empty `sync_queue` -/
  | emptySync
  /-- `%` by zero -/
  | divZero
  /-- an index past the bound sockets of `master` or `slave` -/
  | noSocket
deriving DecidableEq, Repr

/-- `front` and `pop_front` of a `deque`. -/
def front {α : Type} : List α → Except Fault (α × List α)
  | [] => .error .emptyFront
  | x :: xs => .ok (x, xs)

theorem front_eq_ok {α : Type} {q r : List α} {x : α} :
    front q = .ok (x, r) ↔ q = x :: r := by
  cases q <;> simp [front]

theorem bind_eq_ok {ε α β : Type} {x : Except ε α} {f : α → Except ε β} {b : β} :
    (x >>= f) = .ok b ↔ ∃ a, x = .ok a ∧ f a = .ok b := by
  cases x <;> simp [bind, Except.bind]

theorem bind_eq_error {ε α β : Type} {x : Except ε α} {f : α → Except ε β} {e : ε} :
    (x >>= f) = .error e ↔ x = .error e ∨ ∃ a, x = .ok a ∧ f a = .error e := by
  cases x <;> simp [bind, Except.bind]

theorem front_eq_error {α : Type} {q : List α} {e : Fault} :
    front q = .error e ↔ q = [] ∧ e = .emptyFront := by
  cases q <;> simp [front, eq_comm]

/-! ## Flit, packet and request counters -/

/-- `Stats`: every counter is an `unsigned`. `total_flit` is never increased and left out. -/
structure Statistics where
  numReadRequest : Nat := 0
  readFlit : Nat := 0
  readPacket : Nat := 0
  totalReadLatency : Nat := 0
  totalReadSize : Nat := 0
  numWriteRequest : Nat := 0
  writeFlit : Nat := 0
  writePacket : Nat := 0
  totalWriteLatency : Nat := 0
  totalWriteSize : Nat := 0
deriving DecidableEq, Repr

namespace Statistics

def increaseRRequest (s : Statistics) : Statistics :=
  { s with numReadRequest := u32 (s.numReadRequest + 1) }

def increaseRFlit (s : Statistics) : Statistics := { s with readFlit := u32 (s.readFlit + 1) }

def increaseRPacket (s : Statistics) : Statistics :=
  { s with readPacket := u32 (s.readPacket + 1) }

def increaseWRequest (s : Statistics) : Statistics :=
  { s with numWriteRequest := u32 (s.numWriteRequest + 1) }

def increaseWFlit (s : Statistics) : Statistics := { s with writeFlit := u32 (s.writeFlit + 1) }

def increaseWPacket (s : Statistics) : Statistics :=
  { s with writePacket := u32 (s.writePacket + 1) }

def updateTotalReadSize (s : Statistics) (size : Nat) : Statistics :=
  { s with totalReadSize := u32 (s.totalReadSize + size) }

def updateTotalWriteSize (s : Statistics) (size : Nat) : Statistics :=
  { s with totalWriteSize := u32 (s.totalWriteSize + size) }

def updateReadLatency (s : Statistics) (latency : Nat) : Statistics :=
  { s with totalReadLatency := u32 (s.totalReadLatency + latency) }

def updateWriteLatency (s : Statistics) (latency : Nat) : Statistics :=
  { s with totalWriteLatency := u32 (s.totalWriteLatency + latency) }

/-- What `print_mem_stats` prints of the reads, or of the writes. -/
structure MemReport where
  requestNum : Nat
  totalSize : Nat
  averageSize : Nat
  totalLatency : Nat
  averageLatency : Nat
deriving DecidableEq, Repr

/-- `print_mem_stats`: the reads, then the writes. -/
def printMemStats (s : Statistics) : MemReport × MemReport :=
  ({ requestNum := s.numReadRequest
     totalSize := s.totalReadSize
     averageSize := if 0 < s.numReadRequest then s.totalReadSize / s.numReadRequest else 0
     totalLatency := s.totalReadLatency
     averageLatency := if 0 < s.numReadRequest then s.totalReadLatency / s.numReadRequest else 0 },
   { requestNum := s.numWriteRequest
     totalSize := s.totalWriteSize
     averageSize := if 0 < s.numWriteRequest then s.totalWriteSize / s.numWriteRequest else 0
     totalLatency := s.totalWriteLatency
     averageLatency :=
       if 0 < s.numWriteRequest then s.totalWriteLatency / s.numWriteRequest else 0 })

end Statistics

end TSim4CXL
