/-
  The shared-memory channel of one host: packet_buffer.cpp, ShmemCommunicator of the backplane
  and packetManager of the host process.

  Two processes share two rings, `ib` from the host to the backplane and `bi` back. A step is one
  full or empty test, one copy of an element or one store to an index, in program order; memory is
  sequentially consistent. What is in the shared segments before the backplane clears them is
  arbitrary.

  `hostSent` and the other three lists are history variables: the packets sent and received after
  the handshake.
-/
import TSim4CXL.Lib.RingBuffer
import TSim4CXL.Model.Payload

namespace TSim4CXL

/-! ## packet_buffer -/

/-- `PKT_BUFFER_SIZE`. -/
def pktBufferSize : Nat := 8192

/-- `PacketBuffer`. Its `size` and the last of its 8193 elements are never used. -/
abbrev PacketBuffer := RingBuffer Packet

def pbIsFull (pb : PacketBuffer) : Bool := pb.isFull pktBufferSize

def pbIsEmpty (pb : PacketBuffer) : Bool := pb.isEmpty

/-- The `memcpy` of `pb_write`. -/
def pbWriteCopy (pb : PacketBuffer) (elem : Packet) : PacketBuffer := pb.put elem

/-- The store to `end` of `pb_write`. -/
def pbWriteStore (pb : PacketBuffer) : PacketBuffer := pb.publish pktBufferSize

/-- The `memcpy` of `pb_read`. -/
def pbReadCopy (pb : PacketBuffer) : Packet := pb.peek

/-- The store to `start` of `pb_read`. -/
def pbReadStore (pb : PacketBuffer) : PacketBuffer := pb.advance pktBufferSize

/-- A packet after `memset(&packet, 0, ..)`. -/
def Packet.zero : Packet where
  type := .read
  size := 0
  delta := 0
  address := 0
  deviceId := 0
  data := List.replicate maxDataSize 0
  data_length := List.length_replicate

/-- The packet the host sends when its side is set up. -/
def Packet.handshake : Packet := { Packet.zero with type := .write }

/-- One store of a `memset` or `pb_init` on a ring. -/
inductive ClearStore
  | start
  | stop
  | elems

def ClearStore.apply (pb : PacketBuffer) : ClearStore → PacketBuffer
  | .start => { pb with start := 0 }
  | .stop => { pb with stop := 0 }
  | .elems => { pb with elems := fun _ => Packet.zero }

/-- `memset(buffer, 0, sizeof(PacketBuffer))`. -/
def memsetBuffer : List ClearStore := [.start, .stop, .elems]

def pbInit : List ClearStore := [.start, .stop]

/-! ## Both processes -/

/-- The two rings. -/
inductive Side
  | ib
  | bi

/-- Where a process is.
    * `absent`: not started yet
    * `prepare todo`: in `prepare_connection`, with the stores `todo` to go
    * `sendTest` to `sendStore`: in `sendPacket`
    * `recvTest` to `recvStore`: in `recvPacket` or `wait_connection` -/
inductive ShmemPc
  | absent
  | prepare (todo : List (Side × ClearStore))
  | ready
  | sendTest (packet : Packet)
  | sendCopy (packet : Packet)
  | sendStore (packet : Packet)
  | recvTest
  | recvCopy
  | recvStore (packet : Packet)

structure Shmem where
  ib : PacketBuffer
  bi : PacketBuffer
  back : ShmemPc
  host : ShmemPc
  connected : Bool
  greeted : Bool
  hostSent : List Packet
  backReceived : List Packet
  backSent : List Packet
  hostReceived : List Packet

namespace Shmem

/-- The stores of `ShmemCommunicator::prepare_connection`: `send_buffer` is `bi`. -/
def backPrepare : List (Side × ClearStore) :=
  memsetBuffer.map (Side.bi, ·) ++ memsetBuffer.map (Side.ib, ·) ++ pbInit.map (Side.bi, ·) ++
    pbInit.map (Side.ib, ·)

/-- The stores of `packetManager::prepare_connection`: `sendBuffer` is `ib`. -/
def hostPrepare : List (Side × ClearStore) :=
  memsetBuffer.map (Side.ib, ·) ++ memsetBuffer.map (Side.bi, ·) ++ pbInit.map (Side.ib, ·) ++
    pbInit.map (Side.bi, ·)

/-- The rings as they were left, the backplane about to set them up. -/
def init (ib bi : PacketBuffer) : Shmem where
  ib := ib
  bi := bi
  back := .prepare backPrepare
  host := .absent
  connected := false
  greeted := false
  hostSent := []
  backReceived := []
  backSent := []
  hostReceived := []

def clear (s : Shmem) : Side × ClearStore → Shmem
  | (.ib, c) => { s with ib := c.apply s.ib }
  | (.bi, c) => { s with bi := c.apply s.bi }

/-- What a process does next: the next step of the call it is in, or a new call. -/
inductive Move
  | go
  | send (packet : Packet)
  | recv

/-- A step of the backplane (`Host::run_host_proc`, then any calls). -/
def backStep (s : Shmem) : Move → Except Fault Shmem
  | .go =>
      match s.back with
      | .prepare (c :: todo) => .ok { s.clear c with back := .prepare todo }
      -- `fork`, and the first test of `wait_connection`
      | .prepare [] => .ok { s with back := .recvTest, host := .prepare hostPrepare }
      | .sendTest p => .ok { s with back := if pbIsFull s.bi then .sendTest p else .sendCopy p }
      | .sendCopy p => .ok { s with back := .sendStore p, bi := pbWriteCopy s.bi p }
      | .sendStore p =>
          .ok { s with back := .ready, bi := pbWriteStore s.bi, backSent := s.backSent ++ [p] }
      | .recvTest =>
          if pbIsEmpty s.ib then
            -- `recv_packet` returns 0, `wait_connection` goes on waiting
            .ok { s with back := if s.connected then .ready else .recvTest }
          else .ok { s with back := .recvCopy }
      | .recvCopy => .ok { s with back := .recvStore (pbReadCopy s.ib) }
      | .recvStore p =>
          if s.connected then
            .ok { s with
              back := .ready
              ib := pbReadStore s.ib
              backReceived := s.backReceived ++ [p] }
          else .ok { s with back := .ready, ib := pbReadStore s.ib, connected := true }
      | .ready => .error .notEnabled
      | .absent => .error .notEnabled
  | .send p => match s.back with
      | .ready => .ok { s with back := .sendTest p }
      | _ => .error .notEnabled
  | .recv => match s.back with
      | .ready => .ok { s with back := .recvTest }
      | _ => .error .notEnabled

/-- A step of the host process (`packetManager`). -/
def hostStep (s : Shmem) : Move → Except Fault Shmem
  | .go =>
      match s.host with
      | .prepare (c :: todo) => .ok { s.clear c with host := .prepare todo }
      | .prepare [] => .ok { s with host := .sendTest .handshake }
      | .sendTest p => .ok { s with host := if pbIsFull s.ib then .sendTest p else .sendCopy p }
      | .sendCopy p => .ok { s with host := .sendStore p, ib := pbWriteCopy s.ib p }
      | .sendStore p =>
          if s.greeted then
            .ok { s with host := .ready, ib := pbWriteStore s.ib, hostSent := s.hostSent ++ [p] }
          else .ok { s with host := .ready, ib := pbWriteStore s.ib, greeted := true }
      | .recvTest => .ok { s with host := if pbIsEmpty s.bi then .recvTest else .recvCopy }
      | .recvCopy => .ok { s with host := .recvStore (pbReadCopy s.bi) }
      | .recvStore p =>
          .ok { s with
            host := .ready
            bi := pbReadStore s.bi
            hostReceived := s.hostReceived ++ [p] }
      | .ready => .error .notEnabled
      | .absent => .error .notEnabled
  | .send p => match s.host with
      | .ready => .ok { s with host := .sendTest p }
      | _ => .error .notEnabled
  | .recv => match s.host with
      | .ready => .ok { s with host := .recvTest }
      | _ => .error .notEnabled

inductive Act
  | back (m : Move)
  | host (m : Move)

def step (s : Shmem) : Act → Except Fault Shmem
  | .back m => s.backStep m
  | .host m => s.hostStep m

end Shmem

end TSim4CXL
