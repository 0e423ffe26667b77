/-
  The addresses a trace request ends up at.

  A request is rounded up to packets, each packet is cut into payloads, and neither step looks at
  the size of the DRAM or of the `SyncObject` table. `requestInRange_iff`: all payloads stay in the
  DRAM, no address wraps and all sync indices are valid, exactly when the last packet ends inside
  the DRAM and starts below entry 2000000000. A range inside the DRAM is not enough for either
  (`ranges_left`): the last packet is a whole one, and the DRAM may be larger than the table.
-/
import TSim4CXL.Model.Host
import TSim4CXL.Model.SimWrapper

namespace TSim4CXL

/-- The entries of the `sync` table. -/
def SyncObject.entries : Nat := 2000000000

/-- The payloads the handler of a packet makes. -/
def payloadsOf (cfg : Config) (h : Nat) (packet : Packet) (n : Nat) : List Payload :=
  match packet.type with
  | .read => SimWrapper.readPayloads cfg h packet n
  | .write => SimWrapper.writePayloads cfg h packet n
  | _ => []

/-- The address of the packet is an index of the flag table: of `check_signal` and `free` for a
    read, of `signal` for a write, which is raised by the acks of its payloads. -/
def UsesSync (cfg : Config) (packet : Packet) : Prop :=
  packet.type = .read ∨ packet.type = .write ∧ 0 < cfg.payloadNum

/-- Everything the request of a record ends up at is there, and what it should be: the payloads lie
    in the DRAM of their device at unwrapped addresses, the flags are in the table. -/
def RequestInRange (cfg : Config) (r : TraceRecord) : Prop :=
  ∃ acts, replay cfg.packetSize r = some acts ∧ ∀ j packet, (packetsOf acts)[j]? = some packet →
    (∀ h n, ∀ p ∈ payloadsOf cfg h packet n, p.address + p.dataLength ≤ cfg.dramSize p.deviceId ∧
      p.address = r.address + j * cfg.packetSize + cfg.dramReqSize * p.chunk) ∧
    (UsesSync cfg packet → packet.address < SyncObject.entries)

/-- The packets of a request: as few as cover it, and from 2^24 bytes on what the rounding up in
    `float` leaves. -/
def packetCount (packetSize size : Nat) : Option Nat :=
  if size < 16777216 ∧ packetSize < 16777216 ∧
    (size + packetSize - 1) / packetSize * packetSize < 16777216
  then some ((size + packetSize - 1) / packetSize)
  else (roundUp packetSize size).map (loopRounds packetSize)

theorem packetCount_eq {packetSize : Nat} (hp : 0 < packetSize) (size : Nat) :
    packetCount packetSize size = (roundUp packetSize size).map (loopRounds packetSize) := by
  unfold packetCount
  split
  · rename_i h
    obtain ⟨hs, hp24, hcount⟩ := h
    rw [roundUp_eq hp hp24 hs hcount.le, Option.map_some, loopRounds_mul hp (by omega)]
  · rfl

/-! ## One packet -/

/-- What is asked of packet `j`. -/
def PacketInRange (cfg : Config) (dramSize address : Nat) (sync : Prop) (j : Nat) : Prop :=
  (∀ i < cfg.payloadNum,
    u32 (u32 (address + j * cfg.packetSize) + cfg.dramReqSize * i) + cfg.dramReqSize ≤ dramSize ∧
    u32 (u32 (address + j * cfg.packetSize) + cfg.dramReqSize * i) =
      address + j * cfg.packetSize + cfg.dramReqSize * i) ∧
  (sync → u32 (address + j * cfg.packetSize) < SyncObject.entries)

/-- The packets up to the last, one after the other: from below 2^32 a step of less than 2^31 does
    not jump over the addresses past the table. -/
theorem sync_range_iff {packetSize address count : Nat} (hp31 : packetSize < 2147483648)
    (ha : address < 4294967296) :
    (∀ j < count, u32 (address + j * packetSize) < SyncObject.entries) ↔
      ∀ j < count, address + j * packetSize < SyncObject.entries := by
  unfold u32 SyncObject.entries
  constructor
  · intro h j
    induction j with
    | zero =>
        intro h0
        have := h 0 h0
        omega
    | succ j ih =>
        intro hj
        have hprev := ih (by omega)
        have hhere := h (j + 1) hj
        rw [Nat.succ_mul] at hhere ⊢
        omega
  · intro h j hj
    have := h j hj
    omega

theorem packets_inRange_iff {cfg : Config} {dramSize address count : Nat} {sync : Prop}
    (hp31 : cfg.packetSize < 2147483648) (ha : address < 4294967296)
    (hsync : 0 < cfg.payloadNum → sync) :
    (∀ j < count, PacketInRange cfg dramSize address sync j) ↔
      ∀ last, count = last + 1 →
        (sync → address + last * cfg.packetSize < SyncObject.entries) ∧
        (0 < cfg.payloadNum →
          address + last * cfg.packetSize + cfg.dramReqSize * cfg.payloadNum ≤ dramSize) := by
  have hN : cfg.dramReqSize * cfg.payloadNum ≤ cfg.packetSize := Nat.mul_div_le _ _
  constructor
  · rintro h last rfl
    have hsyncs : sync → ∀ j < last + 1, address + j * cfg.packetSize < SyncObject.entries :=
      fun hs => (sync_range_iff hp31 ha).mp fun j hj => (h j hj).2 hs
    refine ⟨fun hs => hsyncs hs last (Nat.lt_succ_self last), fun h0 => ?_⟩
    -- the last payload of the last packet
    obtain ⟨k, hk⟩ : ∃ k, cfg.payloadNum = k + 1 := ⟨cfg.payloadNum - 1, by omega⟩
    have hlast := (h last (Nat.lt_succ_self last)).1 k (by omega)
    rw [hlast.2] at hlast
    rw [hk, Nat.mul_succ]
    omega
  · intro h j hj
    obtain ⟨last, rfl⟩ : ∃ last, count = last + 1 := ⟨count - 1, by omega⟩
    obtain ⟨hs, hd⟩ := h last rfl
    have hmul := Nat.mul_le_mul_right cfg.packetSize (Nat.lt_succ_iff.mp hj)
    unfold PacketInRange SyncObject.entries u32
    unfold SyncObject.entries at hs
    refine ⟨fun i hi => ?_, fun hsy => ?_⟩
    · have hstart := hs (hsync (by omega))
      have hend := hd (by omega)
      have hi' := Nat.mul_le_mul_left cfg.dramReqSize hi
      rw [Nat.mul_succ] at hi'
      rw [Nat.mod_eq_of_lt (a := address + j * cfg.packetSize) (by omega),
        Nat.mod_eq_of_lt (by omega)]
      omega
    · have := hs hsy
      omega

/-! ## The request -/

/-- The payloads of a read and of a write packet have the same addresses. -/
theorem forall_payloadsOf_iff {cfg : Config} {packet : Packet}
    (ht : packet.type = .read ∨ packet.type = .write) (Q : Nat → Nat → Nat → Nat → Prop) :
    (∀ h n, ∀ p ∈ payloadsOf cfg h packet n, Q p.address p.dataLength p.deviceId p.chunk) ↔
      ∀ i < cfg.payloadNum,
        Q (u32 (packet.address + cfg.dramReqSize * i)) cfg.dramReqSize packet.deviceId i := by
  unfold payloadsOf
  rcases ht with ht | ht <;> rw [ht] <;>
    simp only [SimWrapper.readPayloads, SimWrapper.writePayloads, List.forall_mem_map,
      List.mem_range] <;>
    exact ⟨fun h => h 0 0, fun h _ _ => h⟩

theorem requestPacket_type {packetSize : Nat} (r : TraceRecord) (rounded j : Nat)
    (hapi : r.api ≠ .other) :
    (requestPacket packetSize r rounded j).type = if r.api = .read then .read else .write := by
  obtain ⟨api, address, size, delta⟩ := r
  cases api with
  | write => rfl
  | read => rfl
  | other => exact absurd rfl hapi

theorem requestPacket_address {packetSize : Nat} (r : TraceRecord) (rounded j : Nat) :
    (requestPacket packetSize r rounded j).address = u32 (r.address + j * packetSize) := by
  unfold requestPacket
  split <;> rfl

theorem requestPacket_deviceId {packetSize : Nat} (r : TraceRecord) (rounded j : Nat) :
    (requestPacket packetSize r rounded j).deviceId = 0 := by
  unfold requestPacket
  split <;> rfl

theorem requestInRange_packets_iff {cfg : Config} (hp : 0 < cfg.packetSize) {r : TraceRecord}
    (hapi : r.api ≠ .other) : RequestInRange cfg r ↔
      ∃ count, packetCount cfg.packetSize r.size = some count ∧ ∀ j < count,
        PacketInRange cfg (cfg.dramSize 0) r.address (r.api = .read ∨ 0 < cfg.payloadNum) j := by
  have hpacket (rounded j : Nat) :
      ((∀ h n, ∀ p ∈ payloadsOf cfg h (requestPacket cfg.packetSize r rounded j) n,
          p.address + p.dataLength ≤ cfg.dramSize p.deviceId ∧
            p.address = r.address + j * cfg.packetSize + cfg.dramReqSize * p.chunk) ∧
        (UsesSync cfg (requestPacket cfg.packetSize r rounded j) →
          (requestPacket cfg.packetSize r rounded j).address < SyncObject.entries)) ↔
      PacketInRange cfg (cfg.dramSize 0) r.address (r.api = .read ∨ 0 < cfg.payloadNum) j := by
    have ht := @requestPacket_type cfg.packetSize r rounded j hapi
    rw [forall_payloadsOf_iff (by rw [ht]; split <;> simp) fun address length device chunk =>
        address + length ≤ cfg.dramSize device ∧
          address = r.address + j * cfg.packetSize + cfg.dramReqSize * chunk,
      requestPacket_address, requestPacket_deviceId, UsesSync, ht]
    unfold PacketInRange
    by_cases hread : r.api = .read <;> simp [hread]
  have hpackets := packetsOf_replay hp hapi
  unfold RequestInRange
  rw [packetCount_eq hp]
  cases hr : roundUp cfg.packetSize r.size with
  | none =>
      rw [hr, Option.map_none, Option.map_eq_none_iff] at hpackets
      simp [hpackets]
  | some rounded =>
      rw [hr, Option.map_some, Option.map_eq_some_iff] at hpackets
      obtain ⟨acts, hacts, hpk⟩ := hpackets
      simp only [hacts, Option.some.injEq, exists_eq_left', Option.map_some, hpk]
      constructor
      · intro h j hj
        exact (hpacket rounded j).mp (h j _ (by simp [hj]))
      · intro h j packet hj
        rw [List.getElem?_map, Option.map_eq_some_iff] at hj
        obtain ⟨j', hj', rfl⟩ := hj
        obtain ⟨hlt, rfl⟩ := List.getElem?_eq_some_iff.mp hj'
        rw [List.getElem_range]
        exact (hpacket rounded j).mpr (h j (by simpa using hlt))

/-- A request stays in range exactly when its last packet ends inside the DRAM and starts inside the
    table of flags. `packet_size` comes out of `stoi` and is below 2^31. -/
theorem requestInRange_iff {cfg : Config} (hp : 0 < cfg.packetSize)
    (hp31 : cfg.packetSize < 2147483648) {r : TraceRecord} (ha : r.address < 4294967296)
    (hapi : r.api ≠ .other) : RequestInRange cfg r ↔
      ∃ count, packetCount cfg.packetSize r.size = some count ∧ ∀ last, count = last + 1 →
        (r.api = .read ∨ 0 < cfg.payloadNum →
          r.address + last * cfg.packetSize < SyncObject.entries) ∧
        (0 < cfg.payloadNum →
          r.address + last * cfg.packetSize + cfg.dramReqSize * cfg.payloadNum ≤
            cfg.dramSize 0) := by
  rw [requestInRange_packets_iff hp hapi]
  simp only [packets_inRange_iff hp31 ha Or.inr]

/-! ## Concrete requests -/

/-- The shipped configuration, with DRAMs of `dramSize` bytes. -/
def dramConfig (dramSize : Nat) : Config where
  hostNum := 2
  dramNum := 1
  packetSize := 1024
  dramReqSize := 64
  portLatency := 42
  linkLatency := 2
  devIcLatency := 20
  cpuLatency := fun _ => 45
  dramSize := fun _ => dramSize

/-- The first two packets of the shipped DRAM. -/
theorem requestInRange_of_first : RequestInRange (dramConfig 3221225472) ⟨.read, 0, 2048, 0⟩ :=
  (requestInRange_iff (by decide) (by decide) (by decide) (by decide)).mpr
    ⟨2, by decide, fun last h => by
      obtain rfl : last = 1 := by omega
      decide⟩

/-- A request of 100 bytes at the end of a DRAM, and one at 2000000000 in the shipped DRAM: both lie
    inside, neither stays in range. -/
theorem ranges_left :
    (65436 + 100 ≤ 65536 ∧ ¬ RequestInRange (dramConfig 65536) ⟨.write, 65436, 100, 0⟩) ∧
    (2000000000 + 1024 ≤ 3221225472 ∧
      ¬ RequestInRange (dramConfig 3221225472) ⟨.write, 2000000000, 1024, 0⟩) := by
  have hcount : packetCount 1024 100 = some 1 ∧ packetCount 1024 1024 = some 1 := by decide
  refine ⟨⟨by decide, ?_⟩, by decide, ?_⟩
  · rw [requestInRange_packets_iff (by decide) (by decide)]
    rintro ⟨count, h, hin⟩
    obtain rfl := Option.some.inj (hcount.1.symm.trans h)
    -- the second payload starts at 65500
    exact absurd ((hin 0 (by decide)).1 1 (by decide)).1 (by decide)
  · rw [requestInRange_packets_iff (by decide) (by decide)]
    rintro ⟨count, h, hin⟩
    obtain rfl := Option.some.inj (hcount.2.symm.trans h)
    exact absurd ((hin 0 (by decide)).2 (.inr (by decide))) (by decide)

end TSim4CXL
