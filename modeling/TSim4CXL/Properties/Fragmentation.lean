/-
  How packets are cut into payloads.

  The loader checks neither packet_size nor dram_req_size. `fragmentsRight_iff`: everything is as it
  should be, the payloads tile the bytes of the packet, a response comes after all its acks, and no
  copy leaves `Packet.data` or `packet_data`, exactly when dram_req_size divides
  packet_size <= MAX_DATA_SIZE and the last payload starts below 2^32. The acks are counted right in
  every configuration with a payload; what goes wrong otherwise is bytes left out and copies too
  long (`fragments_wrong`).
-/
import TSim4CXL.Model.FedHost
import TSim4CXL.Properties.ReadAssembly

namespace TSim4CXL

open LoneHost

/-! ## Copies -/

/-- The copies that touch the data of a packet stay inside it. -/
def HostAct.InPacket : HostAct → Prop
  | .send _ none => True
  | .send _ (some copy) => Inside copy.dst copy.length maxDataSize
  | .store copy => Inside copy.src copy.length maxDataSize

/-- `memcpy(data, (packet->data)+(dram_req_size*i), dram_req_size)` -/
def chunkCopy (cfg : Config) (i : Nat) : Copy := ⟨0, cfg.dramReqSize * i, cfg.dramReqSize⟩

/-- `memcpy(packet_data + (dram_req_size*rack_num), trans->get_data_ptr(),
    trans->get_data_length())` -/
def rackCopy (cfg : Config) (w : SimWrapper) (p : Payload) : Copy :=
  ⟨u32 (cfg.dramReqSize * w.rackNum), 0, p.dataLength⟩

/-- `memcpy(packet.data, packet_data, packet_size)` -/
def responseCopy (cfg : Config) : Copy := ⟨0, 0, cfg.packetSize⟩

/-! ## Tiling -/

/-- The addresses of the bytes of some payloads. -/
def bytesOf (ps : List Payload) : List Nat :=
  ps.flatMap fun p => (List.range p.dataLength).map (p.address + ·)

/-- The byte ranges of the payloads make up the range from `a` on, each byte once. -/
def Tiles (ps : List Payload) (a size : Nat) : Prop :=
  (bytesOf ps).Perm ((List.range size).map (a + ·))

/-- The chunks of a packet at `a` tile it exactly when they leave no byte out and do not wrap. -/
theorem chunks_tile_iff {cfg : Config} (hp : 0 < cfg.packetSize)
    (hp32 : cfg.packetSize < 4294967296) (hd : 0 < cfg.dramReqSize) {a : Nat}
    (ha : a < 4294967296) :
    ((List.range cfg.payloadNum).flatMap fun i =>
        (List.range cfg.dramReqSize).map (u32 (a + cfg.dramReqSize * i) + ·)).Perm
      ((List.range cfg.packetSize).map (a + ·)) ↔
    cfg.dramReqSize ∣ cfg.packetSize ∧ a + (cfg.packetSize - cfg.dramReqSize) < 4294967296 := by
  constructor
  · intro h
    have hlen : cfg.dramReqSize * cfg.payloadNum = cfg.packetSize := by
      have := h.length_eq
      simp only [List.length_flatMap, List.length_map, List.length_range, List.map_const',
        List.sum_replicate_nat] at this
      rw [Nat.mul_comm, this]
    refine ⟨⟨_, hlen.symm⟩, ?_⟩
    obtain ⟨last, hlast⟩ : ∃ last, cfg.payloadNum = last + 1 :=
      Nat.exists_eq_succ_of_ne_zero fun h0 => by rw [h0, Nat.mul_zero] at hlen; omega
    rw [hlast, Nat.mul_succ] at hlen
    -- the first byte of the last chunk is one of the packet
    have hmem : u32 (a + cfg.dramReqSize * last) ∈ (List.range cfg.packetSize).map (a + ·) := by
      refine h.subset (List.mem_flatMap.mpr ⟨last, by simp [hlast], List.mem_map.mpr ⟨0, ?_, rfl⟩⟩)
      exact List.mem_range.mpr hd
    obtain ⟨k, hk, heq⟩ := List.mem_map.mp hmem
    unfold u32 at heq
    omega
  · rintro ⟨hdvd, hfit⟩
    have hlen : cfg.dramReqSize * cfg.payloadNum = cfg.packetSize := Nat.mul_div_cancel' hdvd
    refine List.Perm.of_eq ?_
    rw [← hlen, range_mul_flatMap, List.map_flatMap]
    refine List.flatMap_congr fun i hi => ?_
    have hchunk := cfg.chunk_le (List.mem_range.mp hi)
    rw [List.map_map, u32, Nat.mod_eq_of_lt (by omega)]
    exact List.map_congr_left fun k _ => Nat.add_assoc ..

theorem readPayloads_tile_iff {cfg : Config} (hp : 0 < cfg.packetSize)
    (hp32 : cfg.packetSize < 4294967296) (hd : 0 < cfg.dramReqSize) {packet : Packet}
    (ha : packet.address < 4294967296) (h n : Nat) :
    Tiles (SimWrapper.readPayloads cfg h packet n) packet.address cfg.packetSize ↔
      cfg.dramReqSize ∣ cfg.packetSize ∧
        packet.address + (cfg.packetSize - cfg.dramReqSize) < 4294967296 := by
  rw [← chunks_tile_iff hp hp32 hd ha, Tiles, bytesOf, SimWrapper.readPayloads, List.flatMap_map]
  rfl

theorem writePayloads_tile_iff {cfg : Config} (hp : 0 < cfg.packetSize)
    (hp32 : cfg.packetSize < 4294967296) (hd : 0 < cfg.dramReqSize) {packet : Packet}
    (ha : packet.address < 4294967296) (h n : Nat) :
    Tiles (SimWrapper.writePayloads cfg h packet n) packet.address cfg.packetSize ↔
      cfg.dramReqSize ∣ cfg.packetSize ∧
        packet.address + (cfg.packetSize - cfg.dramReqSize) < 4294967296 := by
  rw [← chunks_tile_iff hp hp32 hd ha, Tiles, bytesOf, SimWrapper.writePayloads, List.flatMap_map]
  rfl

/-! ## What is asked of a configuration and a packet -/

/-- The payload carries the bytes of the packet at its addresses. -/
def Carries (packet : Packet) (p : Payload) : Prop :=
  ∃ bytes, p.dataPtr = .buffer bytes ∧ bytes.length = p.dataLength ∧
    ∀ k < p.dataLength, bytes[k]? = packet.data[p.address - packet.address + k]?

/-- A packet is cut right, and none of the copies on its way leaves its buffer. -/
structure FragmentsRight (cfg : Config) (packet : Packet) : Prop where
  reads : ∀ h n, Tiles (SimWrapper.readPayloads cfg h packet n) packet.address cfg.packetSize
  writes : ∀ h n, Tiles (SimWrapper.writePayloads cfg h packet n) packet.address cfg.packetSize
  carries : ∀ h n, ∀ p ∈ SimWrapper.writePayloads cfg h packet n, Carries packet p
  /-- a response has had the acks of all payloads of its packet, and comes with the last of them -/
  response : ∀ mem s, ReachableAlone cfg mem s →
    (∀ n < (responsesOf 0 s.2).length,
      (acksOf s.2 n).length = (SimWrapper.readPayloads cfg 0 packet n).length) ∧
    (readAcks s.2).length < cfg.payloadNum * ((responsesOf 0 s.2).length + 1)
  hostCopies : ∀ (call : Call) acts, call.acts cfg.packetSize = some acts →
    ∀ act ∈ acts, act.InPacket
  chunkCopies : ∀ i < cfg.payloadNum,
    Inside (chunkCopy cfg i).src (chunkCopy cfg i).length maxDataSize
  rackCopies : ∀ mem s, ReachableAlone cfg mem s → ∀ p q, s.1.rackQueue = p :: q →
    Inside (rackCopy cfg s.1 p).dst (rackCopy cfg s.1 p).length cfg.packetSize
  responseCopies : Inside (responseCopy cfg).dst (responseCopy cfg).length maxDataSize ∧
    Inside (responseCopy cfg).src (responseCopy cfg).length cfg.packetSize

variable {cfg : Config}

/-! ## Each part -/

theorem writePayload_carries (hc : cfg.WellSized) {packet : Packet} {h n i : Nat}
    (hi : i < cfg.payloadNum)
    (hfit : packet.address + (cfg.packetSize - cfg.dramReqSize) < 4294967296) :
    Carries packet (SimWrapper.writePayload cfg h packet n i) := by
  have hchunk := cfg.chunk_le hi
  have hle := hc.le
  have haddress : (SimWrapper.writePayload cfg h packet n i).address - packet.address =
      cfg.dramReqSize * i := by
    show u32 (packet.address + cfg.dramReqSize * i) - packet.address = _
    rw [u32, Nat.mod_eq_of_lt (by omega), Nat.add_sub_cancel_left]
  refine ⟨_, rfl, ?_, fun k hk => ?_⟩
  · rw [List.length_take, List.length_drop, packet.data_length]
    show min cfg.dramReqSize _ = cfg.dramReqSize
    omega
  · rw [haddress, List.getElem?_take_of_lt (show k < cfg.dramReqSize from hk), List.getElem?_drop]

/-- Each round of acks ends with a response. -/
theorem response_rounds (h0 : 0 < cfg.payloadNum) (hN : cfg.payloadNum < 4294967296)
    {mem : Nat → Nat → UInt8} {s : SimWrapper × List Event} (hs : ReachableAlone cfg mem s) :
    (∀ n < (responsesOf 0 s.2).length, (acksOf s.2 n).length = cfg.payloadNum) ∧
      (readAcks s.2).length < cfg.payloadNum * ((responsesOf 0 s.2).length + 1) := by
  obtain ⟨hlt, hround⟩ : SimWrapper.ReadRounds cfg 0 s.1 s.2 := (hs.base h0 hN).2.1.2
  refine ⟨fun n hn => hs.acksOf_length h0 hN hn, ?_⟩
  rw [readAcks, ← hround, Nat.mul_succ]
  omega

/-- The accumulation never leaves `packet_data`, whatever the sizes. -/
theorem rackCopy_inside (h0 : 0 < cfg.payloadNum) (hp32 : cfg.packetSize < 4294967296)
    {mem : Nat → Nat → UInt8} {s : SimWrapper × List Event} (hs : ReachableAlone cfg mem s)
    {p : Payload} {q : List Payload} (hq : s.1.rackQueue = p :: q) :
    Inside (rackCopy cfg s.1 p).dst (rackCopy cfg s.1 p).length cfg.packetSize := by
  have hN : cfg.payloadNum < 4294967296 := Nat.lt_of_le_of_lt (Nat.div_le_self ..) hp32
  have hb := hs.base h0 hN
  have hack : p ∈ ofCmd .read (sent (.simBw 0) s.2) := hb.2.1.1.1.subset (by simp [hq])
  obtain ⟨n, hn, i, hi, rfl⟩ := ack_form hb.1 hb.2.2 hs.fair hack
  have hchunk := cfg.chunk_le hb.2.1.2.1
  have hlen : (ackOf (SimWrapper.readPayload cfg 0 (readsOf 0 s.2)[n] n i)).dataLength =
      cfg.dramReqSize := by
    simp [ackOf, SimWrapper.readPayload, MemWrapper.backwardTrans, MemWrapper.genTrans]
  intro k hk
  simp only [rackCopy, hlen, u32] at hk ⊢
  rw [Nat.mod_eq_of_lt (by omega)]
  omega

/-- The host's own copies are of whole packets. -/
theorem hostCopies_inside {packetSize : Nat} (hle : packetSize ≤ maxDataSize) {call : Call}
    {acts : List HostAct} (h : call.acts packetSize = some acts) : ∀ act ∈ acts, act.InPacket := by
  have hwhole : Inside 0 packetSize maxDataSize := fun k hk => by omega
  intro act hact
  cases call with
  | read address size device delta =>
      obtain ⟨rounded, -, rfl⟩ := Option.map_eq_some_iff.mp h
      obtain ⟨j, hj⟩ := mem_forDown hact
      rcases List.mem_pair.mp hj with rfl | rfl
      · trivial
      · exact hwhole
  | write address data size device delta =>
      obtain ⟨rounded, -, rfl⟩ := Option.map_eq_some_iff.mp h
      obtain ⟨j, hj⟩ := mem_forDown hact
      obtain rfl := List.mem_singleton.mp hj
      exact hwhole
  | signal signalID =>
      obtain rfl := Option.some.inj h
      obtain rfl := List.mem_singleton.mp hact
      trivial
  | wait waitID =>
      obtain rfl := Option.some.inj h
      obtain rfl := List.mem_singleton.mp hact
      trivial
  | terminate delta =>
      obtain rfl := Option.some.inj h
      obtain rfl := List.mem_singleton.mp hact
      trivial

/-! ## The condition -/

theorem FragmentsRight.dvd (hp : 0 < cfg.packetSize) (hp32 : cfg.packetSize < 4294967296)
    (hd : 0 < cfg.dramReqSize) {packet : Packet} (ha : packet.address < 4294967296)
    (h : FragmentsRight cfg packet) : cfg.dramReqSize ∣ cfg.packetSize ∧
      packet.address + (cfg.packetSize - cfg.dramReqSize) < 4294967296 :=
  (readPayloads_tile_iff hp hp32 hd ha 0 0).mp (h.reads 0 0)

theorem FragmentsRight.le (hp : 0 < cfg.packetSize) {packet : Packet}
    (h : FragmentsRight cfg packet) :
    cfg.packetSize ≤ maxDataSize := by
  have := (inside_iff hp).mp h.responseCopies.1
  rwa [responseCopy, Nat.zero_add] at this

/-- A packet is cut right exactly when dram_req_size divides packet_size, which is no more than
    MAX_DATA_SIZE, and its last payload starts below 2^32. -/
theorem fragmentsRight_iff (hp : 0 < cfg.packetSize) (hp32 : cfg.packetSize < 4294967296)
    (hd : 0 < cfg.dramReqSize) {packet : Packet} (ha : packet.address < 4294967296) :
    FragmentsRight cfg packet ↔ cfg.dramReqSize ∣ cfg.packetSize ∧ cfg.packetSize ≤ maxDataSize ∧
      packet.address + (cfg.packetSize - cfg.dramReqSize) < 4294967296 := by
  constructor
  · intro h
    obtain ⟨hdvd, hfit⟩ := h.dvd hp hp32 hd ha
    exact ⟨hdvd, h.le hp, hfit⟩
  · rintro ⟨hdvd, hle, hfit⟩
    have hc : cfg.WellSized := ⟨hd, hdvd, hle⟩
    have h0 : 0 < cfg.payloadNum := Nat.div_pos (Nat.le_of_dvd hp hdvd) hd
    have hN : cfg.payloadNum < 4294967296 := Nat.lt_of_le_of_lt (Nat.div_le_self ..) hp32
    have hwhole {size : Nat} (hsize : cfg.packetSize ≤ size) : Inside 0 cfg.packetSize size :=
      fun k hk => by
      omega
    exact {
      reads := fun h n => (readPayloads_tile_iff hp hp32 hd ha h n).mpr ⟨hdvd, hfit⟩
      writes := fun h n => (writePayloads_tile_iff hp hp32 hd ha h n).mpr ⟨hdvd, hfit⟩
      carries := fun h n p hmem => by
        obtain ⟨i, hi, rfl⟩ := List.mem_map.mp hmem
        exact writePayload_carries hc (List.mem_range.mp hi) hfit
      response := fun mem s hs => by
        simp only [SimWrapper.readPayloads, List.length_map, List.length_range]
        exact response_rounds h0 hN hs
      hostCopies := fun call acts h => hostCopies_inside hle h
      chunkCopies := fun i hi => by
        have hchunk := cfg.chunk_le hi
        intro k hk
        simp only [chunkCopy] at hk ⊢
        omega
      rackCopies := fun mem s hs p q hq => rackCopy_inside h0 hp32 hs hq
      responseCopies := ⟨hwhole hle, hwhole (Nat.le_refl _)⟩ }

/-- A packet of the smallest configuration. -/
theorem fragmentsRight_of_small : FragmentsRight (smallConfig 1 1 2) (.fill .write 8 1) :=
  (fragmentsRight_iff (by decide) (by decide) (by decide) (by decide)).mpr
    ⟨by decide, by decide, by decide⟩

/-- Sizes that do not divide, a payload larger than the packet, and a packet larger than its
    data. -/
theorem fragments_wrong :
    ¬ FragmentsRight { smallConfig 1 1 1 with packetSize := 1024, dramReqSize := 96 }
        (.fill .read 0 0) ∧
      ¬ FragmentsRight { smallConfig 1 1 1 with packetSize := 64, dramReqSize := 128 }
        (.fill .read 0 0) ∧
      ¬ FragmentsRight { smallConfig 1 1 1 with packetSize := 4096, dramReqSize := 64 }
        (.fill .read 0 0) := by
  refine ⟨fun h => ?_, fun h => ?_, fun h => ?_⟩
  · exact absurd (h.dvd (by decide) (by decide) (by decide) (by decide)).1 (by decide)
  · exact absurd (h.dvd (by decide) (by decide) (by decide) (by decide)).1 (by decide)
  · exact absurd (h.le (by decide)) (by decide)

end TSim4CXL
