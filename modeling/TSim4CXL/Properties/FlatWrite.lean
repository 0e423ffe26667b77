/-
  A write of the host, and the bytes of the DRAM.

  `trcWrite` cuts the data into packets, `handle_write_packet` each packet into payloads, and
  `peq_cb` of the MEMWrapper stores each payload. `flat_write`: for whole packets of whole payloads
  that fit the DRAM, the stores come to one copy of the data, in whatever order they are made. The
  proof needs no two fragments to be apart: all of them are parts of the same block.
-/
import TSim4CXL.Model.Host
import TSim4CXL.Model.Top

namespace TSim4CXL

open Transition

/-! ## The stores -/

namespace MemWrapper

/-- One notification of the event queue. -/
def peqStep (d : Nat) (load : DataPtr → Nat → List UInt8) (m : MemWrapper) (_ : Unit) :
    Except Fault MemWrapper := (m.peqCb d load).map Prod.fst

/-- What a payload stores, and where. -/
def storeOf (load : DataPtr → Nat → List UInt8) (p : Payload) : Nat × List UInt8 :=
  (p.address, load p.dataPtr p.dataLength)

/-- The event queue run empty, with writes in it only. -/
theorem run_peq (d : Nat) (load : DataPtr → Nat → List UInt8) {ps : List Payload} {m : MemWrapper}
    (hm : m.peq = ps) (hw : ∀ p ∈ ps, p.command = .write) :
    ∃ m', run (peqStep d load) m (List.replicate ps.length ()) = .ok m' ∧ m'.peq = [] ∧
      m'.memData = Store.writeAll m.memData (ps.map (storeOf load)) := by
  induction ps generalizing m with
  | nil => exact ⟨m, rfl, hm, rfl⟩
  | cons p ps ih =>
      have hp := hw p (List.mem_cons_self ..)
      have hstep : peqStep d load m () = .ok { m with
          peq := ps
          memData := memcpy m.memData p.address (load p.dataPtr p.dataLength)
          wQueue := m.wQueue ++ [genTrans p] } := by
        rw [peqStep, peqCb, hm]
        simp only [hp]
        rfl
      obtain ⟨m', hrun, hnil, hmem⟩ := ih (m := { m with
          peq := ps
          memData := memcpy m.memData p.address (load p.dataPtr p.dataLength)
          wQueue := m.wQueue ++ [genTrans p] }) rfl fun q hq => hw q (List.mem_cons_of_mem _ hq)
      refine ⟨m', ?_, hnil, hmem⟩
      rw [List.length_cons, List.replicate_succ, run, hstep]
      exact hrun

end MemWrapper

/-! ## The payloads -/

namespace SimWrapper

/-- The packets handled one after the other. -/
def handleWritePackets (cfg : Config) (h : Nat) (w : SimWrapper) (packets : List Packet) :
    SimWrapper :=
  packets.foldl (fun w packet => (w.handleWritePacket cfg h packet).1) w

theorem mem_handleWritePackets {cfg : Config} {h : Nat} {w : SimWrapper} {packets : List Packet}
    {p : Payload} : p ∈ (w.handleWritePackets cfg h packets).wQueue ↔
      p ∈ w.wQueue ∨ ∃ j packet, packets[j]? = some packet ∧
        p ∈ writePayloads cfg h packet (w.wIdx + j) := by
  induction packets generalizing w with
  | nil => simp [handleWritePackets]
  | cons packet packets ih =>
      rw [handleWritePackets, List.foldl_cons, ← handleWritePackets, ih]
      simp only [handleWritePacket, List.mem_append, or_assoc]
      refine or_congr_right ?_
      constructor
      · rintro (h | ⟨j, q, hq, h⟩)
        · exact ⟨0, packet, rfl, h⟩
        · exact ⟨j + 1, q, hq, by rwa [Nat.add_assoc, Nat.add_comm 1 j] at h⟩
      · rintro ⟨j, q, hq, h⟩
        cases j with
        | zero =>
            obtain rfl := Option.some.inj hq
            exact .inl h
        | succ j => exact .inr ⟨j, q, hq, by rwa [Nat.add_assoc, Nat.add_comm 1 j]⟩

end SimWrapper

/-! ## One fragment -/

/-- The bytes of chunk `i` of packet `j`. -/
theorem writePacketAt_chunk {cfg : Config} (hc : cfg.WellSized)
    {address size device delta i j : Nat} {data : Nat → UInt8} (hi : i < cfg.payloadNum) :
    ((writePacketAt cfg.packetSize address data size device delta j).data.drop
      (cfg.dramReqSize * i)).take
        cfg.dramReqSize =
      (List.range cfg.dramReqSize).map fun k =>
        data (j * cfg.packetSize + (cfg.dramReqSize * i + k)) := by
  have hend := cfg.chunk_le hi
  have hle := hc.le
  refine List.ext_getElem ?_ fun k hk _ => ?_
  · simp only [writePacketAt, makePacket, List.length_take, List.length_drop, List.length_map,
      List.length_range]
    omega
  · have hkd : k < cfg.dramReqSize := by
      rw [List.length_take] at hk
      omega
    simp only [writePacketAt, makePacket, List.getElem_take, List.getElem_drop, List.getElem_map,
      List.getElem_range]
    rw [if_pos (by omega)]

/-- A write of whole packets that fit the DRAM. -/
structure WholeWrite (cfg : Config) (address size device : Nat) : Prop where
  sized : cfg.WellSized
  dvd : cfg.packetSize ∣ size
  pos : 0 < size
  exact : size < 16777216
  fits : address + size ≤ cfg.dramSize device
  dram : cfg.dramSize device ≤ 4294967296

namespace WholeWrite

variable {cfg : Config} {address size device : Nat}

theorem packetSize_pos (hw : WholeWrite cfg address size device) : 0 < cfg.packetSize :=
  Nat.pos_of_dvd_of_pos hw.dvd hw.pos

theorem loopRounds_eq (hw : WholeWrite cfg address size device) :
    loopRounds cfg.packetSize size = size / cfg.packetSize := by
  have h := @loopRounds_mul cfg.packetSize (size / cfg.packetSize) hw.packetSize_pos
  rw [Nat.div_mul_cancel hw.dvd] at h
  exact h (by have := hw.exact; omega)

theorem packets (hw : WholeWrite cfg address size device) (data : Nat → UInt8) (delta : Nat) :
    ∃ acts, trcWrite cfg.packetSize address data size device delta = some acts ∧
      packetsOf acts = (List.range (size / cfg.packetSize)).map
        (writePacketAt cfg.packetSize address data size device delta) := by
  have hle := hw.sized.le
  have h := packetsOf_trcWrite hw.packetSize_pos address data size device delta
  rw [roundUp_of_dvd hw.packetSize_pos hw.exact hw.dvd (by unfold maxDataSize at hle; omega),
    Option.map_some, hw.loopRounds_eq] at h
  exact Option.map_eq_some_iff.mp h

theorem packet_le {j : Nat} (hj : j < size / cfg.packetSize) :
    j * cfg.packetSize + cfg.packetSize ≤ size := by
  rw [← Nat.succ_mul]
  exact (Nat.mul_le_mul_right _ hj).trans (Nat.div_mul_le_self size cfg.packetSize)

/-- What chunk `i` of packet `j` stores: the bytes from `j * packet_size + dram_req_size * i` on. -/
theorem storeOf_chunk (hw : WholeWrite cfg address size device) {data : Nat → UInt8}
    {delta h n i j : Nat} (s : Sys) (hj : j < size / cfg.packetSize) (hi : i < cfg.payloadNum) :
    MemWrapper.storeOf s.load (SimWrapper.writePayload cfg h
        (writePacketAt cfg.packetSize address data size device delta j) n i) =
      (address + (j * cfg.packetSize + cfg.dramReqSize * i),
        (List.range cfg.dramReqSize).map fun k =>
          data (j * cfg.packetSize + (cfg.dramReqSize * i + k))) := by
  have hfits := hw.fits
  have hdram := hw.dram
  have hpacket := packet_le hj
  have hchunk := cfg.chunk_le hi
  have hpos := hw.sized.pos
  refine Prod.ext ?_ ?_
  · show u32 (u32 (address + j * cfg.packetSize) + cfg.dramReqSize * i) = _
    rw [u32, u32, Nat.mod_eq_of_lt (a := address + _) (by omega), Nat.mod_eq_of_lt (by omega),
      Nat.add_assoc]
  · show ((_ : List UInt8).take cfg.dramReqSize).take cfg.dramReqSize = _
    rw [List.take_take, Nat.min_self]
    exact writePacketAt_chunk hw.sized hi

/-- Cell `k` of the data is in a chunk. -/
theorem exists_chunk (hw : WholeWrite cfg address size device) {k : Nat} (hk : k < size) :
    ∃ j < size / cfg.packetSize, ∃ i < cfg.payloadNum,
      j * cfg.packetSize + cfg.dramReqSize * i ≤ k ∧
        k < j * cfg.packetSize + cfg.dramReqSize * i + cfg.dramReqSize := by
  have hp := hw.packetSize_pos
  have hd := hw.sized.pos
  have hrest := Nat.mod_lt k hp
  have hsplit := Nat.div_add_mod k cfg.packetSize
  have hchunk := Nat.div_add_mod (k % cfg.packetSize) cfg.dramReqSize
  have hlast := Nat.mod_lt (k % cfg.packetSize) hd
  rw [Nat.mul_comm cfg.packetSize] at hsplit
  refine ⟨k / cfg.packetSize, ?_, k % cfg.packetSize / cfg.dramReqSize, ?_, by omega, by omega⟩
  · exact Nat.div_lt_div_of_lt_of_dvd hw.dvd hk
  · exact Nat.div_lt_div_of_lt_of_dvd hw.sized.dvd hrest

end WholeWrite

/-- The packets of a whole write are at `address`, `address + packet_size` and so on, the first one
    has the delta of the call and the others none; and once they are handled, storing their payloads
    in any order is one copy of the data to `address`. -/
theorem flat_write {cfg : Config} {address size device : Nat}
    (hw : WholeWrite cfg address size device) (data : Nat → UInt8) (delta h d : Nat) (s : Sys) :
    ∃ acts, trcWrite cfg.packetSize address data size device delta = some acts ∧
      (packetsOf acts).map Packet.address =
        (List.range (size / cfg.packetSize)).map (fun j => address + j * cfg.packetSize) ∧
      (packetsOf acts).map Packet.delta = delta :: List.replicate (size / cfg.packetSize - 1) 0 ∧
      ∀ (w : SimWrapper) (m : MemWrapper), w.wQueue = [] →
        m.peq.Perm (w.handleWritePackets cfg h (packetsOf acts)).wQueue →
        ∃ m', run (MemWrapper.peqStep d s.load) m (List.replicate m.peq.length ()) = .ok m' ∧
          m'.peq = [] ∧ m'.memData = memcpy m.memData address ((List.range size).map data) := by
  obtain ⟨acts, hacts, hpk⟩ := hw.packets data delta
  refine ⟨acts, hacts, ?_, ?_, ?_⟩
  · have hfits := hw.fits
    have hdram := hw.dram
    rw [hpk, List.map_map]
    refine List.map_congr_left fun j hj => ?_
    have := WholeWrite.packet_le (List.mem_range.mp hj)
    exact Nat.mod_eq_of_lt (by have := hw.packetSize_pos; omega)
  · obtain ⟨last, hlast⟩ : ∃ last, size / cfg.packetSize = last + 1 :=
      Nat.exists_eq_succ_of_ne_zero
        (Nat.div_pos (Nat.le_of_dvd hw.pos hw.dvd) hw.packetSize_pos).ne'
    rw [hpk, hlast, List.range_succ_eq_map, List.map_cons, List.map_cons, List.map_map,
      List.map_map, Nat.add_sub_cancel]
    refine congrArg _ (List.eq_replicate_iff.mpr ⟨by rw [List.length_map, List.length_range], ?_⟩)
    intro b hb
    obtain ⟨j, -, rfl⟩ := List.mem_map.mp hb
    rfl
  · intro w m hempty hperm
    have hmem (p : Payload) : p ∈ m.peq ↔ ∃ j < size / cfg.packetSize, ∃ i < cfg.payloadNum,
        p = SimWrapper.writePayload cfg h
          (writePacketAt cfg.packetSize address data size device delta j)
          (w.wIdx + j) i := by
      rw [hperm.mem_iff, SimWrapper.mem_handleWritePackets, hempty, hpk]
      constructor
      · rintro (h | ⟨j, packet, hj, hp⟩)
        · cases h
        rw [List.getElem?_map, Option.map_eq_some_iff] at hj
        obtain ⟨j', hj', rfl⟩ := hj
        obtain ⟨hlt, rfl⟩ := List.getElem?_eq_some_iff.mp hj'
        obtain ⟨i, hi, rfl⟩ := List.mem_map.mp hp
        rw [List.getElem_range]
        exact ⟨j, by simpa using hlt, i, List.mem_range.mp hi, rfl⟩
      · rintro ⟨j, hj, i, hi, rfl⟩
        exact .inr ⟨j, _, by rw [List.getElem?_map, List.getElem?_range hj]; rfl,
          List.mem_map.mpr ⟨i, List.mem_range.mpr hi, rfl⟩⟩
    obtain ⟨m', hrun, hnil, hmem'⟩ := MemWrapper.run_peq d s.load (m := m) rfl fun p hp => by
      obtain ⟨j, hj, i, hi, rfl⟩ := (hmem p).mp hp
      rfl
    refine ⟨m', hrun, hnil, hmem'.trans (Store.writeAll_eq_write ?_ ?_)⟩
    · intro b hb k hk
      obtain ⟨p, hp, rfl⟩ := List.mem_map.mp hb
      obtain ⟨j, hj, i, hi, rfl⟩ := (hmem p).mp hp
      have hpacket := WholeWrite.packet_le hj
      have hchunk := cfg.chunk_le hi
      simp only [hw.storeOf_chunk s hj hi, List.length_map, List.length_range] at hk ⊢
      rw [Nat.add_assoc, Store.write_add _ _ (by simp; omega)]
      simp [Nat.add_assoc]
    · intro k hk
      rw [List.length_map, List.length_range] at hk
      obtain ⟨j, hj, i, hi, hlo, hhi⟩ := hw.exists_chunk hk
      refine ⟨_, List.mem_map.mpr ⟨_, (hmem _).mpr ⟨j, hj, i, hi, rfl⟩, rfl⟩, ?_⟩
      rw [hw.storeOf_chunk s hj hi, List.length_map, List.length_range]
      omega

/-- Two packets of two payloads each, stored last to first. -/
theorem flat_write_of_two : ∃ acts, trcWrite 4 8 uintArray 8 0 7 = some acts ∧
    (packetsOf acts).map Packet.address = [8, 12] ∧ (packetsOf acts).map Packet.delta = [7, 0] ∧
    ∀ m : MemWrapper,
      m.peq = (SimWrapper.init.handleWritePackets (smallConfig 1 1 2) 0
        (packetsOf acts)).wQueue.reverse →
      ∃ m', run (MemWrapper.peqStep 0 (Sys.init (smallConfig 1 1 2)).load) m
          (List.replicate m.peq.length ()) = .ok m' ∧
        m'.peq = [] ∧ m'.memData = memcpy m.memData 8 [0, 1, 2, 3, 4, 5, 6, 7] := by
  obtain ⟨acts, hacts, haddress, hdelta, hstores⟩ :=
    flat_write
      (show WholeWrite (smallConfig 1 1 2) 8 8 0 from
        ⟨⟨by decide, by decide, by decide⟩, by decide, by decide, by decide, by decide,
          by decide⟩)
      uintArray 7 0 0 (Sys.init (smallConfig 1 1 2))
  exact ⟨acts, hacts, haddress, hdelta, fun m hm =>
    hstores SimWrapper.init m rfl (hm ▸ List.reverse_perm _)⟩

end TSim4CXL
