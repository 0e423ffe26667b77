/-
  What the calls of the hosts leave in memory.

  From the call of a host process to the byte in the DRAM: `trcWrite` cuts the data into packets,
  the ring carries them, the SIMWrapper cuts them into payloads, the ports and the controller
  forward these, and a MEMWrapper stores them. `calls_stored`: once a host process has made all its
  calls and none of its write payloads is on its way to the device any more, a byte that no other
  host writes to is what these calls come to, each as one copy of its data, one call after the
  other.
-/
import TSim4CXL.Properties.FinalStore
import TSim4CXL.Properties.FlatWrite
import TSim4CXL.Properties.Handling

namespace TSim4CXL

open Transition

/-! ## The blocks of a call -/

theorem callActs_cons {packetSize : Nat} {call : Call} {calls : List Call} {acts : List HostAct}
    (h : callActs packetSize (call :: calls) = some acts) :
      ∃ first rest, call.acts packetSize = some first ∧
      callActs packetSize calls = some rest ∧ acts = first ++ rest := by
  simp only [callActs, Option.bind_eq_bind, Option.bind_eq_some_iff] at h
  obtain ⟨first, hfirst, rest, hrest, h⟩ := h
  cases h
  exact ⟨first, rest, hfirst, hrest, rfl⟩

/-- What a call puts down on device `d`, and where. -/
def Call.block (d : Nat) : Call → Option (Nat × List UInt8)
  | .write address data size device _ =>
      if device = d then some (address, (List.range size).map data) else none
  | _ => none

/-- The writes to device `d` are of whole packets and fit it. -/
def WholeWrites (cfg : Config) (d : Nat) (calls : List Call) : Prop :=
  ∀ address data size delta, .write address data size d delta ∈ calls →
    WholeWrite cfg address size d

/-- Packet `j` of a whole write does not wrap around. -/
theorem WholeWrite.packet_address {cfg : Config} {address size device : Nat}
    (hw : WholeWrite cfg address size device) (data : Nat → UInt8) (delta : Nat) {j : Nat}
    (hj : j < size / cfg.packetSize) :
    (writePacketAt cfg.packetSize address data size device delta j).address =
      address + j * cfg.packetSize := by
  have hend := WholeWrite.packet_le hj
  have hfits := hw.fits
  have hdram := hw.dram
  have hpos := hw.packetSize_pos
  exact Nat.mod_eq_of_lt (by omega)

/-- The packets of a whole write come to one copy of the data. -/
theorem WholeWrite.stored {cfg : Config} {address size device : Nat}
    (hw : WholeWrite cfg address size device) (data : Nat → UInt8) (delta : Nat)
    {acts : List HostAct} (hacts : trcWrite cfg.packetSize address data size device delta =
      some acts) (mem : Nat → UInt8) :
    Store.writeAll mem ((packetsOf acts).map (Packet.block cfg)) =
      Store.write mem address ((List.range size).map data) := by
  have hmax := hw.sized.le
  obtain ⟨acts', hacts', hpackets⟩ := hw.packets data delta
  rw [hacts] at hacts'
  obtain rfl := Option.some.inj hacts'
  have hlen : ((List.range size).map data).length = cfg.packetSize * (size / cfg.packetSize) := by
    rw [List.length_map, List.length_range, Nat.mul_div_cancel' hw.dvd]
  rw [← Store.writeAll_pieces mem address hlen, hpackets, List.map_map]
  refine congrArg _ (List.map_congr_left fun j hj => ?_)
  have hend := WholeWrite.packet_le (List.mem_range.mp hj)
  refine Prod.ext ?_ (List.ext_getElem ?_ fun k hk hk' => ?_)
  · exact (hw.packet_address data delta (List.mem_range.mp hj)).trans (by rw [Nat.mul_comm])
  · simp only [Packet.block, writePacketAt, makePacket, Function.comp_apply, List.length_take,
      List.length_drop, List.length_map, List.length_range]
    rw [Nat.mul_comm]
    omega
  · have hkp : k < cfg.packetSize := by
      rw [List.length_take] at hk'
      omega
    simp only [Packet.block, writePacketAt, makePacket, Function.comp_apply, List.getElem_take,
      List.getElem_drop, List.getElem_map, List.getElem_range]
    rw [if_pos hkp, Nat.mul_comm]

/-- The packets of a call that are writes, and where they go. -/
theorem Call.writes {packetSize : Nat} {call : Call} {acts : List HostAct}
    (h : call.acts packetSize = some acts) :
    (∃ address data size device delta, call = .write address data size device delta ∧
        ∀ q ∈ packetsOf acts, q.type = .write ∧ q.deviceId = device) ∨
      (∀ d, call.block d = none) ∧ ofType .write (packetsOf acts) = [] := by
  have hnone (hacts : ∀ q ∈ packetsOf acts, q.type ≠ .write) :
      ofType .write (packetsOf acts) = [] :=
    List.filter_eq_nil_iff.mpr fun q hq he => hacts q hq (of_decide_eq_true he)
  cases call with
  | read address size device delta =>
      refine .inr ⟨fun d => rfl, hnone fun q hq => ?_⟩
      obtain ⟨rounded, -, rfl⟩ := Option.map_eq_some_iff.mp h
      obtain ⟨copy, hq⟩ := mem_packetsOf.mp hq
      obtain ⟨j, hj⟩ := mem_forDown hq
      rcases List.mem_pair.mp hj with hj | hj
      · cases hj
        simp [makePacket]
      · cases hj
  | write address data size device delta =>
      refine .inl ⟨address, data, size, device, delta, rfl, fun q hq => ?_⟩
      obtain ⟨rounded, -, rfl⟩ := Option.map_eq_some_iff.mp h
      obtain ⟨copy, hq⟩ := mem_packetsOf.mp hq
      obtain ⟨j, hj⟩ := mem_forDown hq
      cases List.mem_singleton.mp hj
      exact ⟨rfl, rfl⟩
  | signal | wait | terminate =>
      cases h
      refine .inr ⟨fun d => rfl, hnone fun q hq => ?_⟩
      cases List.mem_singleton.mp hq
      simp [makePacket]

/-- The write packets of the calls for one device come to the blocks of the calls. -/
theorem WholeWrites.stored {cfg : Config} {d : Nat} {calls : List Call}
    (hw : WholeWrites cfg d calls) {acts : List HostAct}
    (hacts : callActs cfg.packetSize calls = some acts) (mem : Nat → UInt8) :
    Store.writeAll mem
        (((ofType .write (packetsOf acts)).filter (·.deviceId = d)).map (Packet.block cfg)) =
      Store.writeAll mem (calls.filterMap (Call.block d)) := by
  induction calls generalizing acts mem with
  | nil =>
      cases hacts
      rfl
  | cons call calls ih =>
      obtain ⟨first, rest, hfirst, hrest, rfl⟩ := callActs_cons hacts
      have ih := ih (fun address data size delta hc =>
        hw address data size delta (List.mem_cons_of_mem _ hc)) hrest
      rw [packetsOf_append, ofType_append, List.filter_append, List.map_append,
        Store.writeAll_append, ih]
      rcases Call.writes hfirst with ⟨address, data, size, device, delta, rfl, hq⟩ | ⟨hblock, hnone⟩
      · have hall : ofType .write (packetsOf first) = packetsOf first :=
          List.filter_eq_self.mpr fun q hq' => decide_eq_true (hq q hq').1
        by_cases hd : device = d
        · subst hd
          have hdev : (packetsOf first).filter (·.deviceId = device) = packetsOf first :=
            List.filter_eq_self.mpr fun q hq' => decide_eq_true (hq q hq').2
          have hwhole := hw address data size delta (List.mem_cons_self ..)
          rw [hall, hdev, hwhole.stored data delta hfirst,
            List.filterMap_cons_some (by rw [Call.block, if_pos rfl])]
          rfl
        · have hdev : (packetsOf first).filter (·.deviceId = d) = [] :=
            List.filter_eq_nil_iff.mpr fun q hq' he =>
              hd ((hq q hq').2.symm.trans (of_decide_eq_true he))
          rw [hall, hdev, List.filterMap_cons_none (by rw [Call.block, if_neg hd])]
          rfl
      · rw [hnone, List.filterMap_cons_none (hblock d)]
        rfl

/-- A write packet comes from a write. -/
theorem write_of_packet {packetSize : Nat} {calls : List Call} {acts : List HostAct}
    (hacts : callActs packetSize calls = some acts) {q : Packet} (hq : q ∈ packetsOf acts)
    (htype : q.type = .write) :
    ∃ address data size delta, .write address data size q.deviceId delta ∈ calls ∧
      ∃ first, trcWrite packetSize address data size q.deviceId delta = some first ∧
      q ∈ packetsOf first := by
  induction calls generalizing acts with
  | nil =>
      cases hacts
      cases hq
  | cons call calls ih =>
      obtain ⟨first, rest, hfirst, hrest, rfl⟩ := callActs_cons hacts
      rw [packetsOf_append] at hq
      rcases List.mem_append.mp hq with hq | hq
      · rcases Call.writes hfirst with ⟨address, data, size, device, delta, rfl, hall⟩ | ⟨-, hnone⟩
        · obtain rfl : q.deviceId = device := (hall q hq).2
          exact ⟨address, data, size, delta, List.mem_cons_self .., first, hfirst, hq⟩
        · have hmem : q ∈ ofType .write (packetsOf first) :=
            List.mem_filter.mpr ⟨hq, decide_eq_true htype⟩
          rw [hnone] at hmem
          cases hmem
      · obtain ⟨address, data, size, delta, hmem, h⟩ := ih hrest hq
        exact ⟨address, data, size, delta, List.mem_cons_of_mem _ hmem, h⟩

/-- It is one piece of it. -/
theorem WholeWrites.packet {cfg : Config} {calls : List Call} {q : Packet}
    (hw : WholeWrites cfg q.deviceId calls) {acts : List HostAct}
    (hacts : callActs cfg.packetSize calls = some acts) (hq : q ∈ packetsOf acts)
    (htype : q.type = .write) : ∃ address data size delta,
      .write address data size q.deviceId delta ∈ calls ∧ WholeWrite cfg address size q.deviceId ∧
        ∃ j < size / cfg.packetSize,
          q = writePacketAt cfg.packetSize address data size q.deviceId delta j ∧
          q.address = address + j * cfg.packetSize := by
  obtain ⟨address, data, size, delta, hmem, first, hfirst, hq⟩ := write_of_packet hacts hq htype
  have hwhole := hw address data size delta hmem
  obtain ⟨first', hfirst', hpackets⟩ := hwhole.packets data delta
  obtain rfl := Option.some.inj (hfirst.symm.trans hfirst')
  obtain ⟨j, hj, hqj⟩ := List.mem_map.mp (hpackets ▸ hq)
  have hj := List.mem_range.mp hj
  refine ⟨address, data, size, delta, hmem, hwhole, j, hj, hqj.symm, ?_⟩
  rw [← hwhole.packet_address data delta hj, hqj]

namespace Cosim

variable {cfg : Config} {s : Cosim} {acts : Nat → List HostAct} {calls : Nat → List Call}
  {ib bi : Nat → PacketBuffer} {h d k : Nat}

/-! ## A host process that is done -/

/-- The host process has made all its calls, their packets are handled, and no write payload of
    these is on its way to the device. -/
structure Finished (s : Cosim) (h d : Nat) : Prop where
  connected : (s.link h).shmem.connected = true
  calls : (s.link h).todo = []
  ring : pbIsEmpty (s.link h).shmem.ib = true
  hand : (s.sys.sim h).proc.inHand = []
  stored : s.sys.underway h d .write = []

/-- Then the SIMWrapper has received the packets of all the calls. -/
theorem Inv.received_all (hi : Inv cfg acts s) (hf : Finished s h d) :
    (s.link h).shmem.backReceived = packetsOf (acts h) := by
  have hl := hi.connected_linked hf.connected
  have hlen := hl.ib.isEmpty_iff.mp hf.ring
  have heq := hl.ib.received_prefix.eq_of_length hlen.symm
  simp only [Shmem.ibChannel, hf.connected, hl.greeted_of_connected hf.connected] at heq
  have hpackets := (hi.asking h).packets
  rw [hf.calls, packetsOf_nil, List.append_nil] at hpackets
  exact (List.append_cancel_left heq).trans hpackets

/-- No call of another host writes the byte. -/
def Alone (cfg : Config) (calls : Nat → List Call) (h d k : Nat) : Prop :=
  ∀ g < cfg.hostNum, g ≠ h → ∀ address data size delta, .write address data size d delta ∈ calls g →
    k < address ∨ address + size ≤ k

/-- A byte that the calls of one host write, and no other, holds what they come to once they are
    made and none of their write payloads is on its way. -/
theorem calls_stored (hcalls : ∀ g, callActs cfg.packetSize (calls g) = some (acts g))
    (hc : cfg.WellSized) (h0 : 0 < cfg.payloadNum) (hr : Reachable cfg ib bi acts s)
    (hh : h < cfg.hostNum) (hwhole : ∀ g < cfg.hostNum, WholeWrites cfg d (calls g))
    (halone : Alone cfg calls h d k) (hf : Finished s h d) :
    (s.sys.mem d).memData k = Store.writeAll (fun _ => 0)
    ((calls h).filterMap (Call.block d)) k := by
  have hN : cfg.payloadNum < 4294967296 := Nat.lt_of_le_of_lt hc.payloadNum_le (by decide)
  have hp (g : Nat) := paired_of_callActs (hcalls g)
  have hi := hr.inv h0 hN hp
  -- the packet handled comes from a call of its host
  have hpacket (g : Nat) (hg : g < cfg.hostNum) : ∀ q ∈ writesOf g s.sys.log, q.deviceId = d →
      ∃ address data size delta, .write address data size d delta ∈ calls g ∧
      WholeWrite cfg address size d ∧
        ∃ j < size / cfg.packetSize, q = writePacketAt cfg.packetSize address data size d delta j ∧
          q.address = address + j * cfg.packetSize := by
    intro q hq hqd
    have hrec : q ∈ ofType .write (s.link g).shmem.backReceived := by
      rw [(hr.handled h0 hN hp g).received .write]
      exact List.mem_append_left _ hq
    obtain ⟨hrec, htype⟩ := List.mem_filter.mp hrec
    have hmem : q ∈ packetsOf (acts g) := by
      rw [← (hi.asking g).packets]
      exact List.mem_append_left _ ((hi.received_prefix g).subset hrec)
    subst hqd
    exact (hwhole g hg).packet (hcalls g) hmem (of_decide_eq_true htype)
  have hsole : Sys.SoleWriter cfg h d k s.sys.log := by
    refine ⟨fun g hg q hq hqd => ?_, fun g hg hgh q hq hqd => ?_⟩
    · obtain ⟨address, data, size, delta, -, hw, j, hj, -, haddr⟩ := hpacket g hg q hq hqd
      have hend := WholeWrite.packet_le hj
      have hfits := hw.fits
      have hdram := hw.dram
      omega
    · obtain ⟨address, data, size, delta, hmem, -, j, hj, -, haddr⟩ := hpacket g hg q hq hqd
      have hend := WholeWrite.packet_le hj
      have := halone g hg hgh address data size delta hmem
      omega
  have hwrites : writesOf h s.sys.log = ofType .write (packetsOf (acts h)) := by
    have hreceived := (hr.handled h0 hN hp h).received .write
    rw [hi.received_all hf, hf.hand, ofType_nil, List.append_nil] at hreceived
    exact hreceived.symm
  rw [hi.sys.final_store hc hsole hf.stored, Sys.packetBlocks, hwrites]
  exact congrFun ((hwhole h hh).stored (hcalls h) _) k

theorem calls_stored_of_threeCalls : ((threeCallsRun 50).sys.mem 0).memData 11 =
      Store.writeAll (fun _ => 0) (threeCalls.filterMap (Call.block 0)) 11 ∧
    threeCalls.filterMap (Call.block 0) = [(8, [1, 2, 3, 4, 5, 6, 7, 8])] := by
  have hrun : ((threeCallsRun 50).link 0).shmem.connected = true ∧
      ((threeCallsRun 50).link 0).todo.length = 0 ∧
      pbIsEmpty ((threeCallsRun 50).link 0).shmem.ib = true ∧
      ((threeCallsRun 50).sys.sim 0).proc.inHand = [] ∧
      ((threeCallsRun 50).sys.underway 0 0 .write).length = 0 := by decide +kernel
  obtain ⟨hconn, htodo, hring, hhand, hnone⟩ := hrun
  have hwhole : WholeWrites (smallConfig 1 1 4) 0 threeCalls := by
    intro address data size delta hc
    simp only [threeCalls, List.mem_cons, Call.write.injEq, reduceCtorEq, List.not_mem_nil,
      or_false] at hc
    obtain ⟨rfl, -, rfl, -, -⟩ := hc
    exact ⟨⟨by decide, by decide, by decide⟩, by decide, by decide, by decide, by decide, by decide⟩
  have halone : Alone (smallConfig 1 1 4) (fun _ => threeCalls) 0 0 11 := fun g hg hne =>
    absurd (Nat.lt_one_iff.mp hg) hne
  exact ⟨calls_stored (fun _ => callActs_threeCalls) ⟨by decide, by decide, by decide⟩ (by decide)
    (threeCallsRun_reachable 50) (by decide) (fun _ _ => hwhole) halone
    ⟨hconn, List.eq_nil_of_length_eq_zero htodo, hring, hhand,
      List.eq_nil_of_length_eq_zero hnone⟩, rfl⟩

end Cosim

end TSim4CXL
