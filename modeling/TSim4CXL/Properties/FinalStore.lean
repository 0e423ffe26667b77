/-
  What the backing stores hold.

  `sole_writer_store`: a byte of a device that one host writes, and no other, holds at any time what
  the first of that host's write payloads left there, and once none of these is on its way to the
  device any more, what its write packets leave there, one whole packet after the other. How the
  runs of the hosts and the two commands interleave does not matter, nor does what the DRAM does.
-/
import TSim4CXL.Properties.ForwardPath
import TSim4CXL.Properties.Visibility

namespace TSim4CXL

open Transition

/-- What a write packet puts down, and where. -/
def Packet.block (cfg : Config) (packet : Packet) : Nat × List UInt8 :=
  (packet.address, packet.data.take cfg.packetSize)

namespace Sys

variable {cfg : Config} {s : Sys} {ok : Sys → Action → Prop}

/-- The write packets of a host for one device, as blocks. -/
def packetBlocks (cfg : Config) (h d : Nat) (l : List Event) : List (Nat × List UInt8) :=
  ((writesOf h l).filter (·.deviceId = d)).map (Packet.block cfg)

/-- No write packet for the device wraps around, and none but those of the host reach the byte. -/
structure SoleWriter (cfg : Config) (h d k : Nat) (l : List Event) : Prop where
  inside : ∀ g < cfg.hostNum, ∀ q ∈ writesOf g l, q.deviceId = d →
    q.address + cfg.packetSize ≤ 4294967296
  others : ∀ g < cfg.hostNum, g ≠ h → ∀ q ∈ writesOf g l, q.deviceId = d →
    k < q.address ∨ q.address + cfg.packetSize ≤ k

/-! ## Packets and their payloads -/

/-- The payloads of a packet come to the bytes of the packet. -/
theorem stored_writePayloads (hc : cfg.WellSized) {q : Packet}
    (hq : q.address + cfg.packetSize ≤ 4294967296) (h n : Nat) (mem : Nat → UInt8) :
    Store.writeAll mem
        ((SimWrapper.writePayloads cfg h q n).map fun p => (p.address, MemWrapper.buffered p)) =
      Store.write mem q.address (q.data.take cfg.packetSize) := by
  have hlen : (q.data.take cfg.packetSize).length = cfg.dramReqSize * cfg.payloadNum := by
    have hdata := q.data_length
    have hle := hc.le
    rw [List.length_take, hc.mul_payloadNum]
    omega
  rw [← Store.writeAll_pieces mem q.address hlen, SimWrapper.writePayloads, List.map_map]
  refine congrArg _ (List.map_congr_left fun i hi => ?_)
  have hi := List.mem_range.mp hi
  have hend := hc.chunk_le hi
  have hpos := hc.pos
  refine Prod.ext ?_ ?_
  · exact Nat.mod_eq_of_lt (by omega)
  · rw [Function.comp_apply, (buffered_writePayload hc hi q).1, List.drop_take, List.take_take,
      Nat.min_eq_left]
    omega

/-- So do those of all packets for one device. -/
theorem stored_packetPayloads (hc : cfg.WellSized) {h d : Nat} {qs : List Packet}
    (hqs : ∀ q ∈ qs, q.deviceId = d → q.address + cfg.packetSize ≤ 4294967296) :
    MemWrapper.stored
        ((packetPayloads (SimWrapper.writePayloads cfg h) qs).filter (·.deviceId = d)) =
      Store.writeAll (fun _ => 0) ((qs.filter (·.deviceId = d)).map (Packet.block cfg)) := by
  unfold MemWrapper.stored
  induction qs using List.reverseRecOn with
  | nil => rfl
  | append_singleton qs q ih =>
      have ih := ih fun q' hq' => hqs q' (List.mem_append_left _ hq')
      rw [packetPayloads_concat, List.filter_append, List.map_append, Store.writeAll_append, ih,
        List.filter_append, List.map_append, Store.writeAll_append]
      by_cases hd : q.deviceId = d
      · have hall : (SimWrapper.writePayloads cfg h q qs.length).filter (·.deviceId = d) =
            SimWrapper.writePayloads cfg h q qs.length := by
          refine List.filter_eq_self.mpr fun p hp => ?_
          obtain ⟨i, -, rfl⟩ := List.mem_map.mp hp
          exact decide_eq_true hd
        rw [hall, stored_writePayloads hc (hqs q (by simp) hd),
          List.filter_cons_of_pos (by simpa using hd)]
        rfl
      · have hnone : (SimWrapper.writePayloads cfg h q qs.length).filter (·.deviceId = d) = [] := by
          refine List.filter_eq_nil_iff.mpr fun p hp => ?_
          obtain ⟨i, -, rfl⟩ := List.mem_map.mp hp
          exact fun he => hd (of_decide_eq_true he)
        rw [hnone, List.filter_cons_of_neg (by simpa using hd)]
        rfl

/-! ## What a device has stored of one host -/

/-- The payloads of a host and command on their way to a device, oldest first: in its event queue,
    in the controller, in the ports and in the SIMWrapper. -/
def underway (s : Sys) (h d : Nat) (c : Command) : List Payload :=
  (ofCmd c (s.mem d).peq).filter (·.id = h) ++
    ((s.ctrl.fwContents c).filter (·.id = h) ++
      ((s.dsp h).fwContents c ++ (s.usp h).fwContents c ++
        (s.sim h).fwContents c)).filter (·.deviceId = d)

/-- The payloads a host created for a device are those the device has stored, and then those on
    their way. -/
theorem ReachableBy.stored_underway (hr : ReachableBy cfg ok s) (h d : Nat) (c : Command) :
    createdFor h d c s.log =
      (ofCmd c (sent (.peqCb d) s.log)).filter (·.id = h) ++ s.underway h d c := by
  rw [hr.created_handed h d c, handed, hr.memQueue d, ofCmd_append, List.filter_append, underway,
    List.append_assoc]

/-- The stores of other hosts do not reach the byte. -/
theorem ReachableBy.stored_of_sole (hr : ReachableBy cfg ok s) (hc : cfg.WellSized) {h d k : Nat}
    (hw : SoleWriter cfg h d k s.log) : (s.mem d).memData k =
      MemWrapper.stored ((ofCmd .write (sent (.peqCb d) s.log)).filter (·.id = h)) k := by
  rw [hr.memData_eq d, MemWrapper.stored, MemWrapper.stored, eq_comm]
  refine Store.writeAll_filter _ _ fun p hp hid => ?_
  obtain ⟨hp, hcmd⟩ := mem_ofCmd.mp hp
  have hid : p.id ≠ h := by simpa using hid
  have hfw : p ∈ sent (.memFw d) s.log := by
    rw [hr.memQueue d]
    exact List.mem_append_left _ hp
  have hdev := (hr.memFw_device d p hfw).1
  have hcreated := hr.memFw_create ((mem_callsOn _).mpr ⟨_, rfl, (mem_sent _).mp hfw⟩)
  have hg := hr.source_exists _ ((mem_sent _).mp hcreated)
  rcases hr.mem_create hcreated with ⟨n, hn, i, hi, he⟩ | ⟨n, hn, i, hi, he⟩
  · rw [he] at hcmd
    cases hcmd
  · have hqd : (writesOf p.id s.log)[n].deviceId = d :=
      (congrArg Payload.deviceId he).symm.trans hdev
    have hin := hw.inside p.id hg _ (List.getElem_mem hn) hqd
    have hother := hw.others p.id hg hid _ (List.getElem_mem hn) hqd
    have hend := hc.chunk_le hi
    have hpos := hc.pos
    have haddr : p.address = (writesOf p.id s.log)[n].address + cfg.dramReqSize * i :=
      (congrArg Payload.address he).trans (Nat.mod_eq_of_lt (by omega))
    have hlen : (MemWrapper.buffered p).length = cfg.dramReqSize :=
      (congrArg (fun p => (MemWrapper.buffered p).length) he).trans
        (buffered_writePayload hc hi _).2
    rw [haddr, hlen]
    omega

/-- With none of its write payloads on its way, what its write packets left there. -/
theorem ReachableBy.final_store (hr : ReachableBy cfg ok s) (hc : cfg.WellSized) {h d k : Nat}
    (hw : SoleWriter cfg h d k s.log) (hnone : s.underway h d .write = []) :
    (s.mem d).memData k = Store.writeAll (fun _ => 0) (packetBlocks cfg h d s.log) k := by
  have hall := hr.stored_underway h d .write
  rw [hnone, List.append_nil] at hall
  rw [hr.stored_of_sole hc hw, ← hall, createdFor, (hr.simCreated h).2.1]
  refine congrFun (stored_packetPayloads hc fun q hq hqd => ?_) k
  exact hw.inside h (hr.source_exists _ ((mem_writesOf h).mp hq)) q hq hqd

/-- A byte only one host writes holds what the first of its write payloads left there, and what all
    its write packets leave there once none of its write payloads for the device is on its way,
    whatever else is. -/
theorem sole_writer_store (hr : Reachable cfg s) (hc : cfg.WellSized) {h d k : Nat}
    (hw : SoleWriter cfg h d k s.log) :
    (∃ ps, ps <+: createdFor h d .write s.log ∧ (s.mem d).memData k = MemWrapper.stored ps k) ∧
      (s.underway h d .write = [] →
        (s.mem d).memData k = Store.writeAll (fun _ => 0) (packetBlocks cfg h d s.log) k) := by
  have hr : ReachableBy cfg anyStep s := hr
  refine ⟨⟨_, ?_, hr.stored_of_sole hc hw⟩, hr.final_store hc hw⟩
  rw [hr.stored_underway h d .write]
  exact List.prefix_append _ _

/-- Host 0 writes a packet twice; a packet of host 1 is still on its way. -/
def rewrites : Sys :=
  runSkip (step (smallConfig 2 1 4)) anyStep (init (smallConfig 2 1 4))
    (.sim 0 (.recv (.fill .write 8 7)) :: rounds (smallConfig 2 1 4) 16 ++
      .sim 0 (.recv (.fill .write 8 9)) :: rounds (smallConfig 2 1 4) 10 ++
      .sim 1 (.recv (.fill .write 24 5)) :: rounds (smallConfig 2 1 4) 6)

theorem sole_writer_store_of_rewrites :
    ((rewrites.mem 0).memData 10 =
        Store.writeAll (fun _ => 0) (packetBlocks (smallConfig 2 1 4) 0 0 rewrites.log) 10 ∧
      packetBlocks (smallConfig 2 1 4) 0 0 rewrites.log =
        [(8, List.replicate 8 7), (8, List.replicate 8 9)]) ∧
      (rewrites.underway 1 0 .write).length = 3 := by
  -- the run is evaluated once
  have hrun : (∀ g < 2, ∀ q ∈ writesOf g rewrites.log, q.deviceId = 0 →
        q.address + 8 ≤ 4294967296) ∧
      (∀ g < 2, g ≠ 0 → ∀ q ∈ writesOf g rewrites.log, q.deviceId = 0 →
        10 < q.address ∨ q.address + 8 ≤ 10) ∧
      (rewrites.underway 0 0 .write).length = 0 ∧ (rewrites.underway 1 0 .write).length = 3 ∧
      packetBlocks (smallConfig 2 1 4) 0 0 rewrites.log =
        [(8, List.replicate 8 7), (8, List.replicate 8 9)] := by
    decide +kernel
  obtain ⟨hinside, hothers, hnone, hsome, hblocks⟩ := hrun
  have hreach : Reachable (smallConfig 2 1 4) rewrites := reach_runSkip _ _
  have hsole : SoleWriter (smallConfig 2 1 4) 0 0 10 rewrites.log := ⟨hinside, hothers⟩
  exact ⟨⟨(sole_writer_store hreach ⟨by decide, by decide, by decide⟩ hsole).2
    (List.eq_nil_of_length_eq_zero hnone), hblocks⟩, hsome⟩

end Sys

end TSim4CXL
