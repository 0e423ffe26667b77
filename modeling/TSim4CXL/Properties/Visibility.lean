/-
  From the producer's bytes to the consumer's read.

  With one memory device and write packets that share no byte, `reads_see_writes`: whenever
  the gate of address `a` has let a read pass, the write packet at `a` is in the backing
  store as a whole, and every read payload of a read brings back the bytes written at its
  address.

  A signal is raised on a count of acks, whichever they are. It comes late enough all the
  same: the acks of a host are for its own writes (`Producers.noClash`), a device stores
  before it acknowledges, and the writes of a host are stored in their order. So as many
  acks as the first `n + 1` packets have payloads mean that these are stored.
-/
import TSim4CXL.Trace.Control
import TSim4CXL.Properties.Routing
import TSim4CXL.Properties.Signals

namespace TSim4CXL

open Transition

/-- Write packets lie inside the DRAM and the sync table, and no two of them share a byte. -/
structure Producers (cfg : Config) (l : List Event) : Prop where
  inside : ∀ h < cfg.hostNum, ∀ q ∈ writesOf h l,
    q.address + cfg.packetSize ≤ cfg.dramSize 0 ∧ q.address < 2000000000
  apart : ∀ h < cfg.hostNum, ∀ k < cfg.hostNum, ∀ n, ∀ hn : n < (writesOf h l).length,
    ∀ m, ∀ hm : m < (writesOf k l).length, h ≠ k ∨ n ≠ m →
      (writesOf h l)[n].address + cfg.packetSize ≤ (writesOf k l)[m].address ∨
        (writesOf k l)[m].address + cfg.packetSize ≤ (writesOf h l)[n].address

/-- What holds of all write packets held of the earlier ones. -/
theorem Producers.mono {cfg : Config} {l es : List Event} (hw : Producers cfg (l ++ es)) :
    Producers cfg l where
  inside h hh q hq := hw.inside h hh q (by rw [writesOf_append]; exact List.mem_append_left _ hq)
  apart h hh k hk n hn m hm hne := by
    have hn' : n < (writesOf h (l ++ es)).length := by simp; omega
    have hm' : m < (writesOf k (l ++ es)).length := by simp; omega
    have := hw.apart h hh k hk n hn' m hm' hne
    simpa only [writesOf_append, List.getElem_append_left hn, List.getElem_append_left hm]
      using this

namespace Sys

variable {cfg : Config} {s s' : Sys} {ok : Sys → Action → Prop}

/-! ## Write payloads and their blocks -/

/-- A write payload is a block of its packet. -/
theorem ReachableBy.write_chunk (hr : ReachableBy cfg ok s) (hc : cfg.WellSized)
    (hw : Producers cfg s.log) {k : Nat} {p : Payload} (hp : p ∈ sent (.create k) s.log)
    (hcmd : p.command = .write) : ∃ n, ∃ hn : n < (writesOf k s.log).length, ∃ i < cfg.payloadNum,
      p = SimWrapper.writePayload cfg k (writesOf k s.log)[n] n i ∧
        p.address = (writesOf k s.log)[n].address + cfg.dramReqSize * i := by
  have hk : k < cfg.hostNum := hr.source_exists _ ((mem_sent _).mp hp)
  rcases hr.mem_create hp with ⟨n, hn, i, hi, he⟩ | ⟨n, hn, i, hi, he⟩
  · rw [he] at hcmd
    cases hcmd
  · refine ⟨n, hn, i, hi, he, ?_⟩
    have hin := (hw.inside k hk _ (List.getElem_mem hn)).2
    have hle := hc.chunk_le hi
    have hmax := hc.le
    rw [he]
    simp only [SimWrapper.writePayload, u32, maxDataSize] at hmax ⊢
    omega

theorem buffered_writePayload (hc : cfg.WellSized) {k n i : Nat} (hi : i < cfg.payloadNum)
    (packet : Packet) :
    MemWrapper.buffered (SimWrapper.writePayload cfg k packet n i) =
        (packet.data.drop (cfg.dramReqSize * i)).take cfg.dramReqSize ∧
      (MemWrapper.buffered (SimWrapper.writePayload cfg k packet n i)).length =
        cfg.dramReqSize := by
  have hle := hc.chunk_le hi
  have hmax := hc.le
  have hlen := packet.data_length
  have heq : MemWrapper.buffered (SimWrapper.writePayload cfg k packet n i) =
      (packet.data.drop (cfg.dramReqSize * i)).take cfg.dramReqSize := by
    simp [MemWrapper.buffered, SimWrapper.writePayload, List.take_take]
  refine ⟨heq, ?_⟩
  rw [heq, List.length_take, List.length_drop]
  omega

/-- Blocks of different write payloads do not overlap. -/
theorem ReachableBy.blocks_apart (hr : ReachableBy cfg ok s) (hc : cfg.WellSized)
    (hw : Producers cfg s.log) {k k' : Nat} {p p' : Payload} (hp : p ∈ sent (.create k) s.log)
    (hp' : p' ∈ sent (.create k') s.log) (hcmd : p.command = .write) (hcmd' : p'.command = .write)
    (hne : p ≠ p') : p.address + cfg.dramReqSize ≤ p'.address ∨
      p'.address + cfg.dramReqSize ≤ p.address := by
  have hk : k < cfg.hostNum := hr.source_exists _ ((mem_sent _).mp hp)
  have hk' : k' < cfg.hostNum := hr.source_exists _ ((mem_sent _).mp hp')
  obtain ⟨n, hn, i, hi, he, ha⟩ := hr.write_chunk hc hw hp hcmd
  obtain ⟨n', hn', i', hi', he', ha'⟩ := hr.write_chunk hc hw hp' hcmd'
  have hle := hc.chunk_le hi
  have hle' := hc.chunk_le hi'
  by_cases hsame : k = k' ∧ n = n'
  · obtain ⟨rfl, rfl⟩ := hsame
    -- two chunks of one packet
    rcases Nat.lt_trichotomy i i' with hlt | heq | hlt
    · have := Nat.mul_le_mul_left cfg.dramReqSize (Nat.succ_le_of_lt hlt)
      rw [Nat.mul_succ] at this
      omega
    · subst heq
      exact absurd (he.trans he'.symm) hne
    · have := Nat.mul_le_mul_left cfg.dramReqSize (Nat.succ_le_of_lt hlt)
      rw [Nat.mul_succ] at this
      omega
  · have := hw.apart k hk k' hk' n hn n' hn' (by omega)
    omega

/-! ## Acks go to their host -/

/-- Hosts that share no byte never clash in a write. -/
theorem ReachableBy.noClash_of_producers (hr : ReachableBy cfg ok s) (hc : cfg.WellSized)
    (hw : Producers cfg s.log) (a : Action) : NoClash cfg .write s a := by
  unfold NoClash
  split
  · rename_i h
    intro p hp q hq hqc ha
    have hpath : p ∈ ofCmd .write (sent (.create h) s.log) := by
      rw [hr.host_path h .write]
      exact List.mem_append_right _
        (List.mem_append_left _ (List.mem_append_left _ (List.mem_of_mem_take hp)))
    obtain ⟨hpc, hcmd⟩ := mem_ofCmd.mp hpath
    obtain ⟨q', hq', he⟩ := hr.inFlight_create hq
    have hqcmd : q'.command = .write := by
      rw [← Payload.bare_command, he, Payload.bare_command, hqc]
    have hqa : q'.address = p.address := by
      rw [← Payload.bare_address q', he, Payload.bare_address, ha]
    by_contra hne
    have hpq : p ≠ q' := by
      rintro rfl
      exact hne ((hr.create_id hq').symm.trans (hr.create_id hpc))
    have := hr.blocks_apart hc hw hpc hq' hcmd hqcmd hpq
    have := hc.pos
    omega
  · trivial

theorem Reachable.noClash (hr : Reachable cfg s) (hc : cfg.WellSized) (hw : Producers cfg s.log) :
    ReachableBy cfg (NoClash cfg .write) s := by
  refine Reach.invariant (P := fun s => Producers cfg s.log →
    ReachableBy cfg (NoClash cfg .write) s)
    (fun _ => .refl) ?_ hr hw
  intro s a s' _ _ ih hs hw
  obtain ⟨es, hl⟩ := log_step hs
  have hw' : Producers cfg s.log := (hl ▸ hw).mono
  exact .tail (ih hw') ((ih hw').noClash_of_producers hc hw' a) hs

/-! ## A signal comes after its packet is stored -/

/-- A host has consumed at most as many write acks as the device has stored of its writes. -/
theorem ReachableBy.acks_le_stored (hr : ReachableBy cfg (NoClash cfg .write) s)
    (h1 : cfg.dramNum = 1) (k : Nat) : (ofCmd .write (sent (.endResp k) s.log)).length ≤
      ((ofCmd .write (sent (.peqCb 0) s.log)).filter (·.id = k)).length := by
  have hcons := (hr.simAcks k).2.length_le
  have hpath := congrArg List.length (hr.ack_path k .write)
  simp only [List.length_append] at hcons hpath
  have hsub : List.Subperm ((ofCmd .write (sent (.dspBw k) s.log)).map Payload.bare)
      (((ofCmd .write (sent (.peqCb 0) s.log)).filter (·.id = k)).map Payload.bare) := by
    refine List.subperm_ext_iff.mpr fun a ha => ?_
    obtain ⟨p, hp, rfl⟩ := List.mem_map.mp ha
    obtain ⟨hp, hcmd⟩ := mem_ofCmd.mp hp
    have hid : k = p.id := hr.dspBw_id (fun _ _ hn => hn) ((mem_sent _).mp hp) hcmd
    rw [show k = p.bare.id from hid, show Command.write = p.bare.command from hcmd.symm,
      count_bare_id, count_bare_ofCmd, count_bare_ofCmd]
    have hle := hr.count_dspBw_le p.bare.id p.bare
    -- the device it comes from got it, and there is one device only
    have hdev : p.bare.deviceId = 0 := by
      have hpos : 0 < ((sent (.peqCb p.bare.deviceId) s.log).map Payload.bare).count p.bare := by
        refine Nat.lt_of_lt_of_le (List.count_pos_iff.mpr (List.mem_map_of_mem ?_)) hle
        exact hid ▸ hp
      obtain ⟨p', hp', -⟩ := List.mem_map.mp (List.count_pos_iff.mp hpos)
      have := hr.memFw_device p.bare.deviceId p'
        (by rw [hr.memQueue]; exact List.mem_append_left _ hp')
      omega
    rwa [hdev] at hle
  have := hsub.length_le
  simp only [List.length_map] at this
  omega

/-- What the only device has stored of a host's writes is the first ones created. -/
theorem ReachableBy.stored_prefix (hr : ReachableBy cfg ok s) (h1 : cfg.dramNum = 1) (k : Nat) :
    (ofCmd .write (sent (.peqCb 0) s.log)).filter (·.id = k) <+:
      ofCmd .write (sent (.create k) s.log) := by
  have hone : callsOn Chan.isMemFw s.log = sent (.memFw 0) s.log := by
    rw [← hr.memFw_filter 0, eq_comm, List.filter_eq_self]
    intro p hp
    obtain ⟨c, hc, hm⟩ := (mem_callsOn _).mp hp
    cases c with
    | memFw d =>
        have := hr.memFw_device d p ((mem_sent _).mpr hm)
        rw [decide_eq_true_eq]
        omega
    | _ => cases hc
  rw [hr.forward_path k .write, hone, hr.memQueue 0, ofCmd_append, List.filter_append,
    List.append_assoc]
  exact List.prefix_append ..

/-- Every signal is that of a write packet whose payloads are all stored. -/
theorem ReachableBy.stored_of_signal (hr : ReachableBy cfg (NoClash cfg .write) s)
    (hc : cfg.WellSized) (h1 : cfg.dramNum = 1) {k a : Nat} (hs : .signal k a ∈ s.log) :
    ∃ n, ∃ hn : n < (writesOf k s.log).length, (writesOf k s.log)[n].address = a ∧
      ∀ p ∈ SimWrapper.writePayloads cfg k (writesOf k s.log)[n] n,
        p ∈ ofCmd .write (sent (.peqCb 0) s.log) := by
  obtain ⟨n, hn, ha⟩ := List.mem_iff_getElem.mp ((mem_signalsOf k).mpr hs)
  have horder := hr.simSignalOrder k
  have hlen := congrArg List.length horder
  simp only [List.length_append, List.length_map] at hlen
  refine ⟨n, by omega, ?_, ?_⟩
  · have hget : ((writesOf k s.log).map (·.address))[n]? =
        (signalsOf k s.log ++ (s.sim k).syncQueue)[n]? := by
      rw [horder]
    rw [List.getElem?_append_left hn, List.getElem?_eq_getElem hn, ha, List.getElem?_map,
      List.getElem?_eq_getElem (show n < (writesOf k s.log).length by omega)] at hget
    simpa using hget
  · rcases Nat.eq_zero_or_pos cfg.payloadNum with h0 | h0
    · simp [SimWrapper.writePayloads, h0]
    · intro p hp
      -- the acks counted for the first `n + 1` signals are no more than the writes stored
      have hmax : cfg.payloadNum < 4294967296 := Nat.lt_of_le_of_lt hc.payloadNum_le (by decide)
      have hacks := (hr.simRounds h0 hmax k).2
      have hstored := hr.acks_le_stored h1 k
      have hround : cfg.payloadNum * (n + 1) ≤ cfg.payloadNum * (signalsOf k s.log).length :=
        Nat.mul_le_mul_left _ hn
      have hlen : ∀ q m, (SimWrapper.writePayloads cfg k q m).length = cfg.payloadNum :=
        fun q m => by
        simp [SimWrapper.writePayloads]
      have hpre := hr.stored_prefix h1 k
      rw [(hr.simCreated k).2.1] at hpre
      have hmem := mem_of_packetPayloads_prefix hlen hpre (by omega) (by omega) p hp
      exact (List.mem_filter.mp hmem).1

/-! ## The bytes -/

/-- A stored packet is found in the backing store, byte by byte. -/
theorem ReachableBy.memData_of_stored (hr : ReachableBy cfg ok s) (hc : cfg.WellSized)
    (hw : Producers cfg s.log) {k n : Nat} (hn : n < (writesOf k s.log).length)
    (hst : ∀ p ∈ SimWrapper.writePayloads cfg k (writesOf k s.log)[n] n,
      p ∈ ofCmd .write (sent (.peqCb 0) s.log)) {j : Nat} (hj : j < cfg.packetSize) :
    (writesOf k s.log)[n].data[j]? =
      some ((s.mem 0).memData ((writesOf k s.log)[n].address + j)) := by
  have hcreated : ∀ p ∈ ofCmd .write (sent (.peqCb 0) s.log), p ∈ sent (.create p.id) s.log := by
    intro p hp
    refine hr.memFw_create ((mem_callsOn _).mpr ⟨.memFw 0, rfl, (mem_sent _).mp ?_⟩)
    rw [hr.memQueue 0]
    exact List.mem_append_left _ (mem_ofCmd.mp hp).1
  -- byte `j` is in chunk `i`
  obtain ⟨i, hi⟩ : ∃ i, i = j / cfg.dramReqSize := ⟨_, rfl⟩
  have hmod := Nat.mod_lt j hc.pos
  have hdiv := Nat.div_add_mod j cfg.dramReqSize
  rw [← hi] at hdiv
  have hiN : i < cfg.payloadNum := by
    rw [hi]
    exact Nat.div_lt_of_lt_mul (by rw [hc.mul_payloadNum]; exact hj)
  obtain ⟨p, hpe⟩ : ∃ p, p = SimWrapper.writePayload cfg k (writesOf k s.log)[n] n i := ⟨_, rfl⟩
  have hp : p ∈ ofCmd .write (sent (.peqCb 0) s.log) :=
    hst p (hpe ▸ List.mem_map_of_mem (List.mem_range.mpr hiN))
  have hk : k < cfg.hostNum := hr.source_exists _ ((mem_writesOf k).mp (List.getElem_mem hn))
  have haddr : p.address = (writesOf k s.log)[n].address + cfg.dramReqSize * i := by
    have hin := (hw.inside k hk _ (List.getElem_mem hn)).2
    have hle := hc.chunk_le hiN
    have hmax := hc.le
    rw [hpe]
    simp only [SimWrapper.writePayload, u32, maxDataSize] at hmax ⊢
    omega
  have hbuf := buffered_writePayload hc (k := k) (n := n) hiN (writesOf k s.log)[n]
  rw [← hpe] at hbuf
  have hapart : ∀ v ∈ (ofCmd .write (sent (.peqCb 0) s.log)).map fun p =>
      (p.address, MemWrapper.buffered p),
      v ≠ (p.address, MemWrapper.buffered p) →
        Store.Apart v (p.address, MemWrapper.buffered p) := by
    intro v hv hne
    obtain ⟨p', hp', rfl⟩ := List.mem_map.mp hv
    have hpp : p' ≠ p := by
      rintro rfl
      exact hne rfl
    have hcmd' := (mem_ofCmd.mp hp').2
    have hlen' : (MemWrapper.buffered p').length = cfg.dramReqSize := by
      obtain ⟨n', hn', i', hi', he', -⟩ := hr.write_chunk hc hw (hcreated p' hp') hcmd'
      rw [he']
      exact (buffered_writePayload hc hi' _).2
    have := hr.blocks_apart hc hw (hcreated p' hp') (hcreated p hp) hcmd' (mem_ofCmd.mp hp).2 hpp
    simpa only [Store.Apart, hlen', hbuf.2] using this
  have hbyte := Store.writeAll_apply (fun _ => 0) (List.mem_map_of_mem hp) hapart
    (show j % cfg.dramReqSize < (MemWrapper.buffered p).length by omega)
  have hjj : (writesOf k s.log)[n].address + j = p.address + j % cfg.dramReqSize := by omega
  rw [hr.memData_eq 0, MemWrapper.stored, hjj, hbyte]
  simp only [hbuf.1, List.getElem_take, List.getElem_drop, hdiv]
  rw [List.getElem?_eq_getElem]

/-- A piece of a block of the store that holds the bytes `bs`. -/
theorem load_slice {bs : List UInt8} {a size i n : Nat} (hin : i + n ≤ size)
    (hbs : ∀ j < size, bs[j]? = some ((s.mem 0).memData (a + j))) :
    s.load (.memData 0 (a + i)) n = (bs.drop i).take n := by
  refine List.ext_getElem? fun j => ?_
  simp only [load, List.getElem?_map, List.getElem?_take, List.getElem?_drop]
  by_cases hj : j < n
  · rw [List.getElem?_range hj, if_pos hj, hbs (i + j) (by omega), Option.map_some, Nat.add_assoc]
  · rw [if_neg hj, List.getElem?_eq_none (by simpa using Nat.le_of_not_lt hj), Option.map_none]

/-! ## Passing the gate -/

/-- Who finds the flag of `a` set finds it after a signal. -/
theorem ReachableBy.signal_of_pass (hr : ReachableBy cfg ok s) {h a : Nat}
    (hp : .pass h a ∈ s.log) :
    ∃ k, .signal k a ∈ s.log := by
  refine Reach.invariant (P := fun s => ∀ h a, .pass h a ∈ s.log → ∃ k, .signal k a ∈ s.log)
    (by simp [init]) ?_ hr h a hp
  intro s act s' hrs _ ih hs h a hp
  obtain ⟨-, es, t, ht, rfl⟩ := step_eq_ok.mp hs
  have hl : (t.emit es).log = s.log ++ es := congrArg (· ++ es) ht.log
  suffices hold : ∃ k, .signal k a ∈ s.log by
    obtain ⟨k, hk⟩ := hold
    exact ⟨k, hl ▸ List.mem_append_left _ hk⟩
  rcases List.mem_append.mp (hl ▸ hp) with hp | hp
  · exact ih h a hp
  · have hsrc := ht.source _ hp
    cases act with
    | sim k b =>
        have hflag := ((ReachableBy.sim_turn hrs ht).pass_inv hp).2.2
        simp only [env, (Reachable.globals hrs).1] at hflag
        rcases checkSignal_foldl hflag with h0 | hpos
        · simp at h0
        · obtain ⟨e, he, hsig⟩ := List.countP_pos_iff.mp hpos
          cases e with
          | signal k' b' =>
              simp only [Event.isSignalOf, decide_eq_true_eq] at hsig
              exact ⟨k', hsig ▸ he⟩
          | _ => cases hsig
    | _ => cases hsrc

/-- The write packet of an address whose gate has let a read pass is stored. -/
theorem Reachable.stored_of_pass (hr : Reachable cfg s) (hc : cfg.WellSized) (h1 : cfg.dramNum = 1)
    (hw : Producers cfg s.log) {h a : Nat} (hp : .pass h a ∈ s.log) :
    ∃ k, ∃ q ∈ writesOf k s.log, q.address = a ∧ a < 2000000000 ∧
      ∀ j < cfg.packetSize, q.data[j]? = some ((s.mem 0).memData (a + j)) := by
  have hn := Reachable.noClash hr hc hw
  obtain ⟨k, hs⟩ := ReachableBy.signal_of_pass hr hp
  obtain ⟨n, hn', rfl, hst⟩ := hn.stored_of_signal hc h1 hs
  have hq := List.getElem_mem hn'
  have hk : k < cfg.hostNum := hn.source_exists _ ((mem_writesOf k).mp hq)
  exact ⟨k, _, hq, rfl, (hw.inside k hk _ hq).2, fun j hj => hn.memData_of_stored hc hw hn' hst hj⟩

/-- A read ack is for a chunk of a read packet of its host and points at its own address. -/
theorem ReachableBy.read_ack (hr : ReachableBy cfg ok s) (h1 : cfg.dramNum = 1) {g : Nat}
    {p : Payload} (hp : p ∈ ofCmd .read (sent (.simBw g) s.log)) :
    ∃ hn : p.packet < (readsOf p.id s.log).length, p.chunk < cfg.payloadNum ∧
      p.address = u32 ((readsOf p.id s.log)[p.packet].address + cfg.dramReqSize * p.chunk) ∧
      p.dataLength = cfg.dramReqSize ∧ p.dataPtr = .memData 0 p.address := by
  have hbw : p ∈ ofCmd .read (sent (.dspBw g) s.log) := by
    rw [hr.ack_path g .read]
    exact List.mem_append_left _ hp
  obtain ⟨hbw, hcmd⟩ := mem_ofCmd.mp hbw
  have hptr : p.dataPtr = .memData 0 p.address := by
    have hctrl : p ∈ ofCmd .read (callsOn Chan.isCtrlBw s.log) := by
      rw [(hr.ctrlQueues .read).2]
      refine List.mem_append_left _ (mem_ofCmd.mpr ⟨?_, hcmd⟩)
      exact (sent_sublist (.dspBw g) rfl s.log).subset hbw
    obtain ⟨c, hc, hm⟩ := (mem_callsOn _).mp (mem_ofCmd.mp hctrl).1
    cases c with
    | ctrlBw d =>
        have hd : d < cfg.dramNum := hr.source_exists _ hm
        obtain rfl : d = 0 := by omega
        exact hr.memPointers 0 p ((mem_sent _).mpr hm) hcmd
    | _ => cases hc
  obtain ⟨p', hm, he⟩ := hr.dspBw_delivered ((mem_sent _).mp hbw)
  have hfield {β : Type} (f : Payload → β) (hf : ∀ p, f p.bare = f p) : f p = f p' := by
    rw [← hf p, ← he, hf]
  rcases hr.mem_create (hr.ctrlFw_create ((mem_sent _).mpr hm))
    with ⟨n, hn, i, hi, rfl⟩ | ⟨n, hn, i, hi, rfl⟩
  · have hpacket : p.packet = n := hfield Payload.packet fun _ => rfl
    have hchunk : p.chunk = i := hfield Payload.chunk fun _ => rfl
    subst hpacket hchunk
    exact ⟨hn, hi, hfield Payload.address fun _ => rfl, hfield Payload.dataLength fun _ =>
      rfl, hptr⟩
  · have hwrite := hfield Payload.command fun _ => rfl
    rw [hcmd] at hwrite
    cases hwrite

/-- With one device and producers that share no byte: a read of `a` passes the gate only after the
    write packet at `a` is stored as a whole, and each of its payloads brings the written bytes. -/
theorem reads_see_writes (hr : Reachable cfg s) (hc : cfg.WellSized) (h1 : cfg.dramNum = 1)
    (hw : Producers cfg s.log) :
    (∀ h a, .pass h a ∈ s.log → ∃ k, ∃ q ∈ writesOf k s.log, q.address = a ∧
        s.load (.memData 0 a) cfg.packetSize = q.data.take cfg.packetSize) ∧
      ∀ g, ∀ p ∈ ofCmd .read (sent (.simBw g) s.log), ∃ hn : p.packet < (readsOf p.id s.log).length,
        ∃ k, ∃ q ∈ writesOf k s.log, q.address = (readsOf p.id s.log)[p.packet].address ∧
          p.address = q.address + cfg.dramReqSize * p.chunk ∧
          s.load p.dataPtr p.dataLength =
            (q.data.drop (cfg.dramReqSize * p.chunk)).take cfg.dramReqSize := by
  constructor
  · intro h a hp
    obtain ⟨k, q, hq, ha, -, hbytes⟩ := Reachable.stored_of_pass hr hc h1 hw hp
    refine ⟨k, q, hq, ha, ?_⟩
    simpa using load_slice (show 0 + cfg.packetSize ≤ cfg.packetSize by omega) hbytes
  · intro g p hp
    obtain ⟨hn, hi, haddr, hlen, hptr⟩ := ReachableBy.read_ack hr h1 hp
    have hpass : .pass p.id (readsOf p.id s.log)[p.packet].address ∈ s.log :=
      (ReachableBy.passed hr p.id).2 _ ((mem_readsOf p.id).mp (List.getElem_mem hn))
    obtain ⟨k, q, hq, ha, hlt, hbytes⟩ := Reachable.stored_of_pass hr hc h1 hw hpass
    have hle := hc.chunk_le hi
    have hmax := hc.le
    have haddr : p.address = (readsOf p.id s.log)[p.packet].address + cfg.dramReqSize *
        p.chunk := by
      rw [haddr]
      simp only [u32, maxDataSize] at hmax ⊢
      omega
    refine ⟨hn, k, q, hq, ha, by rw [ha]; exact haddr, ?_⟩
    rw [hptr, hlen, haddr]
    exact load_slice hle hbytes

/-! ## A concrete run -/

/-- Host 0 writes address 8, then host 1 reads it. -/
def writeAndRead : Sys :=
  runSkip (step (smallConfig 2 1 4)) anyStep (init (smallConfig 2 1 4))
    (.sim 0 (.recv (.fill .write 8 7)) :: rounds (smallConfig 2 1 4) 16 ++
      .sim 1 (.recv (.fill .read 8 0)) :: rounds (smallConfig 2 1 4) 16)

theorem reads_see_writes_of_writeAndRead :
    (∃ k, ∃ q ∈ writesOf k writeAndRead.log, q.address = 8 ∧
        writeAndRead.load (.memData 0 8) 8 = q.data.take 8) ∧
      (ofCmd .read (sent (.simBw 1) writeAndRead.log)).length = 4 := by
  -- the run is evaluated once
  have hrun : (∀ h < 2, ∀ q ∈ writesOf h writeAndRead.log, q.address + 8 ≤ 4096 ∧
      q.address < 2000000000) ∧
      (∀ h < 2, ∀ k < 2, ∀ n, ∀ hn : n < (writesOf h writeAndRead.log).length,
        ∀ m, ∀ hm : m < (writesOf k writeAndRead.log).length, h ≠ k ∨ n ≠ m →
          (writesOf h writeAndRead.log)[n].address + 8 ≤ (writesOf k writeAndRead.log)[m].address ∨
            (writesOf k writeAndRead.log)[m].address + 8 ≤
            (writesOf h writeAndRead.log)[n].address) ∧
      .pass 1 8 ∈ writeAndRead.log ∧
        (ofCmd .read (sent (.simBw 1) writeAndRead.log)).length = 4 := by
    decide +kernel
  obtain ⟨hinside, hapart, hpass, hlen⟩ := hrun
  have hreach : Reachable (smallConfig 2 1 4) writeAndRead := reach_runSkip _ _
  have hproducers : Producers (smallConfig 2 1 4) writeAndRead.log := ⟨hinside, hapart⟩
  have hseen := reads_see_writes hreach ⟨by decide, by decide, by decide⟩ rfl hproducers
  exact ⟨hseen.1 1 8 hpass, hlen⟩

end Sys

end TSim4CXL
