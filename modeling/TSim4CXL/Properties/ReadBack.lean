/-
  What a host reads is what was written.

  `responses_read_back`: with one device, write packets that share no byte and no clash of reads, a
  response is made of the chunks of the packet written at the address read, each once. They are in
  their order if the DRAM keeps the order of its reads (`ReadsInOrder`): everything else on the way
  does, from the SIMWrapper through the ports and the device and back, so the acks of a host come
  as a prefix of its read payloads. Without that order the chunks can come exchanged.

  What the store holds at the address read does not change any more once its gate is passed,
  so what an ack leads to is known from the log alone, from its end if need be (`readBlock`).
-/
import TSim4CXL.Trace.Assembly
import TSim4CXL.Trace.DramOrder
import TSim4CXL.Properties.Visibility
import TSim4CXL.Properties.ReadOrder

namespace TSim4CXL

open Transition

/-- `callsOn_filter` for the calls of one command. -/
theorem ofCmd_callsOn_filter {k : Chan → Bool} {f : Payload → Nat} {c : Command} (chan : Nat → Chan)
    (hinj : ∀ m n, chan m = chan n → m = n) (hk : ∀ n, k (chan n) = true) {l : List Event}
    (hl : ∀ i p, .call i p ∈ l → k i = true → p.command = c → i = chan (f p)) (n : Nat) :
    (ofCmd c (callsOn k l)).filter (f · = n) = ofCmd c (sent (chan n) l) := by
  induction l with
  | nil => rfl
  | cons e l ih =>
      have ih := ih fun i p hp => hl i p (List.mem_cons_of_mem _ hp)
      rw [callsOn_cons, sent_cons, ofCmd_append, ofCmd_append, List.filter_append, ih]
      congr 1
      cases e with
      | call i p =>
          by_cases hc : k i = true ∧ p.command = c
          · have hip := hl i p List.mem_cons_self hc.1 hc.2
            by_cases hn : f p = n
            · simp [hip, hn, hk, ofCmd_cons]
            · have : chan (f p) ≠ chan n := fun h => hn (hinj _ _ h)
              simp [hip, hn, hk, this, ofCmd_cons]
          · by_cases hi : i = chan n
            · have hcmd : p.command ≠ c := fun h => hc ⟨hi ▸ hk n, h⟩
              simp [hi, hk, ofCmd_cons, hcmd]
            · by_cases hki : k i = true
              · have hcmd : p.command ≠ c := fun h => hc ⟨hki, h⟩
                simp [hi, hki, ofCmd_cons, hcmd]
              · simp [hi, hki]
      | _ => rfl

namespace Sys

variable {cfg : Config} {s : Sys} {ok : Sys → Action → Prop}

/-! ## The order of the acks -/

/-- The DRAM of a device calls its reads back in the order in which it took them. -/
def ReadsInOrder (d : Nat) (l : List Event) : Prop :=
  (ofCmd .read (sent (.complete d) l)).map Payload.bare <+:
    (ofCmd .read (sent (.accept d) l)).map Payload.bare

instance (d : Nat) (l : List Event) : Decidable (ReadsInOrder d l) :=
  inferInstanceAs (Decidable (_ <+: _))

/-- Then the device answers its reads in the order in which they came. -/
theorem ReachableBy.ctrlBw_prefix (hr : ReachableBy cfg ok s) {d : Nat}
    (ho : ReadsInOrder d s.log) :
    (ofCmd .read (sent (.ctrlBw d) s.log)).map Payload.bare <+:
      (ofCmd .read (sent (.memFw d) s.log)).map Payload.bare := by
  obtain ⟨htaken, hback⟩ := hr.memOrdered d .read
  have h1 : (ofCmd .read (sent (.ctrlBw d) s.log)).map Payload.bare <+:
      (ofCmd .read (sent (.complete d) s.log)).map Payload.bare := hback ▸ List.prefix_append ..
  have h2 : (ofCmd .read (sent (.accept d) s.log)).map Payload.bare <+:
      (ofCmd .read (sent (.peqCb d) s.log)).map Payload.bare := htaken ▸ List.prefix_append ..
  have hqueue : sent (.memFw d) s.log = sent (.peqCb d) s.log ++ (s.mem d).peq := hr.memQueue d
  refine ((h1.trans ho).trans h2).trans ?_
  rw [hqueue, ofCmd_append, List.map_append]
  exact List.prefix_append ..

/-- All calls to and from the devices are to and from the only one. -/
theorem ReachableBy.only_device (hr : ReachableBy cfg ok s) (h1 : cfg.dramNum = 1) :
    callsOn Chan.isMemFw s.log = sent (.memFw 0) s.log ∧
      callsOn Chan.isCtrlBw s.log = sent (.ctrlBw 0) s.log := by
  rw [← hr.memFw_filter 0, ← hr.ctrlBw_filter 0, eq_comm, List.filter_eq_self, eq_comm,
    List.filter_eq_self]
  refine ⟨fun p hp => ?_, fun p hp => ?_⟩ <;> obtain ⟨c, hc, hm⟩ := (mem_callsOn _).mp hp
  · cases c with
    | memFw d =>
        have := hr.memFw_device d p ((mem_sent _).mpr hm)
        rw [decide_eq_true_eq]
        omega
    | _ => cases hc
  · cases c with
    | ctrlBw d =>
        have hd : d < cfg.dramNum := hr.source_exists _ hm
        have := hr.ctrlBw_device d p ((mem_sent _).mpr hm)
        rw [decide_eq_true_eq]
        omega
    | _ => cases hc

theorem filter_id_bare (h : Nat) (ps : List Payload) :
    (ps.map Payload.bare).filter (·.id = h) = (ps.filter (·.id = h)).map Payload.bare := by
  rw [List.filter_map]
  rfl

/-- With one device the read acks of each host come in the order of its read payloads. -/
theorem ReachableBy.dspBw_prefix (hr : ReachableBy cfg ok s)
    (hok : ∀ s a, ok s a → NoClash cfg .read s a) (h1 : cfg.dramNum = 1) (ho : ReadsInOrder 0 s.log)
    (h : Nat) :
    (ofCmd .read (sent (.dspBw h) s.log)).map Payload.bare <+:
      (ofCmd .read (sent (.create h) s.log)).map Payload.bare := by
  obtain ⟨honefw, honebw⟩ := hr.only_device h1
  have hfw := (hr.ctrlQueues .read).1
  have hbw := (hr.ctrlQueues .read).2
  rw [honefw] at hfw
  rw [honebw] at hbw
  have hall : (ofCmd .read (callsOn Chan.isDspBw s.log)).map Payload.bare <+:
      (ofCmd .read (callsOn Chan.isCtrlFw s.log)).map Payload.bare := by
    have hlast := hr.ctrlBw_prefix ho
    rw [hbw, List.map_append] at hlast
    rw [hfw, List.map_append]
    exact ((List.prefix_append ..).trans hlast).trans (List.prefix_append ..)
  have hhost : ofCmd .read (sent (.dspBw h) s.log) =
      (ofCmd .read (callsOn Chan.isDspBw s.log)).filter (·.id = h) := by
    refine (ofCmd_callsOn_filter .dspBw (fun _ _ hmn => by injection hmn) (fun _ => rfl) ?_ h).symm
    intro c p hp hc hcmd
    cases c with
    | dspBw k => rw [hr.dspBw_id hok hp hcmd]
    | _ => cases hc
  have hctrl : ofCmd .read (sent (.ctrlFw h) s.log) =
      (ofCmd .read (callsOn Chan.isCtrlFw s.log)).filter (·.id = h) := by
    rw [← hr.ctrlFw_filter h]
    simp only [ofCmd, List.filter_filter, Bool.and_comm]
  rw [hhost, hr.host_path h .read, hctrl, List.map_append, ← filter_id_bare, ← filter_id_bare]
  exact (hall.filter _).trans (List.prefix_append ..)

/-- So the read acks a host consumes are a sublist of its read payloads. -/
theorem ReachableBy.readAcks_sublist (hr : ReachableBy cfg ok s)
    (hok : ∀ s a, ok s a → NoClash cfg .read s a) (h1 : cfg.dramNum = 1) (ho : ReadsInOrder 0 s.log)
    (h : Nat) :
    ((readAcks h s).map Payload.bare).Sublist
    ((ofCmd .read (sent (.create h) s.log)).map Payload.bare) :=
  ((hr.readAcks_dspBw h).map Payload.bare).trans (hr.dspBw_prefix hok h1 ho h).sublist

/-! ## The bytes of an ack -/

/-- The packet written at an address. -/
def writtenAt (cfg : Config) (l : List Event) (a : Nat) : List UInt8 :=
  match ((List.range cfg.hostNum).flatMap fun h => writesOf h l).find? (·.address = a) with
  | some q => q.data.take cfg.packetSize
  | none => []

/-- Packets that share no byte have different addresses. -/
theorem writtenAt_eq {l : List Event} (hw : Producers cfg l) (hpos : 0 < cfg.packetSize) {h : Nat}
    (hh : h < cfg.hostNum) {q : Packet} (hq : q ∈ writesOf h l) :
    writtenAt cfg l q.address = q.data.take cfg.packetSize := by
  have hmem : q ∈ (List.range cfg.hostNum).flatMap fun h => writesOf h l :=
    List.mem_flatMap.mpr ⟨h, List.mem_range.mpr hh, hq⟩
  unfold writtenAt
  cases hfind :
    ((List.range cfg.hostNum).flatMap fun h => writesOf h l).find? (·.address = q.address) with
  | none =>
      have hnone := List.find?_eq_none.mp hfind q hmem
      simp at hnone
  | some q' =>
      have haddr : q'.address = q.address := by simpa using List.find?_some hfind
      obtain ⟨k, hk, hq'⟩ := List.mem_flatMap.mp (List.mem_of_find?_eq_some hfind)
      obtain ⟨n, hn, rfl⟩ := List.mem_iff_getElem.mp hq
      obtain ⟨m, hm, rfl⟩ := List.mem_iff_getElem.mp hq'
      by_cases hne : h ≠ k ∨ n ≠ m
      · have := hw.apart h hh k (List.mem_range.mp hk) n hn m hm hne
        omega
      · obtain ⟨rfl, rfl⟩ : h = k ∧ n = m := by omega
        rfl

/-- The bytes of the packet written at the address of its read that the ack is for. -/
def readBlock (cfg : Config) (l : List Event) (p : Payload) : List UInt8 :=
  ((writtenAt cfg l (p.address - cfg.dramReqSize * p.chunk)).drop (cfg.dramReqSize * p.chunk)).take
    cfg.dramReqSize

/-- A read ack is for a chunk of a read packet, at the address of a write packet that is stored. -/
theorem Reachable.readAck_stored (hr : Reachable cfg s) (hc : cfg.WellSized) (h1 : cfg.dramNum = 1)
    (hw : Producers cfg s.log) {g : Nat} {p : Payload}
    (hp : p ∈ ofCmd .read (sent (.simBw g) s.log)) :
    p.chunk < cfg.payloadNum ∧ ∃ hn :
      p.packet < (readsOf p.id s.log).length, ∃ k, ∃ q ∈ writesOf k s.log,
      q.address = (readsOf p.id s.log)[p.packet].address ∧
      p.address = q.address + cfg.dramReqSize * p.chunk ∧
        s.load p.dataPtr p.dataLength =
          (q.data.drop (cfg.dramReqSize * p.chunk)).take cfg.dramReqSize := by
  obtain ⟨hn, hi, haddr, hlen, hptr⟩ := ReachableBy.read_ack hr h1 hp
  have hpass : .pass p.id (readsOf p.id s.log)[p.packet].address ∈ s.log :=
    (ReachableBy.passed hr p.id).2 _ ((mem_readsOf p.id).mp (List.getElem_mem hn))
  obtain ⟨k, q, hq, ha, hlt, hbytes⟩ := Reachable.stored_of_pass hr hc h1 hw hpass
  have hle := hc.chunk_le hi
  have hmax := hc.le
  have haddr : p.address = (readsOf p.id s.log)[p.packet].address + cfg.dramReqSize * p.chunk := by
    rw [haddr]
    simp only [u32, maxDataSize] at hmax ⊢
    omega
  refine ⟨hi, hn, k, q, hq, ha, by rw [ha]; exact haddr, ?_⟩
  rw [hptr, hlen, haddr]
  exact load_slice hle hbytes

/-- A read ack leads to its block, in whatever state before the end of the run. -/
theorem Reachable.readAck_points (hr : Reachable cfg s) (hc : cfg.WellSized) (h1 : cfg.dramNum = 1)
    {l : List Event} (hw : Producers cfg l) (hl : s.log <+: l) {g : Nat} {p : Payload}
    (hp : p ∈ ofCmd .read (sent (.simBw g) s.log)) :
    s.load p.dataPtr p.dataLength = readBlock cfg l p ∧
      (readBlock cfg l p).length = cfg.dramReqSize := by
  obtain ⟨es, rfl⟩ := hl
  obtain ⟨hi, hn, k, q, hq, -, haddr, hload⟩ := hr.readAck_stored hc h1 hw.mono hp
  have hle := hc.chunk_le hi
  have hpos : 0 < cfg.packetSize := Nat.lt_of_lt_of_le hc.pos (by omega)
  have hk : k < cfg.hostNum := ReachableBy.source_exists hr _ ((mem_writesOf k).mp hq)
  have hq' : q ∈ writesOf k (s.log ++ es) := by
    rw [writesOf_append]
    exact List.mem_append_left _ hq
  have hblock : readBlock cfg (s.log ++ es) p =
      (q.data.drop (cfg.dramReqSize * p.chunk)).take cfg.dramReqSize := by
    rw [readBlock, haddr, Nat.add_sub_cancel, writtenAt_eq hw hpos hk hq', List.drop_take,
      List.take_take, Nat.min_eq_left (by omega)]
  have hlen := q.data_length
  have hmax := hc.le
  refine ⟨hload.trans hblock.symm, ?_⟩
  rw [hblock, List.length_take, List.length_drop]
  omega

/-! ## What a response is made of -/

theorem Reachable.assembled (hr : Reachable cfg s) (hc : cfg.WellSized) (h0 : 0 < cfg.payloadNum)
    (h1 : cfg.dramNum = 1) {l : List Event} (hw : Producers cfg l) (hl : s.log <+: l) (h : Nat) :
    SimWrapper.Assembled cfg h (readBlock cfg l) (s.sim h) s.log := by
  have hclosed : (SimWrapper.pointedComponent cfg h (readBlock cfg l)).Closed _ :=
    SimWrapper.assembled_closed hc h0
  refine (Reach.invariant (P := fun s => s.log <+: l →
    (SimWrapper.Acks h (s.sim h) s.log ∧ SimWrapper.ReadRounds cfg h (s.sim h) s.log) ∧
      SimWrapper.Assembled cfg h (readBlock cfg l) (s.sim h) s.log) ?_ ?_ hr hl).2
  · exact fun _ => ⟨⟨⟨List.Sublist.refl [], List.Sublist.refl []⟩, h0, rfl⟩, rfl, by simp [init]⟩
  · intro s a s' hrs _ ih hs hl
    obtain ⟨-, es, t, ht, rfl⟩ := step_eq_ok.mp hs
    have hlog : (t.emit es).log = s.log ++ es := congrArg (· ++ es) ht.log
    rw [hlog] at hl ⊢
    have hold : s.log <+: l := (List.prefix_append ..).trans hl
    have ih := ih hold
    have hsrc := ht.source
    by_cases ho : a.owner = .sim h
    · cases ht with
      | @sim k b w _ hh ha =>
          cases ho
          have hpoints : ∀ e ∈ es, SimWrapper.Points cfg h s.env (readBlock cfg l) e := by
            rintro e he p rfl hcmd
            have hacks := (ReachableBy.simAcks (.tail hrs trivial hs) h).1
            rw [hlog] at hacks
            have hmem : p ∈ ofCmd .read (sent (.simBw h) (s.log ++ es)) := by
              refine hacks.subset
                (List.mem_append_left _ (List.mem_append_left _ (List.mem_append_left _ ?_)))
              exact mem_ofCmd.mpr ⟨(mem_sent _).mpr (List.mem_append_right _ he), hcmd⟩
            have hnone : sent (.simBw h) es = [] := sent_eq_nil _ fun e he => by
              rw [hsrc e he]
              exact Comp.noConfusion
            rw [sent_append, hnone, List.append_nil] at hmem
            exact Reachable.readAck_points hrs hc h1 hw hold hmem
          have hchain := ((SimWrapper.act_chain ha).restrict hpoints).mono
            (S := (SimWrapper.pointedComponent cfg h (readBlock cfg l)).move)
            fun _ _ _ hm => ⟨_, hm⟩
          have hsim : ((emit { s with sim := Function.update s.sim h w } es).sim h) = w := by
            have hw := foldl_hear_id _ (fun c e he => sim_hear_own (hsrc e he) c)
            simp [emit, hw]
          rw [hsim]
          exact hclosed.chain hchain ih
      | _ => cases ho
    · have hsim : (t.emit es).sim h = es.foldl (SimWrapper.hear h) (s.sim h) := by
        simp [emit, ht.sim_other ho]
      rw [hsim]
      exact hclosed.foldl_hear es (owner_ne hsrc ho) ih

/-! ## The acks of a response -/

/-- The read payloads of a host are in the order of their packets and chunks. -/
theorem packetPayloads_ordered (cfg : Config) (h : Nat) (qs : List Packet) :
    (packetPayloads (SimWrapper.readPayloads cfg h) qs).Pairwise
      fun p p' => p.packet = p'.packet → p.chunk < p'.chunk := by
  induction qs using List.reverseRecOn with
  | nil => simp
  | append_singleton qs q ih =>
      rw [packetPayloads_concat, List.pairwise_append]
      refine ⟨ih, ?_, ?_⟩
      · rw [SimWrapper.readPayloads, List.pairwise_map]
        refine List.Pairwise.imp (fun {i j} (hlt : i < j) _ => ?_) List.pairwise_lt_range
        exact hlt
      · intro p hp p' hp' he
        obtain ⟨n, hn, hp⟩ := mem_packetPayloads.mp hp
        obtain ⟨i, -, rfl⟩ := List.mem_map.mp hp
        obtain ⟨i', -, rfl⟩ := List.mem_map.mp hp'
        exact absurd he (Nat.ne_of_lt hn)

/-- The acks of response `n`. -/
def acksOf (cfg : Config) (h n : Nat) (s : Sys) : List Payload :=
  ((readAcks h s).drop (cfg.payloadNum * n)).take cfg.payloadNum

theorem acksOf_sublist (cfg : Config) (h n : Nat) (s : Sys) :
    (acksOf cfg h n s).Sublist (readAcks h s) :=
  (List.take_sublist ..).trans (List.drop_sublist ..)

theorem ReachableBy.acksOf_length (hr : ReachableBy cfg ok s) (h0 : 0 < cfg.payloadNum)
    (hN : cfg.payloadNum < 4294967296) {h n : Nat} (hn : n < (responsesOf h s.log).length) :
    (acksOf cfg h n s).length = cfg.payloadNum := by
  have hround := (hr.simReadRounds h0 hN h).2
  have hle := Nat.mul_le_mul_left cfg.payloadNum hn
  rw [Nat.mul_succ] at hle
  rw [acksOf, List.length_take, List.length_drop, readAcks]
  omega

/-- They are for read packet `n`. -/
theorem ReachableBy.acksOf_packet (hr : ReachableBy cfg ok s)
    (hok : ∀ s a, ok s a → NoClash cfg .read s a) (h0 : 0 < cfg.payloadNum)
    (hN : cfg.payloadNum < 4294967296) {h n : Nat} :
    ∀ p ∈ acksOf cfg h n s, p.packet = n := by
  intro p hp
  obtain ⟨i, hi, rfl⟩ := List.mem_iff_getElem.mp hp
  have hgroup := (hr.readAcks_taken hok h).group_eq_of_le fun j hj => by
    rw [List.getElem_map]
    exact hr.readAck_le hok h0 hN h j (by simpa using hj)
  simp only [acksOf, List.length_take, List.length_drop] at hi
  have hgroup := hgroup (cfg.payloadNum * n + i) (by rw [List.length_map]; omega)
  rw [List.getElem_map, Nat.mul_add_div h0, Nat.div_eq_of_lt (by omega), Nat.add_zero] at hgroup
  have hpacket : (readAcks h s)[cfg.payloadNum * n + i].packet = n := hgroup
  simpa [acksOf] using hpacket

/-- And each of its chunks has one. -/
theorem ReachableBy.acksOf_chunks (hr : ReachableBy cfg ok s)
    (hok : ∀ s a, ok s a → NoClash cfg .read s a) (h0 : 0 < cfg.payloadNum)
    (hN : cfg.payloadNum < 4294967296) {h n : Nat} (hn : n < (responsesOf h s.log).length) :
    ((acksOf cfg h n s).map Payload.chunk).Perm (List.range cfg.payloadNum) := by
  have hkeys := (hr.readAcks_taken hok h).sublist ((acksOf_sublist cfg h n s).map Payload.key)
  have hnodup : ((acksOf cfg h n s).map Payload.chunk).Nodup := by
    refine List.Nodup.map_on (fun p hp p' hp' he => ?_) (List.Nodup.of_map _ hkeys.nodup)
    refine List.inj_on_of_nodup_map hkeys.nodup hp hp' (Prod.ext ?_ he)
    exact (hr.acksOf_packet hok h0 hN p hp).trans (hr.acksOf_packet hok h0 hN p' hp').symm
  refine (hnodup.subperm fun c hmem => ?_).perm_of_length_le ?_
  · obtain ⟨p, hp, rfl⟩ := List.mem_map.mp hmem
    exact List.mem_range.mpr (hkeys.place _ (List.mem_map_of_mem hp))
  · rw [List.length_range, List.length_map, hr.acksOf_length h0 hN hn]

/-- In their order, if the DRAM keeps the order of its reads. -/
theorem ReachableBy.acksOf_inOrder (hr : ReachableBy cfg ok s)
    (hok : ∀ s a, ok s a → NoClash cfg .read s a) (h0 : 0 < cfg.payloadNum)
    (hN : cfg.payloadNum < 4294967296) (h1 : cfg.dramNum = 1) {h n : Nat}
    (hn : n < (responsesOf h s.log).length) (ho : ReadsInOrder 0 s.log) :
    (acksOf cfg h n s).map Payload.chunk = List.range cfg.payloadNum := by
  have hsub := ((acksOf_sublist cfg h n s).map Payload.bare).trans (hr.readAcks_sublist hok h1 ho h)
  rw [(hr.simCreated h).1.1] at hsub
  have hcreated : ((packetPayloads (SimWrapper.readPayloads cfg h) (readsOf h s.log)).map
      Payload.bare).Pairwise
      fun p p' => p.packet = p'.packet → p.chunk < p'.chunk :=
    List.pairwise_map.mpr (packetPayloads_ordered cfg h (readsOf h s.log))
  have hordered := hcreated.sublist hsub
  refine (hr.acksOf_chunks hok h0 hN hn).eq_of_pairwise' ?_ List.pairwise_lt_range
  rw [List.pairwise_map] at hordered ⊢
  refine hordered.imp_of_mem fun hp hp' hlt => hlt ?_
  exact (hr.acksOf_packet hok h0 hN _ hp).trans (hr.acksOf_packet hok h0 hN _ hp').symm

/-! ## Reading back -/

/-- The acks of response `n` are at the address of read `n`, where a packet was written. -/
theorem ReachableBy.acksOf_stored (hr : ReachableBy cfg ok s)
    (hok : ∀ s a, ok s a → NoClash cfg .read s a) (hc : cfg.WellSized) (h0 : 0 < cfg.payloadNum)
    (h1 : cfg.dramNum = 1) (hw : Producers cfg s.log) {h n : Nat}
    (hn : n < (readsOf h s.log).length) {p : Payload} (hp : p ∈ acksOf cfg h n s) :
    p.address = (readsOf h s.log)[n].address + cfg.dramReqSize * p.chunk ∧
      ∃ k, ∃ q ∈ writesOf k s.log, q.address = (readsOf h s.log)[n].address := by
  have hN : cfg.payloadNum < 4294967296 := Nat.lt_of_le_of_lt hc.payloadNum_le (by decide)
  have hack := (acksOf_sublist cfg h n s).subset hp
  have hsim : p ∈ ofCmd .read (sent (.simBw h) s.log) :=
    (hr.simAcks h).1.subset
      (List.mem_append_left _ (List.mem_append_left _ (List.mem_append_left _ hack)))
  have hreach : Reachable cfg s := hr.any
  obtain ⟨-, hlt, k, q, hq, ha, haddr, -⟩ := hreach.readAck_stored hc h1 hw hsim
  have hid : p.id = h := (hr.readAck_form hok hack).1
  have hpacket := hr.acksOf_packet hok h0 hN p hp
  have hread : (readsOf p.id s.log)[p.packet] = (readsOf h s.log)[n] := by simp only [hid, hpacket]
  rw [hread] at ha
  exact ⟨ha ▸ haddr, k, q, hq, ha⟩

/-- Response `n` is the chunks of what was written at the address of read `n`, in the order of its
    acks. -/
theorem ReachableBy.response_eq (hr : ReachableBy cfg ok s)
    (hok : ∀ s a, ok s a → NoClash cfg .read s a) (hc : cfg.WellSized) (h0 : 0 < cfg.payloadNum)
    (h1 : cfg.dramNum = 1) (hw : Producers cfg s.log) {h n : Nat}
    (hread : n < (readsOf h s.log).length) (hn : n < (responsesOf h s.log).length) :
    (responsesOf h s.log)[n]? = some (((acksOf cfg h n s).map Payload.chunk).flatMap fun c =>
      ((writtenAt cfg s.log (readsOf h s.log)[n].address).drop (cfg.dramReqSize * c)).take
        cfg.dramReqSize) := by
  have hreach : Reachable cfg s := hr.any
  have hresp : (responsesOf h s.log)[n]? =
      some ((acksOf cfg h n s).flatMap (readBlock cfg s.log)) :=
    (hreach.assembled hc h0 h1 hw (List.prefix_refl _) h).2 n hn
  rw [hresp, List.flatMap_map]
  refine congrArg some (List.flatMap_congr fun p hp => ?_)
  rw [readBlock, (hr.acksOf_stored hok hc h0 h1 hw hread hp).1, Nat.add_sub_cancel]

/-- Some host has written there. -/
theorem ReachableBy.response_written (hr : ReachableBy cfg ok s)
    (hok : ∀ s a, ok s a → NoClash cfg .read s a) (hc : cfg.WellSized) (h0 : 0 < cfg.payloadNum)
    (h1 : cfg.dramNum = 1) (hw : Producers cfg s.log) {h n : Nat}
    (hn : n < (responsesOf h s.log).length) : ∃ hread : n < (readsOf h s.log).length, ∃ k,
      ∃ q ∈ writesOf k s.log, q.address = (readsOf h s.log)[n].address ∧
        (responsesOf h s.log)[n]? = some (((acksOf cfg h n s).map Payload.chunk).flatMap fun c =>
          ((q.data.take cfg.packetSize).drop (cfg.dramReqSize * c)).take cfg.dramReqSize) := by
  have hN : cfg.payloadNum < 4294967296 := Nat.lt_of_le_of_lt hc.payloadNum_le (by decide)
  have hread : n < (readsOf h s.log).length := Nat.lt_of_lt_of_le hn (hr.responses_le hok h0 hN h)
  -- the packet read has a chunk, and its ack found the packet written
  obtain ⟨p, hp⟩ := List.exists_mem_of_length_pos ((hr.acksOf_length h0 hN hn).symm ▸ h0)
  obtain ⟨-, k, q, hq, haddr⟩ := hr.acksOf_stored hok hc h0 h1 hw hread hp
  have hpos : 0 < cfg.packetSize := hc.mul_payloadNum ▸ Nat.mul_pos hc.pos h0
  have hresp := hr.response_eq hok hc h0 h1 hw hread hn
  rw [← haddr, writtenAt_eq hw hpos (hr.source_exists _ ((mem_writesOf k).mp hq)) hq] at hresp
  exact ⟨hread, k, q, hq, haddr, hresp⟩

/-- Acks in the order of their chunks make up the packet. -/
theorem ReachableBy.chunks_inOrder (hr : ReachableBy cfg ok s)
    (hok : ∀ s a, ok s a → NoClash cfg .read s a) (hc : cfg.WellSized) (h0 : 0 < cfg.payloadNum)
    (h1 : cfg.dramNum = 1) {h n : Nat} (hn : n < (responsesOf h s.log).length)
    (ho : ReadsInOrder 0 s.log) (bytes : List UInt8) :
    (((acksOf cfg h n s).map Payload.chunk).flatMap fun c =>
      ((bytes.take cfg.packetSize).drop (cfg.dramReqSize * c)).take cfg.dramReqSize) =
        bytes.take cfg.packetSize := by
  have hN : cfg.payloadNum < 4294967296 := Nat.lt_of_le_of_lt hc.payloadNum_le (by decide)
  rw [hr.acksOf_inOrder hok h0 hN h1 hn ho, Store.flatMap_pieces, hc.mul_payloadNum, List.take_take,
    Nat.min_self]

/-- With one device, write packets that share no byte and reads that do not clash: response `n` of
    a host is made of the chunks of the packet written at the address of its read `n`, each once.
    It is that packet if the DRAM calls reads back in the order in which it took them. -/
theorem responses_read_back (hr : ReachableBy cfg (NoClash cfg .read) s) (hc : cfg.WellSized)
    (h0 : 0 < cfg.payloadNum) (h1 : cfg.dramNum = 1) (hw : Producers cfg s.log) {h n : Nat}
    (hn : n < (responsesOf h s.log).length) :
    ∃ hread : n < (readsOf h s.log).length, ∃ k, ∃ q ∈ writesOf k s.log,
      q.address = (readsOf h s.log)[n].address ∧
        (∃ cs : List Nat, cs.Perm (List.range cfg.payloadNum) ∧
          (responsesOf h s.log)[n]? = some (cs.flatMap fun c =>
            ((q.data.take cfg.packetSize).drop (cfg.dramReqSize * c)).take cfg.dramReqSize)) ∧
        (ReadsInOrder 0 s.log → (responsesOf h s.log)[n]? = some (q.data.take cfg.packetSize)) := by
  have hN : cfg.payloadNum < 4294967296 := Nat.lt_of_le_of_lt hc.payloadNum_le (by decide)
  have hok : ∀ s a, NoClash cfg .read s a → NoClash cfg .read s a := fun _ _ hn => hn
  obtain ⟨hread, k, q, hq, haddr, hresp⟩ := hr.response_written hok hc h0 h1 hw hn
  refine ⟨hread, k, q, hq, haddr, ⟨_, hr.acksOf_chunks hok h0 hN hn, hresp⟩, fun ho => ?_⟩
  rw [hresp, hr.chunks_inOrder hok hc h0 h1 hn ho]

/-- Host 0 writes address 8, then host 1 reads it and gets its response. -/
def readBack : Sys :=
  runSkip (step (smallConfig 2 1 4)) (NoClash (smallConfig 2 1 4) .read) (init (smallConfig 2 1 4))
    (.sim 0 (.recv (.fill .write 8 7)) :: rounds (smallConfig 2 1 4) 16 ++
      .sim 1 (.recv (.fill .read 8 0)) :: rounds (smallConfig 2 1 4) 16)

theorem responses_read_back_of_readBack : ∃ k, ∃ q ∈ writesOf k readBack.log,
    q.address = 8 ∧ (responsesOf 1 readBack.log)[0]? = some (q.data.take 8) := by
  -- the run is evaluated once
  have hrun : (∀ h < 2, ∀ q ∈ writesOf h readBack.log, q.address + 8 ≤ 4096 ∧
      q.address < 2000000000) ∧
      (∀ h < 2, ∀ k < 2, ∀ n, ∀ hn : n < (writesOf h readBack.log).length,
        ∀ m, ∀ hm : m < (writesOf k readBack.log).length, h ≠ k ∨ n ≠ m →
          (writesOf h readBack.log)[n].address + 8 ≤ (writesOf k readBack.log)[m].address ∨
            (writesOf k readBack.log)[m].address + 8 ≤ (writesOf h readBack.log)[n].address) ∧
      (responsesOf 1 readBack.log).length = 1 ∧ (readsOf 1 readBack.log).map (·.address) = [8] ∧
      ReadsInOrder 0 readBack.log := by
    decide +kernel
  obtain ⟨hinside, hapart, hresp, hread, horder⟩ := hrun
  have hreach : ReachableBy (smallConfig 2 1 4) (NoClash (smallConfig 2 1 4) .read) readBack :=
    reach_runSkip _ _
  obtain ⟨hlt, k, q, hq, haddr, -, hdata⟩ := responses_read_back (h := 1) (n := 0) hreach
    ⟨by decide, by decide, by decide⟩ (by decide) rfl ⟨hinside, hapart⟩ (by omega)
  have hfirst : (readsOf 1 readBack.log)[0].address = 8 := by
    have := congrArg (fun l => l[0]?) hread
    simpa [hlt] using this
  exact ⟨k, q, hq, haddr.trans hfirst, hdata horder⟩

end Sys

end TSim4CXL
