/-
  What a read of a host process returns.

  From call to call: `trcRead` cuts the read into packets, the SIMWrapper passes the gate of each
  and cuts it into payloads, a MEMWrapper answers these out of its backing store, the ports and the
  controller bring the acks back, the SIMWrapper puts the response together, and the host process
  copies it into its buffer. `calls_read_back`: when the calls of all hosts write to different
  places, every byte a read has put into its buffer is the byte that some call has written to its
  address.
-/
import TSim4CXL.Properties.CallStore
import TSim4CXL.Properties.ReadBack

namespace TSim4CXL

open Transition

/-! ## Calls that write to different places -/

/-- Two calls do not write to one place. -/
def Call.Apart : Call → Call → Prop
  | .write address _ size _ _, .write address' _ size' _ _ =>
      address + size ≤ address' ∨ address' + size' ≤ address
  | _, _ => True

/-- The byte a call writes to an address. -/
def Call.byteAt (a : Nat) : Call → Option UInt8
  | .write address data size _ _ =>
      if address ≤ a ∧ a < address + size then some (data (a - address)) else none
  | _ => none

/-- All writes are of whole packets, go to the one device and stay inside it and the sync table,
    and no two of them overlap. -/
structure DisjointWrites (cfg : Config) (calls : Nat → List Call) : Prop where
  whole : ∀ g < cfg.hostNum, ∀ address data size device delta,
    .write address data size device delta ∈ calls g → device = 0 ∧ WholeWrite cfg address size 0 ∧
    address + size ≤ 2000000000
  host : ∀ g < cfg.hostNum, (calls g).Pairwise Call.Apart
  hosts : ∀ g < cfg.hostNum, ∀ k < cfg.hostNum, g ≠ k →
    ∀ call ∈ calls g, ∀ call' ∈ calls k, call.Apart call'

/-- Two packets share no byte. -/
def Packet.Apart (cfg : Config) (q q' : Packet) : Prop :=
  q.address + cfg.packetSize ≤ q'.address ∨ q'.address + cfg.packetSize ≤ q.address

theorem Packet.Apart.symm {cfg : Config} {q q' : Packet} (h : q.Apart cfg q') : q'.Apart cfg q :=
  Or.symm h

variable {cfg : Config} {calls : Nat → List Call} {acts : Nat → List HostAct} {g h k : Nat}

/-- A write packet of the calls `cs` of a host is a piece of one of them. -/
theorem DisjointWrites.piece (hd : DisjointWrites cfg calls) (hg : g < cfg.hostNum) {cs : List Call}
    (hcs : ∀ call ∈ cs, call ∈ calls g) {first : List HostAct}
    (hacts : callActs cfg.packetSize cs = some first) {q : Packet}
    (hq : q ∈ ofType .write (packetsOf first)) : ∃ address data size delta,
      .write address data size 0 delta ∈ cs ∧ WholeWrite cfg address size 0 ∧
      address + size ≤ 2000000000 ∧
        ∃ j < size / cfg.packetSize, q = writePacketAt cfg.packetSize address data size 0 delta j ∧
          q.address = address + j * cfg.packetSize := by
  obtain ⟨hq, htype⟩ := List.mem_filter.mp hq
  have htype : q.type = .write := of_decide_eq_true htype
  obtain ⟨address, data, size, delta, hmem, -⟩ := write_of_packet hacts hq htype
  have hdev : q.deviceId = 0 := (hd.whole g hg _ _ _ _ _ (hcs _ hmem)).1
  have hwhole : WholeWrites cfg q.deviceId cs := fun a f n e hc => by
    have h := hd.whole g hg a f n _ e (hcs _ hc)
    rw [hdev]
    exact h.2.1
  obtain ⟨address, data, size, delta, hmem, hw, hpiece⟩ := hwhole.packet hacts hq htype
  rw [hdev] at hmem hw hpiece
  exact ⟨address, data, size, delta, hmem, hw, (hd.whole g hg _ _ _ _ _ (hcs _ hmem)).2.2, hpiece⟩

/-- Pieces of calls that do not overlap do not overlap. -/
theorem piece_apart {address size address' size' j j' : Nat} {q q' : Packet}
    (hq : q.address = address + j * cfg.packetSize) (hj : j < size / cfg.packetSize)
    (hq' : q'.address = address' + j' * cfg.packetSize) (hj' : j' < size' / cfg.packetSize)
    (h : address + size ≤ address' ∨ address' + size' ≤ address) : q.Apart cfg q' := by
  have hend := WholeWrite.packet_le hj
  have hend' := WholeWrite.packet_le hj'
  unfold Packet.Apart
  omega

/-- The write packets of a host share no byte. -/
theorem DisjointWrites.host_apart (hd : DisjointWrites cfg calls) (hg : g < cfg.hostNum)
    {cs : List Call} (hcs : ∀ call ∈ cs, call ∈ calls g) (hp : cs.Pairwise Call.Apart)
    {first : List HostAct} (hacts : callActs cfg.packetSize cs = some first) :
    (ofType .write (packetsOf first)).Pairwise (Packet.Apart cfg) := by
  induction cs generalizing first with
  | nil =>
      cases hacts
      exact .nil
  | cons call cs ih =>
      obtain ⟨head, rest, hhead, hrest, rfl⟩ := callActs_cons hacts
      obtain ⟨hcross, hpairs⟩ := List.pairwise_cons.mp hp
      have htail : ∀ call ∈ cs, call ∈ calls g := fun c hc => hcs c (List.mem_cons_of_mem _ hc)
      rw [packetsOf_append, ofType_append, List.pairwise_append]
      rcases Call.writes hhead with ⟨address, data, size, device, delta, rfl, hall⟩ | ⟨-, hnone⟩
      · obtain ⟨rfl, hw, -⟩ := hd.whole g hg _ _ _ _ _ (hcs _ (List.mem_cons_self ..))
        obtain ⟨head', hhead', hpackets⟩ := hw.packets data delta
        obtain rfl := Option.some.inj (hhead.symm.trans hhead')
        have htypes : ofType .write (packetsOf head) = packetsOf head :=
          List.filter_eq_self.mpr fun q hq => decide_eq_true (hall q hq).1
        rw [htypes, hpackets]
        refine ⟨?_, ih htail hpairs hrest, ?_⟩
        · -- two pieces of one call
          rw [List.pairwise_map]
          refine List.Pairwise.imp_of_mem (fun {i j} hi hj (hlt : i < j) => .inl ?_)
            List.pairwise_lt_range
          rw [hw.packet_address data delta (List.mem_range.mp hi),
            hw.packet_address data delta (List.mem_range.mp hj)]
          have := Nat.mul_le_mul_right cfg.packetSize (Nat.succ_le_of_lt hlt)
          rw [Nat.succ_mul] at this
          omega
        · intro q hq q' hq'
          obtain ⟨j, hj, rfl⟩ := List.mem_map.mp hq
          have hj := List.mem_range.mp hj
          obtain ⟨a', f', n', e', hmem, -, -, j', hj', -, haddr'⟩ := hd.piece hg htail hrest hq'
          exact piece_apart (hw.packet_address data delta hj) hj haddr' hj' (hcross _ hmem)
      · rw [hnone]
        exact ⟨.nil, ih htail hpairs hrest, fun q hq => absurd hq List.not_mem_nil⟩

/-- Nor do those of two hosts. -/
theorem DisjointWrites.hosts_apart (hd : DisjointWrites cfg calls) (hg : g < cfg.hostNum)
    (hk : k < cfg.hostNum) (hgk : g ≠ k) {first second : List HostAct}
    (hacts : callActs cfg.packetSize (calls g) = some first)
    (hacts' : callActs cfg.packetSize (calls k) = some second) {q q' : Packet}
    (hq : q ∈ ofType .write (packetsOf first)) (hq' : q' ∈ ofType .write (packetsOf second)) :
    q.Apart cfg q' := by
  obtain ⟨a, f, n, e, hmem, -, -, j, hj, -, haddr⟩ := hd.piece hg (fun _ hc => hc) hacts hq
  obtain ⟨a', f', n', e', hmem', -, -, j', hj', -, haddr'⟩ :=
    hd.piece hk (fun _ hc => hc) hacts' hq'
  exact piece_apart haddr hj haddr' hj' (hd.hosts g hg k hk hgk _ hmem _ hmem')

/-! ## The acts of a read -/

@[simp] theorem copiesOf_append (acts acts' : List HostAct) :
    copiesOf (acts ++ acts') = copiesOf acts ++ copiesOf acts' := List.filterMap_append

/-- There is a copy for each read. -/
theorem Paired.copies_length {acts : List HostAct} (h : Paired acts) :
    (copiesOf acts).length = (ofType .read (packetsOf acts)).length := by
  induction h with
  | nil => rfl
  | send hp _ ih => simpa [ofType, Command.packetType, hp] using ih
  | read hp _ ih => simpa [ofType, Command.packetType, hp] using ih

/-- The packets of a whole read and where their responses go. -/
theorem WholeWrite.read {address size device : Nat} (hw : WholeWrite cfg address size device)
    {delta : Nat} {acts : List HostAct}
    (hacts : trcRead cfg.packetSize address size device delta = some acts) :
    packetsOf acts = (List.range (size / cfg.packetSize)).map
        (readPacketAt cfg.packetSize address size device delta) ∧
      copiesOf acts = (List.range (size / cfg.packetSize)).map
        fun j => ⟨j * cfg.packetSize, 0, cfg.packetSize⟩ := by
  have hle := hw.sized.le
  have hexact := hw.exact
  rw [trcRead, roundUp_of_dvd hw.packetSize_pos hw.exact hw.dvd
    (by unfold maxDataSize at hle; omega),
    Option.map_some, Option.some.injEq, packetLoop_eq hw.packetSize_pos (by omega),
      hw.loopRounds_eq] at hacts
  subst hacts
  refine ⟨packetsOf_flatMap (fun j => rfl) _, ?_⟩
  rw [copiesOf, List.filterMap_flatMap, ← List.flatMap_pure_eq_map]
  rfl

theorem callActs_append {packetSize : Nat} {before : List Call} {call : Call} {after : List Call}
    {acts : List HostAct} (hacts : callActs packetSize (before ++ call :: after) = some acts) :
    ∃ first middle last, callActs packetSize before = some first ∧
      call.acts packetSize = some middle ∧
      acts = first ++ middle ++ last := by
  induction before generalizing acts with
  | nil =>
      obtain ⟨middle, last, hmiddle, -, rfl⟩ := callActs_cons hacts
      exact ⟨[], middle, last, rfl, hmiddle, rfl⟩
  | cons c before ih =>
      obtain ⟨head, rest, hhead, hrest, rfl⟩ := callActs_cons hacts
      obtain ⟨first, middle, last, hfirst, hmiddle, rfl⟩ := ih hrest
      refine ⟨head ++ first, middle, last, ?_, hmiddle, by simp only [List.append_assoc]⟩
      simp [callActs, hhead, hfirst]

/-- Where the packets and copies of a whole read are among those of its host. -/
theorem WholeWrite.read_place {address size device : Nat} (hw : WholeWrite cfg address size device)
    {delta : Nat} {first middle : List HostAct} (last : List HostAct)
    (hmiddle : trcRead cfg.packetSize address size device delta = some middle)
    (hp : Paired first) {j : Nat} (hj : j < size / cfg.packetSize) :
    (copiesOf (first ++ middle ++ last))[(copiesOf first).length + j]? =
        some ⟨j * cfg.packetSize, 0, cfg.packetSize⟩ ∧
      ∃ q,
        (ofType .read (packetsOf (first ++ middle ++ last)))[(copiesOf first).length + j]? =
          some q ∧
        q.address = address + j * cfg.packetSize := by
  obtain ⟨hpackets, hcopies⟩ := hw.read hmiddle
  have hreads : ofType .read (packetsOf middle) = packetsOf middle := by
    refine List.filter_eq_self.mpr fun q hq => ?_
    obtain ⟨i, -, rfl⟩ := List.mem_map.mp (hpackets ▸ hq)
    exact decide_eq_true rfl
  constructor
  · rw [copiesOf_append, copiesOf_append, List.append_assoc,
      List.getElem?_append_right (Nat.le_add_right ..), Nat.add_sub_cancel_left, hcopies,
      List.getElem?_append_left (by simpa using hj), List.getElem?_map, List.getElem?_range hj,
        Option.map_some]
  · refine ⟨readPacketAt cfg.packetSize address size device delta j, ?_, ?_⟩
    · rw [packetsOf_append, packetsOf_append, ofType_append, ofType_append, hreads,
        hp.copies_length, List.append_assoc,
        List.getElem?_append_right (Nat.le_add_right ..), Nat.add_sub_cancel_left, hpackets,
        List.getElem?_append_left (by simpa using hj), List.getElem?_map, List.getElem?_range hj,
          Option.map_some]
    · exact hw.packet_address (fun _ => 0) delta hj

/-! ## The buffer of a read -/

/-- `memcpy` of a response into the data buffer of its call. -/
def Copy.apply (buf : Nat → UInt8) (e : Copy × Packet) : Nat → UInt8 :=
  memcpy buf e.1.dst ((e.2.data.drop e.1.src).take e.1.length)

/-- What `n` responses leave in a buffer, those stored after the first `m`. -/
def HostLink.buffer (l : HostLink) (m n : Nat) (buf : Nat → UInt8) : Nat → UInt8 :=
  ((l.stored.drop m).take n).foldl Copy.apply buf

/-- Responses stored one behind the other: each is found where it was put. -/
theorem foldl_apply {es : List (Copy × Packet)} {P j t : Nat} (hP : P ≤ maxDataSize)
    (hcopies : ∀ i, ∀ hi : i < es.length, es[i].1 = ⟨i * P, 0, P⟩) (hj : j < es.length) (ht : t < P)
    (buf : Nat → UInt8) : some (es.foldl Copy.apply buf (j * P + t)) = es[j].2.data[t]? := by
  obtain ⟨f, hf⟩ : ∃ f : Copy × Packet → Nat × List UInt8,
      f = fun e => (e.1.dst, (e.2.data.drop e.1.src).take e.1.length) := ⟨_, rfl⟩
  have hall : es.foldl Copy.apply buf = Store.writeAll buf (es.map f) := by
    rw [Store.writeAll, List.foldl_map, hf]
    rfl
  have hblock (i : Nat) (hi : i < es.length) : f es[i] = (i * P, es[i].2.data.take P) := by
    rw [hf]
    simp only [hcopies i hi, List.drop_zero]
  have hlen (i : Nat) (hi : i < es.length) : (f es[i]).2.length = P := by
    have := es[i].2.data_length
    rw [hblock i hi, List.length_take]
    omega
  have hapart : ∀ v ∈ es.map f, v ≠ f es[j] → Store.Apart v (f es[j]) := by
    intro v hv hne
    obtain ⟨e, he, rfl⟩ := List.mem_map.mp hv
    obtain ⟨i, hi, rfl⟩ := List.mem_iff_getElem.mp he
    have hij : i ≠ j := by
      rintro rfl
      exact hne rfl
    rw [Store.Apart, hlen i hi, hlen j hj, hblock i hi, hblock j hj]
    rcases Nat.lt_or_gt_of_ne hij with hlt | hlt
    · have := Nat.mul_le_mul_right P (Nat.succ_le_of_lt hlt)
      rw [Nat.succ_mul] at this
      exact .inl this
    · have := Nat.mul_le_mul_right P (Nat.succ_le_of_lt hlt)
      rw [Nat.succ_mul] at this
      exact .inr this
  have hbyte := Store.writeAll_apply buf (List.mem_map_of_mem (List.getElem_mem hj)) hapart
    (show t < (f es[j]).2.length by rw [hlen j hj]; exact ht)
  have haddr : (f es[j]).1 = j * P := congrArg Prod.fst (hblock j hj)
  have hdata := es[j].2.data_length
  rw [haddr] at hbyte
  rw [hall, hbyte, List.getElem?_eq_getElem (by omega)]
  simp only [hblock j hj, List.getElem_take]

namespace Cosim

variable {cfg : Config} {s : Cosim} {acts : Nat → List HostAct} {calls : Nat → List Call}
  {ib bi : Nat → PacketBuffer} {g h : Nat}

/-- The packets handled of a kind are the first ones of that kind in the calls. -/
theorem Reachable.handled_prefix (hr : Reachable cfg ib bi acts s) (h0 : 0 < cfg.payloadNum)
    (hN : cfg.payloadNum < 4294967296) (hp : ∀ g, Paired (acts g)) (c : Command) (g : Nat) :
    handledOf c g s.sys.log <+: ofType c (packetsOf (acts g)) := by
  have hi := hr.inv h0 hN hp
  have hreceived : (s.link g).shmem.backReceived <+: packetsOf (acts g) := by
    rw [← (hi.asking g).packets]
    exact (hi.received_prefix g).trans (List.prefix_append ..)
  refine List.IsPrefix.trans ?_ (hreceived.filter _)
  show _ <+: ofType c (s.link g).shmem.backReceived
  rw [(hr.handled h0 hN hp g).received c]
  exact List.prefix_append ..

/-- Calls that write to different places make packets that do. -/
theorem Reachable.producers (hr : Reachable cfg ib bi acts s) (h0 : 0 < cfg.payloadNum)
    (hN : cfg.payloadNum < 4294967296)
    (hcalls : ∀ g, callActs cfg.packetSize (calls g) = some (acts g))
    (hd : DisjointWrites cfg calls) : Producers cfg s.sys.log := by
  have hp (g : Nat) := paired_of_callActs (hcalls g)
  have hwrites (g : Nat) : writesOf g s.sys.log <+: ofType .write (packetsOf (acts g)) :=
    hr.handled_prefix h0 hN hp .write g
  refine ⟨fun g hg q hq => ?_, fun g hg k hk n hn m hm hne => ?_⟩
  · obtain ⟨address, data, size, delta, -, hw, hsync, j, hj, -, haddr⟩ :=
      hd.piece hg (fun _ hc => hc) (hcalls g) ((hwrites g).subset hq)
    have hend := WholeWrite.packet_le hj
    have hfits := hw.fits
    have hpos := hw.packetSize_pos
    omega
  · show Packet.Apart cfg _ _
    by_cases hgk : g = k
    · subst hgk
      have hpairs :=
        (hd.host_apart hg (fun _ hc => hc) (hd.host g hg) (hcalls g)).sublist (hwrites g).sublist
      rw [List.pairwise_iff_getElem] at hpairs
      rcases Nat.lt_or_ge n m with hlt | hge
      · exact hpairs n m hn hm hlt
      · exact (hpairs m n hm hn (by omega)).symm
    · exact hd.hosts_apart hg hk hgk (hcalls g) (hcalls k)
        ((hwrites g).subset (List.getElem_mem hn))
        ((hwrites k).subset (List.getElem_mem hm))

/-- Response `n` as a host stores it: the first bytes of a packet written at the address of its
    read `n`. -/
theorem Reachable.stored_written (hr : Reachable cfg ib bi acts s) (hc : cfg.WellSized)
    (h0 : 0 < cfg.payloadNum) (h1 : cfg.dramNum = 1)
    (hcalls : ∀ g, callActs cfg.packetSize (calls g) = some (acts g))
    (hd : DisjointWrites cfg calls) (ho : Sys.ReadsInOrder 0 s.sys.log) {n : Nat}
    (hn : n < (s.link h).stored.length) :
    ∃ hread : n < (ofType .read (packetsOf (acts h))).length, ∃ g < cfg.hostNum,
      ∃ q ∈ ofType .write (packetsOf (acts g)),
      q.address = (ofType .read (packetsOf (acts h)))[n].address ∧
        ∀ t < cfg.packetSize, (s.link h).stored[n].2.data[t]? = q.data[t]? := by
  have hN : cfg.payloadNum < 4294967296 := Nat.lt_of_le_of_lt hc.payloadNum_le (by decide)
  have hp (g : Nat) := paired_of_callActs (hcalls g)
  have hi := hr.inv h0 hN hp
  have hok : ∀ s a, Sys.NoClash cfg .read s a → Sys.NoClash cfg .read s a := fun _ _ hn => hn
  -- the response stored is one the SIMWrapper made
  have hprefix : (s.link h).stored.map Prod.snd <+: (responsesOf h s.sys.log).map
      (responsePacket cfg) := by
    have hpre : (s.link h).shmem.hostReceived <+: (s.link h).shmem.backSent := by
      rcases hi.channel h with hp | hl
      · exact hp.fifo.host_received
      · exact hl.fifo.host_received
    rw [(hi.asking h).stored, ← (hi.answering h).answers]
    exact hpre.trans (List.prefix_append ..)
  have hlen := hprefix.length_le
  rw [List.length_map, List.length_map] at hlen
  have hresp : n < (responsesOf h s.sys.log).length := by omega
  have hstored :=
    hprefix.getElem (show n < ((s.link h).stored.map Prod.snd).length by rwa [List.length_map])
  rw [List.getElem_map, List.getElem_map] at hstored
  -- and that is a packet written at the address of the read
  obtain ⟨hread, g, q, hq, haddr, hdata⟩ :=
    hi.sys.response_written hok hc h0 h1 (hr.producers h0 hN hcalls hd) hresp
  rw [hi.sys.chunks_inOrder hok hc h0 h1 hresp ho, List.getElem?_eq_getElem hresp,
    Option.some.injEq] at hdata
  have hreads : readsOf h s.sys.log <+: ofType .read (packetsOf (acts h)) :=
    hr.handled_prefix h0 hN hp .read h
  have hwrites : writesOf g s.sys.log <+: ofType .write (packetsOf (acts g)) :=
    hr.handled_prefix h0 hN hp .write g
  refine ⟨Nat.lt_of_lt_of_le hread hreads.length_le, g,
    hi.sys.source_exists _ ((mem_writesOf g).mp hq), q, hwrites.subset hq,
    haddr.trans (congrArg Packet.address (hreads.getElem hread)), fun t ht => ?_⟩
  have hmax := hc.le
  rw [hstored, hdata]
  simp only [responsePacket, List.getElem?_map]
  have hlt : t < q.data.length := by
    rw [q.data_length]
    omega
  rw [List.getElem?_range (by omega), Option.map_some, List.getD_eq_getElem?_getD,
    List.getElem?_take_of_lt ht, List.getElem?_eq_getElem hlt, Option.getD_some]

/-- Response `n` goes where copy `n` of the host's calls puts it. -/
theorem Inv.stored_copy (hi : Inv cfg acts s) {n : Nat} (hn : n < (s.link h).stored.length) :
    (copiesOf (acts h))[n]? = some (s.link h).stored[n].1 := by
  have hn' : n < ((s.link h).stored.map Prod.fst).length := by rwa [List.length_map]
  rw [← (hi.asking h).copies, List.getElem?_append_left hn', List.getElem?_eq_getElem hn',
    List.getElem_map]

/-- Byte `t` of piece `i` of a write is the byte the call writes there. -/
theorem byteAt_piece {address size device i t : Nat} (data : Nat → UInt8) (delta : Nat)
    (hP : cfg.packetSize ≤ maxDataSize) (hi : i < size / cfg.packetSize) (ht : t < cfg.packetSize) :
    Call.byteAt (address + i * cfg.packetSize + t) (.write address data size device delta) =
      (writePacketAt cfg.packetSize address data size device delta i).data[t]? := by
  have hend := WholeWrite.packet_le hi
  rw [Call.byteAt, if_pos (by omega)]
  simp only [writePacketAt, makePacket, List.getElem?_map]
  rw [List.getElem?_range (by omega), Option.map_some, if_pos ht]
  refine congrArg some (congrArg data ?_)
  omega

/-- When the calls of all hosts write to different places and the DRAM calls reads back in their
    order: every byte that a read of a host has put into its buffer is the byte some call has
    written to its address. -/
theorem calls_read_back (hcalls : ∀ g, callActs cfg.packetSize (calls g) = some (acts g))
    (hc : cfg.WellSized) (h0 : 0 < cfg.payloadNum) (h1 : cfg.dramNum = 1)
    (hd : DisjointWrites cfg calls) (hr : Reachable cfg ib bi acts s)
    (ho : Sys.ReadsInOrder 0 s.sys.log) {before after : List Call} {address size device delta : Nat}
    (hcall : calls h = before ++ .read address size device delta :: after)
    (hread : WholeWrite cfg address size device) {first : List HostAct}
    (hfirst : callActs cfg.packetSize before = some first) (hdone : (copiesOf first).length +
      size / cfg.packetSize ≤ (s.link h).stored.length) (buf : Nat → UInt8) :
    ∀ k < size, ∃ g < cfg.hostNum, ∃ call ∈ calls g, call.byteAt (address + k) =
      some ((s.link h).buffer (copiesOf first).length (size / cfg.packetSize) buf k) := by
  have hN : cfg.payloadNum < 4294967296 := Nat.lt_of_le_of_lt hc.payloadNum_le (by decide)
  have hp (g : Nat) := paired_of_callActs (hcalls g)
  have hi := hr.inv h0 hN hp
  -- the acts of this call are among those of the host
  obtain ⟨first', middle, last, hfirst', hmiddle, hacts⟩ := callActs_append (hcall ▸ hcalls h)
  obtain rfl := Option.some.inj (hfirst.symm.trans hfirst')
  have hplace {j : Nat} (hj : j < size / cfg.packetSize) :=
    hread.read_place last hmiddle (paired_of_callActs hfirst) hj
  rw [← hacts] at hplace
  obtain ⟨m, hm⟩ : ∃ m, m = (copiesOf first).length := ⟨_, rfl⟩
  rw [← hm] at hdone hplace ⊢
  -- the responses stored for it
  obtain ⟨es, hes⟩ : ∃ es, es = ((s.link h).stored.drop m).take (size / cfg.packetSize) := ⟨_, rfl⟩
  have hlen : es.length = size / cfg.packetSize := by
    rw [hes, List.length_take, List.length_drop]
    omega
  have hget (j : Nat) (hj : j < es.length) (hj' : m + j < (s.link h).stored.length) :
      es[j] = (s.link h).stored[m + j] := by
    simp only [hes, List.getElem_take, List.getElem_drop]
  have hcopy (j : Nat) (hj : j < es.length) :
      es[j].1 = ⟨j * cfg.packetSize, 0, cfg.packetSize⟩ := by
    have hj' : m + j < (s.link h).stored.length := by omega
    have hall := (hplace (hlen ▸ hj)).1
    rw [hi.stored_copy hj', Option.some.injEq] at hall
    rw [hget j hj hj', hall]
  intro k hk
  -- byte `k` is byte `t` of response `j`
  obtain ⟨j, hj⟩ : ∃ j, j = k / cfg.packetSize := ⟨_, rfl⟩
  obtain ⟨t, ht⟩ : ∃ t, t = k % cfg.packetSize := ⟨_, rfl⟩
  have hkjt : k = j * cfg.packetSize + t := by
    rw [hj, ht, Nat.mul_comm]
    exact (Nat.div_add_mod ..).symm
  have hlt : t < cfg.packetSize := ht ▸ Nat.mod_lt _ hread.packetSize_pos
  have hjn : j < size / cfg.packetSize := hj ▸ Nat.div_lt_div_of_lt_of_dvd hread.dvd hk
  have hjl : j < es.length := by omega
  have hjs : m + j < (s.link h).stored.length := by omega
  obtain ⟨hn, g, hg, q, hq, haddr, hdata⟩ := hr.stored_written hc h0 h1 hcalls hd ho hjs
  obtain ⟨r, hr', hra⟩ := (hplace hjn).2
  rw [List.getElem?_eq_getElem hn, Option.some.injEq] at hr'
  rw [hr', hra] at haddr
  -- the packet is piece `i` of a call
  obtain ⟨a, data, n, e, hmem, hw, -, i, hin, rfl, hqa⟩ :=
    hd.piece hg (fun _ hc => hc) (hcalls g) hq
  refine ⟨g, hg, _, hmem, ?_⟩
  have hbyte := foldl_apply hc.le hcopy hjl hlt buf
  rw [hget j hjl hjs, hdata t hlt] at hbyte
  rw [HostLink.buffer, ← hes, hkjt, hbyte, ← byteAt_piece data e hc.le hin hlt]
  refine congrArg (fun x => Call.byteAt x _) ?_
  omega

theorem calls_read_back_of_threeCalls : ∃ call ∈ threeCalls,
    call.byteAt 10 = some (((threeCallsRun 50).link 0).buffer 0 1 (fun _ => 0) 2) ∧
      ((threeCallsRun 50).link 0).buffer 0 1 (fun _ => 0) 2 = 3 := by
  have hrun : Sys.ReadsInOrder 0 (threeCallsRun 50).sys.log ∧
      ((threeCallsRun 50).link 0).stored.length = 1 ∧
      ((threeCallsRun 50).link 0).buffer 0 1 (fun _ => 0) 2 = 3 := by decide +kernel
  obtain ⟨horder, hstored, hbyte⟩ := hrun
  have hwhole : WholeWrite (smallConfig 1 1 4) 8 8 0 :=
    ⟨⟨by decide, by decide, by decide⟩, by decide, by decide, by decide, by decide, by decide⟩
  have hdisjoint : DisjointWrites (smallConfig 1 1 4) fun _ => threeCalls := by
    refine ⟨fun g hg address data size device delta hc => ?_, fun g hg => ?_,
      fun g hg k hk hgk => ?_⟩
    · simp only [threeCalls, List.mem_cons, Call.write.injEq, reduceCtorEq, List.not_mem_nil,
        or_false] at hc
      obtain ⟨rfl, -, rfl, rfl, -⟩ := hc
      exact ⟨rfl, hwhole, by decide⟩
    · simp [threeCalls, Call.Apart]
    · exact absurd ((Nat.lt_one_iff.mp hg).trans (Nat.lt_one_iff.mp hk).symm) hgk
  have hfirst : callActs 8 [.write 8 (fun k => UInt8.ofNat (k + 1)) 8 0 0] =
      some [writeRequest 8 8 (fun k => UInt8.ofNat (k + 1)) 0 8 0 0] := by
    have hround : roundUp 8 8 = some 8 :=
      roundUp_of_dvd (by decide) (by decide) (by decide) (by decide)
    simp only [callActs, Call.acts, trcWrite, hround, Option.map_some]
    rfl
  obtain ⟨-, -, call, hmem, hcall⟩ := calls_read_back (h := 0) (fun _ => callActs_threeCalls)
    ⟨by decide, by decide, by decide⟩ (by decide) rfl hdisjoint (threeCallsRun_reachable 50) horder
    (show threeCalls = [_] ++ Call.read 8 8 0 0 :: [_] from rfl) hwhole hfirst
      (by rw [hstored]; decide)
    (fun _ => 0) 2 (by decide)
  exact ⟨call, hmem, hcall, hbyte⟩

end Cosim

end TSim4CXL
