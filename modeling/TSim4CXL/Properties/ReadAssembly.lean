/-
  What is in the response to a read packet.

  The RACK block of `clock_negedge` puts the data of an ack at `dram_req_size*rack_num`, by the
  number of acks so far and not by the address of the ack. `responses_right_iff`: the responses
  of a run hold the bytes of the backing store at the addresses read, whatever the store holds,
  exactly when the acks of each answered packet came in the order of its chunks (and no chunk
  address wrapped around). `Sys.chunks_swapped`: the DRAM completes the two requests of one read
  packet in the other order, and the host gets their bytes exchanged.
-/
import TSim4CXL.Trace.LoneRuns
import TSim4CXL.Model.Top

namespace TSim4CXL

open Transition

/-! ## Lists of blocks -/

/-- Blocks of the same sizes make up the same list exactly when they are the same blocks. -/
theorem flatMap_range_inj {β : Type*} {f g : Nat → List β} {N d : Nat}
    (hf : ∀ i < N, (f i).length = d) (hg : ∀ i < N, (g i).length = d) :
    (List.range N).flatMap f = (List.range N).flatMap g ↔ ∀ i < N, f i = g i := by
  constructor
  · intro h
    have hlen : ((List.range N).map f).map List.length =
        ((List.range N).map g).map List.length := by
      rw [List.map_map, List.map_map]
      refine List.map_congr_left fun i hi => ?_
      rw [Function.comp_apply, Function.comp_apply, hf i (List.mem_range.mp hi),
        hg i (List.mem_range.mp hi)]
    have hblocks : (List.range N).map f = (List.range N).map g :=
      List.eq_iff_flatten_eq.mpr ⟨by simpa only [List.flatMap_def] using h, hlen⟩
    exact fun i hi => List.map_inj_left.mp hblocks i (List.mem_range.mpr hi)
  · intro h
    rw [List.flatMap_def, List.flatMap_def, List.map_congr_left fun i hi =>
      h i (List.mem_range.mp hi)]

/-- A range in blocks of `d`. -/
theorem range_mul_flatMap (d N : Nat) :
    List.range (d * N) = (List.range N).flatMap fun i => (List.range d).map fun j => d * i + j := by
  induction N with
  | zero => rfl
  | succ N ih =>
      rw [Nat.mul_succ, List.range_add, ih, List.range_succ, List.flatMap_append,
        List.flatMap_singleton]

/-- Two lists of addresses that every memory gives the same bytes are the same. -/
theorem eq_of_map_mem {as bs : List Nat}
    (h : ∀ mem : Nat → UInt8, as.map mem = bs.map mem) : as = bs := by
  refine List.ext_getElem (by simpa using congrArg List.length (h fun _ => 0)) fun j ha hb => ?_
  -- the memory that tells this address from all others
  have hj := congrArg (fun l => l[j]?) (h fun a => if a = bs[j] then 1 else 0)
  simp only [List.getElem?_map, List.getElem?_eq_getElem ha, List.getElem?_eq_getElem hb,
    Option.map_some, if_true, Option.some.injEq] at hj
  by_contra hne
  rw [if_neg hne] at hj
  cases hj

namespace LoneHost

variable {cfg : Config} {mem : Nat → Nat → UInt8}

/-! ## Addresses -/

/-- The addresses of the bytes of chunk `c` of a read packet at `a`. -/
def chunkAddresses (cfg : Config) (a c : Nat) : List Nat :=
  (List.range cfg.dramReqSize).map fun j => u32 (a + cfg.dramReqSize * c) + j

theorem block_ackOf (q : Packet) (n c : Nat) :
    block mem (ackOf (SimWrapper.readPayload cfg 0 q n c)) =
      (chunkAddresses cfg q.address c).map (mem q.deviceId) := by
  simp [block, load, ackOf, SimWrapper.readPayload, MemWrapper.backwardTrans, MemWrapper.genTrans,
    chunkAddresses]

/-- The bytes at the addresses of chunks `cs`, one chunk after the other, are those of the packet
    in every memory exactly when the chunks are in order and none wraps around. -/
theorem chunks_eq_iff (hc : cfg.WellSized) {a : Nat} {cs : List Nat}
    (hlen : cs.length = cfg.payloadNum) (hcs : ∀ c ∈ cs, c < cfg.payloadNum) :
    cs.flatMap (chunkAddresses cfg a) = (List.range cfg.packetSize).map (a + ·) ↔
      ∀ i < cfg.payloadNum, cs[i]? = some i ∧ a + cfg.dramReqSize * i < 4294967296 := by
  have hpos := hc.pos
  have hget : cs.flatMap (chunkAddresses cfg a) = (List.range cfg.payloadNum).flatMap fun i =>
      chunkAddresses cfg a (cs.getD i 0) := by
    have hmap : cs = (List.range cfg.payloadNum).map fun i => cs.getD i 0 := by
      refine List.ext_getElem (by simp [hlen]) fun i hi _ => ?_
      simp [hi]
    conv_lhs => rw [hmap]
    rw [List.flatMap_map]
  have hrange : (List.range cfg.packetSize).map (a + ·) =
      (List.range cfg.payloadNum).flatMap fun i =>
        (List.range cfg.dramReqSize).map fun j => a + cfg.dramReqSize * i + j := by
    rw [← hc.mul_payloadNum, range_mul_flatMap, List.map_flatMap]
    simp only [List.map_map, Function.comp_def, Nat.add_assoc]
  rw [hget, hrange, flatMap_range_inj (d := cfg.dramReqSize) (by simp [chunkAddresses]) (by simp)]
  constructor
  · intro h
    -- the first addresses of the blocks
    have hfirst (i : Nat) (hi : i < cfg.payloadNum) :
        u32 (a + cfg.dramReqSize * cs.getD i 0) = a + cfg.dramReqSize * i := by
      have := congrArg (fun l => l[0]?) (h i hi)
      simpa [chunkAddresses, hpos] using this
    have hin (i : Nat) (hi : i < cfg.payloadNum) : a + cfg.dramReqSize * i < 4294967296 := by
      rw [← hfirst i hi]
      exact Nat.mod_lt _ (by decide)
    intro i hi
    refine ⟨?_, hin i hi⟩
    have hi' : i < cs.length := hlen ▸ hi
    have hf := hfirst i hi
    rw [← List.getElem_eq_getD (h := hi'), u32,
      Nat.mod_eq_of_lt (hin _ (hcs _ (List.getElem_mem hi')))] at hf
    rw [List.getElem?_eq_getElem hi']
    exact congrArg some (Nat.eq_of_mul_eq_mul_left hpos (Nat.add_left_cancel hf))
  · intro h i hi
    obtain ⟨hci, hin⟩ := h i hi
    rw [List.getD_eq_getElem?_getD, hci, Option.getD_some, chunkAddresses, u32,
      Nat.mod_eq_of_lt hin]

/-! ## Responses -/

/-- Every response holds the bytes of the store at the addresses its packet reads. -/
def Right (cfg : Config) (mem : Nat → Nat → UInt8) (l : List Event) : Prop :=
  ∀ n, ∀ hn : n < (readsOf 0 l).length, ∀ data, (responsesOf 0 l)[n]? = some data →
    data = (List.range cfg.packetSize).map fun k =>
      mem (readsOf 0 l)[n].deviceId ((readsOf 0 l)[n].address + k)

/-- The acks of every answered read packet came in the order of its chunks, and the addresses of
    the chunks are those of the packet. -/
def InOrder (cfg : Config) (l : List Event) : Prop :=
  ∀ n, ∀ hn : n < (readsOf 0 l).length, n < (responsesOf 0 l).length → ∀ i < cfg.payloadNum,
    ((acksOf l n).map Payload.chunk)[i]? = some i ∧
      (readsOf 0 l)[n].address + cfg.dramReqSize * i < 4294967296

theorem Same.acksOf_eq {s s' : SimWrapper × List Event} (h : Same s s') (n : Nat) :
    acksOf s'.2 n = acksOf s.2 n := by
  rw [acksOf, h.sent_eq, ← acksOf]

/-- The acks of packet `n` are those of its chunks. -/
theorem ReachableAlone.acksOf_eq {s : SimWrapper × List Event} (hr : ReachableAlone cfg mem s)
    (h0 : 0 < cfg.payloadNum) (hN : cfg.payloadNum < 4294967296) {n : Nat}
    (hn : n < (readsOf 0 s.2).length) :
    acksOf s.2 n = ((acksOf s.2 n).map Payload.chunk).map fun c =>
        ackOf (SimWrapper.readPayload cfg 0 (readsOf 0 s.2)[n] n c) := by
  have hb := hr.base h0 hN
  rw [List.map_map]
  conv_lhs => rw [← List.map_id' (acksOf s.2 n)]
  refine List.map_congr_left fun p hp => ?_
  obtain ⟨hp, hpn⟩ := List.mem_filter.mp hp
  obtain ⟨n', hn', i, hi, rfl⟩ := ack_form hb.1 hb.2.2 hr.fair hp
  obtain rfl : n' = n := by simpa [SimWrapper.readPayload] using hpn
  simp [SimWrapper.readPayload]

theorem ReachableAlone.chunk_lt {s : SimWrapper × List Event} (hr : ReachableAlone cfg mem s)
    (h0 : 0 < cfg.payloadNum) (hN : cfg.payloadNum < 4294967296) (n : Nat) :
    ∀ c ∈ (acksOf s.2 n).map Payload.chunk, c < cfg.payloadNum := by
  have hb := hr.base h0 hN
  intro c hc
  obtain ⟨p, hp, rfl⟩ := List.mem_map.mp hc
  obtain ⟨n', hn', i, hi, rfl⟩ := ack_form hb.1 hb.2.2 hr.fair (List.mem_filter.mp hp).1
  simpa [SimWrapper.readPayload] using hi

theorem ReachableAlone.right_iff {s : SimWrapper × List Event} (hr : ReachableAlone cfg mem s)
    (hc : cfg.WellSized) (h0 : 0 < cfg.payloadNum) : Right cfg mem s.2 ↔
      ∀ n, ∀ hn : n < (readsOf 0 s.2).length, n < (responsesOf 0 s.2).length →
        (((acksOf s.2 n).map Payload.chunk).flatMap
            (chunkAddresses cfg (readsOf 0 s.2)[n].address)).map (mem (readsOf 0 s.2)[n].deviceId) =
          ((List.range cfg.packetSize).map ((readsOf 0 s.2)[n].address + ·)).map
            (mem (readsOf 0 s.2)[n].deviceId) := by
  have hN : cfg.payloadNum < 4294967296 := Nat.lt_of_le_of_lt hc.payloadNum_le (by decide)
  refine forall_congr' fun n => forall_congr' fun hn => ?_
  by_cases hlt : n < (responsesOf 0 s.2).length
  · have hresp := hr.response hc h0 hlt
    rw [hr.acksOf_eq h0 hN hn, List.flatMap_map] at hresp
    simp only [block_ackOf] at hresp
    rw [← List.map_flatMap] at hresp
    simp only [hresp, Option.some.injEq, forall_eq', hlt, true_implies, List.map_map,
      Function.comp_def]
  · simp [hlt]

/-- Over all backing stores: the responses of a run are right exactly when the acks of each
    answered packet came in the order of its chunks. -/
theorem responses_right_iff (hc : cfg.WellSized) {mem₀ : Nat → Nat → UInt8} {as : List LoneAct}
    {s₀ : SimWrapper × List Event} (hrun : run (step cfg mem₀) init as = .ok s₀) :
    (∀ mem s, run (step cfg mem) init as = .ok s → Right cfg mem s.2) ↔ InOrder cfg s₀.2 := by
  have hr₀ : ReachableAlone cfg mem₀ s₀ := reach_run .refl hrun
  rcases Nat.eq_zero_or_pos cfg.payloadNum with h0 | h0
  · -- packets without bytes
    have hsize : cfg.packetSize = 0 := by rw [← hc.mul_payloadNum, h0, Nat.mul_zero]
    refine iff_of_true (fun mem s hs n hn data hdata => ?_) fun n hn _ i hi => ?_
    · have hr : ReachableAlone cfg mem s := reach_run .refl hs
      have hlen :=
        hr.always (closed_of_moves (closed_of_sim SimWrapper.simResponses_closed)) (by simp)
      have := hlen data (List.mem_of_getElem? hdata)
      rw [hsize] at this ⊢
      rw [List.length_eq_zero_iff.mp this]
      rfl
    · rw [h0] at hi
      cases hi
  · have hN : cfg.payloadNum < 4294967296 := Nat.lt_of_le_of_lt hc.payloadNum_le (by decide)
    have hlen (n : Nat) (hn : n < (responsesOf 0 s₀.2).length) :
        ((acksOf s₀.2 n).map Payload.chunk).length = cfg.payloadNum := by
      rw [List.length_map, hr₀.acksOf_length h0 hN hn]
    constructor
    · intro hright n hn hlt
      refine (chunks_eq_iff hc (hlen n hlt) (hr₀.chunk_lt h0 hN n)).mp (eq_of_map_mem fun mem => ?_)
      obtain ⟨s, hs, hsame⟩ := run_same hrun fun _ => mem
      have hr : ReachableAlone cfg (fun _ => mem) s := reach_run .refl hs
      have := (hr.right_iff hc h0).mp (hright _ s hs) n
      simp only [hsame.acksOf_eq, hsame.readsOf_eq, hsame.responses_length] at this
      exact this hn hlt
    · intro hin mem s hs
      have hr : ReachableAlone cfg mem s := reach_run .refl hs
      obtain ⟨s', hs', hsame⟩ := run_same hrun mem
      obtain rfl : s' = s := by rwa [hs, Except.ok.injEq, eq_comm] at hs'
      refine (hr.right_iff hc h0).mpr fun n => ?_
      simp only [hsame.acksOf_eq, hsame.readsOf_eq, hsame.responses_length]
      intro hn hlt
      rw [(chunks_eq_iff hc (hlen n hlt) (hr₀.chunk_lt h0 hN n)).mpr (hin n hn hlt)]

/-! ## Concrete runs -/

/-- An ack that arrives and goes through to the RACK block. -/
def ackSteps (p : Payload) : List LoneAct :=
  [.ack p, .step .peq SyncObject.init 1, .step .posedge SyncObject.init 1,
    .step .negedge SyncObject.init 1]

/-- A read of address 8, flag set, then the acks of the two chunks in their order. -/
def inOrderSteps : List LoneAct :=
  [.step (.recv (.fill .read 8 0)) (SyncObject.init.signal 8) 1, .step .process SyncObject.init 1,
      .step .process SyncObject.init 1, .step .negedge SyncObject.init 1,
      .step .negedge SyncObject.init 1] ++
    ackSteps (SimWrapper.readPayload (smallConfig 1 1 2) 0 (.fill .read 8 0) 0 0) ++
    ackSteps (SimWrapper.readPayload (smallConfig 1 1 2) 0 (.fill .read 8 0) 0 1)

def inOrderRun : SimWrapper × List Event :=
  match run (step (smallConfig 1 1 2) fun _ _ => 0) init inOrderSteps with
  | .ok s => s
  | .error _ => init

theorem responses_right_of_inOrder : (responsesOf 0 inOrderRun.2).length = 1 ∧
    ∀ mem s, run (step (smallConfig 1 1 2) mem) init inOrderSteps = .ok s →
      Right (smallConfig 1 1 2) mem s.2 :=
  ⟨by decide +kernel, (responses_right_iff ⟨by decide, by decide, by decide⟩
    (show run (step (smallConfig 1 1 2) fun _ _ => 0) init inOrderSteps =
      .ok inOrderRun from rfl)).mpr
      (by unfold InOrder; decide +kernel)⟩

end LoneHost

namespace Sys

/-- The actions without the callbacks of the DRAM. -/
def Action.isComplete : Action → Bool
  | .mem _ (.complete _) => true
  | _ => false

/-- Host 0 writes addresses 8 and 10, then reads 8; the DRAM holds both requests of the read and
    completes the second one first. -/
def chunksSwapped : Sys :=
  runSkip (step (smallConfig 1 1 2)) anyStep (init (smallConfig 1 1 2))
    (.sim 0 (.recv (.fill .write 8 1)) :: rounds (smallConfig 1 1 2) 12 ++
      .sim 0 (.recv (.fill .write 10 2)) :: rounds (smallConfig 1 1 2) 12 ++
      .sim 0 (.recv (.fill .read 8 0)) ::
        (rounds (smallConfig 1 1 2) 12).filter (fun a => !Action.isComplete a) ++
      .mem 0 (.complete 1) :: rounds (smallConfig 1 1 2) 12)

/-- The bytes at 8 to 11 are 1, 1, 2, 2, the response to the read of them holds 2, 2, 1, 1. -/
theorem chunks_swapped : ∃ s, Reachable (smallConfig 1 1 2) s ∧ (smallConfig 1 1 2).WellSized ∧
    (readsOf 0 s.log).map Packet.address = [8] ∧ s.load (.memData 0 8) 4 = [1, 1, 2, 2] ∧
      responsesOf 0 s.log = [[2, 2, 1, 1]] :=
  ⟨chunksSwapped, reach_runSkip _ _, ⟨by decide, by decide, by decide⟩, by decide +kernel⟩

end Sys

end TSim4CXL
