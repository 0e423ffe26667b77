/-
  What `print_mem_stats` reports.

  All counters are `uint32_t` and are updated once per request, so the report is exact as long as no
  sum has reached 2^32. `report_exact_iff` says when, for every run of a MEMWrapper; after 2^26
  reads of 64 bytes the reported size is 0 (`total_size_wraps`).
-/
import TSim4CXL.Properties.Latency
import Mathlib.Algebra.GroupWithZero.Nat

namespace TSim4CXL

open Transition

/-! ## What is recorded -/

/-- A request handed to the bridge, with its size, or the latency of a completed one. -/
inductive MemRecord
  | request (c : Command) (size : Nat)
  | latency (c : Command) (ns : Nat)

/-- The requests, the bytes and the latency of a command. -/
structure MemSums where
  num : Nat
  size : Nat
  latency : Nat
deriving DecidableEq

namespace MemSums

instance : Add MemSums := ⟨fun x y => ⟨x.num + y.num, x.size + y.size, x.latency + y.latency⟩⟩

/-- The sums as three `uint32_t` counters hold them. -/
def wrap (x : MemSums) : MemSums := ⟨u32 x.num, u32 x.size, u32 x.latency⟩

/-- What one record adds to the sums of `c`. -/
def ofRecord (c : Command) : MemRecord → MemSums
  | .request c' size => if c' = c then ⟨1, size, 0⟩ else ⟨0, 0, 0⟩
  | .latency c' ns => if c' = c then ⟨0, 0, ns⟩ else ⟨0, 0, 0⟩

/-- The true sums. -/
def ofRecords (c : Command) (rs : List MemRecord) : MemSums :=
  rs.foldl (fun x r => x + ofRecord c r) ⟨0, 0, 0⟩

theorem ofRecords_concat (c : Command) (rs : List MemRecord) (r : MemRecord) :
    ofRecords c (rs ++ [r]) = ofRecords c rs + ofRecord c r := by
  rw [ofRecords, List.foldl_append]
  rfl

theorem wrap_wrap (x : MemSums) : x.wrap.wrap = x.wrap := by
  simp [wrap, u32]

theorem wrap_add (x y : MemSums) : (x.wrap + y).wrap = (x + y).wrap := by
  change wrap ⟨_, _, _⟩ = wrap ⟨_, _, _⟩
  simp [wrap, u32]

/-- The average of `total` over `num` requests, which are counted modulo 2^32, comes out right:
    the count has not reached 2^32, or the average is 0 either way. -/
def AverageFits (num total : Nat) : Prop := num < 4294967296 ∨ u32 num = 0 ∨ total < u32 num

/-- Neither total has reached 2^32, and the averages come out right. -/
structure Fits (x : MemSums) : Prop where
  size : x.size < 4294967296
  averageSize : AverageFits x.num x.size
  latency : x.latency < 4294967296
  averageLatency : AverageFits x.num x.latency

end MemSums

namespace Statistics

/-- The counters of a command. -/
def sums (s : Statistics) : Command → MemSums
  | .read => ⟨s.numReadRequest, s.totalReadSize, s.totalReadLatency⟩
  | .write => ⟨s.numWriteRequest, s.totalWriteSize, s.totalWriteLatency⟩

/-- The report on a command. -/
def report (s : Statistics) : Command → MemReport
  | .read => s.printMemStats.1
  | .write => s.printMemStats.2

/-- The totals and averages of a report are the true ones. -/
structure MemReport.Exact (r : MemReport) (x : MemSums) : Prop where
  totalSize : r.totalSize = x.size
  averageSize : r.averageSize = x.size / x.num
  totalLatency : r.totalLatency = x.latency
  averageLatency : r.averageLatency = x.latency / x.num

def record (s : Statistics) : MemRecord → Statistics
  | .request .read size => s.increaseRRequest.updateTotalReadSize size
  | .request .write size => s.increaseWRequest.updateTotalWriteSize size
  | .latency .read ns => s.updateReadLatency ns
  | .latency .write ns => s.updateWriteLatency ns

/-- The counters hold the true sums modulo 2^32. -/
def Counts (s : Statistics) (rs : List MemRecord) : Prop :=
  ∀ c, s.sums c = (MemSums.ofRecords c rs).wrap

/-- A record is added in `uint32_t`. -/
theorem sums_record {s : Statistics} {c : Command} (h : (s.sums c).wrap = s.sums c)
    (r : MemRecord) :
    (s.record r).sums c = (s.sums c + MemSums.ofRecord c r).wrap := by
  obtain ⟨hnum, hsize, hlat⟩ := MemSums.mk.inj h
  cases r with
  | request c' size =>
      by_cases hc : c' = c
      · subst hc
        rw [MemSums.ofRecord, if_pos rfl]
        cases c' <;> exact congrArg (MemSums.mk _ _) hlat.symm
      · rw [MemSums.ofRecord, if_neg hc]
        refine Eq.trans ?_ h.symm
        cases c' <;> cases c <;> first | rfl | exact absurd rfl hc
  | latency c' ns =>
      by_cases hc : c' = c
      · subst hc
        rw [MemSums.ofRecord, if_pos rfl]
        cases c' <;> exact congrArg₂ (MemSums.mk · · _) hnum.symm hsize.symm
      · rw [MemSums.ofRecord, if_neg hc]
        refine Eq.trans ?_ h.symm
        cases c' <;> cases c <;> first | rfl | exact absurd rfl hc

theorem Counts.record {s : Statistics} {rs : List MemRecord} (h : s.Counts rs) (r : MemRecord) :
    (s.record r).Counts (rs ++ [r]) := by
  intro c
  rw [sums_record (by rw [h c, MemSums.wrap_wrap]), h c, MemSums.ofRecords_concat, MemSums.wrap_add]

theorem Counts.records {s : Statistics} {rs : List MemRecord} (h : s.Counts rs)
    (rs' : List MemRecord) :
    (rs'.foldl Statistics.record s).Counts (rs ++ rs') := by
  induction rs' generalizing s rs with
  | nil => simpa using h
  | cons r rs' ih => simpa using ih (h.record r)

/-- The report on the counters of a command. -/
theorem report_eq (s : Statistics) (c : Command) : s.report c =
    ⟨(s.sums c).num, (s.sums c).size,
      if 0 < (s.sums c).num then (s.sums c).size / (s.sums c).num else 0, (s.sums c).latency,
      if 0 < (s.sums c).num then (s.sums c).latency / (s.sums c).num else 0⟩ := by
  cases c <;> rfl

end Statistics

namespace MemSums

/-- The average printed for a total that is right. -/
theorem average_iff {num total : Nat} (h : total < 4294967296) :
    (if 0 < u32 num then total / u32 num else 0) = total / num ↔ AverageFits num total := by
  rcases Nat.lt_or_ge num 4294967296 with hnum | hnum
  · have hu : u32 num = num := Nat.mod_eq_of_lt hnum
    refine iff_of_true ?_ (.inl hnum)
    rw [hu]
    split
    · rfl
    · rename_i h0
      rw [Nat.eq_zero_of_not_pos h0, Nat.div_zero]
  · rw [Nat.div_eq_of_lt (Nat.lt_of_lt_of_le h hnum)]
    unfold AverageFits
    split
    · rename_i h0
      rw [Nat.div_eq_zero_iff]
      omega
    · exact iff_of_true rfl (.inr (.inl (by omega)))

end MemSums

/-- The report is exact when the sums fit their counters. -/
theorem Statistics.Counts.exact_iff {s : Statistics} {rs : List MemRecord} (h : s.Counts rs)
    (c : Command) :
    (s.report c).Exact (MemSums.ofRecords c rs) ↔ (MemSums.ofRecords c rs).Fits := by
  rw [Statistics.report_eq, h c]
  generalize MemSums.ofRecords c rs = x
  have hmod {n : Nat} : u32 n = n ↔ n < 4294967296 := by
    unfold u32
    omega
  have htotal (hsize : u32 x.size = x.size) (hlat : u32 x.latency = x.latency) :
      x.wrap = ⟨u32 x.num, x.size, x.latency⟩ := by
    rw [MemSums.wrap, hsize, hlat]
  constructor
  · rintro ⟨h1, h2, h3, h4⟩
    rw [htotal h1 h3] at h2 h4
    exact ⟨hmod.mp h1, (MemSums.average_iff (hmod.mp h1)).mp h2, hmod.mp h3,
      (MemSums.average_iff (hmod.mp h3)).mp h4⟩
  · rintro ⟨h1, h2, h3, h4⟩
    rw [htotal (hmod.mpr h1) (hmod.mpr h3)]
    exact ⟨rfl, (MemSums.average_iff h1).mpr h2, rfl, (MemSums.average_iff h3).mpr h4⟩

/-! ## A MEMWrapper and its records -/

namespace MemWrapper

/-- What a step records: `simulate_dram` the latency of a completed request, then its new
    requests. -/
def records (m : MemWrapper) : Act → List MemRecord
  | .simulateDram _ now =>
      (m.outQueue.take 1).map (fun p => .latency p.command (m.delay now p)) ++
        m.memRequest.map fun p => .request p.command p.dataLength
  | _ => []

variable {d now : Nat} {m : MemWrapper}

theorem updateLatency_stats (m : MemWrapper) (c : Command) (latency : Nat) :
    (m.updateLatency c latency).stats = m.stats.record (.latency c latency) := by
  cases c <;> rfl

theorem collect_stats (now : Nat) (m : MemWrapper) : (m.collect now).stats =
    ((m.outQueue.take 1).map fun p => .latency p.command (m.delay now p)).foldl
      Statistics.record m.stats := by
  cases h : m.outQueue with
  | nil => rw [collect_nil h]; rfl
  | cons p q =>
      have hgather : (m.gather p).stats = m.stats := by
        unfold gather
        split <;> rfl
      rw [collect_cons h, updateLatency_stats, hgather]
      rfl

theorem sendCommand_stats (m : MemWrapper) (p : Payload) :
    (sendCommand now m p).stats = m.stats.record (.request p.command p.dataLength) := by
  unfold sendCommand recordRequest
  cases p.command <;> rfl

theorem issue_stats (now : Nat) (m : MemWrapper) : (m.issue now).stats =
    (m.memRequest.map fun p => .request p.command p.dataLength).foldl
      Statistics.record m.stats := by
  suffices h : ∀ (ps : List Payload) (m : MemWrapper), (ps.foldl (sendCommand now) m).stats =
      (ps.map fun p => .request p.command p.dataLength).foldl Statistics.record m.stats from
    h m.memRequest { m with memRequest := [] }
  intro ps
  induction ps with
  | nil => exact fun _ => rfl
  | cons p ps ih =>
      intro m
      rw [List.foldl_cons, ih, sendCommand_stats]
      rfl

theorem clockTick_stats (d : Nat) (accept : Bool) (m : MemWrapper) :
    (m.clockTick d accept).1.stats = m.stats := by
  unfold clockTick
  split
  · rfl
  · split <;> rfl

/-- Every update of the counters is one of the records. -/
theorem act_stats {a : Act} {n : Nat} {load : DataPtr → Nat → List UInt8} {m' : MemWrapper}
    {es : List Event} (ha : m.act d n load a = .ok (m', es)) :
    m'.stats = (m.records a).foldl Statistics.record m.stats := by
  cases a with
  | peq =>
      simp only [act, peqCb] at ha
      split at ha
      · cases ha
      · split at ha <;> cases ha <;> rfl
  | posedge => cases ha; rfl
  | negedge => cases ha; rfl
  | simulateDram accept now =>
      have hstats : (((m.collect now).issue now).clockTick d accept).1.stats =
          (m.records (.simulateDram accept now)).foldl Statistics.record m.stats := by
        rw [clockTick_stats, issue_stats, (collect_queues now m).2, collect_stats, records,
          List.foldl_append]
      simp only [act, simulateDram] at ha
      split at ha
      · split at ha
        · cases ha
          exact hstats
        · obtain rfl : _ = m' := congrArg Prod.fst (Except.ok.inj ha)
          exact hstats
      · cases ha
  | complete i =>
      simp only [act, complete] at ha
      split at ha
      · split at ha <;> cases ha
        rfl
      · cases ha

end MemWrapper

/-- A MEMWrapper and all it has recorded. -/
abbrev RecordedMem := MemWrapper × List MemRecord

namespace RecordedMem

variable {d : Nat} {s : RecordedMem}

def init : RecordedMem := (MemWrapper.init, [])

def step (d : Nat) (s : RecordedMem) : LoneMemAct → Except Fault RecordedMem
  | .step a activeCores =>
      match s.1.act d activeCores (LoneHost.load fun _ => s.1.memData) a with
      | .ok (m, _) => .ok (m, s.2 ++ s.1.records a)
      | .error e => .error e
  | .request p => .ok (s.1.nbTransportFw p, s.2)

/-- The states of all runs of MEMWrapper `d`. -/
def ReachableRecorded (d : Nat) (s : RecordedMem) : Prop := Reach (step d) anyStep init s

theorem ReachableRecorded.counts (hr : ReachableRecorded d s) : s.1.stats.Counts s.2 := by
  refine Reach.invariant (P := fun s : RecordedMem => s.1.stats.Counts s.2) ?_
    (fun s a s' _ _ ih hs => ?_) hr
  · intro c
    cases c <;> rfl
  · cases a with
    | step a n =>
        simp only [step] at hs
        split at hs
        · rename_i ha
          cases hs
          rw [MemWrapper.act_stats ha]
          exact ih.records _
        · cases hs
    | request p => cases hs; exact ih

/-- The totals and averages on reads and on writes are the true ones exactly when the sums fit. -/
theorem report_exact_iff (hr : ReachableRecorded d s) :
    ((s.1.stats.report .read).Exact (MemSums.ofRecords .read s.2) ∧
        (s.1.stats.report .write).Exact (MemSums.ofRecords .write s.2)) ↔
      (MemSums.ofRecords .read s.2).Fits ∧ (MemSums.ofRecords .write s.2).Fits :=
  and_congr (hr.counts.exact_iff .read) (hr.counts.exact_iff .write)

/-- A read of 64 bytes. -/
def read64 : Payload := { LoneMem.request .read 8 0 with dataLength := 64 }

/-- Two reads, of which one has completed. -/
def twoReads : RecordedMem :=
  runSkip (step 0) anyStep init
    [.request read64, .request read64, .step .peq 1, .step .peq 1, .step .posedge 1,
      .step .posedge 1, .step (.simulateDram true 3) 1, .step (.complete 0) 1,
      .step (.simulateDram true 8) 1]

theorem report_exact_of_twoReads : (twoReads.1.stats.report .read).Exact ⟨2, 128, 5⟩ := by
  have hr : ReachableRecorded 0 twoReads := reach_runSkip _ _
  have hread : MemSums.ofRecords .read twoReads.2 = ⟨2, 128, 5⟩ := by decide +kernel
  have hwrite : MemSums.ofRecords .write twoReads.2 = ⟨0, 0, 0⟩ := by decide +kernel
  have hfits : (MemSums.ofRecords .read twoReads.2).Fits ∧
      (MemSums.ofRecords .write twoReads.2).Fits := by
    rw [hread, hwrite]
    exact ⟨⟨by decide, .inl (by decide), by decide, .inl (by decide)⟩,
      by decide, .inl (by decide), by decide, .inl (by decide)⟩
  rw [← hread]
  exact ((report_exact_iff hr).mpr hfits).1

/-- One more read of 64 bytes, which the DRAM does not take. -/
theorem refused_read64 (q : List Payload) (k : Nat) (stats : Statistics) (times : Nat → Nat)
    (rs : List MemRecord) : ∃ stats' times',
    run (step 0) (LoneMem.refusing q k stats times, rs)
        [.request read64, .step .peq 1, .step .posedge 1, .step (.simulateDram false 0) 1] =
      .ok (LoneMem.refusing (q ++ [read64.bare]) (u32 (k + 1)) stats' times',
        rs ++ [] ++ [] ++ [.request .read 64]) := by
  cases q with
  | nil => exact ⟨_, _, rfl⟩
  | cons p q => exact ⟨_, _, rfl⟩

theorem refused_reads64 (n : Nat) : ∃ q k stats times rs,
    ReachableRecorded 0 (LoneMem.refusing q k stats times, rs) ∧
      MemSums.ofRecords .read rs = ⟨n, 64 * n, 0⟩ := by
  induction n with
  | zero => exact ⟨[], 0, _, _, [], .refl, rfl⟩
  | succ n ih =>
      obtain ⟨q, k, stats, times, rs, hr, hsums⟩ := ih
      obtain ⟨stats', times', hrun⟩ := refused_read64 q k stats times rs
      refine ⟨_, _, stats', times', _, reach_run hr hrun, ?_⟩
      rw [MemSums.ofRecords_concat, List.append_nil, List.append_nil, hsums]
      rfl

/-- 2^26 reads of 64 bytes, reported with a total and an average size of 0. -/
theorem total_size_wraps : ∃ s, ReachableRecorded 0 s ∧
    MemSums.ofRecords .read s.2 = ⟨67108864, 4294967296, 0⟩ ∧
    (s.1.stats.report .read).totalSize = 0 ∧ (s.1.stats.report .read).averageSize = 0 ∧
    ¬ (s.1.stats.report .read).Exact (MemSums.ofRecords .read s.2) := by
  obtain ⟨q, k, stats, times, rs, hr, hsums⟩ := refused_reads64 67108864
  have hcounts := hr.counts .read
  rw [hsums] at hcounts
  have hreport := Statistics.report_eq (LoneMem.refusing q k stats times).stats .read
  rw [hcounts] at hreport
  refine ⟨_, hr, hsums, ?_, ?_, fun hexact => ?_⟩
  · rw [hreport]
    rfl
  · rw [hreport]
    rfl
  · have := hexact.totalSize
    rw [hreport, hsums] at this
    exact absurd this (by decide)

end RecordedMem

end TSim4CXL
