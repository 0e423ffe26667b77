/-
  The latencies a MEMWrapper measures.

  `simulate_dram` keeps the time at which a request was handed to the bridge in a map keyed by its
  address, and `update_trans_delay` subtracts what it finds there. `latency_measured`: the totals
  are those of the requests as long as none is handed to the bridge while another one of its
  command and address, handed over at another time, is in flight. Otherwise the later time counts
  for both (`same_address_reads`).
-/
import TSim4CXL.Properties.MemConservation
import Mathlib.Algebra.Ring.Int.Defs

namespace TSim4CXL

open Transition

namespace MemWrapper

/-- The start times of a command. -/
def transMap (m : MemWrapper) : Command → Nat → Nat
  | .read => m.rTransMap
  | .write => m.wTransMap

/-- The total latency of a command. -/
def totalLatency (m : MemWrapper) : Command → Nat
  | .read => m.stats.totalReadLatency
  | .write => m.stats.totalWriteLatency

/-- The difference of two times in `uint32_t`. -/
def elapsed (now start : Nat) : Nat := u32 (now + 4294967296 - u32 start)

/-- What `update_trans_delay` adds for a request. -/
def delay (now : Nat) (m : MemWrapper) (p : Payload) : Nat :=
  elapsed now (m.transMap p.command (u32 p.address))

end MemWrapper

/-! ## A MEMWrapper with the true times -/

/-- A MEMWrapper whose requests carry the time at which they were handed to the bridge: those in
    `in_queue`, in the DRAM and in `out_queue`, and the ones collected with both times. -/
structure TimedMem where
  wrapper : MemWrapper
  bridge : List (Payload × Nat)
  dram : List (Payload × Nat)
  out : List (Payload × Nat)
  measured : List (Payload × Nat × Nat)

namespace TimedMem

def init : TimedMem := ⟨MemWrapper.init, [], [], [], []⟩

/-- `simulate_dram` collects a completed request at `now`. -/
def collect (now : Nat) (s : TimedMem) : TimedMem :=
  { s with
    wrapper := s.wrapper.collect now
    out := s.out.drop 1
    measured := s.measured ++ (s.out.take 1).map fun r => (r.1, r.2, now) }

/-- It hands all of `mem_request` to the bridge. -/
def issue (now : Nat) (s : TimedMem) : TimedMem :=
  { s with
    wrapper := s.wrapper.issue now
    bridge := s.bridge ++ s.wrapper.memRequest.map fun p => (p, now) }

/-- The DRAM may take the first request of the bridge. -/
def clockTick (d : Nat) (accept : Bool) (s : TimedMem) : TimedMem :=
  { s with
    wrapper := (s.wrapper.clockTick d accept).1
    bridge := if accept then s.bridge.drop 1 else s.bridge
    dram := if accept then s.dram ++ s.bridge.take 1 else s.dram }

/-- The DRAM completes request `i`. -/
def complete (i : Nat) (s : TimedMem) : TimedMem :=
  { s with dram := s.dram.eraseIdx i, out := s.out ++ s.dram[i]?.toList }

/-- The times move as the requests do. -/
def follow (d : Nat) (s : TimedMem) : MemWrapper.Act → TimedMem
  | .simulateDram accept now => ((s.collect now).issue now).clockTick d accept
  | .complete i => s.complete i
  | _ => s

def step (d : Nat) (s : TimedMem) : LoneMemAct → Except Fault TimedMem
  | .step a activeCores =>
      match s.wrapper.act d activeCores (LoneHost.load fun _ => s.wrapper.memData) a with
      | .ok (m, _) => .ok { s.follow d a with wrapper := m }
      | .error e => .error e
  | .request p => .ok { s with wrapper := s.wrapper.nbTransportFw p }

/-- The requests handed to the bridge and not collected. -/
def inFlight (s : TimedMem) : List (Payload × Nat) := s.bridge ++ s.dram ++ s.out

/-- The times of the collected requests of a command, from the bridge to `simulate_dram`. -/
def latencies (s : TimedMem) (c : Command) : List Int :=
  (s.measured.filter fun r => r.1.command = c).map fun r => (r.2.2 : Int) - r.2.1

/-- The time fits the `int` it is converted to, and a request in flight, unless it is collected now,
    has another command or address than the requests handed to the bridge, or was handed over
    at the same time. -/
def Apart (s : TimedMem) : LoneMemAct → Prop
  | .step (.simulateDram _ now) _ =>
      now < 2147483648 ∧ ∀ p ∈ s.wrapper.memRequest, ∀ r ∈ s.bridge ++ s.dram ++ s.out.drop 1,
        r.1.command = p.command → u32 r.1.address = u32 p.address → r.2 = now
  | _ => True

instance (s : TimedMem) (a : LoneMemAct) : Decidable (Apart s a) := by
  unfold Apart
  split <;> infer_instance

end TimedMem

/-! ## The stages of simulate_dram -/

namespace MemWrapper

variable {now : Nat} {m : MemWrapper}

theorem collect_nil (h : m.outQueue = []) : m.collect now = m := by
  simp only [collect, h]

/-- `update_read_latency` or `update_write_latency`, by the command. -/
def updateLatency (m : MemWrapper) (c : Command) (latency : Nat) : MemWrapper :=
  match c with
  | .read => { m with stats := m.stats.updateReadLatency latency }
  | .write => { m with stats := m.stats.updateWriteLatency latency }

theorem updateLatency_total (m : MemWrapper) (c c' : Command) (latency : Nat) :
    (m.updateLatency c latency).totalLatency c' =
      if c = c' then u32 (m.totalLatency c' + latency) else m.totalLatency c' := by
  cases c <;> cases c' <;> rfl

theorem updateTransDelay_eq (m : MemWrapper) (p : Payload) :
    updateTransDelay now m p = m.updateLatency p.command (m.delay now p) := by
  unfold updateTransDelay delay elapsed transMap
  cases p.command <;> rfl

theorem updateLatency_frame (m : MemWrapper) (c : Command) (latency : Nat) :
    (m.updateLatency c latency).outQueue = m.outQueue ∧ (m.updateLatency c latency).dram = m.dram ∧
      (m.updateLatency c latency).transMap = m.transMap := by
  cases c <;> exact ⟨rfl, rfl, funext fun c => by cases c <;> rfl⟩

/-- The front of `out_queue` goes to the acks. -/
def gather (m : MemWrapper) (p : Payload) : MemWrapper :=
  match p.command with
  | .read => { m with outQueue := m.outQueue.drop 1, rackQueue := m.rackQueue ++ [p] }
  | .write => { m with outQueue := m.outQueue.drop 1, wackQueue := m.wackQueue ++ [p] }

theorem gather_frame (m : MemWrapper) (p : Payload) :
    (m.gather p).outQueue = m.outQueue.drop 1 ∧ (m.gather p).dram = m.dram ∧
      (m.gather p).transMap = m.transMap ∧ (m.gather p).totalLatency = m.totalLatency := by
  unfold gather
  split <;> exact ⟨rfl, rfl, funext fun c => by cases c <;> rfl, funext fun c => by cases c <;> rfl⟩

theorem collect_cons {p : Payload} {q : List Payload} (h : m.outQueue = p :: q) :
    m.collect now = (m.gather p).updateLatency p.command (m.delay now p) := by
  have hmap : (m.gather p).delay now p = m.delay now p := by
    rw [delay, (gather_frame m p).2.2.1, delay]
  rw [← hmap, ← updateTransDelay_eq]
  cases hp : p.command <;>
    simp only [collect, h, gather, hp, List.drop_succ_cons, List.drop_zero]

/-- Collecting a request changes no start time. -/
theorem collect_frame (now : Nat) (m : MemWrapper) :
    (m.collect now).outQueue = m.outQueue.drop 1 ∧ (m.collect now).dram = m.dram ∧
      (m.collect now).transMap = m.transMap := by
  cases h : m.outQueue with
  | nil => rw [collect_nil h, h]; exact ⟨rfl, rfl, rfl⟩
  | cons p q =>
      obtain ⟨u1, u2, u3⟩ := updateLatency_frame (m.gather p) p.command (m.delay now p)
      obtain ⟨g1, g2, g3, -⟩ := gather_frame m p
      rw [collect_cons h, ← h]
      exact ⟨u1.trans g1, u2.trans g2, u3.trans g3⟩

/-- It adds the delay of the request to the total of its command. -/
theorem collect_total {p : Payload} {q : List Payload} (h : m.outQueue = p :: q) (c : Command) :
    (m.collect now).totalLatency c =
      if p.command = c then u32 (m.totalLatency c + m.delay now p) else m.totalLatency c := by
  rw [collect_cons h, updateLatency_total, (gather_frame m p).2.2.2]

theorem sendCommand_transMap (m : MemWrapper) (p : Payload) (c : Command) (a : Nat) :
    (sendCommand now m p).transMap c a =
      if p.command = c ∧ u32 p.address = a then u32 now else m.transMap c a := by
  unfold sendCommand recordRequest
  cases hp : p.command <;> cases c <;> simp [transMap, setTime, eq_comm]

theorem sendCommand_frame (now : Nat) (m : MemWrapper) (p : Payload) :
    (sendCommand now m p).outQueue = m.outQueue ∧ (sendCommand now m p).dram = m.dram ∧
      (sendCommand now m p).totalLatency = m.totalLatency := by
  unfold sendCommand recordRequest
  split <;> exact ⟨rfl, rfl, funext fun c => by cases c <;> rfl⟩

theorem issue_frame (now : Nat) (m : MemWrapper) :
    (m.issue now).outQueue = m.outQueue ∧ (m.issue now).dram = m.dram ∧
      (m.issue now).totalLatency = m.totalLatency := by
  suffices h : ∀ (ps : List Payload) (m : MemWrapper),
      (ps.foldl (sendCommand now) m).outQueue = m.outQueue ∧
        (ps.foldl (sendCommand now) m).dram = m.dram ∧
        (ps.foldl (sendCommand now) m).totalLatency = m.totalLatency from
    h m.memRequest { m with memRequest := [] }
  intro ps
  induction ps with
  | nil => exact fun m => ⟨rfl, rfl, rfl⟩
  | cons p ps ih =>
      intro m
      obtain ⟨f1, f2, f3⟩ := sendCommand_frame now m p
      obtain ⟨h1, h2, h3⟩ := ih (sendCommand now m p)
      exact ⟨h1.trans f1, h2.trans f2, h3.trans f3⟩

/-- The start times of the requests handed to the bridge are all `now`. -/
theorem issue_transMap (now : Nat) (m : MemWrapper) (c : Command) (a : Nat) :
    (m.issue now).transMap c a =
      if ∃ p ∈ m.memRequest, p.command = c ∧ u32 p.address = a then
        u32 now else m.transMap c a := by
  suffices h : ∀ (ps : List Payload) (m : MemWrapper), (ps.foldl (sendCommand now) m).transMap c a =
      if ∃ p ∈ ps, p.command = c ∧ u32 p.address = a then u32 now else m.transMap c a from
    h m.memRequest { m with memRequest := [] }
  intro ps
  induction ps with
  | nil => simp
  | cons p ps ih =>
      intro m
      rw [List.foldl_cons, ih, sendCommand_transMap]
      by_cases hps : ∃ p ∈ ps, p.command = c ∧ u32 p.address = a
      · rw [if_pos hps, if_pos (hps.imp fun _ h => ⟨List.mem_cons_of_mem p h.1, h.2⟩)]
      · simp only [hps, if_false, List.mem_cons, or_and_right, exists_or, exists_eq_left, or_false]

theorem clockTick_frame (d : Nat) (accept : Bool) (m : MemWrapper) :
    (m.clockTick d accept).1.inQueue = (if accept then m.inQueue.drop 1 else m.inQueue) ∧
      (m.clockTick d accept).1.dram = (if accept then m.dram ++ m.inQueue.take 1 else m.dram) ∧
      (m.clockTick d accept).1.outQueue = m.outQueue ∧
      (m.clockTick d accept).1.transMap = m.transMap ∧
      (m.clockTick d accept).1.totalLatency = m.totalLatency := by
  cases h : m.inQueue with
  | nil => cases accept <;> simp [clockTick, h]
  | cons p q =>
      cases accept
      · simp [clockTick, h]
      · simp only [clockTick, h, if_true, List.drop_succ_cons, List.drop_zero, List.take_succ_cons,
          List.take_zero, true_and]
        exact ⟨funext fun c => by cases c <;> rfl, funext fun c => by cases c <;> rfl⟩

end MemWrapper

/-! ## The invariant -/

namespace TimedMem

variable {d now : Nat} {s s' : TimedMem}

/-- The times belong to the requests in the queues, each request in flight finds its own in the
    map, and the totals are those of the requests collected. -/
structure Inv (s : TimedMem) : Prop where
  bridge : s.bridge.map Prod.fst = s.wrapper.inQueue
  dram : s.dram.map Prod.fst = s.wrapper.dram
  out : s.out.map Prod.fst = s.wrapper.outQueue
  started : ∀ r ∈ s.inFlight, s.wrapper.transMap r.1.command (u32 r.1.address) = u32 r.2
  total : ∀ c, (s.wrapper.totalLatency c : Int) = (s.latencies c).sum % 4294967296

theorem elapsed_u32 (now t : Nat) :
    (MemWrapper.elapsed now (u32 t) : Int) = ((now : Int) - t) % 4294967296 := by
  unfold MemWrapper.elapsed u32
  omega

theorem u32_add (a b : Nat) : (u32 (a + b) : Int) = ((a : Int) + b) % 4294967296 := by
  unfold u32
  omega

/-- The latency of a request joins those of its command. -/
theorem latencies_concat (r : Payload × Nat × Nat) (c : Command) :
    ((TimedMem.mk s.wrapper s.bridge s.dram s.out (s.measured ++ [r])).latencies c).sum =
      (s.latencies c).sum + if r.1.command = c then (r.2.2 : Int) - r.2.1 else 0 := by
  simp only [latencies, List.filter_append, List.map_append, List.sum_append]
  by_cases hc : r.1.command = c <;> simp [hc]

theorem Inv.collect (h : Inv s) : Inv (s.collect now) := by
  obtain ⟨f1, f2, f3⟩ := MemWrapper.collect_frame now s.wrapper
  have hq := (MemWrapper.collect_queues now s.wrapper).1
  refine ⟨h.bridge.trans hq.symm, h.dram.trans f2.symm, ?_, fun r hr => ?_, fun c => ?_⟩
  · rw [TimedMem.collect, f1, ← h.out, List.map_drop]
  · rw [TimedMem.collect, f3]
    refine h.started r ?_
    simp only [inFlight, TimedMem.collect, List.mem_append] at hr ⊢
    exact hr.imp_right List.mem_of_mem_drop
  · cases hout : s.out with
    | nil =>
        have hnil : s.wrapper.outQueue = [] := by rw [← h.out, hout, List.map_nil]
        simpa [TimedMem.collect, hout, MemWrapper.collect_nil hnil, latencies] using h.total c
    | cons r q =>
        have hcons : s.wrapper.outQueue = r.1 :: q.map Prod.fst := by
          rw [← h.out, hout, List.map_cons]
        have hr : s.wrapper.transMap r.1.command (u32 r.1.address) = u32 r.2 :=
          h.started r (by simp [inFlight, hout])
        have htotal := h.total c
        have hdelay := elapsed_u32 now r.2
        have hsum := latencies_concat (s := s) (r.1, r.2, now) c
        simp only [TimedMem.collect, hout, List.take_succ_cons, List.take_zero, List.map_cons,
          List.map_nil, MemWrapper.collect_total hcons, MemWrapper.delay, hr]
        simp only [latencies] at hsum htotal ⊢
        rw [hsum]
        by_cases hc : r.1.command = c
        · rw [if_pos hc, if_pos hc, u32_add]
          omega
        · rw [if_neg hc, if_neg hc]
          omega

theorem Inv.issue (h : Inv s) (hapart : ∀ p ∈ s.wrapper.memRequest, ∀ r ∈ s.inFlight,
    r.1.command = p.command → u32 r.1.address = u32 p.address → r.2 = now) :
    Inv (s.issue now) := by
  obtain ⟨f1, f2, f3⟩ := MemWrapper.issue_frame now s.wrapper
  have hq := (MemWrapper.issue_queues now s.wrapper).1
  refine ⟨?_, h.dram.trans f2.symm, h.out.trans f1.symm, fun r hr => ?_, fun c => ?_⟩
  · simp [TimedMem.issue, hq, h.bridge, Function.comp_def]
  · have hr' : r ∈ s.inFlight ∨ ∃ p ∈ s.wrapper.memRequest, (p, now) = r := by
      simp only [inFlight, TimedMem.issue, List.mem_append, List.mem_map] at hr ⊢
      tauto
    rw [TimedMem.issue, MemWrapper.issue_transMap]
    split
    · rename_i hsame
      obtain ⟨p, hp, hc, ha⟩ := hsame
      rcases hr' with hr' | ⟨q, -, rfl⟩
      · rw [hapart p hp r hr' hc.symm ha.symm]
      · rfl
    · rename_i hother
      rcases hr' with hr' | ⟨p, hp, rfl⟩
      · exact h.started r hr'
      · exact absurd ⟨p, hp, rfl, rfl⟩ hother
  · rw [TimedMem.issue, f3]
    exact h.total c

theorem Inv.clockTick {accept : Bool} (h : Inv s) : Inv (s.clockTick d accept) := by
  obtain ⟨f1, f2, f3, f4, f5⟩ := MemWrapper.clockTick_frame d accept s.wrapper
  refine ⟨?_, ?_, h.out.trans f3.symm, fun r hr => ?_, fun c => ?_⟩
  · rw [TimedMem.clockTick, f1, ← h.bridge]
    cases accept <;> simp
  · rw [TimedMem.clockTick, f2, ← h.dram, ← h.bridge]
    cases accept <;> simp
  · rw [TimedMem.clockTick, f4]
    refine h.started r ?_
    cases accept with
    | false => exact hr
    | true =>
        simp only [inFlight, TimedMem.clockTick, if_true, List.mem_append] at hr ⊢
        rcases hr with (hr | hr | hr) | hr
        · exact .inl (.inl (List.mem_of_mem_drop hr))
        · exact .inl (.inr hr)
        · exact .inl (.inl (List.mem_of_mem_take hr))
        · exact .inr hr
  · rw [TimedMem.clockTick, f5]
    exact h.total c

/-- The wrapper may change wherever the times do not look. -/
theorem Inv.congr {m : MemWrapper} (h : Inv s) (h1 : m.inQueue = s.wrapper.inQueue)
    (h2 : m.dram = s.wrapper.dram) (h3 : m.outQueue = s.wrapper.outQueue)
    (h4 : m.transMap = s.wrapper.transMap) (h5 : m.totalLatency = s.wrapper.totalLatency) :
    Inv { s with wrapper := m } :=
  ⟨h.bridge.trans h1.symm, h.dram.trans h2.symm, h.out.trans h3.symm,
    fun r hr => by rw [h4]; exact h.started r hr, fun c => by rw [h5]; exact h.total c⟩

/-- Only an iteration of `simulate_dram` and a completion move a request in flight. -/
theorem Inv.act {a : MemWrapper.Act} {n : Nat} {load : DataPtr → Nat → List UInt8} {m : MemWrapper}
    {es : List Event} (h : Inv s) (hapart : Apart s (.step a n))
    (ha : s.wrapper.act d n load a = .ok (m, es)) : Inv { s.follow d a with wrapper := m } := by
  cases a with
  | peq =>
      simp only [MemWrapper.act, MemWrapper.peqCb] at ha
      split at ha
      · cases ha
      · split at ha <;> cases ha <;> exact h.congr rfl rfl rfl rfl rfl
  | posedge => cases ha; exact h.congr rfl rfl rfl rfl rfl
  | negedge => cases ha; exact h.congr rfl rfl rfl rfl rfl
  | simulateDram accept now =>
      have hi : Inv (((s.collect now).issue now).clockTick d accept) := by
        refine Inv.clockTick (h.collect.issue fun p hp r hr => ?_)
        rw [TimedMem.collect, (MemWrapper.collect_queues now s.wrapper).2] at hp
        exact hapart.2 p hp r hr
      simp only [MemWrapper.act, MemWrapper.simulateDram] at ha
      split at ha
      · split at ha
        · cases ha
          exact hi.congr rfl rfl rfl rfl rfl
        · obtain rfl : _ = m := congrArg Prod.fst (Except.ok.inj ha)
          exact hi
      · cases ha
  | complete i =>
      simp only [MemWrapper.act, MemWrapper.complete] at ha
      split at ha
      · split at ha
        · cases ha
        · rename_i p hp
          cases ha
          refine ⟨h.bridge, ?_, ?_, fun r hr => h.started r ?_, h.total⟩
          · rw [follow, TimedMem.complete, ← h.dram, List.eraseIdx_map]
          · rw [← h.dram, List.getElem?_map] at hp
            obtain ⟨r, hr, rfl⟩ := Option.map_eq_some_iff.mp hp
            simp [follow, TimedMem.complete, hr, h.out]
          · simp only [follow, TimedMem.complete, inFlight, List.mem_append, Option.mem_toList]
              at hr ⊢
            rcases hr with (hr | hr) | hr | hr
            · exact .inl (.inl hr)
            · exact .inl (.inr (List.mem_of_mem_eraseIdx hr))
            · exact .inr hr
            · exact .inl (.inr (List.mem_of_getElem? hr))
      · cases ha

/-- The runs in which no request is handed over at another time than one of its command and address
    that is in flight. -/
def ReachableApart (d : Nat) (s : TimedMem) : Prop := Reach (step d) Apart init s

theorem ReachableApart.inv (hr : ReachableApart d s) : Inv s := by
  refine Reach.invariant ?_ (fun s a s' _ hapart ih hs => ?_) hr
  · exact ⟨rfl, rfl, rfl, by simp [inFlight, init], fun c => by cases c <;> rfl⟩
  · cases a with
    | step a n =>
        simp only [step] at hs
        split at hs
        · rename_i ha
          cases hs
          exact ih.act hapart ha
        · cases hs
    | request p => cases hs; exact ih.congr rfl rfl rfl rfl rfl

/-! ## The totals -/

/-- The totals are the sums of the times from the bridge to `simulate_dram`. -/
theorem latency_measured (hr : ReachableApart d s) :
    (s.wrapper.stats.totalReadLatency : Int) = (s.latencies .read).sum % 4294967296 ∧
      (s.wrapper.stats.totalWriteLatency : Int) = (s.latencies .write).sum % 4294967296 :=
  ⟨hr.inv.total .read, hr.inv.total .write⟩

/-- A request of `c`, out of the event queue and into `mem_request`. -/
def arrive (c : Command) (address chunk : Nat) : List LoneMemAct :=
  [.request (LoneMem.request c address chunk), .step .peq 1, .step .posedge 1]

/-- Two reads of address 8, one after the other, around a write of it. -/
def apartRun : TimedMem :=
  runSkip (step 0) Apart init
    (arrive .read 8 0 ++ arrive .write 8 1 ++
      [.step (.simulateDram true 5) 1, .step (.simulateDram true 6) 1, .step (.complete 1) 1,
        .step (.complete 0) 1, .step (.simulateDram true 9) 1] ++ arrive .read 8 2 ++
      [.step (.simulateDram true 11) 1, .step (.complete 0) 1, .step (.simulateDram true 20) 1])

theorem latency_measured_of_apartRun : apartRun.latencies .read = [6, 9] ∧
    (apartRun.wrapper.stats.totalReadLatency : Int) = 15 := by
  have hr : ReachableApart 0 apartRun := reach_runSkip _ _
  have hlat : apartRun.latencies .read = [6, 9] := by decide +kernel
  refine ⟨hlat, ?_⟩
  rw [(latency_measured hr).1, hlat]
  rfl

/-- Two reads of address 8, handed over at 5 and 7 and collected at 10 and 12. -/
def overlapRun : TimedMem :=
  runSkip (step 0) anyStep init
    (arrive .read 8 0 ++ [.step (.simulateDram true 5) 1] ++ arrive .read 8 1 ++
      [.step (.simulateDram true 7) 1, .step (.complete 0) 1, .step (.complete 0) 1,
        .step (.simulateDram true 10) 1, .step (.simulateDram true 12) 1])

/-- The second read's time counts for both: 3 and 5 instead of 5 and 5. -/
theorem same_address_reads : ∃ s, Reach (step 0) anyStep init s ∧ s.latencies .read = [5, 5] ∧
    s.wrapper.stats.totalReadLatency = 8 ∧
    (s.wrapper.stats.totalReadLatency : Int) ≠ (s.latencies .read).sum % 4294967296 :=
  ⟨overlapRun, reach_runSkip _ _, by decide +kernel, by decide +kernel, by decide +kernel⟩

end TimedMem

end TSim4CXL
