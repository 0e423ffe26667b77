/-
  A MEMWrapper and its Bridge, on their own: no request is lost or answered twice.

  Any payload may arrive at any time, and Ramulator may refuse and reorder as it likes.
  `requests_conserved`: every request is in exactly one queue or answered once, and the DRAM
  accepts the requests in the order in which they entered `mem_request`. `m_outstanding` is a
  `uint32_t`, so it counts the requests between the two modulo 2^32 (`outstanding_wraps`).
-/
import TSim4CXL.Model.LoneHost
import TSim4CXL.Trace.MemWrapper

namespace TSim4CXL

open Transition

/-! ## A MEMWrapper on its own -/

/-- A MEMWrapper, its log, and the requests that ever entered `mem_request`, in this order. -/
structure LoneMem where
  wrapper : MemWrapper
  log : List Event
  entered : List Payload

/-- What can happen: a step of the MEMWrapper, which finds `active_cores` as given, or a request
    of the controller. -/
inductive LoneMemAct
  | step (a : MemWrapper.Act) (activeCores : Nat)
  | request (p : Payload)

namespace LoneMem

def init : LoneMem := ⟨MemWrapper.init, [], []⟩

/-- What a rising edge has put behind `mem_request`. -/
def enters (m m' : MemWrapper) : MemWrapper.Act → List Payload
  | .posedge => m'.memRequest.drop m.memRequest.length
  | _ => []

def step (d : Nat) (s : LoneMem) : LoneMemAct → Except Fault LoneMem
  | .step a activeCores =>
      match s.wrapper.act d activeCores (LoneHost.load fun _ => s.wrapper.memData) a with
      | .ok (m, es) => .ok ⟨m, s.log ++ es, s.entered ++ enters s.wrapper m a⟩
      | .error e => .error e
  | .request p => .ok ⟨s.wrapper.nbTransportFw p, s.log ++ [.call (.memFw d) p], s.entered⟩

/-- The states of all runs of MEMWrapper `d`. -/
def ReachableMem (d : Nat) (s : LoneMem) : Prop := Reach (step d) anyStep init s

variable {d : Nat}

def view (d : Nat) : View (MemWrapper.component d) (step d) LoneMem.log where
  comp := LoneMem.wrapper
  covers {s a s'} hs := by
    cases a with
    | step a n =>
        simp only [step] at hs
        split at hs
        · rename_i ha
          cases hs
          exact ⟨_, rfl, .inl (MemWrapper.act_chain (fun _ _ => rfl) ha)⟩
        · cases hs
    | request p =>
        cases hs
        refine ⟨_, rfl, .inr ⟨?_, ?_⟩⟩
        · intro e he
          rw [List.mem_singleton.mp he]
          simp [MemWrapper.component, Event.source, Chan.source]
        · simp [MemWrapper.component, MemWrapper.hear]

theorem ReachableMem.always {P : MemWrapper → List Event → Prop} {s : LoneMem}
    (hr : ReachableMem d s) (hP : (MemWrapper.component d).Closed P) (h0 : P MemWrapper.init []) :
    P s.wrapper s.log :=
  (view d).always hP (by exact h0) hr

end LoneMem

/-! ## The order of the requests -/

namespace MemWrapper

variable {d : Nat}

theorem collect_queues (now : Nat) (m : MemWrapper) :
    (m.collect now).inQueue = m.inQueue ∧ (m.collect now).memRequest = m.memRequest := by
  unfold collect
  split
  · exact ⟨rfl, rfl⟩
  · split <;> rename_i hc <;> simp only [updateTransDelay, hc, and_self]

theorem sendCommand_inQueue (now : Nat) (m : MemWrapper) (p : Payload) :
    (sendCommand now m p).inQueue = m.inQueue ++ [p] := by
  unfold sendCommand recordRequest
  split <;> rfl

/-- The loop empties `mem_request` into the bridge. -/
theorem issue_queues (now : Nat) (m : MemWrapper) :
    (m.issue now).inQueue = m.inQueue ++ m.memRequest ∧ (m.issue now).memRequest = [] := by
  suffices h : ∀ (ps : List Payload) (m : MemWrapper),
      (ps.foldl (sendCommand now) m).inQueue = m.inQueue ++ ps ∧
        (ps.foldl (sendCommand now) m).memRequest = m.memRequest from
    h m.memRequest { m with memRequest := [] }
  intro ps
  induction ps with
  | nil => exact fun m => ⟨(List.append_nil _).symm, rfl⟩
  | cons p ps ih =>
      intro m
      obtain ⟨h1, h2⟩ := ih (sendCommand now m p)
      rw [sendCommand_inQueue, List.append_assoc] at h1
      rw [sendCommand_memRequest] at h2
      exact ⟨h1, h2⟩

/-- A tick moves a request from the bridge to the DRAM, or none. -/
theorem clockTick_queues (accept : Bool) (m : MemWrapper) :
    sent (.accept d) (m.clockTick d accept).2 ++ (m.clockTick d accept).1.inQueue = m.inQueue ∧
      (m.clockTick d accept).1.memRequest = m.memRequest := by
  unfold clockTick
  split
  · exact ⟨rfl, rfl⟩
  · rename_i hq
    split
    · exact ⟨by simp [hq], rfl⟩
    · exact ⟨by simp, rfl⟩

theorem simulateDram_queues {activeCores now : Nat} {accept : Bool} {m m' : MemWrapper}
    {es : List Event} (hs : m.simulateDram d activeCores accept now = .ok (m', es)) :
    sent (.accept d) es ++ m'.inQueue ++ m'.memRequest = m.inQueue ++ m.memRequest := by
  obtain ⟨c1, c2⟩ := collect_queues now m
  obtain ⟨i1, i2⟩ := issue_queues now (m.collect now)
  obtain ⟨t1, t2⟩ := clockTick_queues (d := d) accept ((m.collect now).issue now)
  have htick : sent (.accept d) (((m.collect now).issue now).clockTick d accept).2 ++
      (((m.collect now).issue now).clockTick d accept).1.inQueue ++
        (((m.collect now).issue now).clockTick d accept).1.memRequest =
          m.inQueue ++ m.memRequest := by
    rw [t1, t2, i1, i2, c1, c2, List.append_nil]
  unfold simulateDram at hs
  split at hs
  · dsimp only at hs
    split at hs
    · cases hs
      simpa using htick
    · rw [Except.ok.injEq] at hs
      rwa [hs] at htick
  · cases hs

/-- What a step does to the requests from `mem_request` to the DRAM: a rising edge adds some, and
    their order stays. -/
theorem act_queues {activeCores : Nat} {load : DataPtr → Nat → List UInt8} {m m' : MemWrapper}
    {a : Act} {es : List Event} (hs : m.act d activeCores load a = .ok (m', es)) :
    sent (.accept d) es ++ m'.inQueue ++ m'.memRequest =
      m.inQueue ++ m.memRequest ++ LoneMem.enters m m' a := by
  cases a with
  | peq =>
      simp only [act, peqCb] at hs
      split at hs
      · cases hs
      · split at hs <;> cases hs <;> simp [LoneMem.enters]
  | posedge =>
      cases hs
      simp [LoneMem.enters, clockPosedge]
  | negedge =>
      cases hs
      simp only [sent_map_call, reduceCtorEq, if_false, LoneMem.enters, List.nil_append,
        List.append_nil]
  | simulateDram accept now =>
      rw [simulateDram_queues hs]
      simp [LoneMem.enters]
  | complete i =>
      simp only [act, complete] at hs
      split at hs
      · split at hs <;> cases hs
        simp [LoneMem.enters]
      · cases hs

end MemWrapper

namespace LoneMem

variable {d : Nat}

/-- What entered `mem_request`: first what the DRAM has accepted, then what the bridge holds, then
    what is still there. -/
theorem ReachableMem.entered_eq {s : LoneMem} (hr : ReachableMem d s) :
    s.entered = sent (.accept d) s.log ++ s.wrapper.inQueue ++ s.wrapper.memRequest := by
  refine Reach.invariant (P := fun s : LoneMem =>
    s.entered = sent (.accept d) s.log ++ s.wrapper.inQueue ++ s.wrapper.memRequest) rfl ?_ hr
  intro s a s' _ _ ih hs
  cases a with
  | step a n =>
      simp only [step] at hs
      split at hs
      · rename_i m es ha
        cases hs
        have hq := MemWrapper.act_queues ha
        simp only [List.append_assoc] at ih hq
        simp only [sent_append, List.append_assoc, hq, ih]
      · cases hs
  | request p =>
      cases hs
      simpa [MemWrapper.nbTransportFw] using ih

/-! ## Conservation -/

/-- Every request is in one of the queues or answered: what has arrived, up to order and data
    pointers. -/
theorem requests_conserved {s : LoneMem} (hr : ReachableMem d s) :
    ((sent (.memFw d) s.log).map Payload.bare).Perm
        ((s.wrapper.peq ++ s.wrapper.rQueue ++ s.wrapper.wQueue ++ s.wrapper.memRequest ++
          s.wrapper.inQueue ++ s.wrapper.dram ++ s.wrapper.outQueue ++ s.wrapper.rackQueue ++
          s.wrapper.wackQueue ++ sent (.ctrlBw d) s.log).map Payload.bare) ∧
      s.entered = sent (.accept d) s.log ++ s.wrapper.inQueue ++ s.wrapper.memRequest ∧
      s.wrapper.mOutstanding = u32 s.wrapper.issued.length ∧
      (s.wrapper.issued.length < 4294967296 → s.wrapper.mOutstanding = s.wrapper.issued.length ∧
        (s.wrapper.rackQueue.take 1 ++ s.wrapper.wackQueue.take 1).length ≤
          s.wrapper.mOutstanding) := by
  have hqueue : MemWrapper.Queue d s.wrapper s.log := hr.always MemWrapper.memQueue_closed rfl
  have hflow := (hr.always MemWrapper.memFlow_closed ⟨List.Perm.refl _, List.Perm.refl _⟩).1
  have hout : MemWrapper.Outstanding s.wrapper := hr.always MemWrapper.memOutstanding_closed rfl
  refine ⟨?_, hr.entered_eq, hout, fun hlt => ?_⟩
  · rw [hqueue, List.map_append]
    refine (hflow.append_right _).trans (List.perm_iff_count.mpr fun p => ?_)
    simp only [MemWrapper.contents, MemWrapper.issued, MemWrapper.completed, List.map_append,
      List.count_append]
    omega
  · have hexact : s.wrapper.mOutstanding = s.wrapper.issued.length :=
      hout.trans (Nat.mod_eq_of_lt hlt)
    refine ⟨hexact, ?_⟩
    rw [hexact]
    simp only [MemWrapper.issued, MemWrapper.completed, List.length_append, List.length_take]
    omega

/-! ## Concrete runs -/

/-- A request for two bytes. -/
def request (c : Command) (address chunk : Nat) : Payload where
  address := address
  command := c
  dataLength := 2
  id := 0
  deviceId := 0
  dataPtr := .buffer [7, 7]
  packet := 0
  chunk := chunk

/-- Two reads and a write; the DRAM refuses once and completes the second read first. -/
def reorderedRun : LoneMem :=
  runSkip (step 0) anyStep init
    ([.request (request .read 8 0), .request (request .read 10 1), .request (request .write 12 0),
      .step .peq 1, .step .peq 1, .step .peq 1, .step .posedge 1, .step .posedge 1,
      .step (.simulateDram false 5) 1, .step (.simulateDram true 5) 1,
      .step (.simulateDram true 6) 1, .step (.simulateDram true 7) 1, .step (.complete 2) 1,
      .step (.complete 0) 1, .step (.simulateDram true 8) 1, .step (.simulateDram true 9) 1,
      .step .negedge 1, .step .negedge 1])

theorem requests_conserved_of_reorderedRun :
    (sent (.memFw 0) reorderedRun.log).length = 3 ∧ (sent (.ctrlBw 0) reorderedRun.log).length = 2 ∧
      ((sent (.memFw 0) reorderedRun.log).map Payload.bare).Perm
        ((reorderedRun.wrapper.dram ++ sent (.ctrlBw 0) reorderedRun.log).map Payload.bare) := by
  have hr : ReachableMem 0 reorderedRun := reach_runSkip _ _
  have hqueues : reorderedRun.wrapper.peq = [] ∧ reorderedRun.wrapper.rQueue = [] ∧
      reorderedRun.wrapper.wQueue = [] ∧ reorderedRun.wrapper.memRequest = [] ∧
      reorderedRun.wrapper.inQueue = [] ∧ reorderedRun.wrapper.outQueue = [] ∧
      reorderedRun.wrapper.rackQueue = [] ∧ reorderedRun.wrapper.wackQueue = [] := by
    decide +kernel
  obtain ⟨h1, h2, h3, h4, h5, h6, h7, h8⟩ := hqueues
  refine ⟨by decide +kernel, by decide +kernel, ?_⟩
  simpa [h1, h2, h3, h4, h5, h6, h7, h8] using (requests_conserved hr).1

/-- A device with `q` in its bridge and nothing anywhere else. -/
def refusing (q : List Payload) (k : Nat) (stats : Statistics) (times : Nat → Nat) : MemWrapper :=
  { MemWrapper.init with inQueue := q, mOutstanding := k, stats := stats, rTransMap := times }

/-- One more request, which the DRAM does not take. -/
theorem refused_request (q : List Payload) (k : Nat) (stats : Statistics) (times : Nat → Nat)
    (log : List Event) (entered : List Payload) : ∃ stats' times' log' entered',
    run (step 0) ⟨refusing q k stats times, log, entered⟩
        [.request (request .read 8 0), .step .peq 1, .step .posedge 1,
          .step (.simulateDram false 0) 1] =
      .ok ⟨refusing (q ++ [(request .read 8 0).bare]) (u32 (k + 1)) stats' times', log',
        entered'⟩ := by
  cases q with
  | nil => exact ⟨_, _, _, _, rfl⟩
  | cons p q => exact ⟨_, _, _, _, rfl⟩

theorem refused_requests (n : Nat) : ∃ q k stats times log entered, q.length = n ∧
    ReachableMem 0 ⟨refusing q k stats times, log, entered⟩ := by
  induction n with
  | zero => exact ⟨[], 0, _, _, [], [], rfl, .refl⟩
  | succ n ih =>
      obtain ⟨q, k, stats, times, log, entered, hq, hr⟩ := ih
      obtain ⟨stats', times', log', entered', hrun⟩ := refused_request q k stats times log entered
      exact ⟨_, _, stats', times', log', entered',
        by rw [List.length_append, hq]; rfl, reach_run hr hrun⟩

/-- `m_outstanding` is 0 with 2^32 requests in the bridge. -/
theorem outstanding_wraps : ∃ s, ReachableMem 0 s ∧ s.wrapper.issued.length = 4294967296 ∧
    s.wrapper.mOutstanding = 0 := by
  obtain ⟨q, k, stats, times, log, entered, hq, hr⟩ := refused_requests 4294967296
  have hlen : (refusing q k stats times).issued.length = 4294967296 := by
    simpa [refusing, MemWrapper.issued, MemWrapper.completed, MemWrapper.init] using hq
  have hout : (refusing q k stats times).mOutstanding =
      u32 (refusing q k stats times).issued.length :=
    hr.always MemWrapper.memOutstanding_closed rfl
  rw [hlen] at hout
  exact ⟨_, hr, hlen, hout⟩

end LoneMem

end TSim4CXL
