/-
  How a USP packs writes into flits.

  A round of five flits carries four writes: the flits of phases 0 to 3 take one each from
  `w_queue`, a flit of phases 1 to 4 forwards the one before. `PackedUsp` counts beside a USP on its
  own, with payloads arriving at any time, what leaves `w_queue` and how far the flit counters go.
  Every point between two calls of `flit_packing_68` is the state after an `endCall`
  (`Usp.fwThread_eq`). `packing_invariant`: there `f_idx`, `pending_queue` and the counts agree, and
  no queue is empty when its front is taken.
-/
import TSim4CXL.Properties.PortLatency

namespace TSim4CXL

open Transition

/-- A USP on its own with its log, the writes it has taken from `w_queue`, and how many flits it
    has counted. -/
structure PackedUsp where
  usp : Usp
  log : List Event
  taken : List Payload
  readFlits : Nat
  writeFlits : Nat

namespace PackedUsp

variable {cfg : Config} {h : Nat} {s : PackedUsp} {u v : Usp} {l es : List Event}

def init : PackedUsp := ⟨.init, [], [], 0, 0⟩

/-- How far a `uint32_t` counter has gone. -/
def counted (before after : Nat) : Nat := (((after : Int) - before) % 4294967296).toNat

/-- The USP has gone on to `u`, the log to `l`. -/
def after (s : PackedUsp) (u : Usp) (l : List Event) : PackedUsp where
  usp := u
  log := l
  taken := s.taken ++ s.usp.wQueue.take (s.usp.wQueue.length - u.wQueue.length)
  readFlits := s.readFlits + counted s.usp.stats.readFlit u.stats.readFlit
  writeFlits := s.writeFlits + counted s.usp.stats.writeFlit u.stats.writeFlit

def step (cfg : Config) (h : Nat) (s : PackedUsp) (a : Usp.AloneAct) : Except Fault PackedUsp :=
  match Usp.aloneStep cfg h (s.usp, s.log) a with
  | .ok (u, l) => .ok (s.after u l)
  | .error e => .error e

/-- The states of all runs of the USP of host `h`: requests and acks arrive at any time. -/
def Reachable (cfg : Config) (h : Nat) (s : PackedUsp) : Prop :=
  Reach (step cfg h) anyStep init s

/-- The payloads of a command that have been forwarded. -/
def forwarded (h : Nat) (l : List Event) (c : Command) : List Payload := ofCmd c (sent (.dspFw h) l)

/-- What holds between two calls: `W` writes taken, `F` write flits, and `f_idx`. The counters of
    the code are those of the flits modulo 2^32. -/
structure Packed (h : Nat) (s : PackedUsp) : Prop where
  idx_le : s.usp.fIdx ≤ 4
  pending : 0 < s.usp.fIdx → ∃ p, s.taken.getLast? = some p ∧ s.usp.pendingQueue = [p]
  nothing : s.usp.fIdx = 0 → s.usp.pendingQueue = []
  flits : 5 * ((s.taken.length : Int) - s.usp.fIdx) = 4 * ((s.writeFlits : Int) - s.usp.fIdx)
  rounds : (4 : Int) ∣ s.taken.length - s.usp.fIdx
  writes : ((forwarded h s.log .write).length : Int) =
    s.taken.length - if 0 < s.usp.fIdx then 1 else 0
  reads : (forwarded h s.log .read).length = 2 * s.readFlits
  readCount : s.usp.stats.readFlit = u32 s.readFlits
  writeCount : s.usp.stats.writeFlit = u32 s.writeFlits

/-! ## Steps -/

theorem counted_self (n : Nat) : counted n n = 0 := by
  simp [counted]

theorem counted_succ (n : Nat) : counted (u32 n) (u32 (u32 n + 1)) = 1 := by
  unfold counted u32
  omega

/-- A second stretch that takes and counts nothing. -/
theorem after_after (hq : u.wQueue = v.wQueue) (hs : u.stats = v.stats) (l l' : List Event) :
    (s.after v l).after u l' = s.after u l' := by
  simp [after, hq, hs, counted_self]

/-- What the counts have to do with the USP and its log, inside a call too. -/
structure Inv (h : Nat) (s : PackedUsp) : Prop where
  taken : s.taken ++ s.usp.wQueue = ofCmd .write (sent (.uspFw h) s.log)
  rounds : ∃ q, s.taken.length = 4 * q + s.usp.phase ∧ s.writeFlits = 5 * q + s.usp.phase
  reads : (forwarded h s.log .read).length = 2 * s.readFlits
  readCount : s.usp.stats.readFlit = u32 s.readFlits
  writeCount : s.usp.stats.writeFlit = u32 s.writeFlits

/-- A stretch that takes no write and ends no flit; writes may arrive. -/
theorem Inv.keep (hi : Inv h s) (ps : List Payload) (hq : u.wQueue = s.usp.wQueue ++ ps)
    (hstats : u.stats = s.usp.stats) (hphase : u.phase = s.usp.phase)
    (hwrites : ofCmd .write (sent (.uspFw h) l) = ofCmd .write (sent (.uspFw h) s.log) ++ ps)
    (hreads : forwarded h l .read = forwarded h s.log .read) : Inv h (s.after u l) := by
  have htaken : (s.after u l).taken = s.taken := by
    simp [after, hq]
  have hread : (s.after u l).readFlits = s.readFlits := by
    simp [after, hstats, counted_self]
  have hwrite : (s.after u l).writeFlits = s.writeFlits := by
    simp [after, hstats, counted_self]
  constructor
  · show (s.after u l).taken ++ u.wQueue = ofCmd .write (sent (.uspFw h) l)
    rw [htaken, hq, hwrites, ← hi.taken, List.append_assoc]
  · rw [htaken, hwrite]
    show ∃ q, _ = 4 * q + u.phase ∧ _ = 5 * q + u.phase
    rw [hphase]
    exact hi.rounds
  · show (forwarded h l .read).length = _
    rw [hreads, hread]
    exact hi.reads
  · show u.stats.readFlit = _
    rw [hstats, hread]
    exact hi.readCount
  · show u.stats.writeFlit = _
    rw [hstats, hwrite]
    exact hi.writeCount

/-- A write flit ends: the last of a round takes no write, the others take one. -/
theorem Inv.writeFlit (hi : Inv h s) (ps : List Payload) (hq : s.usp.wQueue = ps ++ u.wQueue)
    (hstats : u.stats = s.usp.stats.increaseWFlit)
    (hphase : ps = [] ∧ s.usp.phase = 4 ∧ u.phase = 0 ∨
      ps.length = 1 ∧ u.phase = s.usp.phase + 1)
    (hwrites : sent (.uspFw h) l = sent (.uspFw h) s.log)
    (hreads : forwarded h l .read = forwarded h s.log .read) : Inv h (s.after u l) := by
  have htaken : (s.after u l).taken = s.taken ++ ps := by
    simp [after, hq]
  have hread : (s.after u l).readFlits = s.readFlits := by
    simp [after, hstats, Statistics.increaseWFlit, counted_self]
  have hwrite : (s.after u l).writeFlits = s.writeFlits + 1 := by
    simp only [after, hstats, Statistics.increaseWFlit, hi.writeCount, counted_succ]
  constructor
  · show (s.after u l).taken ++ u.wQueue = ofCmd .write (sent (.uspFw h) l)
    rw [htaken, hwrites, ← hi.taken, hq, List.append_assoc]
  · obtain ⟨q, h1, h2⟩ := hi.rounds
    rw [htaken, hwrite, List.length_append, h1, h2]
    show ∃ q, _ = 4 * q + u.phase ∧ _ = 5 * q + u.phase
    rcases hphase with ⟨rfl, h4, h0⟩ | ⟨hlen, hnext⟩
    · refine ⟨q + 1, ?_, ?_⟩
      · simp only [List.length_nil, h4, h0]
        omega
      · rw [h4, h0]
        omega
    · exact ⟨q, by omega, by omega⟩
  · show (forwarded h l .read).length = _
    rw [hreads, hread]
    exact hi.reads
  · show u.stats.readFlit = _
    rw [hstats, hread]
    exact hi.readCount
  · show u.stats.writeFlit = _
    rw [hstats, hwrite, Statistics.increaseWFlit, hi.writeCount]
    exact Usp.u32_succ _

/-- A read flit ends, with two reads forwarded. -/
theorem Inv.readFlit (hi : Inv h s) (hq : u.wQueue = s.usp.wQueue)
    (hstats : u.stats = s.usp.stats.increaseRFlit) (hphase : u.phase = s.usp.phase)
    (hwrites : sent (.uspFw h) l = sent (.uspFw h) s.log)
    (hreads : (forwarded h l .read).length = (forwarded h s.log .read).length + 2) :
    Inv h (s.after u l) := by
  have htaken : (s.after u l).taken = s.taken := by
    simp [after, hq]
  have hread : (s.after u l).readFlits = s.readFlits + 1 := by
    simp only [after, hstats, Statistics.increaseRFlit, hi.readCount, counted_succ]
  have hwrite : (s.after u l).writeFlits = s.writeFlits := by
    simp [after, hstats, Statistics.increaseRFlit, counted_self]
  constructor
  · show (s.after u l).taken ++ u.wQueue = ofCmd .write (sent (.uspFw h) l)
    rw [htaken, hq, hwrites, hi.taken]
  · rw [htaken, hwrite]
    show ∃ q, _ = 4 * q + u.phase ∧ _ = 5 * q + u.phase
    rw [hphase]
    exact hi.rounds
  · show (forwarded h l .read).length = _
    rw [hreads, hread, hi.reads]
    omega
  · show u.stats.readFlit = _
    rw [hstats, hread, Statistics.increaseRFlit, hi.readCount]
    exact Usp.u32_succ _
  · show u.stats.writeFlit = _
    rw [hstats, hwrite]
    exact hi.writeCount

theorem sent_dspFw (p : Payload) :
    sent (.uspFw h) (l ++ [.call (.dspFw h) p]) = sent (.uspFw h) l := by
  simp [sent_append]

theorem forwarded_dspFw (p : Payload) (c : Command) :
    forwarded h (l ++ [.call (.dspFw h) p]) c = forwarded h l c ++ ofCmd c [p] := by
  simp [forwarded, sent_append]

/-- The end of a call. -/
theorem Inv.finish (hi : Inv h s) (hp : s.usp.Phase) (hq : Usp.Queues h s.usp s.log)
    (hf : s.usp.fw ≠ .idle) (hv : v.fw = .idle) (hm : Usp.Move cfg h s.usp es v) :
    Inv h (s.after v (s.log ++ es)) := by
  have hheld {p : Payload} (hp : p ∈ s.usp.held) :
      forwarded h (s.log ++ [.call (.dspFw h) p]) .read = forwarded h s.log .read := by
    have hc := hq.command (c := .write) p (List.mem_append_left _ (List.mem_append_left _ hp))
    simp [forwarded_dspFw, ofCmd_cons, hc]
  cases hm with
  | startLast hw | startFirst hw | startMid hw | startRead hw => exact absurd hw hf
  | takeWack | takeRack | sendWack | sendRack => exact absurd hv hf
  | finishLast hw =>
      simp only [Usp.Phase, hw] at hp
      refine hi.writeFlit [] rfl rfl (.inl ⟨rfl, ?_, hp.1⟩) (sent_dspFw _) (hheld ?_)
      · simp only [Usp.phase, hw]
      · simp [Usp.held, hw]
  | @finishFirst _ p _ hw hq =>
      refine hi.writeFlit [p] hq rfl (.inr ⟨rfl, ?_⟩) ?_ ?_
      · simp only [Usp.phase, hw]
      · rw [List.append_nil]
      · rw [List.append_nil]
  | @finishMid _ p' _ hw hq =>
      refine hi.writeFlit [p'] hq rfl (.inr ⟨rfl, ?_⟩) (sent_dspFw _) (hheld ?_)
      · simp only [Usp.phase, hw]
      · simp [Usp.held, hw]
  | @finishRead _ a b _ hw hr =>
      have ha : a.command = .read := hq.command (c := .read) a (by simp [Usp.fwContents, hr])
      have hb : b.command = .read := hq.command (c := .read) b (by simp [Usp.fwContents, hr])
      rw [← List.singleton_append, ← List.append_assoc]
      refine hi.readFlit rfl rfl ?_ ?_ ?_
      · simp only [Usp.phase, hw]
      · rw [sent_dspFw, sent_dspFw]
      · rw [forwarded_dspFw, forwarded_dspFw]
        simp [ofCmd_cons, ha, hb]

/-- The start of a call takes and counts nothing. -/
theorem start_frame (hv : v.fw = .idle) (hu : u.fw ≠ .idle) (hm : Usp.Move cfg h v [] u) :
    u.wQueue = v.wQueue ∧ u.stats = v.stats ∧ u.phase = v.phase := by
  cases hm with
  | startLast _ hi => exact ⟨rfl, rfl, by simp only [Usp.phase, hv, hi]⟩
  | startFirst | startMid | startRead => exact ⟨rfl, rfl, by simp only [Usp.phase, hv]⟩
  | finishFirst hf => exact absurd (hv.symm.trans hf) UspFw.noConfusion
  | takeWack | takeRack => exact absurd hv hu

/-! ## Runs -/

theorem step_ok {t : PackedUsp} {a : Usp.AloneAct} (hs : step cfg h s a = .ok t) :
    ∃ u l, Usp.aloneStep cfg h (s.usp, s.log) a = .ok (u, l) ∧ t = s.after u l := by
  simp only [step] at hs
  split at hs
  · rename_i u l hstep
    cases hs
    exact ⟨u, l, hstep, rfl⟩
  · cases hs

theorem Reachable.alone (hr : Reachable cfg h s) :
    Reach (Usp.aloneStep cfg h) anyStep (.init, []) (s.usp, s.log) :=
  Reach.map (f := fun s : PackedUsp => (s.usp, s.log)) (fun _ a _ hs => by
    obtain ⟨u, l, hstep, rfl⟩ := step_ok hs
    exact ⟨a, hstep⟩) hr

theorem Reachable.phase (hr : Reachable cfg h s) : s.usp.Phase := Usp.alone_phase hr.alone

theorem Reachable.queues (hr : Reachable cfg h s) : Usp.Queues h s.usp s.log :=
  (Usp.alone_counts hr.alone).1

theorem Inv.endCall (hi : Inv h s) (hr : Reachable cfg h s) (hs : s.usp.endCall h = .ok (v, es)) :
    Inv h (s.after v (s.log ++ es)) := by
  obtain ⟨hv, ⟨rfl, rfl⟩ | ⟨hf, hm⟩⟩ := Usp.endCall_move cfg hs
  · exact hi.keep [] (List.append_nil _).symm rfl rfl (by simp) (by simp)
  · exact hi.finish hr.phase hr.queues hf hv hm

/-- A payload arrives, whatever `fw_thread` waits for. -/
theorem Inv.arrive (hi : Inv h s) (p : Payload) :
    Inv h (s.after (s.usp.nbTransportFw p) (s.log ++ [.call (.uspFw h) p])) := by
  have hreads : forwarded h (s.log ++ [.call (.uspFw h) p]) .read = forwarded h s.log .read := by
    simp [forwarded, sent_append]
  have hwrites : ofCmd .write (sent (.uspFw h) (s.log ++ [.call (.uspFw h) p])) =
      ofCmd .write (sent (.uspFw h) s.log) ++ ofCmd .write [p] := by
    simp [sent_append]
  cases hp : p.command with
  | read =>
      refine hi.keep _ ?_ ?_ ?_ hwrites hreads <;>
        simp [Usp.nbTransportFw, hp, ofCmd_cons, Usp.phase]
  | write =>
      refine hi.keep _ ?_ ?_ ?_ hwrites hreads <;>
        simp [Usp.nbTransportFw, hp, ofCmd_cons, Usp.phase]

theorem Inv.ack (hi : Inv h s) (p : Payload) :
    Inv h (s.after (s.usp.nbTransportBw p) (s.log ++ [.call (.uspBw h) p])) := by
  cases hp : p.command <;>
    refine hi.keep [] ?_ ?_ ?_ ?_ ?_ <;>
    simp [Usp.nbTransportBw, hp, Usp.phase, forwarded, sent_append]

theorem Inv.bwThread (cfg : Config) (hi : Inv h s) : Inv h
    (s.after (s.usp.bwThread cfg h).1 (s.log ++ (s.usp.bwThread cfg h).2)) := by
  obtain ⟨hf, hidx, hstats, -, hq, hsent⟩ := Usp.bwThread_frame cfg h s.usp
  refine hi.keep [] ?_ hstats ?_ ?_ ?_
  · rw [hq, List.append_nil]
  · simp only [Usp.phase, hf, hidx]
  · rw [sent_append, hsent _ (by simp), List.append_nil, List.append_nil]
  · rw [forwarded, sent_append, hsent _ (by simp), List.append_nil, forwarded]

/-- A stretch of `fw_thread`: to the end of the call, and into the next one. -/
theorem Inv.fwThread (hi : Inv h s) (hr : Reachable cfg h s)
    (hs : s.usp.fwThread cfg h = .ok (u, es)) : Inv h (s.after u (s.log ++ es)) := by
  rw [Usp.fwThread_eq] at hs
  obtain ⟨⟨v, es'⟩, hend, hs⟩ := bind_eq_ok.mp hs
  obtain ⟨u', hnext, hs⟩ := bind_eq_ok.mp hs
  cases hs
  have hv := hi.endCall hr hend
  rcases Usp.nextCall_move (Usp.endCall_move cfg hend).1 hnext with rfl | ⟨hu, hm⟩
  · exact hv
  · obtain ⟨hq, hstats, hphase⟩ := start_frame (h := h) (Usp.endCall_move cfg hend).1 hu hm
    rw [← after_after hq hstats (s.log ++ es)]
    exact hv.keep [] (by rw [List.append_nil]; exact hq) hstats hphase (by simp [after]) rfl

theorem Reachable.inv (hr : Reachable cfg h s) : Inv h s := by
  refine Reach.invariant ?_ (fun s a s' hr _ hi hs => ?_) hr
  · exact ⟨rfl, ⟨0, rfl, rfl⟩, rfl, rfl, rfl⟩
  · obtain ⟨u, l, hstep, rfl⟩ := step_ok hs
    cases a with
    | forward p =>
        cases hstep
        simp only [Usp.hear, if_true]
        exact hi.arrive p
    | ack p =>
        cases hstep
        simp only [Usp.hear, if_true]
        exact hi.ack p
    | thread a =>
        obtain ⟨u, es, hact, ht⟩ := Usp.aloneStep_thread.mp hstep
        cases ht
        cases a with
        | bw =>
            have hbw : s.usp.bwThread cfg h = (u, es) := Except.ok.inj hact
            simpa only [hbw] using hi.bwThread cfg
        | fw => exact hi.fwThread hr hact

/-! ## Between two calls -/

/-- Nothing is held between two calls: the writes taken are those forwarded and the one pending. -/
theorem Inv.packed (hi : Inv h s) (hf : s.usp.fw = .idle) (hs : s.usp.Settled)
    (hq : Usp.Queues h s.usp s.log) : Packed h s := by
  have hwrite := hq .write
  simp only [Usp.fwContents, Usp.held, hf, List.nil_append] at hwrite
  rw [← hi.taken, ← List.append_assoc, List.append_cancel_right_eq] at hwrite
  have htaken : s.taken = forwarded h s.log .write ++ s.usp.pendingQueue := hwrite
  have hlen := congrArg List.length htaken
  rw [List.length_append] at hlen
  obtain ⟨q, hW, hF⟩ := hi.rounds
  simp only [Usp.phase, hf] at hW hF
  refine ⟨?_, fun hpos => ?_, fun h0 => ?_, ?_, ?_, ?_, hi.reads, hi.readCount, hi.writeCount⟩
  · rcases hs with ⟨h0, -⟩ | ⟨-, h4, -⟩ <;> omega
  · rcases hs with ⟨h0, -⟩ | ⟨-, -, p, hp⟩
    · omega
    · exact ⟨p, by rw [htaken, hp, List.getLast?_concat], hp⟩
  · rcases hs with ⟨-, hp⟩ | ⟨h1, -⟩
    · exact hp
    · omega
  · omega
  · exact ⟨q, by omega⟩
  · rcases hs with ⟨h0, hp⟩ | ⟨h1, -, p, hp⟩
    · rw [if_neg (by omega)]
      simp only [hp, List.length_nil] at hlen
      omega
    · rw [if_pos (show 0 < s.usp.fIdx from h1)]
      simp only [hp, List.length_singleton] at hlen
      omega

/-- In every run: no front of an empty queue is taken, and at the end of each call the writes
    taken, the write flits counted and `f_idx` agree. -/
theorem packing_invariant (hr : Reachable cfg h s) : s.usp.fwThread cfg h ≠ .error .emptyFront ∧
    ∃ v es, s.usp.endCall h = .ok (v, es) ∧ Packed h (s.after v (s.log ++ es)) := by
  refine ⟨fun he => ?_, ?_⟩
  · cases Usp.fwThread_error hr.phase he
  · cases hend : s.usp.endCall h with
    | error e => exact (Usp.endCall_error hr.phase hend).elim
    | ok r =>
        have hqueues : Usp.Queues h r.1 (s.log ++ r.2) :=
          Usp.closed_endCall cfg Usp.uspQueues_closed hr.queues hend
        exact ⟨r.1, r.2, rfl, (hr.inv.endCall hr hend).packed (Usp.endCall_move cfg hend).1
          (Usp.settled_endCall cfg hr.phase hend) hqueues⟩

/-- Four writes, then two reads and two more writes during the `wait` of the second flit. -/
def sixWrites : PackedUsp :=
  let cfg := smallConfig 1 1 6
  let writes := SimWrapper.writePayloads cfg 0 (.fill .write 8 7) 0
  let reads := SimWrapper.readPayloads cfg 0 (.fill .read 8 0) 0
  runSkip (step cfg 0) anyStep init
    ((writes.take 4).map .forward ++ List.replicate 3 (.thread .fw) ++
      (reads.take 2 ++ writes.drop 4).map .forward ++ List.replicate 15 (.thread .fw))

/-- Six writes in seven flits, the last one pending in phase 2; two reads in one flit. -/
theorem packing_invariant_of_sixWrites :
    (sixWrites.taken.length = 6 ∧ sixWrites.writeFlits = 7 ∧ sixWrites.readFlits = 1 ∧
      sixWrites.usp.fIdx = 2 ∧ sixWrites.usp.fw = .idle) ∧
    ∃ v es, sixWrites.usp.endCall 0 = .ok (v, es) ∧
      Packed 0 (sixWrites.after v (sixWrites.log ++ es)) :=
  ⟨by decide +kernel, (packing_invariant (reach_runSkip init _)).2⟩

end PackedUsp

end TSim4CXL
