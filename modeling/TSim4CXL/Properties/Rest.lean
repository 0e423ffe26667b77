/-
  Components that have nothing to do.

  A stretch that changes nothing and emits nothing tells that the queues it looks at are empty and
  its thread is between two iterations. One lemma for each stretch; a USP may be left with requests
  that do not fill a flit (`Usp.Quiescent`).
-/
import TSim4CXL.Properties.UspStranding
import TSim4CXL.Properties.MemConservation
import TSim4CXL.Properties.Work

namespace TSim4CXL

open Transition

/-! ## SIMWrapper -/

namespace SimWrapper

variable {cfg : Config} {h : Nat} {env : SimEnv} {w w' : SimWrapper} {es : List Event}

theorem rest_posedge (hs : w.clockPosedge = w) : w.rackIncoming = none ∧ w.wackIncoming = none := by
  rw [← hs]
  exact ⟨rfl, rfl⟩

theorem rest_peq (hs : w.peqCb = .ok w) : False := by
  have hpeq {v : SimWrapper} (hv : w.peqCb = .ok v) : v.peq.length < w.peq.length := by
    unfold peqCb at hv
    split at hv
    · cases hv
    · rename_i p q hq
      split at hv <;> cases hv <;> simp [hq]
  exact Nat.lt_irrefl _ (hpeq hs)

theorem rest_forwardRead (hs : (w.forwardRead h).2 = []) :
    w.rQueue = [] ∧ (w.forwardRead h).1 = w := by
  unfold forwardRead at hs ⊢
  split
  · rename_i hq
    exact ⟨hq, rfl⟩
  · rename_i hq
    simp [hq] at hs

theorem rest_forwardWrite (hs : (w.forwardWrite h).2 = []) :
    w.wQueue = [] ∧ (w.forwardWrite h).1 = w := by
  unfold forwardWrite at hs ⊢
  split
  · rename_i hq
    exact ⟨hq, rfl⟩
  · rename_i hq
    simp [hq] at hs

theorem rest_sendRack (hs : (w.sendRack cfg h env).2 = []) :
    w.rackQueue = [] ∧ (w.sendRack cfg h env).1 = w := by
  unfold sendRack at hs ⊢
  split
  · rename_i hq
    exact ⟨hq, rfl⟩
  · rename_i hq
    simp only [hq] at hs
    split at hs <;> simp at hs

theorem rest_sendWack (hs : w.sendWack cfg h = .ok (w', [])) : w.wackQueue = [] := by
  unfold sendWack at hs
  split at hs
  · assumption
  · dsimp only at hs
    split at hs
    · split at hs <;> cases hs
    · cases hs

/-- A falling edge that emits nothing finds the four queues empty. -/
theorem rest_negedge (hs : w.clockNegedge cfg h env = .ok (w', [])) :
    w.rQueue = [] ∧ w.wQueue = [] ∧ w.rackQueue = [] ∧ w.wackQueue = [] := by
  simp only [clockNegedge] at hs
  split at hs
  · cases hs
  · rename_i v es hw
    rw [Except.ok.injEq, Prod.mk.injEq] at hs
    obtain ⟨-, hes⟩ := hs
    simp only [List.append_eq_nil_iff] at hes
    obtain ⟨⟨⟨h1, h2⟩, h3⟩, rfl⟩ := hes
    obtain ⟨hr, e1⟩ := rest_forwardRead h1
    rw [e1] at h2
    obtain ⟨hwr, e2⟩ := rest_forwardWrite h2
    rw [e1, e2] at h3
    obtain ⟨hrack, e3⟩ := rest_sendRack h3
    rw [e1, e2, e3] at hw
    exact ⟨hr, hwr, hrack, rest_sendWack hw⟩

/-- A process that a step does not move is between two iterations, or polls a flag that is not
    set. -/
theorem rest_process (hs : w.process cfg h env = .ok (w, es)) : w.proc = .loop ∨
    ∃ packet, w.proc = .gate packet false ∧ env.sync.checkSignal packet.address = false := by
  have hsame {r : SimWrapper × List Event}
      (hr : (.ok r : Except Fault (SimWrapper × List Event)) = .ok (w, es)) :
      r.1.proc = w.proc := by
    cases hr
    rfl
  unfold process at hs
  split at hs <;> rename_i hproc
  · exact .inl hproc
  · have hmoved := hsame hs
    rw [hproc] at hmoved
    unfold handlePacket pollGate endIteration at hmoved
    split at hmoved
    · cases hmoved
    · cases hmoved
    · split at hmoved <;> cases hmoved
  · have hpoll := hsame hs
    rw [hproc] at hpoll
    exact .inr ⟨_, hproc, (ProcState.gate.inj hpoll).2⟩
  · have hmoved := hsame hs
    rw [hproc] at hmoved
    cases hmoved
  · have hmoved := hsame hs
    rw [hproc] at hmoved
    cases hmoved
  · have hmoved := hsame hs
    rw [hproc] at hmoved
    cases hmoved
  · cases hs

/-! ### What can be done -/

theorem process_ok (hw : w.proc ≠ .done) : ∃ r, w.process cfg h env = .ok r := by
  unfold process
  split
  · split <;> exact ⟨_, rfl⟩
  · exact ⟨_, rfl⟩
  · exact ⟨_, rfl⟩
  · exact ⟨_, rfl⟩
  · exact ⟨_, rfl⟩
  · exact ⟨_, rfl⟩
  · exact absurd (by assumption) hw

/-- With a packet in hand the process counts no core out. -/
theorem process_no_coreDone (hw : w.proc ≠ .loop) (hs : w.process cfg h env = .ok (w', es))
    (k : Nat) :
    .coreDone k ∉ es := by
  have hok {r : SimWrapper × List Event} (hr : (.ok r : Except Fault (SimWrapper × List Event)) =
      .ok (w', es))
      (hk : .coreDone k ∉ r.2) : .coreDone k ∉ es := by
    cases hr
    exact hk
  unfold process at hs
  split at hs
  · exact absurd (by assumption) hw
  · refine hok hs ?_
    unfold handlePacket pollGate endIteration
    split
    · dsimp only
      split <;> simp
    · simp
    · split <;> simp
  · refine hok hs ?_
    unfold pollGate
    dsimp only
    split <;> simp
  · exact hok hs (by simp)
  · exact hok hs (by simp [handleReadPacket])
  · exact hok hs (by simp [handleWritePacket])
  · cases hs

/-- A falling edge fails only on an empty `sync_queue`. -/
theorem clockNegedge_error {e : Fault} (hs : w.clockNegedge cfg h env = .error e) :
    e = .emptySync := by
  simp only [clockNegedge] at hs
  split at hs
  · rename_i he
    cases hs
    unfold sendWack at he
    split at he
    · cases he
    · dsimp only at he
      split at he
      · split at he <;> cases he
        rfl
      · cases he
  · cases hs

end SimWrapper

/-! ## USP and DSP -/

namespace Usp

variable {cfg : Config} {h : Nat} {u : Usp}

/-- `fw_thread` has nothing to send. -/
theorem rest_fw (hs : u.fwThread cfg h = .ok (u, [])) : Quiescent u := by
  obtain ⟨v, hidle, hend, hnext⟩ := fwThread_split hs
  have hv : v = u := by
    rcases hend with ⟨hu, -⟩ | ⟨hfw, hm⟩
    · exact hu.symm
    · -- a flit was ended, which is never nothing
      rcases hnext with hv | ⟨-, hm'⟩
      · exact hv
      · have h1 := move_work hm
        have h2 := move_work hm'
        simp only [workOf_nil] at h1 h2
        omega
  subst hv
  simp only [fwThread, hidle] at hs
  split at hs
  · obtain ⟨u', hstart, hs⟩ := bind_eq_ok.mp hs
    cases hs
    exact absurd hidle (startWriteFlit_fw hstart)
  · rename_i hwork
    obtain ⟨u', hread, hs⟩ := bind_eq_ok.mp hs
    cases hs
    simp only [not_or, ne_eq, Decidable.not_not] at hwork
    refine ⟨hidle, hwork.1, hwork.2, Nat.lt_of_not_le fun hr => ?_⟩
    unfold checkRead at hread
    rw [if_pos hr] at hread
    split at hread
    · cases hread
    · have hfw := congrArg Usp.fw (Except.ok.inj hread)
      rw [hidle] at hfw
      cases hfw

theorem rest_bw (hs : u.bwThread cfg h = (u, [])) :
    u.bw = .idle ∧ u.rackQueue = [] ∧ u.wackQueue = [] := by
  unfold bwThread at hs
  split at hs <;> rename_i hb
  · split at hs <;> rename_i hw
    · have hack := congrArg (fun r => r.1.bw) hs
      unfold checkRack at hack
      split at hack
      · rename_i hr
        exact ⟨hb, hr, hw⟩
      · dsimp only at hack
        rw [hb] at hack
        cases hack
    · have hack := congrArg (fun r => r.1.bw) hs
      dsimp only at hack
      rw [hb] at hack
      cases hack
  · cases congrArg Prod.snd hs
  · cases congrArg Prod.snd hs

end Usp

namespace Dsp

variable {h : Nat} {d d' : Dsp}

theorem rest_fw (hs : d.fwThread h = (d', [])) : d.rQueue = [] ∧ d.wQueue = [] := by
  simpa [fwThread] using congrArg Prod.snd hs

theorem rest_bw (hs : d.bwThread h = (d', [])) : d.rackQueue = [] ∧ d.wackQueue = [] := by
  simpa [bwThread] using congrArg Prod.snd hs

end Dsp

/-! ## Controller -/

namespace Controller

variable {cfg : Config} {c : Controller}

theorem rest_fw (hs : c.fwThread cfg = .ok (c, [])) : c.rQueue = [] ∧ c.wQueue = [] := by
  unfold fwThread at hs
  split at hs <;> rename_i hf
  · split at hs
    · have hfw := congrArg (fun r => r.1.fw) (Except.ok.inj hs)
      dsimp only at hfw
      rw [hf] at hfw
      cases hfw
    · rename_i hr
      have hfw := congrArg (fun r => r.1.fw) (Except.ok.inj hs)
      unfold checkWrite at hfw
      split at hfw
      · dsimp only at hfw
        rw [hf] at hfw
        cases hfw
      · rename_i hw
        exact ⟨Decidable.not_not.mp hr, Decidable.not_not.mp hw⟩
  · obtain ⟨⟨p, q⟩, -, hs⟩ := bind_eq_ok.mp hs
    obtain ⟨es, hes, hs⟩ := bind_eq_ok.mp hs
    obtain ⟨-, rfl⟩ := sendFw_eq_ok.mp hes
    cases congrArg Prod.snd (Except.ok.inj hs)
  · obtain ⟨⟨p, q⟩, -, hs⟩ := bind_eq_ok.mp hs
    obtain ⟨es, hes, hs⟩ := bind_eq_ok.mp hs
    obtain ⟨-, rfl⟩ := sendFw_eq_ok.mp hes
    cases congrArg Prod.snd (Except.ok.inj hs)

/-- Only an idle `bw_thread` stays where it is. -/
theorem rest_bw (hp : Poised c) (hs : c.bwThread cfg = .ok (c, [])) :
    c.rackQueue = [] ∧ c.wackQueue = [] := by
  unfold bwThread at hs
  split at hs <;> rename_i hb
  · split at hs
    · assumption
    · have hbw {bw : CtrlBw}
          (hs : (.ok ({ c with bw := bw }, []) : Except Fault (Controller × List Event)) =
            .ok (c, [])) : bw = .idle := (congrArg (fun r => r.1.bw) (Except.ok.inj hs)).trans hb
      split at hs
      · cases hbw hs
      · split at hs <;> cases hbw hs
  · simp only [Poised, hb] at hp
    have hbw := congrArg (fun r => r.1.bw) (Except.ok.inj hs)
    simp [drsRound, hp, hb] at hbw
  · obtain ⟨⟨p, q⟩, -, hs⟩ := bind_eq_ok.mp hs
    obtain ⟨es, hes, hs⟩ := bind_eq_ok.mp hs
    obtain ⟨-, rfl⟩ := sendBw_eq_ok.mp hes
    cases congrArg Prod.snd (Except.ok.inj hs)
  · simp only [Poised, hb] at hp
    have hbw := congrArg (fun r => r.1.bw) (Except.ok.inj hs)
    simp [ndrRound, hp, hb] at hbw
  · obtain ⟨⟨p, q⟩, -, hs⟩ := bind_eq_ok.mp hs
    obtain ⟨es, hes, hs⟩ := bind_eq_ok.mp hs
    obtain ⟨-, rfl⟩ := sendBw_eq_ok.mp hes
    cases congrArg Prod.snd (Except.ok.inj hs)
  · obtain ⟨⟨d, es⟩, -, hs⟩ := bind_eq_ok.mp hs
    have hbw := congrArg (fun r => r.1.bw) (Except.ok.inj hs)
    rw [hb] at hbw
    cases hbw
  · obtain ⟨⟨p, q⟩, -, hs⟩ := bind_eq_ok.mp hs
    obtain ⟨es, hes, hs⟩ := bind_eq_ok.mp hs
    obtain ⟨-, rfl⟩ := sendBw_eq_ok.mp hes
    cases congrArg Prod.snd (Except.ok.inj hs)

end Controller

/-! ## MEMWrapper -/

namespace MemWrapper

variable {d n : Nat} {load : DataPtr → Nat → List UInt8} {m m' : MemWrapper}

theorem rest_peq (hs : m.peqCb d load = .ok (m', [])) : False := by
  unfold peqCb at hs
  split at hs
  · cases hs
  · split at hs <;> cases hs

theorem rest_posedge (hs : m.clockPosedge = m) : m.rQueue = [] ∧ m.wQueue = [] := by
  have hr := congrArg (fun m => m.rQueue.length) hs
  have hw := congrArg (fun m => m.wQueue.length) hs
  simp only [clockPosedge, List.length_drop] at hr hw
  exact ⟨List.length_eq_zero_iff.mp (by omega), List.length_eq_zero_iff.mp (by omega)⟩

theorem rest_negedge (hs : m.clockNegedge d = (m', [])) : m.rackQueue = [] ∧ m.wackQueue = [] := by
  simpa [clockNegedge] using congrArg Prod.snd hs

theorem collect_outQueue (now : Nat) (m : MemWrapper) :
    (m.collect now).outQueue = m.outQueue.tail := by
  unfold collect
  split
  · rename_i hq
    rw [hq]
    rfl
  · rename_i hq
    rw [hq]
    split <;> unfold updateTransDelay <;> split <;> rfl

theorem issue_outQueue (now : Nat) (m : MemWrapper) : (m.issue now).outQueue = m.outQueue := by
  have hsend (ps : List Payload) (m : MemWrapper) :
      (ps.foldl (sendCommand now) m).outQueue = m.outQueue := by
    induction ps generalizing m with
    | nil => rfl
    | cons p ps ih =>
        rw [List.foldl_cons, ih]
        unfold sendCommand recordRequest
        split <;> rfl
  exact hsend _ _

/-- An iteration in which Ramulator would accept finds nothing to hand over, and nothing
    completed. -/
theorem rest_simulateDram {now : Nat} (hs : m.simulateDram d n true now = .ok (m, [])) :
    m.memRequest = [] ∧ m.inQueue = [] ∧ m.outQueue = [] := by
  have htick : (((m.collect now).issue now).clockTick d true).1.outQueue =
      ((m.collect now).issue now).outQueue := by
    unfold clockTick
    split <;> rfl
  rw [issue_outQueue, collect_outQueue] at htick
  obtain ⟨hin, -⟩ := issue_queues now (m.collect now)
  obtain ⟨hcin, hcreq⟩ := collect_queues now m
  rw [hcin, hcreq] at hin
  unfold simulateDram at hs
  split at hs
  · dsimp only at hs
    split at hs
    · simp at hs
    · have hr := Except.ok.inj hs
      rw [hr] at htick
      have hnone : ((m.collect now).issue now).inQueue = [] := by
        unfold clockTick at hr
        split at hr
        · assumption
        · cases congrArg Prod.snd hr
      rw [hnone] at hin
      obtain ⟨h1, h2⟩ := List.append_eq_nil_iff.mp hin.symm
      refine ⟨h2, h1, List.length_eq_zero_iff.mp ?_⟩
      have hlen : m.outQueue.length = _ := congrArg List.length htick
      rw [List.length_tail] at hlen
      omega
  · cases hs

theorem rest_complete (hs : m.complete d 0 = .ok (m', [])) : False := by
  unfold complete at hs
  split at hs
  · split at hs <;> cases hs
  · cases hs

end MemWrapper

end TSim4CXL
