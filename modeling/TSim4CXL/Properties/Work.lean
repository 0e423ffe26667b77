/-
  The work that is left in the simulator, and how its components work it off.

  Every payload goes down one path: from the queues of its SIMWrapper through USP, DSP, controller
  and device, and back as an ack. `work` counts four for each move a payload has still ahead, and a
  little for where the threads stand, so that a thread that only walks up to a `wait` counts too.
  A stretch of a component either changes nothing or does more work than it hands on to others
  (`Spends`); this is proved for each component, and `Sys.step_work` puts it together. Packets
  from the hosts are what brings new work.
-/
import TSim4CXL.Properties.AckPacking
import TSim4CXL.Trace.Top
import Mathlib.Algebra.BigOperators.Group.Finset.Piecewise
import Mathlib.Algebra.Order.BigOperators.Group.Finset

namespace TSim4CXL

open Transition

/-! ## Work in events -/

/-- The moves a payload has ahead once it was handed over on this channel. -/
def Chan.ahead : Chan → Nat
  | .uspFw _ => 19
  | .dspFw _ => 16
  | .ctrlFw _ => 15
  | .memFw _ => 14
  | .ctrlBw _ => 7
  | .dspBw _ => 6
  | .uspBw _ => 5
  | .simBw _ => 3
  | _ => 0

def Event.work : Event → Nat
  | .call c _ => 4 * c.ahead
  | _ => 0

/-- The component that hears the event. -/
def Event.dest : Event → Option Comp
  | .call (.uspFw h) _ => some (.usp h)
  | .call (.dspFw h) _ => some (.dsp h)
  | .call (.ctrlFw _) _ => some .ctrl
  | .call (.memFw d) _ => some (.mem d)
  | .call (.ctrlBw _) _ => some .ctrl
  | .call (.dspBw h) _ => some (.dsp h)
  | .call (.uspBw h) _ => some (.usp h)
  | .call (.simBw h) _ => some (.sim h)
  | _ => none

/-- The work the events hand on. -/
def workOf (es : List Event) : Nat := es.foldr (fun e n => e.work + n) 0

@[simp] theorem workOf_nil : workOf [] = 0 := rfl

@[simp] theorem workOf_cons (e : Event) (es : List Event) :
    workOf (e :: es) = e.work + workOf es := rfl

@[simp] theorem workOf_append (es es' : List Event) :
    workOf (es ++ es') = workOf es + workOf es' := by
  induction es with
  | nil => simp
  | cons e es ih => rw [List.cons_append, workOf_cons, workOf_cons, ih, Nat.add_assoc]

theorem workOf_map_call (c : Chan) (ps : List Payload) :
    workOf (ps.map (.call c)) = 4 * c.ahead * ps.length := by
  induction ps with
  | nil => rfl
  | cons p ps ih =>
      rw [List.map_cons, workOf_cons, ih, List.length_cons, Event.work, Nat.mul_succ, Nat.add_comm]

/-- A stretch that changes nothing, or does more work than it hands on. -/
def Spends {κ : Type} (work : κ → Nat) (c : κ) (es : List Event) (c' : κ) : Prop :=
  (c' = c ∧ es = []) ∨ work c' + workOf es < work c

namespace Spends

variable {κ : Type} {work : κ → Nat} {c c' c'' : κ} {es es' : List Event}

theorem refl (c : κ) : Spends work c [] c := .inl ⟨rfl, rfl⟩

theorem trans (h : Spends work c es c') (h' : Spends work c' es' c'') :
    Spends work c (es ++ es') c'' := by
  rcases h with ⟨rfl, rfl⟩ | h
  · simpa using h'
  · rcases h' with ⟨rfl, rfl⟩ | h'
    · exact .inr (by simpa using h)
    · refine .inr ?_
      rw [workOf_append]
      omega

theorem of_chain {R : κ → List Event → κ → Prop} (hR : ∀ c es c', R c es c' → Spends work c es c')
    (h : Chain R c es c') : Spends work c es c' := by
  induction h with
  | nil _ => exact refl _
  | cons hr _ ih => exact (hR _ _ _ hr).trans ih

end Spends

/-! ## SIMWrapper -/

/-- What a packet in hand will cost: its payloads, and the waits before they are made. -/
def ProcState.work (payloadNum : Nat) : ProcState → Nat
  | .loop => 0
  | .delta _ => 80 * payloadNum + 4
  | .gate _ false => 80 * payloadNum + 3
  | .gate _ true => 80 * payloadNum + 2
  | .readCpu _ => 80 * payloadNum + 1
  | .writeCpu _ => 80 * payloadNum + 1
  | .done => 0

namespace SimWrapper

variable {cfg : Config} {h : Nat} {env : SimEnv} {w w' : SimWrapper} {es : List Event}

def work (cfg : Config) (w : SimWrapper) : Nat :=
  80 * (w.rQueue.length + w.wQueue.length) + 12 * w.peq.length +
    8 * (w.rackIncoming.toList.length + w.wackIncoming.toList.length) +
    4 * (w.rackQueue.length + w.wackQueue.length) + w.proc.work cfg.payloadNum +
      (!w.terminated).toNat

theorem pollGate_work (w : SimWrapper) (packet : Packet) :
    (pollGate h env w packet).1.work cfg + w.proc.work cfg.payloadNum ≤
      w.work cfg + 80 * cfg.payloadNum + 3 ∧ workOf (pollGate h env w packet).2 = 0 := by
  unfold pollGate work
  refine ⟨?_, ?_⟩
  · cases env.sync.checkSignal packet.address <;> simp only [ProcState.work] <;> omega
  · split <;> rfl

theorem endIteration_work (w : SimWrapper) :
    (endIteration h env w).1.work cfg + w.proc.work cfg.payloadNum = w.work cfg ∧
      workOf (endIteration h env w).2 = 0 := by
  unfold endIteration work
  split
  · exact ⟨by simp only [ProcState.work]; omega, rfl⟩
  · exact ⟨by simp only [ProcState.work]; omega, rfl⟩

/-- Handling a packet leaves at most a poll of its gate. -/
theorem handlePacket_work (w : SimWrapper) (packet : Packet) :
    (handlePacket h env w packet).1.work cfg + w.proc.work cfg.payloadNum ≤
      w.work cfg + 80 * cfg.payloadNum + 3 ∧ workOf (handlePacket h env w packet).2 = 0 := by
  unfold handlePacket
  split
  · exact pollGate_work w packet
  · exact ⟨by simp only [work, ProcState.work]; omega, rfl⟩
  · have hend := @endIteration_work cfg h env { w with status := .terminated }
    have hwork : _ + w.proc.work cfg.payloadNum = w.work cfg := hend.1
    exact ⟨by omega, hend.2⟩

theorem Spends.of_ok {c : SimWrapper} {r : SimWrapper × List Event}
    (hs : (.ok r : Except Fault (SimWrapper × List Event)) = .ok (w', es))
    (h : Spends (work cfg) c r.2 r.1) : Spends (work cfg) c es w' := by
  cases hs
  exact h

theorem process_spends (hdram : env.activeDram ≠ 0) (hs : w.process cfg h env = .ok (w', es)) :
    Spends (work cfg) w es w' := by
  unfold process at hs
  split at hs
  · rename_i hproc
    split at hs
    · exact Spends.of_ok hs (.refl w)
    · -- a terminated host counts itself out once
      refine Spends.of_ok hs ?_
      simp only [endIteration, hdram, if_false, List.append_nil]
      cases ht : w.terminated with
      | true =>
          refine .inl ⟨?_, rfl⟩
          cases w
          simp_all
      | false =>
          refine .inr ?_
          simp [work, hproc, ht, Event.work]
  · rename_i packet hproc
    refine Spends.of_ok hs (.inr ?_)
    have := @handlePacket_work cfg h env w packet
    simp only [hproc, ProcState.work] at this
    omega
  · rename_i packet hproc
    refine Spends.of_ok hs ?_
    unfold pollGate
    cases hsync : env.sync.checkSignal packet.address with
    | false =>
        refine .inl ⟨?_, by simp⟩
        cases w
        simp_all
    | true => exact .inr (by simp [work, hproc, ProcState.work, Event.work])
  · rename_i packet hproc
    exact Spends.of_ok hs (.inr (by simp [work, hproc, ProcState.work, Event.work]))
  · rename_i packet hproc
    refine Spends.of_ok hs (.inr ?_)
    simp only [handleReadPacket, work, hproc, ProcState.work, workOf_cons, workOf_map_call,
      Event.work, Chan.ahead, readPayloads, List.length_append, List.length_map, List.length_range]
    omega
  · rename_i packet hproc
    refine Spends.of_ok hs (.inr ?_)
    simp only [handleWritePacket, work, hproc, ProcState.work, workOf_cons, workOf_map_call,
      Event.work, Chan.ahead, writePayloads, List.length_append, List.length_map, List.length_range]
    omega
  · cases hs

theorem clockPosedge_spends (w : SimWrapper) : Spends (work cfg) w [] w.clockPosedge := by
  cases hr : w.rackIncoming with
  | none =>
      cases hw : w.wackIncoming with
      | none =>
          refine .inl ⟨?_, rfl⟩
          cases w
          simp_all [clockPosedge]
      | some p =>
          refine .inr ?_
          simp [clockPosedge, work, hr, hw]
          omega
  | some p =>
      refine .inr ?_
      cases hw : w.wackIncoming <;> simp [clockPosedge, work, hr, hw] <;> omega

theorem forwardRead_spends (w : SimWrapper) :
    Spends (work cfg) w (w.forwardRead h).2 (w.forwardRead h).1 := by
  unfold forwardRead
  split
  · exact .refl w
  · rename_i p q hq
    exact .inr (by simp [work, hq, Event.work, Chan.ahead]; omega)

theorem forwardWrite_spends (w : SimWrapper) :
    Spends (work cfg) w (w.forwardWrite h).2 (w.forwardWrite h).1 := by
  unfold forwardWrite
  split
  · exact .refl w
  · rename_i p q hq
    exact .inr (by simp [work, hq, Event.work, Chan.ahead]; omega)

theorem sendRack_spends (w : SimWrapper) :
    Spends (work cfg) w (w.sendRack cfg h env).2 (w.sendRack cfg h env).1 := by
  unfold sendRack
  split
  · exact .refl w
  · rename_i p q hq
    dsimp only
    split <;> exact .inr (by simp [work, hq, Event.work, Chan.ahead])

theorem sendWack_spends (hs : w.sendWack cfg h = .ok (w', es)) : Spends (work cfg) w es w' := by
  unfold sendWack at hs
  split at hs
  · exact Spends.of_ok hs (.refl w)
  · rename_i p q hq
    dsimp only at hs
    split at hs
    · split at hs
      · cases hs
      · exact Spends.of_ok hs (.inr (by simp [work, hq, Event.work, Chan.ahead]))
    · exact Spends.of_ok hs (.inr (by simp [work, hq, Event.work, Chan.ahead]))

theorem clockNegedge_spends (hs : w.clockNegedge cfg h env = .ok (w', es)) :
    Spends (work cfg) w es w' := by
  unfold clockNegedge at hs
  dsimp only at hs
  split at hs
  · cases hs
  · rename_i hw
    exact Spends.of_ok hs ((((forwardRead_spends w).trans (forwardWrite_spends _)).trans
      (sendRack_spends _)).trans (sendWack_spends hw))

/-- An ack that finds its slot taken pushes the other one out: even less work. -/
theorem peqCb_spends (hs : w.peqCb = .ok w') : Spends (work cfg) w [] w' := by
  unfold peqCb at hs
  split at hs
  · cases hs
  · rename_i p q hq
    split at hs <;> cases hs <;> exact .inr (by simp [work, hq]; omega)

theorem hear_work (w : SimWrapper) (e : Event) :
    (w.hear h e).work cfg = w.work cfg + if e.dest = some (.sim h) then e.work else 0 := by
  cases e with
  | call c p =>
      cases c with
      | simBw k =>
          by_cases hk : k = h
          · simp [hear, hk, nbTransportBw, work, Event.dest, Event.work, Chan.ahead]
            omega
          · simp [hear, hk, Event.dest]
      | _ => rfl
  | _ => rfl

/-- Without a new packet. -/
theorem act_spends {a : Act} (ha : ∀ packet, a ≠ .recv packet) (hdram : env.activeDram ≠ 0)
    (hs : w.act cfg h env a = .ok (w', es)) : Spends (work cfg) w es w' := by
  cases a with
  | recv packet => exact absurd rfl (ha packet)
  | process => exact process_spends hdram hs
  | posedge =>
      cases hs
      exact clockPosedge_spends w
  | negedge => exact clockNegedge_spends hs
  | peq =>
      simp only [act] at hs
      split at hs
      · cases hs
      · rename_i hw
        cases hs
        exact peqCb_spends hw

end SimWrapper

/-! ## USP and DSP -/

namespace Usp

variable {cfg : Config} {h : Nat}

def work (u : Usp) : Nat :=
  76 * (u.rQueue.length + u.wQueue.length) + 72 * u.pendingQueue.length + 68 * u.held.length +
    20 * (u.rackQueue.length + u.wackQueue.length) +
    16 * ((u.heldAck .read).length + (u.heldAck .write).length) + (decide (u.fw = .idle)).toNat

/-- To start a flit is less work than to have an idle thread, to finish it moves payloads on. -/
theorem move_work {u u' : Usp} {es : List Event} (hm : Move cfg h u es u') :
    u'.work + workOf es < u.work := by
  cases hm <;> simp_all [work, held, heldAck, Event.work, Chan.ahead] <;> omega

theorem hear_work (u : Usp) (e : Event) :
    (u.hear h e).work = u.work + if e.dest = some (.usp h) then e.work else 0 := by
  cases e with
  | call c p =>
      cases c with
      | uspFw k =>
          by_cases hk : k = h
          · cases hc : p.command <;> simp [hear, hk, nbTransportFw, hc, work, held, heldAck,
              Event.dest, Event.work, Chan.ahead] <;> omega
          · simp [hear, hk, Event.dest]
      | uspBw k =>
          by_cases hk : k = h
          · cases hc : p.command <;> simp [hear, hk, nbTransportBw, hc, work, held, heldAck,
              Event.dest, Event.work, Chan.ahead] <;> omega
          · simp [hear, hk, Event.dest]
      | _ => rfl
  | _ => rfl

theorem act_spends {u u' : Usp} {a : Act} {es : List Event} (hs : u.act cfg h a = .ok (u', es)) :
    Spends work u es u' :=
  .of_chain (fun _ _ _ hm => .inr (move_work hm)) (act_chain hs)

end Usp

namespace Dsp

def work (d : Dsp) : Nat :=
  64 * (d.rQueue.length + d.wQueue.length) + 24 * (d.rackQueue.length + d.wackQueue.length)

theorem hear_work (h : Nat) (d : Dsp) (e : Event) :
    (d.hear h e).work = d.work + if e.dest = some (.dsp h) then e.work else 0 := by
  cases e with
  | call c p =>
      cases c with
      | dspFw k =>
          by_cases hk : k = h
          · cases hc : p.command <;>
              simp [hear, hk, nbTransportFw, hc, work, Event.dest, Event.work, Chan.ahead] <;> omega
          · simp [hear, hk, Event.dest]
      | dspBw k =>
          by_cases hk : k = h
          · cases hc : p.command <;>
              simp [hear, hk, nbTransportBw, hc, work, Event.dest, Event.work, Chan.ahead] <;> omega
          · simp [hear, hk, Event.dest]
      | _ => rfl
  | _ => rfl

theorem act_spends {h : Nat} {d d' : Dsp} {a : Act} {es : List Event} (hs : d.act h a = (d', es)) :
    Spends work d es d' := by
  cases a with
  | fw =>
      cases hs
      cases hr : d.rQueue <;> cases hw : d.wQueue
      · refine .inl ⟨?_, by simp⟩
        cases d
        simp_all
      all_goals exact .inr (by simp [work, hr, hw, Event.work, Chan.ahead]; try omega)
  | bw =>
      cases hs
      cases hr : d.rackQueue <;> cases hw : d.wackQueue
      · refine .inl ⟨?_, by simp⟩
        cases d
        simp_all
      all_goals exact .inr (by simp [work, hr, hw, Event.work, Chan.ahead]; try omega)

end Dsp

/-! ## Controller -/

/-- How far `bw_thread` is from its next `wait`. -/
def CtrlBw.work : CtrlBw → Nat
  | .idle => 2
  | .drsWait => 1
  | .ndrWait => 1
  | .mixWait => 1
  | .drsFlit _ => 0
  | .ndrFlit _ => 0
  | .mixRead => 0

namespace Controller

variable {cfg : Config} {c c' : Controller} {es : List Event}

def work (c : Controller) : Nat :=
  60 * (c.rQueue.length + c.wQueue.length) + 28 * (c.rackQueue.length + c.wackQueue.length) +
    (decide (c.fw = .idle)).toNat + c.bw.work

theorem Spends.of_ok {r : Controller × List Event}
    (hs : (.ok r : Except Fault (Controller × List Event)) = .ok (c', es))
    (h : Spends work c r.2 r.1) :
    Spends work c es c' := by
  cases hs
  exact h

theorem hear_work (c : Controller) (e : Event) :
    (c.hear e).work = c.work + if e.dest = some .ctrl then e.work else 0 := by
  rcases hear_cases c e with ⟨hc, hfw, hbw⟩ | ⟨h, p, rfl, hc⟩ | ⟨d, p, rfl, hc⟩ <;> rw [hc]
  · cases e with
    | call k p => cases k <;> simp_all [Event.dest, Chan.isCtrlFw, Chan.isCtrlBw]
    | _ => rfl
  · cases hcmd : p.command <;>
      simp [nbTransportFw, hcmd, work, Event.dest, Event.work, Chan.ahead] <;> omega
  · cases hcmd : p.command <;>
      simp [nbTransportBw, hcmd, work, Event.dest, Event.work, Chan.ahead] <;> omega

theorem checkWrite_work (c : Controller) :
    (checkWrite cfg c).work ≤ { c with fw := .idle }.work := by
  unfold checkWrite
  split
  · simp [work]
  · exact Nat.le_refl _

/-- A request sent on has moved one place. -/
theorem fwThread_spends (hs : c.fwThread cfg = .ok (c', es)) : Spends work c es c' := by
  unfold fwThread at hs
  split at hs
  · rename_i hf
    split at hs
    · exact Spends.of_ok hs (.inr (by simp [work, hf]))
    · refine Spends.of_ok hs ?_
      unfold checkWrite
      split
      · exact .inr (by simp [work, hf])
      · refine .inl ⟨?_, rfl⟩
        cases c
        simp_all
  · rename_i hf
    obtain ⟨⟨p, q⟩, hq, hs⟩ := bind_eq_ok.mp hs
    obtain ⟨es', hes, hs⟩ := bind_eq_ok.mp hs
    obtain ⟨-, rfl⟩ := sendFw_eq_ok.mp hes
    have hle := @checkWrite_work cfg { c with rQueue := q, rNum := u32 (c.rNum + 1) }
    refine Spends.of_ok hs (.inr (Nat.lt_of_le_of_lt (Nat.add_le_add_right hle _) ?_))
    simp [work, front_eq_ok.mp hq, hf, Event.work, Chan.ahead]
    omega
  · rename_i hf
    obtain ⟨⟨p, q⟩, hq, hs⟩ := bind_eq_ok.mp hs
    obtain ⟨es', hes, hs⟩ := bind_eq_ok.mp hs
    obtain ⟨-, rfl⟩ := sendFw_eq_ok.mp hes
    refine Spends.of_ok hs (.inr ?_)
    simp [work, front_eq_ok.mp hq, hf, Event.work, Chan.ahead]
    omega

theorem drsRound_work (c : Controller) (i : Nat) :
    (drsRound c i).work ≤ { c with bw := .idle }.work := by
  unfold drsRound
  split
  · simp [work, CtrlBw.work]
  · exact Nat.le_refl _

theorem ndrRound_work (c : Controller) (i : Nat) :
    (ndrRound c i).work ≤ { c with bw := .idle }.work := by
  unfold ndrRound
  split
  · simp [work, CtrlBw.work]
  · exact Nat.le_refl _

theorem mixWrites_work {n : Nat} (hs : mixWrites cfg n c = .ok (c', es)) :
    c'.work + workOf es ≤ c.work ∧ c'.bw = c.bw := by
  induction n generalizing c es with
  | zero =>
      cases hs
      exact ⟨Nat.le_refl _, rfl⟩
  | succ n ih =>
      unfold mixWrites at hs
      split at hs
      · cases hs
        exact ⟨Nat.le_refl _, rfl⟩
      · rename_i p q hq
        obtain ⟨es₁, hes, hs⟩ := bind_eq_ok.mp hs
        obtain ⟨⟨d, es₂⟩, hrest, hs⟩ := bind_eq_ok.mp hs
        obtain ⟨-, rfl⟩ := sendBw_eq_ok.mp hes
        cases hs
        obtain ⟨hle, hbw⟩ := ih hrest
        refine ⟨?_, hbw⟩
        simp [work, hq, Event.work, Chan.ahead] at hle ⊢
        omega

/-- The queue `bw_thread` waits to read from in the only-DRS and the only-NDR branch is not
    empty. -/
def Poised (c : Controller) : Prop :=
  match c.bw with
  | .drsWait => c.rackQueue ≠ []
  | .ndrWait => c.wackQueue ≠ []
  | _ => True

theorem poised_hear (hp : Poised c) (e : Event) : Poised (c.hear e) := by
  rcases hear_cases c e with ⟨hc, -⟩ | ⟨h, p, -, hc⟩ | ⟨d, p, -, hc⟩ <;> rw [hc]
  · exact hp
  · cases hcmd : p.command <;> simpa [Poised, nbTransportFw, hcmd] using hp
  · cases hcmd : p.command <;> cases hb : c.bw <;> simp_all [Poised, nbTransportBw]

theorem poised_foldl (es : List Event) {c : Controller} (hp : Poised c) :
    Poised (es.foldl hear c) := by
  induction es generalizing c with
  | nil => exact hp
  | cons e es ih => exact ih (poised_hear hp e)

theorem poised_of_ok {r : Controller × List Event}
    (hs : (.ok r : Except Fault (Controller × List Event)) = .ok (c', es)) (h : Poised r.1) :
      Poised c' := by
  cases hs
  exact h

theorem poised_checkWrite (c : Controller) : Poised (checkWrite cfg c) ↔ Poised c := by
  unfold checkWrite
  split <;> exact Iff.rfl

theorem fwThread_poised (hp : Poised c) (hs : c.fwThread cfg = .ok (c', es)) : Poised c' := by
  unfold fwThread at hs
  split at hs
  · split at hs
    · exact poised_of_ok hs hp
    · exact poised_of_ok hs ((poised_checkWrite c).mpr hp)
  · obtain ⟨⟨p, q⟩, -, hs⟩ := bind_eq_ok.mp hs
    obtain ⟨es', -, hs⟩ := bind_eq_ok.mp hs
    exact poised_of_ok hs ((poised_checkWrite _).mpr hp)
  · obtain ⟨⟨p, q⟩, -, hs⟩ := bind_eq_ok.mp hs
    obtain ⟨es', -, hs⟩ := bind_eq_ok.mp hs
    exact poised_of_ok hs hp

theorem bwThread_poised (hs : c.bwThread cfg = .ok (c', es)) : Poised c' := by
  have hstep := bwThread_step hs
  generalize callsOn Chan.isDspBw es = ps at hstep
  cases hstep with
  | rest hb => simp [Poised, hb]
  | onlyDrs _ hr => exact hr
  | onlyNdr _ _ hw => exact hw
  | mixed => trivial
  | startDrs | sendDrs =>
      unfold drsRound
      split <;> trivial
  | startNdr | sendNdr =>
      unfold ndrRound
      split <;> trivial
  | sendMixed => trivial
  | sendLast => trivial

theorem act_poised {a : Act} (hp : Poised c) (hs : c.act cfg a = .ok (c', es)) : Poised c' := by
  cases a with
  | fw => exact fwThread_poised hp hs
  | bw => exact bwThread_poised hs

/-- A stretch of `bw_thread` walks up to a `wait` or sends acks on. -/
theorem bwThread_spends (hp : Poised c) (hs : c.bwThread cfg = .ok (c', es)) :
    Spends work c es c' := by
  unfold bwThread at hs
  split at hs
  · rename_i hb
    split at hs
    · exact Spends.of_ok hs (.refl c)
    · split at hs
      · exact Spends.of_ok hs (.inr (by simp [work, hb, CtrlBw.work]))
      · split at hs <;> exact Spends.of_ok hs (.inr (by simp [work, hb, CtrlBw.work]))
  · rename_i hb
    simp only [Poised, hb] at hp
    exact Spends.of_ok hs (.inr (by simp [drsRound, hp, work, hb, CtrlBw.work]))
  · rename_i i hb
    obtain ⟨⟨p, q⟩, hq, hs⟩ := bind_eq_ok.mp hs
    obtain ⟨es', hes, hs⟩ := bind_eq_ok.mp hs
    obtain ⟨-, rfl⟩ := sendBw_eq_ok.mp hes
    have hle := drsRound_work { c with rackQueue := q } (i + 1)
    refine Spends.of_ok hs (.inr (Nat.lt_of_le_of_lt (Nat.add_le_add_right hle _) ?_))
    simp [work, front_eq_ok.mp hq, hb, CtrlBw.work, Event.work, Chan.ahead]
    omega
  · rename_i hb
    simp only [Poised, hb] at hp
    exact Spends.of_ok hs (.inr (by simp [ndrRound, hp, work, hb, CtrlBw.work]))
  · rename_i i hb
    obtain ⟨⟨p, q⟩, hq, hs⟩ := bind_eq_ok.mp hs
    obtain ⟨es', hes, hs⟩ := bind_eq_ok.mp hs
    obtain ⟨-, rfl⟩ := sendBw_eq_ok.mp hes
    have hle := ndrRound_work { c with wackQueue := q } (i + 1)
    refine Spends.of_ok hs (.inr (Nat.lt_of_le_of_lt (Nat.add_le_add_right hle _) ?_))
    simp [work, front_eq_ok.mp hq, hb, CtrlBw.work, Event.work, Chan.ahead]
    omega
  · rename_i hb
    obtain ⟨⟨d, es'⟩, hmix, hs⟩ := bind_eq_ok.mp hs
    obtain ⟨hle, hbw⟩ := mixWrites_work hmix
    refine Spends.of_ok hs (.inr ?_)
    simp only [work, hbw, hb, CtrlBw.work] at hle ⊢
    omega
  · rename_i hb
    obtain ⟨⟨p, q⟩, hq, hs⟩ := bind_eq_ok.mp hs
    obtain ⟨es', hes, hs⟩ := bind_eq_ok.mp hs
    obtain ⟨-, rfl⟩ := sendBw_eq_ok.mp hes
    refine Spends.of_ok hs (.inr ?_)
    simp [work, front_eq_ok.mp hq, hb, CtrlBw.work, Event.work, Chan.ahead]
    omega

theorem act_spends {a : Act} (hp : Poised c) (hs : c.act cfg a = .ok (c', es)) :
    Spends work c es c' := by
  cases a with
  | fw => exact fwThread_spends hs
  | bw => exact bwThread_spends hp hs

end Controller

/-! ## MEMWrapper -/

namespace MemWrapper

variable {d n : Nat} {load : DataPtr → Nat → List UInt8}

def work (m : MemWrapper) : Nat :=
  56 * m.peq.length + 52 * (m.rQueue.length + m.wQueue.length) + 48 * m.memRequest.length +
    44 * m.inQueue.length + 40 * m.dram.length + 36 * m.outQueue.length +
    32 * (m.rackQueue.length + m.wackQueue.length) + m.running.toNat

theorem hear_work (m : MemWrapper) (e : Event) :
    (m.hear d e).work = m.work + if e.dest = some (.mem d) then e.work else 0 := by
  cases e with
  | call c p =>
      cases c with
      | memFw k =>
          by_cases hk : k = d
          · simp [hear, hk, nbTransportFw, work, Event.dest, Event.work, Chan.ahead]
            omega
          · simp [hear, hk, Event.dest]
      | _ => rfl
  | _ => rfl

theorem clockPosedge_spends (m : MemWrapper) : Spends work m [] m.clockPosedge := by
  cases hr : m.rQueue <;> cases hw : m.wQueue
  · refine .inl ⟨?_, rfl⟩
    cases m
    simp_all [clockPosedge]
  all_goals exact .inr (by simp [clockPosedge, work, hr, hw]; try omega)

theorem move_spends {m m' : MemWrapper} {es : List Event} (hm : Move d m es m') :
    Spends work m es m' := by
  cases hm with
  | posedge => exact clockPosedge_spends m
  | complete hi =>
      have hlen := List.length_eraseIdx_add_one (List.getElem?_eq_some_iff.mp hi).1
      refine .inr ?_
      simp [work, Event.work, Chan.ahead]
      omega
  | _ => exact .inr (by simp_all [work, Event.work, Chan.ahead]; try omega)

theorem act_spends {m m' : MemWrapper} {a : Act} {es : List Event}
    (hload : ∀ b n, load (.buffer b) n = b.take n) (hs : m.act d n load a = .ok (m', es)) :
    Spends work m es m' :=
  .of_chain (fun _ _ _ hm => move_spends hm) (act_chain hload hs)

end MemWrapper

/-! ## The simulator -/

namespace Sys

variable {cfg : Config} {s t : Sys} {a : Action} {ok : Sys → Action → Prop}

/-- The work that is left. -/
def work (cfg : Config) (s : Sys) : Nat :=
  ∑ h ∈ Finset.range cfg.hostNum, (s.sim h).work cfg + ∑ h ∈ Finset.range cfg.hostNum,
    (s.usp h).work +
    ∑ h ∈ Finset.range cfg.hostNum, (s.dsp h).work + s.ctrl.work + ∑ d ∈ Finset.range cfg.dramNum,
      (s.mem d).work

theorem sum_lt_of_one {f g : Nat → Nat} {n k c : Nat} (hk : k < n) (hother : ∀ i, i ≠ k → g i = f i)
    (hlt : g k + c < f k) : ∑ i ∈ Finset.range n, g i + c < ∑ i ∈ Finset.range n, f i := by
  have hmem := Finset.mem_range.mpr hk
  have hrest : ∑ i ∈ (Finset.range n).erase k, g i = ∑ i ∈ (Finset.range n).erase k, f i :=
    Finset.sum_congr rfl fun i hi => hother i (Finset.ne_of_mem_erase hi)
  rw [← Finset.add_sum_erase _ (fun i => g i) hmem,
    ← Finset.add_sum_erase _ (fun i => f i) hmem, hrest]
  omega

/-- A component that moved has spent what its events hand on. -/
theorem Stretch.spends {es : List Event} (ht : Stretch cfg s a es t)
    (ha : ∀ h packet, a ≠ .sim h (.recv packet)) (hdram : s.activeDram ≠ 0)
    (hp : Controller.Poised s.ctrl) :
    (t = s ∧ es = []) ∨ t.work cfg + workOf es < s.work cfg := by
  cases ht with
  | @sim h b w es hh hact =>
      rcases SimWrapper.act_spends (fun packet hb => ha h packet (by rw [hb])) hdram hact
        with ⟨rfl, rfl⟩ | hlt
      · exact .inl ⟨by rw [Function.update_eq_self], rfl⟩
      · have := sum_lt_of_one (f := fun i => (s.sim i).work cfg)
          (g := fun i => (Function.update s.sim h w i).work cfg) hh
          (fun i hi => by rw [Function.update_of_ne hi]) (by rw [Function.update_self]; exact hlt)
        refine .inr ?_
        simp only [work]
        omega
  | @usp h b u es hh hact =>
      rcases Usp.act_spends hact with ⟨rfl, rfl⟩ | hlt
      · exact .inl ⟨by rw [Function.update_eq_self], rfl⟩
      · have := sum_lt_of_one (f := fun i => (s.usp i).work)
          (g := fun i => (Function.update s.usp h u i).work) hh
          (fun i hi => by rw [Function.update_of_ne hi]) (by rw [Function.update_self]; exact hlt)
        refine .inr ?_
        simp only [work]
        omega
  | @dsp h b d es hh hact =>
      rcases Dsp.act_spends hact with ⟨rfl, rfl⟩ | hlt
      · exact .inl ⟨by rw [Function.update_eq_self], rfl⟩
      · have := sum_lt_of_one (f := fun i => (s.dsp i).work)
          (g := fun i => (Function.update s.dsp h d i).work) hh
          (fun i hi => by rw [Function.update_of_ne hi]) (by rw [Function.update_self]; exact hlt)
        refine .inr ?_
        simp only [work]
        omega
  | ctrl hact =>
      rcases Controller.act_spends hp hact with ⟨rfl, rfl⟩ | hlt
      · exact .inl ⟨rfl, rfl⟩
      · refine .inr ?_
        simp only [work]
        omega
  | @mem d b m es hd hact =>
      rcases MemWrapper.act_spends s.load_buffer hact with ⟨rfl, rfl⟩ | hlt
      · exact .inl ⟨by rw [Function.update_eq_self], rfl⟩
      · have := sum_lt_of_one (f := fun i => (s.mem i).work)
          (g := fun i => (Function.update s.mem d m i).work) hd
          (fun i hi => by rw [Function.update_of_ne hi]) (by rw [Function.update_self]; exact hlt)
        refine .inr ?_
        simp only [work]
        omega

/-- What the events hand on arrives. -/
theorem work_emit_one (s : Sys) (e : Event) : (s.emit [e]).work cfg ≤ s.work cfg + e.work := by
  have hsim : ∑ h ∈ Finset.range cfg.hostNum, (((s.emit [e]).sim h).work cfg) =
      ∑ h ∈ Finset.range cfg.hostNum,
      ((s.sim h).work cfg + if e.dest = some (.sim h) then e.work else 0) :=
    Finset.sum_congr rfl fun h _ => SimWrapper.hear_work (s.sim h) e
  have husp : ∑ h ∈ Finset.range cfg.hostNum, (((s.emit [e]).usp h).work) =
      ∑ h ∈ Finset.range cfg.hostNum,
      ((s.usp h).work + if e.dest = some (.usp h) then e.work else 0) :=
    Finset.sum_congr rfl fun h _ => Usp.hear_work (s.usp h) e
  have hdsp : ∑ h ∈ Finset.range cfg.hostNum, (((s.emit [e]).dsp h).work) =
      ∑ h ∈ Finset.range cfg.hostNum,
      ((s.dsp h).work + if e.dest = some (.dsp h) then e.work else 0) :=
    Finset.sum_congr rfl fun h _ => Dsp.hear_work h (s.dsp h) e
  have hctrl : (s.emit [e]).ctrl.work = s.ctrl.work + if e.dest = some .ctrl then e.work else 0 :=
    Controller.hear_work s.ctrl e
  have hmem : ∑ d ∈ Finset.range cfg.dramNum, (((s.emit [e]).mem d).work) =
      ∑ d ∈ Finset.range cfg.dramNum,
      ((s.mem d).work + if e.dest = some (.mem d) then e.work else 0) :=
    Finset.sum_congr rfl fun d _ => MemWrapper.hear_work (s.mem d) e
  unfold work
  rw [hsim, husp, hdsp, hctrl, hmem]
  simp only [Finset.sum_add_distrib]
  cases e.dest with
  | none => simp
  | some k =>
      cases k with
      | ctrl =>
          simp
          omega
      | _ =>
          simp [Finset.sum_ite_eq]
          split <;> omega

theorem work_emit (s : Sys) (es : List Event) : (s.emit es).work cfg ≤ s.work cfg + workOf es := by
  induction es generalizing s with
  | nil => exact Nat.le_refl _
  | cons e es ih =>
      have happ : s.emit (e :: es) = (s.emit [e]).emit es := (emit_append s [e] es).symm
      have hone := @work_emit_one cfg s e
      have hrest := ih (s.emit [e])
      rw [happ, workOf_cons]
      omega

theorem emit_nil (s : Sys) : s.emit [] = s := by
  simp [emit]

/-- Without a packet from a host, and while the devices run, a step changes nothing or lowers the
    work. -/
theorem step_work (ha : ∀ h packet, a ≠ .sim h (.recv packet)) (hdram : s.activeDram ≠ 0)
    (hp : Controller.Poised s.ctrl) (hs : step cfg s a = .ok t) :
      t = s ∨ t.work cfg < s.work cfg := by
  obtain ⟨-, es, u, hu, rfl⟩ := step_eq_ok.mp hs
  rcases hu.spends ha hdram hp with ⟨rfl, rfl⟩ | hlt
  · exact .inl (emit_nil u)
  · exact .inr (Nat.lt_of_le_of_lt (work_emit u es) hlt)

/-- The controller is poised in every reachable state. -/
theorem ReachableBy.ctrlPoised (hr : ReachableBy cfg ok s) : Controller.Poised s.ctrl := by
  refine Reach.invariant (P := fun s => Controller.Poised s.ctrl) (by exact trivial)
    (fun s a t _ _ hp hs => ?_) hr
  obtain ⟨-, es, u, hu, rfl⟩ := step_eq_ok.mp hs
  cases hu with
  | ctrl hact => exact Controller.poised_foldl es (Controller.act_poised hp hact)
  | _ => exact Controller.poised_foldl es hp

end Sys

end TSim4CXL
