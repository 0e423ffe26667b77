/-
  Orderly runs: no two requests of one command and address are in flight for different hosts,
  packets name devices there are, and an ack is taken off the event queue of a SIMWrapper when its
  slot is free.

  `ReachableBy.acks_kept`: then no ack is lost, every ack handed to a SIMWrapper was consumed or is
  still there. `ReachableBy.live`: while a core is active all devices run and nobody stops the
  simulation.
-/
import TSim4CXL.Properties.Faults
import TSim4CXL.Properties.Lifetimes
import TSim4CXL.Properties.Accounting
import TSim4CXL.Properties.Shutdown

namespace TSim4CXL

open Transition

/-! ## No ack is lost -/

namespace SimWrapper

variable {cfg : Config} {h : Nat} {env : SimEnv} {w w' : SimWrapper} {es : List Event}

theorem Move.peq_length_le (hm : Move cfg h env w es w') : w'.peq.length ≤ w.peq.length := by
  cases hm with
  | peqRead hq _ => simp [hq]
  | peqWrite hq _ => simp [hq]
  | _ => exact Nat.le_refl _

/-- With its slot free an ack moves on, and so all acks are consumed or still there. -/
theorem Move.length_ackSlots (hm : Move cfg h env w es w')
    (hfree : w'.peq.length = w.peq.length ∨ LoneHost.SlotFree w) :
    (sent (.endResp h) es).length + w'.ackSlots.length = w.ackSlots.length := by
  unfold ackSlots
  cases hm with
  | control _ _ _ _ _ _ hes _ => simp [sent_quiet _ hes]
  | createRead => simp [handleReadPacket]
  | createWrite => simp [handleWritePacket]
  | forwardRead => simp
  | forwardWrite => simp
  | rack hq => simp [hq]; omega
  | respond hq => simp [hq]; omega
  | wack hq => simp [hq]; omega
  | signal hq => simp [hq]; omega
  | posedge => simp [clockPosedge]; omega
  | @peqRead p q hq hc =>
      have hslot := hfree.resolve_left (by simp [hq]) p (by simp [hq])
      rw [hc] at hslot
      have hnone : w.rackIncoming = none := hslot
      simp [hq, hnone]
      omega
  | @peqWrite p q hq hc =>
      have hslot := hfree.resolve_left (by simp [hq]) p (by simp [hq])
      rw [hc] at hslot
      have hnone : w.wackIncoming = none := hslot
      simp [hq, hnone]
      omega

theorem chain_ackSlots (hc : Chain (fun w es w' => Move cfg h env w es w' ∧
      (w'.peq.length = w.peq.length ∨ LoneHost.SlotFree w)) w es w') :
    (sent (.endResp h) es).length + w'.ackSlots.length = w.ackSlots.length := by
  induction hc with
  | nil => simp
  | cons hm _ ih =>
      have := hm.1.length_ackSlots hm.2
      rw [sent_append, List.length_append]
      omega

theorem act_ackSlots {a : Act} (hfree : a = .peq → LoneHost.SlotFree w)
    (hs : w.act cfg h env a = .ok (w', es)) :
    (sent (.endResp h) es).length + w'.ackSlots.length = w.ackSlots.length := by
  by_cases ha : a = .peq
  · subst ha
    simp only [act] at hs
    split at hs
    · cases hs
    · rename_i hw
      cases hs
      have hmove : Move cfg h env w [] _ := peqCb_move hw
      exact hmove.length_ackSlots (.inr (hfree rfl))
  · have hlen : w'.peq.length = w.peq.length := congrArg List.length (act_peq ha hs)
    exact chain_ackSlots (((act_chain hs).of_measure (f := fun w => w.peq.length)
      (fun _ _ _ => Move.peq_length_le) hlen).mono fun _ _ _ hm => ⟨hm.1, .inl hm.2⟩)

theorem foldl_hear_ackSlots (es : List Event) (w : SimWrapper) :
    (es.foldl (hear h) w).ackSlots.length = w.ackSlots.length + (sent (.simBw h) es).length := by
  induction es generalizing w with
  | nil => rfl
  | cons e es ih =>
      rw [List.foldl_cons, ih, ← List.singleton_append (x := e), sent_append, List.length_append]
      rcases hear_cases (h := h) w e with ⟨hw, hs⟩ | ⟨p, rfl, hw⟩
      · rw [hw, hs, List.length_nil, Nat.zero_add]
      · rw [hw]
        simp [ackSlots]
        omega

/-! ## Going on -/

theorem notDone_of_ok {r : SimWrapper × List Event}
    (hs : (.ok r : Except Fault (SimWrapper × List Event)) = .ok (w', es))
    (h : r.1.proc ≠ .done ∧ ∀ k, .stop k ∉ r.2) : w'.proc ≠ .done ∧ ∀ k, .stop k ∉ es := by
  cases hs
  exact h

theorem handlePacket_notDone (hdram : env.activeDram ≠ 0) (w : SimWrapper) (packet : Packet) :
    (handlePacket h env w packet).1.proc ≠ .done ∧ ∀ k, .stop k ∉
    (handlePacket h env w packet).2 := by
  unfold handlePacket pollGate endIteration
  split
  · refine ⟨by simp, fun k => ?_⟩
    split <;> simp
  · simp
  · simp [hdram]

/-- With `active_dram` set nobody leaves the main loop. -/
theorem act_notDone {a : Act} (hdram : env.activeDram ≠ 0) (hw : w.proc ≠ .done)
    (hs : w.act cfg h env a = .ok (w', es)) : w'.proc ≠ .done ∧ ∀ k, .stop k ∉ es := by
  cases a with
  | recv packet =>
      simp only [act, recv] at hs
      split at hs
      · split at hs
        · exact notDone_of_ok hs (by simp)
        · exact notDone_of_ok hs (handlePacket_notDone hdram _ _)
      · cases hs
  | process =>
      simp only [act, process] at hs
      split at hs
      · split at hs
        · exact notDone_of_ok hs ⟨hw, by simp⟩
        · refine notDone_of_ok hs ?_
          simp only [endIteration, hdram, if_false]
          cases w.terminated <;> simp
      · exact notDone_of_ok hs (handlePacket_notDone hdram _ _)
      · refine notDone_of_ok hs ⟨by simp [pollGate], fun k => ?_⟩
        unfold pollGate
        split <;> simp
      · exact notDone_of_ok hs (by simp)
      · exact notDone_of_ok hs (by simp [handleReadPacket])
      · exact notDone_of_ok hs (by simp [handleWritePacket])
      · cases hs
  | posedge =>
      cases hs
      exact ⟨hw, by simp⟩
  | negedge =>
      obtain ⟨hproc, -, -, hdata⟩ := clockNegedge_frame hs
      exact ⟨hproc ▸ hw, fun k hk => (hdata _ hk).elim⟩
  | peq =>
      simp only [act] at hs
      split at hs
      · cases hs
      · rename_i hpeq
        cases hs
        obtain ⟨hproc, -, -, hdata⟩ := peqCb_frame (h := h) hpeq
        exact ⟨hproc ▸ hw, fun k hk => (hdata _ hk).elim⟩

end SimWrapper

/-- A device leaves its loop with `active_dram = 0` only. -/
theorem MemWrapper.chain_running {d : Nat} {m m' : MemWrapper} {es : List Event}
    (hc : Chain (Move d) m es m') (hm : m.running = true) (hes : .dramIdle d ∉ es) :
      m'.running = true := by
  induction hc with
  | nil => exact hm
  | cons hmove _ ih =>
      simp only [List.mem_append, not_or] at hes
      refine ih ?_ hes.2
      cases hmove with
      | idle => simp at hes
      | _ => exact hm

namespace Sys

variable {cfg : Config} {s t : Sys} {a : Action} {ok : Sys → Action → Prop}

/-- An ack is taken off the event queue when its slot is free. -/
def SlotFree (s : Sys) : Action → Prop
  | .sim h .peq => LoneHost.SlotFree (s.sim h)
  | _ => True

instance (s : Sys) (a : Action) : Decidable (SlotFree s a) :=
  match a with
  | .sim h .peq => inferInstanceAs (Decidable (LoneHost.SlotFree (s.sim h)))
  | .sim _ (.recv _) => isTrue trivial
  | .sim _ .process => isTrue trivial
  | .sim _ .posedge => isTrue trivial
  | .sim _ .negedge => isTrue trivial
  | .usp _ _ => isTrue trivial
  | .dsp _ _ => isTrue trivial
  | .ctrl _ => isTrue trivial
  | .mem _ _ => isTrue trivial

/-- Every ack handed to SIMWrapper `h` was consumed or is still there. -/
theorem ReachableBy.acks_kept (hr : ReachableBy cfg ok s) (hok : ∀ s a, ok s a → SlotFree s a)
    (h : Nat) :
    (sent (.endResp h) s.log).length + (s.sim h).ackSlots.length =
      (sent (.simBw h) s.log).length := by
  refine Reach.invariant (P := fun s => (sent (.endResp h) s.log).length +
    (s.sim h).ackSlots.length =
    (sent (.simBw h) s.log).length) (by rfl) (fun s a t _ ha hk hs => ?_) hr
  obtain ⟨-, es, u, hu, rfl⟩ := step_eq_ok.mp hs
  have hsrc := hu.source
  have hl : (u.emit es).log = s.log ++ es := congrArg (· ++ es) hu.log
  have hsim : ((u.emit es).sim h).ackSlots.length =
      (u.sim h).ackSlots.length + (sent (.simBw h) es).length :=
    SimWrapper.foldl_hear_ackSlots es (u.sim h)
  rw [hl, sent_append, sent_append, List.length_append, List.length_append, hsim]
  by_cases ho : a.owner = .sim h
  · cases hu with
    | @sim k b w es hh hact =>
        cases ho
        have := SimWrapper.act_ackSlots (fun hb => by subst hb; exact hok _ _ ha) hact
        simp only [Function.update_self]
        omega
    | _ => cases ho
  · have hnone : sent (.endResp h) es = [] := sent_eq_nil _ (owner_ne hsrc ho)
    rw [hu.sim_other ho, hnone, List.length_nil]
    omega

/-! ## While a core is active -/

/-- The devices run, and no SIMWrapper has left its loop. -/
structure Running (s : Sys) : Prop where
  dram : s.activeDram ≠ 0
  stopped : s.stopped = false
  mem : ∀ d, (s.mem d).running = true
  proc : ∀ h, (s.sim h).proc ≠ .done

theorem foldl_hear_running (d : Nat) (es : List Event) (m : MemWrapper) :
    (es.foldl (MemWrapper.hear d) m).running = m.running := by
  induction es generalizing m with
  | nil => rfl
  | cons e es ih =>
      rw [List.foldl_cons, ih]
      rcases MemWrapper.hear_cases (d := d) m e with ⟨hm, -⟩ | ⟨p, -, hm⟩ <;> rw [hm]
      rfl

theorem Stretch.running {es : List Event} (hu : Stretch cfg s a es t) (hr : ReachableBy cfg ok s)
    (hcores : s.activeCores ≠ 0) (h : Running s) : Running (t.emit es) := by
  have hsrc := hu.source
  have hdram : (t.emit es).activeDram = es.foldl hearDram s.activeDram := by cases hu <;> rfl
  have hstop : (t.emit es).stopped = es.foldl hearStop s.stopped := by cases hu <;> rfl
  suffices hnew : (∀ d, (t.mem d).running = true) ∧ (∀ h, (t.sim h).proc ≠ .done) ∧
      (∀ d, .dramIdle d ∉ es) ∧ ∀ k, .stop k ∉ es by
    obtain ⟨hmem, hproc, hidle, hquit⟩ := hnew
    refine ⟨fun h0 => ?_, Bool.eq_false_iff.mpr fun h1 => ?_, fun d => ?_, fun k => ?_⟩
    · rw [hdram, foldl_hearDram] at h0
      rcases h0 with h0 | ⟨d, hd⟩
      · exact h.dram h0
      · exact hidle d hd
    · rw [hstop, foldl_hearStop] at h1
      rcases h1 with h1 | ⟨k, hk⟩
      · exact absurd h.stopped (by simp [h1])
      · exact hquit k hk
    · exact (foldl_hear_running d es _).trans (hmem d)
    · exact fun hdone => hproc k ((foldl_hear_control k es _).1.symm.trans hdone)
  cases hu with
  | @sim k b w es hh hact =>
      obtain ⟨hw, hquit⟩ := SimWrapper.act_notDone h.dram (h.proc k) hact
      refine ⟨h.mem, fun i => ?_, fun d hd => (by cases hsrc _ hd), hquit⟩
      by_cases hi : i = k
      · subst hi
        simpa using hw
      · simpa [Function.update_of_ne hi] using h.proc i
  | @mem d b m es hd hact =>
      have hout : (s.mem d).mOutstanding < 4294967296 := by
        rw [hr.memOutstanding d, u32]
        omega
      have hidle : ∀ k, .dramIdle k ∉ es := fun k hk => by
        obtain ⟨-, -, -, hzero, -⟩ := MemWrapper.act_dramIdle hout hact hk
        exact hcores hzero
      have hrun :=
        MemWrapper.chain_running (MemWrapper.act_chain s.load_buffer hact) (h.mem d) (hidle d)
      refine ⟨fun i => ?_, h.proc, hidle, fun k hk => (by cases hsrc _ hk)⟩
      by_cases hi : i = d
      · subst hi
        simpa using hrun
      · simpa [Function.update_of_ne hi] using h.mem i
  | _ => exact ⟨h.mem, h.proc, fun d hd => (by cases hsrc _ hd), fun k hk => (by cases hsrc _ hk)⟩

theorem activeCores_emit {es : List Event} (hu : Stretch cfg s a es t) :
    (t.emit es).activeCores = s.activeCores - es.countP isCoreDone := by
  rw [← foldl_hearCores]
  cases hu <;> rfl

/-- While a core is active everything goes on. -/
theorem ReachableBy.running (hr : ReachableBy cfg ok s) (hcores : s.activeCores ≠ 0) :
    Running s := by
  refine Reach.invariant (P := fun s => s.activeCores ≠ 0 → Running s) (fun _ => ?_)
    (fun s a t hrs _ hrun hs hcores => ?_) hr hcores
  · exact ⟨by simp [init], rfl, fun _ => rfl, fun _ => by simp [init, SimWrapper.init]⟩
  · obtain ⟨-, es, u, hu, rfl⟩ := step_eq_ok.mp hs
    have hbefore := activeCores_emit hu
    have hcores' : s.activeCores ≠ 0 := by omega
    exact hu.running hrs hcores' (hrun hcores')

/-! ## Orderly runs -/

/-- The steps of an orderly run. -/
structure Orderly (cfg : Config) (s : Sys) (a : Action) : Prop where
  clash : NoClashes cfg s a
  addressed : PacketAddressed cfg a
  slot : SlotFree s a

instance (cfg : Config) (s : Sys) (a : Action) : Decidable (Orderly cfg s a) :=
  decidable_of_iff (NoClashes cfg s a ∧ PacketAddressed cfg a ∧ SlotFree s a)
    ⟨fun h => ⟨h.1, h.2.1, h.2.2⟩, fun h => ⟨h.clash, h.addressed, h.slot⟩⟩

end Sys

end TSim4CXL
