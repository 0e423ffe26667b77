/-
  What stays behind in a USP.

  Reads leave in pairs and the last write of a round of four is flushed from phase 4
  only, so whether everything leaves is decided by the number of payloads. A USP is run
  alone here (`Usp.aloneStep`): any payloads and acks may arrive at any time.
  `nothing_stranded_iff`: in a state in which `fw_thread` has nothing to do, the three
  queues are empty if and only if the reads are a multiple of 2 and the writes a
  multiple of 4. `ReachableBy.usp_empty_iff` says the same of each USP of the simulator.
-/
import TSim4CXL.Trace.Path

namespace TSim4CXL

open Transition

namespace Usp

variable {cfg : Config} {h : Nat}

/-! ## A USP alone -/

/-- What can happen at a USP: a request or an ack arrives, or a thread takes a stretch. -/
inductive AloneAct
  | forward (p : Payload)
  | ack (p : Payload)
  | thread (a : Act)

/-- One step of a USP and its log. -/
def aloneStep (cfg : Config) (h : Nat) (s : Usp × List Event) :
    AloneAct → Except Fault (Usp × List Event)
  | .forward p => .ok (s.1.hear h (.call (.uspFw h) p), s.2 ++ [.call (.uspFw h) p])
  | .ack p => .ok (s.1.hear h (.call (.uspBw h) p), s.2 ++ [.call (.uspBw h) p])
  | .thread a =>
      match s.1.act cfg h a with
      | .ok (u, es) => .ok (u, s.2 ++ es)
      | .error e => .error e

/-- The USP in it. -/
def aloneView (cfg : Config) (h : Nat) : View (component cfg h) (aloneStep cfg h) Prod.snd where
  comp := Prod.fst
  covers {s a s'} hs := by
    cases a with
    | forward p =>
        cases hs
        exact ⟨_, rfl, .inr ⟨by simp [component, Event.source, Chan.source], rfl⟩⟩
    | ack p =>
        cases hs
        exact ⟨_, rfl, .inr ⟨by simp [component, Event.source, Chan.source], rfl⟩⟩
    | thread a =>
        simp only [aloneStep] at hs
        split at hs
        · rename_i ha
          cases hs
          exact ⟨_, rfl, .inl (act_chain ha)⟩
        · cases hs

/-- A stretch of a thread. -/
theorem aloneStep_thread {s t : Usp × List Event} {a : Act} :
    aloneStep cfg h s (.thread a) = .ok t ↔
      ∃ u es, s.1.act cfg h a = .ok (u, es) ∧ (u, s.2 ++ es) = t := by
  simp only [aloneStep]
  cases s.1.act cfg h a with
  | error e => simp
  | ok r =>
    obtain ⟨u, es⟩ := r
    simp

theorem alone_phase {s : Usp × List Event}
    (hs : Reach (aloneStep cfg h) anyStep (init, []) s) :
    Phase s.1 :=
  (aloneView cfg h).always uspPhase_closed (by exact Or.inl ⟨rfl, rfl⟩) hs

theorem alone_counts {s : Usp × List Event}
    (hs : Reach (aloneStep cfg h) anyStep (init, []) s) :
    Queues h s.1 s.2 ∧ Counts h s.1 s.2 :=
  (aloneView cfg h).always uspCounts_closed
    (by exact ⟨fun c => by cases c <;> rfl, rfl, rfl⟩) hs

/-! ## Nothing left to do -/

/-- `fw_thread` has no enabled action: between two iterations, no write queued, not in phase 4
    and fewer reads than a flit takes. -/
def Quiescent (u : Usp) : Prop :=
  u.fw = .idle ∧ u.wQueue = [] ∧ u.fIdx ≠ 4 ∧ u.rQueue.length < rMsg

/-- No request is left. -/
def Empty (u : Usp) : Prop := u.rQueue = [] ∧ u.wQueue = [] ∧ u.pendingQueue = []

theorem Queues.reads {u : Usp} {l : List Event} (hq : Queues h u l) (hc : Counts h u l) :
    (ofCmd .read (sent (.uspFw h) l)).length % 2 = u.rQueue.length % 2 := by
  have hl := congrArg List.length (hq .read)
  rw [List.length_append] at hl
  have := hc.2
  simp only [fwContents] at hl
  omega

theorem Queues.writes {u : Usp} {l : List Event} (hq : Queues h u l) (hc : Counts h u l)
    (hw : u.wQueue = []) : (ofCmd .write (sent (.uspFw h) l)).length % 4 = u.fIdx % 4 := by
  have hl := congrArg List.length (hq .write)
  have := hc.1
  simp only [fwContents, hw, List.length_append, List.length_nil] at hl
  omega

/-- The three queues of a USP with nothing to do are empty exactly when the payloads received
    fill whole read flits and whole rounds of write flits. -/
theorem empty_iff {u : Usp} {l : List Event} (hq : Queues h u l) (hc : Counts h u l)
    (hp : Phase u) (hn : Quiescent u) : Empty u ↔
      2 ∣ (ofCmd .read (sent (.uspFw h) l)).length ∧
      4 ∣ (ofCmd .write (sent (.uspFw h) l)).length := by
  obtain ⟨hf, hw, h4, hr⟩ := hn
  have hreads := hq.reads hc
  have hwrites := hq.writes hc hw
  simp only [rMsg] at hr
  simp only [Phase, hf, Settled] at hp
  simp only [Empty, hw, true_and, Nat.dvd_iff_mod_eq_zero, hreads, hwrites]
  refine and_congr ?_ ?_
  · rw [← List.length_eq_zero_iff]
    omega
  · rcases hp with ⟨h0, hp⟩ | ⟨h1, h4', p, hp⟩
    · simp [h0, hp]
    · simp only [hp, reduceCtorEq, false_iff]
      omega

/-- A USP with `r` read packets and `w` write packets received, and nothing to do: every request
    has been forwarded if and only if the reads pair up and the writes fill rounds of four. -/
theorem nothing_stranded_iff {s : Usp × List Event} {r w : Nat}
    (hs : Reach (aloneStep cfg h) anyStep (init, []) s) (hn : Quiescent s.1)
    (hr : (ofCmd .read (sent (.uspFw h) s.2)).length = cfg.payloadNum * r)
    (hw : (ofCmd .write (sent (.uspFw h) s.2)).length = cfg.payloadNum * w) :
    Empty s.1 ↔ 2 ∣ cfg.payloadNum * r ∧ 4 ∣ cfg.payloadNum * w := by
  obtain ⟨hqueues, hcounts⟩ := alone_counts hs
  rw [← hr, ← hw]
  exact empty_iff hqueues hcounts (alone_phase hs) hn

/-- The payloads of one write packet of the small configuration, then ten iterations. -/
def onePacket (payloads : Nat) : Usp × List Event :=
  runSkip (aloneStep (smallConfig 1 1 payloads) 0) anyStep (init, [])
    ((SimWrapper.writePayloads (smallConfig 1 1 payloads) 0 (.fill .write 8 7) 0).map .forward ++
      List.replicate 10 (.thread .fw))

theorem nothing_stranded_of_four : Empty (onePacket 4).1 :=
  (@nothing_stranded_iff (smallConfig 1 1 4) 0 _ 0 1 (reach_runSkip _ _)
    (by unfold Quiescent; decide +kernel) (by decide +kernel) (by decide +kernel)).mpr (by decide)

/-- One write packet of one payload: it stays in `pending_queue` for good. -/
theorem single_write_stranded :
    Reach (aloneStep (smallConfig 1 1 1) 0) anyStep (init, []) (onePacket 1) ∧
      Quiescent (onePacket 1).1 ∧ (ofCmd .write (sent (.uspFw 0) (onePacket 1).2)).length = 1 ∧
      (ofCmd .read (sent (.uspFw 0) (onePacket 1).2)).length = 0 ∧ ¬ Empty (onePacket 1).1 :=
  ⟨reach_runSkip _ _, by unfold Quiescent; decide +kernel, by decide +kernel, by decide +kernel,
    by unfold Empty; decide +kernel⟩

end Usp

/-! ## In the simulator -/

namespace Sys

variable {cfg : Config} {s : Sys} {ok : Sys → Action → Prop}

/-- In the simulator: a host has forwarded everything and its USP has nothing to do. -/
theorem ReachableBy.usp_empty_iff (hr : ReachableBy cfg ok s) (h : Nat)
    (hsim : (s.sim h).rQueue = [] ∧ (s.sim h).wQueue = []) (hn : (s.usp h).Quiescent) :
    (s.usp h).Empty ↔ 2 ∣ cfg.payloadNum * (readsOf h s.log).length ∧
      4 ∣ cfg.payloadNum * (writesOf h s.log).length := by
  obtain ⟨hread, hwrite⟩ := hr.simQueues h
  rw [hsim.1, List.append_nil] at hread
  rw [hsim.2, List.append_nil] at hwrite
  rw [← (hr.create_length h).1, ← (hr.create_length h).2, hread, hwrite]
  exact Usp.empty_iff (hr.uspQueues h) (hr.uspCounts h) (hr.uspPhase h) hn

end Sys

end TSim4CXL
