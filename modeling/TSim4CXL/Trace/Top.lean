/-
  The simulator seen through one component at a time.

  `Sys.step_eq_ok` is the one place where `Sys.step` is taken apart: a step is a stretch
  of one component, whose events all come from that component, and everybody hears them.
  `simView` to `memView` turn that into a `View`, so that every relation proved in the
  other `Trace` modules holds in every reachable state.
-/
import TSim4CXL.Model.Top
import TSim4CXL.Trace.SimWrapper
import TSim4CXL.Trace.Usp
import TSim4CXL.Trace.Controller
import TSim4CXL.Trace.MemWrapper

namespace TSim4CXL

open Transition

namespace Sys

variable {cfg : Config} {s s' : Sys} {a : Action}

/-! ## Steps -/

/-- One component moves; its events are not heard yet. -/
inductive Stretch (cfg : Config) (s : Sys) : Action → List Event → Sys → Prop
  | sim {h : Nat} {b : SimWrapper.Act} {w : SimWrapper} {es : List Event} (hh : h < cfg.hostNum)
      (ha : (s.sim h).act cfg h s.env b = .ok (w, es)) :
      Stretch cfg s (.sim h b) es { s with sim := Function.update s.sim h w }
  | usp {h : Nat} {b : Usp.Act} {u : Usp} {es : List Event} (hh : h < cfg.hostNum)
      (ha : (s.usp h).act cfg h b = .ok (u, es)) :
      Stretch cfg s (.usp h b) es { s with usp := Function.update s.usp h u }
  | dsp {h : Nat} {b : Dsp.Act} {d : Dsp} {es : List Event} (hh : h < cfg.hostNum)
      (ha : (s.dsp h).act h b = (d, es)) :
      Stretch cfg s (.dsp h b) es { s with dsp := Function.update s.dsp h d }
  | ctrl {b : Controller.Act} {c : Controller} {es : List Event}
      (ha : s.ctrl.act cfg b = .ok (c, es)) : Stretch cfg s (.ctrl b) es { s with ctrl := c }
  | mem {d : Nat} {b : MemWrapper.Act} {m : MemWrapper} {es : List Event} (hd : d < cfg.dramNum)
      (ha : (s.mem d).act d s.activeCores s.load b = .ok (m, es)) :
      Stretch cfg s (.mem d b) es { s with mem := Function.update s.mem d m }

theorem step_eq_ok : step cfg s a = .ok s' ↔
    s.stopped = false ∧ ∃ es t, Stretch cfg s a es t ∧ s' = t.emit es := by
  constructor
  · intro hs
    unfold step at hs
    split at hs
    · cases hs
    · rename_i hstop
      refine ⟨by simpa using hstop, ?_⟩
      split at hs
      · split at hs
        · rename_i hh
          split at hs
          · rename_i ha
            cases hs
            exact ⟨_, _, .sim hh ha, rfl⟩
          · cases hs
        · cases hs
      · split at hs
        · rename_i hh
          split at hs
          · rename_i ha
            cases hs
            exact ⟨_, _, .usp hh ha, rfl⟩
          · cases hs
        · cases hs
      · split at hs
        · rename_i hh
          cases hs
          exact ⟨_, _, .dsp hh rfl, rfl⟩
        · cases hs
      · split at hs
        · rename_i ha
          cases hs
          exact ⟨_, _, .ctrl ha, rfl⟩
        · cases hs
      · split at hs
        · rename_i hd
          split at hs
          · rename_i ha
            cases hs
            exact ⟨_, _, .mem hd ha, rfl⟩
          · cases hs
        · cases hs
  · rintro ⟨hstop, es, t, ht, rfl⟩
    cases ht with
    | sim hh ha => simp [step, hstop, hh, ha]
    | usp hh ha => simp [step, hstop, hh, ha]
    | dsp hh ha => simp [step, hstop, hh, ha]
    | ctrl ha => simp [step, hstop, ha]
    | mem hd ha => simp [step, hstop, hd, ha]

theorem emit_append (s : Sys) (es es' : List Event) :
    (s.emit es).emit es' = s.emit (es ++ es') := by
  simp only [emit, List.foldl_append, List.append_assoc]

theorem load_buffer (s : Sys) (b : List UInt8) (n : Nat) : s.load (.buffer b) n = b.take n := rfl

/-- The events of a step come from the component that moved. -/
theorem Stretch.source {es : List Event} {t : Sys} (ht : Stretch cfg s a es t) :
    ∀ e ∈ es, e.source = a.owner := by
  cases ht with
  | sim hh ha => exact (SimWrapper.act_chain ha).forall_mem fun _ _ _ hm => hm.source
  | usp hh ha => exact (Usp.act_chain ha).forall_mem fun _ _ _ hm => hm.source
  | dsp hh ha => exact Dsp.act_source ha
  | ctrl ha => exact (Controller.act_chain ha).forall_mem fun _ _ _ hm => hm.source
  | mem hd ha => exact (MemWrapper.act_chain s.load_buffer ha).forall_mem fun _ _ _ hm => hm.source

/-- A step does not touch the log but for its events. -/
theorem Stretch.log {es : List Event} {t : Sys} (ht : Stretch cfg s a es t) : t.log = s.log := by
  cases ht <;> rfl

/-- A SIMWrapper that does not move stays as it is. -/
theorem Stretch.sim_other {es : List Event} {t : Sys} (ht : Stretch cfg s a es t) {h : Nat}
    (ho : a.owner ≠ .sim h) : t.sim h = s.sim h := by
  cases ht with
  | @sim k =>
      have hk : h ≠ k := fun hk => ho (by rw [hk]; rfl)
      exact Function.update_of_ne hk _ _
  | _ => rfl

theorem log_step (hs : step cfg s a = .ok s') : ∃ es, s'.log = s.log ++ es := by
  obtain ⟨-, es, t, ht, rfl⟩ := step_eq_ok.mp hs
  exact ⟨es, congrArg (· ++ es) ht.log⟩

/-! ## Views -/

/-- Nobody hears its own events. -/
theorem foldl_hear_id {κ : Type} (hear : κ → Event → κ) {es : List Event}
    (h : ∀ c, ∀ e ∈ es, hear c e = c) (c : κ) : es.foldl hear c = c := by
  induction es with
  | nil => rfl
  | cons e es ih =>
      rw [List.foldl_cons, h c e List.mem_cons_self]
      exact ih fun c e' he => h c e' (List.mem_cons_of_mem _ he)

theorem sim_hear_own {h : Nat} {e : Event} (he : e.source = .sim h) (w : SimWrapper) :
    w.hear h e = w :=
  SimWrapper.hear_of_source_ne (by simp [he])

theorem usp_hear_own {h : Nat} {e : Event} (he : e.source = .usp h) (u : Usp) : u.hear h e = u := by
  rcases Usp.hear_cases (h := h) u e with ⟨hu, -⟩ | ⟨p, rfl, -⟩ | ⟨p, rfl, -⟩
  · exact hu
  · cases he
  · cases he

theorem dsp_hear_own {h : Nat} {e : Event} (he : e.source = .dsp h) (d : Dsp) : d.hear h e = d := by
  rcases Dsp.hear_cases (h := h) d e with ⟨hd, -⟩ | ⟨p, rfl, -⟩ | ⟨p, rfl, -⟩
  · exact hd
  · cases he
  · cases he

theorem ctrl_hear_own {e : Event} (he : e.source = .ctrl) (c : Controller) : c.hear e = c := by
  rcases Controller.hear_cases c e with ⟨hc, -⟩ | ⟨h, p, rfl, -⟩ | ⟨d, p, rfl, -⟩
  · exact hc
  · cases he
  · cases he

theorem mem_hear_own {d : Nat} {e : Event} (he : e.source = .mem d) (m : MemWrapper) :
    m.hear d e = m := by
  rcases MemWrapper.hear_cases (d := d) m e with ⟨hm, -⟩ | ⟨p, rfl, -⟩
  · exact hm
  · cases he

/-- The state around a component that did not move is the state before. -/
theorem owner_ne {es : List Event} {c : Comp} (hes : ∀ e ∈ es, e.source = a.owner)
    (hc : a.owner ≠ c) : ∀ e ∈ es, e.source ≠ c := fun e he => by
  rw [hes e he]
  exact hc

/-- SIMWrapper `h` in the simulator. -/
def simView (cfg : Config) (h : Nat) : View (SimWrapper.component cfg h) (step cfg) Sys.log where
  comp s := s.sim h
  covers {s a s'} hs := by
    obtain ⟨-, es, t, ht, rfl⟩ := step_eq_ok.mp hs
    refine ⟨es, congrArg (· ++ es) ht.log, ?_⟩
    have hsrc := ht.source
    by_cases ho : a.owner = .sim h
    · left
      cases ht with
      | sim hh ha =>
          cases ho
          have hc := (SimWrapper.act_chain ha).mono (S := (SimWrapper.component cfg h).move)
            fun _ _ _ hm => ⟨_, hm⟩
          have hw := foldl_hear_id _ (fun c e he => sim_hear_own (hsrc e he) c)
          simpa [emit, hw] using hc
      | _ => cases ho
    · refine .inr ⟨owner_ne hsrc ho, ?_⟩
      simp [emit, SimWrapper.component, ht.sim_other ho]

/-- USP `h` in the simulator. -/
def uspView (cfg : Config) (h : Nat) : View (Usp.component cfg h) (step cfg) Sys.log where
  comp s := s.usp h
  covers {s a s'} hs := by
    obtain ⟨-, es, t, ht, rfl⟩ := step_eq_ok.mp hs
    refine ⟨es, congrArg (· ++ es) ht.log, ?_⟩
    have hsrc := ht.source
    by_cases ho : a.owner = .usp h
    · left
      cases ht with
      | usp hh ha =>
          cases ho
          have hc : Chain (Usp.component cfg h).move _ _ _ := Usp.act_chain ha
          have hu := foldl_hear_id _ (fun c e he => usp_hear_own (hsrc e he) c)
          simpa [emit, hu] using hc
      | _ => cases ho
    · refine .inr ⟨owner_ne hsrc ho, ?_⟩
      cases ht with
      | @usp k =>
          have hk : h ≠ k := fun hk => ho (by rw [hk]; rfl)
          simp [emit, Usp.component, Function.update_of_ne hk]
      | _ => rfl

/-- DSP `h` in the simulator. -/
def dspView (cfg : Config) (h : Nat) : View (Dsp.component h) (step cfg) Sys.log where
  comp s := s.dsp h
  covers {s a s'} hs := by
    obtain ⟨-, es, t, ht, rfl⟩ := step_eq_ok.mp hs
    refine ⟨es, congrArg (· ++ es) ht.log, ?_⟩
    have hsrc := ht.source
    by_cases ho : a.owner = .dsp h
    · left
      cases ht with
      | @dsp _ b _ _ hh ha =>
          cases ho
          have hd := foldl_hear_id _ (fun c e he => dsp_hear_own (hsrc e he) c)
          refine .single ⟨b, ?_⟩
          simpa [emit, hd] using ha
      | _ => cases ho
    · refine .inr ⟨owner_ne hsrc ho, ?_⟩
      cases ht with
      | @dsp k =>
          have hk : h ≠ k := fun hk => ho (by rw [hk]; rfl)
          simp [emit, Dsp.component, Function.update_of_ne hk]
      | _ => rfl

/-- The controller in the simulator. -/
def ctrlView (cfg : Config) : View (Controller.component cfg) (step cfg) Sys.log where
  comp s := s.ctrl
  covers {s a s'} hs := by
    obtain ⟨-, es, t, ht, rfl⟩ := step_eq_ok.mp hs
    refine ⟨es, congrArg (· ++ es) ht.log, ?_⟩
    have hsrc := ht.source
    by_cases ho : a.owner = .ctrl
    · left
      cases ht with
      | ctrl ha =>
          have hc : Chain (Controller.component cfg).move _ _ _ := Controller.act_chain ha
          have hu := foldl_hear_id _ (fun c e he => ctrl_hear_own (hsrc e he) c)
          simpa [emit, hu] using hc
      | _ => cases ho
    · refine .inr ⟨owner_ne hsrc ho, ?_⟩
      cases ht with
      | ctrl => exact absurd rfl ho
      | _ => rfl

/-- MEMWrapper `d` in the simulator. -/
def memView (cfg : Config) (d : Nat) : View (MemWrapper.component d) (step cfg) Sys.log where
  comp s := s.mem d
  covers {s a s'} hs := by
    obtain ⟨-, es, t, ht, rfl⟩ := step_eq_ok.mp hs
    refine ⟨es, congrArg (· ++ es) ht.log, ?_⟩
    have hsrc := ht.source
    by_cases ho : a.owner = .mem d
    · left
      cases ht with
      | mem hd ha =>
          cases ho
          have hc : Chain (MemWrapper.component d).move _ _ _ :=
            MemWrapper.act_chain s.load_buffer ha
          have hm := foldl_hear_id _ (fun c e he => mem_hear_own (hsrc e he) c)
          simpa [emit, hm] using hc
      | _ => cases ho
    · refine .inr ⟨owner_ne hsrc ho, ?_⟩
      cases ht with
      | @mem k =>
          have hk : d ≠ k := fun hk => ho (by rw [hk]; rfl)
          simp [emit, MemWrapper.component, Function.update_of_ne hk]
      | _ => rfl

/-! ## Globals -/

/-- The flag table and the three globals are what the log says. -/
def Globals (cfg : Config) (s : Sys) : Prop :=
  s.sync = s.log.foldl SyncObject.hear SyncObject.init ∧
    s.activeCores = s.log.foldl hearCores cfg.hostNum ∧
    s.activeDram = s.log.foldl hearDram 1 ∧
    s.stopped = s.log.foldl hearStop false

theorem globals_step (hs : step cfg s a = .ok s') (hg : Globals cfg s) : Globals cfg s' := by
  obtain ⟨-, es, t, ht, rfl⟩ := step_eq_ok.mp hs
  obtain ⟨h1, h2, h3, h4⟩ := hg
  have hsame : t.sync = s.sync ∧ t.activeCores = s.activeCores ∧ t.activeDram = s.activeDram ∧
      t.stopped = s.stopped ∧ t.log = s.log := by
    cases ht <;> exact ⟨rfl, rfl, rfl, rfl, rfl⟩
  obtain ⟨e1, e2, e3, e4, e5⟩ := hsame
  refine ⟨?_, ?_, ?_, ?_⟩ <;> simp only [emit, List.foldl_append, e1, e2, e3, e4, e5]
  · rw [← h1]
  · rw [← h2]
  · rw [← h3]
  · rw [← h4]

theorem Reachable.globals {ok : Sys → Action → Prop} (hr : ReachableBy cfg ok s) :
    Globals cfg s :=
  Reach.invariant (P := Globals cfg) ⟨rfl, rfl, rfl, rfl⟩
    (fun _ _ _ _ _ hg hs => globals_step hs hg) hr

/-! ## The relations of the components, in every reachable state -/

variable {ok : Sys → Action → Prop}

theorem ReachableBy.simQueues (hr : ReachableBy cfg ok s) (h : Nat) :
    SimWrapper.Queues h (s.sim h) s.log :=
  (simView cfg h).always SimWrapper.simQueues_closed ⟨rfl, rfl⟩ hr

theorem ReachableBy.simAcks (hr : ReachableBy cfg ok s) (h : Nat) :
    SimWrapper.Acks h (s.sim h) s.log :=
  (simView cfg h).always SimWrapper.simAcks_closed
    (by exact ⟨List.Sublist.refl [], List.Sublist.refl []⟩) hr

theorem ReachableBy.simOutstanding (hr : ReachableBy cfg ok s) (h : Nat) :
    SimWrapper.Outstanding h (s.sim h) s.log :=
  (simView cfg h).always SimWrapper.simOutstanding_closed
    (by exact ⟨rfl, Nat.zero_lt_succ _⟩) hr

theorem ReachableBy.simSignalOrder (hr : ReachableBy cfg ok s) (h : Nat) :
    SimWrapper.SignalOrder h (s.sim h) s.log :=
  (simView cfg h).always SimWrapper.simSignalOrder_closed (by exact rfl) hr

theorem ReachableBy.simRounds (hr : ReachableBy cfg ok s) (h0 : 0 < cfg.payloadNum)
    (hN : cfg.payloadNum < 4294967296) (h : Nat) : SimWrapper.Rounds cfg h (s.sim h) s.log :=
  ((simView cfg h).always (SimWrapper.simRounds_closed h0 hN)
    (by exact ⟨⟨List.Sublist.refl [], List.Sublist.refl []⟩, h0, rfl⟩) hr).2

theorem ReachableBy.simCreated (hr : ReachableBy cfg ok s) (h : Nat) :
    SimWrapper.Created cfg h (s.sim h) s.log :=
  (simView cfg h).always SimWrapper.simCreated_closed ⟨⟨rfl, rfl⟩, rfl, rfl⟩ hr

theorem ReachableBy.uspQueues (hr : ReachableBy cfg ok s) (h : Nat) :
    Usp.Queues h (s.usp h) s.log :=
  (uspView cfg h).always Usp.uspQueues_closed (fun c => by cases c <;> rfl) hr

theorem ReachableBy.uspAcks (hr : ReachableBy cfg ok s) (h : Nat) : Usp.Acks h (s.usp h) s.log :=
  (uspView cfg h).always Usp.uspAcks_closed (fun c => by cases c <;> rfl) hr

theorem ReachableBy.uspPhase (hr : ReachableBy cfg ok s) (h : Nat) : (s.usp h).Phase :=
  (uspView cfg h).always Usp.uspPhase_closed (by exact Or.inl ⟨rfl, rfl⟩) hr

theorem ReachableBy.uspCounts (hr : ReachableBy cfg ok s) (h : Nat) :
    Usp.Counts h (s.usp h) s.log :=
  ((uspView cfg h).always Usp.uspCounts_closed ⟨fun c => by cases c <;> rfl, rfl, rfl⟩ hr).2

theorem ReachableBy.dspQueues (hr : ReachableBy cfg ok s) (h : Nat) :
    Dsp.Queues h (s.dsp h) s.log :=
  (dspView cfg h).always Dsp.dspQueues_closed (fun c => by cases c <;> exact ⟨rfl, rfl⟩) hr

theorem ReachableBy.ctrlQueues (hr : ReachableBy cfg ok s) : s.ctrl.Queues s.log :=
  (ctrlView cfg).always Controller.ctrlQueues_closed (fun k => by cases k <;> exact ⟨rfl, rfl⟩) hr

theorem ReachableBy.ctrlPhase (hr : ReachableBy cfg ok s) : s.ctrl.Phase :=
  (ctrlView cfg).always Controller.ctrlPhase_closed ⟨trivial, by exact trivial⟩ hr

theorem ReachableBy.ctrlSockets (hr : ReachableBy cfg ok s) : Controller.Sockets cfg s.log :=
  (ctrlView cfg).always Controller.ctrlSockets_closed
    ⟨fun _ _ h => absurd h (by simp [init]), fun _ _ h => absurd h (by simp [init])⟩ hr

theorem ReachableBy.ctrlTransId (hr : ReachableBy cfg ok s) (k : Command) (a : Nat) :
    s.ctrl.transId k a = Controller.lastHost k a s.log :=
  (ctrlView cfg).always Controller.ctrlTransId_closed (fun k a => by cases k <;> rfl) hr k a

theorem ReachableBy.memQueue (hr : ReachableBy cfg ok s) (d : Nat) :
    MemWrapper.Queue d (s.mem d) s.log :=
  (memView cfg d).always MemWrapper.memQueue_closed (by exact rfl) hr

theorem ReachableBy.memFlow (hr : ReachableBy cfg ok s) (d : Nat) :
    MemWrapper.Flow d (s.mem d) s.log :=
  (memView cfg d).always MemWrapper.memFlow_closed ⟨.refl _, .refl _⟩ hr

theorem ReachableBy.memPointers (hr : ReachableBy cfg ok s) (d : Nat) :
    MemWrapper.Pointers d s.log :=
  (memView cfg d).always MemWrapper.memPointers_closed (by simp [MemWrapper.Pointers, init]) hr

theorem ReachableBy.memOutstanding (hr : ReachableBy cfg ok s) (d : Nat) :
    (s.mem d).Outstanding :=
  (memView cfg d).always MemWrapper.memOutstanding_closed (by exact rfl) hr

theorem ReachableBy.memData (hr : ReachableBy cfg ok s) (d : Nat) :
    MemWrapper.Data d (s.mem d) s.log :=
  (memView cfg d).always MemWrapper.memData_closed (fun _ => rfl) hr

end Sys

end TSim4CXL
