/-
  Signals and the waits they release.

  The flag of an address is one bit for all hosts, tested by `check_signal` and cleared by
  `free` one period later.
  * `fresh_signal_kept`: a signal raised while the flag is clear is not lost: as long as
    fewer waits have completed, the flag is set and the next check passes.
    `second_signal_merged`: a signal raised while it is set counts for nothing.
  * `waits_le_signals`: completed waits never exceed signals in a run in which a host that
    finds the flag set is alone in the window between test and clear.
    `two_readers_released`: two hosts released by one signal.
-/
import TSim4CXL.Trace.Control

namespace TSim4CXL

open Transition

/-! ## Counting -/

def Event.isSignalOf (a : Nat) : Event → Bool
  | .signal _ b => b = a
  | _ => false

def Event.isFreeOf (a : Nat) : Event → Bool
  | .free _ b => b = a
  | _ => false

/-- How often `signal(a)` was called. -/
def signals (a : Nat) (l : List Event) : Nat := l.countP (Event.isSignalOf a)

/-- How many `handle_wait_packet(a)` have completed. -/
def completedWaits (a : Nat) (l : List Event) : Nat := l.countP (Event.isFreeOf a)

theorem signals_append (a : Nat) (l l' : List Event) :
    signals a (l ++ l') = signals a l + signals a l' := List.countP_append

theorem completedWaits_append (a : Nat) (l l' : List Event) :
    completedWaits a (l ++ l') = completedWaits a l + completedWaits a l' := List.countP_append

/-- How often `signal(a)` was called with the flag of `a` clear, from the flags `o` on. -/
def freshSignals (a : Nat) : SyncObject → List Event → Nat
  | _, [] => 0
  | o, e :: es =>
      (e.isSignalOf a && !o.checkSignal a).toNat + freshSignals a (o.hear e) es

/-! ## The flag -/

/-- The flag counts the fresh signals no completed wait has cleared. -/
theorem freshSignals_le (a : Nat) (es : List Event) (o : SyncObject) :
    freshSignals a o es + (o.checkSignal a).toNat ≤
      completedWaits a es + ((es.foldl SyncObject.hear o).checkSignal a).toNat := by
  induction es generalizing o with
  | nil => simp [freshSignals, completedWaits]
  | cons e es ih =>
      have ih := ih (o.hear e)
      simp only [freshSignals, completedWaits, List.countP_cons, List.foldl_cons] at ih ⊢
      cases e with
      | signal h b | free h b =>
          by_cases hb : a = b
          · subst hb
            cases ho : o.checkSignal a <;>
              simp [SyncObject.hear, Event.isSignalOf, Event.isFreeOf] at ih ⊢ <;> omega
          · have hb' : ¬ b = a := fun h => hb h.symm
            simp [SyncObject.hear, Event.isSignalOf, Event.isFreeOf, hb, hb'] at ih ⊢
            omega
      | _ => simpa [SyncObject.hear, Event.isSignalOf, Event.isFreeOf] using ih

/-- Events that set the flag hold a signal. -/
theorem checkSignal_foldl {a : Nat} {es : List Event} {o : SyncObject}
    (h : (es.foldl SyncObject.hear o).checkSignal a = true) :
    o.checkSignal a = true ∨ 0 < signals a es := by
  induction es generalizing o with
  | nil => exact .inl h
  | cons e es ih =>
      rcases ih h with ho | hs
      · cases e with
        | signal k b =>
            by_cases hb : a = b
            · exact .inr (by simp [signals, Event.isSignalOf, hb])
            · exact .inl (by simpa [SyncObject.hear, hb] using ho)
        | free k b =>
            by_cases hb : a = b
            · simp [SyncObject.hear, hb] at ho
            · exact .inl (by simpa [SyncObject.hear, hb] using ho)
        | _ => exact .inl ho
      · refine .inr ?_
        simp only [signals, List.countP_cons] at hs ⊢
        omega

namespace Sys

variable {cfg : Config} {s s' : Sys} {a : Nat} {act : Action}

/-! ## No fresh signal is lost -/

/-- While fewer waits of `a` have completed than signals were raised with its flag clear, the
    flag is set, and a host that checks it passes. -/
theorem fresh_signal_kept (hr : Reachable cfg s) (a : Nat)
    (hlt : completedWaits a s.log < freshSignals a SyncObject.init s.log) :
    s.sync.checkSignal a = true ∧ ∀ h packet, packet.address = a →
      (SimWrapper.pollGate h s.env (s.sim h) packet).2 = [.pass h a] := by
  have hflag : s.sync.checkSignal a = true := by
    have hle := freshSignals_le a s.log SyncObject.init
    rw [← (Reachable.globals hr).1] at hle
    by_contra hc
    rw [Bool.not_eq_true] at hc
    rw [SyncObject.checkSignal_init, hc] at hle
    simp only [Bool.toNat_false, Nat.add_zero] at hle
    omega
  refine ⟨hflag, ?_⟩
  rintro h packet rfl
  have henv : s.env.sync.checkSignal packet.address = true := hflag
  simp only [SimWrapper.pollGate, henv, if_true]

/-! ## One reader in the window -/

/-- A step that checks a flag and finds it set finds no host in its window. -/
def AloneAtGate (cfg : Config) (s : Sys) : Action → Prop
  | .sim h b =>
      match (s.sim h).checks b with
      | some a => s.sync.checkSignal a = true → ∀ k < cfg.hostNum, (s.sim k).window ≠ some a
      | none => True
  | _ => True

instance (cfg : Config) (s : Sys) (act : Action) : Decidable (AloneAtGate cfg s act) :=
  match act with
  | .sim h b =>
      match hc : (s.sim h).checks b with
      | some a => decidable_of_iff (s.sync.checkSignal a = true →
          ∀ k < cfg.hostNum, (s.sim k).window ≠ some a) (by simp only [AloneAtGate, hc])
      | none => isTrue (by simp only [AloneAtGate, hc])
  | .usp _ _ => isTrue trivial
  | .dsp _ _ => isTrue trivial
  | .ctrl _ => isTrue trivial
  | .mem _ _ => isTrue trivial

/-- At most one host is in the window of `a`; while one is, or the flag is set, a signal is left
    over. -/
structure OneReader (cfg : Config) (a : Nat) (s : Sys) : Prop where
  unique : ∀ h < cfg.hostNum, ∀ k < cfg.hostNum, (s.sim h).window = some a →
    (s.sim k).window = some a → h = k
  le : completedWaits a s.log ≤ signals a s.log
  lt : (∃ h < cfg.hostNum, (s.sim h).window = some a) ∨ s.sync.checkSignal a = true →
    completedWaits a s.log < signals a s.log

theorem OneReader.keep {es : List Event} (hi : OneReader cfg a s) (hl : s'.log = s.log ++ es)
    (hsync : s'.sync = es.foldl SyncObject.hear s.sync)
    (hwin : ∀ k < cfg.hostNum, (s'.sim k).window = some a ↔ (s.sim k).window = some a)
    (hfree : completedWaits a es = 0) : OneReader cfg a s' where
  unique h hh k hk h1 h2 := hi.unique h hh k hk ((hwin h hh).mp h1) ((hwin k hk).mp h2)
  le := by
    have := hi.le
    rw [hl, completedWaits_append, signals_append]
    omega
  lt hor := by
    rw [hl, completedWaits_append, signals_append, hfree]
    have hle := hi.le
    rcases hor with ⟨h, hh, hw⟩ | hflag
    · have := hi.lt (.inl ⟨h, hh, (hwin h hh).mp hw⟩)
      omega
    · rw [hsync] at hflag
      rcases checkSignal_foldl hflag with ho | hs
      · have := hi.lt (.inr ho)
        omega
      · omega

theorem completedWaits_eq_zero {es : List Event} (h : ∀ e ∈ es, e.isFreeOf a = false) :
    completedWaits a es = 0 :=
  SimWrapper.countP_eq_zero_of h

theorem not_free_of_data {h : Nat} {e : Event} (he : e.Data h) : e.isFreeOf a = false := by
  cases e <;> simp_all [Event.Data, Event.isFreeOf]

theorem not_free_of_handler {h : Nat} {e : Event} (he : e.Handler h) : e.isFreeOf a = false := by
  cases e <;> simp_all [Event.Handler, Event.isFreeOf]

theorem oneReader_init (a : Nat) : OneReader cfg a (init cfg) where
  unique _ _ _ _ h1 := by cases h1
  le := Nat.le_refl _
  lt hor := by
    rcases hor with ⟨_, _, h1⟩ | h1 <;> cases h1

/-- The turn of one host. -/
theorem OneReader.turn {h : Nat} {b : SimWrapper.Act} {es : List Event} {w' : SimWrapper}
    (hi : OneReader cfg a s) (hok : AloneAtGate cfg s (.sim h b)) (hh : h < cfg.hostNum)
    (hturn : SimWrapper.Turn h s.env (s.sim h) b es w') (hl : s'.log = s.log ++ es)
    (hsync : s'.sync = es.foldl SyncObject.hear s.sync) (hw' : s'.sim h = w')
    (hother : ∀ k, k ≠ h → (s'.sim k).window = (s.sim k).window) : OneReader cfg a s' := by
  have hkeep (hw : w'.window = some a ↔ (s.sim h).window = some a)
      (hf : completedWaits a es = 0) : OneReader cfg a s' := by
    refine hi.keep hl hsync (fun k _ => ?_) hf
    by_cases hk : k = h
    · rw [hk, hw', hw]
    · rw [hother k hk]
  cases hturn with
  | data hf =>
      refine hkeep (by simp [SimWrapper.window, hf.1]) ?_
      exact completedWaits_eq_zero fun e he => not_free_of_data (hf.2.2.2 e he)
  | walk _ _ _ hw hw' hes =>
      refine hkeep (by rw [hw, hw']) ?_
      exact completedWaits_eq_zero fun e he => not_free_of_handler (hes e he)
  | finish _ hw _ hp _ =>
      have hnone : w'.window = none := by
        rcases hp with hp | hp <;> simp [SimWrapper.window, hp]
      refine hkeep (by rw [hw, hnone]) (completedWaits_eq_zero fun e he => ?_)
      rcases List.mem_append.mp he with he | he <;> split at he <;> simp at he <;> rw [he] <;> rfl
  | pass packet hflag hc _ _ _ hw hp =>
      have hsome : w'.window = some packet.address := by simp [SimWrapper.window, hp]
      by_cases ha : packet.address = a
      · subst ha
        -- the flag is set and the window is empty: `h` takes the signal left over
        simp only [AloneAtGate, hc] at hok
        have halone := hok hflag
        have hin {j : Nat} (hj : j < cfg.hostNum)
            (h1 : (s'.sim j).window = some packet.address) : j = h := by
          by_contra hne
          exact halone j hj ((hother j hne).symm.trans h1)
        have hlt := hi.lt (.inr hflag)
        refine ⟨fun k hk k' hk' h1 h2 => (hin hk h1).trans (hin hk' h2).symm, ?_, fun _ => ?_⟩
        · rw [hl, completedWaits_append, signals_append]
          exact Nat.add_le_add hi.le (Nat.zero_le _)
        · rw [hl, completedWaits_append, signals_append]
          exact Nat.lt_of_lt_of_le hlt (Nat.le_add_right _ _)
      · exact hkeep (by rw [hw, hsome]; simp [ha]) rfl
  | free packet _ hp =>
      have hsome : (s.sim h).window = some packet.address := by simp [SimWrapper.window, hp]
      have hnone : (s'.sim h).window = none := by rw [hw']; rfl
      by_cases ha : packet.address = a
      · subst ha
        -- `h` was the only host in the window, and clears the flag
        have hlt := hi.lt (.inl ⟨h, hh, hsome⟩)
        have hout {k : Nat} (hk : k < cfg.hostNum) :
            (s'.sim k).window ≠ some packet.address := by
          intro h1
          by_cases hkh : k = h
          · rw [hkh, hnone] at h1
            cases h1
          · exact hkh (hi.unique k hk h hh ((hother k hkh).symm.trans h1) hsome)
        refine ⟨fun k hk _ _ h1 => absurd h1 (hout hk), ?_, ?_⟩
        · rw [hl, completedWaits_append, signals_append]
          simp only [completedWaits, signals, List.countP_cons, List.countP_nil, Event.isFreeOf,
            decide_true, if_true] at hlt ⊢
          omega
        · rintro (⟨k, hk, h1⟩ | hflag)
          · exact absurd h1 (hout hk)
          · rw [hsync] at hflag
            simp [SyncObject.hear] at hflag
      · refine hkeep ?_ (by simp [completedWaits, Event.isFreeOf, ha])
        rw [← hw', hnone, hsome]
        simp [ha]

theorem oneReader_step (hr : ReachableBy cfg (AloneAtGate cfg) s) (hok : AloneAtGate cfg s act)
    (hs : step cfg s act = .ok s') (hi : OneReader cfg a s) : OneReader cfg a s' := by
  have hframe := fun {h : Nat} (ho : act.owner ≠ .sim h) => (sim_frame hs ho).1
  obtain ⟨-, es, t, ht, rfl⟩ := step_eq_ok.mp hs
  have hl : (t.emit es).log = s.log ++ es := congrArg (· ++ es) ht.log
  have hsync : (t.emit es).sync = es.foldl SyncObject.hear s.sync := by
    cases ht <;> rfl
  by_cases ho : ∃ h, act.owner = .sim h
  · obtain ⟨h, ho⟩ := ho
    cases act with
    | sim k b =>
        cases ho
        refine hi.turn hok ?_ (ReachableBy.sim_turn hr ht) hl hsync rfl fun k hk => ?_
        · cases ht
          assumption
        · exact hframe fun ho => hk (by injection ho with ho; exact ho.symm)
    | _ => cases ho
  · refine hi.keep hl hsync (fun k _ => by rw [hframe fun hk => ho ⟨k, hk⟩]) ?_
    refine completedWaits_eq_zero fun e he => ?_
    have := ht.source e he
    cases e with
    | free k b => exact absurd ⟨k, this.symm⟩ ho
    | _ => rfl

/-- In every run in which a host that finds a flag set is alone in its window, completed waits
    never exceed signals. -/
theorem waits_le_signals (hr : ReachableBy cfg (AloneAtGate cfg) s) (a : Nat) :
    completedWaits a s.log ≤ signals a s.log :=
  (Reach.invariant (P := OneReader cfg a) (oneReader_init a)
    (fun _ _ _ hrs hok hi hs => oneReader_step hrs hok hs hi) hr).le

/-! ## Concrete runs -/

/-- Host 0 writes address 8 `writes` times, then hosts 1 and 2 read it. -/
def writeThenRead (ok : Sys → Action → Prop) [∀ s a, Decidable (ok s a)] (writes : Nat) : Sys :=
  runSkip (step (smallConfig 3 1 4)) ok (init (smallConfig 3 1 4))
    ((List.replicate writes (.sim 0 (.recv (.fill .write 8 7)) ::
        rounds (smallConfig 3 1 4) 16)).flatten ++
      .sim 1 (.recv (.fill .read 8 0)) :: .sim 2 (.recv (.fill .read 8 0)) ::
      rounds (smallConfig 3 1 4) 3)

theorem waits_le_signals_of_writeThenRead :
    completedWaits 8 (writeThenRead (AloneAtGate (smallConfig 3 1 4)) 1).log ≤
        signals 8 (writeThenRead (AloneAtGate (smallConfig 3 1 4)) 1).log ∧
      completedWaits 8 (writeThenRead (AloneAtGate (smallConfig 3 1 4)) 1).log = 1 :=
  ⟨waits_le_signals (reach_runSkip _ _) 8, by decide +kernel⟩

/-- Both readers find the flag set before either clears it: one signal, two completed waits. -/
theorem two_readers_released : Reachable (smallConfig 3 1 4) (writeThenRead anyStep 1) ∧
    signals 8 (writeThenRead anyStep 1).log = 1 ∧
    completedWaits 8 (writeThenRead anyStep 1).log = 2 :=
  ⟨reach_runSkip _ _, by decide +kernel⟩

/-- Host 0 writes address 8 twice, then host 1 reads it once. -/
def twoWritesOneRead : Sys :=
  runSkip (step (smallConfig 2 1 4)) anyStep (init (smallConfig 2 1 4))
    ((List.replicate 2 (.sim 0 (.recv (.fill .write 8 7)) ::
        rounds (smallConfig 2 1 4) 16)).flatten ++
      .sim 1 (.recv (.fill .read 8 0)) :: rounds (smallConfig 2 1 4) 3)

/-- Two signals, one completed wait, and the flag is clear. -/
theorem second_signal_merged : Reachable (smallConfig 2 1 4) twoWritesOneRead ∧
    signals 8 twoWritesOneRead.log = 2 ∧ completedWaits 8 twoWritesOneRead.log = 1 ∧
    twoWritesOneRead.sync.checkSignal 8 = false :=
  ⟨reach_runSkip _ _, by decide +kernel⟩

/-- After the two writes, before the read. -/
def twoWrites : Sys :=
  runSkip (step (smallConfig 2 1 4)) anyStep (init (smallConfig 2 1 4))
    ((List.replicate 2 (.sim 0 (.recv (.fill .write 8 7)) ::
        rounds (smallConfig 2 1 4) 16)).flatten)

theorem fresh_signal_kept_of_twoWrites :
    freshSignals 8 SyncObject.init twoWrites.log = 1 ∧ twoWrites.sync.checkSignal 8 = true := by
  have hrun : completedWaits 8 twoWrites.log < freshSignals 8 SyncObject.init twoWrites.log ∧
      freshSignals 8 SyncObject.init twoWrites.log = 1 := by decide +kernel
  have hreach : Reachable (smallConfig 2 1 4) twoWrites := reach_runSkip _ _
  exact ⟨hrun.2, (fresh_signal_kept hreach 8 hrun.1).1⟩

end Sys

end TSim4CXL
