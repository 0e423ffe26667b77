/-
  The forward path, from `add_payload` to the devices: exactly once and in order.

  `forward_path_once_in_order` holds in every reachable state: what a device got from a
  host is a prefix of what that host created for it, per command; a created payload was
  handed to a device or is in one queue of the path or in the hands of one suspended
  flit, once; and no step takes the front of an empty queue. Steps of other components
  may come between any two waits.
-/
import TSim4CXL.Trace.Flight

namespace TSim4CXL

open Transition

/-- The payloads of host `h` that device `d` got, by command. -/
def handed (h d : Nat) (c : Command) (l : List Event) : List Payload :=
  (ofCmd c (sent (.memFw d) l)).filter (·.id = h)

/-- The payloads host `h` created for device `d`, by command. -/
def createdFor (h d : Nat) (c : Command) (l : List Event) : List Payload :=
  (ofCmd c (sent (.create h) l)).filter (·.deviceId = d)

namespace Sys

variable {cfg : Config} {s : Sys}

/-- The payloads anywhere on the path from the hosts to the devices. -/
def onPath (cfg : Config) (s : Sys) : List Payload :=
  (List.range cfg.hostNum).flatMap s.hostPath ++ (s.ctrl.rQueue ++ s.ctrl.wQueue)

/-! ## Where a payload is -/

theorem mem_hostPath {h : Nat} {p : Payload} (hp : p ∈ s.hostPath h) : ∃ c,
    p ∈ (s.dsp h).fwContents c ++ (s.usp h).fwContents c ++ (s.sim h).fwContents c := by
  simp only [hostPath, List.mem_append] at hp
  rcases hp with ((((((hp | hp) | hp) | hp) | hp) | hp) | hp) | hp
  · exact ⟨.read, by simp [SimWrapper.fwContents, hp]⟩
  · exact ⟨.write, by simp [SimWrapper.fwContents, hp]⟩
  · exact ⟨.read, by simp [Usp.fwContents, hp]⟩
  · exact ⟨.write, by simp [Usp.fwContents, hp]⟩
  · exact ⟨.write, by simp [Usp.fwContents, hp]⟩
  · exact ⟨.write, by simp [Usp.fwContents, hp]⟩
  · exact ⟨.read, by simp [Dsp.fwContents, hp]⟩
  · exact ⟨.write, by simp [Dsp.fwContents, hp]⟩

variable {ok : Sys → Action → Prop}

/-- A payload in the queues of a host was created there. -/
theorem ReachableBy.hostPath_create (hr : ReachableBy cfg ok s) {h : Nat} {p : Payload}
    (hp : p ∈ s.hostPath h) : p ∈ sent (.create h) s.log := by
  obtain ⟨c, hc⟩ := mem_hostPath hp
  have hm : p ∈ ofCmd c (sent (.create h) s.log) := by
    rw [hr.host_path h c]
    exact List.mem_append_right _ hc
  exact (mem_ofCmd.mp hm).1

/-- The queues of the other command do not hold it. -/
theorem count_other_command {c : Command} {p : Payload} {ps : List Payload}
    (hps : ∀ q ∈ ps, q.command = c) (hp : p.command ≠ c) : ps.count p = 0 :=
  List.count_eq_zero.mpr fun hm => hp (hps p hm)

/-- A payload is counted under its own command only. -/
theorem count_commands {f : Command → List Payload} (hf : ∀ c, ∀ p ∈ f c, p.command = c)
    (p : Payload) :
    (f .read).count p + (f .write).count p = (f p.command).count p := by
  cases hc : p.command with
  | read => rw [count_other_command (hf .write) (by simp [hc]), Nat.add_zero]
  | write => rw [count_other_command (hf .read) (by simp [hc]), Nat.zero_add]

theorem ReachableBy.path_command (hr : ReachableBy cfg ok s) (h : Nat) (c : Command) :
    (∀ q ∈ (s.dsp h).fwContents c, q.command = c) ∧ (∀ q ∈ (s.usp h).fwContents c, q.command = c) ∧
      ∀ q ∈ (s.sim h).fwContents c, q.command = c := by
  refine ⟨(hr.dspQueues h).fw_command, (hr.uspQueues h).command, ?_⟩
  cases c
  · exact (hr.simQueues h).rQueue_command
  · exact (hr.simQueues h).wQueue_command

/-- In the queues of its host a payload is found under its own command only. -/
theorem ReachableBy.count_hostPath (hr : ReachableBy cfg ok s) (h : Nat) (p : Payload) :
    (s.hostPath h).count p = ((s.dsp h).fwContents p.command ++ (s.usp h).fwContents p.command ++
      (s.sim h).fwContents p.command).count p := by
  have hcmd (c : Command) : ∀ q ∈ (s.dsp h).fwContents c ++ (s.usp h).fwContents c ++
      (s.sim h).fwContents c, q.command = c := by
    obtain ⟨hd, hu, hs⟩ := hr.path_command h c
    intro q hq
    simp only [List.mem_append] at hq
    rcases hq with (hq | hq) | hq
    · exact hd q hq
    · exact hu q hq
    · exact hs q hq
  rw [← count_commands hcmd]
  simp only [hostPath, Dsp.fwContents, Usp.fwContents, SimWrapper.fwContents, List.count_append]
  omega

theorem ReachableBy.count_ctrl (hr : ReachableBy cfg ok s) (p : Payload) :
    (s.ctrl.rQueue ++ s.ctrl.wQueue).count p = (s.ctrl.fwContents p.command).count p := by
  rw [← count_commands fun c => hr.ctrlQueues.fw_command (k := c), List.count_append]
  rfl

theorem ReachableBy.count_onPath (hr : ReachableBy cfg ok s) {h : Nat} {p : Payload}
    (hp : p ∈ sent (.create h) s.log) : (s.onPath cfg).count p = (s.hostPath h).count p +
      (s.ctrl.fwContents p.command).count p := by
  have hlt : h < cfg.hostNum := hr.source_exists _ ((mem_sent _).mp hp)
  have hother : ∀ k, k ≠ h → (s.hostPath k).count p = 0 := fun k hk =>
    List.count_eq_zero.mpr fun hm =>
      hk ((hr.create_id (hr.hostPath_create hm)).symm.trans (hr.create_id hp))
  have hsum := sum_range_single hother cfg.hostNum
  rw [if_pos hlt] at hsum
  rw [onPath, List.count_append, hr.count_ctrl, List.count_flatMap]
  exact congrArg (· + _) hsum

/-! ## Exactly once -/

theorem ReachableBy.delivered_or_on_path (hr : ReachableBy cfg ok s) {h : Nat} {p : Payload}
    (hp : p ∈ sent (.create h) s.log) :
    (callsOn Chan.isMemFw s.log).count p + (s.onPath cfg).count p = 1 := by
  have hid := hr.create_id hp
  have hone : (ofCmd p.command (sent (.create h) s.log)).count p = 1 :=
    List.count_eq_one_of_mem (hr.create_nodup h _) (mem_ofCmd.mpr ⟨hp, rfl⟩)
  have hmem : ((ofCmd p.command (callsOn Chan.isMemFw s.log)).filter (·.id = h)).count p =
      (callsOn Chan.isMemFw s.log).count p := by
    rw [List.count_filter (by simpa using hid), ofCmd, List.count_filter (by simp)]
  have hctrl : ((s.ctrl.fwContents p.command).filter (·.id = h)).count p =
      (s.ctrl.fwContents p.command).count p := List.count_filter (by simpa using hid)
  rw [hr.forward_path h p.command, List.count_append, List.count_append, hmem, hctrl,
    ← hr.count_hostPath h p] at hone
  rw [hr.count_onPath hp]
  omega

/-! ## In order -/

/-- The payloads created for a device are those it got, and then those before it. -/
theorem ReachableBy.created_handed (hr : ReachableBy cfg ok s) (h d : Nat) (c : Command) :
    createdFor h d c s.log = handed h d c s.log ++
      ((s.ctrl.fwContents c).filter (·.id = h) ++
        ((s.dsp h).fwContents c ++ (s.usp h).fwContents c ++
          (s.sim h).fwContents c)).filter (·.deviceId = d) := by
  have hhanded : handed h d c s.log =
      ((ofCmd c (callsOn Chan.isMemFw s.log)).filter (·.id = h)).filter (·.deviceId = d) := by
    rw [handed, ← hr.memFw_filter d]
    simp only [ofCmd, List.filter_filter, Bool.and_comm, Bool.and_left_comm]
  rw [createdFor, hr.forward_path h c, List.filter_append, hhanded]

theorem ReachableBy.handed_prefix (hr : ReachableBy cfg ok s) (h d : Nat) (c : Command) :
    handed h d c s.log <+: createdFor h d c s.log := by
  rw [hr.created_handed h d c]
  exact List.prefix_append _ _

/-! ## No empty queue is read -/

/-- A step that fails is not enabled, or the stretch of its component fails. -/
theorem step_eq_error {a : Action} {e : Fault} (hs : step cfg s a = .error e) :
    e = .notEnabled ∨ match a with
      | .sim h b => (s.sim h).act cfg h s.env b = .error e
      | .usp h b => (s.usp h).act cfg h b = .error e
      | .dsp _ _ => False
      | .ctrl b => s.ctrl.act cfg b = .error e
      | .mem d b => (s.mem d).act d s.activeCores s.load b = .error e := by
  unfold step at hs
  split at hs
  · cases hs
    exact .inl rfl
  · cases a with
    | sim h b | usp h b | mem h b =>
        dsimp only at hs
        split at hs
        · split at hs
          · cases hs
          · rename_i he
            cases hs
            exact .inr he
        · cases hs
          exact .inl rfl
    | dsp h b =>
        dsimp only at hs
        split at hs <;> cases hs
        exact .inl rfl
    | ctrl b =>
        dsimp only at hs
        split at hs
        · cases hs
        · rename_i he
          cases hs
          exact .inr he

/-- A SIMWrapper looks before it takes from a payload queue; only `sync_queue` it does not
    look at. -/
theorem sim_act_error {h : Nat} {env : SimEnv} {w : SimWrapper} {b : SimWrapper.Act} {e : Fault}
    (hs : w.act cfg h env b = .error e) : e = .notEnabled ∨ e = .emptySync := by
  cases b with
  | recv packet =>
      simp only [SimWrapper.act, SimWrapper.recv] at hs
      split at hs
      · split at hs <;> cases hs
      · cases hs
        exact .inl rfl
  | process =>
      simp only [SimWrapper.act, SimWrapper.process] at hs
      split at hs <;> try cases hs
      · split at hs <;> cases hs
      · exact .inl rfl
  | posedge => cases hs
  | negedge =>
      simp only [SimWrapper.act, SimWrapper.clockNegedge, SimWrapper.sendWack] at hs
      split at hs
      · rename_i he
        cases hs
        split at he
        · cases he
        · split at he
          · split at he <;> cases he
            exact .inr rfl
          · cases he
      · cases hs
  | peq =>
      simp only [SimWrapper.act, SimWrapper.peqCb] at hs
      split at hs
      · rename_i he
        cases hs
        split at he
        · cases he
          exact .inl rfl
        · split at he <;> cases he
      · cases hs

theorem mem_act_error {d n : Nat} {load : DataPtr → Nat → List UInt8} {m : MemWrapper}
    {b : MemWrapper.Act} {e : Fault} (hs : m.act d n load b = .error e) : e = .notEnabled := by
  cases b with
  | peq =>
      simp only [MemWrapper.act, MemWrapper.peqCb] at hs
      split at hs
      · cases hs
        rfl
      · split at hs <;> cases hs
  | posedge => cases hs
  | negedge => cases hs
  | simulateDram accept now =>
      simp only [MemWrapper.act, MemWrapper.simulateDram] at hs
      split at hs
      · split at hs <;> cases hs
      · cases hs
        rfl
  | complete i =>
      simp only [MemWrapper.act, MemWrapper.complete] at hs
      split at hs
      · split at hs <;> cases hs
        rfl
      · cases hs
        rfl

theorem ReachableBy.step_ne_emptyFront (hr : ReachableBy cfg ok s) (a : Action) :
    step cfg s a ≠ .error .emptyFront := by
  intro hs
  rcases step_eq_error hs with he | he
  · cases he
  · cases a with
    | sim h b => rcases sim_act_error he with he | he <;> cases he
    | usp h b =>
        cases b with
        | fw => cases Usp.fwThread_error (hr.uspPhase h) he
        | bw => cases he
    | dsp h b => exact he
    | ctrl b =>
        cases b with
        | fw => cases Controller.fwThread_error hr.ctrlPhase he
        | bw => cases Controller.bwThread_error hr.ctrlPhase.2 he
    | mem d b => cases mem_act_error he

/-! ## The forward path -/

/-- In every reachable state: what device `d` got from host `h` is a prefix of what `h` created
    for it; every created payload was handed to a device or is on the path, once; a device gets
    created payloads only; and no step would take the front of an empty queue. -/
theorem forward_path_once_in_order (hr : Reachable cfg s) :
    (∀ h d c, handed h d c s.log <+: createdFor h d c s.log) ∧
      (∀ h, ∀ p ∈ sent (.create h) s.log,
        (callsOn Chan.isMemFw s.log).count p + (s.onPath cfg).count p = 1) ∧
      (∀ p ∈ callsOn Chan.isMemFw s.log, p ∈ sent (.create p.id) s.log) ∧
      ∀ a, step cfg s a ≠ .error .emptyFront :=
  have hr : ReachableBy cfg anyStep s := hr
  ⟨hr.handed_prefix, fun _ _ hp => hr.delivered_or_on_path hp, fun _ hp => hr.memFw_create hp,
    hr.step_ne_emptyFront⟩

/-- Host 0 of two hosts writes one packet of two payloads. -/
def oneWrite : Sys :=
  runSkip (step (smallConfig 2 1 2)) anyStep (init (smallConfig 2 1 2))
    (.sim 0 (.recv (.fill .write 8 7)) :: rounds (smallConfig 2 1 2) 12)

theorem forward_path_of_oneWrite :
    handed 0 0 .write oneWrite.log <+: createdFor 0 0 .write oneWrite.log ∧
    (handed 0 0 .write oneWrite.log).length = 1 ∧ (createdFor 0 0 .write oneWrite.log).length = 2 :=
  ⟨(forward_path_once_in_order (reach_runSkip _ _)).1 0 0 .write, by decide +kernel⟩

end Sys

end TSim4CXL
