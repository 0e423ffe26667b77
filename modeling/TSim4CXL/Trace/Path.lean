/-
  The paths through the simulator, put together from the relations of its components.

  `forward_path`: per host and command, the payloads created are those handed to devices,
  then those in the controller, the DSP, the USP and the SIMWrapper, oldest first.
  `ack_path`: the acks the controller sent to a host are those its USP sent on, then those
  in the USP and the DSP.
  `mem_create`: what a created payload looks like.
-/
import TSim4CXL.Trace.Top
import Mathlib.Data.List.Induction
import Mathlib.Data.List.Nodup

namespace TSim4CXL

open Transition

/-! ## Selecting by socket -/

/-- When a payload field `f` tells the channel of a call, selecting payloads by `f` selects the
    calls on one channel. -/
theorem callsOn_filter {k : Chan → Bool} {f : Payload → Nat} (chan : Nat → Chan)
    (hinj : ∀ m n, chan m = chan n → m = n) (hk : ∀ n, k (chan n) = true) {l : List Event}
    (hl : ∀ c p, .call c p ∈ l → k c = true → c = chan (f p)) (n : Nat) :
    (callsOn k l).filter (f · = n) = sent (chan n) l := by
  induction l with
  | nil => rfl
  | cons e l ih =>
      have ih := ih fun c p hp => hl c p (List.mem_cons_of_mem _ hp)
      rw [callsOn_cons, sent_cons, List.filter_append, ih]
      congr 1
      cases e with
      | call c p =>
          by_cases hc : k c
          · have hcp := hl c p List.mem_cons_self hc
            by_cases hn : f p = n
            · simp [hcp, hn, hk]
            · have : chan (f p) ≠ chan n := fun h => hn (hinj _ _ h)
              simp [hcp, hn, hk, this]
          · have : c ≠ chan n := fun h => hc (h ▸ hk n)
            simp [hc, this]
      | _ => rfl

/-- The requests of one command in a SIMWrapper, oldest first. -/
def SimWrapper.fwContents (w : SimWrapper) : Command → List Payload
  | .read => w.rQueue
  | .write => w.wQueue

/-- The component exists in this configuration. -/
def Comp.Exists (cfg : Config) : Comp → Prop
  | .sim h => h < cfg.hostNum
  | .usp h => h < cfg.hostNum
  | .dsp h => h < cfg.hostNum
  | .ctrl => True
  | .mem d => d < cfg.dramNum

namespace Sys

variable {cfg : Config} {s : Sys} {ok : Sys → Action → Prop}

theorem ReachableBy.source_exists (hr : ReachableBy cfg ok s) :
    ∀ e ∈ s.log, e.source.Exists cfg := by
  refine Reach.invariant (P := fun s => ∀ e ∈ s.log, e.source.Exists cfg) (by simp [init]) ?_ hr
  intro s a s' _ _ ih hs e he
  obtain ⟨-, es, t, ht, rfl⟩ := step_eq_ok.mp hs
  rcases List.mem_append.mp he with he | he
  · exact ih e (ht.log ▸ he)
  · rw [ht.source e he]
    cases ht with
    | sim hh => exact hh
    | usp hh => exact hh
    | dsp hh => exact hh
    | ctrl => trivial
    | mem hd => exact hd

/-! ## Created payloads -/

/-- A created payload is a chunk of a packet its host handled. -/
theorem ReachableBy.mem_create (hr : ReachableBy cfg ok s) {h : Nat} {p : Payload}
    (hp : p ∈ sent (.create h) s.log) :
    (∃ n, ∃ hn : n < (readsOf h s.log).length, ∃ i < cfg.payloadNum,
        p = SimWrapper.readPayload cfg h (readsOf h s.log)[n] n i) ∨
      ∃ n, ∃ hn : n < (writesOf h s.log).length, ∃ i < cfg.payloadNum,
        p = SimWrapper.writePayload cfg h (writesOf h s.log)[n] n i := by
  obtain ⟨⟨hread, -⟩, hwrite, -⟩ := hr.simCreated h
  cases hc : p.command with
  | read =>
      have hm : p ∈ ofCmd .read (sent (.create h) s.log) := mem_ofCmd.mpr ⟨hp, hc⟩
      rw [hread, mem_packetPayloads] at hm
      obtain ⟨n, hn, hm⟩ := hm
      obtain ⟨i, hi, rfl⟩ := List.mem_map.mp hm
      exact .inl ⟨n, hn, i, List.mem_range.mp hi, rfl⟩
  | write =>
      have hm : p ∈ ofCmd .write (sent (.create h) s.log) := mem_ofCmd.mpr ⟨hp, hc⟩
      rw [hwrite, mem_packetPayloads] at hm
      obtain ⟨n, hn, hm⟩ := hm
      obtain ⟨i, hi, rfl⟩ := List.mem_map.mp hm
      exact .inr ⟨n, hn, i, List.mem_range.mp hi, rfl⟩

theorem ReachableBy.create_id (hr : ReachableBy cfg ok s) {h : Nat} {p : Payload}
    (hp : p ∈ sent (.create h) s.log) : p.id = h := by
  rcases hr.mem_create hp with ⟨n, -, i, -, rfl⟩ | ⟨n, -, i, -, rfl⟩ <;> rfl

/-- A created write payload brings its bytes along. -/
theorem ReachableBy.create_buffer (hr : ReachableBy cfg ok s) {h : Nat} {p : Payload}
    (hp : p ∈ sent (.create h) s.log) (hc : p.command = .write) : ∃ b, p.dataPtr = .buffer b := by
  rcases hr.mem_create hp with ⟨n, hn, i, hi, he⟩ | ⟨n, hn, i, hi, he⟩
  · rw [he] at hc
    cases hc
  · exact ⟨_, by rw [he]; rfl⟩

theorem ReachableBy.create_length (hr : ReachableBy cfg ok s) (h : Nat) :
    (ofCmd .read (sent (.create h) s.log)).length = cfg.payloadNum * (readsOf h s.log).length ∧
      (ofCmd .write (sent (.create h) s.log)).length = cfg.payloadNum * (writesOf h s.log).length :=
  (hr.simCreated h).length

/-- No payload is created twice. -/
theorem ReachableBy.create_nodup (hr : ReachableBy cfg ok s) (h : Nat) (c : Command) :
    (ofCmd c (sent (.create h) s.log)).Nodup := (hr.simCreated h).nodup c

/-- A created payload is told by its request. -/
theorem ReachableBy.create_inj (hr : ReachableBy cfg ok s) {p q : Payload}
    (hp : p ∈ sent (.create p.id) s.log) (hq : q ∈ sent (.create q.id) s.log)
    (hpq : p.bare = q.bare) :
    p = q := by
  have hid : p.id = q.id := by rw [← Payload.bare_id, hpq, Payload.bare_id]
  have hcmd : p.command = q.command := by rw [← Payload.bare_command, hpq, Payload.bare_command]
  have hp := mem_ofCmd.mpr ⟨hp, rfl⟩
  have hq := mem_ofCmd.mpr ⟨hq, rfl⟩
  rw [← hid, ← hcmd] at hq
  refine (hr.simCreated p.id).key_inj hp hq ?_
  rw [← Payload.key_bare, hpq, Payload.key_bare]

/-- Distinct created payloads are distinct requests. -/
theorem ReachableBy.requests_nodup (hr : ReachableBy cfg ok s) {ps : List Payload} (hps : ps.Nodup)
    (hc : ∀ p ∈ ps, p ∈ sent (.create p.id) s.log) : (ps.map Payload.bare).Nodup :=
  hps.map_on fun p hp q hq hpq => hr.create_inj (hc p hp) (hc q hq) hpq

/-! ## Requests -/

/-- From a host to the controller. -/
theorem ReachableBy.host_path (hr : ReachableBy cfg ok s) (h : Nat) (c : Command) :
    ofCmd c (sent (.create h) s.log) = ofCmd c (sent (.ctrlFw h) s.log) ++
      ((s.dsp h).fwContents c ++ (s.usp h).fwContents c ++ (s.sim h).fwContents c) := by
  have hsim : ofCmd c (sent (.create h) s.log) =
      ofCmd c (sent (.uspFw h) s.log) ++ (s.sim h).fwContents c := by
    cases c
    · exact (hr.simQueues h).1
    · exact (hr.simQueues h).2
  rw [hsim, hr.uspQueues h c, (hr.dspQueues h c).1]
  simp only [List.append_assoc]

theorem ReachableBy.ctrlFw_create (hr : ReachableBy cfg ok s) {h : Nat} {p : Payload}
    (hp : p ∈ sent (.ctrlFw h) s.log) : p ∈ sent (.create h) s.log := by
  have hm : p ∈ ofCmd p.command (sent (.create h) s.log) := by
    rw [hr.host_path h p.command]
    exact List.mem_append_left _ (mem_ofCmd.mpr ⟨hp, rfl⟩)
  exact (mem_ofCmd.mp hm).1

/-- The requests a host's DSP handed over are those with its id. -/
theorem ReachableBy.ctrlFw_filter (hr : ReachableBy cfg ok s) (h : Nat) :
    (callsOn Chan.isCtrlFw s.log).filter (·.id = h) = sent (.ctrlFw h) s.log := by
  refine callsOn_filter .ctrlFw (fun _ _ hmn => by injection hmn) (fun _ => rfl) ?_ h
  intro c p hp hc
  cases c with
  | ctrlFw k => rw [hr.create_id (hr.ctrlFw_create ((mem_sent _).mpr hp))]
  | _ => cases hc

/-- The requests a device got are those for it. -/
theorem ReachableBy.memFw_filter (hr : ReachableBy cfg ok s) (d : Nat) :
    (callsOn Chan.isMemFw s.log).filter (·.deviceId = d) = sent (.memFw d) s.log := by
  refine callsOn_filter .memFw (fun _ _ hmn => by injection hmn) (fun _ => rfl) ?_ d
  intro c p hp hc
  cases c with
  | memFw k => rw [(hr.ctrlSockets.1 k p hp).1]
  | _ => cases hc

/-- From a host to the devices. -/
theorem ReachableBy.forward_path (hr : ReachableBy cfg ok s) (h : Nat) (c : Command) :
    ofCmd c (sent (.create h) s.log) =
      (ofCmd c (callsOn Chan.isMemFw s.log)).filter (·.id = h) ++
        ((s.ctrl.fwContents c).filter (·.id = h) ++
          ((s.dsp h).fwContents c ++ (s.usp h).fwContents c ++ (s.sim h).fwContents c)) := by
  have hctrl : ofCmd c (sent (.ctrlFw h) s.log) =
      (ofCmd c (callsOn Chan.isCtrlFw s.log)).filter (·.id = h) := by
    rw [← hr.ctrlFw_filter h]
    simp only [ofCmd, List.filter_filter, Bool.and_comm]
  rw [hr.host_path h c, hctrl, (hr.ctrlQueues c).1, List.filter_append, List.append_assoc]

/-- A payload a device got was created by the host of its id. -/
theorem ReachableBy.memFw_create (hr : ReachableBy cfg ok s) {p : Payload}
    (hp : p ∈ callsOn Chan.isMemFw s.log) : p ∈ sent (.create p.id) s.log := by
  have hm : p ∈ ofCmd p.command (sent (.create p.id) s.log) := by
    rw [hr.forward_path p.id p.command]
    exact List.mem_append_left _ (by simp [mem_ofCmd, hp])
  exact (mem_ofCmd.mp hm).1

/-- The backing store of a device holds the writes it took in, in their order. -/
theorem ReachableBy.memData_eq (hr : ReachableBy cfg ok s) (d : Nat) :
    (s.mem d).memData = MemWrapper.stored (ofCmd .write (sent (.peqCb d) s.log)) := by
  refine hr.memData d fun p hp hc => ?_
  have hm : p ∈ sent (.memFw d) s.log := by
    rw [hr.memQueue d]
    exact List.mem_append_left _ hp
  exact hr.create_buffer (hr.memFw_create ((mem_callsOn _).mpr ⟨_, rfl, (mem_sent _).mp hm⟩)) hc

/-! ## Acks -/

/-- From the controller to a host. -/
theorem ReachableBy.ack_path (hr : ReachableBy cfg ok s) (h : Nat) (c : Command) :
    ofCmd c (sent (.dspBw h) s.log) = ofCmd c (sent (.simBw h) s.log) ++
      ((s.usp h).bwContents c ++ (s.dsp h).bwContents c) := by
  rw [(hr.dspQueues h c).2, hr.uspAcks h c, List.append_assoc]

end Sys

end TSim4CXL
