/-
  Requests between the controller's acceptance and its response.

  `inFlight` collects them over the queues of the controller and of the devices,
  `hostPath` and `hostAcks` what is on a host's side of the controller.
  `inFlight_perm`: the requests the controller accepted are those it answered together
  with those in flight, as multisets and up to data pointers. Ramulator may reorder, so
  nothing is said about order past the devices.
-/
import TSim4CXL.Trace.Path
import Mathlib.Algebra.GroupWithZero.Nat

namespace TSim4CXL

open Transition

/-! ## Counting by command and by device -/

/-- Selecting by what a request shares with its bare form does not change how often it occurs. -/
theorem count_bare_filter {f : Payload → Bool} {a : Payload} (hf : ∀ p, p.bare = a → f p = true)
    (ps : List Payload) : ((ps.filter f).map Payload.bare).count a =
      (ps.map Payload.bare).count a := by
  induction ps with
  | nil => rfl
  | cons p ps ih =>
      rw [List.filter_cons, List.map_cons, List.count_cons, ← ih]
      by_cases hp : p.bare = a
      · simp [hf p hp, hp]
      · cases f p <;> simp [hp]

theorem count_bare_ofCmd (ps : List Payload) (a : Payload) :
    ((ofCmd a.command ps).map Payload.bare).count a = (ps.map Payload.bare).count a :=
  count_bare_filter (by rintro p rfl; simp) ps

theorem count_bare_device (ps : List Payload) (a : Payload) :
    ((ps.filter (·.deviceId = a.deviceId)).map Payload.bare).count a =
      (ps.map Payload.bare).count a :=
  count_bare_filter (by rintro p rfl; simp) ps

theorem count_bare_id (ps : List Payload) (a : Payload) :
    ((ps.filter (·.id = a.id)).map Payload.bare).count a = (ps.map Payload.bare).count a :=
  count_bare_filter (by rintro p rfl; simp) ps

theorem count_bare_other {ps : List Payload} {d : Nat} (hps : ∀ p ∈ ps, p.deviceId = d)
    {a : Payload} (ha : a.deviceId ≠ d) : (ps.map Payload.bare).count a = 0 := by
  refine List.count_eq_zero.mpr fun hm => ?_
  obtain ⟨p, hp, rfl⟩ := List.mem_map.mp hm
  exact ha (hps p hp)

/-- A request in a multiset of requests is found under its bare form. -/
theorem mem_bare_of_count (ps qs : List Payload) (h : ∀ a, (ps.map Payload.bare).count a ≤
    (qs.map Payload.bare).count a) {p : Payload} (hp : p ∈ ps) : ∃ q ∈ qs, q.bare = p.bare := by
  have h1 : 0 < (ps.map Payload.bare).count p.bare :=
    List.count_pos_iff.mpr (List.mem_map_of_mem hp)
  have h2 : p.bare ∈ qs.map Payload.bare := List.count_pos_iff.mp (Nat.lt_of_lt_of_le h1 (h _))
  obtain ⟨q, hq, he⟩ := List.mem_map.mp h2
  exact ⟨q, hq, he⟩

namespace Sys

variable {cfg : Config} {s : Sys} {ok : Sys → Action → Prop}

/-- The requests in a device: notified, queued, at Ramulator, completed. -/
def atDevice (s : Sys) (d : Nat) : List Payload := (s.mem d).peq ++ (s.mem d).contents

/-- The requests the controller accepted and has not answered. -/
def inFlight (cfg : Config) (s : Sys) : List Payload :=
  s.ctrl.rQueue ++ s.ctrl.wQueue ++ (List.range cfg.dramNum).flatMap s.atDevice ++
    s.ctrl.rackQueue ++ s.ctrl.wackQueue

/-- The payloads in the queues of one host and its ports, and in the hands of its USP. -/
def hostPath (s : Sys) (h : Nat) : List Payload :=
  (s.sim h).rQueue ++ (s.sim h).wQueue ++ (s.usp h).rQueue ++ (s.usp h).wQueue ++
    (s.usp h).pendingQueue ++ (s.usp h).held ++ (s.dsp h).rQueue ++ (s.dsp h).wQueue

/-- The acks in the ports of one host, in its event queue, slots and ack queues. -/
def hostAcks (s : Sys) (h : Nat) : List Payload :=
  (s.dsp h).rackQueue ++ (s.dsp h).wackQueue ++ (s.usp h).rackQueue ++ (s.usp h).wackQueue ++
    (s.usp h).heldAck .read ++ (s.usp h).heldAck .write ++ (s.sim h).peq ++
    (s.sim h).rackIncoming.toList ++ (s.sim h).wackIncoming.toList ++ (s.sim h).rackQueue ++
    (s.sim h).wackQueue

/-! ## Devices -/

/-- A device answers every request once or still has it. -/
theorem ReachableBy.device_count (hr : ReachableBy cfg ok s) (d : Nat) (a : Payload) :
    ((sent (.memFw d) s.log).map Payload.bare).count a =
      ((sent (.ctrlBw d) s.log).map Payload.bare).count a +
        ((s.atDevice d).map Payload.bare).count a := by
  have hq := hr.memQueue d
  have hf := (hr.memFlow d).1.count_eq a
  simp only [MemWrapper.Queue] at hq
  simp only [hq, atDevice, List.map_append, List.count_append] at hf ⊢
  omega

theorem ReachableBy.memFw_device (hr : ReachableBy cfg ok s) (d : Nat) :
    ∀ p ∈ sent (.memFw d) s.log, p.deviceId = d ∧ d < cfg.dramNum := fun p hp =>
  hr.ctrlSockets.1 d p ((mem_sent _).mp hp)

/-- What is at a device, or comes back from it, was sent to it. -/
theorem ReachableBy.ctrlBw_device (hr : ReachableBy cfg ok s) (d : Nat) :
    ∀ p ∈ sent (.ctrlBw d) s.log, p.deviceId = d := by
  intro p hp
  obtain ⟨q, hq, he⟩ := mem_bare_of_count _ (sent (.memFw d) s.log)
    (fun a => by have := hr.device_count d a; omega) hp
  rw [← (hr.memFw_device d q hq).1, ← Payload.bare_deviceId p, ← he, Payload.bare_deviceId]

theorem ReachableBy.atDevice_device (hr : ReachableBy cfg ok s) (d : Nat) :
    ∀ p ∈ s.atDevice d, p.deviceId = d ∧ d < cfg.dramNum := by
  intro p hp
  obtain ⟨q, hq, he⟩ := mem_bare_of_count _ (sent (.memFw d) s.log)
    (fun a => by have := hr.device_count d a; omega) hp
  have hd := hr.memFw_device d q hq
  refine ⟨?_, hd.2⟩
  rw [← hd.1, ← Payload.bare_deviceId p, ← he, Payload.bare_deviceId]

theorem ReachableBy.ctrlBw_filter (hr : ReachableBy cfg ok s) (d : Nat) :
    (callsOn Chan.isCtrlBw s.log).filter (·.deviceId = d) = sent (.ctrlBw d) s.log := by
  refine callsOn_filter .ctrlBw (fun _ _ hmn => by injection hmn) (fun _ => rfl) ?_ d
  intro c p hp hc
  cases c with
  | ctrlBw k => rw [hr.ctrlBw_device k p ((mem_sent _).mpr hp)]
  | _ => cases hc

/-- A sum over the devices or hosts in which only one has a share. -/
theorem sum_range_single {f : Nat → Nat} {h : Nat} (hf : ∀ k, k ≠ h → f k = 0) :
    ∀ n, ((List.range n).map f).sum = if h < n then f h else 0 := by
  intro n
  induction n with
  | zero => rfl
  | succ n ih =>
      rw [List.range_succ, List.map_append, List.sum_append, ih]
      by_cases hn : h = n
      · simp [hn]
      · have := hf n (fun e => hn e.symm)
        by_cases hlt : h < n
        · simp [hlt, this, Nat.lt_succ_of_lt hlt]
        · simp [hlt, this, show ¬ h < n + 1 by omega]

/-- Of several devices only its own has a share in a request. -/
theorem count_by_device {f : Nat → List Payload} {n : Nat}
    (hf : ∀ d, ∀ p ∈ f d, p.deviceId = d ∧ d < n) (a : Payload) :
    (((List.range n).flatMap f).map Payload.bare).count a =
      ((f a.deviceId).map Payload.bare).count a := by
  have hother : ∀ d, d ≠ a.deviceId → ((f d).map Payload.bare).count a = 0 := fun d hd =>
    count_bare_other (fun p hp => (hf d p hp).1) (Ne.symm hd)
  rw [List.map_flatMap, List.count_flatMap]
  refine (sum_range_single hother n).trans ?_
  split
  · rfl
  · rename_i hd
    refine (List.count_eq_zero.mpr fun hm => ?_).symm
    obtain ⟨p, hp, -⟩ := List.mem_map.mp hm
    exact hd (hf _ p hp).2

/-- Of the devices only its own has a share in a request. -/
theorem ReachableBy.count_devices (hr : ReachableBy cfg ok s) (a : Payload) :
    (((List.range cfg.dramNum).flatMap s.atDevice).map Payload.bare).count a =
      ((s.atDevice a.deviceId).map Payload.bare).count a :=
  count_by_device hr.atDevice_device a

/-! ## Conservation -/

/-- A request is counted under its own command only. -/
theorem count_by_command {f : Command → List Payload} (hf : ∀ k, ∀ p ∈ f k, p.command = k)
    (a : Payload) : ((f .read).map Payload.bare).count a + ((f .write).map Payload.bare).count a =
      ((f a.command).map Payload.bare).count a := by
  have hzero {k : Command} (hk : a.command ≠ k) : ((f k).map Payload.bare).count a = 0 := by
    refine List.count_eq_zero.mpr fun hm => ?_
    obtain ⟨p, hp, rfl⟩ := List.mem_map.mp hm
    exact hk (hf k p hp)
  cases hc : a.command with
  | read => rw [hzero (k := .write) (by simp [hc]), Nat.add_zero]
  | write => rw [hzero (k := .read) (by simp [hc]), Nat.zero_add]

/-- Requests accepted are those answered and those in flight. -/
theorem ReachableBy.inFlight_perm (hr : ReachableBy cfg ok s) :
    ((callsOn Chan.isCtrlFw s.log).map Payload.bare).Perm
      ((callsOn Chan.isDspBw s.log).map Payload.bare ++ (s.inFlight cfg).map Payload.bare) := by
  rw [List.perm_iff_count]
  intro a
  -- through the controller, per command
  have hq := hr.ctrlQueues
  obtain ⟨hfw, hbw⟩ := hq a.command
  have h1 := congrArg (fun ps => (ps.map Payload.bare).count a) hfw
  have h2 := congrArg (fun ps => (ps.map Payload.bare).count a) hbw
  simp only [List.map_append, List.count_append, count_bare_ofCmd] at h1 h2
  have h3 := count_by_command (fun k => hq.fw_command (k := k)) a
  have h4 := count_by_command (fun k => hq.bw_command (k := k)) a
  -- through its device
  have h5 := hr.device_count a.deviceId a
  rw [← hr.memFw_filter, ← hr.ctrlBw_filter, count_bare_device, count_bare_device] at h5
  have h6 := hr.count_devices a
  simp only [inFlight, Controller.fwContents_read, Controller.fwContents_write,
    Controller.bwContents_read, Controller.bwContents_write, List.map_append,
    List.count_append] at h3 h4 h6 ⊢
  omega

/-- A request in flight was created by the host of its id. -/
theorem ReachableBy.inFlight_create (hr : ReachableBy cfg ok s) {q : Payload}
    (hq : q ∈ s.inFlight cfg) : ∃ p ∈ sent (.create q.id) s.log, p.bare = q.bare := by
  obtain ⟨p, hp, he⟩ :=
    mem_bare_of_count (s.inFlight cfg) (callsOn Chan.isCtrlFw s.log) (fun a => by
      have := hr.inFlight_perm.count_eq a
      rw [List.count_append] at this
      omega) hq
  obtain ⟨c, hc, hm⟩ := (mem_callsOn _).mp hp
  cases c with
  | ctrlFw k =>
      have hk := hr.ctrlFw_create ((mem_sent _).mpr hm)
      have hid : k = q.id := by
        rw [← hr.create_id hk, ← Payload.bare_id p, he, Payload.bare_id]
      exact ⟨p, hid ▸ hk, he⟩
  | _ => cases hc

/-- A device answers a request at most as often as it took it in. -/
theorem ReachableBy.count_dspBw_le (hr : ReachableBy cfg ok s) (k : Nat) (a : Payload) :
    ((sent (.dspBw k) s.log).map Payload.bare).count a ≤
      ((sent (.peqCb a.deviceId) s.log).map Payload.bare).count a := by
  have h1 := ((sent_sublist (.dspBw k) (k := Chan.isDspBw) rfl s.log).map Payload.bare).count_le a
  have h2 := congrArg (fun ps => (ps.map Payload.bare).count a) (hr.ctrlQueues a.command).2
  simp only [List.map_append, List.count_append, count_bare_ofCmd] at h2
  have h3 := (hr.memFlow a.deviceId).1.count_eq a
  rw [List.count_append, ← hr.ctrlBw_filter, count_bare_device] at h3
  omega

end Sys

end TSim4CXL
