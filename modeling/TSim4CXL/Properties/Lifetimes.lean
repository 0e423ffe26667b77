/-
  The lives of payloads: from `add_payload` to the event queue of a device, and from `gen_trans`
  there to the END_RESP call of the host.

  `hostSlots` and `dramSlots` are the places a payload of a host, or of a device, can be in:
  queues, event queues, incoming slots, flits in hand and Ramulator. `slots_nodup` and
  `slots_live`: a payload is in one of them at most, and in none after its last call.
  `fits_of_split`: so every event of a run finds the payloads alive that it needs, and creates none
  that is there.
-/
import TSim4CXL.Properties.ResponsePath
import TSim4CXL.Trace.Pools
import Mathlib.Algebra.Order.BigOperators.Group.List
import Mathlib.Algebra.Order.Group.Nat

namespace TSim4CXL

open Transition

/-- The acks in the event queue, the incoming slots and the ack queues of a SIMWrapper. -/
def SimWrapper.ackSlots (w : SimWrapper) : List Payload :=
  w.peq ++ w.rackIncoming.toList ++ w.wackIncoming.toList ++ w.rackQueue ++ w.wackQueue

/-- An ack consumed was there, and no ack comes up again. -/
theorem SimWrapper.Move.count_ackSlots {cfg : Config} {h : Nat} {env : SimEnv} {w w' : SimWrapper}
    {es : List Event} (hm : Move cfg h env w es w') (p : Payload) :
    (sent (.endResp h) es).count p + w'.ackSlots.count p ≤ w.ackSlots.count p := by
  unfold ackSlots
  cases hm with
  | control _ _ _ _ _ _ hes _ => simp [sent_quiet _ hes]
  | createRead => simp [handleReadPacket]
  | createWrite => simp [handleWritePacket]
  | forwardRead => simp
  | forwardWrite => simp
  | rack hq => simp [hq, List.count_cons]; omega
  | respond hq => simp [hq, List.count_cons]; omega
  | wack hq => simp [hq, List.count_cons]; omega
  | signal hq => simp [hq, List.count_cons]; omega
  | posedge => simp [clockPosedge]; omega
  | peqRead hq => simp [hq, List.count_cons]; omega
  | peqWrite hq => simp [hq, List.count_cons]; omega

theorem SimWrapper.chain_count_ackSlots {cfg : Config} {h : Nat} {env : SimEnv} {w w' : SimWrapper}
    {es : List Event} (hc : Chain (Move cfg h env) w es w') (p : Payload) :
    (sent (.endResp h) es).count p + w'.ackSlots.count p ≤ w.ackSlots.count p := by
  induction hc with
  | nil => simp
  | cons hm _ ih =>
      have := hm.count_ackSlots p
      rw [sent_append, List.count_append]
      omega

namespace Sys

variable {cfg : Config} {s : Sys} {ok : Sys → Action → Prop}

/-! ## Places -/

/-- Where a payload of a host can be: on the path to the devices and in their event queues. -/
def hostSlots (cfg : Config) (s : Sys) : List Payload :=
  s.onPath cfg ++ (List.range cfg.dramNum).flatMap fun d => (s.mem d).peq

/-- Where a payload of a device can be: in the device, on the path to the hosts and there. -/
def dramSlots (cfg : Config) (s : Sys) : List Payload :=
  (List.range cfg.dramNum).flatMap (fun d => (s.mem d).contents) ++ s.acksOnPath cfg ++
    (List.range cfg.hostNum).flatMap fun h => (s.sim h).ackSlots

/-- All places, with what is in them. -/
def slots (cfg : Config) (s : Sys) : List Tenant :=
  (s.hostSlots cfg).map (fun p => .host p.bare) ++ (s.dramSlots cfg).map fun p => .dram p.bare

/-! ## Created once -/

theorem ReachableBy.create_filter (hr : ReachableBy cfg ok s) (h : Nat) :
    (callsOn Chan.isCreate s.log).filter (·.id = h) = sent (.create h) s.log := by
  refine callsOn_filter .create (fun _ _ hmn => by injection hmn) (fun _ => rfl) ?_ h
  intro c p hp hc
  cases c with
  | create k => rw [hr.create_id ((mem_sent _).mpr hp)]
  | _ => cases hc

theorem ReachableBy.mem_creates (hr : ReachableBy cfg ok s) {p : Payload} :
    p ∈ callsOn Chan.isCreate s.log ↔ p ∈ sent (.create p.id) s.log := by
  rw [← hr.create_filter, List.mem_filter]
  simp

theorem ReachableBy.creates_nodup (hr : ReachableBy cfg ok s) :
    (requests Chan.isCreate s.log).Nodup := by
  refine hr.requests_nodup (List.nodup_iff_count_le_one.mpr fun p => ?_) fun p hp =>
    hr.mem_creates.mp hp
  have hcount : (callsOn Chan.isCreate s.log).count p =
      (ofCmd p.command (sent (.create p.id) s.log)).count p := by
    rw [ofCmd, List.count_filter (by simp), ← hr.create_filter, List.count_filter (by simp)]
  rw [hcount]
  exact List.nodup_iff_count_le_one.mp (hr.create_nodup p.id p.command) p

/-! ## On the way to a device -/

theorem ReachableBy.onPath_create (hr : ReachableBy cfg ok s) {p : Payload}
    (hp : p ∈ s.onPath cfg ++ callsOn Chan.isMemFw s.log) : p ∈ sent (.create p.id) s.log := by
  rcases List.mem_append.mp hp with hp | hp
  · rcases List.mem_append.mp hp with hp | hp
    · obtain ⟨h, -, hp⟩ := List.mem_flatMap.mp hp
      have hc := hr.hostPath_create hp
      rw [hr.create_id hc]
      exact hc
    · have hq : p ∈ s.ctrl.fwContents p.command := by
        rcases List.mem_append.mp hp with hp | hp
        · rw [hr.ctrlQueues.fw_command (k := .read) p hp]
          exact hp
        · rw [hr.ctrlQueues.fw_command (k := .write) p hp]
          exact hp
      have hm : p ∈ ofCmd p.command (sent (.create p.id) s.log) := by
        rw [hr.forward_path p.id p.command]
        refine List.mem_append_right _ (List.mem_append_left _ ?_)
        exact List.mem_filter.mpr ⟨hq, by simp⟩
      exact (mem_ofCmd.mp hm).1
  · exact hr.memFw_create hp

theorem ReachableBy.onPath_nodup (hr : ReachableBy cfg ok s) :
    ((s.onPath cfg ++ callsOn Chan.isMemFw s.log).map Payload.bare).Nodup := by
  refine hr.requests_nodup (List.nodup_iff_count_le_one.mpr fun p => ?_) fun p hp =>
    hr.onPath_create hp
  by_cases hp : p ∈ s.onPath cfg ++ callsOn Chan.isMemFw s.log
  · have := hr.delivered_or_on_path (hr.onPath_create hp)
    rw [List.count_append]
    omega
  · rw [List.count_eq_zero.mpr hp]
    exact Nat.zero_le 1

/-! ## By device -/

theorem ReachableBy.peqCb_device (hr : ReachableBy cfg ok s) {d : Nat} {p : Payload}
    (hp : p ∈ sent (.peqCb d) s.log) : p.deviceId = d := by
  refine (hr.memFw_device d p ?_).1
  rw [hr.memQueue d]
  exact List.mem_append_left _ hp

theorem ReachableBy.peqCb_filter (hr : ReachableBy cfg ok s) (d : Nat) :
    (callsOn Chan.isPeqCb s.log).filter (·.deviceId = d) = sent (.peqCb d) s.log := by
  refine callsOn_filter .peqCb (fun _ _ hmn => by injection hmn) (fun _ => rfl) ?_ d
  intro c p hp hc
  cases c with
  | peqCb k => rw [hr.peqCb_device ((mem_sent _).mpr hp)]
  | _ => cases hc

/-- A request handed to a device was taken in or waits in its event queue. -/
theorem ReachableBy.count_memFw (hr : ReachableBy cfg ok s) (a : Payload) :
    (requests Chan.isMemFw s.log).count a = (requests Chan.isPeqCb s.log).count a +
      (((List.range cfg.dramNum).flatMap fun d => (s.mem d).peq).map Payload.bare).count a := by
  have hpeq := count_by_device (f := fun d => (s.mem d).peq) (n := cfg.dramNum) (fun d p hp =>
    hr.atDevice_device d p (List.mem_append_left _ hp)) a
  have hq := congrArg (fun ps => (ps.map Payload.bare).count a) (hr.memQueue a.deviceId)
  simp only [List.map_append, List.count_append] at hq
  rw [← hr.memFw_filter, ← hr.peqCb_filter, count_bare_device, count_bare_device] at hq
  rw [hpeq]
  exact hq

/-- A request taken in was answered or is still in its device. -/
theorem ReachableBy.count_peqCb (hr : ReachableBy cfg ok s) (a : Payload) :
    (requests Chan.isPeqCb s.log).count a = (requests Chan.isCtrlBw s.log).count a +
      (((List.range cfg.dramNum).flatMap fun d =>
        (s.mem d).contents).map Payload.bare).count a := by
  have hin := count_by_device (f := fun d => (s.mem d).contents) (n := cfg.dramNum) (fun d p hp =>
    hr.atDevice_device d p (List.mem_append_right _ hp)) a
  have hflow := (hr.memFlow a.deviceId).1.count_eq a
  rw [List.count_append, ← hr.peqCb_filter, ← hr.ctrlBw_filter, count_bare_device,
    count_bare_device] at hflow
  rw [hin]
  exact hflow

/-- A payload of a host is in one place at most, and in none when a device took it in. -/
theorem ReachableBy.hostSlots_nodup (hr : ReachableBy cfg ok s) :
    ((s.hostSlots cfg).map Payload.bare ++ requests Chan.isPeqCb s.log).Nodup := by
  have hone := List.nodup_iff_count_le_one.mp hr.onPath_nodup
  refine List.nodup_iff_count_le_one.mpr fun a => ?_
  have hfw := hr.count_memFw a
  have hone := hone a
  simp only [requests] at hfw
  simp only [hostSlots, requests, List.map_append, List.count_append] at hone ⊢
  omega

theorem ReachableBy.hostSlots_create (hr : ReachableBy cfg ok s) {p : Payload}
    (hp : p ∈ s.hostSlots cfg) : p ∈ sent (.create p.id) s.log := by
  rcases List.mem_append.mp hp with hp | hp
  · exact hr.onPath_create (List.mem_append_left _ hp)
  · obtain ⟨d, -, hp⟩ := List.mem_flatMap.mp hp
    have hm : p ∈ sent (.memFw d) s.log := by
      rw [hr.memQueue d]
      exact List.mem_append_right _ hp
    exact hr.memFw_create ((mem_callsOn _).mpr ⟨_, rfl, (mem_sent _).mp hm⟩)

/-! ## On the way back -/

theorem count_ofCmd {c : Command} {p : Payload} (hc : p.command = c) (ps : List Payload) :
    (ofCmd c ps).count p = ps.count p := List.count_filter (by simpa using hc)

/-- Acks consumed, queued and notified at a host are among those its USP sent. -/
theorem ReachableBy.count_ackSlots (hr : ReachableBy cfg ok s) (h : Nat) (p : Payload) :
    (sent (.endResp h) s.log).count p + (s.sim h).ackSlots.count p ≤
    (sent (.simBw h) s.log).count p := by
  obtain ⟨hread, hwrite⟩ := hr.simAcks h
  have hr' : ∀ q ∈ (s.sim h).rackIncoming.toList ++ (s.sim h).rackQueue, q.command = .read :=
    fun q hq =>
    (mem_ofCmd.mp (hread.subset (by rcases List.mem_append.mp hq with hq | hq <;> simp [hq]))).2
  have hw' : ∀ q ∈ (s.sim h).wackIncoming.toList ++ (s.sim h).wackQueue, q.command = .write :=
    fun q hq =>
    (mem_ofCmd.mp (hwrite.subset (by rcases List.mem_append.mp hq with hq | hq <;> simp [hq]))).2
  have hread := hread.count_le p
  have hwrite := hwrite.count_le p
  simp only [List.count_append, SimWrapper.ackSlots] at hread hwrite ⊢
  -- the slot and the queue of the other command do not hold it
  cases hc : p.command with
  | read =>
      have hnone := count_other_command hw' (p := p) (by simp [hc])
      simp only [count_ofCmd hc] at hread
      rw [List.count_append] at hnone
      omega
  | write =>
      have hnone := count_other_command hr' (p := p) (by simp [hc])
      simp only [count_ofCmd hc] at hwrite
      rw [List.count_append] at hnone
      omega

/-- Over all hosts. -/
theorem ReachableBy.count_consumed (hr : ReachableBy cfg ok s) (p : Payload) :
    (callsOn Chan.isEndResp s.log).count p +
    ((List.range cfg.hostNum).flatMap fun h => (s.sim h).ackSlots).count p ≤
    (callsOn Chan.isSimBw s.log).count p := by
  have hend :=
    count_callsOn (k := Chan.isEndResp) .endResp (fun _ _ he => by injection he) (fun _ => rfl)
    (n := cfg.hostNum) (l := s.log) (fun c q hq hc => by
      cases c with
      | endResp h => exact ⟨h, hr.source_exists _ hq, rfl⟩
      | _ => cases hc) p
  rw [hend, hr.count_simBw, List.count_flatMap, ← List.sum_map_add]
  exact List.sum_le_sum fun h _ => hr.count_ackSlots h p

/-- Acks received are consumed or in one place, or were lost at an occupied slot. -/
theorem ReachableBy.consumed_subperm (hr : ReachableBy cfg ok s) :
    (callsOn Chan.isEndResp s.log ++
        (s.acksOnPath cfg ++ (List.range cfg.hostNum).flatMap fun h => (s.sim h).ackSlots)).Subperm
      (callsOn Chan.isCtrlBw s.log) := by
  refine List.subperm_ext_iff.mpr fun p _ => ?_
  have h1 := hr.count_consumed p
  have h2 := hr.count_received p
  simp only [List.count_append]
  omega

/-- A payload of a device is in one place at most, and in none when its ack was consumed. -/
theorem ReachableBy.count_dramSlots (hr : ReachableBy cfg ok s) (a : Payload) :
    (requests Chan.isEndResp s.log).count a + ((s.dramSlots cfg).map Payload.bare).count a ≤
      (requests Chan.isPeqCb s.log).count a := by
  obtain ⟨ps, hperm, hsub⟩ := hr.consumed_subperm
  have h1 := (hsub.map Payload.bare).count_le a
  rw [(hperm.map Payload.bare).count_eq a] at h1
  have h2 := hr.count_peqCb a
  simp only [requests] at h2
  simp only [dramSlots, requests, List.map_append, List.count_append] at h1 ⊢
  omega

theorem ReachableBy.count_endResp_ctrlBw (hr : ReachableBy cfg ok s) (a : Payload) :
    (requests Chan.isEndResp s.log).count a ≤ (requests Chan.isCtrlBw s.log).count a := by
  obtain ⟨ps, hperm, hsub⟩ := hr.consumed_subperm
  have h1 := (hsub.map Payload.bare).count_le a
  rw [(hperm.map Payload.bare).count_eq a] at h1
  simp only [requests, List.map_append, List.count_append] at h1 ⊢
  omega

/-! ## Every place holds a live payload -/

theorem ReachableBy.slots_nodup (hr : ReachableBy cfg ok s) : (s.slots cfg).Nodup := by
  have hpeq := (List.nodup_append.mp hr.hostSlots_nodup).2.1
  have hdram : ((s.dramSlots cfg).map Payload.bare).Nodup := by
    refine List.nodup_iff_count_le_one.mpr fun a => ?_
    have h1 := hr.count_dramSlots a
    have h2 := List.nodup_iff_count_le_one.mp hpeq a
    omega
  have hhost := (List.nodup_append.mp hr.hostSlots_nodup).1
  have h1 : ((s.hostSlots cfg).map fun p => Tenant.host p.bare).Nodup := by
    have := hhost.map (f := Tenant.host) fun _ _ he => by injection he
    rwa [List.map_map] at this
  have h2 : ((s.dramSlots cfg).map fun p => Tenant.dram p.bare).Nodup := by
    have := hdram.map (f := Tenant.dram) fun _ _ he => by injection he
    rwa [List.map_map] at this
  refine h1.append h2 fun t ht ht' => ?_
  obtain ⟨p, -, rfl⟩ := List.mem_map.mp ht
  obtain ⟨q, -, he⟩ := List.mem_map.mp ht'
  cases he

theorem ReachableBy.slots_live (hr : ReachableBy cfg ok s) : ∀ t ∈ s.slots cfg, Live s.log t := by
  intro t ht
  rcases List.mem_append.mp ht with ht | ht
  · obtain ⟨p, hp, rfl⟩ := List.mem_map.mp ht
    refine ⟨(mem_requests _ _).mpr ⟨p, hr.mem_creates.mpr (hr.hostSlots_create hp), rfl⟩,
      fun hm => ?_⟩
    exact (List.nodup_append.mp hr.hostSlots_nodup).2.2 _ (List.mem_map_of_mem hp) _ hm rfl
  · obtain ⟨p, hp, rfl⟩ := List.mem_map.mp ht
    have hcount := hr.count_dramSlots p.bare
    have hone := List.nodup_iff_count_le_one.mp (List.nodup_append.mp hr.hostSlots_nodup).2.1 p.bare
    have hpos := List.count_pos_iff.mpr (List.mem_map_of_mem (f := Payload.bare) hp)
    refine ⟨List.count_pos_iff.mp (by omega), fun hm => ?_⟩
    have := List.count_pos_iff.mpr hm
    omega

/-! ## One call before the next -/

theorem subset_of_count {ps qs : List Payload} (h : ∀ a, ps.count a ≤ qs.count a) : ps ⊆ qs :=
  fun _ ha => List.count_pos_iff.mp (Nat.lt_of_lt_of_le (List.count_pos_iff.mpr ha) (h _))

theorem ReachableBy.memFw_subset (hr : ReachableBy cfg ok s) :
    requests Chan.isMemFw s.log ⊆ requests Chan.isCreate s.log := by
  intro a ha
  obtain ⟨p, hp, rfl⟩ := (mem_requests _ _).mp ha
  exact (mem_requests _ _).mpr ⟨p, hr.mem_creates.mpr (hr.memFw_create hp), rfl⟩

theorem ReachableBy.peqCb_subset (hr : ReachableBy cfg ok s) :
    requests Chan.isPeqCb s.log ⊆ requests Chan.isMemFw s.log :=
  subset_of_count fun a => by rw [hr.count_memFw a]; exact Nat.le_add_right ..

theorem ReachableBy.ctrlBw_subset (hr : ReachableBy cfg ok s) :
    requests Chan.isCtrlBw s.log ⊆ requests Chan.isPeqCb s.log :=
  subset_of_count fun a => by rw [hr.count_peqCb a]; exact Nat.le_add_right ..

theorem ReachableBy.endResp_subset (hr : ReachableBy cfg ok s) :
    requests Chan.isEndResp s.log ⊆ requests Chan.isCtrlBw s.log :=
  subset_of_count hr.count_endResp_ctrlBw

theorem ReachableBy.peqCb_nodup (hr : ReachableBy cfg ok s) : (requests Chan.isPeqCb s.log).Nodup :=
  (List.nodup_append.mp hr.hostSlots_nodup).2.1

theorem ReachableBy.endResp_nodup (hr : ReachableBy cfg ok s) :
    (requests Chan.isEndResp s.log).Nodup := by
  refine List.nodup_iff_count_le_one.mpr fun a => ?_
  have h1 := hr.count_endResp_ctrlBw a
  have h2 := List.nodup_iff_count_le_one.mp hr.ctrlBw_nodup a
  simp only [requests] at h1 ⊢
  omega

/-- An ack is consumed at most as often as its payload was created. -/
theorem ReachableBy.count_endResp_create (hr : ReachableBy cfg ok s) (a : Payload) :
    (requests Chan.isEndResp s.log).count a ≤ (requests Chan.isCreate s.log).count a := by
  have h1 := hr.count_endResp_ctrlBw a
  have h2 := hr.count_peqCb a
  have h3 := hr.count_memFw a
  have h4 := (List.subperm_of_subset hr.memFw_nodup hr.memFw_subset).count_le a
  simp only [requests] at h1 h2 h3 h4 ⊢
  omega

/-- A consumed read ack points into its device, at its own address. -/
theorem ReachableBy.endResp_pointer (hr : ReachableBy cfg ok s) {h : Nat} {p : Payload}
    (hp : .call (.endResp h) p ∈ s.log) (hc : p.command = .read) :
    p.dataPtr = .memData p.deviceId p.address := by
  have hm : p ∈ callsOn Chan.isCtrlBw s.log := hr.consumed_subperm.subset
    (List.mem_append_left _ ((mem_callsOn _).mpr ⟨_, rfl, hp⟩))
  obtain ⟨c, hk, hm⟩ := (mem_callsOn _).mp hm
  cases c with
  | ctrlBw d =>
      have hm := (mem_sent _).mpr hm
      rw [hr.ctrlBw_device d p hm]
      exact hr.memPointers d p hm hc
  | _ => cases hk

/-! ## Events of one step -/

/-- A request among those of distinct ones was not there before. -/
theorem not_mem_before {k : Chan → Bool} {c : Chan} {p : Payload} {l l' : List Event}
    (hn : (requests k (l ++ .call c p :: l')).Nodup) (hk : k c = true) : p.bare ∉ requests k l := by
  rw [requests_append] at hn
  intro hp
  refine (List.nodup_append.mp hn).2.2 _ hp p.bare ?_ rfl
  exact (mem_requests _ _).mpr ⟨p, (mem_callsOn _).mpr ⟨c, hk, List.mem_cons_self⟩, rfl⟩

/-- Other components make other calls. -/
theorem callsOn_foreign {k : Chan → Bool} {es : List Event} {o : Comp}
    (hes : ∀ e ∈ es, e.source = o) (hk : ∀ c, k c = true → c.source ≠ o) : callsOn k es = [] := by
  refine callsOn_eq_nil _ fun c p he => ?_
  cases hc : k c with
  | false => rfl
  | true => exact absurd (hes _ he) (hk c hc)

theorem clockTick_calls (d : Nat) (accept : Bool) (m : MemWrapper) :
    callsOn Chan.isPeqCb (m.clockTick d accept).2 = [] ∧
      callsOn Chan.isCtrlBw (m.clockTick d accept).2 = [] := by
  unfold MemWrapper.clockTick
  split
  · exact ⟨rfl, rfl⟩
  · split <;> exact ⟨rfl, rfl⟩

/-- A device takes one payload in, sends acks or does neither in one step. -/
theorem mem_act_events {d n : Nat} {load : DataPtr → Nat → List UInt8} {m m' : MemWrapper}
    {b : MemWrapper.Act} {es : List Event} (ha : m.act d n load b = .ok (m', es)) :
    (∃ p, es = [.call (.peqCb d) p]) ∨ (∀ e ∈ es, ∃ p, e = .call (.ctrlBw d) p) ∨
      (callsOn Chan.isPeqCb es = [] ∧ callsOn Chan.isCtrlBw es = []) := by
  cases b with
  | peq =>
      simp only [MemWrapper.act, MemWrapper.peqCb] at ha
      split at ha
      · cases ha
      · split at ha <;> cases ha <;> exact .inl ⟨_, rfl⟩
  | posedge =>
      cases ha
      exact .inr (.inr ⟨rfl, rfl⟩)
  | negedge =>
      cases ha
      refine .inr (.inl fun e he => ?_)
      obtain ⟨p, -, rfl⟩ := List.mem_map.mp he
      exact ⟨p, rfl⟩
  | simulateDram accept now =>
      refine .inr (.inr ?_)
      have htick := clockTick_calls d accept ((m.collect now).issue now)
      simp only [MemWrapper.act, MemWrapper.simulateDram] at ha
      split at ha
      · split at ha
        · cases ha
          simpa using htick
        · simp only [Except.ok.injEq] at ha
          rw [ha] at htick
          exact htick
      · cases ha
  | complete i =>
      refine .inr (.inr ?_)
      simp only [MemWrapper.act, MemWrapper.complete] at ha
      split at ha
      · split at ha <;> cases ha
        exact ⟨rfl, rfl⟩
      · cases ha

theorem Stretch.owner_mem {a : Action} {es : List Event} {t : Sys} {d : Nat}
    (ht : Stretch cfg s a es t) (ho : a.owner = .mem d) :
    (∃ p, es = [.call (.peqCb d) p]) ∨ (∀ e ∈ es, ∃ p, e = .call (.ctrlBw d) p) ∨
      (callsOn Chan.isPeqCb es = [] ∧ callsOn Chan.isCtrlBw es = []) := by
  cases ht with
  | mem hd ha =>
      cases ho
      exact mem_act_events ha
  | _ => cases ho

/-- An event between the states before and after its step, with the other events of the step. -/
structure Moment (s u : Sys) (es₁ : List Event) (e : Event) (es₂ : List Event) : Prop where
  log : u.log = s.log ++ es₁ ++ e :: es₂
  before : ∀ x ∈ es₁, x.source = e.source
  after : ∀ x ∈ es₂, x.source = e.source
  alone : ∀ d p, e = .call (.peqCb d) p → es₁ = [] ∧ es₂ = []
  acks : ∀ d p, e = .call (.ctrlBw d) p → callsOn Chan.isPeqCb es₂ = []

theorem Stretch.moment {a : Action} {es₁ es₂ : List Event} {e : Event} {t : Sys}
    (ht : Stretch cfg s a (es₁ ++ e :: es₂) t) : Moment s (t.emit (es₁ ++ e :: es₂)) es₁ e es₂ := by
  have hsrc := ht.source
  have he : e ∈ es₁ ++ e :: es₂ := by simp
  refine ⟨by rw [emit, ht.log, List.append_assoc], fun x hx => ?_, fun x hx => ?_, ?_, ?_⟩
  · rw [hsrc e he]
    exact hsrc x (List.mem_append_left _ hx)
  · rw [hsrc e he]
    exact hsrc x (List.mem_append_right _ (List.mem_cons_of_mem _ hx))
  · rintro d p rfl
    rcases ht.owner_mem (hsrc _ he).symm with ⟨q, hes⟩ | hes | ⟨hes, -⟩
    · rcases List.append_eq_singleton_iff.mp hes with ⟨rfl, h⟩ | ⟨-, h⟩
      · exact ⟨rfl, (List.cons.inj h).2⟩
      · cases h
    · obtain ⟨q, hq⟩ := hes _ he
      cases hq
    · exact absurd ((mem_callsOn _).mpr ⟨_, rfl, he⟩) (by rw [hes]; exact List.not_mem_nil)
  · rintro d p rfl
    rcases ht.owner_mem (hsrc _ he).symm with ⟨q, hes⟩ | hes | ⟨hes, -⟩
    · rw [hes, List.mem_singleton] at he
      cases he
    · refine callsOn_eq_nil _ fun c q hq => ?_
      obtain ⟨r, hr⟩ := hes _ (List.mem_append_right _ (List.mem_cons_of_mem _ hq))
      cases hr
      rfl
    · rw [callsOn_append, List.append_eq_nil_iff] at hes
      rw [callsOn_cons, List.append_eq_nil_iff] at hes
      exact hes.2.2

namespace Moment

variable {u : Sys} {es₁ es₂ : List Event} {e : Event} {k : Chan → Bool}

/-- What other components have called so far they called before the step. -/
theorem pre (hm : Moment s u es₁ e es₂) (hk : ∀ c, k c = true → c.source ≠ e.source) :
    callsOn k (s.log ++ es₁) = callsOn k s.log := by
  rw [callsOn_append, callsOn_foreign hm.before hk, List.append_nil]

/-- What other components have called after the step they have called so far. -/
theorem post (hm : Moment s u es₁ e es₂) (hk : ∀ c, k c = true → c.source ≠ e.source) :
    callsOn k (s.log ++ es₁) = callsOn k u.log := by
  have hafter : ∀ x ∈ e :: es₂, x.source = e.source := by
    intro x hx
    rcases List.mem_cons.mp hx with rfl | hx
    · rfl
    · exact hm.after x hx
  rw [hm.log, callsOn_append k _ (e :: es₂), callsOn_foreign hafter hk, List.append_nil]

theorem mem (hm : Moment s u es₁ e es₂) : e ∈ u.log := by
  rw [hm.log]
  simp

variable {c : Chan} {p : Payload}

theorem fresh (hm : Moment s u es₁ (.call c p) es₂) (hn : (requests k u.log).Nodup)
    (hk : k c = true) :
    p.bare ∉ requests k (s.log ++ es₁) := by
  rw [hm.log] at hn
  exact not_mem_before hn hk

theorem not_before (hm : Moment s u es₁ (.call c p) es₂) (hn : (requests k u.log).Nodup)
    (hk : k c = true) : p.bare ∉ requests k s.log := fun h => by
  refine hm.fresh hn hk ?_
  rw [requests_append]
  exact List.mem_append_left _ h

theorem request (hm : Moment s u es₁ (.call c p) es₂) (hk : k c = true) :
    p.bare ∈ requests k u.log :=
  (mem_requests _ _).mpr ⟨p, (mem_callsOn _).mpr ⟨c, hk, hm.mem⟩, rfl⟩

end Moment

/-- Payloads of a host are created, and acks consumed, by the SIMWrappers only. -/
theorem host_source {c : Chan} (hc : c.isCreate = true ∨ c.isEndResp = true) {o : Comp}
    (ho : o = .ctrl ∨ ∃ d, o = .mem d) : c.source ≠ o := by
  intro he
  obtain ⟨h, hh⟩ : ∃ h, c.source = .sim h := by
    cases c with
    | create h => exact ⟨h, rfl⟩
    | endResp h => exact ⟨h, rfl⟩
    | _ => rcases hc with hc | hc <;> cases hc
  rw [hh] at he
  rcases ho with rfl | ⟨d, rfl⟩ <;> cases he

/-- Requests are taken in, and acks sent, by the devices only. -/
theorem dram_source {c : Chan} (hc : c.isPeqCb = true ∨ c.isCtrlBw = true) {o : Comp}
    (ho : o = .ctrl ∨ ∃ h, o = .sim h) : c.source ≠ o := by
  intro he
  obtain ⟨d, hd⟩ : ∃ d, c.source = .mem d := by
    cases c with
    | peqCb d => exact ⟨d, rfl⟩
    | ctrlBw d => exact ⟨d, rfl⟩
    | _ => rcases hc with hc | hc <;> cases hc
  rw [hd] at he
  rcases ho with rfl | ⟨h, rfl⟩ <;> cases he

/-! ### Every event fits -/

section fits

variable {u : Sys} {es₁ es₂ : List Event} {p : Payload}

theorem ReachableBy.fits_create (hr : ReachableBy cfg ok s) (hu : ReachableBy cfg ok u) {h : Nat}
    (hm : Moment s u es₁ (.call (.create h) p) es₂) :
      Fits (s.log ++ es₁) (.call (.create h) p) := by
  refine ⟨hu.create_id ((mem_sent _).mpr hm.mem), hm.fresh hu.creates_nodup rfl, fun hp => ?_⟩
  rw [requests, hm.pre fun _ hc => dram_source (.inl hc) (.inr ⟨h, rfl⟩)] at hp
  exact hm.not_before hu.creates_nodup rfl (hr.memFw_subset (hr.peqCb_subset hp))

theorem ReachableBy.fits_memFw (hr : ReachableBy cfg ok s) (hu : ReachableBy cfg ok u) {d : Nat}
    (hm : Moment s u es₁ (.call (.memFw d) p) es₂) : Fits (s.log ++ es₁) (.call (.memFw d) p) := by
  refine ⟨(hu.memFw_device d p ((mem_sent _).mpr hm.mem)).1, ?_, fun hp => ?_⟩
  · rw [requests, hm.post fun _ hc => host_source (.inl hc) (.inl rfl)]
    exact hu.memFw_subset (hm.request rfl)
  · rw [requests, hm.pre fun _ hc => dram_source (.inl hc) (.inl rfl)] at hp
    exact hm.not_before hu.memFw_nodup rfl (hr.peqCb_subset hp)

theorem ReachableBy.fits_peqCb (hr : ReachableBy cfg ok s) (hu : ReachableBy cfg ok u) {d : Nat}
    (hm : Moment s u es₁ (.call (.peqCb d) p) es₂) : Fits (s.log ++ es₁) (.call (.peqCb d) p) := by
  obtain ⟨rfl, -⟩ := hm.alone d p rfl
  have hfresh := hm.not_before hu.peqCb_nodup rfl
  have hcreate : callsOn Chan.isCreate (s.log ++ []) = callsOn Chan.isCreate u.log :=
    hm.post fun _ hc => host_source (.inl hc) (.inr ⟨d, rfl⟩)
  have hpeq : p ∈ sent (.memFw d) u.log := by
    rw [hu.memQueue d]
    exact List.mem_append_left _ ((mem_sent _).mpr hm.mem)
  have hfw : p ∈ callsOn Chan.isMemFw u.log := (mem_callsOn _).mpr ⟨_, rfl, (mem_sent _).mp hpeq⟩
  rw [List.append_nil] at hcreate ⊢
  refine ⟨hu.peqCb_device ((mem_sent _).mpr hm.mem), ⟨?_, hfresh⟩, fun hp => ?_, fun hp => ?_, ?_⟩
  · rw [requests, hcreate]
    exact hu.memFw_subset (hu.peqCb_subset (hm.request rfl))
  · exact hfresh (hr.ctrlBw_subset hp)
  · exact hfresh (hr.ctrlBw_subset (hr.endResp_subset hp))
  · rw [hcreate]
    exact hu.mem_creates.mpr (hu.memFw_create hfw)

theorem ReachableBy.fits_ctrlBw (hr : ReachableBy cfg ok s) (hu : ReachableBy cfg ok u) {d : Nat}
    (hm : Moment s u es₁ (.call (.ctrlBw d) p) es₂) :
      Fits (s.log ++ es₁) (.call (.ctrlBw d) p) := by
  have hpeq : callsOn Chan.isPeqCb u.log = callsOn Chan.isPeqCb (s.log ++ es₁) := by
    rw [hm.log, callsOn_append _ _ (_ :: es₂), callsOn_cons, hm.acks d p rfl]
    exact List.append_nil _
  refine ⟨hu.ctrlBw_device d p ((mem_sent _).mpr hm.mem), ?_, fun hp => ?_⟩
  · rw [requests, ← hpeq]
    exact hu.ctrlBw_subset (hm.request rfl)
  · rw [requests, hm.pre fun _ hc => host_source (.inr hc) (.inr ⟨d, rfl⟩)] at hp
    exact hm.not_before hu.ctrlBw_nodup rfl (hr.endResp_subset hp)

theorem ReachableBy.fits_endResp (hu : ReachableBy cfg ok u) {h : Nat}
    (hm : Moment s u es₁ (.call (.endResp h) p) es₂) :
      Fits (s.log ++ es₁) (.call (.endResp h) p) := by
  have hack := hu.endResp_subset (hm.request rfl)
  refine ⟨?_, ⟨?_, hm.fresh hu.endResp_nodup rfl⟩, hu.endResp_pointer hm.mem⟩
  · rw [requests, hm.post fun _ hc => dram_source (.inr hc) (.inr ⟨h, rfl⟩)]
    exact hack
  · rw [requests, hm.post fun _ hc => dram_source (.inl hc) (.inr ⟨h, rfl⟩)]
    exact hu.ctrlBw_subset hack

/-- An event of a step fits what was logged before it. -/
theorem ReachableBy.fits_moment (hr : ReachableBy cfg ok s) (hu : ReachableBy cfg ok u) {e : Event}
    (hm : Moment s u es₁ e es₂) : Fits (s.log ++ es₁) e := by
  cases e with
  | call c p =>
      cases c with
      | create h => exact hr.fits_create hu hm
      | memFw d => exact hr.fits_memFw hu hm
      | peqCb d => exact hr.fits_peqCb hu hm
      | ctrlBw d => exact hr.fits_ctrlBw hu hm
      | endResp h => exact hu.fits_endResp hm
      | _ => trivial
  | _ => trivial

end fits

/-- Every event of a run fits what was logged before it. -/
theorem ReachableBy.fits_of_split (hr : ReachableBy cfg ok s) :
    ∀ l₁ e l₂, s.log = l₁ ++ e :: l₂ → Fits l₁ e := by
  refine Reach.invariant (P := fun s => ∀ l₁ e l₂, s.log = l₁ ++ e :: l₂ → Fits l₁ e)
    (by simp [init]) ?_ hr
  intro s a s' hr ha ih hs l₁ e l₂ hl
  have hr' : ReachableBy cfg ok s' := .tail hr ha hs
  obtain ⟨-, es, t, ht, rfl⟩ := step_eq_ok.mp hs
  rw [show (t.emit es).log = s.log ++ es from congrArg (· ++ es) ht.log] at hl
  rcases List.append_eq_append_iff.mp hl with ⟨es₁, rfl, rfl⟩ | ⟨m, hlog, hm⟩
  · exact ReachableBy.fits_moment hr hr' ht.moment
  · cases m with
    | nil =>
        rw [List.append_nil] at hlog
        rw [List.nil_append] at hm
        subst hm
        have hmoment := ReachableBy.fits_moment hr hr'
          (Stretch.moment (show Stretch cfg s a ([] ++ e :: l₂) t from ht))
        rw [List.append_nil] at hmoment
        exact hlog ▸ hmoment
    | cons x m =>
        obtain ⟨rfl, -⟩ := List.cons.inj hm
        exact ih l₁ _ m hlog

/-! ## Ends -/

/-- A host payload that is taken in comes from the event queue of its device. -/
theorem ReachableBy.peqCb_place (hr : ReachableBy cfg ok s) {u : Sys} (hu : ReachableBy cfg ok u)
    {d : Nat} {p : Payload} (hm : Moment s u [] (.call (.peqCb d) p) []) :
      .host p.bare ∈ s.slots cfg := by
  have hfw : requests Chan.isMemFw u.log = requests Chan.isMemFw s.log := by
    rw [hm.log]
    simp [Chan.isMemFw]
  have hpeq : requests Chan.isPeqCb u.log = requests Chan.isPeqCb s.log ++ [p.bare] := by
    rw [hm.log]
    simp [Chan.isPeqCb]
  have hbefore := hr.count_memFw p.bare
  have hafter := hu.count_memFw p.bare
  rw [hfw, hpeq, List.count_append, List.count_singleton_self] at hafter
  have hpos : 0 < (((List.range cfg.dramNum).flatMap fun d => (s.mem d).peq).map Payload.bare).count
      p.bare := by omega
  obtain ⟨q, hq, he⟩ := List.mem_map.mp (List.count_pos_iff.mp hpos)
  exact List.mem_append_left _ (List.mem_map.mpr ⟨q, List.mem_append_right _ hq, by rw [he]⟩)

/-- A device payload whose ack is consumed comes from its host. -/
theorem Stretch.endResp_place {a : Action} {es : List Event} {t : Sys} (ht : Stretch cfg s a es t)
    {h : Nat} {p : Payload} (he : .call (.endResp h) p ∈ es) : .dram p.bare ∈ s.slots cfg := by
  have ho : a.owner = .sim h := (ht.source _ he).symm
  cases ht with
  | sim hh ha =>
      cases ho
      have hcount := SimWrapper.chain_count_ackSlots (SimWrapper.act_chain ha) p
      have hpos := List.count_pos_iff.mpr ((mem_sent _).mpr he)
      have hp : p ∈ (s.sim h).ackSlots := List.count_pos_iff.mp (by omega)
      refine List.mem_append_right _ (List.mem_map.mpr ⟨p, List.mem_append_right _ ?_, rfl⟩)
      exact List.mem_flatMap.mpr ⟨h, List.mem_range.mpr hh, hp⟩
  | _ => cases ho

/-- A tenant that ends was in a place before the step and is dead after it. -/
theorem ReachableBy.ends_place (hr : ReachableBy cfg ok s) {a : Action} {es₁ es₂ : List Event}
    {e : Event} {t : Sys} (ht : Stretch cfg s a (es₁ ++ e :: es₂) t)
    (hu : ReachableBy cfg ok (t.emit (es₁ ++ e :: es₂))) {x : Tenant} (hx : e.ends = some x) :
    x ∈ s.slots cfg ∧ ¬ Live (t.emit (es₁ ++ e :: es₂)).log x := by
  have hm := ht.moment
  have he : e ∈ es₁ ++ e :: es₂ := by simp
  cases e with
  | call c p =>
      cases c with
      | peqCb d =>
          cases hx
          obtain ⟨rfl, rfl⟩ := hm.alone d p rfl
          exact ⟨hr.peqCb_place hu hm, fun hl => hl.2 (hm.request rfl)⟩
      | endResp h =>
          cases hx
          exact ⟨ht.endResp_place he, fun hl => hl.2 (hm.request rfl)⟩
      | _ => cases hx
  | _ => cases hx

end Sys

end TSim4CXL
