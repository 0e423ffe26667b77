/-
  What is left when the simulation stops.

  A SIMWrapper calls `sc_stop` once `active_dram` is 0, and a device clears `active_dram`
  when all cores have ended and its own `m_outstanding` is 0, wherever else payloads may be.
  `shutdown_drains`: in every run in which a device leaves its loop only when every
  SIMWrapper has an empty request path and `outstanding` 0, nothing is left in any
  component when the simulation stops. `write_lost_at_stop`: a host that writes one packet
  and terminates stops with the packet still on its way.
-/
import TSim4CXL.Trace.Control
import TSim4CXL.Trace.Flight
import Mathlib.Algebra.BigOperators.Ring.Finset
import Mathlib.Algebra.Order.BigOperators.Group.Finset

namespace TSim4CXL

open Transition

/-! ## Counting calls by channel -/

/-- Calls on a family of channels are counted channel by channel. -/
theorem length_callsOn {k : Chan → Bool} {chan : Nat → Chan} {n : Nat}
    (hinj : ∀ i j, chan i = chan j → i = j) (hchan : ∀ i, k (chan i) = true) {l : List Event}
    (hk : ∀ c p, .call c p ∈ l → k c = true → ∃ h < n, c = chan h) :
    (callsOn k l).length = ∑ h ∈ Finset.range n, (sent (chan h) l).length := by
  induction l with
  | nil => simp
  | cons e l ih =>
      have ih := ih fun c p hp => hk c p (List.mem_cons_of_mem _ hp)
      simp only [callsOn_cons, sent_cons, List.length_append, Finset.sum_add_distrib, ih,
        Nat.add_right_cancel_iff]
      cases e with
      | call c p =>
          by_cases hc : k c = true
          · obtain ⟨h, hh, rfl⟩ := hk c p List.mem_cons_self hc
            rw [Finset.sum_eq_single_of_mem h (Finset.mem_range.mpr hh)]
            · simp [hchan]
            · intro i _ hi
              have : chan h ≠ chan i := fun he => hi (hinj _ _ he).symm
              simp [this]
          · have hne : ∀ i, c ≠ chan i := fun i he => hc (he ▸ hchan i)
            simp [hc, hne]
      | _ => simp

theorem length_ofCmd (ps : List Payload) :
    (ofCmd .read ps).length + (ofCmd .write ps).length = ps.length := by
  induction ps with
  | nil => rfl
  | cons p ps ih => cases hp : p.command <;> simp [ofCmd_cons, hp] <;> omega

/-- Sums that agree although one is below the other term by term agree term by term. -/
theorem eq_of_sum_le {n : Nat} {f g : Nat → Nat} (hle : ∀ h < n, f h ≤ g h)
    (hsum : ∑ h ∈ Finset.range n, g h ≤ ∑ h ∈ Finset.range n, f h) : ∀ h < n, f h = g h := by
  have hle' : ∀ h ∈ Finset.range n, f h ≤ g h := fun h hh => hle h (Finset.mem_range.mp hh)
  have heq := (Finset.sum_eq_sum_iff_of_le hle').mp (Nat.le_antisymm (Finset.sum_le_sum hle') hsum)
  exact fun h hh => heq h (Finset.mem_range.mpr hh)

namespace Sys

variable {cfg : Config} {s s' : Sys} {a : Action} {ok : Sys → Action → Prop}

/-! ## The balance of a host -/

theorem ReachableBy.create_balance (hr : ReachableBy cfg ok s) (h : Nat) :
    (sent (.create h) s.log).length = (sent (.ctrlFw h) s.log).length + (s.hostPath h).length := by
  have hread := congrArg List.length (hr.host_path h .read)
  have hwrite := congrArg List.length (hr.host_path h .write)
  rw [← length_ofCmd (sent (.create h) s.log), ← length_ofCmd (sent (.ctrlFw h) s.log)]
  simp only [List.length_append, Dsp.fwContents, Usp.fwContents, SimWrapper.fwContents,
    hostPath] at hread hwrite ⊢
  omega

/-- Acks consumed and acks around are no more than the acks sent: some may be lost in a slot. -/
theorem ReachableBy.ack_balance (hr : ReachableBy cfg ok s) (h : Nat) :
    (sent (.endResp h) s.log).length + (s.hostAcks h).length ≤ (sent (.dspBw h) s.log).length := by
  have hread := congrArg List.length (hr.ack_path h .read)
  have hwrite := congrArg List.length (hr.ack_path h .write)
  have h1 := (hr.simAcks h).1.length_le
  have h2 := (hr.simAcks h).2.length_le
  have hpeq := length_ofCmd (s.sim h).peq
  rw [← length_ofCmd (sent (.endResp h) s.log), ← length_ofCmd (sent (.dspBw h) s.log)]
  simp only [List.length_append, Usp.bwContents, Dsp.bwContents, hostAcks] at hread hwrite h1 h2 ⊢
  omega

/-- Over all hosts: what was created is on a host's path, in flight or answered. -/
theorem ReachableBy.total_balance (hr : ReachableBy cfg ok s) :
    ∑ h ∈ Finset.range cfg.hostNum, (sent (.create h) s.log).length =
      ∑ h ∈ Finset.range cfg.hostNum, ((s.hostPath h).length + (sent (.dspBw h) s.log).length) +
        (s.inFlight cfg).length := by
  have hfw : (callsOn Chan.isCtrlFw s.log).length =
      ∑ h ∈ Finset.range cfg.hostNum, (sent (.ctrlFw h) s.log).length := by
    refine length_callsOn (fun _ _ he => by injection he) (fun _ => rfl) fun c p hp hc => ?_
    cases c with
    | ctrlFw h => exact ⟨h, hr.source_exists _ hp, rfl⟩
    | _ => cases hc
  have hbw : (callsOn Chan.isDspBw s.log).length =
      ∑ h ∈ Finset.range cfg.hostNum, (sent (.dspBw h) s.log).length := by
    refine length_callsOn (fun _ _ he => by injection he) (fun _ => rfl) fun c p hp hc => ?_
    cases c with
    | dspBw h => exact ⟨h, hr.ctrlSockets.2 h p hp, rfl⟩
    | _ => cases hc
  have hperm := hr.inFlight_perm.length_eq
  simp only [List.length_append, List.length_map] at hperm
  rw [Finset.sum_congr rfl fun h _ => hr.create_balance h, Finset.sum_add_distrib,
    Finset.sum_add_distrib, ← hfw, ← hbw, hperm]
  omega

/-- Consumed acks never exceed created payloads. -/
theorem ReachableBy.consumed_le (hr : ReachableBy cfg ok s) :
    ∑ h ∈ Finset.range cfg.hostNum, (sent (.endResp h) s.log).length ≤
      ∑ h ∈ Finset.range cfg.hostNum, (sent (.create h) s.log).length := by
  rw [hr.total_balance]
  refine Nat.le_trans (Finset.sum_le_sum fun h _ => ?_) (Nat.le_add_right _ _)
  have := hr.ack_balance h
  omega

/-! ## Settled states -/

/-- Every host has ended and consumed as many acks as it created payloads. -/
def Settled (cfg : Config) (s : Sys) : Prop :=
  ∀ h < cfg.hostNum, (s.sim h).terminated = true ∧
    (sent (.create h) s.log).length = (sent (.endResp h) s.log).length

/-- Nothing is left: every queue is empty, the counters are 0, every write is stored, and every
    payload was taken in by its device, completed by Ramulator and acknowledged. -/
structure Drained (cfg : Config) (s : Sys) : Prop where
  hosts : ∀ h < cfg.hostNum, s.hostPath h = [] ∧ s.hostAcks h = []
  flight : s.inFlight cfg = []
  outstanding : ∀ h < cfg.hostNum, (s.sim h).outstanding = 0
  mOutstanding : ∀ d < cfg.dramNum, (s.mem d).mOutstanding = 0
  stored : ∀ d < cfg.dramNum,
    (s.mem d).memData = MemWrapper.stored (ofCmd .write (sent (.peqCb d) s.log))
  reached : ∀ h, ∀ p ∈ sent (.create h) s.log, p ∈ sent (.peqCb p.deviceId) s.log
  completed : ∀ h, ∀ p ∈ sent (.create h) s.log, ∃ q ∈ sent (.complete p.deviceId) s.log,
    q.bare = p.bare
  acked : ∀ h, ∀ p ∈ sent (.create h) s.log, ∃ k, ∃ q ∈ sent (.endResp k) s.log, q.bare = p.bare

/-- In a settled state the balances leave room for nothing. -/
theorem ReachableBy.settled_empty (hr : ReachableBy cfg ok s) (hset : Settled cfg s) :
    (∀ h < cfg.hostNum, s.hostPath h = [] ∧ s.hostAcks h = [] ∧
      (sent (.dspBw h) s.log).length = (sent (.endResp h) s.log).length) ∧ s.inFlight cfg = [] := by
  have htotal := hr.total_balance
  have hsame : ∑ h ∈ Finset.range cfg.hostNum, (sent (.create h) s.log).length =
      ∑ h ∈ Finset.range cfg.hostNum, (sent (.endResp h) s.log).length :=
    Finset.sum_congr rfl fun h hh => (hset h (Finset.mem_range.mp hh)).2
  have hle : ∀ h < cfg.hostNum, (sent (.endResp h) s.log).length ≤
      (s.hostPath h).length + (sent (.dspBw h) s.log).length := fun h _ => by
    have := hr.ack_balance h
    omega
  have heq := eq_of_sum_le hle (by omega)
  have hsum := Finset.sum_congr (f := fun h => (sent (.endResp h) s.log).length) rfl
    fun h hh => heq h (Finset.mem_range.mp hh)
  refine ⟨fun h hh => ?_, List.length_eq_zero_iff.mp (by omega)⟩
  have h1 := heq h hh
  have h2 := hr.ack_balance h
  refine ⟨List.length_eq_zero_iff.mp ?_, List.length_eq_zero_iff.mp ?_, ?_⟩ <;> omega

theorem ReachableBy.atDevice_nil (hr : ReachableBy cfg ok s) (hf : s.inFlight cfg = []) (d : Nat) :
    s.atDevice d = [] := by
  refine List.eq_nil_iff_forall_not_mem.mpr fun p hp => ?_
  have hd := hr.atDevice_device d p hp
  have : p ∈ s.inFlight cfg := by
    simp only [inFlight, List.mem_append, List.mem_flatMap, List.mem_range]
    exact .inl (.inl (.inr ⟨d, hd.2, hp⟩))
  simp [hf] at this

/-- With nothing on its path, what a host created the controller accepted from it. -/
theorem ReachableBy.create_ctrlFw (hr : ReachableBy cfg ok s) {h : Nat} (hpath : s.hostPath h = [])
    {p : Payload} (hp : p ∈ sent (.create h) s.log) : p ∈ sent (.ctrlFw h) s.log := by
  have hm : p ∈ ofCmd p.command (sent (.create h) s.log) := mem_ofCmd.mpr ⟨hp, rfl⟩
  have hnil : ∀ c, (s.dsp h).fwContents c ++ (s.usp h).fwContents c ++ (s.sim h).fwContents c =
      [] := by
    simp only [hostPath, List.append_eq_nil_iff] at hpath
    obtain ⟨⟨⟨⟨⟨⟨⟨h1, h2⟩, h3⟩, h4⟩, h5⟩, h6⟩, h7⟩, h8⟩ := hpath
    intro c
    cases c <;>
      simp [Dsp.fwContents, Usp.fwContents, SimWrapper.fwContents, h1, h2, h3, h4, h5, h6, h7, h8]
  rw [hr.host_path h p.command, hnil, List.append_nil] at hm
  exact (mem_ofCmd.mp hm).1

/-- With nothing in flight, what the controller accepted a device got. -/
theorem ReachableBy.ctrlFw_memFw (hr : ReachableBy cfg ok s) (hf : s.inFlight cfg = [])
    {p : Payload} (hp : p ∈ callsOn Chan.isCtrlFw s.log) : p ∈ sent (.memFw p.deviceId) s.log := by
  have hm : p ∈ ofCmd p.command (callsOn Chan.isCtrlFw s.log) := mem_ofCmd.mpr ⟨hp, rfl⟩
  have hnil : ∀ c, s.ctrl.fwContents c = [] := by
    simp only [inFlight, List.append_eq_nil_iff] at hf
    intro c
    cases c
    · exact hf.1.1.1.1
    · exact hf.1.1.1.2
  rw [(hr.ctrlQueues p.command).1, hnil, List.append_nil] at hm
  rw [← hr.memFw_filter]
  simpa using (mem_ofCmd.mp hm).1

/-- Acks that arrived and are not around any more were consumed, if none was lost. -/
theorem ReachableBy.dspBw_endResp (hr : ReachableBy cfg ok s) {k : Nat} (hnil : s.hostAcks k = [])
    (hlen : (sent (.dspBw k) s.log).length = (sent (.endResp k) s.log).length) {p : Payload}
    (hp : p ∈ sent (.dspBw k) s.log) : p ∈ sent (.endResp k) s.log := by
  simp only [hostAcks, List.append_eq_nil_iff] at hnil
  obtain ⟨⟨⟨⟨⟨⟨⟨⟨⟨⟨h1, h2⟩, h3⟩, h4⟩, h5⟩, h6⟩, -⟩, -⟩, -⟩, -⟩, -⟩ := hnil
  have hpath : ∀ c, ofCmd c (sent (.dspBw k) s.log) = ofCmd c (sent (.simBw k) s.log) := by
    intro c
    rw [hr.ack_path k c]
    cases c <;> simp [Usp.bwContents, Dsp.bwContents, h1, h2, h3, h4, h5, h6]
  have hsub : ∀ c, (ofCmd c (sent (.endResp k) s.log)).Sublist
      (ofCmd c (sent (.dspBw k) s.log)) := by
    intro c
    rw [hpath c]
    cases c
    · exact ((List.sublist_append_left ..).trans
        ((List.sublist_append_left ..).trans (List.sublist_append_left ..))).trans (hr.simAcks k).1
    · exact ((List.sublist_append_left ..).trans
        ((List.sublist_append_left ..).trans (List.sublist_append_left ..))).trans (hr.simAcks k).2
  have h1 := (hsub .read).length_le
  have h2 := (hsub .write).length_le
  have h3 := length_ofCmd (sent (.endResp k) s.log)
  have h4 := length_ofCmd (sent (.dspBw k) s.log)
  have heq : ofCmd p.command (sent (.endResp k) s.log) =
      ofCmd p.command (sent (.dspBw k) s.log) := by
    refine (hsub p.command).eq_of_length ?_
    cases p.command <;> omega
  have hm : p ∈ ofCmd p.command (sent (.endResp k) s.log) := heq ▸ mem_ofCmd.mpr ⟨hp, rfl⟩
  exact (mem_ofCmd.mp hm).1

theorem ReachableBy.drained_of_settled (hr : ReachableBy cfg ok s) (hset : Settled cfg s) :
    Drained cfg s := by
  obtain ⟨hhost, hflight⟩ := hr.settled_empty hset
  have hdev := hr.atDevice_nil hflight
  have hpath : ∀ h < cfg.hostNum, s.hostPath h = [] := fun h hh => (hhost h hh).1
  have hfw : ∀ h, ∀ p ∈ sent (.create h) s.log, p ∈ callsOn Chan.isCtrlFw s.log := by
    intro h p hp
    have hm := hr.create_ctrlFw (hpath h (hr.source_exists _ ((mem_sent _).mp hp))) hp
    exact (mem_callsOn _).mpr ⟨.ctrlFw h, rfl, (mem_sent _).mp hm⟩
  have hreached : ∀ h, ∀ p ∈ sent (.create h) s.log, p ∈ sent (.peqCb p.deviceId) s.log := by
    intro h p hp
    have hm := hr.ctrlFw_memFw hflight (hfw h p hp)
    rw [hr.memQueue p.deviceId, (List.append_eq_nil_iff.mp (hdev p.deviceId)).1, List.append_nil]
      at hm
    exact hm
  have hcontents : ∀ d, (s.mem d).contents = [] := fun d => (List.append_eq_nil_iff.mp (hdev d)).2
  have hissued : ∀ d, (s.mem d).issued = [] := fun d => (List.append_eq_nil_iff.mp (hcontents d)).2
  refine
    { hosts := fun h hh => ⟨(hhost h hh).1, (hhost h hh).2.1⟩
      flight := hflight
      outstanding := fun h hh => ?_
      mOutstanding := fun d _ => by rw [hr.memOutstanding d, hissued d]; rfl
      stored := fun d _ => hr.memData_eq d
      reached := hreached
      completed := fun h p hp => ?_
      acked := fun h p hp => ?_ }
  · -- created, forwarded and consumed payloads of `h` are equally many
    obtain ⟨ho, hlt⟩ := hr.simOutstanding h
    have hbal := hr.create_balance h
    have hq := hr.simQueues h
    have hnil := hpath h hh
    simp only [hostPath, List.append_eq_nil_iff] at hnil
    have h1 := congrArg List.length hq.1
    have h2 := congrArg List.length hq.2
    have h3 := length_ofCmd (sent (.create h) s.log)
    have h4 := length_ofCmd (sent (.uspFw h) s.log)
    have h5 := (hset h hh).2
    rw [hnil.1.1.1.1.1.1.1, List.append_nil] at h1
    rw [hnil.1.1.1.1.1.1.2, List.append_nil] at h2
    simp only [u32] at ho
    omega
  · -- what a device took in it answered, and so completed
    have hflow := hr.memFlow p.deviceId
    refine mem_bare_of_count (sent (.peqCb p.deviceId) s.log) _ (fun a => ?_) (hreached h p hp)
    have h1 := hflow.1.count_eq a
    have h2 := hflow.2.count_eq a
    rw [hcontents, List.map_nil, List.append_nil] at h1
    rw [h1, h2, List.count_append]
    exact Nat.le_add_right _ _
  · -- what the controller accepted it answered, and the host consumed the ack
    obtain ⟨q, hq, he⟩ := mem_bare_of_count (callsOn Chan.isCtrlFw s.log)
      (callsOn Chan.isDspBw s.log) (fun a => by
        have := hr.inFlight_perm.count_eq a
        rw [hflight, List.map_nil, List.append_nil] at this
        omega) (hfw h p hp)
    obtain ⟨k, hk, hm⟩ := (mem_callsOn _).mp hq
    cases k with
    | dspBw k =>
        have hkh := hr.ctrlSockets.2 k q hm
        exact ⟨k, q, hr.dspBw_endResp (hhost k hkh).2.1 (hhost k hkh).2.2 ((mem_sent _).mpr hm), he⟩
    | _ => cases hk

end Sys

/-! ## Leaving the loop of a device -/

namespace MemWrapper

variable {d : Nat}

theorem collect_requests (now : Nat) (m : MemWrapper) :
    (m.collect now).mOutstanding = m.mOutstanding ∧ (m.collect now).memRequest = m.memRequest := by
  unfold collect
  split
  · exact ⟨rfl, rfl⟩
  · split <;> rename_i hc <;> simp only [updateTransDelay, hc, and_self]

theorem issue_mOutstanding (now : Nat) {m : MemWrapper} (hm : m.mOutstanding < 4294967296) :
    (m.issue now).mOutstanding = u32 (m.mOutstanding + m.memRequest.length) := by
  suffices h : ∀ (ps : List Payload) (m : MemWrapper), m.mOutstanding < 4294967296 →
      (ps.foldl (sendCommand now) m).mOutstanding = u32 (m.mOutstanding + ps.length) from
    h m.memRequest { m with memRequest := [] } hm
  intro ps
  induction ps with
  | nil =>
      intro m hm
      simp only [u32, List.foldl_nil, List.length_nil]
      omega
  | cons p ps ih =>
      intro m hm
      have hone : (sendCommand now m p).mOutstanding = u32 (m.mOutstanding + 1) := by
        unfold sendCommand recordRequest
        split <;> rfl
      rw [List.foldl_cons, ih _ (by rw [hone, u32]; omega), hone, List.length_cons]
      simp only [u32]
      omega

theorem clockTick_mOutstanding (accept : Bool) (m : MemWrapper) :
    (m.clockTick d accept).1.mOutstanding = m.mOutstanding ∧
      ∀ k, .dramIdle k ∉ (m.clockTick d accept).2 := by
  unfold clockTick
  split
  · exact ⟨rfl, by simp⟩
  · split <;> exact ⟨rfl, by simp⟩

/-- A device leaves its loop when no core is active and nothing is outstanding, what it is just
    handing to the bridge included. -/
theorem act_dramIdle {n k : Nat} {load : DataPtr → Nat → List UInt8} {m m' : MemWrapper} {b : Act}
    {es : List Event} (hm : m.mOutstanding < 4294967296) (hs : m.act d n load b = .ok (m', es))
    (hk : .dramIdle k ∈ es) : ∃ accept now, b = .simulateDram accept now ∧ n = 0 ∧
      u32 (m.mOutstanding + m.memRequest.length) = 0 := by
  cases b with
  | simulateDram accept now =>
      refine ⟨accept, now, rfl, ?_⟩
      have hout : (((m.collect now).issue now).clockTick d accept).1.mOutstanding =
          u32 (m.mOutstanding + m.memRequest.length) := by
        obtain ⟨h1, h2⟩ := collect_requests now m
        rw [(clockTick_mOutstanding accept _).1,
          issue_mOutstanding now (by rw [h1]; exact hm), h1, h2]
      simp only [act, simulateDram] at hs
      split at hs
      · split at hs
        · rename_i h0
          exact ⟨h0.1, hout.symm.trans h0.2⟩
        · have hes : _ = es := congrArg Prod.snd (Except.ok.inj hs)
          rw [← hes] at hk
          exact absurd hk ((clockTick_mOutstanding accept _).2 k)
      · cases hs
  | peq =>
      simp only [act, peqCb] at hs
      split at hs
      · cases hs
      · split at hs <;> cases hs <;> simp at hk
  | posedge =>
      cases hs
      simp at hk
  | negedge =>
      cases hs
      obtain ⟨p, -, hp⟩ := List.mem_map.mp hk
      cases hp
  | complete i =>
      simp only [act, complete] at hs
      split at hs
      · split at hs
        · cases hs
        · cases hs
          simp at hk
      · cases hs

end MemWrapper

namespace Sys

variable {cfg : Config} {s s' : Sys} {a : Action} {ok : Sys → Action → Prop}

/-! ## Cores -/

/-- Counting events host by host. -/
theorem countP_eq_sum {n : Nat} {p : Event → Bool} {q : Nat → Event → Bool} {l : List Event}
    (h : ∀ e ∈ l, (p e).toNat = ∑ k ∈ Finset.range n, (q k e).toNat) :
    l.countP p = ∑ k ∈ Finset.range n, l.countP (q k) := by
  have hcons (p : Event → Bool) (e : Event) (l : List Event) :
      (e :: l).countP p = l.countP p + (p e).toNat := by
    cases hp : p e <;> simp [hp]
  induction l with
  | nil => simp
  | cons e l ih =>
      simp only [hcons, Finset.sum_add_distrib]
      rw [ih fun e' he => h e' (List.mem_cons_of_mem _ he), h e List.mem_cons_self]

/-- An `active_cores--`. -/
def isCoreDone : Event → Bool
  | .coreDone _ => true
  | _ => false

theorem foldl_hearCores (es : List Event) (n : Nat) :
    es.foldl hearCores n = n - es.countP isCoreDone := by
  induction es generalizing n with
  | nil => rfl
  | cons e es ih =>
      rw [List.foldl_cons, ih, List.countP_cons]
      cases e <;> simp [hearCores, isCoreDone]
      omega

/-- `active_cores` is 0 only when every host has ended. -/
theorem ReachableBy.all_terminated (hr : ReachableBy cfg ok s) (h0 : s.activeCores = 0) :
    ∀ h < cfg.hostNum, (s.sim h).terminated = true := by
  rw [(Reachable.globals hr).2.1, foldl_hearCores] at h0
  have hsum : s.log.countP isCoreDone =
      ∑ h ∈ Finset.range cfg.hostNum, s.log.countP (Event.isDone h) := by
    refine countP_eq_sum fun e he => ?_
    cases e with
    | coreDone k =>
        have hk : k < cfg.hostNum := hr.source_exists _ he
        rw [Finset.sum_eq_single_of_mem k (Finset.mem_range.mpr hk)]
        · simp [isCoreDone, Event.isDone]
        · intro i _ hi
          simp [Event.isDone, Ne.symm hi]
    | _ => simp [isCoreDone, Event.isDone]
  have hgate := fun h => (hr.gate h).2.1
  have hone : ∀ h < cfg.hostNum, s.log.countP (Event.isDone h) = 1 := by
    refine eq_of_sum_le (fun h _ => ?_) ?_
    · rw [hgate h]
      split <;> simp
    · rw [← Finset.card_eq_sum_ones, Finset.card_range, ← hsum]
      omega
  intro h hh
  have := (hgate h).symm.trans (hone h hh)
  by_contra hne
  simp [hne] at this

/-! ## Runs -/

/-- Every SIMWrapper has forwarded its payloads and got all acks: `outstanding` is 0 and has not
    wrapped around. -/
def HostsIdle (cfg : Config) (s : Sys) : Prop :=
  ∀ h < cfg.hostNum, (s.sim h).rQueue = [] ∧ (s.sim h).wQueue = [] ∧ (s.sim h).outstanding = 0 ∧
    (sent (.uspFw h) s.log).length - (sent (.endResp h) s.log).length < 4294967296

instance (cfg : Config) (s : Sys) : Decidable (HostsIdle cfg s) :=
  inferInstanceAs (Decidable (∀ h < cfg.hostNum, _))

/-- A `simulate_dram` iteration about to leave its loop finds every host idle. -/
def IdleExit (cfg : Config) (s : Sys) : Action → Prop
  | .mem d (.simulateDram _ _) => s.activeCores = 0 →
      u32 ((s.mem d).mOutstanding + (s.mem d).memRequest.length) = 0 → HostsIdle cfg s
  | _ => True

instance (cfg : Config) (s : Sys) (a : Action) : Decidable (IdleExit cfg s a) :=
  match a with
  | .mem d (.simulateDram _ _) => inferInstanceAs (Decidable (s.activeCores = 0 →
      u32 ((s.mem d).mOutstanding + (s.mem d).memRequest.length) = 0 → HostsIdle cfg s))
  | .mem _ .peq => isTrue trivial
  | .mem _ .posedge => isTrue trivial
  | .mem _ .negedge => isTrue trivial
  | .mem _ (.complete _) => isTrue trivial
  | .sim _ _ => isTrue trivial
  | .usp _ _ => isTrue trivial
  | .dsp _ _ => isTrue trivial
  | .ctrl _ => isTrue trivial

/-- When all hosts have ended and are idle, every payload is acknowledged. -/
theorem ReachableBy.settled_of_idle (hr : ReachableBy cfg ok s) (h0 : s.activeCores = 0)
    (hidle : HostsIdle cfg s) : Settled cfg s := by
  refine fun h hh => ⟨hr.all_terminated h0 h hh, ?_⟩
  have hforwarded : ∀ h < cfg.hostNum,
      (sent (.create h) s.log).length = (sent (.uspFw h) s.log).length := by
    intro h hh
    obtain ⟨hrq, hwq, -⟩ := hidle h hh
    obtain ⟨h1, h2⟩ := hr.simQueues h
    rw [hrq, List.append_nil] at h1
    rw [hwq, List.append_nil] at h2
    rw [← length_ofCmd (sent (.create h) s.log), ← length_ofCmd (sent (.uspFw h) s.log), h1, h2]
  -- `outstanding` 0 leaves no host behind, and the total leaves none ahead
  have hle : ∀ h < cfg.hostNum,
      (sent (.create h) s.log).length ≤ (sent (.endResp h) s.log).length := by
    intro h hh
    obtain ⟨-, -, ho, hlt⟩ := hidle h hh
    have hout := (hr.simOutstanding h).1
    rw [ho] at hout
    rw [hforwarded h hh]
    simp only [u32] at hout
    omega
  exact eq_of_sum_le hle hr.consumed_le h hh

/-- A settled state stays settled: nobody creates payloads any more, so nobody consumes acks. -/
theorem settled_step (hr : ReachableBy cfg ok s) (hr' : ReachableBy cfg ok s')
    (hs : step cfg s a = .ok s') (hset : Settled cfg s) : Settled cfg s' := by
  have hframe := fun {h : Nat} (ho : a.owner ≠ .sim h) => (sim_frame hs ho).2
  obtain ⟨-, es, t, ht, rfl⟩ := step_eq_ok.mp hs
  have hl : (t.emit es).log = s.log ++ es := congrArg (· ++ es) ht.log
  have hturn : ∀ h < cfg.hostNum, ((t.emit es).sim h).terminated = true ∧
      sent (.create h) es = [] := by
    intro h hh
    by_cases ho : a.owner = .sim h
    · cases a with
      | sim k b =>
          cases ho
          have hturn := ReachableBy.sim_turn hr ht
          have hterm := (hset h hh).1
          exact ⟨hturn.terminated_mono hterm, hturn.create_nil ((hr.gate h).1.1 hterm)⟩
      | _ => cases ho
    · refine ⟨(hframe ho).trans (hset h hh).1, sent_eq_nil _ fun e he => ?_⟩
      rw [ht.source e he]
      exact ho
  have hcreate : ∀ h < cfg.hostNum, (sent (.create h) (t.emit es).log).length =
      (sent (.endResp h) s.log).length := by
    intro h hh
    rw [hl, sent_append, (hturn h hh).2, List.append_nil]
    exact (hset h hh).2
  have hle : ∀ h < cfg.hostNum, (sent (.endResp h) s.log).length ≤
      (sent (.endResp h) (t.emit es).log).length := by
    intro h _
    rw [hl, sent_append, List.length_append]
    exact Nat.le_add_right _ _
  have heq := eq_of_sum_le hle (hr'.consumed_le.trans
    (Finset.sum_congr rfl fun h hh => hcreate h (Finset.mem_range.mp hh)).le)
  exact fun h hh => ⟨(hturn h hh).1, (hcreate h hh).trans (heq h hh)⟩

theorem foldl_hearDram (es : List Event) (n : Nat) :
    es.foldl hearDram n = 0 ↔ n = 0 ∨ ∃ d, .dramIdle d ∈ es := by
  induction es generalizing n with
  | nil => simp
  | cons e es ih =>
      rw [List.foldl_cons, ih]
      cases e <;> simp [hearDram]

theorem foldl_hearStop (es : List Event) (b : Bool) :
    es.foldl hearStop b = true ↔ b = true ∨ ∃ h, .stop h ∈ es := by
  induction es generalizing b with
  | nil => simp
  | cons e es ih =>
      rw [List.foldl_cons, ih]
      cases e <;> simp [hearStop]

/-- `active_dram` 0 means settled, and nobody stops the simulation before. -/
def Closing (cfg : Config) (s : Sys) : Prop :=
  (s.activeDram = 0 → Settled cfg s) ∧ (s.stopped = true → s.activeDram = 0)

theorem closing_step (hr : ReachableBy cfg (IdleExit cfg) s) (hok : IdleExit cfg s a)
    (hs : step cfg s a = .ok s') (hc : Closing cfg s) : Closing cfg s' := by
  have hr' : ReachableBy cfg (IdleExit cfg) s' := .tail hr hok hs
  have hsettled := settled_step hr hr' hs
  obtain ⟨hstop, es, t, ht, rfl⟩ := step_eq_ok.mp hs
  have hdram : (t.emit es).activeDram = es.foldl hearDram s.activeDram := by
    cases ht <;> rfl
  have hstopped : (t.emit es).stopped = es.foldl hearStop s.stopped := by
    cases ht <;> rfl
  refine ⟨fun h0 => hsettled ?_, fun h1 => ?_⟩
  · rw [hdram, foldl_hearDram] at h0
    rcases h0 with h0 | ⟨k, hk⟩
    · exact hc.1 h0
    · -- a device leaves its loop here
      have hsrc := ht.source _ hk
      cases ht with
      | @mem d b _ _ hd ha =>
          have hm : (s.mem d).mOutstanding < 4294967296 := by
            rw [hr.memOutstanding d, u32]
            omega
          obtain ⟨accept, now, rfl, hcores, hzero⟩ := MemWrapper.act_dramIdle hm ha hk
          exact hr.settled_of_idle hcores (hok hcores hzero)
      | _ => cases hsrc
  · rw [hstopped, foldl_hearStop, hstop] at h1
    obtain ⟨k, hk⟩ := h1.resolve_left (by simp)
    have hsrc := ht.source _ hk
    rw [hdram, foldl_hearDram]
    cases a with
    | sim h b => exact .inl ((ReachableBy.sim_turn hr ht).stop hk)
    | _ => cases hsrc

/-- In every run in which a device leaves its loop only when every host is idle, nothing is left
    anywhere when a SIMWrapper stops the simulation. -/
theorem shutdown_drains (hr : ReachableBy cfg (IdleExit cfg) s) (hstop : s.stopped = true) :
    Drained cfg s := by
  have hc : Closing cfg s := by
    refine Reach.invariant ⟨?_, ?_⟩ (fun _ _ _ hrs hok hi hs => closing_step hrs hok hs hi) hr
    · simp [init]
    · simp [init]
  exact hr.drained_of_settled (hc.1 (hc.2 hstop))

/-! ## Concrete runs -/

/-- A host writes one packet of `payloads` payloads and ends after `n` rounds. -/
def writeThenEnd (ok : Sys → Action → Prop) [∀ s a, Decidable (ok s a)] (payloads n : Nat) : Sys :=
  runSkip (step (smallConfig 1 1 payloads)) ok (init (smallConfig 1 1 payloads))
    (.sim 0 (.recv (.fill .write 8 7)) :: rounds (smallConfig 1 1 payloads) n ++
      .sim 0 (.recv (.fill .terminated 0 0)) :: rounds (smallConfig 1 1 payloads) 3)

theorem shutdown_drains_of_writeThenEnd :
    Drained (smallConfig 1 1 4) (writeThenEnd (IdleExit (smallConfig 1 1 4)) 4 16) ∧
      (sent (.create 0) (writeThenEnd (IdleExit (smallConfig 1 1 4)) 4 16).log).length = 4 := by
  have hrun : (writeThenEnd (IdleExit (smallConfig 1 1 4)) 4 16).stopped = true ∧
      (sent (.create 0) (writeThenEnd (IdleExit (smallConfig 1 1 4)) 4 16).log).length = 4 := by
    decide +kernel
  exact ⟨shutdown_drains (reach_runSkip _ _) hrun.1, hrun.2⟩

/-- The host ends right after its write: the simulation stops, and no payload got to the device. -/
theorem write_lost_at_stop : Reachable (smallConfig 1 1 4) (writeThenEnd anyStep 4 2) ∧
    (writeThenEnd anyStep 4 2).stopped = true ∧
    (sent (.create 0) (writeThenEnd anyStep 4 2).log).length = 4 ∧
    sent (.peqCb 0) (writeThenEnd anyStep 4 2).log = [] ∧
    ¬ Drained (smallConfig 1 1 4) (writeThenEnd anyStep 4 2) := by
  have hrun : (writeThenEnd anyStep 4 2).stopped = true ∧
      (sent (.create 0) (writeThenEnd anyStep 4 2).log).length = 4 ∧
      sent (.peqCb 0) (writeThenEnd anyStep 4 2).log = [] ∧
      ¬ ∀ p ∈ sent (.create 0) (writeThenEnd anyStep 4 2).log,
        p ∈ sent (.peqCb p.deviceId) (writeThenEnd anyStep 4 2).log := by decide +kernel
  obtain ⟨hstop, hcreate, hpeq, hlost⟩ := hrun
  exact ⟨reach_runSkip _ _, hstop, hcreate, hpeq, fun hd => hlost (hd.reached 0)⟩

end Sys

end TSim4CXL
