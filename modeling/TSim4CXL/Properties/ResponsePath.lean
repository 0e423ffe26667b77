/-
  The response path, from the controller's ack queues to the hosts: exactly once and in order.

  `response_path_once_in_order` holds in every reachable state, whichever packing branch the
  controller is in and whatever arrives during its waits. The acks a SIMWrapper gets are a prefix
  of those the controller received and looked up as belonging to its host, in the order in which
  the controller received them; an ack received has reached its host, or is in one queue of the
  path or in the hands of one suspended thread, once.
-/
import TSim4CXL.Properties.ForwardPath
import Mathlib.Algebra.BigOperators.Group.List.Basic

namespace TSim4CXL

open Transition

def Chan.isSimBw : Chan → Bool
  | .simBw _ => true
  | _ => false

/-! ## What the controller looked up -/

/-- The acks of a command the controller received, in the order of their arrival. -/
def received (c : Command) (l : List Event) : List Payload := ofCmd c (callsOn Chan.isCtrlBw l)

/-- The hosts the controller found for the acks of a command, one lookup after the other. -/
def lookups (c : Command) (l : List Event) : List Nat :=
  pick (fun
    | .call (.dspBw h) p => if p.command = c then some h else none
    | _ => none) l

/-- The acks received and looked up as belonging to host `h`, in the order of their arrival. -/
def receivedFor (h : Nat) (c : Command) (l : List Event) : List Payload :=
  (((received c l).zip (lookups c l)).filter (·.2 = h)).map Prod.fst

theorem lookups_length (c : Command) (l : List Event) :
    (lookups c l).length = (ofCmd c (callsOn Chan.isDspBw l)).length := by
  induction l with
  | nil => rfl
  | cons e l ih =>
      rw [lookups, pick_cons, ← lookups, List.length_append, ih, callsOn_cons, ofCmd_append,
        List.length_append]
      congr 1
      cases e with
      | call k p =>
          cases k with
          | dspBw g => by_cases hp : p.command = c <;> simp [Chan.isDspBw, ofCmd_cons, hp]
          | _ => simp [Chan.isDspBw]
      | _ => rfl

/-- The acks sent, selected by the host of their lookup. -/
theorem zip_lookups (h : Nat) (c : Command) (l : List Event) :
    (((ofCmd c (callsOn Chan.isDspBw l)).zip (lookups c l)).filter (·.2 = h)).map Prod.fst =
      ofCmd c (sent (.dspBw h) l) := by
  induction l with
  | nil => rfl
  | cons e l ih =>
      rw [lookups, pick_cons, ← lookups, callsOn_cons, ofCmd_append, sent_cons, ofCmd_append, ← ih]
      cases e with
      | call k p =>
          cases k with
          | dspBw g =>
              by_cases hp : p.command = c <;> by_cases hg : g = h <;>
                simp [Chan.isDspBw, ofCmd_cons, hp, hg]
          | _ => simp [Chan.isDspBw]
      | _ => rfl

namespace Controller

variable {cfg : Config}

/-- Each lookup gives the host of the last request of that command and address so far. -/
def LookedUp (l : List Event) : Prop :=
  ∀ l₁ h p l₂, l = l₁ ++ .call (.dspBw h) p :: l₂ → h = lastHost p.command p.address l₁

theorem ctrlLookedUp_closed : (component cfg).Closed fun c l =>
    (c.Queues l ∧ ∀ k a, c.transId k a = lastHost k a l) ∧ LookedUp l := by
  refine (ctrlQueues_closed.and ctrlTransId_closed).and_of ?_ ?_
  · intro c l e he _ hl l₁ h p l₂ hsplit
    rcases split_concat hsplit with ⟨rfl, hp⟩ | ⟨l₃, hl₃⟩
    · exact absurd (hp ▸ rfl) he
    · exact hl l₁ h p l₃ hl₃
  · intro c l es c' hm ⟨hq, hid⟩ hl l₁ h p l₂ hsplit
    by_cases hp : .call (.dspBw h) p ∈ es
    · cases hm with
      | control => cases hp
      | sendRead => simp at hp
      | sendWrite => simp at hp
      | @ackRead q _ hack =>
          rcases split_concat hsplit with ⟨rfl, hp⟩ | ⟨l₃, hl₃⟩
          · have hcmd := hq.bw_command (k := .read) q (by simp [hack])
            obtain ⟨hc, rfl⟩ := Event.call.inj hp
            injection hc with hc
            rw [hc, hcmd, ← hid]
            rfl
          · exact hl l₁ h p l₃ hl₃
      | @ackWrite q _ _ _ hack =>
          rcases split_concat hsplit with ⟨rfl, hp⟩ | ⟨l₃, hl₃⟩
          · have hcmd := hq.bw_command (k := .write) q (by simp [hack])
            obtain ⟨hc, rfl⟩ := Event.call.inj hp
            injection hc with hc
            rw [hc, hcmd, ← hid]
            rfl
          · exact hl l₁ h p l₃ hl₃
    · obtain ⟨l₃, hl₃⟩ := split_append hsplit hp
      exact hl l₁ h p l₃ hl₃

end Controller

namespace Sys

variable {cfg : Config} {s : Sys} {ok : Sys → Action → Prop}

theorem ReachableBy.lookedUp (hr : ReachableBy cfg ok s) : Controller.LookedUp s.log :=
  ((ctrlView cfg).always Controller.ctrlLookedUp_closed
    ⟨⟨fun k => by cases k <;> exact ⟨rfl, rfl⟩, fun k a => by cases k <;> rfl⟩,
      fun l₁ h p l₂ he => by simp [init] at he⟩ hr).2

/-! ## In order -/

theorem ReachableBy.receivedFor_eq (hr : ReachableBy cfg ok s) (h : Nat) (c : Command) :
    receivedFor h c s.log = ofCmd c (sent (.dspBw h) s.log) := by
  have hlen := lookups_length c s.log
  rw [receivedFor, received, (hr.ctrlQueues c).2, ← zip_lookups h c s.log]
  congr 2
  -- the lookups stop where the acks still in the controller begin
  have hzip := @List.zip_append _ _ _ (s.ctrl.bwContents c) _ ([] : List Nat) hlen.symm
  rwa [List.append_nil, List.zip_nil_right, List.append_nil] at hzip

theorem ReachableBy.answered_prefix (hr : ReachableBy cfg ok s) (h : Nat) (c : Command) :
    ofCmd c (sent (.simBw h) s.log) <+: receivedFor h c s.log := by
  rw [hr.receivedFor_eq, hr.ack_path]
  exact List.prefix_append _ _

/-! ## Exactly once -/

/-- The acks in the ports of a host and in the hands of its USP. -/
def ackPath (s : Sys) (h : Nat) : List Payload :=
  (s.usp h).heldAck .read ++ (s.usp h).rackQueue ++ (s.dsp h).rackQueue ++
    ((s.usp h).heldAck .write ++ (s.usp h).wackQueue ++ (s.dsp h).wackQueue)

/-- The acks anywhere on the path from the controller to the hosts. -/
def acksOnPath (cfg : Config) (s : Sys) : List Payload :=
  s.ctrl.rackQueue ++ s.ctrl.wackQueue ++ (List.range cfg.hostNum).flatMap s.ackPath

/-- The calls on a family of channels, channel by channel. -/
theorem count_callsOn {k : Chan → Bool} (chan : Nat → Chan) (hinj : ∀ m n, chan m = chan n → m = n)
    (hk : ∀ m, k (chan m) = true) {n : Nat} {l : List Event}
    (hl : ∀ c p, .call c p ∈ l → k c = true → ∃ m < n, c = chan m) (p : Payload) :
    (callsOn k l).count p = ((List.range n).map fun h => (sent (chan h) l).count p).sum := by
  induction l with
  | nil => simp
  | cons e l ih =>
      have ih := ih fun c q hq => hl c q (List.mem_cons_of_mem _ hq)
      simp only [callsOn_cons, sent_cons, List.count_append, List.sum_map_add, ← ih]
      congr 1
      cases e with
      | call c q =>
          by_cases hc : k c = true
          · obtain ⟨m, hm, rfl⟩ := hl c q List.mem_cons_self hc
            -- only channel `m` has a share in this call
            have hsum := sum_range_single (h := m)
              (f := fun h => (Event.call? (· = chan h) (.call (chan m) q)).toList.count p)
              (fun h hne => by
                have : chan m ≠ chan h := fun he => hne (hinj _ _ he).symm
                simp [this]) n
            rw [hsum, if_pos hm]
            simp [hc]
          · have hne (h : Nat) : c ≠ chan h := fun he => hc (he ▸ hk h)
            simp [hc, hne]
      | _ => simp

theorem ReachableBy.count_ackPath (hr : ReachableBy cfg ok s) (h : Nat) (p : Payload) :
    (sent (.dspBw h) s.log).count p = (sent (.simBw h) s.log).count p + (s.ackPath h).count p := by
  have hcmd (c : Command) : ∀ q ∈ (s.usp h).bwContents c ++ (s.dsp h).bwContents c,
      q.command = c := by
    intro q hq
    rcases List.mem_append.mp hq with hq | hq
    · exact (hr.uspAcks h).command q hq
    · exact (hr.dspQueues h).bw_command q hq
  have hpath : (s.ackPath h).count p =
      ((s.usp h).bwContents p.command ++ (s.dsp h).bwContents p.command).count p := by
    rw [← count_commands hcmd]
    simp only [ackPath, Usp.bwContents, Dsp.bwContents, List.count_append]
  have hack := congrArg (List.count p) (hr.ack_path h p.command)
  rw [List.count_append, ← hpath] at hack
  simpa only [ofCmd, List.count_filter, decide_true] using hack

/-- The acks that reach the hosts, host by host. -/
theorem ReachableBy.count_simBw (hr : ReachableBy cfg ok s) (p : Payload) :
    (callsOn Chan.isSimBw s.log).count p =
      ((List.range cfg.hostNum).map fun h => (sent (.simBw h) s.log).count p).sum :=
  count_callsOn .simBw (fun _ _ he => by injection he) (fun _ => rfl) (fun c q hq hc => by
    cases c with
    | simBw h => exact ⟨h, hr.source_exists _ hq, rfl⟩
    | _ => cases hc) p

/-- The acks received have reached their hosts or are on the path. -/
theorem ReachableBy.count_received (hr : ReachableBy cfg ok s) (p : Payload) :
    (callsOn Chan.isCtrlBw s.log).count p =
      (callsOn Chan.isSimBw s.log).count p + (s.acksOnPath cfg).count p := by
  have hdsp :=
    count_callsOn (k := Chan.isDspBw) .dspBw (fun _ _ he => by injection he) (fun _ => rfl)
    (n := cfg.hostNum) (l := s.log) (fun c q hq hc => by
      cases c with
      | dspBw h => exact ⟨h, hr.ctrlSockets.2 h q hq, rfl⟩
      | _ => cases hc) p
  have hctrl := congrArg (List.count p) (hr.ctrlQueues p.command).2
  rw [List.count_append, ← count_commands (fun c => hr.ctrlQueues.bw_command)] at hctrl
  simp only [ofCmd, List.count_filter, decide_true, Controller.bwContents] at hctrl
  rw [hctrl, hdsp, hr.count_simBw, acksOnPath, List.count_append, List.count_append,
    List.count_flatMap]
  simp only [hr.count_ackPath, List.sum_map_add, Function.comp_def]
  omega

/-- No request is handed to a device twice. -/
theorem ReachableBy.memFw_nodup (hr : ReachableBy cfg ok s) :
    ((callsOn Chan.isMemFw s.log).map Payload.bare).Nodup := by
  refine hr.requests_nodup (List.nodup_iff_count_le_one.mpr fun p => ?_) fun p hp =>
    hr.memFw_create hp
  by_cases hp : p ∈ callsOn Chan.isMemFw s.log
  · have := hr.delivered_or_on_path (hr.memFw_create hp)
    omega
  · rw [List.count_eq_zero.mpr hp]
    exact Nat.zero_le 1

/-- No ack is received twice. -/
theorem ReachableBy.ctrlBw_nodup (hr : ReachableBy cfg ok s) :
    ((callsOn Chan.isCtrlBw s.log).map Payload.bare).Nodup := by
  refine List.nodup_iff_count_le_one.mpr fun a => ?_
  have hdevice := hr.device_count a.deviceId a
  rw [← hr.memFw_filter, ← hr.ctrlBw_filter, count_bare_device, count_bare_device] at hdevice
  have := List.nodup_iff_count_le_one.mp hr.memFw_nodup a
  omega

/-! ## The response path -/

/-- In every reachable state: the acks host `h` got are a prefix of those received and looked up as
    its own; each lookup is the one the maps give; an ack received has reached a host or is on the
    path, once, and a host gets nothing else; no step takes the front of an empty queue. -/
theorem response_path_once_in_order (hr : Reachable cfg s) :
    (∀ h c, ofCmd c (sent (.simBw h) s.log) <+: receivedFor h c s.log) ∧
      Controller.LookedUp s.log ∧
      (∀ p ∈ callsOn Chan.isCtrlBw s.log,
        (callsOn Chan.isSimBw s.log).count p + (s.acksOnPath cfg).count p = 1) ∧
      (∀ p ∈ callsOn Chan.isSimBw s.log, p ∈ callsOn Chan.isCtrlBw s.log) ∧
      ∀ a, step cfg s a ≠ .error .emptyFront := by
  have hr : ReachableBy cfg anyStep s := hr
  refine ⟨hr.answered_prefix, hr.lookedUp, fun p hp => ?_, fun p hp => ?_, hr.step_ne_emptyFront⟩
  · rw [← hr.count_received, List.count_eq_one_of_mem hr.ctrlBw_nodup.of_map hp]
  · have := hr.count_received p
    have := List.count_pos_iff.mpr hp
    exact List.count_pos_iff.mp (by omega)

/-- Two hosts write a packet each, and the acks come back. -/
def acksComing : Sys :=
  runSkip (step (smallConfig 2 1 4)) anyStep (init (smallConfig 2 1 4))
    (.sim 0 (.recv (.fill .write 8 7)) :: .sim 1 (.recv (.fill .write 16 7)) ::
      rounds (smallConfig 2 1 4) 16)

theorem response_path_of_acksComing :
    ofCmd .write (sent (.simBw 0) acksComing.log) <+: receivedFor 0 .write acksComing.log ∧
      (ofCmd .write (sent (.simBw 0) acksComing.log)).length = 2 ∧
      (receivedFor 0 .write acksComing.log).length = 3 :=
  ⟨(response_path_once_in_order (reach_runSkip _ _)).1 0 .write, by decide +kernel⟩

end Sys

end TSim4CXL
