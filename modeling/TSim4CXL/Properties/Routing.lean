/-
  Which host a response goes to.

  The controller looks the host up by address when it responds, in a map every request
  overwrites. `responses_routed`: in every run in which no request reaches the controller
  while one of another host with the same command and address is in flight, every
  response goes to the host that delivered its request. `two_writers_misrouted`: two
  hosts that write one address, and the first host's ack goes to the second.
-/
import TSim4CXL.Trace.Flight

namespace TSim4CXL

open Transition

/-- Every response goes to the host that delivered its request. -/
def Routed (l : List Event) : Prop :=
  ∀ h p, .call (.dspBw h) p ∈ l →
    (∃ p', .call (.ctrlFw h) p' ∈ l ∧ p'.bare = p.bare) ∧
      ∀ k p', .call (.ctrlFw k) p' ∈ l → p'.bare = p.bare → k = h

namespace Sys

variable {cfg : Config} {s s' : Sys} {a : Action} {ok : Sys → Action → Prop} {c : Command}

/-! ## The condition -/

/-- The request of command `c` a DSP is about to hand over meets no request in flight with its
    address that another host delivered. -/
def NoClash (cfg : Config) (c : Command) (s : Sys) : Action → Prop
  | .dsp h .fw => ∀ p ∈ ((s.dsp h).fwContents c).take 1, ∀ q ∈ s.inFlight cfg,
      q.command = c → q.address = p.address → q.id = h
  | _ => True

/-- The same for both commands. -/
def NoClashes (cfg : Config) (s : Sys) (a : Action) : Prop :=
  NoClash cfg .read s a ∧ NoClash cfg .write s a

instance (cfg : Config) (c : Command) (s : Sys) (a : Action) : Decidable (NoClash cfg c s a) :=
  match a with
  | .dsp h .fw => inferInstanceAs (Decidable (∀ p ∈ ((s.dsp h).fwContents c).take 1,
      ∀ q ∈ s.inFlight cfg, q.command = c → q.address = p.address → q.id = h))
  | .dsp _ .bw => isTrue trivial
  | .sim _ _ => isTrue trivial
  | .usp _ _ => isTrue trivial
  | .ctrl _ => isTrue trivial
  | .mem _ _ => isTrue trivial

instance (cfg : Config) (s : Sys) (a : Action) : Decidable (NoClashes cfg s a) :=
  inferInstanceAs (Decidable (_ ∧ _))

/-! ## The map and the requests in flight -/

/-- The map names the host of every request in flight. -/
def MapRight (cfg : Config) (c : Command) (s : Sys) : Prop :=
  ∀ q ∈ s.inFlight cfg, q.command = c → Controller.lastHost c q.address s.log = q.id

/-- A request in flight after a step was in flight before, or the step delivered it. -/
theorem mem_inFlight_step (hr : ReachableBy cfg ok s) (hr' : ReachableBy cfg ok s')
    {es : List Event} (hl : s'.log = s.log ++ es) {q : Payload} (hq : q ∈ s'.inFlight cfg) :
    (∃ q₀ ∈ s.inFlight cfg, q₀.bare = q.bare) ∨
      ∃ h p, .call (.ctrlFw h) p ∈ es ∧ p.bare = q.bare := by
  have hin : ∀ b, ((s'.inFlight cfg).map Payload.bare).count b ≤
      ((s.inFlight cfg ++ callsOn Chan.isCtrlFw es).map Payload.bare).count b := by
    intro b
    have h1 := hr.inFlight_perm.count_eq b
    have h2 := hr'.inFlight_perm.count_eq b
    simp only [hl, callsOn_append, List.map_append, List.count_append] at h1 h2 ⊢
    omega
  obtain ⟨q₀, hq₀, he⟩ := mem_bare_of_count _ _ hin hq
  rcases List.mem_append.mp hq₀ with hq₀ | hq₀
  · exact .inl ⟨q₀, hq₀, he⟩
  · obtain ⟨k, hk, hm⟩ := (mem_callsOn _).mp hq₀
    cases k with
    | ctrlFw h => exact .inr ⟨h, q₀, hm, he⟩
    | _ => cases hk

/-- Requests come from one iteration of one DSP. -/
theorem ctrlFw_of_step (hr : ReachableBy cfg ok s) {es : List Event} {t : Sys}
    (ht : Stretch cfg s a es t) {h : Nat} {p : Payload} (hp : .call (.ctrlFw h) p ∈ es) :
    a = .dsp h .fw ∧ p ∈ ((s.dsp h).fwContents p.command).take 1 := by
  have hsrc := ht.source _ hp
  cases ht with
  | @dsp k b d es hh ha =>
      cases hsrc
      cases b with
      | bw =>
          cases ha
          obtain ⟨q, -, hq⟩ := List.mem_map.mp hp
          cases hq
      | fw =>
          cases ha
          obtain ⟨q, hq, he⟩ := List.mem_map.mp hp
          cases he
          refine ⟨rfl, ?_⟩
          have hcmd := hr.dspQueues h
          rcases List.mem_append.mp hq with hq | hq
          · rw [hcmd.fw_command (c := .read) p (List.mem_of_mem_take hq)]
            exact hq
          · rw [hcmd.fw_command (c := .write) p (List.mem_of_mem_take hq)]
            exact hq
  | _ => cases hsrc

theorem mapRight_step (hr : ReachableBy cfg ok s) (hok : ok s a) (hn : NoClash cfg c s a)
    (hs : step cfg s a = .ok s') (hm : MapRight cfg c s) : MapRight cfg c s' := by
  have hr' : ReachableBy cfg ok s' := .tail hr hok hs
  obtain ⟨-, es, t, ht, rfl⟩ := step_eq_ok.mp hs
  have hl : (t.emit es).log = s.log ++ es := congrArg (· ++ es) ht.log
  intro q hq hc
  rw [hl]
  have hq := mem_inFlight_step hr hr' hl hq
  by_cases hnew : ∃ h p, .call (.ctrlFw h) p ∈ es ∧ p.command = c ∧ q.address = p.address
  · -- the step delivers a request with this address: from host `h`, and so is `q`
    obtain ⟨h, p, hp, hpc, hpa⟩ := hnew
    obtain ⟨rfl, htake⟩ := ctrlFw_of_step hr ht hp
    rw [Controller.lastHost_append_of_mem hp hpc hpa fun h' p' hp' => by
      cases (ctrlFw_of_step hr ht hp').1
      rfl]
    rcases hq with ⟨q₀, hq₀, he⟩ | ⟨h', p', hp', he⟩
    · rw [hpc] at htake
      have := hn p htake q₀ hq₀
      rw [← Payload.bare_command, ← Payload.bare_address, ← Payload.bare_id, he] at this
      exact (this hc hpa).symm
    · cases (ctrlFw_of_step hr ht hp').1
      have hid := hr'.create_id (hr'.ctrlFw_create ((mem_sent _).mpr
        (hl ▸ List.mem_append_right _ hp')))
      rw [← hid, ← Payload.bare_id p', he, Payload.bare_id]
  · -- otherwise the map and the request stay
    rw [Controller.lastHost_append_of_none fun h p hp hcp => hnew ⟨h, p, hp, hcp⟩]
    rcases hq with ⟨q₀, hq₀, he⟩ | ⟨h, p, hp, he⟩
    · have := hm q₀ hq₀
      rw [← Payload.bare_command, ← Payload.bare_address, ← Payload.bare_id, he] at this
      exact this hc
    · refine absurd ⟨h, p, hp, ?_, ?_⟩ hnew
      · rw [← Payload.bare_command, he, Payload.bare_command, hc]
      · rw [← Payload.bare_address p, he, Payload.bare_address]

/-- In a run without clashes the map is right in every state. -/
theorem ReachableBy.mapRight (hr : ReachableBy cfg ok s) (hok : ∀ s a, ok s a → NoClash cfg c s a) :
    MapRight cfg c s :=
  Reach.invariant (P := MapRight cfg c) (fun q hq => by
      simp [init, inFlight, atDevice, Controller.init, MemWrapper.init, MemWrapper.contents,
        MemWrapper.issued, MemWrapper.completed] at hq)
    (fun s a _ hrs ha hm hs => mapRight_step hrs ha (hok s a ha) hs hm) hr

/-! ## Responses -/

/-- In a run without clashes every response goes to the host whose id the request carries. -/
theorem ReachableBy.dspBw_id (hr : ReachableBy cfg ok s) (hok : ∀ s a, ok s a → NoClash cfg c s a)
    {h : Nat} {p : Payload} (hp : .call (.dspBw h) p ∈ s.log) (hc : p.command = c) : h = p.id := by
  refine Reach.invariant (P := fun s => ∀ h p, .call (.dspBw h) p ∈ s.log → p.command = c →
    h = p.id)
    (by simp [init]) ?_ hr h p hp hc
  intro s a s' hrs ha ih hs h p hp hc
  obtain ⟨-, es, t, ht, rfl⟩ := step_eq_ok.mp hs
  rcases List.mem_append.mp hp with hold | hnew
  · exact ih h p (ht.log ▸ hold) hc
  · have hsrc := ht.source _ hnew
    cases ht with
    | ctrl hact =>
        have hm := (show ReachableBy cfg ok s from hrs).mapRight hok p
        have hid := (show ReachableBy cfg ok s from hrs).ctrlTransId
        have hcmd := (show ReachableBy cfg ok s from hrs).ctrlQueues
        rcases Controller.chain_dspBw (Controller.act_chain hact) hnew with ⟨hq, rfl⟩ | ⟨hq, rfl⟩
        · have hread : p.command = .read := hcmd.bw_command (k := .read) p hq
          rw [hread] at hc
          rw [← hm (by simp [inFlight, hq]) (hread.trans hc), ← hc]
          exact hid .read p.address
        · have hwrite : p.command = .write := hcmd.bw_command (k := .write) p hq
          rw [hwrite] at hc
          rw [← hm (by simp [inFlight, hq]) (hwrite.trans hc), ← hc]
          exact hid .write p.address
    | _ => cases hsrc

/-- A response answers a delivered request. -/
theorem ReachableBy.dspBw_delivered (hr : ReachableBy cfg ok s) {h : Nat} {p : Payload}
    (hp : .call (.dspBw h) p ∈ s.log) :
    ∃ p', .call (.ctrlFw p.id) p' ∈ s.log ∧ p'.bare = p.bare := by
  obtain ⟨p', hp', he⟩ := mem_bare_of_count (callsOn Chan.isDspBw s.log)
    (callsOn Chan.isCtrlFw s.log) (fun b => by
      have := hr.inFlight_perm.count_eq b
      rw [List.count_append] at this
      omega) ((mem_callsOn _).mpr ⟨.dspBw h, rfl, hp⟩)
  obtain ⟨k, hk, hm⟩ := (mem_callsOn _).mp hp'
  cases k with
  | ctrlFw k =>
      have hid : k = p.id := by
        rw [← hr.create_id (hr.ctrlFw_create ((mem_sent _).mpr hm)), ← Payload.bare_id p', he,
          Payload.bare_id]
      exact ⟨p', hid ▸ hm, he⟩
  | _ => cases hk

/-- Responses are routed exactly when each goes to the host whose id its request carries. -/
theorem ReachableBy.routed_iff (hr : ReachableBy cfg ok s) :
    Routed s.log ↔ ∀ h p, .call (.dspBw h) p ∈ s.log → h = p.id := by
  constructor
  · intro hrt h p hp
    obtain ⟨p', hp', he⟩ := hr.dspBw_delivered hp
    exact ((hrt h p hp).2 _ p' hp' he).symm
  · intro hid h p hp
    have hh := hid h p hp
    subst hh
    refine ⟨hr.dspBw_delivered hp, fun k p' hp' he => ?_⟩
    rw [← hr.create_id (hr.ctrlFw_create ((mem_sent _).mpr hp')), ← Payload.bare_id p', he,
      Payload.bare_id]

/-- In every run without clashes every response goes to the host that delivered its request. -/
theorem responses_routed (hr : ReachableBy cfg (NoClashes cfg) s) : Routed s.log := by
  rw [ReachableBy.routed_iff hr]
  intro h p hp
  cases hc : p.command with
  | read => exact ReachableBy.dspBw_id hr (fun _ _ hn => hn.1) hp hc
  | write => exact ReachableBy.dspBw_id hr (fun _ _ hn => hn.2) hp hc

/-- Two hosts write one packet each, to the addresses `a` and `b`; steps that clash are left out. -/
def twoWriters (ok : Sys → Action → Prop) [∀ s a, Decidable (ok s a)] (a b : Nat) : Sys :=
  runSkip (step (smallConfig 2 1 2)) ok (init (smallConfig 2 1 2))
    (.sim 0 (.recv (.fill .write a 7)) :: .sim 1 (.recv (.fill .write b 9)) ::
      rounds (smallConfig 2 1 2) 14)

theorem responses_routed_of_twoWriters :
    Routed (twoWriters (NoClashes (smallConfig 2 1 2)) 8 16).log ∧
      (callsOn Chan.isDspBw (twoWriters (NoClashes (smallConfig 2 1 2)) 8 16).log).length = 2 :=
  ⟨responses_routed (reach_runSkip _ _), by decide +kernel⟩

/-- The ack of host 0's write goes to host 1, which writes the same address. -/
theorem two_writers_misrouted : Reachable (smallConfig 2 1 2) (twoWriters anyStep 8 8) ∧
    ¬ Routed (twoWriters anyStep 8 8).log := by
  have hr : Reachable (smallConfig 2 1 2) (twoWriters anyStep 8 8) := reach_runSkip _ _
  refine ⟨hr, fun hrt => ?_⟩
  have hid := (ReachableBy.routed_iff hr).mp hrt
  have hwrong : ∃ p ∈ sent (.dspBw 1) (twoWriters anyStep 8 8).log, p.id = 0 := by decide +kernel
  obtain ⟨p, hp, h0⟩ := hwrong
  have := hid 1 p ((mem_sent _).mp hp)
  omega

end Sys

end TSim4CXL
