/-
  Every request is served.

  `fair_schedules_serve`: in an orderly state with an active core, any schedule that goes round all
  components (`Covers`) serves everything that is there after at most `work` rounds, whatever else
  it does and however it orders the components: no payload is left anywhere, every write handled
  has raised its signal and every read handled has been answered (`Served`). A turn in which a
  request would clash, or an ack would push another out of its slot, is skipped. New packets and
  the end of the last core are left out of the schedule (`Calm`). What may be left is a SIMWrapper
  that polls the flag of a read whose address nobody has signalled.
-/
import TSim4CXL.Lib.Progress
import TSim4CXL.Properties.Rest
import TSim4CXL.Properties.Orderly

namespace TSim4CXL

open Transition

namespace Sys

variable {cfg : Config} {s t : Sys} {a : Action}

/-! ## Schedules -/

/-- A poll of the ring that returns a packet. -/
def Action.receives : Action → Bool
  | .sim _ (.recv _) => true
  | _ => false

/-- A core stays active. -/
def CoresStay (cfg : Config) (s : Sys) (a : Action) : Prop :=
  match step cfg s a with
  | .ok t => t.activeCores ≠ 0
  | .error _ => True

instance (cfg : Config) (s : Sys) (a : Action) : Decidable (CoresStay cfg s a) := by
  unfold CoresStay
  split <;> infer_instance

/-- An orderly step that brings no new packet and does not end the last core. -/
structure Calm (cfg : Config) (s : Sys) (a : Action) : Prop where
  orderly : Orderly cfg s a
  quiet : Action.receives a = false
  cores : CoresStay cfg s a

instance (cfg : Config) (s : Sys) (a : Action) : Decidable (Calm cfg s a) :=
  decidable_of_iff (Orderly cfg s a ∧ Action.receives a = false ∧ CoresStay cfg s a)
    ⟨fun h => ⟨h.1, h.2.1, h.2.2⟩, fun h => ⟨h.orderly, h.quiet, h.cores⟩⟩

/-- A round in which every component gets its turns, and Ramulator accepts and completes. -/
structure Covers (cfg : Config) (round : List Action) : Prop where
  sim : ∀ h < cfg.hostNum, .sim h .process ∈ round ∧ .sim h .posedge ∈ round ∧
    .sim h .negedge ∈ round ∧
    .sim h .peq ∈ round
  usp : ∀ h < cfg.hostNum, ∀ b, .usp h b ∈ round
  dsp : ∀ h < cfg.hostNum, ∀ b, .dsp h b ∈ round
  ctrl : ∀ b, .ctrl b ∈ round
  mem : ∀ d < cfg.dramNum, .mem d .peq ∈ round ∧ .mem d .posedge ∈ round ∧ .mem d .negedge ∈ round ∧
    (∃ now, .mem d (.simulateDram true now) ∈ round) ∧ .mem d (.complete 0) ∈ round

/-- States of orderly runs with an active core. -/
def Awake (cfg : Config) (s : Sys) : Prop := ReachableBy cfg (Orderly cfg) s ∧ s.activeCores ≠ 0

/-- Calm steps work off what is there. -/
theorem working : Working (step cfg) (Calm cfg) (Awake cfg) (work cfg) where
  keeps s a t hs ha ht := by
    refine ⟨.tail hs.1 ha.orderly ht, ?_⟩
    have hcores := ha.cores
    rwa [CoresStay, ht] at hcores
  lowers s a t hs ha ht := by
    refine step_work (fun h packet hrecv => ?_) (ReachableBy.running hs.1 hs.2).dram
      (ReachableBy.ctrlPoised hs.1) ht
    have hquiet := ha.quiet
    rw [hrecv] at hquiet
    cases hquiet

/-! ## Turns that are always allowed -/

theorem coreDone_foreign {es : List Event} (hes : ∀ k, .coreDone k ∉ es) :
    es.countP isCoreDone = 0 := by
  refine List.countP_eq_zero.mpr fun e he => ?_
  cases e with
  | coreDone k => exact absurd he (hes k)
  | _ => simp [isCoreDone]

/-- A turn that counts no core out is calm once it is orderly. -/
theorem Awake.calm (hs : Awake cfg s) (hquiet : Action.receives a = false)
    (hclash : NoClashes cfg s a) (hslot : SlotFree s a)
    (hcores : ∀ es t, Stretch cfg s a es t → ∀ k, .coreDone k ∉ es) : Calm cfg s a := by
  refine ⟨⟨hclash, ?_, hslot⟩, hquiet, ?_⟩
  · cases a with
    | sim h b =>
        cases b with
        | recv packet => cases hquiet
        | _ => trivial
    | _ => trivial
  · unfold CoresStay
    split
    · rename_i t ht
      obtain ⟨-, es, u, hu, rfl⟩ := step_eq_ok.mp ht
      rw [activeCores_emit hu, coreDone_foreign (hcores es u hu)]
      exact hs.2
    · trivial

/-- Only a SIMWrapper counts cores out. -/
theorem Stretch.no_coreDone {es : List Event} (ht : Stretch cfg s a es t)
    (ho : ∀ h, a.owner ≠ .sim h) (k : Nat) :
    .coreDone k ∉ es := fun hk => ho k (ht.source _ hk).symm

/-! ## A round that finds nothing to do -/

/-- The actions of a round change nothing. -/
def Stuck (cfg : Config) (s : Sys) (a : Action) : Prop := Idle (step cfg) (Calm cfg) s a

/-- A turn that is allowed and changes nothing emits nothing. -/
theorem Stuck.stretch {es : List Event} (hidle : Stuck cfg s a) (hok : Calm cfg s a)
    (hrun : Running s) (ht : Stretch cfg s a es t) : t = s ∧ es = [] := by
  have hsame : t.emit es = s := hidle _ hok (step_eq_ok.mpr ⟨hrun.stopped, es, t, ht, rfl⟩)
  have hlog : s.log ++ es = s.log := by
    conv_rhs => rw [← hsame]
    exact congrArg (· ++ es) ht.log.symm
  have hes : es = [] := List.append_right_eq_self.mp hlog
  subst hes
  exact ⟨(emit_nil t).symm.trans hsame, rfl⟩

/-! ### At the hosts -/

theorem Awake.sim_stuck (hs : Awake cfg s) {h : Nat} {b : SimWrapper.Act} {w : SimWrapper}
    {es : List Event} (hh : h < cfg.hostNum) (hidle : Stuck cfg s (.sim h b))
    (hok : Calm cfg s (.sim h b)) (hact : (s.sim h).act cfg h s.env b = .ok (w, es)) :
      w = s.sim h ∧ es = [] := by
  obtain ⟨ht, hes⟩ := hidle.stretch hok (ReachableBy.running hs.1 hs.2) (.sim hh hact)
  refine ⟨?_, hes⟩
  have hw := congrArg (fun s => s.sim h) ht
  simpa using hw

theorem Awake.posedge_stuck (hs : Awake cfg s) {h : Nat} (hh : h < cfg.hostNum)
    (hidle : Stuck cfg s (.sim h .posedge)) :
    (s.sim h).rackIncoming = none ∧ (s.sim h).wackIncoming = none := by
  have hok : Calm cfg s (.sim h .posedge) :=
    hs.calm rfl ⟨trivial, trivial⟩ trivial fun es t ht k hk => by
    cases ht with
    | sim _ hact =>
        cases hact
        cases hk
  exact SimWrapper.rest_posedge (hs.sim_stuck hh hidle hok rfl).1

/-- With the slots free a notification is allowed, so there is none. -/
theorem Awake.peq_stuck (hs : Awake cfg s) {h : Nat} (hh : h < cfg.hostNum)
    (hslots : (s.sim h).rackIncoming = none ∧ (s.sim h).wackIncoming = none)
    (hidle : Stuck cfg s (.sim h .peq)) : (s.sim h).peq = [] := by
  have hfree : SlotFree s (.sim h .peq) := fun p _ => by
    cases hc : p.command with
    | read => exact hslots.1
    | write => exact hslots.2
  have hok : Calm cfg s (.sim h .peq) := hs.calm rfl ⟨trivial, trivial⟩ hfree fun es t ht k hk => by
    cases ht with
    | sim _ hact =>
        simp only [SimWrapper.act] at hact
        split at hact <;> cases hact
        cases hk
  cases hpeq : (s.sim h).peq with
  | nil => rfl
  | cons p q =>
      obtain ⟨w, hw⟩ : ∃ w, (s.sim h).peqCb = .ok w := by
        unfold SimWrapper.peqCb
        rw [hpeq]
        dsimp only
        split <;> exact ⟨_, rfl⟩
      have hact : (s.sim h).act cfg h s.env .peq = .ok (w, []) := by simp only [SimWrapper.act, hw]
      obtain ⟨rfl, -⟩ := hs.sim_stuck hh hidle hok hact
      exact (SimWrapper.rest_peq hw).elim

theorem Awake.negedge_stuck (hs : Awake cfg s) (h0 : 0 < cfg.payloadNum)
    (hN : cfg.payloadNum < 4294967296) {h : Nat} (hh : h < cfg.hostNum)
    (hidle : Stuck cfg s (.sim h .negedge)) :
    (s.sim h).rQueue = [] ∧ (s.sim h).wQueue = [] ∧ (s.sim h).rackQueue = [] ∧
      (s.sim h).wackQueue = [] := by
  have hok : Calm cfg s (.sim h .negedge) :=
    hs.calm rfl ⟨trivial, trivial⟩ trivial fun es t ht k hk => by
    cases ht with
    | sim _ hact => exact ((SimWrapper.clockNegedge_frame hact).2.2.2 _ hk).elim
  cases hact : (s.sim h).act cfg h s.env .negedge with
  | error e =>
      have he := SimWrapper.clockNegedge_error hact
      rw [he] at hact
      obtain ⟨hack, hnum, hnil⟩ := SimWrapper.act_emptySync hact
      exact absurd hnil
        (ReachableBy.syncQueue_ne_nil hs.1 (fun _ _ ha => ha.clash.2) h0 hN hack hnum)
  | ok r =>
      obtain ⟨w, es⟩ := r
      obtain ⟨-, rfl⟩ := hs.sim_stuck hh hidle hok hact
      exact SimWrapper.rest_negedge hact

theorem Awake.process_stuck (hs : Awake cfg s) {h : Nat} (hh : h < cfg.hostNum)
    (hidle : Stuck cfg s (.sim h .process)) : (s.sim h).proc = .loop ∨
      ∃ packet, (s.sim h).proc = .gate packet false ∧
      s.sync.checkSignal packet.address = false := by
  by_cases hloop : (s.sim h).proc = .loop
  · exact .inl hloop
  · have hok : Calm cfg s (.sim h .process) :=
      hs.calm rfl ⟨trivial, trivial⟩ trivial fun es t ht k => by
      cases ht with
      | sim _ hact => exact SimWrapper.process_no_coreDone hloop hact k
    obtain ⟨⟨w, es⟩, hact⟩ : ∃ r, (s.sim h).process cfg h s.env = .ok r :=
      SimWrapper.process_ok ((ReachableBy.running hs.1 hs.2).proc h)
    obtain ⟨rfl, -⟩ := hs.sim_stuck hh hidle hok hact
    exact SimWrapper.rest_process hact

/-! ### At the ports, the controller and the devices -/

theorem Awake.usp_stuck (hs : Awake cfg s) (h2 : 2 ≤ cfg.payloadNum) {h : Nat}
    (hh : h < cfg.hostNum) (hidle : ∀ b, Stuck cfg s (.usp h b)) :
    (s.usp h).Quiescent ∧ (s.usp h).bw = .idle ∧
      (s.usp h).rackQueue = [] ∧ (s.usp h).wackQueue = [] := by
  have hstuck {b : Usp.Act} {u : Usp} {es : List Event}
      (hact : (s.usp h).act cfg h b = .ok (u, es)) :
      u = s.usp h ∧ es = [] := by
    have hok : Calm cfg s (.usp h b) := hs.calm rfl ⟨trivial, trivial⟩ trivial fun es t ht =>
      ht.no_coreDone fun k hk => by cases hk
    obtain ⟨ht, hes⟩ := (hidle b).stretch hok (ReachableBy.running hs.1 hs.2) (.usp hh hact)
    have hu := congrArg (fun s => s.usp h) ht
    exact ⟨by simpa using hu, hes⟩
  have hn : cfg.payloadNum / rMsg ≠ 0 := Nat.ne_of_gt (Nat.div_pos h2 (by decide))
  obtain ⟨⟨u, es⟩, hfw⟩ := Usp.fwThread_ok (h := h) hn (ReachableBy.uspPhase hs.1 h)
  obtain ⟨rfl, rfl⟩ := hstuck (b := .fw) hfw
  obtain ⟨hu, hes⟩ := hstuck (b := .bw) rfl
  exact ⟨Usp.rest_fw hfw, Usp.rest_bw (Prod.ext hu hes)⟩

theorem Awake.dsp_stuck (hs : Awake cfg s) {h : Nat} (hh : h < cfg.hostNum) {b : Dsp.Act}
    (hclash : NoClashes cfg s (.dsp h b)) (hidle : Stuck cfg s (.dsp h b)) :
    ((s.dsp h).act h b).2 = [] := by
  have hok : Calm cfg s (.dsp h b) := hs.calm rfl hclash trivial fun es t ht =>
    ht.no_coreDone fun k hk => by cases hk
  exact (hidle.stretch hok (ReachableBy.running hs.1 hs.2) (.dsp hh rfl)).2

theorem Awake.ctrl_stuck (hs : Awake cfg s) (hidle : ∀ b, Stuck cfg s (.ctrl b)) :
    s.ctrl.rQueue = [] ∧ s.ctrl.wQueue = [] ∧ s.ctrl.rackQueue = [] ∧ s.ctrl.wackQueue = [] := by
  have hstuck {b : Controller.Act} {c : Controller} {es : List Event}
      (hact : s.ctrl.act cfg b = .ok (c, es)) :
      c = s.ctrl ∧ es = [] := by
    have hok : Calm cfg s (.ctrl b) := hs.calm rfl ⟨trivial, trivial⟩ trivial fun es t ht =>
      ht.no_coreDone fun k hk => by cases hk
    obtain ⟨ht, hes⟩ := (hidle b).stretch hok (ReachableBy.running hs.1 hs.2) (.ctrl hact)
    exact ⟨congrArg Sys.ctrl ht, hes⟩
  have hends {q : Payload} (hq : q ∈ s.inFlight cfg) :=
    ReachableBy.inFlight_ends hs.1 (fun _ _ ha => ha.addressed) hq
  have hhost {k : Command} {p : Payload} (hp : p ∈ s.inFlight cfg) :
      s.ctrl.transId k p.address < cfg.hostNum :=
    ReachableBy.transId_lt hs.1 (Nat.zero_lt_of_lt (hends hp).1) k p.address
  obtain ⟨⟨c, es⟩, hfw⟩ := Controller.fwThread_ok (ReachableBy.ctrlPhase hs.1) fun p hp =>
    (hends (q := p) (by rcases List.mem_append.mp hp with hp | hp <;> simp [inFlight, hp])).2
  obtain ⟨rfl, rfl⟩ := hstuck (b := .fw) hfw
  obtain ⟨⟨c, es⟩, hbw⟩ := Controller.bwThread_ok (ReachableBy.ctrlPhase hs.1).2
    (fun p hp => hhost (k := .read) (by simp [inFlight, hp])) fun p hp =>
    hhost (k := .write) (by simp [inFlight, hp])
  obtain ⟨rfl, rfl⟩ := hstuck (b := .bw) hbw
  obtain ⟨hr, hw⟩ := Controller.rest_fw hfw
  exact ⟨hr, hw, Controller.rest_bw (ReachableBy.ctrlPoised hs.1) hbw⟩

theorem Awake.mem_stuck (hs : Awake cfg s) {d : Nat} (hd : d < cfg.dramNum) {now : Nat}
    (hpeq : Stuck cfg s (.mem d .peq)) (hpos : Stuck cfg s (.mem d .posedge))
    (hneg : Stuck cfg s (.mem d .negedge)) (hsim : Stuck cfg s (.mem d (.simulateDram true now)))
    (hdram : Stuck cfg s (.mem d (.complete 0))) :
    s.atDevice d = [] := by
  have hstuck {b : MemWrapper.Act} {m : MemWrapper} {es : List Event}
      (hidle : Stuck cfg s (.mem d b))
      (hact : (s.mem d).act d s.activeCores s.load b = .ok (m, es)) : m = s.mem d ∧ es = [] := by
    have hok : Calm cfg s (.mem d b) := hs.calm rfl ⟨trivial, trivial⟩ trivial fun es t ht =>
      ht.no_coreDone fun k hk => by cases hk
    obtain ⟨ht, hes⟩ := hidle.stretch hok (ReachableBy.running hs.1 hs.2) (.mem hd hact)
    have hm := congrArg (fun s => s.mem d) ht
    exact ⟨by simpa using hm, hes⟩
  have hrun := (ReachableBy.running hs.1 hs.2).mem d
  obtain ⟨hr, hw⟩ := MemWrapper.rest_posedge (hstuck hpos rfl).1
  obtain ⟨hm, hes⟩ := hstuck hneg rfl
  obtain ⟨hrack, hwack⟩ := MemWrapper.rest_negedge (Prod.ext hm hes)
  have hreq : (s.mem d).memRequest = [] ∧ (s.mem d).inQueue = [] ∧ (s.mem d).outQueue = [] := by
    obtain ⟨⟨m, es⟩, hact⟩ : ∃ r, (s.mem d).simulateDram d s.activeCores true now = .ok r := by
      unfold MemWrapper.simulateDram
      rw [if_pos hrun]
      dsimp only
      split <;> exact ⟨_, rfl⟩
    obtain ⟨rfl, rfl⟩ := hstuck hsim hact
    exact MemWrapper.rest_simulateDram hact
  have hdone : (s.mem d).dram = [] := by
    cases hq : (s.mem d).dram with
    | nil => rfl
    | cons p q =>
        obtain ⟨⟨m, es⟩, hact⟩ : ∃ r, (s.mem d).complete d 0 = .ok r := by
          unfold MemWrapper.complete
          rw [if_pos hrun, hq]
          exact ⟨_, rfl⟩
        obtain ⟨-, rfl⟩ := hstuck hdram hact
        exact (MemWrapper.rest_complete hact).elim
  have hnil : (s.mem d).peq = [] := by
    cases hact : (s.mem d).peqCb d s.load with
    | ok r =>
        obtain ⟨m, es⟩ := r
        obtain ⟨-, rfl⟩ := hstuck hpeq hact
        exact (MemWrapper.rest_peq hact).elim
    | error e =>
        unfold MemWrapper.peqCb at hact
        split at hact
        · assumption
        · split at hact <;> cases hact
  simp [atDevice, MemWrapper.contents, MemWrapper.issued, MemWrapper.completed, hr, hw, hrack,
    hwack, hreq, hdone, hnil]

/-! ## Everything served -/

/-- Nothing is left on its way: every write handled has raised its signal, in order, and every read
    handled has been answered. A SIMWrapper is between two packets, or polls a flag that is not
    set. -/
structure Served (cfg : Config) (s : Sys) : Prop where
  hosts : ∀ h < cfg.hostNum, s.hostPath h = [] ∧ s.hostAcks h = []
  flight : s.inFlight cfg = []
  signals : ∀ h < cfg.hostNum, signalsOf h s.log = (writesOf h s.log).map (·.address)
  responses : ∀ h < cfg.hostNum, (responsesOf h s.log).length = (readsOf h s.log).length
  proc : ∀ h < cfg.hostNum, (s.sim h).proc = .loop ∨
    ∃ packet, (s.sim h).proc = .gate packet false ∧ s.sync.checkSignal packet.address = false

theorem Awake.flight_nil (hs : Awake cfg s) {round : List Action} (hcov : Covers cfg round)
    (hidle : ∀ a ∈ round, Stuck cfg s a) : s.inFlight cfg = [] := by
  obtain ⟨h1, h2, h3, h4⟩ := hs.ctrl_stuck fun b => hidle _ (hcov.ctrl b)
  have hdev : (List.range cfg.dramNum).flatMap s.atDevice = [] := by
    refine List.flatMap_eq_nil_iff.mpr fun d hd => ?_
    have hd := List.mem_range.mp hd
    obtain ⟨hpeq, hpos, hneg, ⟨now, hsim⟩, hdram⟩ := hcov.mem d hd
    exact hs.mem_stuck hd (hidle _ hpeq) (hidle _ hpos) (hidle _ hneg) (hidle _ hsim)
      (hidle _ hdram)
  rw [inFlight, h1, h2, hdev, h3, h4]
  rfl

theorem Awake.hosts_nil (hs : Awake cfg s) (h4 : 4 ∣ cfg.payloadNum) (h0 : 0 < cfg.payloadNum)
    (hN : cfg.payloadNum < 4294967296) {round : List Action} (hcov : Covers cfg round)
    (hidle : ∀ a ∈ round, Stuck cfg s a) {h : Nat} (hh : h < cfg.hostNum) :
    s.hostPath h = [] ∧ s.hostAcks h = [] := by
  have hflight := hs.flight_nil hcov hidle
  obtain ⟨-, hpos, hneg, hpeq⟩ := hcov.sim h hh
  obtain ⟨hrq, hwq, hrack, hwack⟩ := hs.negedge_stuck h0 hN hh (hidle _ hneg)
  have hslots := hs.posedge_stuck hh (hidle _ hpos)
  have hpeq := hs.peq_stuck hh hslots (hidle _ hpeq)
  obtain ⟨hquiet, hbw, hurack, huwack⟩ :=
    hs.usp_stuck (by omega) hh fun b => hidle _ (hcov.usp h hh b)
  obtain ⟨hur, huw, hup⟩ := (ReachableBy.usp_empty_iff hs.1 h ⟨hrq, hwq⟩ hquiet).mpr
    ⟨Dvd.dvd.mul_right (Nat.dvd_trans (by decide) h4) _, Dvd.dvd.mul_right h4 _⟩
  -- with nothing in flight no request can clash
  have hclash : NoClashes cfg s (.dsp h .fw) := by
    constructor <;> intro p _ q hq <;> rw [hflight] at hq <;> cases hq
  obtain ⟨hdr, hdw⟩ :=
    Dsp.rest_fw (Prod.ext rfl (hs.dsp_stuck hh hclash (hidle _ (hcov.dsp h hh .fw))))
  have hfree : NoClashes cfg s (.dsp h .bw) := ⟨trivial, trivial⟩
  obtain ⟨hdrack, hdwack⟩ :=
    Dsp.rest_bw (Prod.ext rfl (hs.dsp_stuck hh hfree (hidle _ (hcov.dsp h hh .bw))))
  have hheld : (s.usp h).held = [] := by rw [Usp.held, hquiet.1]
  have hheldAck (c : Command) : (s.usp h).heldAck c = [] := by
    cases c <;> simp only [Usp.heldAck, hbw]
  simp [hostPath, hostAcks, hrq, hwq, hur, huw, hup, hheld, hdr, hdw, hdrack, hdwack, hurack,
    huwack, hheldAck, hpeq, hslots, hrack, hwack]

/-- With nothing on its way each host has consumed the acks of all its payloads. -/
theorem ReachableBy.consumed_all (hr : ReachableBy cfg (Orderly cfg) s)
    (hflight : s.inFlight cfg = []) (hhosts : ∀ h < cfg.hostNum, s.hostPath h = [] ∧
      s.hostAcks h = []) {h : Nat} (hh : h < cfg.hostNum)
    (c : Command) : (ofCmd c (sent (.endResp h) s.log)).length =
      (ofCmd c (sent (.create h) s.log)).length := by
  have hacked (k : Nat) (c : Command) : (ofCmd c (sent (.dspBw k) s.log)).length ≤
      (ofCmd c (sent (.create k) s.log)).length := by
    have hsub : ∀ s a, Orderly cfg s a → NoClash cfg c s a := fun s a ha => by
      cases c with
      | read => exact ha.clash.1
      | write => exact ha.clash.2
    have hle := (hr.dspBw_subperm hsub k).length_le
    rwa [List.length_map, List.length_map] at hle
  -- all hosts together got as many acks as they created payloads, so each got its own
  have htotal := hr.total_balance
  rw [hflight, List.length_nil, Nat.add_zero] at htotal
  have hpaths : ∑ k ∈ Finset.range cfg.hostNum,
      ((s.hostPath k).length + (sent (.dspBw k) s.log).length) =
        ∑ k ∈ Finset.range cfg.hostNum, (sent (.dspBw k) s.log).length :=
    Finset.sum_congr rfl fun k hk => by
      rw [(hhosts k (Finset.mem_range.mp hk)).1, List.length_nil, Nat.zero_add]
  have hown := eq_of_sum_le (f := fun k => (sent (.dspBw k) s.log).length)
    (g := fun k => (sent (.create k) s.log).length) (fun k _ => by
      have h1 := hacked k .read
      have h2 := hacked k .write
      have h3 := length_ofCmd (sent (.dspBw k) s.log)
      have h4 := length_ofCmd (sent (.create k) s.log)
      omega) (by rw [htotal, hpaths]) h hh
  -- and none of them is on its way or lost
  have hkept := hr.acks_kept (fun _ _ ha => ha.slot) h
  have hnil := (hhosts h hh).2
  simp only [hostAcks, List.append_eq_nil_iff] at hnil
  obtain ⟨⟨⟨⟨⟨⟨⟨⟨⟨⟨d1, d2⟩, u1⟩, u2⟩, u3⟩, u4⟩, w1⟩, w2⟩, w3⟩, w4⟩, w5⟩ := hnil
  rw [SimWrapper.ackSlots, w1, w2, w3, w4, w5] at hkept
  have hread := congrArg List.length (hr.ack_path h .read)
  have hwrite := congrArg List.length (hr.ack_path h .write)
  simp only [Usp.bwContents, Dsp.bwContents, d1, d2, u1, u2, u3, u4, List.append_nil]
    at hread hwrite
  have h1 := hacked h .read
  have h2 := hacked h .write
  have h3 := length_ofCmd (sent (.dspBw h) s.log)
  have h4 := length_ofCmd (sent (.create h) s.log)
  have h5 := length_ofCmd (sent (.endResp h) s.log)
  have h6 := length_ofCmd (sent (.simBw h) s.log)
  have h7 := (hr.simAcks h).1.length_le
  have h8 := (hr.simAcks h).2.length_le
  simp only [List.length_append, List.length_nil] at hkept h7 h8
  cases c <;> omega

theorem eq_of_round {n a b r : Nat} (h : n * a + r = n * b) (hr : r < n) : a = b := by
  have hdiv := congrArg (· / n) h
  simpa [Nat.mul_add_div (Nat.zero_lt_of_lt hr), Nat.div_eq_of_lt hr, Nat.zero_lt_of_lt hr]
    using hdiv

theorem Awake.served (hs : Awake cfg s) (h4 : 4 ∣ cfg.payloadNum) (h0 : 0 < cfg.payloadNum)
    (hN : cfg.payloadNum < 4294967296) {round : List Action} (hcov : Covers cfg round)
    (hidle : ∀ a ∈ round, Stuck cfg s a) : Served cfg s := by
  have hflight := hs.flight_nil hcov hidle
  have hhosts : ∀ h < cfg.hostNum, s.hostPath h = [] ∧ s.hostAcks h = [] := fun h hh =>
    hs.hosts_nil h4 h0 hN hcov hidle hh
  refine ⟨hhosts, hflight, fun h hh => ?_, fun h hh => ?_,
    fun h hh => hs.process_stuck hh (hidle _ (hcov.sim h hh).1)⟩
  · have hcount := ReachableBy.consumed_all hs.1 hflight hhosts hh .write
    obtain ⟨hlt, hround⟩ := ReachableBy.simRounds hs.1 h0 hN h
    have horder : signalsOf h s.log ++ (s.sim h).syncQueue = (writesOf h s.log).map (·.address) :=
      ReachableBy.simSignalOrder hs.1 h
    rw [(ReachableBy.create_length hs.1 h).2] at hcount
    have hsame := eq_of_round (hround.trans hcount) hlt
    have hlen := congrArg List.length horder
    rw [List.length_append, List.length_map, hsame] at hlen
    have hnil : (s.sim h).syncQueue = [] := List.length_eq_zero_iff.mp (by omega)
    rwa [hnil, List.append_nil] at horder
  · have hcount := ReachableBy.consumed_all hs.1 hflight hhosts hh .read
    obtain ⟨hlt, hround⟩ := ReachableBy.simReadRounds hs.1 h0 hN h
    rw [(ReachableBy.create_length hs.1 h).1] at hcount
    exact eq_of_round (hround.trans hcount) hlt

/-- In an orderly state with an active core, a schedule that goes round all components for more
    rounds than there is work comes to a state in which everything is served. -/
theorem fair_schedules_serve (hr : ReachableBy cfg (Orderly cfg) s) (hcores : s.activeCores ≠ 0)
    (h4 : 4 ∣ cfg.payloadNum) (h0 : 0 < cfg.payloadNum) (hN : cfg.payloadNum < 4294967296)
    {schedule : List (List Action)} (hcov : ∀ round ∈ schedule, Covers cfg round)
    (hlen : s.work cfg < schedule.length) :
    ∃ n < schedule.length,
      Served cfg (runSkip (step cfg) (Calm cfg) s (schedule.take n).flatten) := by
  have hawake : Awake cfg s := ⟨hr, hcores⟩
  obtain ⟨before, round, after, rfl, hidle⟩ := working.settles hawake hlen
  refine ⟨before.length, by simp, ?_⟩
  rw [List.take_left']
  · exact (working.runSkip_le before.flatten hawake).1.served h4 h0 hN (hcov round (by simp)) hidle
  · rfl

/-- The rounds of the concrete runs cover all components. -/
theorem covers_round (cfg : Config) : Covers cfg (round cfg) where
  sim h hh := by simp [round, hh]
  usp h hh b := by cases b <;> simp [round, hh]
  dsp h hh b := by cases b <;> simp [round, hh]
  ctrl b := by cases b <;> simp [round]
  mem d hd := ⟨by simp [round, hd],
    by simp [round, hd], by simp [round, hd], ⟨0, by simp [round, hd]⟩, by simp [round, hd]⟩

/-- A host has written a packet and now waits at the gate of a read of it. -/
def readBehindWrite : Sys :=
  runSkip (step (smallConfig 1 1 4)) (Orderly (smallConfig 1 1 4)) (init (smallConfig 1 1 4))
    [.sim 0 (.recv (.fill .write 8 7)), .sim 0 .process, .sim 0 (.recv (.fill .read 8 0))]

theorem fair_schedules_serve_of_readBehindWrite :
    (∃ n < (List.replicate 700 (round (smallConfig 1 1 4))).length, Served (smallConfig 1 1 4)
      (runSkip (step (smallConfig 1 1 4)) (Calm (smallConfig 1 1 4)) readBehindWrite
        ((List.replicate 700 (round (smallConfig 1 1 4))).take n).flatten)) ∧
      (readBehindWrite.sim 0).wQueue.length = 4 ∧ (readBehindWrite.sim 0).hostBlocked = true :=
  ⟨fair_schedules_serve (reach_runSkip _ _) (by decide) (by decide) (by decide) (by decide)
    (fun _ hround => (List.eq_of_mem_replicate hround).symm ▸ covers_round _) (by decide +kernel),
    by decide +kernel⟩

end Sys

end TSim4CXL
