/-
  What can go wrong in a step, and when it cannot.

  Besides a step that is not enabled, `Sys.step` fails where the source has undefined behaviour: the
  front of an empty queue, a division by zero, an index past the sockets, and the front of an empty
  `sync_queue`. `no_fault`: in every run in which no two writes of one address are in flight for
  different hosts and packets name devices there are, with at least two payloads a packet, none of
  them happens.
-/
import TSim4CXL.Properties.ReadOrder
import TSim4CXL.Properties.ForwardPath

namespace TSim4CXL

open Transition

/-! ## Packets for devices there are -/

/-- A read or a write goes to a device that exists. -/
def Packet.Addressed (cfg : Config) (packet : Packet) : Prop :=
  packet.type = .read ∨ packet.type = .write → packet.deviceId < cfg.dramNum

instance (cfg : Config) (packet : Packet) : Decidable (packet.Addressed cfg) :=
  inferInstanceAs (Decidable (_ → _))

/-- The packet in hand goes to a device that exists. -/
def ProcState.Addressed (cfg : Config) : ProcState → Prop
  | .delta packet => packet.Addressed cfg
  | .gate packet _ => packet.deviceId < cfg.dramNum
  | .readCpu packet => packet.deviceId < cfg.dramNum
  | .writeCpu packet => packet.deviceId < cfg.dramNum
  | _ => True

namespace SimWrapper

variable {cfg : Config} {h : Nat} {env : SimEnv} {w w' : SimWrapper} {es : List Event}

/-- The packets handled by these events go to devices that exist. -/
def PacketsAddressed (cfg : Config) (es : List Event) : Prop :=
  ∀ k q, .readPacket k q ∈ es ∨ .writePacket k q ∈ es → q.deviceId < cfg.dramNum

theorem addressed_of_ok {r : SimWrapper × List Event}
    (hs : (.ok r : Except Fault (SimWrapper × List Event)) = .ok (w', es))
    (h : r.1.proc.Addressed cfg ∧ PacketsAddressed cfg r.2) :
    w'.proc.Addressed cfg ∧ PacketsAddressed cfg es := by
  cases hs
  exact h

theorem packetsAddressed_quiet (hes : ∀ e ∈ es, e.Quiet) : PacketsAddressed cfg es := by
  rintro k q (hq | hq) <;> exact (hes _ hq).elim

theorem handlePacket_addressed (w : SimWrapper) {packet : Packet} (hp : packet.Addressed cfg) :
    (handlePacket h env w packet).1.proc.Addressed cfg ∧
      PacketsAddressed cfg (handlePacket h env w packet).2 := by
  unfold handlePacket
  split
  · rename_i htype
    refine ⟨hp (.inl htype), packetsAddressed_quiet ?_⟩
    unfold pollGate
    split <;> simp [Event.Quiet]
  · rename_i htype
    exact ⟨hp (.inr htype), packetsAddressed_quiet (by simp)⟩
  · unfold endIteration
    split <;> exact ⟨trivial, packetsAddressed_quiet (by simp [Event.Quiet])⟩

/-- Only a packet received could name a device that does not exist. -/
theorem act_addressed {a : Act} (hrecv : ∀ packet, a = .recv packet → packet.Addressed cfg)
    (hw : w.proc.Addressed cfg) (hs : w.act cfg h env a = .ok (w', es)) :
    w'.proc.Addressed cfg ∧ PacketsAddressed cfg es := by
  cases a with
  | recv packet =>
      have hp := hrecv packet rfl
      simp only [act, recv] at hs
      split at hs
      · split at hs
        · exact addressed_of_ok hs ⟨hp, packetsAddressed_quiet (by simp)⟩
        · exact addressed_of_ok hs (handlePacket_addressed _ hp)
      · cases hs
  | process =>
      simp only [act, process] at hs
      split at hs <;> rename_i hproc <;> simp only [hproc] at hw
      · split at hs
        · exact addressed_of_ok hs ⟨by rw [hproc]; trivial, packetsAddressed_quiet (by simp)⟩
        · refine addressed_of_ok hs ?_
          unfold endIteration
          cases w.terminated <;> dsimp only <;> split <;>
            exact ⟨trivial, packetsAddressed_quiet (by simp [Event.Quiet])⟩
      · exact addressed_of_ok hs (handlePacket_addressed w hw)
      · refine addressed_of_ok hs ⟨hw, packetsAddressed_quiet ?_⟩
        unfold pollGate
        split <;> simp [Event.Quiet]
      · exact addressed_of_ok hs ⟨hw, packetsAddressed_quiet (by simp [Event.Quiet])⟩
      · refine addressed_of_ok hs ⟨trivial, fun k q hq => ?_⟩
        rcases hq with hq | hq <;> simp [handleReadPacket] at hq
        rwa [hq.2]
      · refine addressed_of_ok hs ⟨trivial, fun k q hq => ?_⟩
        rcases hq with hq | hq <;> simp [handleWritePacket] at hq
        rwa [hq.2]
      · cases hs
  | posedge =>
      cases hs
      exact ⟨hw, packetsAddressed_quiet (by simp)⟩
  | negedge =>
      obtain ⟨hproc, -, -, hdata⟩ := clockNegedge_frame hs
      rw [hproc]
      refine ⟨hw, ?_⟩
      rintro k q (hq | hq) <;> exact (hdata _ hq).elim
  | peq =>
      simp only [act, peqCb] at hs
      split at hs
      · cases hs
      · rename_i hpeq
        split at hpeq
        · cases hpeq
        · split at hpeq <;> cases hpeq <;> cases hs <;> exact ⟨hw, packetsAddressed_quiet (by simp)⟩

/-- What comes before the WACK block of a falling edge does not touch what the block reads. -/
theorem writeSide (w : SimWrapper) :
    (((w.forwardRead h).1.forwardWrite h).1.sendRack cfg h env).1.wackQueue = w.wackQueue ∧
      (((w.forwardRead h).1.forwardWrite h).1.sendRack cfg h env).1.wackNum = w.wackNum ∧
      (((w.forwardRead h).1.forwardWrite h).1.sendRack cfg h env).1.syncQueue = w.syncQueue := by
  have hread : (w.forwardRead h).1.wackQueue = w.wackQueue ∧
      (w.forwardRead h).1.wackNum = w.wackNum ∧
      (w.forwardRead h).1.syncQueue = w.syncQueue := by
    unfold forwardRead
    split <;> exact ⟨rfl, rfl, rfl⟩
  have hwrite (v : SimWrapper) : (v.forwardWrite h).1.wackQueue = v.wackQueue ∧
      (v.forwardWrite h).1.wackNum = v.wackNum ∧ (v.forwardWrite h).1.syncQueue = v.syncQueue := by
    unfold forwardWrite
    split <;> exact ⟨rfl, rfl, rfl⟩
  have hrack (v : SimWrapper) : (v.sendRack cfg h env).1.wackQueue = v.wackQueue ∧
      (v.sendRack cfg h env).1.wackNum = v.wackNum ∧
      (v.sendRack cfg h env).1.syncQueue = v.syncQueue := by
    unfold sendRack
    split
    · exact ⟨rfl, rfl, rfl⟩
    · dsimp only
      split <;> exact ⟨rfl, rfl, rfl⟩
  obtain ⟨h1, h2, h3⟩ := hread
  obtain ⟨h4, h5, h6⟩ := hwrite (w.forwardRead h).1
  obtain ⟨h7, h8, h9⟩ := hrack ((w.forwardRead h).1.forwardWrite h).1
  exact ⟨h7.trans (h4.trans h1), h8.trans (h5.trans h2), h9.trans (h6.trans h3)⟩

/-- The front of an empty `sync_queue`: a write ack completes a round nobody waits for. -/
theorem act_emptySync {a : Act} (hs : w.act cfg h env a = .error .emptySync) :
    w.wackQueue ≠ [] ∧ u32 (w.wackNum + 1) = cfg.payloadNum ∧ w.syncQueue = [] := by
  cases a with
  | recv packet =>
      simp only [act, recv] at hs
      split at hs
      · split at hs <;> cases hs
      · cases hs
  | process =>
      simp only [act, process] at hs
      split at hs <;> try cases hs
      split at hs <;> cases hs
  | posedge => cases hs
  | negedge =>
      simp only [act, clockNegedge] at hs
      split at hs
      · rename_i he
        obtain ⟨hq, hn, hsync⟩ := @writeSide cfg h env w
        cases hs
        unfold sendWack at he
        rw [hq, hn, hsync] at he
        split at he
        · cases he
        · rename_i hcons
          dsimp only at he
          split at he
          · rename_i hnum
            split at he
            · rename_i hnil
              exact ⟨by rw [hcons]; simp, hnum, hnil⟩
            · cases he
          · cases he
      · cases hs
  | peq =>
      simp only [act, peqCb] at hs
      split at hs
      · rename_i he
        split at he
        · cases he
          cases hs
        · split at he <;> cases he
      · cases hs

end SimWrapper

/-! ## Threads that get to their next `wait` -/

namespace Usp

variable {cfg : Config} {h : Nat} {u : Usp}

theorem checkRead_ok (hn : cfg.payloadNum / rMsg ≠ 0) (u : Usp) : ∃ v, checkRead cfg u = .ok v := by
  unfold checkRead
  rw [if_neg hn]
  split <;> exact ⟨_, rfl⟩

/-- With two payloads a packet `fw_thread` never divides by zero. -/
theorem fwThread_ok (hn : cfg.payloadNum / rMsg ≠ 0) (hp : Phase u) :
    ∃ r, u.fwThread cfg h = .ok r := by
  cases hs : u.fwThread cfg h with
  | ok r => exact ⟨r, rfl⟩
  | error e =>
      rw [fwThread_eq] at hs
      rcases bind_eq_error.mp hs with he | ⟨⟨v, es⟩, hend, hs⟩
      · exact (endCall_error hp he).elim
      · rcases bind_eq_error.mp hs with he | ⟨w, -, hs⟩
        · obtain ⟨x, hx⟩ := checkRead_ok hn v
          unfold nextCall at he
          split at he
          · split at he
            · exact (startWriteFlit_error (settled_endCall cfg hp hend) he).elim
            · rw [hx] at he
              cases he
          · cases he
          · rw [hx] at he
            cases he
        · cases hs

end Usp

namespace Controller

variable {cfg : Config} {c : Controller}

/-- With requests for devices there are `fw_thread` goes on. -/
theorem fwThread_ok (hp : Phase c) (hd : ∀ p ∈ c.rQueue ++ c.wQueue, p.deviceId < cfg.dramNum) :
    ∃ r, c.fwThread cfg = .ok r := by
  have hp := hp.1
  unfold fwThread
  split <;> rename_i hf <;> simp only [hf] at hp
  · split <;> exact ⟨_, rfl⟩
  · obtain ⟨p, q, hq, hfront⟩ := front_of_ne_nil hp
    have hp' := hd p (by simp [hq])
    exact ⟨_, by rw [hfront]; simp [bind, Except.bind, sendFw, hp', pure, Except.pure]; rfl⟩
  · obtain ⟨p, q, hq, hfront⟩ := front_of_ne_nil hp
    have hp' := hd p (by simp [hq])
    exact ⟨_, by rw [hfront]; simp [bind, Except.bind, sendFw, hp', pure, Except.pure]; rfl⟩

/-- The last host of an address is the 0 of a map never asked, or a host that sent a request. -/
theorem lastHost_cases (k : Command) (a : Nat) (l : List Event) :
    lastHost k a l = 0 ∨ ∃ p, .call (.ctrlFw (lastHost k a l)) p ∈ l := by
  induction l using List.reverseRecOn with
  | nil => exact .inl rfl
  | append_singleton l e ih =>
      have hold : lastHost k a l = 0 ∨ ∃ p, .call (.ctrlFw (lastHost k a l)) p ∈ l ++ [e] :=
        ih.imp_right fun ⟨p, hp⟩ => ⟨p, List.mem_append_left _ hp⟩
      rw [lastHost_concat]
      split
      · rename_i h p
        split
        · exact .inr ⟨p, by simp⟩
        · exact hold
      · exact hold

end Controller

namespace Sys

variable {cfg : Config} {s t : Sys} {a : Action} {ok : Sys → Action → Prop}

/-! ## Every run -/

/-- Packets received name devices there are. -/
def PacketAddressed (cfg : Config) : Action → Prop
  | .sim _ (.recv packet) => packet.Addressed cfg
  | _ => True

instance (cfg : Config) (a : Action) : Decidable (PacketAddressed cfg a) :=
  match a with
  | .sim _ (.recv packet) => inferInstanceAs (Decidable (packet.Addressed cfg))
  | .sim _ .process => isTrue trivial
  | .sim _ .posedge => isTrue trivial
  | .sim _ .negedge => isTrue trivial
  | .sim _ .peq => isTrue trivial
  | .usp _ _ => isTrue trivial
  | .dsp _ _ => isTrue trivial
  | .ctrl _ => isTrue trivial
  | .mem _ _ => isTrue trivial

/-- What is in hand and what was handled is for devices there are. -/
def Addressed (cfg : Config) (s : Sys) : Prop :=
  (∀ h, (s.sim h).proc.Addressed cfg) ∧ SimWrapper.PacketsAddressed cfg s.log

theorem ReachableBy.addressed (hr : ReachableBy cfg ok s)
    (hok : ∀ s a, ok s a → PacketAddressed cfg a) :
    Addressed cfg s := by
  refine Reach.invariant (P := Addressed cfg)
    (by exact ⟨fun _ => trivial, fun _ _ hq => by simp [init] at hq⟩)
    (fun s a t _ ha hp hs => ?_) hr
  obtain ⟨-, es, u, hu, rfl⟩ := step_eq_ok.mp hs
  have hproc (h : Nat) : ((u.emit es).sim h).proc = (u.sim h).proc := (foldl_hear_control h es _).1
  have hsrc := hu.source
  obtain ⟨hp, hl⟩ := hp
  suffices hnew : (∀ h, (u.sim h).proc.Addressed cfg) ∧ SimWrapper.PacketsAddressed cfg es by
    refine ⟨fun h => hproc h ▸ hnew.1 h, fun k q hq => ?_⟩
    rcases hq with hq | hq <;> rcases List.mem_append.mp hq with hq | hq
    · exact hl k q (.inl (hu.log ▸ hq))
    · exact hnew.2 k q (.inl hq)
    · exact hl k q (.inr (hu.log ▸ hq))
    · exact hnew.2 k q (.inr hq)
  cases hu with
  | @sim h b w es hh hact =>
      have hrecv : ∀ packet, b = .recv packet → packet.Addressed cfg := by
        rintro packet rfl
        exact hok _ _ ha
      obtain ⟨hw, hes⟩ := SimWrapper.act_addressed hrecv (hp h) hact
      refine ⟨fun k => ?_, hes⟩
      by_cases hk : k = h
      · subst hk
        simpa using hw
      · simpa [Function.update_of_ne hk] using hp k
  | _ =>
      refine ⟨hp, ?_⟩
      rintro k q (hq | hq) <;> cases hsrc _ hq

/-- So is every payload created. -/
theorem ReachableBy.create_device (hr : ReachableBy cfg ok s)
    (hok : ∀ s a, ok s a → PacketAddressed cfg a) {h : Nat} {p : Payload}
    (hp : p ∈ sent (.create h) s.log) : p.deviceId < cfg.dramNum := by
  have ha := (hr.addressed hok).2 h
  rcases hr.mem_create hp with ⟨n, hn, i, -, rfl⟩ | ⟨n, hn, i, -, rfl⟩
  · exact ha _ (.inl ((mem_readsOf h).mp (List.getElem_mem hn)))
  · exact ha _ (.inr ((mem_writesOf h).mp (List.getElem_mem hn)))

/-- A request in flight is from a host there is, for a device there is. -/
theorem ReachableBy.inFlight_ends (hr : ReachableBy cfg ok s)
    (hok : ∀ s a, ok s a → PacketAddressed cfg a) {q : Payload} (hq : q ∈ s.inFlight cfg) :
      q.id < cfg.hostNum ∧ q.deviceId < cfg.dramNum := by
  obtain ⟨p, hp, he⟩ := hr.inFlight_create hq
  refine ⟨hr.source_exists _ ((mem_sent _).mp hp), ?_⟩
  rw [← Payload.bare_deviceId q, ← he, Payload.bare_deviceId]
  exact hr.create_device hok hp

/-- An ack at the controller goes to a host there is. -/
theorem ReachableBy.transId_lt (hr : ReachableBy cfg ok s) (h0 : 0 < cfg.hostNum) (k : Command)
    (a : Nat) :
    s.ctrl.transId k a < cfg.hostNum := by
  rw [hr.ctrlTransId k a]
  rcases Controller.lastHost_cases k a s.log with hzero | ⟨p, hp⟩
  · rwa [hzero]
  · exact hr.source_exists _ hp

/-- The ack that completes a round finds the address of its write in `sync_queue`. -/
theorem ReachableBy.syncQueue_ne_nil (hr : ReachableBy cfg ok s)
    (hok : ∀ s a, ok s a → NoClash cfg .write s a) (h0 : 0 < cfg.payloadNum)
    (hN : cfg.payloadNum < 4294967296) {h : Nat} (hack : (s.sim h).wackQueue ≠ [])
    (hnum : u32 ((s.sim h).wackNum + 1) = cfg.payloadNum) : (s.sim h).syncQueue ≠ [] := by
  intro hnil
  have horder := congrArg List.length (hr.simSignalOrder h)
  rw [hnil, List.append_nil, List.length_map] at horder
  obtain ⟨hlt, hround⟩ := hr.simRounds h0 hN h
  have hwrap : u32 ((s.sim h).wackNum + 1) = (s.sim h).wackNum + 1 := Nat.mod_eq_of_lt (by omega)
  -- this ack and those consumed are for payloads of the writes handled
  have hcreated := (hr.dspBw_subperm hok h).length_le
  have hpath := congrArg List.length (hr.ack_path h .write)
  have hacks := (hr.simAcks h).2.length_le
  have hpos := List.length_pos_iff.mpr hack
  rw [List.length_map, List.length_map, (hr.create_length h).2] at hcreated
  simp only [List.length_append] at hpath hacks
  have hmul : cfg.payloadNum * (signalsOf h s.log).length =
      cfg.payloadNum * (writesOf h s.log).length :=
    congrArg _ horder
  omega

/-- In every run without clashing writes and with packets for devices there are, no step meets
    undefined behaviour. -/
theorem ReachableBy.step_error (hr : ReachableBy cfg ok s)
    (hok : ∀ s a, ok s a → NoClash cfg .write s a) (hok' : ∀ s a, ok s a → PacketAddressed cfg a)
    (h2 : 2 ≤ cfg.payloadNum) (hN : cfg.payloadNum < 4294967296) {e : Fault}
    (hs : step cfg s a = .error e) : e = .notEnabled := by
  rcases step_eq_error hs with he | he
  · exact he
  · cases a with
    | sim h b =>
        rcases sim_act_error he with he' | rfl
        · exact he'
        · obtain ⟨hack, hnum, hnil⟩ := SimWrapper.act_emptySync he
          exact absurd hnil (hr.syncQueue_ne_nil hok (by omega) hN hack hnum)
    | usp h b =>
        cases b with
        | fw =>
            have hn : cfg.payloadNum / rMsg ≠ 0 := Nat.ne_of_gt (Nat.div_pos h2 (by decide))
            obtain ⟨r, hr'⟩ := Usp.fwThread_ok (h := h) hn (hr.uspPhase h)
            simp only [Usp.act, hr'] at he
            cases he
        | bw => cases he
    | dsp h b => exact he.elim
    | ctrl b =>
        cases b with
        | fw =>
            obtain ⟨r, hr'⟩ := Controller.fwThread_ok hr.ctrlPhase fun p hp =>
              (hr.inFlight_ends hok' (q := p) (by
                rcases List.mem_append.mp hp with hp | hp <;> simp [inFlight, hp])).2
            simp only [Controller.act, hr'] at he
            cases he
        | bw =>
            have hhost {k : Command} {p : Payload} (hp : p ∈ s.inFlight cfg) :
                s.ctrl.transId k p.address < cfg.hostNum :=
              hr.transId_lt (Nat.zero_lt_of_lt (hr.inFlight_ends hok' hp).1) k p.address
            obtain ⟨r, hr'⟩ := Controller.bwThread_ok hr.ctrlPhase.2
              (fun p hp => hhost (k := .read) (by simp [inFlight, hp]))
              fun p hp => hhost (k := .write) (by simp [inFlight, hp])
            simp only [Controller.act, hr'] at he
            cases he
    | mem d b => exact mem_act_error he

/-- The steps of a run in which writes do not clash and packets name devices there are. -/
def Sane (cfg : Config) (s : Sys) (a : Action) : Prop :=
  NoClash cfg .write s a ∧ PacketAddressed cfg a

instance (cfg : Config) (s : Sys) (a : Action) : Decidable (Sane cfg s a) :=
  inferInstanceAs (Decidable (_ ∧ _))

theorem no_fault (hr : ReachableBy cfg (Sane cfg) s) (h2 : 2 ≤ cfg.payloadNum)
    (hN : cfg.payloadNum < 4294967296) (a : Action) :
    (∃ t, step cfg s a = .ok t) ∨ step cfg s a = .error .notEnabled := by
  cases hs : step cfg s a with
  | ok t => exact .inl ⟨t, rfl⟩
  | error e =>
      have he := ReachableBy.step_error hr (fun _ _ ha => ha.1) (fun _ _ ha => ha.2) h2 hN hs
      exact .inr (congrArg _ he)

/-- Two hosts write one address; the second write waits until the first is answered. -/
def oneAddress (n : Nat) : Sys :=
  runSkip (step (smallConfig 2 1 4)) (Sane (smallConfig 2 1 4)) (init (smallConfig 2 1 4))
    (.sim 0 (.recv (.fill .write 8 7)) :: .sim 1 (.recv (.fill .write 8 9)) ::
      rounds (smallConfig 2 1 4) n)

theorem no_fault_of_oneAddress :
    ((∃ t, step (smallConfig 2 1 4) (oneAddress 17) (.sim 0 .negedge) = .ok t) ∨
      step (smallConfig 2 1 4) (oneAddress 17) (.sim 0 .negedge) = .error .notEnabled) ∧
    ((oneAddress 17).sim 0).wackQueue.length = 1 ∧ ((oneAddress 17).sim 0).wackNum = 3 :=
  ⟨no_fault (reach_runSkip _ _) (by decide) (by decide) _, by decide +kernel⟩

end Sys

end TSim4CXL
