/-
  The main process of a SIMWrapper: the read gate and the end of a host.

  `Turn` is what one step can do to the control state of a SIMWrapper, with the events that
  tell of it; `act_turn` takes the step functions apart for it once. A host is in the
  window of address `a` between a successful `check_signal(a)` and its `free(a)`.

  Proved:
  * `gate_closed`: a terminated host is between two iterations or has stopped and took itself
    off `active_cores` once; successful checks are completed waits and the window
  * `passed_closed`: a read packet is handled only after a successful check of its address
  * `Turn.create_nil`, `Turn.stop`, `Turn.pass_inv`: when payloads, stops and passes happen
-/
import TSim4CXL.Trace.Top

namespace TSim4CXL

open Transition

/-! ## Counting events -/

namespace Event

/-- A successful `check_signal(a)` of host `h`. -/
def isPass (h a : Nat) : Event → Bool
  | .pass k b => k = h ∧ b = a
  | _ => false

/-- A completed `handle_wait_packet(a)` of host `h`. -/
def isFree (h a : Nat) : Event → Bool
  | .free k b => k = h ∧ b = a
  | _ => false

/-- `active_cores--` by host `h`. -/
def isDone (h : Nat) : Event → Bool
  | .coreDone k => k = h
  | _ => false

/-- Events of the clock edges. -/
def Data (h : Nat) : Event → Prop
  | .call c _ => c = .uspFw h ∨ c = .endResp h
  | .respond k _ => k = h
  | .signal k _ => k = h
  | _ => False

/-- Events of the packet handlers. -/
def Handler (h : Nat) : Event → Prop
  | .call c _ => c = .create h
  | .readPacket k _ => k = h
  | .writePacket k _ => k = h
  | _ => False

end Event

namespace SimWrapper

variable {cfg : Config} {h : Nat} {env : SimEnv}

/-! ## Turns -/

/-- The address whose flag the host has found set and not yet cleared. -/
def window (w : SimWrapper) : Option Nat :=
  match w.proc with
  | .gate packet true => some packet.address
  | _ => none

/-- The address a step is about to check the flag of. -/
def checks (w : SimWrapper) : Act → Option Nat
  | .process =>
      match w.proc with
      | .gate packet false => some packet.address
      | .delta packet => if packet.type = .read then some packet.address else none
      | _ => none
  | .recv packet => if packet.type = .read ∧ packet.delta = 0 then some packet.address else none
  | _ => none

/-- A terminated host is between two iterations or has stopped. -/
def Ended (w : SimWrapper) : Prop :=
  (w.terminated = true → w.status = .terminated) ∧
    (w.status = .terminated → w.proc = .loop ∨ w.proc = .done)

/-- The main process stays where it is. -/
def Frame (h : Nat) (w : SimWrapper) (es : List Event) (w' : SimWrapper) : Prop :=
  w'.proc = w.proc ∧ w'.status = w.status ∧ w'.terminated = w.terminated ∧ ∀ e ∈ es, e.Data h

/-- What one step does to the control state of SIMWrapper `h`. -/
inductive Turn (h : Nat) (env : SimEnv) (w : SimWrapper) (a : Act) : List Event → SimWrapper → Prop
  | data {es : List Event} {w' : SimWrapper} (hf : Frame h w es w') : Turn h env w a es w'
  /-- from one `wait` to another, outside the window -/
  | walk {es : List Event} {w' : SimWrapper} (hst : w.status = .running)
      (hst' : w'.status = .running) (ht : w'.terminated = w.terminated) (hw : w.window = none)
      (hw' : w'.window = none) (hes : ∀ e ∈ es, e.Handler h) (hcpu : ∀ q, w'.proc ≠ .readCpu q)
      (hread : ∀ k q, .readPacket k q ∈ es → w.proc = .readCpu q) : Turn h env w a es w'
  | pass {w' : SimWrapper} (packet : Packet) (hflag : env.sync.checkSignal packet.address = true)
      (hc : w.checks a = some packet.address) (hst : w'.status = w.status)
      (hrun : w.status = .running) (ht : w'.terminated = w.terminated) (hw : w.window = none)
      (hp : w'.proc = .gate packet true) : Turn h env w a [.pass h packet.address] w'
  | free (packet : Packet) (hrun : w.status = .running) (hp : w.proc = .gate packet true) :
      Turn h env w a [.free h packet.address] { w with proc := .readCpu packet }
  /-- the end of an iteration with status TERMINATED -/
  | finish (v : SimWrapper) (hw : w.window = none) (hst : v.status = .terminated)
      (hp : v.proc = .loop ∨ v.proc = .done) (ht : w.terminated = true → v.terminated = true) :
      Turn h env w a ((if v.terminated = w.terminated then [] else [.coreDone h]) ++
        if env.activeDram = 0 then [.stop h] else []) v

/-- A step that returns the pair `r` is a turn when `r` is. -/
theorem Turn.of_ok {w w' : SimWrapper} {a : Act} {es : List Event} {r : SimWrapper × List Event}
    (hs : (.ok r : Except Fault (SimWrapper × List Event)) = .ok (w', es))
    (ht : Turn h env w a r.2 r.1) : Turn h env w a es w' := by
  cases hs
  exact ht

/-! ### Clock edges -/

theorem Frame.refl (w : SimWrapper) : Frame h w [] w := ⟨rfl, rfl, rfl, by simp⟩

theorem Frame.trans {w w' w'' : SimWrapper} {es es' : List Event} (h1 : Frame h w es w')
    (h2 : Frame h w' es' w'') : Frame h w (es ++ es') w'' := by
  obtain ⟨a1, b1, c1, d1⟩ := h1
  obtain ⟨a2, b2, c2, d2⟩ := h2
  refine ⟨a2.trans a1, b2.trans b1, c2.trans c1, fun e he => ?_⟩
  rcases List.mem_append.mp he with he | he
  · exact d1 e he
  · exact d2 e he

theorem forwardRead_frame (w : SimWrapper) :
    Frame h w (w.forwardRead h).2 (w.forwardRead h).1 := by
  unfold forwardRead
  split
  · exact .refl w
  · exact ⟨rfl, rfl, rfl, by simp [Event.Data]⟩

theorem forwardWrite_frame (w : SimWrapper) :
    Frame h w (w.forwardWrite h).2 (w.forwardWrite h).1 := by
  unfold forwardWrite
  split
  · exact .refl w
  · exact ⟨rfl, rfl, rfl, by simp [Event.Data]⟩

theorem sendRack_frame (w : SimWrapper) :
    Frame h w (w.sendRack cfg h env).2 (w.sendRack cfg h env).1 := by
  unfold sendRack
  split
  · exact .refl w
  · dsimp only
    split <;> exact ⟨rfl, rfl, rfl, by simp [Event.Data]⟩

theorem sendWack_frame {w w' : SimWrapper} {es : List Event}
    (hs : w.sendWack cfg h = .ok (w', es)) : Frame h w es w' := by
  unfold sendWack at hs
  split at hs
  · cases hs
    exact .refl w
  · dsimp only at hs
    split at hs
    · split at hs <;> cases hs
      exact ⟨rfl, rfl, rfl, by simp [Event.Data]⟩
    · cases hs
      exact ⟨rfl, rfl, rfl, by simp [Event.Data]⟩

theorem clockNegedge_frame {w w' : SimWrapper} {es : List Event}
    (hs : w.clockNegedge cfg h env = .ok (w', es)) : Frame h w es w' := by
  unfold clockNegedge at hs
  dsimp only at hs
  split at hs
  · cases hs
  · rename_i hw
    cases hs
    exact (((forwardRead_frame w).trans (forwardWrite_frame _)).trans (sendRack_frame _)).trans
      (sendWack_frame hw)

theorem peqCb_frame {w w' : SimWrapper} (hs : w.peqCb = .ok w') : Frame h w [] w' := by
  unfold peqCb at hs
  split at hs
  · cases hs
  · split at hs <;> cases hs <;> exact ⟨rfl, rfl, rfl, by simp⟩

/-! ### The main process -/

theorem pollGate_turn {w : SimWrapper} {a : Act} {packet : Packet} {v : SimWrapper}
    (hv : w = { v with received := w.received, hostBlocked := w.hostBlocked })
    (hrun : v.status = .running) (hw : v.window = none) (hc : v.checks a = some packet.address) :
    Turn h env v a (pollGate h env w packet).2 (pollGate h env w packet).1 := by
  have hst : w.status = v.status := by rw [hv]
  have ht : w.terminated = v.terminated := by rw [hv]
  unfold pollGate
  by_cases hflag : env.sync.checkSignal packet.address = true
  · rw [hflag]
    exact .pass packet hflag hc hst hrun ht hw rfl
  · rw [Bool.not_eq_true] at hflag
    rw [hflag]
    exact .walk hrun (hst.trans hrun) ht hw rfl (by simp) (by simp) (by simp)

theorem endIteration_turn (v w : SimWrapper) {a : Act} (hw : v.window = none)
    (hst : w.status = .terminated) (ht : v.terminated = true → w.terminated = true) :
    Turn h env v a ((if w.terminated = v.terminated then [] else [.coreDone h]) ++
      (endIteration h env w).2) (endIteration h env w).1 := by
  unfold endIteration
  by_cases hd : env.activeDram = 0
  · have hturn : Turn h env v a _ _ := .finish { w with proc := .done } hw hst (.inr rfl) ht
    simpa [hd] using hturn
  · have hturn : Turn h env v a _ _ := .finish { w with proc := .loop } hw hst (.inl rfl) ht
    simpa [hd] using hturn

/-- `handle_packet`, right after a poll or after `wait(delta)`. -/
theorem handlePacket_turn {v w : SimWrapper} {a : Act} {packet : Packet}
    (hv : w = { v with received := w.received, hostBlocked := w.hostBlocked })
    (hrun : v.status = .running) (hw : v.window = none)
    (hc : packet.type = .read → v.checks a = some packet.address) :
    Turn h env v a (handlePacket h env w packet).2 (handlePacket h env w packet).1 := by
  have hst : w.status = v.status := by rw [hv]
  have ht : w.terminated = v.terminated := by rw [hv]
  unfold handlePacket
  split
  · rename_i htype
    exact pollGate_turn hv hrun hw (hc htype)
  · exact .walk hrun (hst.trans hrun) ht hw rfl (by simp) (by simp) (by simp)
  · have hturn : Turn h env v a _ _ :=
      endIteration_turn v { w with status := .terminated } hw rfl (by simp [ht])
    simpa [ht] using hturn

theorem recv_turn {w w' : SimWrapper} {packet : Packet} {es : List Event}
    (hs : w.recv h env packet = .ok (w', es)) : Turn h env w (.recv packet) es w' := by
  unfold recv at hs
  split at hs
  · rename_i hg
    obtain ⟨hp, hrun, -⟩ := hg
    have hw : w.window = none := by simp [window, hp]
    dsimp only at hs
    split at hs
    · exact .of_ok hs (.walk hrun hrun rfl hw rfl (by simp) (by simp) (by simp))
    · rename_i hd
      refine .of_ok hs (handlePacket_turn rfl hrun hw fun ht => ?_)
      simp only [ne_eq, Decidable.not_not] at hd
      simp [checks, ht, hd]
  · cases hs

theorem process_turn {w w' : SimWrapper} {es : List Event} (he : Ended w)
    (hs : w.process cfg h env = .ok (w', es)) : Turn h env w .process es w' := by
  have hrun (hp : ¬ (w.proc = .loop ∨ w.proc = .done)) : w.status = .running := by
    cases hst : w.status with
    | running => rfl
    | terminated => exact absurd (he.2 hst) hp
  unfold process at hs
  split at hs <;> rename_i hp
  · split at hs <;> rename_i hst
    · exact .of_ok hs (.data (.refl w))
    · have hturn : Turn h env w .process _ _ :=
        endIteration_turn w { w with terminated := true } (by simp [window, hp]) hst (fun _ => rfl)
      have hdone : (if true = w.terminated then [] else [Event.coreDone h]) =
          if w.terminated then [] else [.coreDone h] := by cases w.terminated <;> rfl
      rw [show ({ w with terminated := true } : SimWrapper).terminated = true from rfl, hdone]
        at hturn
      exact .of_ok hs hturn
  · refine .of_ok hs (handlePacket_turn rfl (hrun (by simp [hp])) (by simp [window, hp]) fun ht =>
      ?_)
    simp [checks, hp, ht]
  · exact .of_ok hs
      (pollGate_turn rfl (hrun (by simp [hp])) (by simp [window, hp]) (by simp [checks, hp]))
  · exact .of_ok hs (.free _ (hrun (by simp [hp])) hp)
  · have hst := hrun (by simp [hp])
    refine .of_ok hs
      (.walk hst hst rfl (by simp [window, hp]) rfl ?_ (by simp [handleReadPacket]) ?_)
    · intro e he
      rcases List.mem_cons.mp he with rfl | he
      · rfl
      · obtain ⟨p, -, rfl⟩ := List.mem_map.mp he
        rfl
    · intro k q hq
      simp only [handleReadPacket, List.mem_cons, Event.readPacket.injEq, List.mem_map,
        reduceCtorEq, and_false, exists_false, or_false] at hq
      rw [hp, hq.2]
  · have hst := hrun (by simp [hp])
    refine .of_ok hs (.walk hst hst rfl (by simp [window, hp]) rfl ?_ (by simp [handleWritePacket])
      (by simp [handleWritePacket]))
    intro e he
    rcases List.mem_cons.mp he with rfl | he
    · rfl
    · obtain ⟨p, -, rfl⟩ := List.mem_map.mp he
      rfl
  · cases hs

/-- Every step of a SIMWrapper is a turn. -/
theorem act_turn {w w' : SimWrapper} {a : Act} {es : List Event} (he : Ended w)
    (hs : w.act cfg h env a = .ok (w', es)) : Turn h env w a es w' := by
  cases a with
  | recv packet => exact recv_turn hs
  | process => exact process_turn he hs
  | posedge => exact .of_ok hs (.data ⟨rfl, rfl, rfl, by simp⟩)
  | negedge => exact .data (clockNegedge_frame hs)
  | peq =>
      simp only [act] at hs
      split at hs
      · cases hs
      · rename_i hw
        cases hs
        exact .data (peqCb_frame hw)

/-! ### What a turn emits -/

theorem Turn.terminated_mono {w w' : SimWrapper} {a : Act} {es : List Event}
    (ht : Turn h env w a es w') (hw : w.terminated = true) : w'.terminated = true := by
  cases ht with
  | data hf => exact hf.2.2.1.trans hw
  | walk _ _ he => exact he.trans hw
  | pass _ _ _ _ _ he => exact he.trans hw
  | free => exact hw
  | finish _ _ _ _ he => exact he hw

theorem Turn.ended {w w' : SimWrapper} {a : Act} {es : List Event} (ht : Turn h env w a es w')
    (he : Ended w) : Ended w' := by
  cases ht with
  | data hf =>
      obtain ⟨hp, hst, htm, -⟩ := hf
      exact ⟨by rw [htm, hst]; exact he.1, by rw [hst, hp]; exact he.2⟩
  | walk hst hst' htm =>
      exact ⟨fun h' => absurd (he.1 (htm ▸ h')) (by simp [hst]), fun h' => by simp [hst'] at h'⟩
  | pass _ _ _ hst hrun htm =>
      exact ⟨fun h' => absurd (he.1 (htm ▸ h')) (by simp [hrun]),
        fun h' => by simp [hst, hrun] at h'⟩
  | free _ hrun =>
      exact ⟨fun h' => absurd (he.1 h') (by simp [hrun]), fun h' => absurd h' (by simp [hrun])⟩
  | finish _ _ hst hp => exact ⟨fun _ => hst, fun _ => hp⟩

/-- A host that ended creates nothing any more. -/
theorem Turn.create_nil {w w' : SimWrapper} {a : Act} {es : List Event}
    (ht : Turn h env w a es w') (hst : w.status = .terminated) : sent (.create h) es = [] := by
  refine callsOn_eq_nil _ fun c p hp => ?_
  rw [decide_eq_false_iff_not]
  rintro rfl
  cases ht with
  | data hf => simpa [Event.Data] using hf.2.2.2 _ hp
  | walk hrun => simp [hst] at hrun
  | pass => simp at hp
  | free => simp at hp
  | finish =>
      rcases List.mem_append.mp hp with hp | hp <;> split at hp <;> simp at hp

/-- A host stops the simulation only when `active_dram` is 0. -/
theorem Turn.stop {w w' : SimWrapper} {a : Act} {es : List Event} {k : Nat}
    (ht : Turn h env w a es w') (hk : .stop k ∈ es) : env.activeDram = 0 := by
  cases ht with
  | data hf => exact (hf.2.2.2 _ hk).elim
  | walk _ _ _ _ _ hes => exact (hes _ hk).elim
  | pass => simp at hk
  | free => simp at hk
  | finish =>
      rcases List.mem_append.mp hk with hk | hk
      · split at hk <;> simp at hk
      · split at hk
        · assumption
        · simp at hk

/-- A successful check happens where the step was about to check, with the flag set. -/
theorem Turn.pass_inv {w w' : SimWrapper} {a : Act} {es : List Event} {k b : Nat}
    (ht : Turn h env w a es w') (hk : .pass k b ∈ es) :
    k = h ∧ w.checks a = some b ∧ env.sync.checkSignal b = true := by
  cases ht with
  | data hf => exact (hf.2.2.2 _ hk).elim
  | walk _ _ _ _ _ hes => exact (hes _ hk).elim
  | pass _ hflag hc =>
      simp only [List.mem_singleton, Event.pass.injEq] at hk
      exact ⟨hk.1, hk.2 ▸ hc, hk.2 ▸ hflag⟩
  | free => simp at hk
  | finish =>
      rcases List.mem_append.mp hk with hk | hk <;> split at hk <;> simp at hk

/-! ## Whole runs -/

/-- A SIMWrapper as a component, with whole steps for moves. -/
def stepComponent (cfg : Config) (h : Nat) : Component SimWrapper Event where
  hear := hear h
  foreign e := e.source ≠ .sim h
  move w es w' := ∃ env a, w.act cfg h env a = .ok (w', es)

/-- A terminated host has ended, once; its successful checks are its completed waits and the one
    it is in the window of. -/
def Gate (h : Nat) (w : SimWrapper) (l : List Event) : Prop :=
  Ended w ∧ l.countP (Event.isDone h) = (if w.terminated then 1 else 0) ∧
    ∀ a, l.countP (Event.isPass h a) =
      l.countP (Event.isFree h a) + if w.window = some a then 1 else 0

theorem countP_eq_zero_of {p : Event → Bool} {es : List Event} (h : ∀ e ∈ es, p e = false) :
    es.countP p = 0 := by
  rw [List.countP_eq_zero]
  intro e he
  simp [h e he]

theorem countP_gate_foreign {e : Event} (he : e.source ≠ .sim h) (a : Nat) :
    Event.isDone h e = false ∧ Event.isPass h a e = false ∧ Event.isFree h a e = false := by
  cases e <;> simp_all [Event.source, Event.isDone, Event.isPass, Event.isFree]

theorem countP_gate_data {e : Event} (he : e.Data h) (a : Nat) :
    Event.isDone h e = false ∧ Event.isPass h a e = false ∧ Event.isFree h a e = false := by
  cases e <;> simp_all [Event.Data, Event.isDone, Event.isPass, Event.isFree]

theorem countP_gate_handler {e : Event} (he : e.Handler h) (a : Nat) :
    Event.isDone h e = false ∧ Event.isPass h a e = false ∧ Event.isFree h a e = false := by
  cases e <;> simp_all [Event.Handler, Event.isDone, Event.isPass, Event.isFree]

theorem gate_append_of_none {w w' : SimWrapper} {l es : List Event} (hg : Gate h w l)
    (hw : Ended w') (ht : w'.terminated = w.terminated) (hwin : w'.window = w.window)
    (hes : ∀ a, ∀ e ∈ es, Event.isDone h e = false ∧ Event.isPass h a e = false ∧
      Event.isFree h a e = false) : Gate h w' (l ++ es) := by
  obtain ⟨-, hd, hp⟩ := hg
  refine ⟨hw, ?_, fun a => ?_⟩
  · rw [List.countP_append, hd, countP_eq_zero_of fun e he => (hes 0 e he).1, ht, Nat.add_zero]
  · rw [List.countP_append, List.countP_append, hp a,
      countP_eq_zero_of fun e he => (hes a e he).2.1,
      countP_eq_zero_of fun e he => (hes a e he).2.2, hwin, Nat.add_zero, Nat.add_zero]

theorem window_hear (w : SimWrapper) (e : Event) : (w.hear h e).window = w.window ∧
    (w.hear h e).terminated = w.terminated ∧ (w.hear h e).status = w.status ∧
    (w.hear h e).proc = w.proc := by
  rcases hear_cases (h := h) w e with ⟨hw, -⟩ | ⟨p, -, hw⟩ <;> rw [hw] <;>
    exact ⟨rfl, rfl, rfl, rfl⟩

theorem Turn.gate {w w' : SimWrapper} {a : Act} {l es : List Event} (ht : Turn h env w a es w')
    (hg : Gate h w l) : Gate h w' (l ++ es) := by
  have hend := ht.ended hg.1
  cases ht with
  | data hf =>
      refine gate_append_of_none hg hend hf.2.2.1 ?_ fun a e he =>
        countP_gate_data (hf.2.2.2 e he) a
      simp [window, hf.1]
  | walk _ _ htm hw hw' hes =>
      exact gate_append_of_none hg hend htm (hw'.trans hw.symm)
        fun a e he => countP_gate_handler (hes e he) a
  | pass packet _ _ _ _ htm hw hp =>
      obtain ⟨-, hd, hpass⟩ := hg
      refine ⟨hend, by simpa [Event.isDone, htm] using hd, fun a => ?_⟩
      have hwin : w'.window = some packet.address := by simp [window, hp]
      have := hpass a
      by_cases ha : packet.address = a
      · simp_all [Event.isPass, Event.isFree]
      · simp_all [Event.isPass, Event.isFree]
  | free packet _ hp =>
      obtain ⟨-, hd, hpass⟩ := hg
      refine ⟨hend, by simpa [Event.isDone] using hd, fun a => ?_⟩
      have hwin : w.window = some packet.address := by simp [window, hp]
      have := hpass a
      by_cases ha : packet.address = a
      · simp_all [Event.isPass, Event.isFree, window]
      · simp_all [Event.isPass, Event.isFree, window]
  | finish _ hw hst hp htm =>
      obtain ⟨-, hd, hpass⟩ := hg
      have hw' : w'.window = none := by
        rcases hp with hp | hp <;> simp [window, hp]
      refine ⟨hend, ?_, fun a => ?_⟩
      · rw [List.countP_append, hd, List.countP_append]
        cases hb : w.terminated <;> cases hb' : w'.terminated <;>
          by_cases h0 : env.activeDram = 0 <;> simp_all [Event.isDone]
      · rw [List.countP_append, List.countP_append, List.countP_append, List.countP_append, hpass a,
          hw, hw']
        by_cases hb : w'.terminated = w.terminated <;> by_cases h0 : env.activeDram = 0 <;>
          simp [hb, h0, Event.isPass, Event.isFree]

theorem gate_init (h : Nat) : Gate h init [] :=
  ⟨⟨by simp [init], by simp [init]⟩, rfl, fun _ => rfl⟩

theorem gate_closed : (stepComponent cfg h).Closed (Gate h) where
  hear w l e he hg := by
    obtain ⟨h1, h2, h3, h4⟩ := window_hear (h := h) w e
    refine gate_append_of_none hg ?_ h2 h1 fun a e' he' => ?_
    · show Ended (w.hear h e)
      unfold Ended
      rw [h2, h3, h4]
      exact hg.1
    · cases List.mem_singleton.mp he'
      exact countP_gate_foreign he a
  move w l es w' hm hg := by
    obtain ⟨env, a, ha⟩ := hm
    exact (act_turn hg.1 ha).gate hg

/-- A host that is past the gate of a read packet has found its flag set, and so has the host of
    every read packet handled. -/
def Passed (h : Nat) (w : SimWrapper) (l : List Event) : Prop :=
  (∀ q, w.proc = .gate q true ∨ w.proc = .readCpu q → .pass h q.address ∈ l) ∧
    ∀ q, .readPacket h q ∈ l → .pass h q.address ∈ l

theorem Passed.turn {w w' : SimWrapper} {a : Act} {l es : List Event} (hp : Passed h w l)
    (ht : Turn h env w a es w') : Passed h w' (l ++ es) := by
  obtain ⟨hproc, hread⟩ := hp
  -- a turn need only account for the state it ends in and for its own read packets
  suffices hnew : (∀ q, w'.proc = .gate q true ∨ w'.proc = .readCpu q →
      .pass h q.address ∈ l ++ es) ∧
      ∀ q, .readPacket h q ∈ es → .pass h q.address ∈ l by
    refine ⟨hnew.1, fun q hq => List.mem_append_left _ ?_⟩
    rcases List.mem_append.mp hq with hq | hq
    · exact hread q hq
    · exact hnew.2 q hq
  cases ht with
  | data hf =>
      refine ⟨fun q hq => List.mem_append_left _ (hproc q (hf.1 ▸ hq)), fun q hq => ?_⟩
      exact (hf.2.2.2 _ hq).elim
  | walk _ _ _ _ hw' _ hcpu hcall =>
      refine ⟨fun q hq => ?_, fun q hq => hproc q (.inr (hcall h q hq))⟩
      rcases hq with hq | hq
      · simp [window, hq] at hw'
      · exact absurd hq (hcpu q)
  | pass packet _ _ _ _ _ _ hgate =>
      refine ⟨fun q hq => ?_, by simp⟩
      simp only [hgate, ProcState.gate.injEq, and_true, reduceCtorEq, or_false] at hq
      simp [hq]
  | free packet _ hgate =>
      refine ⟨fun q hq => List.mem_append_left _ ?_, by simp⟩
      simp only [ProcState.readCpu.injEq, reduceCtorEq, false_or] at hq
      exact hq ▸ hproc packet (.inl hgate)
  | finish _ _ _ hend =>
      refine ⟨fun q hq => ?_, fun q hq => ?_⟩
      · rcases hend with hend | hend <;> simp [hend] at hq
      · rcases List.mem_append.mp hq with hq | hq <;> split at hq <;> simp at hq

theorem passed_init (h : Nat) : Passed h init [] := ⟨by simp [init], by simp⟩

theorem passed_closed : (stepComponent cfg h).Closed fun w l => Gate h w l ∧ Passed h w l := by
  refine gate_closed.and_of ?_ ?_
  · intro w l e he _ hp
    have hproc : (w.hear h e).proc = w.proc := (window_hear (h := h) w e).2.2.2
    refine ⟨fun q hq => List.mem_append_left _ (hp.1 q (hproc ▸ hq)), fun q hq => ?_⟩
    rcases List.mem_append.mp hq with hq | hq
    · exact List.mem_append_left _ (hp.2 q hq)
    · exact absurd (congrArg Event.source (List.mem_singleton.mp hq).symm) he
  · rintro w l es w' ⟨env, a, ha⟩ hg hp
    exact hp.turn (act_turn hg.1 ha)

end SimWrapper

namespace Sys

variable {cfg : Config} {s s' : Sys} {ok : Sys → Action → Prop}

/-- SIMWrapper `h` in the simulator, by whole steps. -/
def simStepView (cfg : Config) (h : Nat) :
    View (SimWrapper.stepComponent cfg h) (step cfg) Sys.log where
  comp s := s.sim h
  covers {s a s'} hs := by
    obtain ⟨-, es, t, ht, rfl⟩ := step_eq_ok.mp hs
    refine ⟨es, congrArg (· ++ es) ht.log, ?_⟩
    have hsrc := ht.source
    by_cases ho : a.owner = .sim h
    · left
      cases ht with
      | @sim _ b _ _ hh ha =>
          cases ho
          have hw := foldl_hear_id _ (fun c e he => sim_hear_own (hsrc e he) c)
          refine .single ⟨s.env, b, ?_⟩
          simpa [emit, hw] using ha
      | _ => cases ho
    · refine .inr ⟨owner_ne hsrc ho, ?_⟩
      simp [emit, SimWrapper.stepComponent, ht.sim_other ho]

theorem ReachableBy.gate (hr : ReachableBy cfg ok s) (h : Nat) :
    SimWrapper.Gate h (s.sim h) s.log :=
  (simStepView cfg h).always SimWrapper.gate_closed
    (by exact SimWrapper.gate_init h) hr

theorem ReachableBy.passed (hr : ReachableBy cfg ok s) (h : Nat) :
    SimWrapper.Passed h (s.sim h) s.log :=
  ((simStepView cfg h).always SimWrapper.passed_closed
    (by exact ⟨SimWrapper.gate_init h, SimWrapper.passed_init h⟩) hr).2

/-- A step leaves the control state of every SIMWrapper alone but that of the one that moves. -/
theorem sim_frame (hs : step cfg s a = .ok s') {h : Nat} (ho : a.owner ≠ .sim h) :
    (s'.sim h).window = (s.sim h).window ∧ (s'.sim h).terminated = (s.sim h).terminated := by
  obtain ⟨-, es, t, ht, rfl⟩ := step_eq_ok.mp hs
  have hfold : ∀ (es : List Event) (w : SimWrapper), (es.foldl (SimWrapper.hear h) w).window =
      w.window ∧
      (es.foldl (SimWrapper.hear h) w).terminated = w.terminated := by
    intro es
    induction es with
    | nil => exact fun w => ⟨rfl, rfl⟩
    | cons e es ih =>
        intro w
        obtain ⟨h1, h2, -⟩ := SimWrapper.window_hear (h := h) w e
        exact ⟨(ih _).1.trans h1, (ih _).2.trans h2⟩
  simpa only [emit, ht.sim_other ho] using hfold es (t.sim h)

/-- The step of a SIMWrapper, as a turn. -/
theorem ReachableBy.sim_turn (hr : ReachableBy cfg ok s) {h : Nat} {b : SimWrapper.Act}
    {es : List Event} {t : Sys} (ht : Stretch cfg s (.sim h b) es t) :
    SimWrapper.Turn h s.env (s.sim h) b es ((t.emit es).sim h) := by
  have hsrc := ht.source
  cases ht with
  | sim hh ha =>
      have hw := foldl_hear_id _ (fun c e he => sim_hear_own (hsrc e he) c)
      have := SimWrapper.act_turn (hr.gate h).1 ha
      simpa [emit, hw] using this

end Sys

end TSim4CXL
