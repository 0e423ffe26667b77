/-
  What the controller can do, and what always holds between it and the log.

  A suspended thread of the controller holds no payload: it takes one from a queue after
  its `wait`. So a `send` move takes the first payload of a queue and hands it on at once.

  Proved:
  * `ctrlQueues_closed`: per command, requests received are those handed to devices and then
    the queue, and the same for acks
  * `ctrlPhase_closed`: the queue a suspended thread is going to read is not empty, so that no
    `front` of the two threads meets an empty queue (`fwThread_error`, `bwThread_error`)
  * `ctrlSockets_closed`: payloads go to the socket of their own device
  * `ctrlTransId_closed`: the maps hold the host of the last request with that address
-/
import TSim4CXL.Model.Controller
import Mathlib.Data.List.Induction

namespace TSim4CXL

open Transition

/-! ## Channels of the controller -/

def Chan.isCtrlFw : Chan → Bool
  | .ctrlFw _ => true
  | _ => false

def Chan.isCtrlBw : Chan → Bool
  | .ctrlBw _ => true
  | _ => false

def Chan.isMemFw : Chan → Bool
  | .memFw _ => true
  | _ => false

def Chan.isDspBw : Chan → Bool
  | .dspBw _ => true
  | _ => false

namespace Controller

variable {cfg : Config}

/-! ## Phases -/

/-- The queue `bw_thread` reads after the `wait` it is suspended in is not empty. -/
def BwPhase (c : Controller) : Prop :=
  match c.bw with
  | .drsFlit _ => c.rackQueue ≠ []
  | .mixWait => c.rackQueue ≠ []
  | .mixRead => c.rackQueue ≠ []
  | .ndrFlit _ => c.wackQueue ≠ []
  | _ => True

/-- The queue each thread reads after the `wait` it is suspended in is not empty. -/
def Phase (c : Controller) : Prop :=
  (match c.fw with
    | .idle => True
    | .read _ => c.rQueue ≠ []
    | .write _ => c.wQueue ≠ []) ∧ BwPhase c

/-! ## Moves -/

inductive Move (cfg : Config) : Controller → List Event → Controller → Prop
  /-- a thread moves on to another `wait` -/
  | control (c : Controller) (fw : CtrlFw) (bw : CtrlBw)
      (hp : Phase c → Phase { c with fw := fw, bw := bw }) :
      Move cfg c [] { c with fw := fw, bw := bw }
  | sendRead (c : Controller) {p : Payload} {q : List Payload} (hq : c.rQueue = p :: q)
      (hd : p.deviceId < cfg.dramNum) :
      Move cfg c [.call (.memFw p.deviceId) p]
        { c with rQueue := q, rNum := u32 (c.rNum + 1), fw := .idle }
  | sendWrite (c : Controller) {p : Payload} {q : List Payload} (hq : c.wQueue = p :: q)
      (hd : p.deviceId < cfg.dramNum) :
      Move cfg c [.call (.memFw p.deviceId) p]
        { c with wQueue := q, wNum := u32 (c.wNum + 1), fw := .idle }
  | ackRead (c : Controller) {p : Payload} {q : List Payload} (hq : c.rackQueue = p :: q)
      (hh : c.rTransId p.address < cfg.hostNum) :
      Move cfg c [.call (.dspBw (c.rTransId p.address)) p] { c with rackQueue := q, bw := .idle }
  /-- a write ack; the mixed branch goes on in the same stretch -/
  | ackWrite (c : Controller) {p : Payload} {q : List Payload} (bw : CtrlBw)
      (hb : bw = .idle ∨ bw = .mixWait ∧ c.bw = .mixWait) (hq : c.wackQueue = p :: q)
      (hh : c.wTransId p.address < cfg.hostNum) :
      Move cfg c [.call (.dspBw (c.wTransId p.address)) p] { c with wackQueue := q, bw := bw }

/-- The controller as a component. -/
def component (cfg : Config) : Component Controller Event where
  hear := hear
  foreign e := e.source ≠ .ctrl
  move := Move cfg

theorem Move.source {c c' : Controller} {es : List Event} (hm : Move cfg c es c') :
    ∀ e ∈ es, e.source = .ctrl := by
  cases hm <;> simp [Event.source, Chan.source]

/-! ### Steps are chains of moves -/

theorem sendFw_eq_ok {p : Payload} {es : List Event} :
    sendFw cfg p = .ok es ↔ p.deviceId < cfg.dramNum ∧ es = [.call (.memFw p.deviceId) p] := by
  unfold sendFw
  split <;> rename_i hd <;> simp [hd, eq_comm]

theorem sendBw_eq_ok {m : Nat → Nat} {p : Payload} {es : List Event} :
    sendBw cfg m p = .ok es ↔
      m p.address < cfg.hostNum ∧ es = [.call (.dspBw (m p.address)) p] := by
  unfold sendBw
  split <;> rename_i hd <;> simp [hd, eq_comm]

theorem checkWrite_move (c : Controller) :
    Move cfg { c with fw := .idle } [] (checkWrite cfg c) := by
  unfold checkWrite
  split
  · rename_i hw
    exact .control _ _ c.bw fun hp => ⟨hw, hp.2⟩
  · exact .control _ _ c.bw fun hp => hp

theorem drsRound_move (c : Controller) (i : Nat) :
    Move cfg { c with bw := .idle } [] (drsRound c i) := by
  unfold drsRound
  split
  · rename_i hr
    exact .control _ c.fw _ fun hp => ⟨hp.1, hr.2⟩
  · exact .control _ c.fw _ fun hp => hp

theorem ndrRound_move (c : Controller) (i : Nat) :
    Move cfg { c with bw := .idle } [] (ndrRound c i) := by
  unfold ndrRound
  split
  · rename_i hr
    exact .control _ c.fw _ fun hp => ⟨hp.1, hr.2⟩
  · exact .control _ c.fw _ fun hp => hp

theorem fwThread_chain {c c' : Controller} {es : List Event}
    (hs : c.fwThread cfg = .ok (c', es)) : Chain (Move cfg) c es c' := by
  unfold fwThread at hs
  split at hs
  · rename_i hf
    split at hs
    · rename_i hr
      exact .of_ok hs (.single (.control c _ c.bw fun hp => ⟨hr, hp.2⟩))
    · have hm := @checkWrite_move cfg c
      rw [← hf] at hm
      exact .of_ok hs (.single hm)
  · obtain ⟨⟨p, q⟩, hq, hr⟩ := bind_eq_ok.mp hs
    obtain ⟨es₁, he, hr⟩ := bind_eq_ok.mp hr
    obtain ⟨hd, rfl⟩ := sendFw_eq_ok.mp he
    exact .of_ok hr (.cons (.sendRead c (front_eq_ok.mp hq) hd)
      (.single (checkWrite_move { c with rQueue := q, rNum := u32 (c.rNum + 1) })))
  · obtain ⟨⟨p, q⟩, hq, hr⟩ := bind_eq_ok.mp hs
    obtain ⟨es₁, he, hr⟩ := bind_eq_ok.mp hr
    obtain ⟨hd, rfl⟩ := sendFw_eq_ok.mp he
    exact .of_ok hr (.single (.sendWrite c (front_eq_ok.mp hq) hd))

theorem mixWrites_chain {n : Nat} {c c' : Controller} {es : List Event} (hb : c.bw = .mixWait)
    (hs : mixWrites cfg n c = .ok (c', es)) :
    Chain (Move cfg) c es c' ∧ c'.bw = .mixWait ∧ c'.rackQueue = c.rackQueue := by
  induction n generalizing c es with
  | zero =>
      cases hs
      exact ⟨.nil _, hb, rfl⟩
  | succ n ih =>
      unfold mixWrites at hs
      split at hs
      · cases hs
        exact ⟨.nil _, hb, rfl⟩
      · rename_i p q hq
        obtain ⟨es₁, he, hr⟩ := bind_eq_ok.mp hs
        obtain ⟨⟨c₂, es₂⟩, hc, hr⟩ := bind_eq_ok.mp hr
        obtain ⟨hh, rfl⟩ := sendBw_eq_ok.mp he
        cases hr
        obtain ⟨h1, h2, h3⟩ := ih (c := { c with wackQueue := q }) hb hc
        refine ⟨.cons ?_ h1, h2, h3⟩
        have hm := Move.ackWrite c .mixWait (.inr ⟨rfl, hb⟩) hq hh
        rwa [← hb] at hm

theorem bwThread_chain {c c' : Controller} {es : List Event}
    (hs : c.bwThread cfg = .ok (c', es)) : Chain (Move cfg) c es c' := by
  unfold bwThread at hs
  split at hs
  · split at hs
    · exact .of_ok hs (.nil _)
    · split at hs
      · exact .of_ok hs (.single (.control c c.fw _ fun hp => ⟨hp.1, trivial⟩))
      · split at hs
        · exact .of_ok hs (.single (.control c c.fw _ fun hp => ⟨hp.1, trivial⟩))
        · rename_i hr
          exact .of_ok hs (.single (.control c c.fw _ fun hp => ⟨hp.1, hr⟩))
  · exact .of_ok hs (@Chain.cons _ _ _ _ _ _ [] _ (.control c c.fw .idle fun hp => ⟨hp.1, trivial⟩)
      (.single (drsRound_move c 0)))
  · obtain ⟨⟨p, q⟩, hq, hr⟩ := bind_eq_ok.mp hs
    obtain ⟨es₁, he, hr⟩ := bind_eq_ok.mp hr
    obtain ⟨hh, rfl⟩ := sendBw_eq_ok.mp he
    exact .of_ok hr (.cons (.ackRead c (front_eq_ok.mp hq) hh)
      (.single (drsRound_move { c with rackQueue := q } _)))
  · exact .of_ok hs (@Chain.cons _ _ _ _ _ _ [] _ (.control c c.fw .idle fun hp => ⟨hp.1, trivial⟩)
      (.single (ndrRound_move c 0)))
  · obtain ⟨⟨p, q⟩, hq, hr⟩ := bind_eq_ok.mp hs
    obtain ⟨es₁, he, hr⟩ := bind_eq_ok.mp hr
    obtain ⟨hh, rfl⟩ := sendBw_eq_ok.mp he
    exact .of_ok hr (.cons (.ackWrite c .idle (.inl rfl) (front_eq_ok.mp hq) hh)
      (.single (ndrRound_move { c with wackQueue := q } _)))
  · rename_i hb
    obtain ⟨⟨c₁, es₁⟩, hc, hr⟩ := bind_eq_ok.mp hs
    obtain ⟨h1, h2, -⟩ := mixWrites_chain hb hc
    refine .of_ok hr ?_
    have hm : Move cfg c₁ [] { c₁ with bw := .mixRead } :=
      .control c₁ c₁.fw .mixRead fun hp => ⟨hp.1, by simpa [BwPhase, h2] using hp.2⟩
    simpa using h1.trans (.single hm)
  · obtain ⟨⟨p, q⟩, hq, hr⟩ := bind_eq_ok.mp hs
    obtain ⟨es₁, he, hr⟩ := bind_eq_ok.mp hr
    obtain ⟨hh, rfl⟩ := sendBw_eq_ok.mp he
    exact .of_ok hr (.single (.ackRead c (front_eq_ok.mp hq) hh))

/-- Every step of the controller is a chain of moves. -/
theorem act_chain {c c' : Controller} {a : Act} {es : List Event}
    (hs : c.act cfg a = .ok (c', es)) : Chain (Move cfg) c es c' := by
  cases a with
  | fw => exact fwThread_chain hs
  | bw => exact bwThread_chain hs

/-! ## Hearing -/

/-- The controller hears requests of the DSPs and acks of the devices. -/
theorem hear_cases (c : Controller) (e : Event) :
    (c.hear e = c ∧ callsOn Chan.isCtrlFw [e] = [] ∧ callsOn Chan.isCtrlBw [e] = []) ∨
      (∃ h p, e = .call (.ctrlFw h) p ∧ c.hear e = c.nbTransportFw h p) ∨
      ∃ d p, e = .call (.ctrlBw d) p ∧ c.hear e = c.nbTransportBw p := by
  cases e with
  | call k p =>
      cases k with
      | ctrlFw h => exact .inr (.inl ⟨h, p, rfl, rfl⟩)
      | ctrlBw d => exact .inr (.inr ⟨d, p, rfl, rfl⟩)
      | _ => exact .inl ⟨rfl, rfl, rfl⟩
  | _ => exact .inl ⟨rfl, rfl, rfl⟩

theorem foreign_callsOn {e : Event} (he : e.source ≠ .ctrl) :
    callsOn Chan.isMemFw [e] = [] ∧ callsOn Chan.isDspBw [e] = [] := by
  cases e with
  | call k p => cases k <;> first | exact ⟨rfl, rfl⟩ | exact absurd rfl he
  | _ => exact ⟨rfl, rfl⟩

/-! ## Queues -/

/-- The requests of one command in the controller, oldest first. -/
def fwContents (c : Controller) : Command → List Payload
  | .read => c.rQueue
  | .write => c.wQueue

/-- The acks of one command in the controller, oldest first. -/
def bwContents (c : Controller) : Command → List Payload
  | .read => c.rackQueue
  | .write => c.wackQueue

@[simp] theorem fwContents_read (c : Controller) : c.fwContents .read = c.rQueue := rfl
@[simp] theorem fwContents_write (c : Controller) : c.fwContents .write = c.wQueue := rfl
@[simp] theorem bwContents_read (c : Controller) : c.bwContents .read = c.rackQueue := rfl
@[simp] theorem bwContents_write (c : Controller) : c.bwContents .write = c.wackQueue := rfl

/-- Requests and acks received are those handed on and then those inside. -/
def Queues (c : Controller) (l : List Event) : Prop :=
  ∀ k, ofCmd k (callsOn Chan.isCtrlFw l) = ofCmd k (callsOn Chan.isMemFw l) ++ c.fwContents k ∧
    ofCmd k (callsOn Chan.isCtrlBw l) = ofCmd k (callsOn Chan.isDspBw l) ++ c.bwContents k

theorem Queues.fw_command {c : Controller} {l : List Event} (hq : Queues c l) {k : Command} :
    ∀ p ∈ c.fwContents k, p.command = k := fun p hp =>
  (mem_ofCmd.mp ((hq k).1 ▸ List.mem_append_right _ hp :
    p ∈ ofCmd k (callsOn Chan.isCtrlFw l))).2

theorem Queues.bw_command {c : Controller} {l : List Event} (hq : Queues c l) {k : Command} :
    ∀ p ∈ c.bwContents k, p.command = k := fun p hp =>
  (mem_ofCmd.mp ((hq k).2 ▸ List.mem_append_right _ hp :
    p ∈ ofCmd k (callsOn Chan.isCtrlBw l))).2

theorem contents_nbTransportFw (c : Controller) (h : Nat) (p : Payload) (k : Command) :
    (c.nbTransportFw h p).fwContents k = c.fwContents k ++ ofCmd k [p] ∧
      (c.nbTransportFw h p).bwContents k = c.bwContents k := by
  cases hp : p.command <;> cases k <;> simp [nbTransportFw, fwContents, bwContents, hp, ofCmd_cons]

theorem contents_nbTransportBw (c : Controller) (p : Payload) (k : Command) :
    (c.nbTransportBw p).fwContents k = c.fwContents k ∧
      (c.nbTransportBw p).bwContents k = c.bwContents k ++ ofCmd k [p] := by
  cases hp : p.command <;> cases k <;> simp [nbTransportBw, fwContents, bwContents, hp, ofCmd_cons]

theorem ctrlQueues_closed : (component cfg).Closed Queues where
  hear c l e he hq k := by
    obtain ⟨hm, hd⟩ := foreign_callsOn he
    obtain ⟨h1, h2⟩ := hq k
    show _ = _ ++ (c.hear e).fwContents k ∧ _ = _ ++ (c.hear e).bwContents k
    simp only [callsOn_append, hm, hd, ofCmd_append, List.append_nil, h1, h2]
    rcases hear_cases c e with ⟨hc, hs, hs'⟩ | ⟨h, p, rfl, hc⟩ | ⟨d, p, rfl, hc⟩
    · rw [hc, hs, hs']
      simp
    · rw [hc, (contents_nbTransportFw c h p k).1, (contents_nbTransportFw c h p k).2]
      simp [Chan.isCtrlFw, Chan.isCtrlBw]
    · rw [hc, (contents_nbTransportBw c p k).1, (contents_nbTransportBw c p k).2]
      simp [Chan.isCtrlFw, Chan.isCtrlBw]
  move c l es c' hm hq k := by
    obtain ⟨h1, h2⟩ := hq k
    have hfr := hq.fw_command (k := .read)
    have hfw := hq.fw_command (k := .write)
    have hbr := hq.bw_command (k := .read)
    have hbw := hq.bw_command (k := .write)
    simp only [callsOn_append, ofCmd_append, h1, h2]
    cases hm with
    | control => cases k <;> simp [fwContents, bwContents]
    | sendRead hp =>
        cases k <;>
          simp_all [fwContents, bwContents, Chan.isCtrlFw, Chan.isCtrlBw, Chan.isMemFw,
            Chan.isDspBw, ofCmd_cons]
    | sendWrite hp =>
        cases k <;>
          simp_all [fwContents, bwContents, Chan.isCtrlFw, Chan.isCtrlBw, Chan.isMemFw,
            Chan.isDspBw, ofCmd_cons]
    | ackRead hp =>
        cases k <;>
          simp_all [fwContents, bwContents, Chan.isCtrlFw, Chan.isCtrlBw, Chan.isMemFw,
            Chan.isDspBw, ofCmd_cons]
    | ackWrite _ _ hp =>
        cases k <;>
          simp_all [fwContents, bwContents, Chan.isCtrlFw, Chan.isCtrlBw, Chan.isMemFw,
            Chan.isDspBw, ofCmd_cons]

/-! ## Phases are kept -/

theorem phase_nbTransportFw {c : Controller} (hp : Phase c) (h : Nat) (p : Payload) :
    Phase (c.nbTransportFw h p) := by
  refine ⟨?_, ?_⟩
  · have := hp.1
    cases hc : p.command <;> cases hf : c.fw <;> simp_all [nbTransportFw]
  · have := hp.2
    unfold BwPhase at this ⊢
    cases hc : p.command <;> cases hb : c.bw <;> simp_all [nbTransportFw]

theorem phase_nbTransportBw {c : Controller} (hp : Phase c) (p : Payload) :
    Phase (c.nbTransportBw p) := by
  refine ⟨?_, ?_⟩
  · have := hp.1
    cases hc : p.command <;> cases hf : c.fw <;> simp_all [nbTransportBw]
  · have := hp.2
    unfold BwPhase at this ⊢
    cases hc : p.command <;> cases hb : c.bw <;> simp_all [nbTransportBw]

theorem ctrlPhase_closed : (component cfg).Closed fun c _ => Phase c where
  hear c l e he hp := by
    show Phase (c.hear e)
    rcases hear_cases c e with ⟨hc, -, -⟩ | ⟨h, p, -, hc⟩ | ⟨d, p, -, hc⟩ <;> rw [hc]
    · exact hp
    · exact phase_nbTransportFw hp h p
    · exact phase_nbTransportBw hp p
  move c l es c' hm hp := by
    cases hm with
    | control fw bw hc => exact hc hp
    | sendRead => exact ⟨trivial, hp.2⟩
    | sendWrite => exact ⟨trivial, hp.2⟩
    | ackRead => exact ⟨hp.1, trivial⟩
    | ackWrite bw hb =>
        refine ⟨hp.1, ?_⟩
        rcases hb with rfl | ⟨rfl, hb⟩
        · trivial
        · simpa [BwPhase, hb] using hp.2

theorem sendFw_error {p : Payload} {e : Fault} (hs : sendFw cfg p = .error e) : e = .noSocket := by
  unfold sendFw at hs
  split at hs <;> cases hs
  rfl

theorem sendBw_error {m : Nat → Nat} {p : Payload} {e : Fault} (hs : sendBw cfg m p = .error e) :
    e = .noSocket := by
  unfold sendBw at hs
  split at hs <;> cases hs
  rfl

/-- Taking the front of a queue that is not empty and sending it fails on the socket only. -/
theorem front_bind_error {α : Type} {q : List Payload} {f : Payload × List Payload → Except Fault α}
    {e : Fault} (hq : q ≠ []) (hf : ∀ p r, f (p, r) = .error e → e = .noSocket)
    (hs : (front q >>= f) = .error e) : e = .noSocket := by
  rcases bind_eq_error.mp hs with he | ⟨⟨p, r⟩, -, hr⟩
  · exact absurd (front_eq_error.mp he).1 hq
  · exact hf p r hr

/-- In its phases the only thing that stops `fw_thread` is a device without a socket. -/
theorem fwThread_error {c : Controller} {e : Fault} (hp : Phase c)
    (hs : c.fwThread cfg = .error e) : e = .noSocket := by
  have hp := hp.1
  unfold fwThread at hs
  split at hs <;> rename_i hf <;> simp only [hf] at hp
  · split at hs <;> cases hs
  · refine front_bind_error hp (fun p r hr => ?_) hs
    rcases bind_eq_error.mp hr with he | ⟨_, -, hr⟩
    · exact sendFw_error he
    · cases hr
  · refine front_bind_error hp (fun p r hr => ?_) hs
    rcases bind_eq_error.mp hr with he | ⟨_, -, hr⟩
    · exact sendFw_error he
    · cases hr

theorem mixWrites_error {n : Nat} {c : Controller} {e : Fault}
    (hs : mixWrites cfg n c = .error e) : e = .noSocket := by
  induction n generalizing c with
  | zero => cases hs
  | succ n ih =>
      unfold mixWrites at hs
      split at hs
      · cases hs
      · rcases bind_eq_error.mp hs with he | ⟨_, -, hr⟩
        · exact sendBw_error he
        · rcases bind_eq_error.mp hr with he | ⟨_, -, hr⟩
          · exact ih he
          · cases hr

/-- In its phases the only thing that stops `bw_thread` is a host without a socket. -/
theorem bwThread_error {c : Controller} {e : Fault} (hp : BwPhase c)
    (hs : c.bwThread cfg = .error e) : e = .noSocket := by
  have hsend {m : Nat → Nat} {p : Payload} {f : List Event → Except Fault (Controller × List Event)}
      (hf : ∀ es, ∃ r, f es = .ok r) (hr : (sendBw cfg m p >>= f) = .error e) : e = .noSocket := by
    rcases bind_eq_error.mp hr with he | ⟨es, -, hr⟩
    · exact sendBw_error he
    · obtain ⟨r, hf⟩ := hf es
      simp [hf] at hr
  unfold bwThread at hs
  split at hs <;> rename_i hb <;> simp only [BwPhase, hb] at hp
  · split at hs
    · cases hs
    · split at hs
      · cases hs
      · split at hs <;> cases hs
  · cases hs
  · exact front_bind_error hp (fun p r hr => hsend (fun es => ⟨_, rfl⟩) hr) hs
  · cases hs
  · exact front_bind_error hp (fun p r hr => hsend (fun es => ⟨_, rfl⟩) hr) hs
  · rcases bind_eq_error.mp hs with he | ⟨_, -, hr⟩
    · exact mixWrites_error he
    · cases hr
  · exact front_bind_error hp (fun p r hr => hsend (fun es => ⟨_, rfl⟩) hr) hs

theorem front_of_ne_nil {q : List Payload} (hq : q ≠ []) :
    ∃ p r, q = p :: r ∧ front q = .ok (p, r) := by
  cases q with
  | nil => exact absurd rfl hq
  | cons p r => exact ⟨p, r, rfl, rfl⟩

theorem mixWrites_ok {c : Controller} (n : Nat)
    (hh : ∀ p ∈ c.wackQueue, c.wTransId p.address < cfg.hostNum) :
    ∃ r, mixWrites cfg n c = .ok r := by
  induction n generalizing c with
  | zero => exact ⟨_, rfl⟩
  | succ n ih =>
      unfold mixWrites
      split
      · exact ⟨_, rfl⟩
      · rename_i p q hq
        obtain ⟨⟨d, es⟩, hr⟩ := ih (c := { c with wackQueue := q }) fun p' hp' =>
          hh p' (by rw [hq]; exact List.mem_cons_of_mem _ hp')
        have hp' := hh p (by simp [hq])
        exact ⟨_, by simp [bind, Except.bind, sendBw, hp', hr, pure, Except.pure]; rfl⟩

/-- With acks for hosts there are `bw_thread` goes on. -/
theorem bwThread_ok {c : Controller} (hp : BwPhase c)
    (hr : ∀ p ∈ c.rackQueue, c.rTransId p.address < cfg.hostNum)
    (hw : ∀ p ∈ c.wackQueue, c.wTransId p.address < cfg.hostNum) :
    ∃ r, c.bwThread cfg = .ok r := by
  unfold bwThread
  split <;> rename_i hb <;> simp only [BwPhase, hb] at hp
  · split
    · exact ⟨_, rfl⟩
    · split
      · exact ⟨_, rfl⟩
      · split <;> exact ⟨_, rfl⟩
  · exact ⟨_, rfl⟩
  · obtain ⟨p, q, hq, hfront⟩ := front_of_ne_nil hp
    have hp' := hr p (by simp [hq])
    exact ⟨_, by rw [hfront]; simp [bind, Except.bind, sendBw, hp', pure, Except.pure]; rfl⟩
  · exact ⟨_, rfl⟩
  · obtain ⟨p, q, hq, hfront⟩ := front_of_ne_nil hp
    have hp' := hw p (by simp [hq])
    exact ⟨_, by rw [hfront]; simp [bind, Except.bind, sendBw, hp', pure, Except.pure]; rfl⟩
  · obtain ⟨⟨d, es⟩, hmix⟩ := mixWrites_ok 2 hw
    exact ⟨_, by rw [hmix]; rfl⟩
  · obtain ⟨p, q, hq, hfront⟩ := front_of_ne_nil hp
    have hp' := hr p (by simp [hq])
    exact ⟨_, by rw [hfront]; simp [bind, Except.bind, sendBw, hp', pure, Except.pure]; rfl⟩

/-! ## Sockets -/

/-- Payloads go to their own device, and acks to a host there is. -/
def Sockets (cfg : Config) (l : List Event) : Prop :=
  (∀ d p, .call (.memFw d) p ∈ l → p.deviceId = d ∧ d < cfg.dramNum) ∧
    ∀ h p, .call (.dspBw h) p ∈ l → h < cfg.hostNum

theorem ctrlSockets_closed : (component cfg).Closed fun _ l => Sockets cfg l where
  hear c l e he hs := by
    refine ⟨fun d p hm => ?_, fun h p hm => ?_⟩ <;>
      rcases List.mem_append.mp hm with hm | hm
    · exact hs.1 d p hm
    · cases List.mem_singleton.mp hm
      exact absurd rfl he
    · exact hs.2 h p hm
    · cases List.mem_singleton.mp hm
      exact absurd rfl he
  move c l es c' hm hs := by
    refine ⟨fun d p hc => ?_, fun h p hc => ?_⟩ <;> rcases List.mem_append.mp hc with hc | hc
    · exact hs.1 d p hc
    · cases hm <;> simp_all
    · exact hs.2 h p hc
    · cases hm <;> simp_all

/-! ## trans_id -/

/-- The maps change at requests only: `h` is written under the command and address. -/
theorem transId_hear (c : Controller) (e : Event) (k : Command) (a : Nat) :
    (c.hear e).transId k a = match e with
      | .call (.ctrlFw h) p => if p.command = k ∧ a = p.address then h else c.transId k a
      | _ => c.transId k a := by
  rcases hear_cases c e with ⟨hc, hf, -⟩ | ⟨h, p, rfl, hc⟩ | ⟨d, p, rfl, hc⟩
  · rw [hc]
    split
    · simp [Chan.isCtrlFw] at hf
    · rfl
  · rw [hc]
    cases hp : p.command <;> cases k <;> simp [nbTransportFw, transId, setTransId, hp]
  · rw [hc]
    cases hp : p.command <;> cases k <;> simp [nbTransportBw, transId, hp]

theorem transId_move {c c' : Controller} {es : List Event} (hm : Move cfg c es c') (k : Command)
    (a : Nat) : c'.transId k a = c.transId k a := by
  cases hm <;> cases k <;> rfl

/-- The host of the last request of a command and address. -/
def lastHost (k : Command) (a : Nat) (l : List Event) : Nat :=
  l.foldl (fun n e => match e with
    | .call (.ctrlFw h) p => if p.command = k ∧ a = p.address then h else n
    | _ => n) 0

theorem lastHost_concat (k : Command) (a : Nat) (l : List Event) (e : Event) :
    lastHost k a (l ++ [e]) = match e with
      | .call (.ctrlFw h) p => if p.command = k ∧ a = p.address then h else lastHost k a l
      | _ => lastHost k a l := by
  simp [lastHost, List.foldl_append]

/-- Without a request of that command and address nothing changes. -/
theorem lastHost_append_of_none {k : Command} {a : Nat} {l es : List Event}
    (hes : ∀ h p, .call (.ctrlFw h) p ∈ es → ¬ (p.command = k ∧ a = p.address)) :
    lastHost k a (l ++ es) = lastHost k a l := by
  induction es generalizing l with
  | nil => rw [List.append_nil]
  | cons e es ih =>
      rw [← List.singleton_append, ← List.append_assoc,
        ih fun h p hp => hes h p (List.mem_cons_of_mem _ hp), lastHost_concat]
      split
      · rename_i h p
        exact if_neg (hes h p List.mem_cons_self)
      · rfl

/-- With one such request, and all of them from one host, that host is the last. -/
theorem lastHost_append_of_mem {k : Command} {a h : Nat} {l es : List Event} {p : Payload}
    (hp : .call (.ctrlFw h) p ∈ es) (hk : p.command = k) (ha : a = p.address)
    (hes : ∀ h' p', .call (.ctrlFw h') p' ∈ es → h' = h) : lastHost k a (l ++ es) = h := by
  induction es using List.reverseRecOn with
  | nil => simp at hp
  | append_singleton es e ih =>
      rw [← List.append_assoc, lastHost_concat]
      rcases List.mem_append.mp hp with hp | hp
      · have ih := ih hp fun h' p' hm => hes h' p' (List.mem_append_left _ hm)
        split
        · rename_i h' p'
          split
          · exact hes h' p' (by simp)
          · exact ih
        · exact ih
      · cases List.mem_singleton.mp hp
        exact if_pos ⟨hk, ha⟩

theorem ctrlTransId_closed :
    (component cfg).Closed fun c l => ∀ k a, c.transId k a = lastHost k a l where
  hear c l e he hc k a := by
    show (c.hear e).transId k a = _
    rw [transId_hear, lastHost_concat]
    split <;> simp only [hc k a]
  move c l es c' hm hc k a := by
    rw [transId_move hm k a, hc k a, lastHost_append_of_none]
    intro h p hp
    cases hm.source _ hp

/-- A response goes where the map says when the step begins, and its request is in an ack queue
    then. -/
theorem chain_dspBw {c c' : Controller} {es : List Event} (hc : Chain (Move cfg) c es c') {h : Nat}
    {p : Payload} (hp : .call (.dspBw h) p ∈ es) :
    p ∈ c.rackQueue ∧ h = c.rTransId p.address ∨ p ∈ c.wackQueue ∧ h = c.wTransId p.address := by
  induction hc with
  | nil => simp at hp
  | @cons c c₁ c₂ es₁ es₂ hm _ ih =>
      rcases List.mem_append.mp hp with hp | hp
      · cases hm <;> simp_all
      · rcases ih hp with ⟨h1, h2⟩ | ⟨h1, h2⟩ <;> cases hm <;> simp_all

end Controller

end TSim4CXL
