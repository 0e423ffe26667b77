/-
  What a SIMWrapper can do, and what always holds between it and the log.

  `SimWrapper.Move` lists the elementary moves: a step of `SimWrapper.act` is a chain of
  them (`act_chain`; a falling clock edge is up to four). Everything below is proved once
  per move and does not look into the step functions again.

  Proved, as relations between a SIMWrapper and any log it takes part in:
  * `simQueues_closed`: created payloads are the forwarded ones and then the queue
  * `simAcks_closed`: acks consumed, queued, latched and notified are a sublist of the acks sent
  * `simOutstanding_closed`: `outstanding` counts forwarded minus consumed payloads
  * `simSignalOrder_closed`, `simRounds_closed`: signals follow the write packets, one for
    each round of `payload_num` write acks consumed
  * `simReadRounds_closed`: responses, one for each round of read acks consumed
  * `simCreated_closed`: the created payloads, packet by packet
-/
import TSim4CXL.Model.SimWrapper

namespace TSim4CXL

open Transition

/-- Events that tell of the control flow of a host only. -/
def Event.Quiet : Event → Prop
  | .pass _ _ => True
  | .free _ _ => True
  | .coreDone _ => True
  | .stop _ => True
  | _ => False

theorem callsOn_quiet (k : Chan → Bool) {es : List Event} (h : ∀ e ∈ es, e.Quiet) :
    callsOn k es = [] := by
  refine callsOn_eq_nil k fun c p he => ?_
  exact absurd (h _ he) (by simp [Event.Quiet])

theorem hostEvents_quiet (h : Nat) {es : List Event} (hes : ∀ e ∈ es, e.Quiet) :
    signalsOf h es = [] ∧ writesOf h es = [] ∧ readsOf h es = [] := by
  refine ⟨(pick_eq_nil _).mpr ?_, (pick_eq_nil _).mpr ?_, (pick_eq_nil _).mpr ?_⟩ <;>
    intro e he <;> have := hes e he <;> cases e <;> simp_all [Event.Quiet]

theorem responsesOf_quiet (h : Nat) {es : List Event} (hes : ∀ e ∈ es, e.Quiet) :
    responsesOf h es = [] := by
  refine (pick_eq_nil _).mpr ?_
  intro e he
  have := hes e he
  cases e <;> simp_all [Event.Quiet]

theorem sent_quiet (c : Chan) {es : List Event} (h : ∀ e ∈ es, e.Quiet) : sent c es = [] :=
  callsOn_quiet _ h

namespace SimWrapper

/-! ## Moves -/

/-- The elementary moves of SIMWrapper `h`. -/
inductive Move (cfg : Config) (h : Nat) (env : SimEnv) :
    SimWrapper → List Event → SimWrapper → Prop
  /-- the main process moves on without touching a payload -/
  | control (w : SimWrapper) (es : List Event) (status : Status)
      (received terminated hostBlocked : Bool) (proc : ProcState) (hes : ∀ e ∈ es, e.Quiet)
      (hsrc : ∀ e ∈ es, e.source = .sim h) :
      Move cfg h env w es { w with
        status := status, received := received, terminated := terminated,
        hostBlocked := hostBlocked, proc := proc }
  | createRead (w : SimWrapper) (packet : Packet) :
      Move cfg h env w (handleReadPacket cfg h w packet).2 (handleReadPacket cfg h w packet).1
  | createWrite (w : SimWrapper) (packet : Packet) :
      Move cfg h env w (handleWritePacket cfg h w packet).2 (handleWritePacket cfg h w packet).1
  | forwardRead (w : SimWrapper) {p : Payload} {q : List Payload} (hq : w.rQueue = p :: q) :
      Move cfg h env w [.call (.uspFw h) p]
        { w with rQueue := q, outstanding := u32 (w.outstanding + 1) }
  | forwardWrite (w : SimWrapper) {p : Payload} {q : List Payload} (hq : w.wQueue = p :: q) :
      Move cfg h env w [.call (.uspFw h) p]
        { w with wQueue := q, outstanding := u32 (w.outstanding + 1) }
  /-- a read ack that does not complete a packet -/
  | rack (w : SimWrapper) {p : Payload} {q : List Payload} (hq : w.rackQueue = p :: q)
      (hn : u32 (w.rackNum + 1) ≠ cfg.payloadNum) :
      Move cfg h env w [.call (.endResp h) p] { w with
        rackQueue := q
        packetData := memcpy w.packetData (u32 (cfg.dramReqSize * w.rackNum))
          (env.load p.dataPtr p.dataLength)
        rackNum := u32 (w.rackNum + 1)
        outstanding := u32Pred w.outstanding }
  /-- a read ack that completes a packet: the response -/
  | respond (w : SimWrapper) {p : Payload} {q : List Payload} {data : Nat → UInt8}
      (hq : w.rackQueue = p :: q) (hn : u32 (w.rackNum + 1) = cfg.payloadNum)
      (hdata : data = memcpy w.packetData (u32 (cfg.dramReqSize * w.rackNum))
        (env.load p.dataPtr p.dataLength)) :
      Move cfg h env w
        [.call (.endResp h) p, .respond h ((List.range cfg.packetSize).map data)] { w with
          rackQueue := q
          packetData := data
          rackNum := 0
          outstanding := u32Pred w.outstanding
          reqDone := true
          hostBlocked := false }
  /-- a write ack that does not complete a round -/
  | wack (w : SimWrapper) {p : Payload} {q : List Payload} (hq : w.wackQueue = p :: q)
      (hn : u32 (w.wackNum + 1) ≠ cfg.payloadNum) :
      Move cfg h env w [.call (.endResp h) p] { w with
        wackQueue := q
        wackNum := u32 (w.wackNum + 1)
        outstanding := u32Pred w.outstanding }
  /-- a write ack that completes a round: the signal at the front of `sync_queue` -/
  | signal (w : SimWrapper) {p : Payload} {q : List Payload} {sig : Nat} {rest : List Nat}
      (hq : w.wackQueue = p :: q) (hn : u32 (w.wackNum + 1) = cfg.payloadNum)
      (hs : w.syncQueue = sig :: rest) :
      Move cfg h env w [.call (.endResp h) p, .signal h sig] { w with
        wackQueue := q
        wackNum := 0
        outstanding := u32Pred w.outstanding
        syncQueue := rest }
  | posedge (w : SimWrapper) : Move cfg h env w [] w.clockPosedge
  | peqRead (w : SimWrapper) {p : Payload} {q : List Payload} (hq : w.peq = p :: q)
      (hc : p.command = .read) : Move cfg h env w [] { w with peq := q, rackIncoming := some p }
  | peqWrite (w : SimWrapper) {p : Payload} {q : List Payload} (hq : w.peq = p :: q)
      (hc : p.command = .write) : Move cfg h env w [] { w with peq := q, wackIncoming := some p }

variable {cfg : Config} {h : Nat} {env : SimEnv}

/-- A SIMWrapper as a component: hearing, foreign events, moves in any environment. -/
def component (cfg : Config) (h : Nat) : Component SimWrapper Event where
  hear := hear h
  foreign e := e.source ≠ .sim h
  move w es w' := ∃ env, Move cfg h env w es w'

theorem Move.source {w w' : SimWrapper} {es : List Event} (hm : Move cfg h env w es w') :
    ∀ e ∈ es, e.source = .sim h := by
  cases hm with
  | control _ _ _ _ _ _ hes hsrc => exact hsrc
  | createRead packet =>
      intro e he
      rcases List.mem_cons.mp he with rfl | he
      · rfl
      · obtain ⟨p, -, rfl⟩ := List.mem_map.mp he
        rfl
  | createWrite packet =>
      intro e he
      rcases List.mem_cons.mp he with rfl | he
      · rfl
      · obtain ⟨p, -, rfl⟩ := List.mem_map.mp he
        rfl
  | forwardRead => simp [Event.source, Chan.source]
  | forwardWrite => simp [Event.source, Chan.source]
  | rack => simp [Event.source, Chan.source]
  | respond => simp [Event.source, Chan.source]
  | wack => simp [Event.source, Chan.source]
  | signal => simp [Event.source, Chan.source]
  | posedge => simp
  | peqRead => simp
  | peqWrite => simp

/-! ### Steps are chains of moves -/

theorem pollGate_move (w : SimWrapper) (packet : Packet) :
    Move cfg h env w (pollGate h env w packet).2 (pollGate h env w packet).1 := by
  refine .control w _ w.status w.received w.terminated w.hostBlocked _ ?_ ?_
  · intro e he
    by_cases hc : env.sync.checkSignal packet.address <;> simp_all [pollGate, Event.Quiet]
  · intro e he
    by_cases hc : env.sync.checkSignal packet.address <;> simp_all [pollGate, Event.source]

theorem endIteration_move {w w' : SimWrapper} (es : List Event) (status : Status)
    (terminated : Bool) (hw : w' = { w with status := status, terminated := terminated })
    (hes : ∀ e ∈ es, e.Quiet) (hsrc : ∀ e ∈ es, e.source = .sim h) :
    Move cfg h env w (es ++ (endIteration h env w').2) (endIteration h env w').1 := by
  subst hw
  unfold endIteration
  split
  · refine .control w _ status w.received terminated w.hostBlocked .done ?_ ?_ <;>
      intro e he <;> simp only [List.mem_append, List.mem_singleton] at he <;>
      rcases he with he | rfl
    · exact hes e he
    · trivial
    · exact hsrc e he
    · rfl
  · refine .control w _ status w.received terminated w.hostBlocked .loop ?_ ?_ <;>
      simpa using by assumption

theorem handlePacket_move (w : SimWrapper) (packet : Packet) :
    Move cfg h env w (handlePacket h env w packet).2 (handlePacket h env w packet).1 := by
  unfold handlePacket
  split
  · exact pollGate_move w packet
  · exact .control w [] w.status w.received w.terminated w.hostBlocked _ (by simp) (by simp)
  · simpa using endIteration_move [] .terminated w.terminated rfl (by simp) (by simp)

theorem recv_chain {w w' : SimWrapper} {packet : Packet} {es : List Event}
    (hs : w.recv h env packet = .ok (w', es)) : Chain (Move cfg h env) w es w' := by
  unfold recv at hs
  split at hs
  · dsimp only at hs
    split at hs
    · exact .of_ok hs (.single (.control w [] w.status true w.terminated _ _ (by simp) (by simp)))
    · have hrecv : Move cfg h env w []
          { w with received := true, hostBlocked := packet.type = .read } :=
        .control w [] w.status true w.terminated _ w.proc (by simp) (by simp)
      exact .of_ok hs (.cons hrecv (.single (handlePacket_move _ _)))
  · cases hs

theorem process_chain {w w' : SimWrapper} {es : List Event}
    (hs : w.process cfg h env = .ok (w', es)) : Chain (Move cfg h env) w es w' := by
  unfold process at hs
  split at hs
  · split at hs
    · exact .of_ok hs (.nil _)
    · refine .of_ok hs (.single (endIteration_move _ w.status true rfl ?_ ?_)) <;>
        cases w.terminated <;> simp [Event.Quiet, Event.source]
  · exact .of_ok hs (.single (handlePacket_move _ _))
  · exact .of_ok hs (.single (pollGate_move _ _))
  · exact .of_ok hs (.single (.control w _ w.status w.received w.terminated w.hostBlocked _
      (by simp [Event.Quiet]) (by simp [Event.source])))
  · exact .of_ok hs (.single (.createRead _ _))
  · exact .of_ok hs (.single (.createWrite _ _))
  · cases hs

theorem forwardRead_chain (w : SimWrapper) :
    Chain (Move cfg h env) w (w.forwardRead h).2 (w.forwardRead h).1 := by
  unfold forwardRead
  split
  · exact .nil _
  · rename_i p q hq
    exact .single (.forwardRead w hq)

theorem forwardWrite_chain (w : SimWrapper) :
    Chain (Move cfg h env) w (w.forwardWrite h).2 (w.forwardWrite h).1 := by
  unfold forwardWrite
  split
  · exact .nil _
  · rename_i p q hq
    exact .single (.forwardWrite w hq)

theorem sendRack_chain (w : SimWrapper) :
    Chain (Move cfg h env) w (w.sendRack cfg h env).2 (w.sendRack cfg h env).1 := by
  unfold sendRack
  split
  · exact .nil _
  · rename_i p q hq
    dsimp only
    split
    · rename_i hn
      exact .single (.respond w hq hn rfl)
    · rename_i hn
      exact .single (.rack w hq hn)

theorem sendWack_chain {w w' : SimWrapper} {es : List Event}
    (hs : w.sendWack cfg h = .ok (w', es)) : Chain (Move cfg h env) w es w' := by
  unfold sendWack at hs
  split at hs
  · exact .of_ok hs (.nil _)
  · rename_i p q hq
    dsimp only at hs
    split at hs
    · rename_i hn
      split at hs
      · cases hs
      · rename_i sig rest hsig
        exact .of_ok hs (.single (.signal w hq hn hsig))
    · rename_i hn
      exact .of_ok hs (.single (.wack w hq hn))

theorem clockNegedge_chain {w w' : SimWrapper} {es : List Event}
    (hs : w.clockNegedge cfg h env = .ok (w', es)) : Chain (Move cfg h env) w es w' := by
  unfold clockNegedge at hs
  dsimp only at hs
  split at hs
  · cases hs
  · rename_i hw
    exact .of_ok hs ((((forwardRead_chain w).trans (forwardWrite_chain _)).trans
      (sendRack_chain _)).trans (sendWack_chain hw))

theorem peqCb_move {w w' : SimWrapper} (hs : w.peqCb = .ok w') : Move cfg h env w [] w' := by
  unfold peqCb at hs
  split at hs
  · cases hs
  · rename_i p q hq
    split at hs <;> rename_i hc <;> cases hs
    · exact .peqRead w hq hc
    · exact .peqWrite w hq hc

/-- Every step of a SIMWrapper is a chain of moves. -/
theorem act_chain {w w' : SimWrapper} {a : Act} {es : List Event}
    (hs : w.act cfg h env a = .ok (w', es)) : Chain (Move cfg h env) w es w' := by
  cases a with
  | recv packet => exact recv_chain hs
  | process => exact process_chain hs
  | posedge => exact .of_ok hs (.single (.posedge w))
  | negedge => exact clockNegedge_chain hs
  | peq =>
      simp only [act] at hs
      split at hs
      · cases hs
      · rename_i hw
        exact .of_ok hs (.single (peqCb_move hw))

/-! ## The acks that come in -/

/-- What comes before the ack queues: the event queue and the two incoming slots. -/
def incoming (w : SimWrapper) : List Payload × Option Payload × Option Payload :=
  (w.peq, w.rackIncoming, w.wackIncoming)

/-- The acks stay where they are. -/
def AcksKept (h : Nat) (w : SimWrapper) (es : List Event) (w' : SimWrapper) : Prop :=
  w'.incoming = w.incoming ∧ w'.rackQueue = w.rackQueue ∧ w'.wackQueue = w.wackQueue ∧
    sent (.endResp h) es = []

/-- The acks that come in stay, and those in the queues leave from the front with an END_RESP
    each. -/
def AcksConsumed (h : Nat) (w : SimWrapper) (es : List Event) (w' : SimWrapper) : Prop :=
  w'.incoming = w.incoming ∧ ∃ rs ws, sent (.endResp h) es = rs ++ ws ∧
    w.rackQueue = rs ++ w'.rackQueue ∧ w.wackQueue = ws ++ w'.wackQueue

theorem AcksKept.consumed {w w' : SimWrapper} {es : List Event} (hk : AcksKept h w es w') :
    AcksConsumed h w es w' :=
  ⟨hk.1, [], [], hk.2.2.2, hk.2.1.symm, hk.2.2.1.symm⟩

/-- A step that returns the pair `r` keeps the acks when `r` does. -/
theorem AcksKept.of_ok {w w' : SimWrapper} {es : List Event} {r : SimWrapper × List Event}
    (hs : (.ok r : Except Fault (SimWrapper × List Event)) = .ok (w', es))
    (hk : AcksKept h w r.2 r.1) : AcksKept h w es w' := by
  cases hs
  exact hk

theorem endIteration_acksKept (w : SimWrapper) :
    AcksKept h w (endIteration h env w).2 (endIteration h env w).1 := by
  unfold endIteration
  split <;> exact ⟨rfl, rfl, rfl, rfl⟩

theorem pollGate_acksKept (w : SimWrapper) (packet : Packet) :
    AcksKept h w (pollGate h env w packet).2 (pollGate h env w packet).1 := by
  refine ⟨rfl, rfl, rfl, ?_⟩
  unfold pollGate
  dsimp only
  split <;> rfl

theorem handlePacket_acksKept (w : SimWrapper) (packet : Packet) :
    AcksKept h w (handlePacket h env w packet).2 (handlePacket h env w packet).1 := by
  unfold handlePacket
  split
  · exact pollGate_acksKept w packet
  · exact ⟨rfl, rfl, rfl, rfl⟩
  · exact endIteration_acksKept { w with status := .terminated }

theorem recv_acksKept {w w' : SimWrapper} {packet : Packet} {es : List Event}
    (hs : w.recv h env packet = .ok (w', es)) : AcksKept h w es w' := by
  unfold recv at hs
  split at hs
  · dsimp only at hs
    split at hs
    · exact .of_ok hs ⟨rfl, rfl, rfl, rfl⟩
    · exact .of_ok hs (handlePacket_acksKept { w with received := true, hostBlocked := _ } packet)
  · cases hs

theorem process_acksKept {w w' : SimWrapper} {es : List Event}
    (hs : w.process cfg h env = .ok (w', es)) : AcksKept h w es w' := by
  unfold process at hs
  split at hs
  · split at hs
    · exact .of_ok hs ⟨rfl, rfl, rfl, rfl⟩
    · obtain ⟨h1, h2, h3, h4⟩ := @endIteration_acksKept h env { w with terminated := true }
      refine .of_ok hs ⟨h1, h2, h3, ?_⟩
      rw [sent_append, h4]
      split <;> rfl
  · exact .of_ok hs (handlePacket_acksKept w _)
  · exact .of_ok hs (pollGate_acksKept w _)
  · exact .of_ok hs ⟨rfl, rfl, rfl, rfl⟩
  · exact .of_ok hs ⟨rfl, rfl, rfl, by simp [handleReadPacket]⟩
  · exact .of_ok hs ⟨rfl, rfl, rfl, by simp [handleWritePacket]⟩
  · cases hs

theorem forwardRead_acksKept (w : SimWrapper) :
    AcksKept h w (w.forwardRead h).2 (w.forwardRead h).1 := by
  unfold forwardRead
  split <;> exact ⟨rfl, rfl, rfl, rfl⟩

theorem forwardWrite_acksKept (w : SimWrapper) :
    AcksKept h w (w.forwardWrite h).2 (w.forwardWrite h).1 := by
  unfold forwardWrite
  split <;> exact ⟨rfl, rfl, rfl, rfl⟩

/-- The RACK block takes the front of `rack_queue`, if there is one. -/
theorem sendRack_consumes (w : SimWrapper) : (w.sendRack cfg h env).1.incoming = w.incoming ∧
    w.rackQueue = sent (.endResp h) (w.sendRack cfg h env).2 ++ (w.sendRack cfg h env).1.rackQueue ∧
    (w.sendRack cfg h env).1.wackQueue = w.wackQueue := by
  unfold sendRack
  split
  · exact ⟨rfl, rfl, rfl⟩
  · rename_i hq
    dsimp only
    split <;> exact ⟨rfl, by simp [hq], rfl⟩

/-- The WACK block takes the front of `wack_queue`, if there is one. -/
theorem sendWack_consumes {w w' : SimWrapper} {es : List Event}
    (hs : w.sendWack cfg h = .ok (w', es)) : w'.incoming = w.incoming ∧
      w.wackQueue = sent (.endResp h) es ++ w'.wackQueue ∧ w'.rackQueue = w.rackQueue := by
  unfold sendWack at hs
  split at hs
  · cases hs
    exact ⟨rfl, rfl, rfl⟩
  · rename_i hq
    dsimp only at hs
    split at hs
    · split at hs <;> cases hs
      exact ⟨rfl, by simp [hq], rfl⟩
    · cases hs
      exact ⟨rfl, by simp [hq], rfl⟩

theorem clockNegedge_consumes {w w' : SimWrapper} {es : List Event}
    (hs : w.clockNegedge cfg h env = .ok (w', es)) : AcksConsumed h w es w' := by
  unfold clockNegedge at hs
  dsimp only at hs
  split at hs
  · cases hs
  · rename_i w₁ es₁ hw
    cases hs
    obtain ⟨i1, r1, k1, e1⟩ := forwardRead_acksKept (h := h) w
    obtain ⟨i2, r2, k2, e2⟩ := forwardWrite_acksKept (h := h) (w.forwardRead h).1
    obtain ⟨i3, r3, k3⟩ := @sendRack_consumes cfg h env ((w.forwardRead h).1.forwardWrite h).1
    obtain ⟨i4, k4, r4⟩ := sendWack_consumes hw
    refine ⟨i4.trans (i3.trans (i2.trans i1)),
      sent (.endResp h) (((w.forwardRead h).1.forwardWrite h).1.sendRack cfg h env).2,
      sent (.endResp h) es₁, ?_, ?_, ?_⟩
    · simp only [sent_append, e1, e2, List.nil_append]
    · rw [← r1, ← r2, r3, r4]
    · rw [← k1, ← k2, ← k3, k4]

/-- All a SIMWrapper does to acks besides notifications and rising edges. -/
theorem act_consumes {w w' : SimWrapper} {a : Act} {es : List Event} (hpos : a ≠ .posedge)
    (hpeq : a ≠ .peq) (hs : w.act cfg h env a = .ok (w', es)) : AcksConsumed h w es w' := by
  cases a with
  | recv packet => exact (recv_acksKept hs).consumed
  | process => exact (process_acksKept hs).consumed
  | posedge => exact absurd rfl hpos
  | negedge => exact clockNegedge_consumes hs
  | peq => exact absurd rfl hpeq

/-! ## Hearing -/

/-- A SIMWrapper hears the acks of its USP only. -/
theorem hear_cases (w : SimWrapper) (e : Event) :
    (w.hear h e = w ∧ sent (.simBw h) [e] = []) ∨
      ∃ p, e = .call (.simBw h) p ∧ w.hear h e = { w with peq := w.peq ++ [p] } := by
  by_cases he : ∃ p, e = .call (.simBw h) p
  · obtain ⟨p, rfl⟩ := he
    exact .inr ⟨p, rfl, by simp [hear, nbTransportBw]⟩
  · refine .inl ⟨?_, ?_⟩
    · unfold hear
      split
      · rename_i k p
        exact if_neg fun hk => he ⟨p, by rw [hk]⟩
      · rfl
    · refine callsOn_eq_nil _ fun c p hm => ?_
      rw [decide_eq_false_iff_not]
      rintro rfl
      exact he ⟨p, (List.mem_singleton.mp hm).symm⟩

/-- What a foreign event leaves alone: everything a SIMWrapper itself reports. -/
theorem foreign_sent {e : Event} (he : e.source ≠ .sim h) {c : Chan} (hc : c.source = .sim h) :
    sent c [e] = [] :=
  sent_eq_nil c (by simpa [hc] using he)

theorem foreign_hostEvents {e : Event} (he : e.source ≠ .sim h) :
    signalsOf h [e] = [] ∧ writesOf h [e] = [] ∧ readsOf h [e] = [] :=
  hostEvents_foreign h (by simpa using he)

theorem foreign_responses {e : Event} (he : e.source ≠ .sim h) : responsesOf h [e] = [] :=
  responsesOf_foreign h (by simpa using he)

/-! ## Queues -/

/-- The payloads created so far are the forwarded ones and then the queue. -/
def Queues (h : Nat) (w : SimWrapper) (l : List Event) : Prop :=
  ofCmd .read (sent (.create h) l) = ofCmd .read (sent (.uspFw h) l) ++ w.rQueue ∧
    ofCmd .write (sent (.create h) l) = ofCmd .write (sent (.uspFw h) l) ++ w.wQueue

theorem readPayloads_command (packet : Packet) (n : Nat) :
    ∀ p ∈ readPayloads cfg h packet n, p.command = .read := by
  intro p hp
  obtain ⟨i, -, rfl⟩ := List.mem_map.mp hp
  rfl

theorem writePayloads_command (packet : Packet) (n : Nat) :
    ∀ p ∈ writePayloads cfg h packet n, p.command = .write := by
  intro p hp
  obtain ⟨i, -, rfl⟩ := List.mem_map.mp hp
  rfl

@[simp] theorem ofCmd_readPayloads (c : Command) (packet : Packet) (n : Nat) :
    ofCmd c (readPayloads cfg h packet n) =
      if c = .read then readPayloads cfg h packet n else [] := by
  by_cases hc : c = .read
  · rw [if_pos hc, hc, ofCmd_eq_self (readPayloads_command packet n)]
  · rw [if_neg hc, ofCmd_eq_nil hc (readPayloads_command packet n)]

@[simp] theorem ofCmd_writePayloads (c : Command) (packet : Packet) (n : Nat) :
    ofCmd c (writePayloads cfg h packet n) =
      if c = .write then writePayloads cfg h packet n else [] := by
  by_cases hc : c = .write
  · rw [if_pos hc, hc, ofCmd_eq_self (writePayloads_command packet n)]
  · rw [if_neg hc, ofCmd_eq_nil hc (writePayloads_command packet n)]

theorem Queues.rQueue_command {w : SimWrapper} {l : List Event} (hq : Queues h w l) :
    ∀ p ∈ w.rQueue, p.command = .read := fun p hp =>
  (mem_ofCmd.mp (hq.1 ▸ List.mem_append_right _ hp : p ∈ ofCmd .read (sent (.create h) l))).2

theorem Queues.wQueue_command {w : SimWrapper} {l : List Event} (hq : Queues h w l) :
    ∀ p ∈ w.wQueue, p.command = .write := fun p hp =>
  (mem_ofCmd.mp (hq.2 ▸ List.mem_append_right _ hp : p ∈ ofCmd .write (sent (.create h) l))).2

theorem simQueues_closed : (component cfg h).Closed (Queues h) where
  hear w l e he hq := by
    have hc := foreign_sent he (c := .create h) rfl
    have hu := foreign_sent he (c := .uspFw h) rfl
    obtain ⟨h1, h2⟩ := hq
    show Queues h (w.hear h e) _
    unfold Queues
    rw [sent_append, sent_append, hc, hu]
    rcases hear_cases (h := h) w e with ⟨hw, -⟩ | ⟨p, -, hw⟩ <;> rw [hw] <;> simp [h1, h2]
  move w l es w' hm hq := by
    obtain ⟨env, hm⟩ := hm
    have ⟨h1, h2⟩ := hq
    cases hm with
    | control _ _ _ _ _ _ hes _ => simpa [Queues, sent_quiet _ hes] using hq
    | createRead packet => simp [Queues, handleReadPacket, h1, h2]
    | createWrite packet => simp [Queues, handleWritePacket, h1, h2]
    | forwardRead hq' =>
        have hc := hq.rQueue_command _ (hq' ▸ List.mem_cons_self)
        simp [Queues, h1, h2, hq', ofCmd_cons, hc]
    | forwardWrite hq' =>
        have hc := hq.wQueue_command _ (hq' ▸ List.mem_cons_self)
        simp [Queues, h1, h2, hq', ofCmd_cons, hc]
    | rack => simpa [Queues] using hq
    | respond => simpa [Queues] using hq
    | wack => simpa [Queues] using hq
    | signal => simpa [Queues] using hq
    | posedge => simpa [Queues, clockPosedge] using hq
    | peqRead => simpa [Queues] using hq
    | peqWrite => simpa [Queues] using hq

/-! ## Acks -/

/-- Acks consumed, queued, in the incoming slot and notified, in this order, are a sublist of
    the acks the USP sent: an ack that meets an occupied slot is lost. -/
def Acks (h : Nat) (w : SimWrapper) (l : List Event) : Prop :=
  (ofCmd .read (sent (.endResp h) l) ++ w.rackQueue ++ w.rackIncoming.toList ++
      ofCmd .read w.peq).Sublist (ofCmd .read (sent (.simBw h) l)) ∧
    (ofCmd .write (sent (.endResp h) l) ++ w.wackQueue ++ w.wackIncoming.toList ++
      ofCmd .write w.peq).Sublist (ofCmd .write (sent (.simBw h) l))

theorem Acks.rackQueue_command {w : SimWrapper} {l : List Event} (ha : Acks h w l) :
    ∀ p ∈ w.rackQueue, p.command = .read := fun _ hp =>
  (mem_ofCmd.mp (ha.1.subset (by simp [hp]))).2

theorem Acks.wackQueue_command {w : SimWrapper} {l : List Event} (ha : Acks h w l) :
    ∀ p ∈ w.wackQueue, p.command = .write := fun _ hp =>
  (mem_ofCmd.mp (ha.2.subset (by simp [hp]))).2

/-- Putting an ack into a slot keeps a sublist of what was there. -/
theorem latch_sublist {a b c : List Payload} {i : Option Payload} {p : Payload} {d : List Payload}
    (hs : (a ++ b ++ i.toList ++ p :: c).Sublist d) : (a ++ b ++ [p] ++ c).Sublist d := by
  refine List.Sublist.trans ?_ hs
  rw [List.append_assoc _ [p] c, List.append_assoc _ i.toList]
  exact List.Sublist.append_left (List.sublist_append_right ..) _

theorem simAcks_closed : (component cfg h).Closed (Acks h) where
  hear w l e he ha := by
    have hc := foreign_sent he (c := .endResp h) rfl
    obtain ⟨h1, h2⟩ := ha
    show Acks h (w.hear h e) _
    unfold Acks
    rw [sent_append, sent_append, hc]
    rcases hear_cases (h := h) w e with ⟨hw, hs⟩ | ⟨p, rfl, hw⟩
    · rw [hw, hs]
      simpa using And.intro h1 h2
    · rw [hw]
      refine ⟨?_, ?_⟩
      · simpa [List.append_assoc] using h1.append_right (ofCmd .read [p])
      · simpa [List.append_assoc] using h2.append_right (ofCmd .write [p])
  move w l es w' hm ha := by
    obtain ⟨env, hm⟩ := hm
    have ⟨h1, h2⟩ := ha
    cases hm with
    | control _ _ _ _ _ _ hes _ => simpa [Acks, sent_quiet _ hes] using ha
    | createRead => simpa [Acks, handleReadPacket] using ha
    | createWrite => simpa [Acks, handleWritePacket] using ha
    | forwardRead => simpa [Acks] using ha
    | forwardWrite => simpa [Acks] using ha
    | rack hq _ =>
        have hc := ha.rackQueue_command _ (hq ▸ List.mem_cons_self)
        simpa [Acks, ofCmd_cons, hc, hq] using ha
    | respond hq _ _ =>
        have hc := ha.rackQueue_command _ (hq ▸ List.mem_cons_self)
        simpa [Acks, ofCmd_cons, hc, hq] using ha
    | wack hq _ =>
        have hc := ha.wackQueue_command _ (hq ▸ List.mem_cons_self)
        simpa [Acks, ofCmd_cons, hc, hq] using ha
    | signal hq _ _ =>
        have hc := ha.wackQueue_command _ (hq ▸ List.mem_cons_self)
        simpa [Acks, ofCmd_cons, hc, hq] using ha
    | posedge => simpa [Acks, clockPosedge] using ha
    | peqRead hq hc =>
        rw [hq] at h1 h2
        simp only [ofCmd_cons, hc, if_true, reduceCtorEq, if_false] at h1 h2
        simpa [Acks] using And.intro (latch_sublist h1) h2
    | peqWrite hq hc =>
        rw [hq] at h1 h2
        simp only [ofCmd_cons, hc, if_true, reduceCtorEq, if_false] at h1 h2
        simpa [Acks] using And.intro h1 (latch_sublist h2)

/-! ## outstanding -/

/-- `outstanding` counts forwarded minus consumed payloads, modulo 2^32. -/
def Outstanding (h : Nat) (w : SimWrapper) (l : List Event) : Prop :=
  u32 (w.outstanding + (sent (.endResp h) l).length) = u32 (sent (.uspFw h) l).length ∧
    w.outstanding < 4294967296

theorem simOutstanding_closed : (component cfg h).Closed (Outstanding h) where
  hear w l e he ho := by
    have hc := foreign_sent he (c := .endResp h) rfl
    have hu := foreign_sent he (c := .uspFw h) rfl
    show Outstanding h (w.hear h e) _
    unfold Outstanding
    rw [sent_append, sent_append, hc, hu]
    rcases hear_cases (h := h) w e with ⟨hw, -⟩ | ⟨p, -, hw⟩ <;> rw [hw] <;>
      simpa [Outstanding] using ho
  move w l es w' hm ho := by
    obtain ⟨env, hm⟩ := hm
    have ⟨h1, h2⟩ := ho
    unfold u32 at h1
    cases hm with
    | control _ _ _ _ _ _ hes _ => simpa [Outstanding, sent_quiet _ hes] using ho
    | createRead => simpa [Outstanding, handleReadPacket] using ho
    | createWrite => simpa [Outstanding, handleWritePacket] using ho
    | forwardRead => simp [Outstanding, u32]; omega
    | forwardWrite => simp [Outstanding, u32]; omega
    | rack => simp [Outstanding, u32, u32Pred]; split <;> omega
    | respond => simp [Outstanding, u32, u32Pred]; split <;> omega
    | wack => simp [Outstanding, u32, u32Pred]; split <;> omega
    | signal => simp [Outstanding, u32, u32Pred]; split <;> omega
    | posedge => simpa [Outstanding, clockPosedge] using ho
    | peqRead => simpa [Outstanding] using ho
    | peqWrite => simpa [Outstanding] using ho

/-! ## Signals -/

/-- The signals raised and the addresses waiting in `sync_queue` are those of the write packets,
    in their order. -/
def SignalOrder (h : Nat) (w : SimWrapper) (l : List Event) : Prop :=
  signalsOf h l ++ w.syncQueue = (writesOf h l).map (·.address)

theorem simSignalOrder_closed : (component cfg h).Closed (SignalOrder h) where
  hear w l e he ho := by
    have hf := foreign_hostEvents he
    show SignalOrder h (w.hear h e) _
    unfold SignalOrder
    rw [signalsOf_append, writesOf_append, hf.1, hf.2.1]
    rcases hear_cases (h := h) w e with ⟨hw, -⟩ | ⟨p, -, hw⟩ <;> rw [hw] <;>
      simpa [SignalOrder] using ho
  move w l es w' hm ho := by
    obtain ⟨env, hm⟩ := hm
    cases hm with
    | control _ _ _ _ _ _ hes _ => simpa [SignalOrder, hostEvents_quiet h hes] using ho
    | createRead => simpa [SignalOrder, handleReadPacket] using ho
    | createWrite =>
        unfold SignalOrder at ho
        simp [SignalOrder, handleWritePacket, ← ho]
    | forwardRead => simpa [SignalOrder] using ho
    | forwardWrite => simpa [SignalOrder] using ho
    | rack => simpa [SignalOrder] using ho
    | respond => simpa [SignalOrder] using ho
    | wack => simpa [SignalOrder] using ho
    | signal _ _ hs => simpa [SignalOrder, hs] using ho
    | posedge => simpa [SignalOrder, clockPosedge] using ho
    | peqRead => simpa [SignalOrder] using ho
    | peqWrite => simpa [SignalOrder] using ho

/-- Write acks are counted in rounds of `payload_num`, one signal a round. -/
def Rounds (cfg : Config) (h : Nat) (w : SimWrapper) (l : List Event) : Prop :=
  w.wackNum < cfg.payloadNum ∧
    cfg.payloadNum * (signalsOf h l).length + w.wackNum =
      (ofCmd .write (sent (.endResp h) l)).length

theorem simRounds_closed (h0 : 0 < cfg.payloadNum) (hN : cfg.payloadNum < 4294967296) :
    (component cfg h).Closed fun w l => Acks h w l ∧ Rounds cfg h w l := by
  refine simAcks_closed.and_of ?_ ?_
  · intro w l e he _ hr
    have hc := foreign_sent he (c := .endResp h) rfl
    have hf := foreign_hostEvents he
    show Rounds cfg h (w.hear h e) _
    unfold Rounds
    rw [signalsOf_append, sent_append, hc, hf.1]
    rcases hear_cases (h := h) w e with ⟨hw, -⟩ | ⟨p, -, hw⟩ <;> rw [hw] <;>
      simpa [Rounds] using hr
  · intro w l es w' hm ha hr
    obtain ⟨env, hm⟩ := hm
    have ⟨h1, h2⟩ := hr
    cases hm with
    | control _ _ _ _ _ _ hes _ =>
        simpa [Rounds, sent_quiet _ hes, hostEvents_quiet h hes] using hr
    | createRead => simpa [Rounds, handleReadPacket] using hr
    | createWrite => simpa [Rounds, handleWritePacket] using hr
    | forwardRead => simpa [Rounds] using hr
    | forwardWrite => simpa [Rounds] using hr
    | rack hq _ =>
        have hc := ha.rackQueue_command _ (hq ▸ List.mem_cons_self)
        simpa [Rounds, ofCmd_cons, hc] using hr
    | respond hq _ _ =>
        have hc := ha.rackQueue_command _ (hq ▸ List.mem_cons_self)
        simpa [Rounds, ofCmd_cons, hc] using hr
    | wack hq hn =>
        have hc := ha.wackQueue_command _ (hq ▸ List.mem_cons_self)
        have hu : u32 (w.wackNum + 1) = w.wackNum + 1 := Nat.mod_eq_of_lt (by omega)
        rw [hu] at hn
        refine ⟨by simp only [hu]; omega, ?_⟩
        simp [ofCmd_cons, hc, hu]
        omega
    | signal hq hn hs =>
        have hc := ha.wackQueue_command _ (hq ▸ List.mem_cons_self)
        have hu : u32 (w.wackNum + 1) = w.wackNum + 1 := Nat.mod_eq_of_lt (by omega)
        rw [hu] at hn
        refine ⟨h0, ?_⟩
        simp [ofCmd_cons, hc, Nat.mul_add]
        omega
    | posedge => simpa [Rounds, clockPosedge] using hr
    | peqRead => simpa [Rounds] using hr
    | peqWrite => simpa [Rounds] using hr

/-! ## Responses -/

/-- Read acks are counted in rounds of `payload_num`, one response a round. -/
def ReadRounds (cfg : Config) (h : Nat) (w : SimWrapper) (l : List Event) : Prop :=
  w.rackNum < cfg.payloadNum ∧
    cfg.payloadNum * (responsesOf h l).length + w.rackNum =
      (ofCmd .read (sent (.endResp h) l)).length

theorem simReadRounds_closed (h0 : 0 < cfg.payloadNum) (hN : cfg.payloadNum < 4294967296) :
    (component cfg h).Closed fun w l => Acks h w l ∧ ReadRounds cfg h w l := by
  refine simAcks_closed.and_of ?_ ?_
  · intro w l e he _ hr
    have hc := foreign_sent he (c := .endResp h) rfl
    have hf := foreign_responses he
    show ReadRounds cfg h (w.hear h e) _
    unfold ReadRounds
    rw [responsesOf_append, sent_append, hc, hf]
    rcases hear_cases (h := h) w e with ⟨hw, -⟩ | ⟨p, -, hw⟩ <;> rw [hw] <;>
      simpa [ReadRounds] using hr
  · intro w l es w' hm ha hr
    obtain ⟨env, hm⟩ := hm
    have ⟨h1, h2⟩ := hr
    cases hm with
    | control _ _ _ _ _ _ hes _ =>
        simpa [ReadRounds, sent_quiet _ hes, responsesOf_quiet h hes] using hr
    | createRead => simpa [ReadRounds, handleReadPacket] using hr
    | createWrite => simpa [ReadRounds, handleWritePacket] using hr
    | forwardRead => simpa [ReadRounds] using hr
    | forwardWrite => simpa [ReadRounds] using hr
    | rack hq hn =>
        have hc := ha.rackQueue_command _ (hq ▸ List.mem_cons_self)
        have hu : u32 (w.rackNum + 1) = w.rackNum + 1 := Nat.mod_eq_of_lt (by omega)
        rw [hu] at hn
        refine ⟨by simp only [hu]; omega, ?_⟩
        simp [ofCmd_cons, hc, hu]
        omega
    | respond hq hn =>
        have hc := ha.rackQueue_command _ (hq ▸ List.mem_cons_self)
        have hu : u32 (w.rackNum + 1) = w.rackNum + 1 := Nat.mod_eq_of_lt (by omega)
        rw [hu] at hn
        refine ⟨h0, ?_⟩
        simp [ofCmd_cons, hc, Nat.mul_add]
        omega
    | wack hq _ =>
        have hc := ha.wackQueue_command _ (hq ▸ List.mem_cons_self)
        simpa [ReadRounds, ofCmd_cons, hc] using hr
    | signal hq _ _ =>
        have hc := ha.wackQueue_command _ (hq ▸ List.mem_cons_self)
        simpa [ReadRounds, ofCmd_cons, hc] using hr
    | posedge => simpa [ReadRounds, clockPosedge] using hr
    | peqRead => simpa [ReadRounds] using hr
    | peqWrite => simpa [ReadRounds] using hr

/-- Every response has the size of a packet. -/
theorem simResponses_closed :
    (component cfg h).Closed fun _ l => ∀ data ∈ responsesOf h l, data.length = cfg.packetSize where
  hear w l e he hl := by
    rw [responsesOf_append, foreign_responses he, List.append_nil]
    exact hl
  move w l es w' hm hl := by
    obtain ⟨env, hm⟩ := hm
    rw [responsesOf_append]
    intro data hd
    rcases List.mem_append.mp hd with hd | hd
    · exact hl data hd
    · cases hm with
      | control _ _ _ _ _ _ hes _ =>
          rw [responsesOf_quiet h hes] at hd
          cases hd
      | createRead => simp [handleReadPacket] at hd
      | createWrite => simp [handleWritePacket] at hd
      | respond =>
          simp only [responsesOf_cons, responsesOf_nil, Event.response?, if_true,
            Option.toList_none, Option.toList_some, List.nil_append, List.append_nil,
            List.mem_singleton] at hd
          rw [hd, List.length_map, List.length_range]
      | _ => simp at hd

/-! ## Created payloads -/

/-- The created payloads of a host, packet by packet. -/
def Created (cfg : Config) (h : Nat) (w : SimWrapper) (l : List Event) : Prop :=
  (ofCmd .read (sent (.create h) l) = packetPayloads (readPayloads cfg h) (readsOf h l) ∧
      w.rIdx = (readsOf h l).length) ∧
    ofCmd .write (sent (.create h) l) = packetPayloads (writePayloads cfg h) (writesOf h l) ∧
      w.wIdx = (writesOf h l).length

theorem simCreated_closed : (component cfg h).Closed (Created cfg h) where
  hear w l e he hc := by
    have hs := foreign_sent he (c := .create h) rfl
    have hf := foreign_hostEvents he
    show Created cfg h (w.hear h e) _
    unfold Created
    rw [writesOf_append, readsOf_append, sent_append, hs, hf.2.1, hf.2.2]
    rcases hear_cases (h := h) w e with ⟨hw, -⟩ | ⟨p, -, hw⟩ <;> rw [hw] <;>
      simpa [Created] using hc
  move w l es w' hm hc := by
    obtain ⟨env, hm⟩ := hm
    have ⟨⟨h1, h2⟩, h3, h4⟩ := hc
    cases hm with
    | control _ _ _ _ _ _ hes _ =>
        simpa [Created, sent_quiet _ hes, hostEvents_quiet h hes] using hc
    | createRead packet => simp [Created, handleReadPacket, h1, h3, h4, ← h2]
    | createWrite packet => simp [Created, handleWritePacket, h1, h2, h3, ← h4]
    | forwardRead => simpa [Created] using hc
    | forwardWrite => simpa [Created] using hc
    | rack => simpa [Created] using hc
    | respond => simpa [Created] using hc
    | wack => simpa [Created] using hc
    | signal => simpa [Created] using hc
    | posedge => simpa [Created, clockPosedge] using hc
    | peqRead => simpa [Created] using hc
    | peqWrite => simpa [Created] using hc

theorem Created.length {w : SimWrapper} {l : List Event} (hc : Created cfg h w l) :
    (ofCmd .read (sent (.create h) l)).length = cfg.payloadNum * (readsOf h l).length ∧
      (ofCmd .write (sent (.create h) l)).length = cfg.payloadNum * (writesOf h l).length := by
  obtain ⟨⟨hread, -⟩, hwrite, -⟩ := hc
  rw [hread, hwrite]
  exact ⟨packetPayloads_length (fun q n => by simp [readPayloads]) _,
    packetPayloads_length (fun q n => by simp [writePayloads]) _⟩

/-- No payload is created twice. -/
theorem Created.nodup {w : SimWrapper} {l : List Event} (hc : Created cfg h w l) (c : Command) :
    (ofCmd c (sent (.create h) l)).Nodup := by
  obtain ⟨⟨hread, -⟩, hwrite, -⟩ := hc
  have hchunk (f : Nat → Payload) (hf : ∀ i, (f i).chunk = i) :
      ((List.range cfg.payloadNum).map f).Nodup :=
    List.Nodup.map (fun i j hij => by rw [← hf i, hij, hf]) List.nodup_range
  cases c with
  | read =>
      rw [hread]
      refine packetPayloads_nodup (fun q n => hchunk _ fun i => rfl) ?_ _
      intro q n p hp
      obtain ⟨i, -, rfl⟩ := List.mem_map.mp hp
      rfl
  | write =>
      rw [hwrite]
      refine packetPayloads_nodup (fun q n => hchunk _ fun i => rfl) ?_ _
      intro q n p hp
      obtain ⟨i, -, rfl⟩ := List.mem_map.mp hp
      rfl

/-- Packet and chunk tell the created payloads of one command apart. -/
theorem Created.key_inj {w : SimWrapper} {l : List Event} (hc : Created cfg h w l) {c : Command}
    {p q : Payload} (hp : p ∈ ofCmd c (sent (.create h) l)) (hq : q ∈ ofCmd c (sent (.create h) l))
    (hk : p.key = q.key) : p = q := by
  obtain ⟨⟨hread, -⟩, hwrite, -⟩ := hc
  cases c with
  | read =>
      rw [hread] at hp hq
      obtain ⟨n, hn, hp⟩ := mem_packetPayloads.mp hp
      obtain ⟨n', hn', hq⟩ := mem_packetPayloads.mp hq
      obtain ⟨i, -, rfl⟩ := List.mem_map.mp hp
      obtain ⟨i', -, rfl⟩ := List.mem_map.mp hq
      simp only [Payload.key, readPayload, Prod.mk.injEq] at hk
      obtain ⟨rfl, rfl⟩ := hk
      rfl
  | write =>
      rw [hwrite] at hp hq
      obtain ⟨n, hn, hp⟩ := mem_packetPayloads.mp hp
      obtain ⟨n', hn', hq⟩ := mem_packetPayloads.mp hq
      obtain ⟨i, -, rfl⟩ := List.mem_map.mp hp
      obtain ⟨i', -, rfl⟩ := List.mem_map.mp hq
      simp only [Payload.key, writePayload, Prod.mk.injEq] at hk
      obtain ⟨rfl, rfl⟩ := hk
      rfl

end SimWrapper

end TSim4CXL
