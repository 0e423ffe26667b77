/-
  What the ports of a host can do, and what always holds between them and the log.

  `Usp.Move` cuts each thread at its waits: a `start` move runs up to a `wait`, a
  `finish` move from there to the end of the flit. `fw = idle` also stands for the
  point between the write part and the read part of an iteration.

  Proved:
  * `uspQueues_closed`: payloads received are those forwarded, then the one held by a
    suspended flit, `pending_queue`, the queue
  * `uspAcks_closed`: the same for the acks
  * `uspPhase_closed`: `f_idx`, `pending_queue` and the suspended flit agree, so that no
    `front` of `fw_thread` meets an empty queue (`fwThread_error`)
  * `dspQueues_closed`: the same for the requests and the acks of the DSP
-/
import TSim4CXL.Model.Usp

namespace TSim4CXL

open Transition

namespace Usp

variable {cfg : Config} {h : Nat}

/-! ## Moves -/

inductive Move (cfg : Config) (h : Nat) : Usp → List Event → Usp → Prop
  | startLast (u : Usp) {p : Payload} {q : List Payload} (hf : u.fw = .idle) (hi : u.fIdx = 4)
      (hq : u.pendingQueue = p :: q) :
      Move cfg h u [] { u with fIdx := 0, pendingQueue := q, fw := .lastFlit p }
  | startFirst (u : Usp) (hf : u.fw = .idle) (hi : u.fIdx = 0) (hw : u.wQueue ≠ []) :
      Move cfg h u []
        { u with
          fw := .firstFlit (if u.stats.writeFlit % 20 = 0 then flitLatency cfg else .period) }
  | startMid (u : Usp) {p : Payload} {q : List Payload} (hf : u.fw = .idle) (hi : u.fIdx ≠ 0)
      (hi' : u.fIdx ≠ 4) (hw : u.wQueue ≠ []) (hq : u.pendingQueue = p :: q) :
      Move cfg h u [] { u with pendingQueue := q, fw := .midFlit p }
  | finishLast (u : Usp) {p : Payload} (hf : u.fw = .lastFlit p) :
      Move cfg h u [.call (.dspFw h) p] { u with stats := u.stats.increaseWFlit, fw := .idle }
  | finishFirst (u : Usp) {d : Delay} {p : Payload} {q : List Payload} (hf : u.fw = .firstFlit d)
      (hq : u.wQueue = p :: q) :
      Move cfg h u [] { u with
        stats := u.stats.increaseWFlit, wQueue := q, pendingQueue := u.pendingQueue ++ [p],
        fIdx := u.fIdx + 1, fw := .idle }
  | finishMid (u : Usp) {p p' : Payload} {q : List Payload} (hf : u.fw = .midFlit p)
      (hq : u.wQueue = p' :: q) :
      Move cfg h u [.call (.dspFw h) p] { u with
        stats := u.stats.increaseWFlit, wQueue := q, pendingQueue := u.pendingQueue ++ [p'],
        fIdx := u.fIdx + 1, fw := .idle }
  | startRead (u : Usp) (hf : u.fw = .idle) (hr : rMsg ≤ u.rQueue.length)
      (hn : cfg.payloadNum / rMsg ≠ 0) :
      Move cfg h u []
        { u with
          fw := .readFlit
            (if u.stats.readFlit % (cfg.payloadNum / rMsg) = 0 then flitLatency cfg
            else .period) }
  | finishRead (u : Usp) {d : Delay} {a b : Payload} {q : List Payload} (hf : u.fw = .readFlit d)
      (hq : u.rQueue = a :: b :: q) :
      Move cfg h u [.call (.dspFw h) a, .call (.dspFw h) b]
        { u with rQueue := q, stats := u.stats.increaseRFlit, fw := .idle }
  | takeWack (u : Usp) {p : Payload} {q : List Payload} (hb : u.bw = .idle)
      (hq : u.wackQueue = p :: q) :
      Move cfg h u [] { u with wackQueue := q, bw := .wack p (ackDelay cfg u.wackNum) }
  | takeRack (u : Usp) {p : Payload} {q : List Payload} (hb : u.bw = .idle)
      (hq : u.rackQueue = p :: q) :
      Move cfg h u [] { u with rackQueue := q, bw := .rack p (ackDelay cfg u.rackNum) }
  | sendWack (u : Usp) {p : Payload} {d : Delay} (hb : u.bw = .wack p d) :
      Move cfg h u [.call (.simBw h) p] { u with wackNum := u32 (u.wackNum + 1), bw := .idle }
  | sendRack (u : Usp) {p : Payload} {d : Delay} (hb : u.bw = .rack p d) :
      Move cfg h u [.call (.simBw h) p] { u with rackNum := u32 (u.rackNum + 1), bw := .idle }

/-- A USP as a component. -/
def component (cfg : Config) (h : Nat) : Component Usp Event where
  hear := hear h
  foreign e := e.source ≠ .usp h
  move := Move cfg h

theorem Move.source {u u' : Usp} {es : List Event} (hm : Move cfg h u es u') :
    ∀ e ∈ es, e.source = .usp h := by
  cases hm <;> simp [Event.source, Chan.source]

/-! ### Steps are chains of moves -/

/-- The READ part starts a flit or leaves the thread between two flits. -/
theorem checkRead_start {u u' : Usp} (hs : checkRead cfg u = .ok u') : { u with fw := .idle } = u' ∨
    u'.fw ≠ .idle ∧ Move cfg h { u with fw := .idle } [] u' := by
  unfold checkRead at hs
  split at hs
  · rename_i hr
    split at hs
    · cases hs
    · rename_i hn
      cases hs
      exact .inr ⟨UspFw.noConfusion, .startRead { u with fw := .idle } rfl hr hn⟩
  · cases hs
    exact .inl rfl

theorem startWriteFlit_move {u u' : Usp} (hf : u.fw = .idle) (hw : u.wQueue ≠ [] ∨ u.fIdx = 4)
    (hs : startWriteFlit cfg u = .ok u') : Move cfg h u [] u' := by
  unfold startWriteFlit at hs
  split at hs
  · rename_i hi
    obtain ⟨⟨p, q⟩, hq, hs⟩ := bind_eq_ok.mp hs
    cases hs
    exact .startLast u hf hi (front_eq_ok.mp hq)
  · rename_i hi
    have hw := hw.resolve_right hi
    split at hs
    · rename_i hi0
      cases hs
      exact .startFirst u hf hi0 hw
    · rename_i hi0
      obtain ⟨⟨p, q⟩, hq, hs⟩ := bind_eq_ok.mp hs
      cases hs
      exact .startMid u hf hi0 hi hw (front_eq_ok.mp hq)

theorem fronts_rMsg {q q' ps : List Payload} (hs : fronts rMsg q = .ok (ps, q')) :
    ∃ a b, q = a :: b :: q' ∧ ps = [a, b] := by
  match q with
  | [] => cases hs
  | [_] => cases hs
  | a :: b :: q =>
      cases hs
      exact ⟨a, b, rfl, rfl⟩

theorem takeWrite_eq_ok {u u' : Usp} : takeWrite u = .ok u' ↔ ∃ p q, u.wQueue = p :: q ∧
    { u with wQueue := q, pendingQueue := u.pendingQueue ++ [p], fIdx := u.fIdx + 1 } = u' := by
  cases hw : u.wQueue <;>
    simp [takeWrite, hw, front, bind, Except.bind, pure, Except.pure]

theorem startWriteFlit_fw {u u' : Usp} (hs : startWriteFlit cfg u = .ok u') : u'.fw ≠ .idle := by
  unfold startWriteFlit at hs
  split at hs
  · obtain ⟨⟨p, q⟩, -, hs⟩ := bind_eq_ok.mp hs
    cases hs
    exact UspFw.noConfusion
  · split at hs
    · cases hs
      exact UspFw.noConfusion
    · obtain ⟨⟨p, q⟩, -, hs⟩ := bind_eq_ok.mp hs
      cases hs
      exact UspFw.noConfusion

/-- `fw_thread` from the `wait` it is suspended in to the end of that call of
    `flit_packing_68`; between two iterations it is in none. -/
def endCall (h : Nat) (u : Usp) : Except Fault (Usp × List Event) :=
  match u.fw with
  | .idle => .ok (u, [])
  | .lastFlit p =>
      .ok ({ u with stats := u.stats.increaseWFlit, fw := .idle }, [.call (.dspFw h) p])
  | .firstFlit _ => do
      let u ← takeWrite { u with stats := u.stats.increaseWFlit }
      pure ({ u with fw := .idle }, [])
  | .midFlit p => do
      let u ← takeWrite { u with stats := u.stats.increaseWFlit }
      pure ({ u with fw := .idle }, [.call (.dspFw h) p])
  | .readFlit _ => do
      let (ps, q) ← fronts rMsg u.rQueue
      pure ({ u with rQueue := q, stats := u.stats.increaseRFlit, fw := .idle },
        ps.map (.call (.dspFw h)))

/-- From there to the next `wait`; `fw` is where the thread was suspended before. -/
def nextCall (cfg : Config) (fw : UspFw) (u : Usp) : Except Fault Usp :=
  match fw with
  | .idle => if u.wQueue ≠ [] ∨ u.fIdx = 4 then startWriteFlit cfg u else checkRead cfg u
  | .readFlit _ => .ok u
  | _ => checkRead cfg u

/-- Every point between two calls is the state after an `endCall`. -/
theorem fwThread_eq (u : Usp) : u.fwThread cfg h = (do
    let (v, es) ← u.endCall h
    let u' ← v.nextCall cfg u.fw
    pure (u', es)) := by
  unfold fwThread endCall nextCall
  cases hf : u.fw with
  | idle =>
      dsimp only [bind, Except.bind]
      split <;> rfl
  | lastFlit p => rfl
  | firstFlit d | midFlit d =>
      dsimp only [bind]
      generalize takeWrite _ = x
      cases x <;> rfl
  | readFlit d =>
      dsimp only [bind]
      cases fronts rMsg u.rQueue <;> rfl

theorem endCall_move (cfg : Config) {u v : Usp} {es : List Event} (hs : u.endCall h = .ok (v, es)) :
    v.fw = .idle ∧ (u = v ∧ es = [] ∨ u.fw ≠ .idle ∧ Move cfg h u es v) := by
  unfold endCall at hs
  split at hs
  · rename_i hf
    cases hs
    exact ⟨hf, .inl ⟨rfl, rfl⟩⟩
  · rename_i p hf
    cases hs
    exact ⟨rfl, .inr ⟨by simp [hf], .finishLast u hf⟩⟩
  · rename_i d hf
    obtain ⟨u₁, h1, hs⟩ := bind_eq_ok.mp hs
    obtain ⟨p, q, hq, rfl⟩ := takeWrite_eq_ok.mp h1
    cases hs
    exact ⟨rfl, .inr ⟨by simp [hf], .finishFirst u hf hq⟩⟩
  · rename_i p hf
    obtain ⟨u₁, h1, hs⟩ := bind_eq_ok.mp hs
    obtain ⟨p', q, hq, rfl⟩ := takeWrite_eq_ok.mp h1
    cases hs
    exact ⟨rfl, .inr ⟨by simp [hf], .finishMid u hf hq⟩⟩
  · rename_i d hf
    obtain ⟨⟨ps, q⟩, hq, hs⟩ := bind_eq_ok.mp hs
    cases hs
    obtain ⟨a, b, hr, rfl⟩ := fronts_rMsg hq
    exact ⟨rfl, .inr ⟨by simp [hf], .finishRead u hf hr⟩⟩

/-- What every move keeps holds between two calls. -/
theorem closed_endCall (cfg : Config) {P : Usp → List Event → Prop}
    (hP : (component cfg h).Closed P) {u v : Usp} {l es : List Event} (hp : P u l)
    (hs : u.endCall h = .ok (v, es)) : P v (l ++ es) := by
  obtain ⟨-, ⟨rfl, rfl⟩ | ⟨-, hm⟩⟩ := endCall_move cfg hs
  · rwa [List.append_nil]
  · exact hP.move _ _ _ _ hm hp

theorem nextCall_move {u u' : Usp} {fw : UspFw} (hf : u.fw = .idle)
    (hs : u.nextCall cfg fw = .ok u') : u = u' ∨ u'.fw ≠ .idle ∧ Move cfg h u [] u' := by
  have hread (hs : checkRead cfg u = .ok u') : u = u' ∨ u'.fw ≠ .idle ∧ Move cfg h u [] u' := by
    have hu : { u with fw := .idle } = u := by rw [← hf]
    have hstart := checkRead_start (h := h) hs
    rwa [hu] at hstart
  unfold nextCall at hs
  split at hs
  · split at hs
    · rename_i hw
      exact .inr ⟨startWriteFlit_fw hs, startWriteFlit_move hf hw hs⟩
    · exact hread hs
  · exact .inl (Except.ok.inj hs)
  · exact hread hs

/-- A stretch of `fw_thread` ends the flit it is suspended in, and may start one. -/
theorem fwThread_split {u u' : Usp} {es : List Event} (hs : u.fwThread cfg h = .ok (u', es)) :
    ∃ v : Usp, v.fw = .idle ∧ (u = v ∧ es = [] ∨ u.fw ≠ .idle ∧ Move cfg h u es v) ∧
      (v = u' ∨ u'.fw ≠ .idle ∧ Move cfg h v [] u') := by
  rw [fwThread_eq] at hs
  obtain ⟨⟨v, es'⟩, hend, hs⟩ := bind_eq_ok.mp hs
  obtain ⟨w, hnext, hs⟩ := bind_eq_ok.mp hs
  cases hs
  obtain ⟨hv, hm⟩ := endCall_move cfg hend
  exact ⟨v, hv, hm, nextCall_move hv hnext⟩

theorem fwThread_chain {u u' : Usp} {es : List Event} (hs : u.fwThread cfg h = .ok (u', es)) :
    Chain (Move cfg h) u es u' := by
  obtain ⟨v, -, hfinish, hstart⟩ := fwThread_split hs
  have hv : Chain (Move cfg h) v [] u' := by
    rcases hstart with rfl | ⟨-, hm⟩
    · exact .nil _
    · exact .single hm
  rcases hfinish with ⟨rfl, rfl⟩ | ⟨-, hm⟩
  · exact hv
  · simpa using Chain.cons hm hv

theorem checkRack_chain (u : Usp) :
    Chain (Move cfg h) { u with bw := .idle } [] (checkRack cfg u) := by
  unfold checkRack
  split
  · exact .nil _
  · rename_i p q hq
    exact .single (.takeRack { u with bw := .idle } rfl hq)

theorem bwThread_chain (u : Usp) :
    Chain (Move cfg h) u (u.bwThread cfg h).2 (u.bwThread cfg h).1 := by
  unfold bwThread
  split
  · rename_i hb
    split
    · have hc := @checkRack_chain cfg h u
      rwa [← hb] at hc
    · rename_i p q hq
      exact .single (.takeWack u hb hq)
  · rename_i p d hb
    exact .cons (.sendWack u hb) (checkRack_chain { u with wackNum := u32 (u.wackNum + 1) })
  · rename_i p d hb
    exact .single (.sendRack u hb)

/-- `bw_thread` leaves the requests alone. -/
theorem bwThread_frame (cfg : Config) (h : Nat) (u : Usp) : (u.bwThread cfg h).1.fw = u.fw ∧
    (u.bwThread cfg h).1.fIdx = u.fIdx ∧ (u.bwThread cfg h).1.stats = u.stats ∧
    (u.bwThread cfg h).1.rQueue = u.rQueue ∧ (u.bwThread cfg h).1.wQueue = u.wQueue ∧
    ∀ c, c ≠ .simBw h → sent c (u.bwThread cfg h).2 = [] := by
  have hcheck (v : Usp) : (checkRack cfg v).fw = v.fw ∧ (checkRack cfg v).fIdx = v.fIdx ∧
      (checkRack cfg v).stats = v.stats ∧ (checkRack cfg v).rQueue = v.rQueue ∧
      (checkRack cfg v).wQueue = v.wQueue := by
    unfold checkRack
    split <;> exact ⟨rfl, rfl, rfl, rfl, rfl⟩
  have hsent (p : Payload) {c : Chan} (hc : c ≠ .simBw h) : sent c [.call (.simBw h) p] = [] := by
    simp [hc.symm]
  unfold bwThread
  split
  · split
    · obtain ⟨h1, h2, h3, h4, h5⟩ := hcheck u
      exact ⟨h1, h2, h3, h4, h5, fun _ _ => rfl⟩
    · exact ⟨rfl, rfl, rfl, rfl, rfl, fun _ _ => rfl⟩
  · rename_i p d _
    obtain ⟨h1, h2, h3, h4, h5⟩ := hcheck { u with wackNum := u32 (u.wackNum + 1) }
    exact ⟨h1, h2, h3, h4, h5, fun c hc => hsent p hc⟩
  · rename_i p d _
    exact ⟨rfl, rfl, rfl, rfl, rfl, fun c hc => hsent p hc⟩

/-- Every step of a USP is a chain of moves. -/
theorem act_chain {u u' : Usp} {a : Act} {es : List Event} (hs : u.act cfg h a = .ok (u', es)) :
    Chain (Move cfg h) u es u' := by
  cases a with
  | fw => exact fwThread_chain hs
  | bw => exact .of_ok hs (bwThread_chain u)

/-! ## Hearing -/

/-- A USP hears requests of its host and acks of its DSP. -/
theorem hear_cases (u : Usp) (e : Event) :
    (u.hear h e = u ∧ sent (.uspFw h) [e] = [] ∧ sent (.uspBw h) [e] = []) ∨
      (∃ p, e = .call (.uspFw h) p ∧ u.hear h e = u.nbTransportFw p) ∨
      ∃ p, e = .call (.uspBw h) p ∧ u.hear h e = u.nbTransportBw p := by
  cases e with
  | call c p =>
      by_cases h1 : c = .uspFw h
      · exact .inr (.inl ⟨p, by rw [h1], by simp [h1, hear]⟩)
      · by_cases h2 : c = .uspBw h
        · exact .inr (.inr ⟨p, by rw [h2], by simp [h2, hear]⟩)
        · refine .inl ⟨?_, by simp [h1], by simp [h2]⟩
          cases c <;> simp_all [hear]
  | _ => exact .inl ⟨rfl, rfl, rfl⟩

theorem foreign_sent {e : Event} (he : e.source ≠ .usp h) {c : Chan} (hc : c.source = .usp h) :
    sent c [e] = [] :=
  sent_eq_nil c (by simpa [hc] using he)

/-! ## Requests -/

/-- The write payload a suspended flit holds. -/
def held (u : Usp) : List Payload :=
  match u.fw with
  | .lastFlit p => [p]
  | .midFlit p => [p]
  | _ => []

/-- The requests of one command in the USP, oldest first. -/
def fwContents (u : Usp) : Command → List Payload
  | .read => u.rQueue
  | .write => u.held ++ u.pendingQueue ++ u.wQueue

/-- Requests received are those forwarded and then those inside. -/
def Queues (h : Nat) (u : Usp) (l : List Event) : Prop :=
  ∀ c, ofCmd c (sent (.uspFw h) l) = ofCmd c (sent (.dspFw h) l) ++ u.fwContents c

theorem Queues.command {u : Usp} {l : List Event} (hq : Queues h u l) {c : Command} :
    ∀ p ∈ u.fwContents c, p.command = c := fun p hp =>
  (mem_ofCmd.mp (hq c ▸ List.mem_append_right _ hp : p ∈ ofCmd c (sent (.uspFw h) l))).2

theorem fwContents_nbTransportFw (u : Usp) (p : Payload) (c : Command) :
    (u.nbTransportFw p).fwContents c = u.fwContents c ++ ofCmd c [p] := by
  cases hp : p.command <;> cases c <;> simp [nbTransportFw, fwContents, held, hp, ofCmd_cons]

theorem fwContents_nbTransportBw (u : Usp) (p : Payload) (c : Command) :
    (u.nbTransportBw p).fwContents c = u.fwContents c := by
  cases hp : p.command <;> cases c <;> simp [nbTransportBw, fwContents, held, hp]

theorem uspQueues_closed : (component cfg h).Closed (Queues h) where
  hear u l e he hq c := by
    have hd := foreign_sent he (c := .dspFw h) rfl
    show ofCmd c _ = ofCmd c _ ++ (u.hear h e).fwContents c
    rw [sent_append, sent_append, hd, List.append_nil, ofCmd_append, hq c]
    rcases hear_cases (h := h) u e with ⟨hu, hs, -⟩ | ⟨p, rfl, hu⟩ | ⟨p, rfl, hu⟩
    · rw [hu, hs]
      simp
    · rw [hu, fwContents_nbTransportFw]
      simp
    · rw [hu, fwContents_nbTransportBw]
      simp
  move u l es u' hm hq c := by
    have hr := hq .read
    have hw := hq .write
    have hcr := hq.command (c := .read)
    have hcw := hq.command (c := .write)
    cases hm with
    | startLast hf hi hp => cases c <;> simp_all [fwContents, held]
    | startFirst hf hi => cases c <;> simp_all [fwContents, held]
    | startMid hf hi hi' _ hp => cases c <;> simp_all [fwContents, held]
    | finishLast hf => cases c <;> simp_all [fwContents, held, ofCmd_cons]
    | finishFirst hf hp => cases c <;> simp_all [fwContents, held]
    | finishMid hf hp => cases c <;> simp_all [fwContents, held, ofCmd_cons]
    | startRead hf => cases c <;> simp_all [fwContents, held]
    | finishRead hf hp => cases c <;> simp_all [fwContents, held, ofCmd_cons]
    | takeWack => cases c <;> simp_all [fwContents, held]
    | takeRack => cases c <;> simp_all [fwContents, held]
    | sendWack => cases c <;> simp_all [fwContents, held]
    | sendRack => cases c <;> simp_all [fwContents, held]

/-! ## Acks -/

/-- The ack of one command a suspended `bw_thread` holds. -/
def heldAck (u : Usp) : Command → List Payload
  | .read => match u.bw with
    | .rack p _ => [p]
    | _ => []
  | .write => match u.bw with
    | .wack p _ => [p]
    | _ => []

/-- The acks of one command in the USP, oldest first. -/
def bwContents (u : Usp) : Command → List Payload
  | .read => u.heldAck .read ++ u.rackQueue
  | .write => u.heldAck .write ++ u.wackQueue

/-- Acks received are those sent on to the host and then those inside. -/
def Acks (h : Nat) (u : Usp) (l : List Event) : Prop :=
  ∀ c, ofCmd c (sent (.uspBw h) l) = ofCmd c (sent (.simBw h) l) ++ u.bwContents c

theorem Acks.command {u : Usp} {l : List Event} (ha : Acks h u l) {c : Command} :
    ∀ p ∈ u.bwContents c, p.command = c := fun p hp =>
  (mem_ofCmd.mp (ha c ▸ List.mem_append_right _ hp : p ∈ ofCmd c (sent (.uspBw h) l))).2

theorem bwContents_nbTransportBw (u : Usp) (p : Payload) (c : Command) :
    (u.nbTransportBw p).bwContents c = u.bwContents c ++ ofCmd c [p] := by
  cases hp : p.command <;> cases c <;> simp [nbTransportBw, bwContents, heldAck, hp, ofCmd_cons]

theorem bwContents_nbTransportFw (u : Usp) (p : Payload) (c : Command) :
    (u.nbTransportFw p).bwContents c = u.bwContents c := by
  cases hp : p.command <;> cases c <;> simp [nbTransportFw, bwContents, heldAck, hp]

theorem uspAcks_closed : (component cfg h).Closed (Acks h) where
  hear u l e he ha c := by
    have hs := foreign_sent he (c := .simBw h) rfl
    show ofCmd c _ = ofCmd c _ ++ (u.hear h e).bwContents c
    rw [sent_append, sent_append, hs, List.append_nil, ofCmd_append, ha c]
    rcases hear_cases (h := h) u e with ⟨hu, -, hb⟩ | ⟨p, rfl, hu⟩ | ⟨p, rfl, hu⟩
    · rw [hu, hb]
      simp
    · rw [hu, bwContents_nbTransportFw]
      simp
    · rw [hu, bwContents_nbTransportBw]
      simp
  move u l es u' hm ha c := by
    have hr := ha .read
    have hw := ha .write
    have hcr := ha.command (c := .read)
    have hcw := ha.command (c := .write)
    cases hm with
    | startLast => cases c <;> simp_all [bwContents, heldAck]
    | startFirst => cases c <;> simp_all [bwContents, heldAck]
    | startMid => cases c <;> simp_all [bwContents, heldAck]
    | finishLast => cases c <;> simp_all [bwContents, heldAck]
    | finishFirst => cases c <;> simp_all [bwContents, heldAck]
    | finishMid => cases c <;> simp_all [bwContents, heldAck]
    | startRead => cases c <;> simp_all [bwContents, heldAck]
    | finishRead => cases c <;> simp_all [bwContents, heldAck]
    | takeWack hb hq => cases c <;> simp_all [bwContents, heldAck]
    | takeRack hb hq => cases c <;> simp_all [bwContents, heldAck]
    | sendWack hb => cases c <;> simp_all [bwContents, heldAck, ofCmd_cons]
    | sendRack hb => cases c <;> simp_all [bwContents, heldAck, ofCmd_cons]

/-! ## Phases -/

/-- `f_idx` and `pending_queue` between two flits: phase 0 with nothing pending, or phases 1 to
    4 with one payload. -/
def Settled (u : Usp) : Prop :=
  u.fIdx = 0 ∧ u.pendingQueue = [] ∨ 1 ≤ u.fIdx ∧ u.fIdx ≤ 4 ∧ ∃ p, u.pendingQueue = [p]

/-- What the flit counter, `pending_queue` and the queues look like at each `wait`. -/
def Phase (u : Usp) : Prop :=
  match u.fw with
  | .idle => u.Settled
  | .lastFlit _ => u.fIdx = 0 ∧ u.pendingQueue = []
  | .firstFlit _ => u.fIdx = 0 ∧ u.pendingQueue = [] ∧ u.wQueue ≠ []
  | .midFlit _ => 1 ≤ u.fIdx ∧ u.fIdx ≤ 3 ∧ u.pendingQueue = [] ∧ u.wQueue ≠ []
  | .readFlit _ => u.Settled ∧ rMsg ≤ u.rQueue.length

theorem phase_nbTransportFw {u : Usp} (hp : Phase u) (p : Payload) : Phase (u.nbTransportFw p) := by
  cases hc : p.command <;> cases hf : u.fw <;>
    simp only [Phase, Settled, nbTransportFw, hc, hf, List.length_append, List.length_singleton]
    at hp ⊢ <;>
    simp_all
  omega

theorem phase_nbTransportBw {u : Usp} (hp : Phase u) (p : Payload) : Phase (u.nbTransportBw p) := by
  cases hc : p.command <;> simpa [Phase, Settled, nbTransportBw, hc] using hp

theorem uspPhase_closed : (component cfg h).Closed fun u _ => Phase u where
  hear u l e he hp := by
    show Phase (u.hear h e)
    rcases hear_cases (h := h) u e with ⟨hu, -, -⟩ | ⟨p, -, hu⟩ | ⟨p, -, hu⟩ <;> rw [hu]
    · exact hp
    · exact phase_nbTransportFw hp p
    · exact phase_nbTransportBw hp p
  move u l es u' hm hp := by
    cases hm with
    | startLast hf hi hq => simp_all [Phase, Settled]
    | startFirst hf hi hw => simp_all [Phase, Settled]
    | startMid hf hi hi' hw hq =>
        simp only [Phase, hf] at hp
        rcases hp with ⟨h0, -⟩ | ⟨h1, h4, p, hp⟩
        · exact absurd h0 hi
        · cases hq.symm.trans hp
          exact ⟨h1, by simp only; omega, rfl, hw⟩
    | finishLast hf => simp_all [Phase, Settled]
    | finishFirst hf hq => simp_all [Phase, Settled]
    | finishMid hf hq =>
        simp only [Phase, hf] at hp
        obtain ⟨h1, h3, hpend, -⟩ := hp
        exact .inr ⟨Nat.le_add_left .., Nat.succ_le_succ h3, _, by rw [hpend]; rfl⟩
    | startRead hf hr hn =>
        simp only [Phase, hf] at hp
        exact ⟨hp, hr⟩
    | finishRead hf hq => simp_all [Phase, Settled]
    | takeWack => exact hp
    | takeRack => exact hp
    | sendWack => exact hp
    | sendRack => exact hp

/-- Between two calls `f_idx` and `pending_queue` agree. -/
theorem settled_endCall (cfg : Config) {u v : Usp} {es : List Event} (hp : Phase u)
    (hs : u.endCall h = .ok (v, es)) : v.Settled := by
  have hphase : Phase v := closed_endCall cfg (l := []) uspPhase_closed hp hs
  simpa only [Phase, (endCall_move cfg hs).1] using hphase

/-! ### No empty queue is read -/

theorem checkRead_error {u : Usp} {e : Fault} (hs : checkRead cfg u = .error e) :
    e = .divZero := by
  unfold checkRead at hs
  split at hs
  · split at hs <;> cases hs
    rfl
  · cases hs

theorem startWriteFlit_error {u : Usp} {e : Fault} (hp : u.Settled)
    (hs : startWriteFlit cfg u = .error e) : False := by
  unfold startWriteFlit at hs
  split at hs
  · rename_i hi
    rcases hp with ⟨h0, -⟩ | ⟨-, -, p, hq⟩
    · omega
    · simp [hq, front, bind, Except.bind, pure, Except.pure] at hs
  · split at hs
    · cases hs
    · rename_i h0
      rcases hp with ⟨hi, -⟩ | ⟨-, -, p, hq⟩
      · exact h0 hi
      · simp [hq, front, bind, Except.bind, pure, Except.pure] at hs

theorem takeWrite_error {u : Usp} {e : Fault} (hw : u.wQueue ≠ [])
    (hs : takeWrite u = .error e) : False := by
  rcases bind_eq_error.mp hs with hf | ⟨_, _, hs⟩
  · exact hw (front_eq_error.mp hf).1
  · cases hs

theorem fronts_rMsg_error {q : List Payload} {e : Fault} (hq : rMsg ≤ q.length)
    (hs : fronts rMsg q = .error e) : False := by
  match q with
  | [] => simp [rMsg] at hq
  | [_] => simp [rMsg] at hq
  | a :: b :: q => cases hs

/-- In its phases a USP gets to the end of the call. -/
theorem endCall_error {u : Usp} {e : Fault} (hp : Phase u) (hs : u.endCall h = .error e) :
    False := by
  unfold endCall at hs
  split at hs <;> rename_i hf <;> simp only [Phase, hf] at hp
  · cases hs
  · cases hs
  · rcases bind_eq_error.mp hs with he | ⟨v, -, hs⟩
    · exact takeWrite_error (by exact hp.2.2) he
    · cases hs
  · rcases bind_eq_error.mp hs with he | ⟨v, -, hs⟩
    · exact takeWrite_error (by exact hp.2.2.2) he
    · cases hs
  · rcases bind_eq_error.mp hs with he | ⟨v, -, hs⟩
    · exact fronts_rMsg_error hp.2 he
    · cases hs

theorem nextCall_error {u : Usp} {fw : UspFw} {e : Fault} (hp : u.Settled)
    (hs : u.nextCall cfg fw = .error e) : e = .divZero := by
  unfold nextCall at hs
  split at hs
  · split at hs
    · exact (startWriteFlit_error hp hs).elim
    · exact checkRead_error hs
  · cases hs
  · exact checkRead_error hs

/-- In its phases the only thing that stops `fw_thread` is the division by zero. -/
theorem fwThread_error {u : Usp} {e : Fault} (hp : Phase u)
    (hs : u.fwThread cfg h = .error e) : e = .divZero := by
  rw [fwThread_eq] at hs
  rcases bind_eq_error.mp hs with he | ⟨⟨v, es⟩, hend, hs⟩
  · exact (endCall_error hp he).elim
  · have hv := settled_endCall cfg hp hend
    rcases bind_eq_error.mp hs with he | ⟨w, -, hs⟩
    · exact nextCall_error hv he
    · cases hs

/-! ## Counts -/

/-- Writes that left `w_queue` number `f_idx` modulo 4, and reads leave in pairs. -/
def Counts (h : Nat) (u : Usp) (l : List Event) : Prop :=
  ((ofCmd .write (sent (.dspFw h) l)).length + u.held.length + u.pendingQueue.length) % 4 =
    u.fIdx % 4 ∧
    (ofCmd .read (sent (.dspFw h) l)).length % 2 = 0

theorem uspCounts_closed :
    (component cfg h).Closed fun u l => Queues h u l ∧ Counts h u l := by
  refine uspQueues_closed.and_of ?_ ?_
  · intro u l e he _ hc
    have hd := foreign_sent he (c := .dspFw h) rfl
    show Counts h (u.hear h e) _
    unfold Counts
    rw [sent_append, hd, List.append_nil]
    rcases hear_cases (h := h) u e with ⟨hu, -, -⟩ | ⟨p, -, hu⟩ | ⟨p, -, hu⟩ <;> rw [hu]
    · exact hc
    · cases hp : p.command <;> simpa [Counts, held, nbTransportFw, hp] using hc
    · cases hp : p.command <;> simpa [Counts, held, nbTransportBw, hp] using hc
  · intro u l es u' hm hq hc
    have hcr := hq.command (c := .read)
    have hcw := hq.command (c := .write)
    have ⟨h1, h2⟩ := hc
    cases hm with
    | startLast hf hi hp =>
        simp only [Counts, held, hf, hi, hp, List.length_cons, List.length_nil] at h1 ⊢
        refine ⟨?_, by simpa using h2⟩
        simp at h1 ⊢
        omega
    | startFirst hf => simpa [Counts, held, hf] using hc
    | startMid hf hi hi' hw hp =>
        simp only [Counts, held, hf, hp, List.length_cons, List.length_nil] at h1 ⊢
        refine ⟨?_, by simpa using h2⟩
        simp at h1 ⊢
        omega
    | @finishLast p hf =>
        have hp : p.command = .write := hcw p (by simp [fwContents, held, hf])
        simpa [Counts, held, hf, ofCmd_cons, hp] using hc
    | finishFirst hf hp =>
        simp [Counts, held, hf] at h1 h2 ⊢
        omega
    | @finishMid p p' q hf hp =>
        have hp : p.command = .write := hcw p (by simp [fwContents, held, hf])
        simp [Counts, held, hf, ofCmd_cons, hp] at h1 h2 ⊢
        omega
    | startRead hf => simpa [Counts, held, hf] using hc
    | @finishRead d a b q hf hp =>
        have ha : a.command = .read := hcr a (by simp [fwContents, hp])
        have hb : b.command = .read := hcr b (by simp [fwContents, hp])
        simp [Counts, held, hf, ofCmd_cons, ha, hb] at h1 h2 ⊢
        omega
    | takeWack => simpa [Counts, held] using hc
    | takeRack => simpa [Counts, held] using hc
    | sendWack => simpa [Counts, held, ofCmd_cons] using hc
    | sendRack => simpa [Counts, held, ofCmd_cons] using hc

end Usp

namespace Dsp

variable {h : Nat}

/-! ## DSP -/

/-- A DSP as a component; its steps are its moves. -/
def component (h : Nat) : Component Dsp Event where
  hear := hear h
  foreign e := e.source ≠ .dsp h
  move d es d' := ∃ a, d.act h a = (d', es)

theorem act_source {d d' : Dsp} {a : Act} {es : List Event} (hs : d.act h a = (d', es)) :
    ∀ e ∈ es, e.source = .dsp h := by
  intro e he
  cases a <;> cases hs <;> obtain ⟨p, -, rfl⟩ := List.mem_map.mp he <;> rfl

/-- A DSP hears requests of its USP and acks of the controller. -/
theorem hear_cases (d : Dsp) (e : Event) :
    (d.hear h e = d ∧ sent (.dspFw h) [e] = [] ∧ sent (.dspBw h) [e] = []) ∨
      (∃ p, e = .call (.dspFw h) p ∧ d.hear h e = d.nbTransportFw p) ∨
      ∃ p, e = .call (.dspBw h) p ∧ d.hear h e = d.nbTransportBw p := by
  cases e with
  | call c p =>
      by_cases h1 : c = .dspFw h
      · exact .inr (.inl ⟨p, by rw [h1], by simp [h1, hear]⟩)
      · by_cases h2 : c = .dspBw h
        · exact .inr (.inr ⟨p, by rw [h2], by simp [h2, hear]⟩)
        · refine .inl ⟨?_, by simp [h1], by simp [h2]⟩
          cases c <;> simp_all [hear]
  | _ => exact .inl ⟨rfl, rfl, rfl⟩

theorem foreign_sent {e : Event} (he : e.source ≠ .dsp h) {c : Chan} (hc : c.source = .dsp h) :
    sent c [e] = [] :=
  sent_eq_nil c (by simpa [hc] using he)

/-- The requests of one command in the DSP, oldest first. -/
def fwContents (d : Dsp) : Command → List Payload
  | .read => d.rQueue
  | .write => d.wQueue

/-- The acks of one command in the DSP, oldest first. -/
def bwContents (d : Dsp) : Command → List Payload
  | .read => d.rackQueue
  | .write => d.wackQueue

/-- Requests and acks received are those handed on and then those inside. -/
def Queues (h : Nat) (d : Dsp) (l : List Event) : Prop :=
  ∀ c, ofCmd c (sent (.dspFw h) l) = ofCmd c (sent (.ctrlFw h) l) ++ d.fwContents c ∧
    ofCmd c (sent (.dspBw h) l) = ofCmd c (sent (.uspBw h) l) ++ d.bwContents c

theorem Queues.fw_command {d : Dsp} {l : List Event} (hq : Queues h d l) {c : Command} :
    ∀ p ∈ d.fwContents c, p.command = c := fun p hp =>
  (mem_ofCmd.mp ((hq c).1 ▸ List.mem_append_right _ hp : p ∈ ofCmd c (sent (.dspFw h) l))).2

theorem Queues.bw_command {d : Dsp} {l : List Event} (hq : Queues h d l) {c : Command} :
    ∀ p ∈ d.bwContents c, p.command = c := fun p hp =>
  (mem_ofCmd.mp ((hq c).2 ▸ List.mem_append_right _ hp : p ∈ ofCmd c (sent (.dspBw h) l))).2

/-- One iteration of a thread takes the first payload of each queue. -/
theorem take_drop_ofCmd {c : Command} {r w : List Payload} (hr : ∀ p ∈ r, p.command = .read)
    (hw : ∀ p ∈ w, p.command = .write) : (match c with
      | .read => r
      | .write => w) = ofCmd c (r.take 1 ++ w.take 1) ++ match c with
      | .read => r.drop 1
      | .write => w.drop 1 := by
  have hr1 : ∀ p ∈ r.take 1, p.command = .read := fun p hp => hr p (List.mem_of_mem_take hp)
  have hw1 : ∀ p ∈ w.take 1, p.command = .write := fun p hp => hw p (List.mem_of_mem_take hp)
  rw [ofCmd_append]
  cases c with
  | read =>
      rw [ofCmd_eq_self hr1, ofCmd_eq_nil (by decide) hw1, List.append_nil]
      exact (List.take_append_drop 1 r).symm
  | write =>
      rw [ofCmd_eq_self hw1, ofCmd_eq_nil (by decide) hr1, List.nil_append]
      exact (List.take_append_drop 1 w).symm

theorem dspQueues_closed : (component h).Closed (Queues h) where
  hear d l e he hq c := by
    have hf := foreign_sent he (c := .ctrlFw h) rfl
    have hb := foreign_sent he (c := .uspBw h) rfl
    obtain ⟨h1, h2⟩ := hq c
    show _ = _ ++ (d.hear h e).fwContents c ∧ _ = _ ++ (d.hear h e).bwContents c
    simp only [sent_append, hf, hb, ofCmd_append, List.append_nil, h1, h2]
    rcases hear_cases (h := h) d e with ⟨hd, hs, hs'⟩ | ⟨p, rfl, hd⟩ | ⟨p, rfl, hd⟩
    · rw [hd, hs, hs']
      simp
    · rw [hd]
      cases hp : p.command <;> cases c <;>
        simp [nbTransportFw, fwContents, bwContents, hp, ofCmd_cons]
    · rw [hd]
      cases hp : p.command <;> cases c <;>
        simp [nbTransportBw, fwContents, bwContents, hp, ofCmd_cons]
  move d l es d' hm hq c := by
    obtain ⟨a, ha⟩ := hm
    obtain ⟨h1, h2⟩ := hq c
    have hfw := take_drop_ofCmd (c := c) (hq.fw_command (c := .read)) (hq.fw_command (c := .write))
    have hbw := take_drop_ofCmd (c := c) (hq.bw_command (c := .read)) (hq.bw_command (c := .write))
    cases a with
    | fw =>
        cases ha
        simp only [sent_append, sent_map_call, ofCmd_append c (sent _ _), h1, h2, reduceCtorEq,
          if_false, if_true, List.append_nil, List.append_assoc, List.append_cancel_left_eq]
        cases c <;> exact ⟨hfw, rfl⟩
    | bw =>
        cases ha
        simp only [sent_append, sent_map_call, ofCmd_append c (sent _ _), h1, h2, reduceCtorEq,
          if_false, if_true, List.append_nil, List.append_assoc, List.append_cancel_left_eq]
        cases c <;> exact ⟨rfl, hbw⟩

end Dsp

end TSim4CXL
