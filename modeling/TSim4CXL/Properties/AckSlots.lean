/-
  No ack is lost at the incoming slots.

  `rack_incoming` and `wack_incoming` hold one ack each until the next rising edge. `bw_thread`
  waits a period at the end of each iteration and a latency before each ack, so two acks of one
  command are more than a period apart, whichever branch it takes (`nextSend`). `acks_latched`: for
  any phase of the clock and any acks, `peq_cb` finds the slot empty, and `clock_posedge` appends
  every ack to its queue once, in the order sent, no later than a period after it was sent. The
  queue holds what was appended to it less what `clock_negedge` has answered with END_RESP.
-/
import TSim4CXL.Model.AckLink
import TSim4CXL.Properties.Accounting

namespace TSim4CXL

open Transition LoneHost

namespace AckLink

variable {S : AckSetup} {s t : AckLink} {phase : Nat}

/-- The runs in which the clock rises first at `phase`. -/
def Reachable (S : AckSetup) (phase : Nat) (s : AckLink) : Prop :=
  Reach (step S) anyStep (init phase) s

/-- The acks of a command that `clock_posedge` has appended to their queue. -/
def latched (s : AckLink) : Command → List Payload
  | .read => s.racks
  | .write => s.wacks

/-- The acks of a command that the USP has sent, with the times. -/
def sentOf (s : AckLink) (c : Command) : List (Payload × Nat) := s.sent.filter (·.1.command = c)

/-! ## The invariant -/

/-- Before this time `bw_thread` sends no other ack of the command. -/
def nextSend (S : AckSetup) (s : AckLink) : Command → Nat
  | .read =>
      match s.usp.bw with
      | .idle => s.wake + 1
      | .wack _ _ => s.wake + 1
      | .rack _ _ => s.wake
  | .write =>
      match s.usp.bw with
      | .idle => s.wake + 1
      | .wack _ _ => s.wake
      | .rack _ _ => s.wake + S.period + 1

/-- The acks in hand and in the queues of the USP are of the command they are kept for. -/
def Sorted (u : Usp) : Prop :=
  (∀ p ∈ u.rackQueue, p.command = .read) ∧ (∀ p ∈ u.wackQueue, p.command = .write) ∧
    match u.bw with
    | .idle => True
    | .wack p _ => p.command = .write
    | .rack p _ => p.command = .read

/-- Neither the thread nor the clock is late, and the clock rises within a period. -/
structure Clocked (S : AckSetup) (s : AckLink) : Prop where
  wake : s.now ≤ s.wake
  edge : s.now ≤ s.edge
  edge_le : s.edge ≤ s.now + S.period

/-- Where the last ack of a command is: in its queue, in the event queue or in its slot. Until it is
    in its queue no other is sent. -/
inductive Last (S : AckSetup) (c : Command) (s : AckLink) : Prop
  | queued (hslot : slot s.w c = none) (hpeq : ofCmd c s.w.peq = [])
      (hsent : (s.sentOf c).map Prod.fst = s.latched c)
  | notified (l : List (Payload × Nat)) (p : Payload) (hslot : slot s.w c = none)
      (hpeq : ofCmd c s.w.peq = [p]) (hsent : s.sentOf c = l ++ [(p, s.now)])
      (hl : l.map Prod.fst = s.latched c) (hnext : s.now + S.period < nextSend S s c)
  | arrived (l : List (Payload × Nat)) (p : Payload) (t : Nat) (hslot : slot s.w c = some p)
      (hpeq : ofCmd c s.w.peq = []) (hsent : s.sentOf c = l ++ [(p, t)])
      (hl : l.map Prod.fst = s.latched c) (hedge : s.edge ≤ t + S.period)
      (hnext : s.edge < nextSend S s c)

/-- The queue of a command holds what was appended to it and not taken out again. -/
def Kept (s : AckLink) (c : Command) : Prop := s.latched c = ofCmd c s.ended ++ ackQueue s.w c

theorem Kept.frame {c : Command} (h : Kept s c) (hlatched : t.latched c = s.latched c)
    (hended : t.ended = s.ended) (hqueue : ackQueue t.w c = ackQueue s.w c) : Kept t c := by
  rw [Kept, hlatched, hended, hqueue]
  exact h

structure Inv (S : AckSetup) (s : AckLink) : Prop where
  sorted : Sorted s.usp
  clocked : Clocked S s
  last : ∀ c, Last S c s
  kept : ∀ c, Kept s c

/-- A step that does not concern the acks of a command. -/
theorem Last.frame {c : Command} (h : Last S c s) (hw : slot t.w c = slot s.w c)
    (hpeq : ofCmd c t.w.peq = ofCmd c s.w.peq) (hsent : t.sentOf c = s.sentOf c)
    (hlatched : t.latched c = s.latched c) (hnow : t.now = s.now) (hedge : t.edge = s.edge)
    (hnext : nextSend S s c ≤ nextSend S t c) : Last S c t := by
  cases h with
  | queued h1 h2 h3 =>
      exact .queued (hw.trans h1) (hpeq.trans h2) (by rw [hsent, h3, hlatched])
  | notified l p h1 h2 h3 h4 h5 =>
      exact .notified l p (hw.trans h1) (hpeq.trans h2) (by rw [hsent, h3, hnow])
        (h4.trans hlatched.symm) (by omega)
  | arrived l p u h1 h2 h3 h4 h5 h6 =>
      exact .arrived l p u (hw.trans h1) (hpeq.trans h2) (hsent.trans h3) (h4.trans hlatched.symm)
        (by omega) (by omega)

/-- When the thread sends an ack, the one before is in its queue. -/
theorem Last.queued_of_due {c : Command} (h : Last S c s) (hc : Clocked S s)
    (hnext : nextSend S s c = s.now) : slot s.w c = none ∧ ofCmd c s.w.peq = [] ∧
      (s.sentOf c).map Prod.fst = s.latched c := by
  have hedge := hc.edge
  cases h with
  | queued h1 h2 h3 => exact ⟨h1, h2, h3⟩
  | notified l p _ _ _ _ h => omega
  | arrived l p u _ _ _ _ _ h => omega

/-- The acks sent are those appended, the one in the slot and the one notified. -/
theorem Last.in_order {c : Command} (h : Last S c s) :
    (s.sentOf c).map Prod.fst = s.latched c ++ (slot s.w c).toList ++ ofCmd c s.w.peq := by
  cases h with
  | queued h1 h2 h3 => rw [h1, h2, h3]; simp
  | notified l p h1 h2 h3 h4 => rw [h1, h2, h3, ← h4]; simp
  | arrived l p t h1 h2 h3 h4 => rw [h1, h2, h3, ← h4]; simp

theorem Inv.ackQueue_command (hi : Inv S s) (c : Command) :
    ∀ p ∈ ackQueue s.w c, p.command = c := by
  intro p hp
  have hmem : p ∈ s.latched c := (hi.kept c) ▸ List.mem_append_right _ hp
  have hsent : p ∈ (s.sentOf c).map Prod.fst := by
    rw [(hi.last c).in_order]
    exact List.mem_append_left _ (List.mem_append_left _ hmem)
  obtain ⟨x, hx, rfl⟩ := List.mem_map.mp hsent
  exact of_decide_eq_true (List.mem_filter.mp hx).2

/-! ## The thread of the USP -/

theorem time_ackDelay (hS : S.Waits) (n : Nat) : 1 ≤ S.time (Usp.ackDelay S.cfg n) := by
  unfold Usp.ackDelay
  split
  · exact Nat.mul_pos hS.ns hS.port
  · exact Nat.mul_pos hS.ns hS.link

/-- What a stretch of `bw_thread` does to the acks: it sends the one in hand, or none. -/
theorem sorted_bwThread {u : Usp} (h : Sorted u) : Sorted (u.bwThread S.cfg S.host).1 := by
  have hrack {u : Usp} (hr : ∀ p ∈ u.rackQueue, p.command = .read)
      (hw : ∀ p ∈ u.wackQueue, p.command = .write) : Sorted (Usp.checkRack S.cfg u) := by
    unfold Usp.checkRack
    split
    · exact ⟨hr, hw, trivial⟩
    · rename_i p q hq
      rw [hq] at hr
      exact ⟨fun x hx => hr x (List.mem_cons_of_mem _ hx), hw, hr p List.mem_cons_self⟩
  obtain ⟨hr, hw, hbw⟩ := h
  unfold Usp.bwThread
  split
  · split
    · exact hrack hr hw
    · rename_i p q hq
      rw [hq] at hw
      exact ⟨hr, fun x hx => hw x (List.mem_cons_of_mem _ hx), hw p List.mem_cons_self⟩
  · exact hrack hr hw
  · exact ⟨hr, hw, trivial⟩

/-- What `bw_thread` has in hand. -/
def inHand : UspBw → List Payload
  | .idle => []
  | .wack p _ => [p]
  | .rack p _ => [p]

theorem bwThread_events (cfg : Config) (h : Nat) (u : Usp) :
    (u.bwThread cfg h).2 = (inHand u.bw).map (.call (.simBw h)) := by
  unfold Usp.bwThread
  split
  · rename_i hb
    rw [hb]
    split <;> rfl
  · rename_i hb
    rw [hb]
    rfl
  · rename_i hb
    rw [hb]
    rfl

/-- The state after a stretch of the thread. -/
def afterBw (S : AckSetup) (s : AckLink) : AckLink :=
  let r := s.usp.bwThread S.cfg S.host
  { s with
    usp := r.1
    w := r.2.foldl (SimWrapper.hear S.host) s.w
    wake := s.now + S.time r.1.bw.delay
    sent := s.sent ++ (TSim4CXL.sent (.simBw S.host) r.2).map (·, s.now) }

theorem afterBw_w : (afterBw S s).w = { s.w with peq := s.w.peq ++ inHand s.usp.bw } := by
  show (s.usp.bwThread S.cfg S.host).2.foldl _ _ = _
  rw [bwThread_events]
  cases s.usp.bw <;> simp [inHand, SimWrapper.hear, SimWrapper.nbTransportBw]

theorem afterBw_sentOf (c : Command) :
    (afterBw S s).sentOf c = s.sentOf c ++ (ofCmd c (inHand s.usp.bw)).map (·, s.now) := by
  show List.filter _ (s.sent ++ (TSim4CXL.sent _ (s.usp.bwThread S.cfg S.host).2).map _) = _
  rw [bwThread_events, List.filter_append]
  cases s.usp.bw <;> simp [inHand, sentOf, ofCmd, List.filter_cons] <;> split <;> simp

theorem checkRack_bw (cfg : Config) (u : Usp) : (Usp.checkRack cfg u).bw = .idle ∨
    ∃ p n, (Usp.checkRack cfg u).bw = .rack p (Usp.ackDelay cfg n) := by
  unfold Usp.checkRack
  split
  · exact .inl rfl
  · exact .inr ⟨_, _, rfl⟩

/-- After a stretch the thread waits in the idle state for a period, or with an ack in hand. -/
theorem bwThread_bw (cfg : Config) (h : Nat) (u : Usp) : (u.bwThread cfg h).1.bw = .idle ∨
    (∃ p n, (u.bwThread cfg h).1.bw = .rack p (Usp.ackDelay cfg n) ∧ ∀ q d, u.bw ≠ .rack q d) ∨
      ∃ p n, (u.bwThread cfg h).1.bw = .wack p (Usp.ackDelay cfg n) ∧ u.bw = .idle := by
  unfold Usp.bwThread
  split
  · rename_i hb
    split
    · rcases checkRack_bw cfg u with h | ⟨p, n, h⟩
      · exact .inl h
      · exact .inr (.inl ⟨p, n, h, fun q d hq => by rw [hb] at hq; cases hq⟩)
    · exact .inr (.inr ⟨_, _, rfl, hb⟩)
  · rename_i hb
    rcases checkRack_bw cfg { u with wackNum := u32 (u.wackNum + 1) } with h | ⟨p, n, h⟩
    · exact .inl h
    · exact .inr (.inl ⟨p, n, h, fun q d hq => by rw [hb] at hq; cases hq⟩)
  · exact .inl rfl

/-- An ack is not sent before `nextSend`, and after it there is a period and more to the next one of
    its command. -/
theorem nextSend_afterBw (hS : S.Waits) (hwake : s.now = s.wake) (hsorted : Sorted s.usp)
    (c : Command) :
    if ofCmd c (inHand s.usp.bw) = [] then nextSend S s c ≤ nextSend S (afterBw S s) c
    else nextSend S s c = s.now ∧ s.now + S.period < nextSend S (afterBw S s) c := by
  have hpos := hS.period
  have hdelay := time_ackDelay hS
  obtain ⟨-, -, hbw⟩ := hsorted
  have hwake' : (afterBw S s).wake = s.now + S.time (s.usp.bwThread S.cfg S.host).1.bw.delay := rfl
  have husp : (afterBw S s).usp.bw = (s.usp.bwThread S.cfg S.host).1.bw := rfl
  rcases bwThread_bw S.cfg S.host s.usp with h | ⟨p, n, h, hno⟩ | ⟨p, n, h, hidle⟩
  · have hperiod : S.time UspBw.idle.delay = S.period := rfl
    rw [h] at hwake' husp
    cases hb : s.usp.bw <;> rw [hb] at hbw <;> cases c <;>
      simp [inHand, ofCmd_cons, hb, hbw, nextSend, husp] <;> omega
  · have hn := hdelay n
    have hrack : S.time (UspBw.rack p (Usp.ackDelay S.cfg n)).delay =
        S.time (Usp.ackDelay S.cfg n) := rfl
    rw [h] at hwake' husp
    cases hb : s.usp.bw with
    | rack q d => exact absurd hb (hno q d)
    | _ => rw [hb] at hbw; cases c <;> simp [inHand, ofCmd_cons, hb, hbw, nextSend, husp] <;> omega
  · have hn := hdelay n
    have hwack : S.time (UspBw.wack p (Usp.ackDelay S.cfg n)).delay =
        S.time (Usp.ackDelay S.cfg n) := rfl
    rw [h] at hwake' husp
    cases c <;> simp [inHand, hidle, nextSend, husp] <;> omega

theorem ofCmd_inHand (c : Command) (b : UspBw) :
    ofCmd c (inHand b) = [] ∨ ∃ p, ofCmd c (inHand b) = [p] := by
  cases b with
  | idle => exact .inl rfl
  | wack p d =>
      rw [inHand, ofCmd_cons]
      split
      · exact .inr ⟨p, rfl⟩
      · exact .inl rfl
  | rack p d =>
      rw [inHand, ofCmd_cons]
      split
      · exact .inr ⟨p, rfl⟩
      · exact .inl rfl

theorem Inv.bw (hS : S.Waits) (hi : Inv S s) (hwake : s.now = s.wake) : Inv S (afterBw S s) where
  sorted := sorted_bwThread hi.sorted
  clocked := ⟨Nat.le_add_right _ _, hi.clocked.edge, hi.clocked.edge_le⟩
  last c := by
    have hnext := nextSend_afterBw hS hwake hi.sorted c
    have hslot : slot (afterBw S s).w c = slot s.w c := by
      rw [afterBw_w]
      cases c <;> rfl
    have hpeq : ofCmd c (afterBw S s).w.peq = ofCmd c s.w.peq ++ ofCmd c (inHand s.usp.bw) := by
      rw [afterBw_w, ofCmd_append]
    have hsent := afterBw_sentOf (S := S) (s := s) c
    split at hnext
    · rename_i hnone
      rw [hnone, List.map_nil, List.append_nil] at hsent
      rw [hnone, List.append_nil] at hpeq
      exact (hi.last c).frame hslot hpeq hsent (by cases c <;> rfl) rfl rfl hnext
    · rename_i hsome
      obtain ⟨h1, h2, h3⟩ := (hi.last c).queued_of_due hi.clocked hnext.1
      obtain ⟨p, hp⟩ := (ofCmd_inHand c s.usp.bw).resolve_left hsome
      rw [h2, hp, List.nil_append] at hpeq
      rw [hp] at hsent
      exact .notified (s.sentOf c) p (hslot.trans h1) hpeq hsent
        (h3.trans (by cases c <;> rfl)) hnext.2
  kept c := (hi.kept c).frame (by cases c <;> rfl) rfl (by rw [afterBw_w]; cases c <;> rfl)

/-! ## The other steps -/

theorem Inv.ack (hi : Inv S s) (p : Payload) : Inv S { s with usp := s.usp.nbTransportBw p } where
  sorted := by
    obtain ⟨hr, hw, hb⟩ := hi.sorted
    unfold Usp.nbTransportBw
    split
    · rename_i hc
      refine ⟨fun q hq => ?_, hw, hb⟩
      rcases List.mem_append.mp hq with hq | hq
      · exact hr q hq
      · rw [List.mem_singleton.mp hq, hc]
    · rename_i hc
      refine ⟨hr, fun q hq => ?_, hb⟩
      rcases List.mem_append.mp hq with hq | hq
      · exact hw q hq
      · rw [List.mem_singleton.mp hq, hc]
  clocked := ⟨hi.clocked.wake, hi.clocked.edge, hi.clocked.edge_le⟩
  last c := by
    have hbw : (s.usp.nbTransportBw p).bw = s.usp.bw := by
      unfold Usp.nbTransportBw
      split <;> rfl
    refine (hi.last c).frame rfl rfl rfl (by cases c <;> rfl) rfl rfl (le_of_eq ?_)
    cases c <;> simp only [nextSend, hbw]
  kept c := (hi.kept c).frame (by cases c <;> rfl) rfl rfl

theorem Inv.other (hi : Inv S s) {b : SimWrapper.Act} {env : SimEnv} {w : SimWrapper}
    {es : List Event} (hb : Act.isOther b = true) (hs : s.w.act S.cfg S.host env b = .ok (w, es)) :
    Inv S { s with w := w, ended := s.ended ++ TSim4CXL.sent (.endResp S.host) es } := by
  have hpos : b ≠ .posedge := by
    rintro rfl
    cases hb
  have hpeq : b ≠ .peq := by
    rintro rfl
    cases hb
  obtain ⟨hw, rs, ws, hes, hr, hwk⟩ := SimWrapper.act_consumes hpos hpeq hs
  simp only [SimWrapper.incoming, Prod.mk.injEq] at hw
  obtain ⟨hpeq, hrack, hwack⟩ := hw
  refine ⟨hi.sorted, ⟨hi.clocked.wake, hi.clocked.edge, hi.clocked.edge_le⟩, fun c => ?_,
    fun c => ?_⟩
  · refine (hi.last c).frame ?_ (congrArg (ofCmd c) hpeq) rfl (by cases c <;> rfl) rfl rfl
      (le_of_eq (by cases c <;> rfl))
    cases c
    · exact hrack
    · exact hwack
  · -- an ack taken out is of the command of its queue
    have hrs : ∀ p ∈ rs, p.command = .read := fun p hp =>
      hi.ackQueue_command .read p (by rw [ackQueue, hr]; exact List.mem_append_left _ hp)
    have hws : ∀ p ∈ ws, p.command = .write := fun p hp =>
      hi.ackQueue_command .write p (by rw [ackQueue, hwk]; exact List.mem_append_left _ hp)
    have h := hi.kept c
    unfold Kept at h ⊢
    dsimp only
    rw [hes, ofCmd_append, ofCmd_append]
    cases c with
    | read =>
        rw [ofCmd_eq_self hrs, ofCmd_eq_nil Command.noConfusion hws]
        simp only [ackQueue, List.append_nil, List.append_assoc, ← hr] at h ⊢
        exact h
    | write =>
        rw [ofCmd_eq_self hws, ofCmd_eq_nil Command.noConfusion hrs]
        simp only [ackQueue, List.nil_append, List.append_assoc, ← hwk] at h ⊢
        exact h

/-- Time passes only when nothing is due. -/
theorem Inv.tick (hi : Inv S s) (hwake : s.now < s.wake) (hedge : s.now < s.edge)
    (hpeq : s.w.peq = []) : Inv S { s with now := s.now + 1 } where
  sorted := hi.sorted
  clocked := ⟨hwake, hedge, by
    have := hi.clocked.edge_le
    show s.edge ≤ s.now + 1 + S.period
    omega⟩
  last c := by
    have hl := hi.last c
    cases hl with
    | queued h1 h2 h3 => exact .queued h1 h2 (h3.trans (by cases c <;> rfl))
    | notified l p _ h => rw [hpeq] at h; cases h
    | arrived l p t h1 h2 h3 h4 h5 h6 =>
        exact .arrived l p t h1 h2 h3 (h4.trans (by cases c <;> rfl)) h5 (by cases c <;> exact h6)
  kept c := (hi.kept c).frame (by cases c <;> rfl) rfl rfl

/-- The state after a rising edge. -/
def afterEdge (S : AckSetup) (s : AckLink) : AckLink :=
  let w := s.w.clockPosedge
  { s with
    w := w
    edge := s.edge + S.period
    racks := s.racks ++ w.rackQueue.drop s.w.rackQueue.length
    wacks := s.wacks ++ w.wackQueue.drop s.w.wackQueue.length }

/-- `clock_posedge` appends the ack in the slot. -/
theorem afterEdge_latched (c : Command) :
    (afterEdge S s).latched c = s.latched c ++ (slot s.w c).toList := by
  cases c <;> simp [afterEdge, latched, slot, SimWrapper.clockPosedge]

theorem afterEdge_ackQueue (c : Command) :
    ackQueue (afterEdge S s).w c = ackQueue s.w c ++ (slot s.w c).toList := by
  cases c <;> rfl

/-- A rising edge puts the acks in the slots into their queues. -/
theorem Inv.posedge (hi : Inv S s) (hedge : s.now = s.edge) : Inv S (afterEdge S s) where
  sorted := hi.sorted
  clocked := by
    refine ⟨hi.clocked.wake, ?_, ?_⟩
    · show s.now ≤ s.edge + S.period
      omega
    · show s.edge + S.period ≤ s.now + S.period
      omega
  last c := by
    have hslot : slot (afterEdge S s).w c = none := by cases c <;> rfl
    have hlatched := afterEdge_latched (S := S) (s := s) c
    cases hi.last c with
    | queued h1 h2 h3 =>
        refine .queued hslot h2 ?_
        rw [hlatched, h1]
        exact h3.trans (List.append_nil _).symm
    | notified l p h1 h2 h3 h4 h5 =>
        refine .notified l p hslot h2 h3 ?_ (by cases c <;> exact h5)
        rw [hlatched, h1]
        exact h4.trans (List.append_nil _).symm
    | arrived l p t h1 h2 h3 h4 =>
        refine .queued hslot h2 ?_
        rw [hlatched, h1, ← h4]
        show (s.sentOf c).map Prod.fst = _
        rw [h3, List.map_append]
        rfl
  kept c := by
    rw [Kept, afterEdge_latched, afterEdge_ackQueue, hi.kept c, List.append_assoc]
    rfl

/-- A notification finds its slot empty. -/
theorem Inv.slotFree (hi : Inv S s) : SlotFree s.w := by
  intro p hp
  have hmem : p ∈ ofCmd p.command s.w.peq := mem_ofCmd.mpr ⟨List.mem_of_mem_head? hp, rfl⟩
  cases hi.last p.command with
  | queued h1 => exact h1
  | notified l q h1 => exact h1
  | arrived l q t _ h2 => rw [h2] at hmem; cases hmem

/-- `peq_cb` moves the first ack notified into the slot of its command. -/
theorem peqCb_slot {w w' : SimWrapper} (hs : w.peqCb = .ok w') : ∃ p q, w.peq = p :: q ∧
    w'.peq = q ∧ (∀ c, slot w' c = if p.command = c then some p else slot w c) ∧
      ∀ c, ackQueue w' c = ackQueue w c := by
  unfold SimWrapper.peqCb at hs
  split at hs
  · cases hs
  · rename_i p q hq
    refine ⟨p, q, hq, ?_⟩
    split at hs <;> rename_i hc <;> cases hs <;>
      exact ⟨rfl, fun c => by cases c <;> simp [slot, hc], fun c => by cases c <;> rfl⟩

theorem Inv.peq (hi : Inv S s) {w : SimWrapper} (hs : s.w.peqCb = .ok w) :
    Inv S { s with w := w } where
  sorted := hi.sorted
  clocked := ⟨hi.clocked.wake, hi.clocked.edge, hi.clocked.edge_le⟩
  last c := by
    obtain ⟨p, q, hq, hw, hother, -⟩ := peqCb_slot hs
    by_cases hc : p.command = c
    · -- the only ack of its command there
      have hmem : ofCmd c s.w.peq = p :: ofCmd c q := by rw [hq, ofCmd_cons, if_pos hc]
      have hclock := hi.clocked
      cases hi.last c with
      | queued _ h2 => rw [h2] at hmem; cases hmem
      | arrived _ _ _ _ h2 => rw [h2] at hmem; cases hmem
      | notified l p' h1 h2 h3 h4 h5 =>
          rw [h2] at hmem
          obtain ⟨rfl, hnil⟩ := List.cons.inj hmem
          exact .arrived l p' s.now ((hother c).trans (if_pos hc))
            ((congrArg (ofCmd c) hw).trans hnil.symm)
            h3 (h4.trans (by cases c <;> rfl)) hclock.edge_le
            (Nat.lt_of_le_of_lt hclock.edge_le (by cases c <;> exact h5))
    · refine (hi.last c).frame ((hother c).trans (if_neg hc)) ?_ rfl (by cases c <;> rfl) rfl rfl
        (le_of_eq (by cases c <;> rfl))
      show ofCmd c w.peq = _
      rw [hw, hq, ofCmd_cons, if_neg hc]
  kept c := by
    obtain ⟨_, _, -, -, -, hqueue⟩ := peqCb_slot hs
    exact (hi.kept c).frame (by cases c <;> rfl) rfl (hqueue c)

theorem Inv.step (hS : S.Waits) (hi : Inv S s) {a : Act} (hs : s.step S a = .ok t) : Inv S t := by
  cases a with
  | ack p =>
      cases hs
      exact hi.ack p
  | bw =>
      simp only [AckLink.step] at hs
      split at hs
      · rename_i hwake
        cases hs
        exact hi.bw hS hwake
      · cases hs
  | peq =>
      simp only [AckLink.step] at hs
      split at hs
      · cases hs
      · rename_i hw
        cases hs
        exact hi.peq hw
  | posedge =>
      simp only [AckLink.step] at hs
      split at hs
      · rename_i hedge
        cases hs
        exact hi.posedge hedge
      · cases hs
  | other b env =>
      simp only [AckLink.step] at hs
      split at hs
      · rename_i hb
        split at hs
        · cases hs
        · rename_i hw
          cases hs
          exact hi.other hb hw
      · cases hs
  | tick =>
      simp only [AckLink.step] at hs
      split at hs
      · rename_i h
        cases hs
        exact hi.tick h.1 h.2.1 h.2.2
      · cases hs

theorem Reachable.inv (hS : S.Waits) (hphase : phase ≤ S.period) (hr : Reachable S phase s) :
    Inv S s := by
  refine Reach.invariant (P := Inv S) ⟨?_, ?_, fun c => ?_, fun c => ?_⟩
    (fun _ _ _ _ _ hi hs => hi.step hS hs) hr
  · exact ⟨by simp [init, Usp.init], by simp [init, Usp.init], trivial⟩
  · exact ⟨Nat.le_refl 0, Nat.zero_le phase, by show phase ≤ 0 + S.period; omega⟩
  · exact .queued (by cases c <;> rfl) rfl (by cases c <;> rfl)
  · cases c <;> rfl

/-! ## No ack is lost -/

/-- What becomes of the acks of a host. -/
structure AllLatched (S : AckSetup) (s : AckLink) : Prop where
  slot_free : SlotFree s.w
  in_order : ∀ c, (s.sentOf c).map Prod.fst = s.latched c ++ (slot s.w c).toList ++ ofCmd c s.w.peq
  kept : ∀ c, s.latched c = ofCmd c s.ended ++ ackQueue s.w c
  in_time : ∀ c (i : Nat) (p : Payload) (u : Nat), (s.sentOf c)[i]? = some (p, u) →
    u + S.period < s.now → (s.latched c)[i]? = some p

theorem Inv.allLatched (hi : Inv S s) : AllLatched S s where
  slot_free := hi.slotFree
  in_order c := (hi.last c).in_order
  kept := hi.kept
  in_time c i p u hp hu := by
    have hclock := hi.clocked.edge
    have hlast {l : List (Payload × Nat)} {x : Payload} {v : Nat} (hs : s.sentOf c = l ++ [(x, v)])
        (hl : l.map Prod.fst = s.latched c) (hv : s.now ≤ v + S.period) :
        (s.latched c)[i]? = some p := by
      rw [hs, List.getElem?_append] at hp
      split at hp
      · rw [← hl, List.getElem?_map, hp]
        rfl
      · -- the last one is not that old
        obtain ⟨-, rfl, rfl⟩ : _ ∧ x = p ∧ v = u := by
          rw [List.getElem?_singleton] at hp
          split at hp
          · rename_i h0
            exact ⟨h0, Prod.mk.inj (Option.some.inj hp)⟩
          · cases hp
        omega
    cases hi.last c with
    | queued _ _ h3 => rw [← h3, List.getElem?_map, hp]; rfl
    | notified l x _ _ h3 h4 => exact hlast h3 h4 (Nat.le_add_right _ _)
    | arrived l x v _ _ h3 h4 h5 => exact hlast h3 h4 (by omega)

/-- For any clock phase and any acks: `peq_cb` finds the slot empty, `clock_posedge` appends the
    acks to their queues once and in the order sent, each within a period, and they stay there
    until they are consumed. -/
theorem acks_latched (hS : S.Waits) (hphase : phase ≤ S.period) (hr : Reachable S phase s) :
    AllLatched S s := (hr.inv hS hphase).allLatched

/-- A clock of three ticks, every latency a nanosecond of two ticks. -/
def smallSetup : AckSetup := ⟨smallConfig 1 1 4, 0, 3, 2⟩

/-- Two read acks and a write ack arrive at once. -/
def threeAcks : AckLink :=
  runSkip (step smallSetup) anyStep (init 1)
    ((SimWrapper.readPayload (smallConfig 1 1 4) 0 (.fill .read 8 0) 0 0 ::
        SimWrapper.readPayload (smallConfig 1 1 4) 0 (.fill .read 8 0) 0 1 ::
          [SimWrapper.writePayload (smallConfig 1 1 4) 0 (.fill .write 16 7) 0 0]).map .ack ++
      (List.replicate 20 [.bw, .peq, .posedge, .tick]).flatten)

/-- The times at which they are sent; all are in their queues in the end. -/
theorem acks_latched_of_threeAcks :
    (threeAcks.sent.map Prod.snd = [2, 4, 9] ∧ threeAcks.w.rackQueue.length = 2 ∧
        threeAcks.w.wackQueue.length = 1) ∧
      AllLatched smallSetup threeAcks :=
  ⟨by decide +kernel, acks_latched ⟨by decide, by decide, by decide, by decide⟩
    (show 1 ≤ smallSetup.period by decide) (reach_runSkip _ _)⟩

end AckLink

end TSim4CXL
