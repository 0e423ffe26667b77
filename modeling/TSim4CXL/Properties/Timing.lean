/-
  Simulated time and the speed of the host process.

  An empty poll of the ring takes a period of simulated time or none (`emptyPollWait`): none
  before the first packet and after a response, a period after a write. `timing_iff`: two
  runs that differ only in their empty polls handle every packet at the same times, whatever
  the rest of the simulator does, exactly when they have the same number of empty polls
  before each packet that follows a write (or the period is 0).

  The proof leaves out the empty polls: `jump` goes over all empty polls before a packet at
  once (`jump_eq_wake`), so two runs can be compared jump by jump.
-/
import TSim4CXL.Model.Timing
import TSim4CXL.Model.Top
import Mathlib.Order.Basic

namespace TSim4CXL

namespace Timed

variable {S : HostSetup} {world : Surroundings} {polls polls' : Nat → Nat} {s s' : Timed}

/-! ## Jumps -/

/-- The next stretch is a poll, and the host has a packet to send. -/
def Ready (S : HostSetup) (world : Surroundings) (s : Timed) : Prop :=
  (s.hear world).proc = .loop ∧ (s.hear world).status = .running ∧
    (s.hear world).hostBlocked = false ∧ s.next < S.packets.length

instance : Decidable (Ready S world s) := by
  unfold Ready
  infer_instance

/-- The packet that is due. -/
def Ready.packet (hr : Ready S world s) : Packet := S.packets.get ⟨s.next, hr.2.2.2⟩

/-- All empty polls before the next packet, then the packet. -/
def arrive (S : HostSetup) (world : Surroundings) (polls : Nat → Nat) (s : Timed)
    (packet : Packet) :
    Timed :=
  receive S world polls
    ⟨s.hear world, s.now + s.emptyPolls * S.pollTime (s.hear world), s.next, 0, s.handled⟩
    (s.hear world) packet

/-- The next stretch, or all empty polls before the next packet and the packet. -/
def jump (S : HostSetup) (world : Surroundings) (polls : Nat → Nat) (s : Timed) : Timed :=
  if hr : Ready S world s then arrive S world polls s hr.packet
  else wake S world polls s

theorem hear_of_unblocked {w : SimWrapper} {now next emptyPolls : Nat}
    {handled : List (Packet × Nat)} (hw : w.hostBlocked = false) :
    (Timed.mk w now next emptyPolls handled).hear world = w :=
  if_neg fun hc => by simp [hw] at hc

theorem hear_of_proc (hp : s.w.proc ≠ .loop) : s.hear world = s.w :=
  if_neg fun hc => hp hc.1

theorem receive_congr {w : SimWrapper} {packet : Packet} (w₀ w₁ : SimWrapper) (e₀ : Nat)
    (now next : Nat) (handled : List (Packet × Nat)) :
    receive S world polls ⟨w₀, now, next, e₀, handled⟩ w packet =
      receive S world polls ⟨w₁, now, next, e₀, handled⟩ w packet := rfl

/-- The stretches up to the next packet are its empty polls. -/
theorem arrive_eq_wake (hr : Ready S world s) :
    arrive S world polls s hr.packet =
      (wake S world polls)^[s.emptyPolls + 1] s := by
  obtain ⟨n, hn⟩ : ∃ n, s.emptyPolls = n := ⟨_, rfl⟩
  rw [hn]
  induction n generalizing s with
  | zero =>
      obtain ⟨hp, hst, hb, hlt⟩ := hr
      have hget : S.packets[s.next]? = some S.packets[s.next] := List.getElem?_eq_getElem hlt
      rw [Nat.zero_add, Function.iterate_one, wake, if_pos ⟨hp, hst⟩, if_pos ⟨hb, hn⟩, hget]
      simp only [arrive, hn, Nat.zero_mul, Nat.add_zero]
      rw [← hn]
      exact receive_congr ..
  | succ n ih =>
      obtain ⟨hp, hst, hb, hlt⟩ := hr
      have hw : wake S world polls s = s.pollEmpty S (s.hear world) := by
        rw [wake, if_pos ⟨hp, hst⟩, if_neg (by omega)]
      have hhear : (s.pollEmpty S (s.hear world)).hear world = s.hear world :=
        hear_of_unblocked hb
      have hempty : (s.pollEmpty S (s.hear world)).emptyPolls = n := by
        simp [pollEmpty, hb, hn]
      have hr : Ready S world (s.pollEmpty S (s.hear world)) := by
        rw [Ready, hhear]
        exact ⟨hp, hst, hb, hlt⟩
      rw [Function.iterate_succ_apply, hw, ← ih hr hempty]
      simp only [arrive, hhear, hempty, hn]
      rw [Nat.succ_mul, Nat.add_comm (n * _), ← Nat.add_assoc]
      exact receive_congr ..

theorem jump_eq_wake (s : Timed) : ∃ m, jump S world polls s = (wake S world polls)^[m + 1] s := by
  unfold jump
  split
  · exact ⟨_, arrive_eq_wake ‹_›⟩
  · exact ⟨0, rfl⟩

theorem iterate_jump (n : Nat) (s : Timed) :
    ∃ m, n ≤ m ∧ (jump S world polls)^[n] s = (wake S world polls)^[m] s := by
  induction n generalizing s with
  | zero => exact ⟨0, Nat.le_refl _, rfl⟩
  | succ n ih =>
      obtain ⟨m, hm⟩ := @jump_eq_wake S world polls s
      obtain ⟨m', hle, hm'⟩ := ih (jump S world polls s)
      refine ⟨m' + (m + 1), by omega, ?_⟩
      rw [Function.iterate_succ_apply, hm', hm, ← Function.iterate_add_apply]

/-! ## What has been handled -/

theorem handled_wake (s : Timed) : s.handled <+: (wake S world polls s).handled := by
  unfold wake
  dsimp only
  split
  · split
    · split
      · unfold receive
        split
        · exact List.prefix_rfl
        · dsimp only
          split
          · exact List.prefix_append ..
          · exact List.prefix_rfl
      · exact List.prefix_rfl
    · exact List.prefix_rfl
  · unfold resume
    split
    · exact List.prefix_rfl
    · dsimp only
      split
      · exact List.prefix_append ..
      · exact List.prefix_rfl

theorem handled_iterate {n m : Nat} (h : n ≤ m) (s : Timed) :
    ((wake S world polls)^[n] s).handled <+: ((wake S world polls)^[m] s).handled := by
  induction h with
  | refl => exact List.prefix_rfl
  | step _ ih =>
      rw [Function.iterate_succ_apply']
      exact ih.trans (handled_wake _)

theorem getElem?_of_prefix {α : Type} {l m : List α} {k : Nat} {x : α} (hp : l <+: m)
    (hx : l[k]? = some x) : m[k]? = some x := by
  obtain ⟨r, rfl⟩ := hp
  exact (List.getElem?_append_left (List.getElem?_eq_some_iff.mp hx).1).trans hx

/-- A packet is handled once. -/
theorem HandledAt.unique {k t t' : Nat} (h : HandledAt S world polls k t)
    (h' : HandledAt S world polls k t') : t = t' := by
  obtain ⟨n, q, hn⟩ := h
  obtain ⟨n', q', hn'⟩ := h'
  have h1 := getElem?_of_prefix (handled_iterate (Nat.le_max_left n n') (init polls)) hn
  have h2 := getElem?_of_prefix (handled_iterate (Nat.le_max_right n n') (init polls)) hn'
  have := h1.symm.trans h2
  simp only [Option.some.injEq, Prod.mk.injEq] at this
  exact this.2

/-- It is enough to look at jumps. -/
theorem handledAt_iff_jump {k t : Nat} : HandledAt S world polls k t ↔
    ∃ n packet, ((jump S world polls)^[n] (init polls)).handled[k]? = some (packet, t) := by
  constructor
  · rintro ⟨n, q, hn⟩
    obtain ⟨m, hle, hm⟩ := @iterate_jump S world polls n (init polls)
    exact ⟨n, q, by rw [hm]; exact getElem?_of_prefix (handled_iterate hle _) hn⟩
  · rintro ⟨n, q, hn⟩
    obtain ⟨m, -, hm⟩ := @iterate_jump S world polls n (init polls)
    exact ⟨m, q, by rw [← hm]; exact hn⟩

/-! ## Two runs -/

/-- The same but for the empty polls to come. -/
def Same (s s' : Timed) : Prop := s' = { s with emptyPolls := s'.emptyPolls }

/-- No empty poll has been taken yet of those before the next packet. -/
def Fresh (S : HostSetup) (polls : Nat → Nat) (s : Timed) : Prop :=
  s.next < S.packets.length → s.emptyPolls = polls s.next

theorem recv_of_ready (hr : Ready S world s) (env : SimEnv) (packet : Packet) :
    ∃ r, (s.hear world).recv S.host env packet = .ok r := by
  obtain ⟨hp, hst, hb, -⟩ := hr
  unfold SimWrapper.recv
  rw [if_pos ⟨hp, hst, hb⟩]
  dsimp only
  split
  · exact ⟨_, rfl⟩
  · exact ⟨_, rfl⟩

/-- The SIMWrapper with packet `q` just received. -/
def received (w : SimWrapper) (q : Packet) : SimWrapper :=
  { w with received := true, hostBlocked := q.type = .read }

theorem arrive_of_no_delta (hr : Ready S world s) {q : Packet} (hq : q.delta = 0) :
    let now := s.now + s.emptyPolls * S.pollTime (s.hear world)
    let w :=
      (SimWrapper.handlePacket S.host (world s.handled now).env (received (s.hear world) q) q).1
    arrive S world polls s q = ⟨w, now + S.time (w.proc.delay S.cfg S.host), s.next + 1,
      polls (s.next + 1), s.handled ++ [(q, now)]⟩ := by
  obtain ⟨hp, hst, hb, -⟩ := hr
  dsimp only
  rw [arrive, receive, SimWrapper.recv, if_pos ⟨hp, hst, hb⟩]
  dsimp only
  rw [if_neg (not_not.mpr hq)]
  dsimp only
  rw [if_pos hq]
  rfl

theorem arrive_of_delta (hr : Ready S world s) {q : Packet} (hq : q.delta ≠ 0) :
    let now := s.now + s.emptyPolls * S.pollTime (s.hear world)
    arrive S world polls s q = ⟨{ received (s.hear world) q with proc := .delta q },
      now + 1000 * q.delta, s.next + 1, polls (s.next + 1), s.handled⟩ := by
  obtain ⟨hp, hst, hb, -⟩ := hr
  dsimp only
  rw [arrive, receive, SimWrapper.recv, if_pos ⟨hp, hst, hb⟩]
  dsimp only
  rw [if_pos hq]
  dsimp only
  rw [if_neg hq]
  rfl

theorem wake_of_not_ready (hr : ¬ Ready S world s) : wake S world polls s =
    if (s.hear world).proc = .loop ∧ (s.hear world).status = .running then
      s.pollEmpty S (s.hear world)
    else s.resume S world (s.hear world) := by
  unfold wake
  dsimp only
  split
  · rename_i hp
    split
    · rename_i hb
      split
      · rename_i hget
        exact absurd ⟨hp.1, hp.2, hb.1, (List.getElem?_eq_some_iff.mp hget).1⟩ hr
      · rfl
    · rfl
  · rfl

theorem fresh_jump (hf : Fresh S polls s) : Fresh S polls (jump S world polls s) := by
  unfold jump
  split
  · rename_i hr
    intro _
    obtain ⟨r, hok⟩ :=
      recv_of_ready hr (world s.handled (s.now + s.emptyPolls * S.pollTime (s.hear world))).env
      hr.packet
    simp [arrive, receive, hok]
  · rename_i hr
    rw [wake_of_not_ready hr]
    split
    · rename_i hp
      intro hlt
      by_cases hb : (s.hear world).hostBlocked = true
      · simpa [pollEmpty, hb] using hf hlt
      · exact absurd ⟨hp.1, hp.2, by simpa using hb, hlt⟩ hr
    · unfold resume
      split
      · exact hf
      · exact hf

theorem receive_same {w : SimWrapper} {packet : Packet} :
    Same (receive S world polls s w packet) (receive S world polls' s w packet) := by
  unfold receive
  split <;> rfl

/-- Two runs stay the same over a jump over empty polls that take the same time. -/
theorem Same.jump (h : Same s s') (hf : Fresh S polls s) (hf' : Fresh S polls' s')
    (hcost : Ready S world s → polls s.next * S.pollTime (s.hear world) =
      polls' s.next * S.pollTime (s.hear world)) :
    Same (s.jump S world polls) (s'.jump S world polls') := by
  obtain ⟨e', rfl⟩ : ∃ e', s' = { s with emptyPolls := e' } := ⟨_, h⟩
  unfold Timed.jump
  by_cases hr : Ready S world s
  · have hr' : Ready S world { s with emptyPolls := e' } := hr
    have he : s.emptyPolls = polls s.next := hf hr.2.2.2
    have he' : e' = polls' s.next := hf' hr.2.2.2
    rw [dif_pos hr, dif_pos hr']
    simp only [arrive, he, he', hcost hr]
    exact receive_same ..
  · have hr' : ¬ Ready S world { s with emptyPolls := e' } := hr
    rw [dif_neg hr, dif_neg hr', wake_of_not_ready hr, wake_of_not_ready hr']
    by_cases hp : (s.hear world).proc = .loop ∧ (s.hear world).status = .running
    · have hp' : (Timed.hear world { s with emptyPolls := e' }).proc = .loop ∧
          (Timed.hear world { s with emptyPolls := e' }).status = .running := hp
      rw [if_pos hp, if_pos hp']
      rfl
    · have hp' : ¬ ((Timed.hear world { s with emptyPolls := e' }).proc = .loop ∧
          (Timed.hear world { s with emptyPolls := e' }).status = .running) := hp
      rw [if_neg hp, if_neg hp']
      have hh : Timed.hear world { s with emptyPolls := e' } = s.hear world := rfl
      rw [hh]
      unfold resume
      dsimp only
      split <;> rfl

/-! ## Phases -/

/-- The packets before `k` are reads and writes. -/
def Ordinary (S : HostSetup) (k : Nat) : Prop :=
  ∀ j < k, ∀ q, S.packets[j]? = some q → q.type = .read ∨ q.type = .write

/-- `q` is the last packet received, after reads and writes. -/
def Last (S : HostSetup) (w : SimWrapper) (next : Nat) (q : Packet) : Prop :=
  w.received = true ∧ w.status = .running ∧
    ∃ k, next = k + 1 ∧ S.packets[k]? = some q ∧ Ordinary S k

/-- What the place of the thread says of the last packet and the flags; `count` packets have been
    handled. -/
def Phase (S : HostSetup) (w : SimWrapper) (next count : Nat) : Prop :=
  match w.proc with
  | .loop => w.status = .running →
      (next = 0 ∧ count = 0 ∧ w.received = false ∧ w.hostBlocked = false) ∨
      ∃ q, Last S w next q ∧ count = next ∧
        (q.type = .read ∧ w.reqDone = !w.hostBlocked ∨
          q.type = .write ∧ w.hostBlocked = false ∧ w.reqDone = false)
  | .delta q => Last S w next q ∧ count + 1 = next ∧ w.hostBlocked = decide (q.type = .read)
  | .gate q _ => Last S w next q ∧ count = next ∧ q.type = .read ∧ w.hostBlocked = true
  | .readCpu q => Last S w next q ∧ count = next ∧ q.type = .read ∧ w.hostBlocked = true
  | .writeCpu q => Last S w next q ∧ count = next ∧ q.type = .write ∧ w.hostBlocked = false
  | .done => w.status = .terminated

theorem phase_hear (hs : Phase S s.w s.next s.handled.length) :
    Phase S (s.hear world) s.next s.handled.length := by
  unfold Timed.hear
  split
  · rename_i hc
    obtain ⟨hp, hb, -⟩ := hc
    unfold Phase at hs ⊢
    rw [hp] at hs
    dsimp only
    rw [hp]
    intro hst
    rcases hs hst with ⟨-, -, -, h⟩ | ⟨q, hlast, hcount, h⟩
    · rw [hb] at h
      cases h
    · refine .inr ⟨q, hlast, hcount, ?_⟩
      rcases h with ⟨ht, -⟩ | ⟨-, h, -⟩
      · exact .inl ⟨ht, rfl⟩
      · rw [hb] at h
        cases h
  · exact hs

theorem phase_handlePacket {w : SimWrapper} {q : Packet} {next h : Nat} {env : SimEnv}
    (hlast : Last S w next q) (hb : w.hostBlocked = decide (q.type = .read)) :
    Phase S (SimWrapper.handlePacket h env w q).1 next next := by
  obtain ⟨hrec, hst, hk⟩ := hlast
  unfold SimWrapper.handlePacket
  split
  · rename_i ht
    rw [ht] at hb
    exact ⟨⟨hrec, hst, hk⟩, rfl, ht, hb⟩
  · rename_i ht
    rw [ht] at hb
    exact ⟨⟨hrec, hst, hk⟩, rfl, ht, hb⟩
  · unfold SimWrapper.endIteration
    split
    · exact rfl
    · intro h
      cases h

theorem fst_of_ok {r : SimWrapper × List Event} {w' : SimWrapper} {es : List Event}
    (hs : (.ok r : Except Fault (SimWrapper × List Event)) = .ok (w', es)) : w' = r.1 := by
  cases hs
  rfl

theorem phase_receive {w : SimWrapper} {q : Packet} (hw : w.proc = .loop)
    (hst : w.status = .running) (hs : Phase S w s.next s.handled.length)
    (hq : S.packets[s.next]? = some q) :
    let t := receive S world polls s w q
    Phase S t.w t.next t.handled.length := by
  have hord : Ordinary S s.next ∧ s.handled.length = s.next := by
    unfold Phase at hs
    rw [hw] at hs
    rcases hs hst with ⟨hn, hc, -⟩ | ⟨p, ⟨-, -, k, hk, hp, hord⟩, hcount, ht⟩
    · exact ⟨fun j hj => by omega, by omega⟩
    · refine ⟨fun j hj q' hq' => ?_, hcount⟩
      rcases Nat.lt_or_eq_of_le (Nat.le_of_lt_succ (hk ▸ hj)) with hlt | rfl
      · exact hord j hlt q' hq'
      · obtain rfl : p = q' := Option.some.inj (hp.symm.trans hq')
        rcases ht with ⟨ht, -⟩ | ⟨ht, -⟩
        · exact .inl ht
        · exact .inr ht
  obtain ⟨hord, hcount⟩ := hord
  unfold receive
  split
  · exact hs
  · rename_i hrecv
    unfold SimWrapper.recv at hrecv
    split at hrecv
    · dsimp only at hrecv
      by_cases hd : q.delta = 0
      · rw [if_neg (not_not.mpr hd)] at hrecv
        obtain rfl := fst_of_ok hrecv
        dsimp only
        rw [if_pos hd, List.length_append, List.length_singleton, hcount]
        exact phase_handlePacket ⟨rfl, hst, s.next, rfl, hq, hord⟩ rfl
      · rw [if_pos hd] at hrecv
        cases hrecv
        dsimp only
        rw [if_neg hd]
        exact ⟨⟨rfl, hst, s.next, rfl, hq, hord⟩, by rw [hcount], rfl⟩
    · cases hrecv

theorem phase_resume {w : SimWrapper} (hw : ¬ (w.proc = .loop ∧ w.status = .running))
    (hs : Phase S w s.next s.handled.length) :
    let t := resume S world s w
    Phase S t.w t.next t.handled.length := by
  unfold resume
  split
  · exact hs
  · rename_i hproc
    unfold SimWrapper.process at hproc
    unfold Phase at hs
    split at hproc <;> rename_i hp <;> rw [hp] at hs
    · split at hproc
      · rename_i hst
        exact absurd ⟨hp, hst⟩ hw
      · rename_i hst
        obtain rfl := fst_of_ok hproc
        dsimp only
        rw [hp]
        dsimp only
        unfold SimWrapper.endIteration
        split
        · exact hst
        · intro h
          dsimp only at h
          rw [hst] at h
          cases h
    · obtain rfl := fst_of_ok hproc
      obtain ⟨hlast, hcount, hb⟩ := hs
      dsimp only
      rw [hp]
      dsimp only
      rw [List.length_append, List.length_singleton, hcount]
      exact phase_handlePacket hlast hb
    · cases hproc
      dsimp only
      rw [hp]
      exact hs
    · cases hproc
      dsimp only
      rw [hp]
      exact hs
    · cases hproc
      obtain ⟨⟨hrec, hst, hk⟩, hcount, ht, hb⟩ := hs
      dsimp only
      rw [hp]
      exact fun _ => .inr ⟨_, ⟨hrec, hst, hk⟩, hcount, .inl ⟨ht, by simp [hb]⟩⟩
    · cases hproc
      obtain ⟨⟨hrec, hst, hk⟩, hcount, ht, hb⟩ := hs
      dsimp only
      rw [hp]
      exact fun _ => .inr ⟨_, ⟨hrec, hst, hk⟩, hcount, .inr ⟨ht, hb, rfl⟩⟩
    · cases hproc

theorem phase_wake (hs : Phase S s.w s.next s.handled.length) :
    let t := wake S world polls s
    Phase S t.w t.next t.handled.length := by
  have hs := @phase_hear S world s hs
  unfold wake
  dsimp only
  split
  · rename_i hp
    split
    · split
      · rename_i hq
        exact phase_receive hp.1 hp.2 hs hq
      · exact hs
    · exact hs
  · rename_i hp
    exact phase_resume hp hs

theorem phase_iterate (n : Nat) : let t := (wake S world polls)^[n] (init polls)
    Phase S t.w t.next t.handled.length := by
  induction n with
  | zero => exact fun _ => .inl ⟨rfl, rfl, rfl, rfl⟩
  | succ n ih =>
      rw [Function.iterate_succ_apply']
      exact phase_wake ih

theorem phase_jump (n : Nat) : let t := (jump S world polls)^[n] (init polls)
    Phase S t.w t.next t.handled.length := by
  obtain ⟨m, -, hm⟩ := @iterate_jump S world polls n (init polls)
  rw [hm]
  exact phase_iterate m

/-! ## Polls that cost time -/

/-- Packet `k` is a write, reads and writes before it, and there is a packet after it. -/
def AfterWrite (S : HostSetup) (k : Nat) : Prop :=
  ∃ q, S.packets[k]? = some q ∧ q.type = .write ∧ Ordinary S k ∧ k + 1 < S.packets.length

/-- An empty poll before a packet takes time exactly when the packet follows a write. -/
theorem pollTime_of_ready (hr : Ready S world s) (hs : Phase S s.w s.next s.handled.length) :
    (S.pollTime (s.hear world) = 0 ∧ ∀ k, s.next = k + 1 → ¬ AfterWrite S k) ∨
      ∃ k, s.next = k + 1 ∧ AfterWrite S k ∧ S.pollTime (s.hear world) = S.period := by
  have hs := @phase_hear S world s hs
  obtain ⟨hp, hst, hb, hlt⟩ := hr
  unfold Phase at hs
  rw [hp] at hs
  rcases hs hst with ⟨hn, -, hrec, -⟩ | ⟨q, ⟨hrec, -, k, hk, hq, hord⟩, -,
    ⟨ht, hdone⟩ | ⟨ht, -, hdone⟩⟩
  · left
    refine ⟨by simp [HostSetup.pollTime, SimWrapper.emptyPollWait, hrec], fun k hk => ?_⟩
    rw [hn] at hk
    cases hk
  · left
    rw [hb] at hdone
    refine ⟨by simp [HostSetup.pollTime, SimWrapper.emptyPollWait, hrec, hdone], fun j hj hw => ?_⟩
    obtain rfl : j = k := Nat.succ.inj (hj.symm.trans hk)
    obtain ⟨p, hp, hpt, -⟩ := hw
    obtain rfl : q = p := Option.some.inj (hq.symm.trans hp)
    rw [ht] at hpt
    cases hpt
  · right
    refine ⟨k, hk, ⟨q, hq, ht, hord, hk ▸ hlt⟩, ?_⟩
    simp [HostSetup.pollTime, SimWrapper.emptyPollWait, hrec, hdone, HostSetup.time]

theorem next_jump_of_ready (hr : Ready S world s) : (jump S world polls s).next = s.next + 1 := by
  obtain ⟨r, hok⟩ :=
    recv_of_ready hr (world s.handled (s.now + s.emptyPolls * S.pollTime (s.hear world))).env
    hr.packet
  rw [jump, dif_pos hr, arrive, receive]
  simp only [hok]

theorem next_jump_of_not_ready (hr : ¬ Ready S world s) : (jump S world polls s).next = s.next := by
  rw [jump, dif_neg hr, wake_of_not_ready hr]
  split
  · rfl
  · unfold resume
    split <;> rfl

theorem next_le_jump (s : Timed) : s.next ≤ (jump S world polls s).next := by
  by_cases hr : Ready S world s
  · rw [next_jump_of_ready hr]
    exact Nat.le_succ _
  · exact Nat.le_of_eq (next_jump_of_not_ready hr).symm

theorem fresh_iterate (n : Nat) : Fresh S polls ((jump S world polls)^[n] (init polls)) := by
  induction n with
  | zero => exact fun _ => rfl
  | succ n ih =>
      rw [Function.iterate_succ_apply']
      exact fresh_jump ih

/-- Two runs with the same empty polls after each of the first `K` writes are the same up to
    packet `K`. -/
theorem same_iterate {K : Nat}
    (hpolls : S.period = 0 ∨ ∀ k < K, AfterWrite S k → polls (k + 1) = polls' (k + 1)) (n : Nat)
    (hn : ((jump S world polls)^[n] (init polls)).next ≤ K + 1) :
    Same ((jump S world polls)^[n] (init polls)) ((jump S world polls')^[n] (init polls')) := by
  induction n with
  | zero => rfl
  | succ n ih =>
      rw [Function.iterate_succ_apply'] at hn ⊢
      rw [Function.iterate_succ_apply']
      refine (ih (Nat.le_trans (next_le_jump _) hn)).jump (fresh_iterate n) (fresh_iterate n)
        fun hr => ?_
      rw [next_jump_of_ready hr] at hn
      rcases pollTime_of_ready hr (phase_jump n) with ⟨h0, -⟩ | ⟨k, hk, hw, hperiod⟩
      · rw [h0, Nat.mul_zero, Nat.mul_zero]
      · rcases hpolls with h0 | hpolls
        · rw [hperiod, h0, Nat.mul_zero, Nat.mul_zero]
        · rw [hk, hpolls k (by omega) hw]

/-- Two runs with the same empty polls after every write handle every packet at the same times. -/
theorem HandledAt.of_polls
    (hpolls : S.period = 0 ∨ ∀ k, AfterWrite S k → polls (k + 1) = polls' (k + 1)) {k t : Nat}
    (h : HandledAt S world polls k t) : HandledAt S world polls' k t := by
  rw [handledAt_iff_jump] at h ⊢
  obtain ⟨n, q, hn⟩ := h
  have hsame := @same_iterate S world polls polls' ((jump S world polls)^[n] (init polls)).next
    (hpolls.imp_right fun h k _ => h k) n (Nat.le_succ _)
  exact ⟨n, q, by rw [hsame]; exact hn⟩

/-! ## Surroundings that never delay -/

/-- Every flag is set and every read is answered by the next poll. -/
def prompt : Surroundings := fun _ _ => ⟨⟨fun _ => true⟩, 1, true⟩

/-- Stretches left until the thread polls again. -/
def rank : ProcState → Nat
  | .loop => 0
  | .delta _ => 4
  | .gate _ false => 3
  | .gate _ true => 2
  | .readCpu _ => 1
  | .writeCpu _ => 1
  | .done => 0

theorem handlePacket_running {w : SimWrapper} {q : Packet} {h : Nat} {v : SimEnv}
    (hq : q.type = .read ∨ q.type = .write) :
    (SimWrapper.handlePacket h v w q).1.status = w.status := by
  unfold SimWrapper.handlePacket
  rcases hq with hq | hq
  · rw [hq]
    rfl
  · rw [hq]

theorem rank_handlePacket {w : SimWrapper} {q : Packet} {h : Nat} {v : SimEnv}
    (hq : q.type = .read ∨ q.type = .write) :
    rank (SimWrapper.handlePacket h v w q).1.proc < 4 := by
  unfold SimWrapper.handlePacket
  rcases hq with hq | hq
  · simp only [hq, SimWrapper.pollGate]
    cases v.sync.checkSignal q.address
    · exact Nat.lt_succ_self 3
    · exact Nat.lt_of_succ_lt (Nat.lt_succ_self 3)
  · rw [hq]
    exact Nat.lt_of_succ_lt (Nat.lt_of_succ_lt (Nat.lt_succ_self 3))

theorem process_of_prompt (hs : Phase S s.w s.next s.handled.length) (hst : s.w.status = .running)
    (hp : s.w.proc ≠ .loop) (hord : Ordinary S s.next) :
    ∃ r, s.w.process S.cfg S.host (prompt s.handled s.now).env = .ok r ∧ r.1.status = .running ∧
      rank r.1.proc < rank s.w.proc := by
  unfold Phase at hs
  unfold SimWrapper.process
  cases hproc : s.w.proc with
  | loop => exact absurd hproc hp
  | delta q =>
      rw [hproc] at hs
      obtain ⟨⟨-, -, k, hk, hq, -⟩, -, -⟩ := hs
      have ht := hord k (by omega) q hq
      exact ⟨_, rfl, (handlePacket_running ht).trans hst, rank_handlePacket ht⟩
  | gate q b =>
      cases b with
      | false => exact ⟨_, rfl, hst, Nat.lt_succ_self 2⟩
      | true => exact ⟨_, rfl, hst, Nat.lt_succ_self 1⟩
  | readCpu q => exact ⟨_, rfl, hst, Nat.lt_succ_self 0⟩
  | writeCpu q => exact ⟨_, rfl, hst, Nat.lt_succ_self 0⟩
  | done =>
      rw [hproc] at hs
      rw [hst] at hs
      cases hs

theorem rank_wake (hs : Phase S s.w s.next s.handled.length) (hst : s.w.status = .running)
    (hp : s.w.proc ≠ .loop) (hord : Ordinary S s.next) : let t := wake S prompt polls s
    t.w.status = .running ∧ t.next = s.next ∧ rank t.w.proc < rank s.w.proc := by
  have hnot : ¬ Ready S prompt s := fun hr => hp (by rw [← hear_of_proc hp]; exact hr.1)
  obtain ⟨r, hok, hst', hrank⟩ := process_of_prompt hs hst hp hord
  rw [wake_of_not_ready hnot, hear_of_proc hp, if_neg fun h => hp h.1, resume]
  simp only [hok]
  exact ⟨hst', trivial, hrank⟩

/-- In prompt surroundings a thread with packets left polls again. -/
theorem ready_of_prompt (hs : Phase S s.w s.next s.handled.length) (hst : s.w.status = .running)
    (hlt : s.next < S.packets.length) (hord : Ordinary S s.next) :
    ∃ m, Ready S prompt ((jump S prompt polls)^[m] s) ∧
      ((jump S prompt polls)^[m] s).next = s.next := by
  obtain ⟨n, hn⟩ : ∃ n, rank s.w.proc = n := ⟨_, rfl⟩
  induction n using Nat.strongRecOn generalizing s with
  | ind n ih =>
      by_cases hp : s.w.proc = .loop
      · refine ⟨0, ?_, rfl⟩
        unfold Ready Timed.hear
        rw [Function.iterate_zero_apply]
        by_cases hb : s.w.hostBlocked = true
        · rw [if_pos ⟨hp, hb, rfl⟩]
          exact ⟨hp, hst, rfl, hlt⟩
        · rw [if_neg fun hc => hb hc.2.1]
          exact ⟨hp, hst, by simpa using hb, hlt⟩
      · have hnot : ¬ Ready S prompt s := fun hr => hp (by rw [← hear_of_proc hp]; exact hr.1)
        have hjump : jump S prompt polls s = wake S prompt polls s := dif_neg hnot
        obtain ⟨hst', hnext, hrank⟩ := @rank_wake S polls s hs hst hp hord
        obtain ⟨m, hm, hm'⟩ := ih _ (hn ▸ hrank) (phase_wake hs) hst' (by rw [hnext]; exact hlt)
          (by rw [hnext]; exact hord) rfl
        refine ⟨m + 1, ?_, ?_⟩
        · rw [Function.iterate_succ_apply, hjump]
          exact hm
        · rw [Function.iterate_succ_apply, hjump, hm', hnext]

/-- In prompt surroundings every packet behind reads and writes is received. -/
theorem ready_prompt {k : Nat} (hk : k < S.packets.length) (hord : Ordinary S k) :
    ∃ n, Ready S prompt ((jump S prompt polls)^[n] (init polls)) ∧
      ((jump S prompt polls)^[n] (init polls)).next = k := by
  induction k with
  | zero => exact ⟨0, ⟨rfl, rfl, rfl, hk⟩, rfl⟩
  | succ k ih =>
      obtain ⟨n, hr, hn⟩ := ih (by omega) fun j hj => hord j (by omega)
      obtain ⟨t, ht⟩ : ∃ t, t = (jump S prompt polls)^[n] (init polls) := ⟨_, rfl⟩
      rw [← ht] at hr hn
      have hphase := @phase_jump S prompt polls (n + 1)
      rw [Function.iterate_succ_apply', ← ht] at hphase
      have hnext : (jump S prompt polls t).next = k + 1 := by rw [next_jump_of_ready hr, hn]
      have hrun : (jump S prompt polls t).w.status = .running := by
        have hq := hord t.next (by omega) _ (List.getElem?_eq_getElem hr.2.2.2)
        rw [jump, dif_pos hr]
        by_cases hd : hr.packet.delta = 0
        · rw [arrive_of_no_delta hr hd]
          exact (handlePacket_running hq).trans hr.2.1
        · rw [arrive_of_delta hr hd]
          exact hr.2.1
      obtain ⟨m, hm, hm'⟩ := @ready_of_prompt S polls _ hphase hrun (by rw [hnext]; exact hk)
        (by rw [hnext]; exact hord)
      refine ⟨m + (n + 1), ?_, ?_⟩
      · rw [Function.iterate_add_apply, Function.iterate_succ_apply', ← ht]
        exact hm
      · rw [Function.iterate_add_apply, Function.iterate_succ_apply', ← ht, hm', hnext]

/-- The packet that is due is handled after its empty polls and its delta. -/
theorem handledAt_of_ready {n : Nat} (hs : s = (jump S world polls)^[n] (init polls))
    (hr : Ready S world s) {q : Packet} (hq : S.packets[s.next]? = some q) :
    HandledAt S world polls s.next
      (s.now + polls s.next * S.pollTime (s.hear world) + 1000 * q.delta) := by
  have hq : q = hr.packet := (List.getElem?_eq_some_iff.mp hq).2.symm
  have hempty : s.emptyPolls = polls s.next := hs ▸ fresh_iterate n (hs ▸ hr.2.2.2)
  have hcount : s.handled.length = s.next := by
    have hphase := @phase_hear S world _ (@phase_jump S world polls n)
    rw [← hs] at hphase
    unfold Phase at hphase
    rw [hr.1] at hphase
    rcases hphase hr.2.1 with ⟨hn, hc, -⟩ | ⟨-, -, hc, -⟩
    · omega
    · exact hc
  have hjump : jump S world polls s = arrive S world polls s q := by rw [jump, dif_pos hr, hq]
  rw [← hempty, handledAt_iff_jump]
  by_cases hd : q.delta = 0
  · refine ⟨n + 1, q, ?_⟩
    rw [Function.iterate_succ_apply', ← hs, hjump, arrive_of_no_delta hr hd]
    simp [← hcount, hd]
  · -- handled after `wait(delta)`, one stretch later
    refine ⟨n + 2, q, ?_⟩
    rw [Function.iterate_succ_apply', Function.iterate_succ_apply', ← hs, hjump,
      arrive_of_delta hr hd]
    have hnot : ¬ Ready S world ⟨{ received (s.hear world) q with proc := .delta q },
        s.now + s.emptyPolls * S.pollTime (s.hear world) + 1000 * q.delta, s.next + 1,
        polls (s.next + 1), s.handled⟩ := by
      intro h
      have := h.1
      rw [hear_of_proc (by simp)] at this
      cases this
    rw [jump, dif_neg hnot, wake_of_not_ready hnot, hear_of_proc (by simp),
      if_neg (by simp), resume]
    simp [SimWrapper.process, ← hcount]

/-- Two runs that differ only in their empty polls handle every packet at the same times, in all
    surroundings, exactly when they agree on the empty polls after every write. -/
theorem timing_iff (S : HostSetup) (polls polls' : Nat → Nat) :
    (∀ world k t, HandledAt S world polls k t ↔ HandledAt S world polls' k t) ↔
      S.period = 0 ∨ ∀ k, AfterWrite S k → polls (k + 1) = polls' (k + 1) := by
  constructor
  · intro h
    by_cases h0 : S.period = 0
    · exact .inl h0
    refine .inr fun k => ?_
    induction k using Nat.strongRecOn with
    | ind k ih =>
        rintro ⟨q, hq, ht, hord, hlt⟩
        have hw : AfterWrite S k := ⟨q, hq, ht, hord, hlt⟩
        have hord' : Ordinary S (k + 1) := by
          intro j hj p hp
          rcases Nat.lt_or_eq_of_le (Nat.le_of_lt_succ hj) with hjk | rfl
          · exact hord j hjk p hp
          · obtain rfl : q = p := Option.some.inj (hq.symm.trans hp)
            exact .inr ht
        obtain ⟨n, hr, hn⟩ := @ready_prompt S polls _ hlt hord'
        obtain ⟨s, hs⟩ : ∃ s, s = (jump S prompt polls)^[n] (init polls) := ⟨_, rfl⟩
        obtain ⟨e, hs'⟩ : ∃ e, { s with emptyPolls := e } =
            (jump S prompt polls')^[n] (init polls') :=
          ⟨_, hs ▸ (@same_iterate S prompt polls polls' _ (.inr ih) n (Nat.le_of_eq hn)).symm⟩
        rw [← hs] at hr hn
        obtain ⟨p, hp⟩ : ∃ p, S.packets[s.next]? = some p := ⟨_, List.getElem?_eq_getElem hr.2.2.2⟩
        -- packet `k + 1` is handled after its empty polls in both runs
        have hat := handledAt_of_ready hs hr hp
        have hat' := handledAt_of_ready hs' hr hp
        have htime := ((h prompt _ _).mp hat).unique hat'
        have hphase := @phase_jump S prompt polls n
        rw [← hs] at hphase
        rcases pollTime_of_ready hr hphase with ⟨-, hno⟩ | ⟨-, -, -, hperiod⟩
        · exact absurd hw (hno k hn)
        · have hhear : Timed.hear prompt { s with emptyPolls := e } = s.hear prompt := rfl
          rw [hhear, hperiod, hn] at htime
          dsimp only at htime
          exact Nat.eq_of_mul_eq_mul_right (Nat.pos_of_ne_zero h0) (by omega)
  · intro h world k t
    exact ⟨.of_polls h, .of_polls (h.imp_right fun h k hk => (h k hk).symm)⟩

/-! ## A concrete run -/

/-- A host with a clock period of 1 ns that writes addresses 8 and 16. -/
def twoWriteSetup : HostSetup :=
  ⟨smallConfig 1 1 1, 0, 1000, [.fill .write 8 1, .fill .write 16 2]⟩

/-- The second write is handled at 2 ns when it is there in time, at 5 ns after three empty
    polls. -/
theorem second_write_delayed : HandledAt twoWriteSetup prompt (fun _ => 0) 1 2000 ∧
    HandledAt twoWriteSetup prompt (fun _ => 3) 1 5000 ∧
      ¬ HandledAt twoWriteSetup prompt (fun _ => 3) 1 2000 := by
  have hslow : HandledAt twoWriteSetup prompt (fun _ => 3) 1 5000 :=
    ⟨9, .fill .write 16 2, by decide +kernel⟩
  refine ⟨⟨3, .fill .write 16 2, by decide +kernel⟩, hslow, fun h => ?_⟩
  cases h.unique hslow

end Timed

end TSim4CXL
