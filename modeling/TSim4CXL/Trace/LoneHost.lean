/-
  A SIMWrapper on its own: what its reads and their acks look like in every run.

  * `ReachableAlone.fair`: every ack is for a payload forwarded before, and the only one for it
  * `ReachableAlone.ack_packet`: the host waits for each response, so the read acks consumed come
    packet by packet: number `j` is for packet `j / payload_num`
  * `ReachableAlone.response`: a response is the blocks of the acks of its packet, in the order
    in which they came
-/
import TSim4CXL.Model.LoneHost
import TSim4CXL.Trace.Control
import TSim4CXL.Lib.Groups
import Mathlib.Data.List.Induction

namespace TSim4CXL

open Transition

/-! ## Reads in progress -/

/-- A read packet received and not handled yet. -/
def ProcState.reading : ProcState → Nat
  | .delta packet => (decide (packet.type = .read)).toNat
  | .gate _ _ => 1
  | .readCpu _ => 1
  | _ => 0

namespace ProcState

@[simp] theorem reading_loop : loop.reading = 0 := rfl
@[simp] theorem reading_delta (packet : Packet) :
    (delta packet).reading = (decide (packet.type = .read)).toNat := rfl
@[simp] theorem reading_gate (packet : Packet) (b : Bool) : (gate packet b).reading = 1 := rfl
@[simp] theorem reading_readCpu (packet : Packet) : (readCpu packet).reading = 1 := rfl
@[simp] theorem reading_writeCpu (packet : Packet) : (writeCpu packet).reading = 0 := rfl
@[simp] theorem reading_done : done.reading = 0 := rfl

end ProcState

namespace SimWrapper

variable {cfg : Config} {h : Nat} {env : SimEnv}

/-- A step that ends with no response received keeps the balance of read packets received, handled
    and waited for. -/
def Balanced (h : Nat) (w : SimWrapper) (es : List Event) (w' : SimWrapper) : Prop :=
  responsesOf h es = [] ∧ (readsOf h es).length + w'.proc.reading + w.hostBlocked.toNat =
    w.proc.reading + w'.hostBlocked.toNat

theorem pollGate_balanced {v w : SimWrapper} {packet : Packet}
    (hv : v.proc.reading + w.hostBlocked.toNat = 1 + v.hostBlocked.toNat) :
    Balanced h v (pollGate h env w packet).2 (pollGate h env w packet).1 := by
  unfold pollGate Balanced
  by_cases hc : env.sync.checkSignal packet.address = true <;> simp [hc] <;> omega

theorem endIteration_balanced {v w : SimWrapper}
    (hv : v.proc.reading + w.hostBlocked.toNat = v.hostBlocked.toNat) :
    Balanced h v (endIteration h env w).2 (endIteration h env w).1 := by
  unfold endIteration Balanced
  split <;> simp  <;> omega

theorem handlePacket_balanced {v w : SimWrapper} {packet : Packet}
    (hv : v.proc.reading + w.hostBlocked.toNat =
      (decide (packet.type = .read)).toNat + v.hostBlocked.toNat) :
    Balanced h v (handlePacket h env w packet).2 (handlePacket h env w packet).1 := by
  unfold handlePacket
  split
  · rename_i ht
    exact pollGate_balanced (by simpa [ht] using hv)
  · rename_i ht
    simp only [ht] at hv
    simp [Balanced] at hv ⊢
    omega
  · rename_i hr _
    rw [decide_eq_false hr] at hv
    exact endIteration_balanced (by simpa using hv)

theorem Balanced.of_ok {w w' : SimWrapper} {es : List Event} {r : SimWrapper × List Event}
    (hs : (.ok r : Except Fault (SimWrapper × List Event)) = .ok (w', es))
    (hb : Balanced h w r.2 r.1) : Balanced h w es w' := by
  cases hs
  exact hb

theorem recv_balanced {w w' : SimWrapper} {packet : Packet} {es : List Event}
    (hs : w.recv h env packet = .ok (w', es)) : Balanced h w es w' := by
  unfold recv at hs
  split at hs
  · rename_i hg
    obtain ⟨hp, -, hb⟩ := hg
    dsimp only at hs
    split at hs
    · exact .of_ok hs (by simp [Balanced, hp, hb])
    · exact .of_ok hs (handlePacket_balanced (by simp [hp, hb]))
  · cases hs

theorem process_balanced {w w' : SimWrapper} {es : List Event}
    (hs : w.process cfg h env = .ok (w', es)) : Balanced h w es w' := by
  unfold process at hs
  split at hs <;> rename_i hp
  · split at hs
    · exact .of_ok hs ⟨rfl, by simp⟩
    · have hend := @endIteration_balanced h env w { w with terminated := true }
        (by simp [hp])
      refine .of_ok hs ?_
      cases w.terminated <;> simpa [Balanced] using hend
  · exact .of_ok hs (handlePacket_balanced (by simp [hp]))
  · exact .of_ok hs (pollGate_balanced (by simp [hp]))
  · exact .of_ok hs (by simp [Balanced, hp])
  · exact .of_ok hs (by simp [Balanced, handleReadPacket, hp])
  · exact .of_ok hs (by simp [Balanced, handleWritePacket, hp])
  · cases hs

theorem forwardRead_waits (w : SimWrapper) : responsesOf h (w.forwardRead h).2 = [] ∧
    (w.forwardRead h).1.hostBlocked = w.hostBlocked := by
  unfold forwardRead
  split <;> simp

theorem forwardWrite_waits (w : SimWrapper) : responsesOf h (w.forwardWrite h).2 = [] ∧
    (w.forwardWrite h).1.hostBlocked = w.hostBlocked := by
  unfold forwardWrite
  split <;> simp

theorem sendRack_waits (w : SimWrapper) : (responsesOf h (w.sendRack cfg h env).2 = [] ∧
      (w.sendRack cfg h env).1.hostBlocked = w.hostBlocked) ∨
    ((responsesOf h (w.sendRack cfg h env).2).length = 1 ∧
      (w.sendRack cfg h env).1.hostBlocked = false) := by
  unfold sendRack
  split
  · exact .inl ⟨rfl, rfl⟩
  · dsimp only
    split
    · exact .inr ⟨by simp, rfl⟩
    · exact .inl ⟨by simp, rfl⟩

theorem sendWack_waits {w w' : SimWrapper} {es : List Event}
    (hs : w.sendWack cfg h = .ok (w', es)) :
    responsesOf h es = [] ∧ w'.hostBlocked = w.hostBlocked := by
  unfold sendWack at hs
  split at hs
  · cases hs
    exact ⟨rfl, rfl⟩
  · dsimp only at hs
    split at hs
    · split at hs <;> cases hs
      exact ⟨by simp, rfl⟩
    · cases hs
      exact ⟨by simp, rfl⟩

theorem readsOf_data {es : List Event} (hes : ∀ e ∈ es, e.Data h) : readsOf h es = [] := by
  refine (pick_eq_nil _).mpr fun e he => ?_
  have := hes e he
  cases e <;> simp_all [Event.Data]

theorem clockNegedge_balanced {w w' : SimWrapper} {es : List Event}
    (hs : w.clockNegedge cfg h env = .ok (w', es)) : Balanced h w es w' ∨
      ((responsesOf h es).length = 1 ∧ readsOf h es = [] ∧ w'.proc = w.proc ∧
        w'.hostBlocked = false) := by
  obtain ⟨hproc, -, -, hdata⟩ := clockNegedge_frame hs
  have hreads := readsOf_data hdata
  unfold clockNegedge at hs
  dsimp only at hs
  split at hs
  · cases hs
  · rename_i hw
    cases hs
    obtain ⟨r1, b1⟩ := forwardRead_waits (h := h) w
    obtain ⟨r2, b2⟩ := forwardWrite_waits (h := h) (w.forwardRead h).1
    obtain ⟨r4, b4⟩ := sendWack_waits hw
    rcases @sendRack_waits cfg h env ((w.forwardRead h).1.forwardWrite h).1 with ⟨r3, b3⟩ | ⟨r3, b3⟩
    · refine .inl ⟨by simp only [responsesOf_append, r1, r2, r3, r4, List.append_nil], ?_⟩
      rw [hreads, hproc, b4, b3, b2, b1, List.length_nil, Nat.zero_add]
    · refine .inr ⟨?_, hreads, hproc, b4.trans b3⟩
      simp only [responsesOf_append, r1, r2, r4, List.append_nil, List.nil_append, r3]

/-- A step keeps the balance or brings one response, which ends the host's waiting. -/
theorem act_balanced {w w' : SimWrapper} {a : Act} {es : List Event}
    (hs : w.act cfg h env a = .ok (w', es)) : Balanced h w es w' ∨
      ((responsesOf h es).length = 1 ∧ readsOf h es = [] ∧ w'.proc = w.proc ∧
        w'.hostBlocked = false) := by
  cases a with
  | recv packet => exact .inl (recv_balanced hs)
  | process => exact .inl (process_balanced hs)
  | posedge => exact .inl (.of_ok hs ⟨rfl, by simp [clockPosedge]⟩)
  | negedge => exact clockNegedge_balanced hs
  | peq =>
      simp only [act, peqCb] at hs
      split at hs
      · cases hs
      · rename_i hw
        split at hw
        · cases hw
        · split at hw <;> cases hw <;> cases hs <;> exact .inl ⟨rfl, by simp⟩

end SimWrapper

namespace LoneHost

variable {cfg : Config} {mem : Nat → Nat → UInt8} {w w' : SimWrapper} {l : List Event}

/-! ## The SIMWrapper in it -/

/-- A SIMWrapper with whole steps for moves and `mem` behind its pointers. -/
def component (cfg : Config) (mem : Nat → Nat → UInt8) : Component SimWrapper Event where
  hear := SimWrapper.hear 0
  foreign e := e.source ≠ .sim 0
  move w es w' := ∃ sync activeDram a, w.act cfg 0 ⟨sync, activeDram, load mem⟩ a = .ok (w', es)

/-- The same by elementary moves. -/
def moveComponent (cfg : Config) (mem : Nat → Nat → UInt8) : Component SimWrapper Event where
  hear := SimWrapper.hear 0
  foreign e := e.source ≠ .sim 0
  move w es w' := ∃ sync activeDram, SimWrapper.Move cfg 0 ⟨sync, activeDram, load mem⟩ w es w'

theorem closed_of_moves {P : SimWrapper → List Event → Prop}
    (hP : (moveComponent cfg mem).Closed P) :
    (component cfg mem).Closed P :=
  hP.transfer (fun _ _ => rfl) (fun _ he => he) fun _ _ _ ⟨sync, n, _, ha⟩ =>
    (SimWrapper.act_chain ha).mono fun _ _ _ hm => ⟨sync, n, hm⟩

theorem closed_of_sim {P : SimWrapper → List Event → Prop}
    (hP : (SimWrapper.component cfg 0).Closed P) :
    (moveComponent cfg mem).Closed P :=
  hP.transfer (fun _ _ => rfl) (fun _ he => he) fun _ _ _ ⟨_, _, hm⟩ => .single ⟨_, hm⟩

theorem ack_source (p : Payload) : (Event.call (.simBw 0) p).source ≠ .sim 0 := by
  simp [Event.source, Chan.source]

def view (cfg : Config) (mem : Nat → Nat → UInt8) :
    View (component cfg mem) (step cfg mem) Prod.snd where
  comp := Prod.fst
  covers {s a s'} hs := by
    cases a with
    | step a sync n =>
        simp only [step] at hs
        split at hs
        · rename_i ha
          cases hs
          exact ⟨_, rfl, .inl (.single ⟨sync, n, a, ha⟩)⟩
        · cases hs
    | ack p =>
        simp only [step] at hs
        split at hs
        · cases hs
          refine ⟨_, rfl, .inr ⟨?_, ?_⟩⟩
          · intro e he
            rw [List.mem_singleton.mp he]
            exact ack_source _
          · simp [component, SimWrapper.hear]
        · cases hs

/-- The states of all runs of the SIMWrapper. -/
def ReachableAlone (cfg : Config) (mem : Nat → Nat → UInt8) (s : SimWrapper × List Event) : Prop :=
  Reach (step cfg mem) anyStep init s

/-! ## Acks -/

/-- Every ack is for a payload forwarded before, and the first for it. -/
def Fair (l : List Event) : Prop :=
  ∀ l₁ p l₂, l = l₁ ++ .call (.simBw 0) p :: l₂ → ∃ q ∈ sent (.uspFw 0) l₁, p = ackOf q ∧
    q.bare ∉ (sent (.simBw 0) l₁).map Payload.bare

theorem Fair.prefix {l es : List Event} (hf : Fair (l ++ es)) : Fair l := fun l₁ p l₂ hl =>
  hf l₁ p (l₂ ++ es) (by rw [hl]; simp)

/-- What the SIMWrapper itself logs is no ack. -/
theorem Fair.append_own {es : List Event} (hf : Fair l) (hes : ∀ e ∈ es, e.source = .sim 0) :
    Fair (l ++ es) := by
  intro l₁ p l₂ he
  obtain ⟨l₂', hl⟩ := split_append he fun hp => ack_source p (hes _ hp)
  exact hf l₁ p l₂' hl

@[simp] theorem ackOf_bare (p : Payload) : (ackOf p).bare = p.bare := by
  simp [ackOf]

theorem ReachableAlone.fair {s : SimWrapper × List Event} (hr : ReachableAlone cfg mem s) :
    Fair s.2 := by
  refine Reach.invariant (P := fun s => Fair s.2) (fun l₁ p l₂ he => by simp [init] at he) ?_ hr
  intro s a s' _ _ ih hs
  cases a with
  | step a sync n =>
      simp only [step] at hs
      split at hs
      · rename_i ha
        cases hs
        exact ih.append_own ((SimWrapper.act_chain ha).forall_mem fun _ _ _ hm => hm.source)
      · cases hs
  | ack q =>
      simp only [step] at hs
      split at hs
      · rename_i hq
        cases hs
        intro l₁ p l₂ he
        rcases split_concat he with ⟨rfl, hp⟩ | ⟨l₃, hl⟩
        · injection hp with _ hp
          exact ⟨q, hq.1, hp, hq.2⟩
        · exact ih l₁ p l₃ hl
      · cases hs

theorem Fair.ack_form (hf : Fair l) {p : Payload} (hp : p ∈ sent (.simBw 0) l) :
    ∃ q ∈ sent (.uspFw 0) l, p = ackOf q := by
  obtain ⟨l₁, l₂, hl⟩ := List.append_of_mem ((mem_sent _).mp hp)
  obtain ⟨q, hq, he, -⟩ := hf l₁ p l₂ hl
  refine ⟨q, ?_, he⟩
  rw [hl, sent_append]
  exact List.mem_append_left _ hq

theorem Fair.nodup (hf : Fair l) : ((sent (.simBw 0) l).map Payload.bare).Nodup := by
  induction l using List.reverseRecOn with
  | nil => exact List.nodup_nil
  | append_singleton l e ih =>
      have ih := ih hf.prefix
      by_cases he : ∃ p, e = .call (.simBw 0) p
      · obtain ⟨p, rfl⟩ := he
        obtain ⟨q, -, rfl, hq⟩ := hf l p [] rfl
        rw [sent_append, List.map_append, List.nodup_append]
        refine ⟨ih, by simp, fun a ha b hb => ?_⟩
        simp only [sent_cons, sent_nil, Event.call?, decide_true, if_true, Option.toList_some,
          List.append_nil, List.map_cons, List.map_nil, List.mem_singleton, ackOf_bare] at hb
        rintro rfl
        exact hq (hb ▸ ha)
      · have hnone : sent (.simBw 0) [e] = [] := by
          refine callsOn_eq_nil _ fun c p hm => ?_
          rw [decide_eq_false_iff_not]
          rintro rfl
          exact he ⟨p, (List.mem_singleton.mp hm).symm⟩
        rw [sent_append, hnone, List.append_nil]
        exact ih

/-! ## Reads -/

/-- The read acks consumed. -/
def readAcks (l : List Event) : List Payload := ofCmd .read (sent (.endResp 0) l)

/-- What a SIMWrapper always keeps with its log. -/
def Base (cfg : Config) (w : SimWrapper) (l : List Event) : Prop :=
  SimWrapper.Queues 0 w l ∧ (SimWrapper.Acks 0 w l ∧ SimWrapper.ReadRounds cfg 0 w l) ∧
    SimWrapper.Created cfg 0 w l

theorem base_closed (h0 : 0 < cfg.payloadNum) (hN : cfg.payloadNum < 4294967296) :
    (moveComponent cfg mem).Closed (Base cfg) :=
  closed_of_sim (SimWrapper.simQueues_closed.and
    ((SimWrapper.simReadRounds_closed h0 hN).and SimWrapper.simCreated_closed))

/-- A read ack is one of a chunk of a read packet handled. -/
theorem ack_form (hq : SimWrapper.Queues 0 w l) (hc : SimWrapper.Created cfg 0 w l) (hf : Fair l)
    {p : Payload} (hp : p ∈ ofCmd .read (sent (.simBw 0) l)) :
    ∃ n, ∃ hn : n < (readsOf 0 l).length, ∃ i < cfg.payloadNum,
      p = ackOf (SimWrapper.readPayload cfg 0 (readsOf 0 l)[n] n i) := by
  obtain ⟨hp, hcmd⟩ := mem_ofCmd.mp hp
  obtain ⟨q, hfw, rfl⟩ := hf.ack_form hp
  have hqc : q.command = .read := by
    rw [← Payload.bare_command, ← ackOf_bare, Payload.bare_command, hcmd]
  have hm : q ∈ ofCmd .read (sent (.create 0) l) := by
    rw [hq.1]
    exact List.mem_append_left _ (mem_ofCmd.mpr ⟨hfw, hqc⟩)
  rw [hc.1.1, mem_packetPayloads] at hm
  obtain ⟨n, hn, hm⟩ := hm
  obtain ⟨i, hi, rfl⟩ := List.mem_map.mp hm
  exact ⟨n, hn, i, List.mem_range.mp hi, rfl⟩

theorem Base.readAcks_sublist (hb : Base cfg w l) :
    (readAcks l).Sublist (ofCmd .read (sent (.simBw 0) l)) :=
  ((List.sublist_append_left ..).trans ((List.sublist_append_left ..).trans
    (List.sublist_append_left ..))).trans hb.2.1.1.1

/-- A consumed read ack is one of a chunk of a read packet handled. -/
theorem Base.ack_form (hb : Base cfg w l) (hf : Fair l) {p : Payload} (hp : p ∈ readAcks l) :
    ∃ n, ∃ hn : n < (readsOf 0 l).length, ∃ i < cfg.payloadNum,
      p = ackOf (SimWrapper.readPayload cfg 0 (readsOf 0 l)[n] n i) :=
  LoneHost.ack_form hb.1 hb.2.2 hf (hb.readAcks_sublist.subset hp)

@[simp] theorem ackOf_packet (p : Payload) : (ackOf p).packet = p.packet := by
  rw [← Payload.bare_packet, ackOf_bare, Payload.bare_packet]

@[simp] theorem ackOf_chunk (p : Payload) : (ackOf p).chunk = p.chunk := by
  rw [← Payload.bare_chunk, ackOf_bare, Payload.bare_chunk]

@[simp] theorem ackOf_key (p : Payload) : (ackOf p).key = p.key := by
  rw [← Payload.key_bare, ackOf_bare, Payload.key_bare]

/-- The read acks are distinct members of groups of `payload_num`. -/
theorem acks_taken (hq : SimWrapper.Queues 0 w l) (hc : SimWrapper.Created cfg 0 w l)
    (hf : Fair l) :
    Groups.Taken cfg.payloadNum ((ofCmd .read (sent (.simBw 0) l)).map Payload.key) where
  nodup := by
    refine List.Nodup.map_on (fun p hp p' hp' hk => ?_)
      (List.Nodup.of_map Payload.bare (hf.nodup.sublist (List.filter_sublist.map Payload.bare)))
    obtain ⟨n, hn, i, hi, rfl⟩ := ack_form hq hc hf hp
    obtain ⟨n', hn', i', hi', rfl⟩ := ack_form hq hc hf hp'
    rw [ackOf_key, ackOf_key] at hk
    simp only [Payload.key, SimWrapper.readPayload, Prod.mk.injEq] at hk
    obtain ⟨rfl, rfl⟩ := hk
    rfl
  place k hk := by
    obtain ⟨p, hp, rfl⟩ := List.mem_map.mp hk
    obtain ⟨n, hn, i, hi, rfl⟩ := ack_form hq hc hf hp
    rw [ackOf_key]
    exact hi

theorem Base.taken (hb : Base cfg w l) (hf : Fair l) :
    Groups.Taken cfg.payloadNum ((readAcks l).map Payload.key) :=
  (acks_taken hb.1 hb.2.2 hf).sublist (hb.readAcks_sublist.map Payload.key)

theorem Base.packet_lt (hb : Base cfg w l) (hf : Fair l) {p : Payload} (hp : p ∈ readAcks l) :
    p.packet < (readsOf 0 l).length := by
  obtain ⟨n, hn, i, hi, rfl⟩ := hb.ack_form hf hp
  exact hn

/-- There are no more responses than read packets. -/
theorem Base.responses_le (hb : Base cfg w l) (hf : Fair l) (h0 : 0 < cfg.payloadNum) :
    (responsesOf 0 l).length ≤ (readsOf 0 l).length := by
  have hlen := (hb.taken hf).length_le (m := (readsOf 0 l).length) fun k hk => by
    obtain ⟨p, hp, rfl⟩ := List.mem_map.mp hk
    exact hb.packet_lt hf hp
  rw [List.length_map] at hlen
  have hround : cfg.payloadNum * (responsesOf 0 l).length + w.rackNum = (readAcks l).length :=
    hb.2.1.2.2
  exact Nat.le_of_mul_le_mul_left (by omega) h0

/-- The host waits for a response before it reads again, so no read ack is for a later packet than
    the one its round is for. -/
def Disciplined (cfg : Config) (w : SimWrapper) (l : List Event) : Prop :=
  Fair l → (readsOf 0 l).length + w.proc.reading = (responsesOf 0 l).length + w.hostBlocked.toNat ∧
    ∀ j, ∀ hj : j < (readAcks l).length, (readAcks l)[j].packet ≤ j / cfg.payloadNum

theorem disciplined_closed (h0 : 0 < cfg.payloadNum) (hN : cfg.payloadNum < 4294967296) :
    (component cfg mem).Closed fun w l => Base cfg w l ∧ Disciplined cfg w l := by
  have hbase := @closed_of_moves cfg mem _ (base_closed h0 hN)
  refine hbase.and_of ?_ ?_
  · intro w l e he _ hd hf
    have hs : sent (.endResp 0) [e] = [] := SimWrapper.foreign_sent he rfl
    have hreads := (SimWrapper.foreign_hostEvents he).2.2
    have hresp := SimWrapper.foreign_responses he
    have hacks : readAcks (l ++ [e]) = readAcks l := by
      rw [readAcks, sent_append, hs, List.append_nil, readAcks]
    have hstate : (w.hear 0 e).proc = w.proc ∧ (w.hear 0 e).hostBlocked = w.hostBlocked := by
      rcases SimWrapper.hear_cases (h := 0) w e with ⟨hw, -⟩ | ⟨p, -, hw⟩ <;> rw [hw] <;>
        exact ⟨rfl, rfl⟩
    show (readsOf 0 (l ++ [e])).length + (w.hear 0 e).proc.reading = _ ∧ _
    rw [readsOf_append, responsesOf_append, hreads, hresp, List.append_nil, List.append_nil,
      hstate.1]
    show _ = _ + (w.hear 0 e).hostBlocked.toNat ∧ _
    rw [hstate.2]
    simp only [hacks]
    exact hd hf.prefix
  · intro w l es w' hm hb hd hf
    obtain ⟨hwait, hold⟩ := hd hf.prefix
    have hb' := hbase.move w l es w' hm hb
    obtain ⟨sync, n, a, ha⟩ := hm
    have hround : cfg.payloadNum * (responsesOf 0 l).length + w.rackNum = (readAcks l).length :=
      hb.2.1.2.2
    have hle := hb'.responses_le hf h0
    have hblocked := Bool.toNat_le w.hostBlocked
    have hbalance : (readsOf 0 (l ++ es)).length + w'.proc.reading =
        (responsesOf 0 (l ++ es)).length + w'.hostBlocked.toNat ∧
          (readsOf 0 (l ++ es)).length ≤ (responsesOf 0 l).length + 1 := by
      have hblocked' := Bool.toNat_le w'.hostBlocked
      simp only [readsOf_append, responsesOf_append, List.length_append] at hle ⊢
      rcases SimWrapper.act_balanced ha with ⟨hr, hbal⟩ | ⟨hr, hreads, hproc, hb⟩
      · rw [hr, List.length_nil]
        omega
      · rw [hreads, hr, List.length_nil, Nat.add_zero] at hle ⊢
        rw [hproc, hb, Bool.toNat_false]
        omega
    refine ⟨hbalance.1, fun j hj => ?_⟩
    have hacks : readAcks (l ++ es) = readAcks l ++ readAcks es := by
      simp only [readAcks, sent_append, ofCmd_append]
    by_cases hjl : j < (readAcks l).length
    · simp only [hacks, List.getElem_append_left hjl]
      exact hold j hjl
    · -- an ack consumed just now is for a packet handled, and these are one ahead at most
      have hlt := hb'.packet_lt hf (List.getElem_mem hj)
      have hj : (responsesOf 0 l).length ≤ j / cfg.payloadNum := by
        rw [Nat.le_div_iff_mul_le h0, Nat.mul_comm]
        omega
      omega

theorem ReachableAlone.always {P : SimWrapper → List Event → Prop} {s : SimWrapper × List Event}
    (hr : ReachableAlone cfg mem s) (hP : (component cfg mem).Closed P)
    (h0 : P SimWrapper.init []) :
    P s.1 s.2 :=
  (view cfg mem).always hP (by exact h0) hr

theorem base_init (h0 : 0 < cfg.payloadNum) : Base cfg SimWrapper.init [] :=
  ⟨⟨rfl, rfl⟩, ⟨⟨List.Sublist.refl [], List.Sublist.refl []⟩, h0, rfl⟩, ⟨rfl, rfl⟩, rfl, rfl⟩

theorem ReachableAlone.base {s : SimWrapper × List Event} (hr : ReachableAlone cfg mem s)
    (h0 : 0 < cfg.payloadNum) (hN : cfg.payloadNum < 4294967296) : Base cfg s.1 s.2 :=
  hr.always (closed_of_moves (base_closed h0 hN)) (base_init h0)

/-- The read acks consumed come packet by packet. -/
theorem ReachableAlone.ack_packet {s : SimWrapper × List Event} (hr : ReachableAlone cfg mem s)
    (h0 : 0 < cfg.payloadNum) (hN : cfg.payloadNum < 4294967296) :
    ∀ j, ∀ hj : j < (readAcks s.2).length, (readAcks s.2)[j].packet = j / cfg.payloadNum := by
  have hd := hr.always (disciplined_closed h0 hN) ⟨base_init h0, fun _ => ⟨rfl, by simp [readAcks]⟩⟩
  have hle := (hd.2 hr.fair).2
  intro j hj
  have := ((hr.base h0 hN).taken hr.fair).group_eq_of_le
    (fun j hj => by
      rw [List.getElem_map]
      exact hle j (by simpa using hj)) j (by simpa using hj)
  rwa [List.getElem_map] at this

/-! ## The data of a response -/

/-- The bytes an ack points at. -/
def block (mem : Nat → Nat → UInt8) (p : Payload) : List UInt8 := load mem p.dataPtr p.dataLength

/-- Every read ack points at a block of one request. -/
def Blocks (cfg : Config) (mem : Nat → Nat → UInt8) (l : List Event) : Prop :=
  ∀ p ∈ sent (.simBw 0) l, p.command = .read → (block mem p).length = cfg.dramReqSize

/-- The data of the packet in progress and of every response are the blocks of their acks. -/
def Assembled (cfg : Config) (mem : Nat → Nat → UInt8) (w : SimWrapper) (l : List Event) : Prop :=
  Blocks cfg mem l →
    (List.range (cfg.dramReqSize * w.rackNum)).map w.packetData =
        ((readAcks l).drop (cfg.payloadNum * (responsesOf 0 l).length)).flatMap (block mem) ∧
      ∀ n < (responsesOf 0 l).length, (responsesOf 0 l)[n]? =
        some ((((readAcks l).drop (cfg.payloadNum * n)).take cfg.payloadNum).flatMap (block mem))

theorem Assembled.keep {es : List Event} (ha : Assembled cfg mem w l)
    (hw : w'.rackNum = w.rackNum ∧ w'.packetData = w.packetData) (hr : responsesOf 0 es = [])
    (hs : readAcks es = []) : Assembled cfg mem w' (l ++ es) := by
  intro hb
  have hacks : readAcks (l ++ es) = readAcks l := by
    rw [readAcks, sent_append, ofCmd_append, ← readAcks, ← readAcks, hs, List.append_nil]
  rw [hacks, responsesOf_append, hr, List.append_nil, hw.1, hw.2]
  exact ha fun p hp => hb p (by rw [sent_append]; exact List.mem_append_left _ hp)

theorem Blocks.left {es : List Event} (hb : Blocks cfg mem (l ++ es)) : Blocks cfg mem l :=
  fun p hp => hb p (by rw [sent_append]; exact List.mem_append_left _ hp)

/-- One more member does not change a round that is complete. -/
theorem round_concat {α : Type} {N n : Nat} {ps : List α} (hn : N * (n + 1) ≤ ps.length) (p : α) :
    ((ps ++ [p]).drop (N * n)).take N = (ps.drop (N * n)).take N := by
  rw [Nat.mul_succ] at hn
  rw [List.drop_append_of_le_length (by omega), List.take_append_of_le_length]
  rw [List.length_drop]
  omega

/-- The block of one more ack goes behind those of the packet in progress. -/
theorem Assembled.block_concat (hc : cfg.WellSized) (ha : Assembled cfg mem w l)
    (hb : Blocks cfg mem l) (hacks : SimWrapper.Acks 0 w l) (hr : SimWrapper.ReadRounds cfg 0 w l)
    {p : Payload} {q : List Payload} (hq : w.rackQueue = p :: q) :
    (List.range (cfg.dramReqSize * (w.rackNum + 1))).map
        (memcpy w.packetData (u32 (cfg.dramReqSize * w.rackNum))
          (load mem p.dataPtr p.dataLength)) =
      ((readAcks l ++ [p]).drop (cfg.payloadNum * (responsesOf 0 l).length)).flatMap
        (block mem) := by
  obtain ⟨hlt, hround⟩ := hr
  obtain ⟨hsim, hcmd⟩ := mem_ofCmd.mp (hacks.1.subset (show p ∈ _ by simp [hq]))
  have hlen : (block mem p).length = cfg.dramReqSize := hb p hsim hcmd
  have hpos : u32 (cfg.dramReqSize * w.rackNum) = cfg.dramReqSize * w.rackNum := by
    have hle := hc.chunk_le hlt
    have hmax := hc.le
    simp only [u32, maxDataSize] at hmax ⊢
    omega
  have hwrite := Store.range_map_write w.packetData (cfg.dramReqSize * w.rackNum) (block mem p)
  rw [hlen, ← Nat.mul_succ, (ha hb).1] at hwrite
  have hdrop : cfg.payloadNum * (responsesOf 0 l).length ≤ (readAcks l).length := by
    rw [readAcks]
    omega
  rw [hpos, List.drop_append_of_le_length hdrop, List.flatMap_append]
  simpa [memcpy, block] using hwrite

theorem assembled_closed (hc : cfg.WellSized) (h0 : 0 < cfg.payloadNum) :
    (moveComponent cfg mem).Closed fun w l => Base cfg w l ∧ Assembled cfg mem w l := by
  have hN : cfg.payloadNum < 4294967296 := Nat.lt_of_le_of_lt hc.payloadNum_le (by decide)
  refine (base_closed h0 hN).and_of ?_ ?_
  · intro w l e he _ ha
    refine ha.keep ?_ (SimWrapper.foreign_responses he)
      (by rw [readAcks, SimWrapper.foreign_sent he rfl, ofCmd_nil])
    show (w.hear 0 e).rackNum = _ ∧ (w.hear 0 e).packetData = _
    rcases SimWrapper.hear_cases (h := 0) w e with ⟨hw, -⟩ | ⟨p, -, hw⟩ <;> rw [hw] <;>
      exact ⟨rfl, rfl⟩
  · intro w l es w' hm hbase ha
    obtain ⟨-, ⟨hacks, hr⟩, -⟩ := hbase
    have hround : cfg.payloadNum * (responsesOf 0 l).length + w.rackNum = (readAcks l).length :=
      hr.2
    have hold {n : Nat} (hn : n < (responsesOf 0 l).length) :
        cfg.payloadNum * (n + 1) ≤ (readAcks l).length :=
      (Nat.mul_le_mul_left cfg.payloadNum hn).trans (by omega)
    have hlt := hr.1
    obtain ⟨sync, n, hm⟩ := hm
    cases hm with
    | control _ _ _ _ _ _ hes _ =>
        exact ha.keep ⟨rfl, rfl⟩ (responsesOf_quiet 0 hes)
          (by rw [readAcks, sent_quiet _ hes, ofCmd_nil])
    | createRead packet =>
        exact ha.keep ⟨rfl, rfl⟩ (by simp [SimWrapper.handleReadPacket])
          (by simp [readAcks, SimWrapper.handleReadPacket])
    | createWrite packet =>
        exact ha.keep ⟨rfl, rfl⟩ (by simp [SimWrapper.handleWritePacket])
          (by simp [readAcks, SimWrapper.handleWritePacket])
    | @rack p q hq hn =>
        have hcmd := hacks.rackQueue_command p (hq ▸ List.mem_cons_self)
        have hnew : readAcks (l ++ [.call (.endResp 0) p]) = readAcks l ++ [p] := by
          simp [readAcks, ofCmd_cons, hcmd]
        have hresp : responsesOf 0 (l ++ [.call (.endResp 0) p]) = responsesOf 0 l := by simp
        intro hb
        rw [hnew, hresp]
        refine ⟨?_, fun n hn => ?_⟩
        · rw [show u32 (w.rackNum + 1) = w.rackNum + 1 from Nat.mod_eq_of_lt (by omega)]
          exact ha.block_concat hc hb.left hacks hr hq
        · rw [round_concat (hold hn)]
          exact (ha hb.left).2 n hn
    | @respond p q data hq hn hdata =>
        have hcmd := hacks.rackQueue_command p (hq ▸ List.mem_cons_self)
        rw [show u32 (w.rackNum + 1) = w.rackNum + 1 from Nat.mod_eq_of_lt (by omega)] at hn
        have hnew : readAcks (l ++ [.call (.endResp 0) p,
            .respond 0 ((List.range cfg.packetSize).map data)]) = readAcks l ++ [p] := by
          simp [readAcks, ofCmd_cons, hcmd]
        have hresp : responsesOf 0 (l ++ [.call (.endResp 0) p,
            .respond 0 ((List.range cfg.packetSize).map data)]) =
              responsesOf 0 l ++ [(List.range cfg.packetSize).map data] := by simp
        have hlen : (readAcks l ++ [p]).length =
            cfg.payloadNum * ((responsesOf 0 l).length + 1) := by
          rw [List.length_append, List.length_singleton, Nat.mul_succ]
          omega
        intro hb
        rw [hnew, hresp]
        refine ⟨?_, fun n hn' => ?_⟩
        · rw [List.length_append, List.length_singleton, ← hlen, List.drop_length]
          rfl
        · rw [List.length_append, List.length_singleton] at hn'
          rcases Nat.lt_or_eq_of_le (Nat.le_of_lt_succ hn') with hlt' | rfl
          · rw [round_concat (hold hlt'), List.getElem?_append_left hlt']
            exact (ha hb.left).2 n hlt'
          · -- the response itself: the packet in progress is complete with `p`
            have hdata : (List.range (cfg.dramReqSize * (w.rackNum + 1))).map data = _ :=
              hdata ▸ ha.block_concat hc hb.left hacks hr hq
            rw [hn, hc.mul_payloadNum] at hdata
            rw [List.getElem?_append_right (Nat.le_refl _), Nat.sub_self,
              List.getElem?_cons_zero, hdata, List.take_of_length_le]
            rw [List.length_drop, hlen, Nat.mul_succ]
            omega
    | @wack p q hq =>
        have hcmd := hacks.wackQueue_command p (hq ▸ List.mem_cons_self)
        exact ha.keep ⟨rfl, rfl⟩ (by simp) (by simp [readAcks, ofCmd_cons, hcmd])
    | @signal p q _ _ hq =>
        have hcmd := hacks.wackQueue_command p (hq ▸ List.mem_cons_self)
        exact ha.keep ⟨rfl, rfl⟩ (by simp) (by simp [readAcks, ofCmd_cons, hcmd])
    | _ => exact ha.keep ⟨rfl, rfl⟩ (by simp) (by simp [readAcks])

/-- The read acks of packet `n`, in the order in which they came. -/
def acksOf (l : List Event) (n : Nat) : List Payload :=
  (ofCmd .read (sent (.simBw 0) l)).filter fun p => p.packet = n

/-- The acks a response was made of are all acks of its packet. -/
theorem ReachableAlone.round_acks {s : SimWrapper × List Event} (hr : ReachableAlone cfg mem s)
    (h0 : 0 < cfg.payloadNum) (hN : cfg.payloadNum < 4294967296) {n : Nat}
    (hn : n < (responsesOf 0 s.2).length) :
    ((readAcks s.2).drop (cfg.payloadNum * n)).take cfg.payloadNum = acksOf s.2 n := by
  have hb := hr.base h0 hN
  have hround : cfg.payloadNum * (responsesOf 0 s.2).length + s.1.rackNum = (readAcks s.2).length :=
    hb.2.1.2.2
  have hmul := Nat.mul_le_mul_left cfg.payloadNum hn
  rw [Nat.mul_succ] at hmul
  have hsub : (((readAcks s.2).drop (cfg.payloadNum * n)).take cfg.payloadNum).Sublist
      (acksOf s.2 n) := by
    rw [← Groups.filter_round Payload.packet h0 (hr.ack_packet h0 hN)]
    exact hb.readAcks_sublist.filter _
  have hle : (acksOf s.2 n).length ≤ cfg.payloadNum := by
    have htaken := (acks_taken hb.1 hb.2.2 hr.fair).sublist
      (List.Sublist.map Payload.key (List.filter_sublist (p := fun p => p.packet = n)))
    have := htaken.length_le_of_group (n := n) fun k hk => by
      obtain ⟨p, hp, rfl⟩ := List.mem_map.mp hk
      simpa [Payload.key] using (List.mem_filter.mp hp).2
    rwa [List.length_map] at this
  refine hsub.eq_of_length_le ?_
  rw [List.length_take, List.length_drop]
  omega

theorem ReachableAlone.acksOf_length {s : SimWrapper × List Event} (hr : ReachableAlone cfg mem s)
    (h0 : 0 < cfg.payloadNum) (hN : cfg.payloadNum < 4294967296) {n : Nat}
    (hn : n < (responsesOf 0 s.2).length) : (acksOf s.2 n).length = cfg.payloadNum := by
  have hround : cfg.payloadNum * (responsesOf 0 s.2).length + s.1.rackNum = (readAcks s.2).length :=
    (hr.base h0 hN).2.1.2.2
  have hmul := Nat.mul_le_mul_left cfg.payloadNum hn
  rw [Nat.mul_succ] at hmul
  rw [← hr.round_acks h0 hN hn, List.length_take, List.length_drop]
  omega

/-- Every response is the blocks of the acks of its packet, in the order in which they came. -/
theorem ReachableAlone.response {s : SimWrapper × List Event} (hr : ReachableAlone cfg mem s)
    (hc : cfg.WellSized) (h0 : 0 < cfg.payloadNum) {n : Nat} (hn : n < (responsesOf 0 s.2).length) :
    (responsesOf 0 s.2)[n]? = some ((acksOf s.2 n).flatMap (block mem)) := by
  have hN : cfg.payloadNum < 4294967296 := Nat.lt_of_le_of_lt hc.payloadNum_le (by decide)
  have hb := hr.base h0 hN
  have hblocks : Blocks cfg mem s.2 := by
    intro p hp hcmd
    obtain ⟨n, hn, i, hi, rfl⟩ := ack_form hb.1 hb.2.2 hr.fair (mem_ofCmd.mpr ⟨hp, hcmd⟩)
    simp [block, load, ackOf, SimWrapper.readPayload, MemWrapper.backwardTrans, MemWrapper.genTrans]
  have ha :=
    hr.always (closed_of_moves (assembled_closed hc h0)) ⟨base_init h0, fun _ => ⟨rfl, by simp⟩⟩
  rw [(ha.2 hblocks).2 n hn, hr.round_acks h0 hN hn]

end LoneHost

end TSim4CXL
