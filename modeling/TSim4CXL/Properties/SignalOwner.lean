/-
  Which write a completion signal is for.

  A SIMWrapper raises the signal at the front of `sync_queue` whenever it has consumed
  `payload_num` write acks. `signals_own_iff`: with one host, every signal comes after the
  acks of all payloads of its own packet exactly when the write acks consumed come packet
  by packet. `signal_before_own_acks`: two packets in flight, acks in reverse order.
-/
import TSim4CXL.Properties.Lifetimes
import TSim4CXL.Lib.Groups

namespace TSim4CXL

open Transition

/-- Signal number `n` of host `h` is that of its write packet number `n`, and the acks of all
    payloads of this packet were consumed before. -/
def OwnSignals (cfg : Config) (h : Nat) (l : List Event) : Prop :=
  ∀ l₁ a l₂, l = l₁ ++ .signal h a :: l₂ →
    ∃ hn : (signalsOf h l₁).length < (writesOf h l₁).length,
      (writesOf h l₁)[(signalsOf h l₁).length].address = a ∧
        ∀ p ∈ SimWrapper.writePayloads cfg h (writesOf h l₁)[(signalsOf h l₁).length]
            (signalsOf h l₁).length, p.bare ∈ (sent (.endResp h) l₁).map Payload.bare

/-! ## Splitting a log at a signal -/

/-- The log before signal number `n`. -/
theorem exists_split {h n : Nat} {l : List Event} (hn : n < (signalsOf h l).length) :
    ∃ l₁ a l₂, l = l₁ ++ .signal h a :: l₂ ∧ (signalsOf h l₁).length = n := by
  induction l generalizing n with
  | nil => simp at hn
  | cons e l ih =>
      have hskip (he : e.signal? h = none) :
          ∃ l₁ a l₂, e :: l = l₁ ++ .signal h a :: l₂ ∧ (signalsOf h l₁).length = n := by
        rw [signalsOf_cons, he] at hn
        obtain ⟨l₁, a, l₂, rfl, hlen⟩ := ih hn
        refine ⟨e :: l₁, a, l₂, rfl, ?_⟩
        rw [signalsOf_cons, he]
        exact hlen
      cases e with
      | signal k a =>
          by_cases hk : k = h
          · subst hk
            cases n with
            | zero => exact ⟨[], a, l, rfl, rfl⟩
            | succ n =>
                obtain ⟨l₁, b, l₂, rfl, hlen⟩ := ih (n := n) (by simpa using hn)
                exact ⟨.signal k a :: l₁, b, l₂, rfl, by simp [hlen]⟩
          · exact hskip (by simp [hk])
      | _ => exact hskip rfl

namespace SimWrapper

variable {cfg : Config} {h : Nat}

/-- `P` holds of the log before every signal of host `h`, and of its address. -/
def AtSignals (h : Nat) (P : List Event → Nat → Prop) (l : List Event) : Prop :=
  ∀ l₁ a l₂, l = l₁ ++ .signal h a :: l₂ → P l₁ a

/-- What a state relation tells about the next signal holds at every signal. -/
theorem atSignals_closed {Q : SimWrapper → List Event → Prop} (hQ : (component cfg h).Closed Q)
    {P : List Event → Nat → Prop} (hsig : ∀ w l p q a rest, Q w l → w.wackQueue = p :: q →
      u32 (w.wackNum + 1) = cfg.payloadNum → w.syncQueue = a :: rest →
      P (l ++ [.call (.endResp h) p]) a) :
    (component cfg h).Closed fun w l => Q w l ∧ AtSignals h P l := by
  have hkeep {l es : List Event} (hl : AtSignals h P l) (hes : ∀ a, .signal h a ∉ es) :
      AtSignals h P (l ++ es) := fun l₁ a l₂ he => by
    obtain ⟨l₂', rfl⟩ := split_append he (hes a)
    exact hl l₁ a l₂' rfl
  refine hQ.and_of ?_ ?_
  · intro w l e he _ hl
    refine hkeep hl fun a ha => he ?_
    rw [← List.mem_singleton.mp ha]
    rfl
  · intro w l es w' hm hq hl
    obtain ⟨env, hm⟩ := hm
    cases hm with
    | control _ _ _ _ _ _ hes _ => exact hkeep hl fun a ha => (hes _ ha).elim
    | createRead packet => exact hkeep hl (by simp [handleReadPacket])
    | createWrite packet => exact hkeep hl (by simp [handleWritePacket])
    | @signal p q sig rest hq' hn hs =>
        -- the split is at the new signal or in the old log
        intro l₁ a l₂ he
        rw [← List.singleton_append, ← List.append_assoc] at he
        rcases split_concat he with ⟨rfl, ha⟩ | ⟨l₃, he⟩
        · injection ha with _ ha
          exact ha ▸ hsig w l _ _ _ _ hq hq' hn hs
        · exact hkeep hl (by simp) l₁ a l₃ he
    | _ => exact hkeep hl (by simp)

end SimWrapper

namespace Sys

variable {cfg : Config} {s : Sys} {ok : Sys → Action → Prop}

/-- Signal number `n` is for write packet number `n`. -/
theorem ReachableBy.signal_packet (hr : ReachableBy cfg ok s) (h : Nat) :
    SimWrapper.AtSignals h (fun l a => ∃ hn : (signalsOf h l).length < (writesOf h l).length,
      (writesOf h l)[(signalsOf h l).length].address = a) s.log := by
  refine ((simView cfg h).always (SimWrapper.atSignals_closed SimWrapper.simSignalOrder_closed ?_)
    (by exact ⟨rfl, fun l₁ a l₂ he => by simp [init] at he⟩) hr).2
  intro w l p q a rest ho _ _ hs
  unfold SimWrapper.SignalOrder at ho
  have hget := congrArg (fun as => as[(signalsOf h l).length]?) ho
  simp only [hs, List.getElem?_append_right (Nat.le_refl _), Nat.sub_self, List.getElem?_cons_zero,
    List.getElem?_map] at hget
  obtain ⟨packet, hp, ha⟩ := Option.map_eq_some_iff.mp hget.symm
  obtain ⟨hn, rfl⟩ := List.getElem?_eq_some_iff.mp hp
  simpa using ⟨hn, ha⟩

/-- Signal number `n` comes with the last ack of round `n`. -/
theorem ReachableBy.signal_round (hr : ReachableBy cfg ok s) (h0 : 0 < cfg.payloadNum)
    (hN : cfg.payloadNum < 4294967296) (h : Nat) :
    SimWrapper.AtSignals h (fun l _ => cfg.payloadNum * ((signalsOf h l).length + 1) =
      (ofCmd .write (sent (.endResp h) l)).length) s.log := by
  refine ((simView cfg h).always
    (SimWrapper.atSignals_closed (SimWrapper.simRounds_closed h0 hN) ?_)
    (by exact ⟨⟨⟨List.Sublist.refl [], List.Sublist.refl []⟩, h0, rfl⟩,
      fun l₁ a l₂ he => by simp [init] at he⟩) hr).2
  rintro w l p q a rest ⟨hacks, hlt, hround⟩ hq hn -
  have hc := hacks.wackQueue_command p (hq ▸ List.mem_cons_self)
  rw [u32, Nat.mod_eq_of_lt (by omega)] at hn
  simp [ofCmd_cons, hc, Nat.mul_add]
  omega

/-! ## The acks of a single host -/

/-- With one host, an ack is consumed at most as often as its payload was created. -/
theorem ReachableBy.count_endResp_le (hr : ReachableBy cfg ok s) (h1 : cfg.hostNum = 1)
    (a : Payload) :
    ((sent (.endResp 0) s.log).map Payload.bare).count a ≤
      ((sent (.create 0) s.log).map Payload.bare).count a := by
  have hcons :=
    ((sent_sublist (.endResp 0) (k := Chan.isEndResp) rfl s.log).map Payload.bare).count_le a
  have hcreate : callsOn Chan.isCreate s.log = sent (.create 0) s.log := by
    rw [← hr.create_filter 0, eq_comm, List.filter_eq_self]
    intro p hp
    have hk : p.id < cfg.hostNum := hr.source_exists _ ((mem_sent _).mp (hr.mem_creates.mp hp))
    rw [decide_eq_true_eq]
    omega
  rw [← hcreate]
  exact Nat.le_trans hcons (hr.count_endResp_create a)

/-- The write acks a single host has consumed, by packet and chunk. -/
def ackKeys (s : Sys) : List (Nat × Nat) := (ofCmd .write (sent (.endResp 0) s.log)).map Payload.key

/-- A consumed write ack is for a created payload. -/
theorem ReachableBy.ack_created (hr : ReachableBy cfg ok s) (h1 : cfg.hostNum = 1) {p : Payload}
    (hp : p ∈ ofCmd .write (sent (.endResp 0) s.log)) :
    ∃ p' ∈ ofCmd .write (sent (.create 0) s.log), p'.bare = p.bare := by
  obtain ⟨hp, hc⟩ := mem_ofCmd.mp hp
  obtain ⟨p', hp', he⟩ := mem_bare_of_count _ _ (hr.count_endResp_le h1) hp
  refine ⟨p', mem_ofCmd.mpr ⟨hp', ?_⟩, he⟩
  rw [← Payload.bare_command, he, Payload.bare_command, hc]

/-- They are distinct members of groups of `payload_num`. -/
theorem ReachableBy.ackKeys_taken (hr : ReachableBy cfg ok s) (h1 : cfg.hostNum = 1) :
    Groups.Taken cfg.payloadNum s.ackKeys := by
  have hnodup : ((ofCmd .write (sent (.create 0) s.log)).map Payload.key).Nodup :=
    List.Nodup.map_on (fun p hp p' hp' hk => (hr.simCreated 0).key_inj hp hp' hk)
      (hr.create_nodup 0 .write)
  have hsub : List.Subperm ((ofCmd .write (sent (.endResp 0) s.log)).map Payload.bare)
      ((ofCmd .write (sent (.create 0) s.log)).map Payload.bare) := by
    refine List.subperm_ext_iff.mpr fun a ha => ?_
    obtain ⟨p, hp, rfl⟩ := List.mem_map.mp ha
    have hc : Command.write = p.bare.command := (mem_ofCmd.mp hp).2.symm
    rw [hc, count_bare_ofCmd, count_bare_ofCmd]
    exact hr.count_endResp_le h1 p.bare
  refine ⟨?_, fun k hk => ?_⟩
  · obtain ⟨l, hperm, hl⟩ := hsub
    have hperm := hperm.map Payload.key
    have hl := hl.map Payload.key
    have hbare (ps : List Payload) : (ps.map Payload.bare).map Payload.key =
        ps.map Payload.key := by
      rw [List.map_map]
      rfl
    rw [hbare] at hperm hl
    exact hperm.nodup_iff.mp (hnodup.sublist hl)
  · obtain ⟨p, hp, rfl⟩ := List.mem_map.mp hk
    obtain ⟨p', hp', he⟩ := hr.ack_created h1 hp
    rw [(hr.simCreated 0).2.1, mem_packetPayloads] at hp'
    obtain ⟨n, hn, hp'⟩ := hp'
    obtain ⟨i, hi, rfl⟩ := List.mem_map.mp hp'
    rw [← Payload.key_bare, ← he]
    exact List.mem_range.mp hi

/-! ## Signals and rounds -/

/-- The acks consumed before a signal are those of the rounds up to it. -/
theorem ReachableBy.ackKeys_take (hr : ReachableBy cfg ok s) (h0 : 0 < cfg.payloadNum)
    (hN : cfg.payloadNum < 4294967296) {l₁ l₂ : List Event} {a : Nat}
    (hl : s.log = l₁ ++ .signal 0 a :: l₂) : (ofCmd .write (sent (.endResp 0) l₁)).map Payload.key =
      s.ackKeys.take (cfg.payloadNum * ((signalsOf 0 l₁).length + 1)) := by
  have hpre : (ofCmd .write (sent (.endResp 0) l₁)).map Payload.key <+: s.ackKeys := by
    rw [ackKeys, hl, sent_append, ofCmd_append, List.map_append]
    exact List.prefix_append ..
  rw [List.prefix_iff_eq_take.mp hpre, List.length_map, hr.signal_round h0 hN 0 l₁ a l₂ hl]

/-- Every signal is its own packet's when every packet is complete by the end of its round. -/
theorem ReachableBy.ownSignals_iff (hr : ReachableBy cfg ok s) (h1 : cfg.hostNum = 1)
    (h0 : 0 < cfg.payloadNum) (hN : cfg.payloadNum < 4294967296) : OwnSignals cfg 0 s.log ↔
      ∀ n < (signalsOf 0 s.log).length, ∀ i < cfg.payloadNum,
        (n, i) ∈ s.ackKeys.take (cfg.payloadNum * (n + 1)) := by
  constructor
  · intro hown n hn i hi
    obtain ⟨l₁, a, l₂, hl, rfl⟩ := exists_split hn
    obtain ⟨hn', -, hall⟩ := hown l₁ a l₂ hl
    obtain ⟨q, hq, he⟩ := List.mem_map.mp (hall _ (List.mem_map_of_mem (List.mem_range.mpr hi)))
    rw [← hr.ackKeys_take h0 hN hl]
    refine List.mem_map.mpr ⟨q, mem_ofCmd.mpr ⟨hq, ?_⟩, ?_⟩
    · rw [← Payload.bare_command, he]
      rfl
    · rw [← Payload.key_bare, he]
      rfl
  · intro hall l₁ a l₂ hl
    obtain ⟨hn, ha⟩ := hr.signal_packet 0 l₁ a l₂ hl
    refine ⟨hn, ha, fun p hp => ?_⟩
    obtain ⟨i, hi, rfl⟩ := List.mem_map.mp hp
    have hmem := hall (signalsOf 0 l₁).length (by rw [hl]; simp) i (List.mem_range.mp hi)
    rw [← hr.ackKeys_take h0 hN hl] at hmem
    obtain ⟨q, hq, hk⟩ := List.mem_map.mp hmem
    have hqs : q ∈ ofCmd .write (sent (.endResp 0) s.log) := by
      rw [hl, sent_append, ofCmd_append]
      exact List.mem_append_left _ hq
    -- the ack with this key is that of the payload created under it
    obtain ⟨p', hp', he⟩ := hr.ack_created h1 hqs
    have hp : SimWrapper.writePayload cfg 0 (writesOf 0 l₁)[(signalsOf 0 l₁).length]
        (signalsOf 0 l₁).length i ∈ ofCmd .write (sent (.create 0) s.log) := by
      rw [(hr.simCreated 0).2.1, mem_packetPayloads]
      refine ⟨(signalsOf 0 l₁).length, by rw [hl, writesOf_append, List.length_append]; omega, ?_⟩
      simp only [hl, writesOf_append, List.getElem_append_left hn]
      exact List.mem_map_of_mem hi
    refine List.mem_map.mpr ⟨q, (mem_ofCmd.mp hq).1, ?_⟩
    rw [← he, (hr.simCreated 0).key_inj hp' hp
      (by rw [← Payload.key_bare p', he, Payload.key_bare, hk]; rfl)]

/-- With one host: every completion signal comes after the acks of all payloads of its own packet
    if and only if ack number `j`, as far as rounds are complete, is for packet
    `j / payload_num`. -/
theorem signals_own_iff (hr : Reachable cfg s) (h1 : cfg.hostNum = 1)
    (hN : cfg.payloadNum < 4294967296) : OwnSignals cfg 0 s.log ↔
      ∀ j, ∀ hj : j < (ofCmd .write (sent (.endResp 0) s.log)).length,
        j < cfg.payloadNum * (signalsOf 0 s.log).length →
          (ofCmd .write (sent (.endResp 0) s.log))[j].packet = j / cfg.payloadNum := by
  rcases Nat.eq_zero_or_pos cfg.payloadNum with h0 | h0
  · refine iff_of_true (fun l₁ a l₂ hl => ?_) fun j _ hj => by simp [h0] at hj
    obtain ⟨hn, ha⟩ := ReachableBy.signal_packet hr 0 l₁ a l₂ hl
    exact ⟨hn, ha, by simp [SimWrapper.writePayloads, h0]⟩
  · have hround : cfg.payloadNum * (signalsOf 0 s.log).length ≤ s.ackKeys.length := by
      rw [ackKeys, List.length_map, ← (ReachableBy.simRounds hr h0 hN 0).2]
      exact Nat.le_add_right ..
    rw [ReachableBy.ownSignals_iff hr h1 h0 hN,
      (ReachableBy.ackKeys_taken hr h1).complete_iff hround]
    simp only [ackKeys, List.length_map, List.getElem_map, Payload.key]

/-! ## Concrete runs -/

/-- Ramulator completes nothing. -/
def holds : Action → Bool
  | .mem _ (.complete _) => false
  | _ => true

/-- Two write packets, at addresses 8 and 16; when all payloads are at the device, it completes
    them as `picks` says. -/
def twoInFlight (picks : List Nat) : Sys :=
  runSkip (step (smallConfig 1 1 4)) anyStep (init (smallConfig 1 1 4))
    (.sim 0 (.recv (.fill .write 8 7)) :: (rounds (smallConfig 1 1 4) 2).filter holds ++
      .sim 0 (.recv (.fill .write 16 9)) :: (rounds (smallConfig 1 1 4) 16).filter holds ++
      picks.map (fun i => .mem 0 (.complete i)) ++ (rounds (smallConfig 1 1 4) 12).filter holds)

theorem signals_own_of_inOrder :
    OwnSignals (smallConfig 1 1 4) 0 (twoInFlight [0, 0, 0, 0]).log ∧
      signalsOf 0 (twoInFlight [0, 0, 0, 0]).log = [8] := by
  have hrun : (∀ j, ∀ hj : j <
      (ofCmd .write (sent (.endResp 0) (twoInFlight [0, 0, 0, 0]).log)).length,
      j < (smallConfig 1 1 4).payloadNum * (signalsOf 0 (twoInFlight [0, 0, 0, 0]).log).length →
        (ofCmd .write (sent (.endResp 0) (twoInFlight [0, 0, 0, 0]).log))[j].packet =
          j / (smallConfig 1 1 4).payloadNum) ∧
      signalsOf 0 (twoInFlight [0, 0, 0, 0]).log = [8] := by decide +kernel
  obtain ⟨hpackets, hsignals⟩ := hrun
  have hreach : Reachable (smallConfig 1 1 4) (twoInFlight [0, 0, 0, 0]) := reach_runSkip _ _
  exact ⟨(signals_own_iff hreach rfl (by decide)).mpr hpackets, hsignals⟩

/-- The device completes the payloads of the second packet first: the signal of address 8 comes
    when two acks of its packet are still out. -/
theorem signal_before_own_acks : Reachable (smallConfig 1 1 4) (twoInFlight [5, 4, 3, 2]) ∧
    signalsOf 0 (twoInFlight [5, 4, 3, 2]).log = [8] ∧
    ¬ OwnSignals (smallConfig 1 1 4) 0 (twoInFlight [5, 4, 3, 2]).log := by
  have hr : Reachable (smallConfig 1 1 4) (twoInFlight [5, 4, 3, 2]) := reach_runSkip _ _
  rw [ReachableBy.ownSignals_iff hr rfl (by decide) (by decide)]
  exact ⟨hr, by decide +kernel⟩

end Sys

end TSim4CXL
