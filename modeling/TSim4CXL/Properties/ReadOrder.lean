/-
  The reads of a host are answered one by one.

  A host waits for the response to a read before it sends anything else, so its SIMWrapper never has
  two reads under way, and the acks it counts for a response are those of that one read. This needs
  every ack to come to the host whose read it answers: `reads_answered_in_order` is for runs in
  which no two reads of one address are in flight for different hosts.
-/
import TSim4CXL.Properties.Routing
import TSim4CXL.Trace.LoneHost

namespace TSim4CXL

open Transition

/-! ## What a step does for the host -/

namespace SimWrapper

variable {cfg : Config} {h : Nat} {env : SimEnv} {w w' : SimWrapper} {es : List Event}

theorem blocked_of_ok {b : Bool} {r : SimWrapper × List Event}
    (hs : (.ok r : Except Fault (SimWrapper × List Event)) = .ok (w', es))
    (hb : r.1.hostBlocked = b) :
    w'.hostBlocked = b := by
  cases hs
  exact hb

theorem handlePacket_blocked (w : SimWrapper) (packet : Packet) :
    (handlePacket h env w packet).1.hostBlocked = w.hostBlocked := by
  unfold handlePacket pollGate endIteration
  split
  · rfl
  · rfl
  · split <;> rfl

/-- A packet is received while the host does not wait, and a read makes it wait. -/
theorem recv_blocked {packet : Packet} (hs : w.recv h env packet = .ok (w', es)) :
    w.hostBlocked = false ∧ w'.hostBlocked = decide (packet.type = .read) ∧
      responsesOf h es = [] := by
  have hbal := recv_balanced hs
  unfold recv at hs
  split at hs
  · rename_i hg
    refine ⟨hg.2.2, ?_, hbal.1⟩
    dsimp only at hs
    split at hs
    · exact blocked_of_ok hs rfl
    · exact blocked_of_ok hs (handlePacket_blocked _ _)
  · cases hs

theorem process_blocked (hs : w.process cfg h env = .ok (w', es)) :
    w'.hostBlocked = w.hostBlocked ∧ responsesOf h es = [] := by
  refine ⟨?_, (process_balanced hs).1⟩
  unfold process at hs
  split at hs
  · split at hs
    · exact blocked_of_ok hs rfl
    · refine blocked_of_ok hs ?_
      unfold endIteration
      dsimp only
      split <;> rfl
  · exact blocked_of_ok hs (handlePacket_blocked _ _)
  · exact blocked_of_ok hs rfl
  · exact blocked_of_ok hs rfl
  · exact blocked_of_ok hs rfl
  · exact blocked_of_ok hs rfl
  · cases hs

/-- Without a packet the host goes on waiting or not, unless the step brings it one response. -/
theorem act_blocked {a : Act} (ha : ∀ p, a ≠ .recv p) (hs : w.act cfg h env a = .ok (w', es)) :
    (w'.hostBlocked = w.hostBlocked ∧ responsesOf h es = []) ∨
      ((responsesOf h es).length = 1 ∧ readsOf h es = [] ∧ w'.proc = w.proc ∧
        w'.hostBlocked = false) := by
  cases a with
  | recv packet => exact absurd rfl (ha packet)
  | process => exact .inl (process_blocked hs)
  | posedge =>
      cases hs
      exact .inl ⟨rfl, rfl⟩
  | negedge =>
      rcases clockNegedge_balanced hs with ⟨hresp, hbal⟩ | hresp
      · obtain ⟨hproc, -, -, hdata⟩ := clockNegedge_frame hs
        rw [readsOf_data hdata, hproc] at hbal
        refine .inl ⟨?_, hresp⟩
        cases hb : w.hostBlocked <;> cases hb' : w'.hostBlocked <;> simp_all
      · exact .inr hresp
  | peq =>
      simp only [act, peqCb] at hs
      split at hs
      · cases hs
      · rename_i hw
        split at hw
        · cases hw
        · split at hw <;> cases hw <;> cases hs <;> exact .inl ⟨rfl, rfl⟩

end SimWrapper

namespace Sys

variable {cfg : Config} {s t : Sys} {a : Action} {ok : Sys → Action → Prop}

theorem foldl_hear_control (h : Nat) (es : List Event) (w : SimWrapper) :
    (es.foldl (SimWrapper.hear h) w).proc = w.proc ∧
      (es.foldl (SimWrapper.hear h) w).status = w.status ∧
      (es.foldl (SimWrapper.hear h) w).hostBlocked = w.hostBlocked := by
  induction es generalizing w with
  | nil => exact ⟨rfl, rfl, rfl⟩
  | cons e es ih =>
      obtain ⟨h1, h2, h3⟩ := ih (w.hear h e)
      rw [List.foldl_cons, h1, h2, h3]
      rcases SimWrapper.hear_cases (h := h) w e with ⟨hw, -⟩ | ⟨p, -, hw⟩ <;> rw [hw] <;>
        exact ⟨rfl, rfl, rfl⟩

/-- What a step is for the host of SIMWrapper `h`: one of its SIMWrapper, or nothing. -/
theorem step_host (hs : step cfg s a = .ok t) (h : Nat) : ∃ es, t.log = s.log ++ es ∧
    ((∃ b, a = .sim h b ∧ (s.sim h).act cfg h s.env b = .ok (t.sim h, es)) ∨
      (a.owner ≠ .sim h ∧ (readsOf h es = [] ∧ writesOf h es = []) ∧ responsesOf h es = [] ∧
        (t.sim h).proc = (s.sim h).proc ∧
        (t.sim h).status = (s.sim h).status ∧ (t.sim h).hostBlocked = (s.sim h).hostBlocked)) := by
  obtain ⟨-, es, u, hu, rfl⟩ := step_eq_ok.mp hs
  refine ⟨es, congrArg (· ++ es) hu.log, ?_⟩
  have hsrc := hu.source
  by_cases ho : a.owner = .sim h
  · left
    cases hu with
    | @sim k b w =>
        rename_i hh hact
        cases ho
        have hw := foldl_hear_id _ (fun c e he => sim_hear_own (hsrc e he) c)
        exact ⟨b, rfl, by simpa [emit, hw] using hact⟩
    | _ => cases ho
  · have hes := owner_ne hsrc ho
    obtain ⟨h1, h2, h3⟩ := foldl_hear_control h es (u.sim h)
    have hold := hu.sim_other ho
    obtain ⟨-, hwrites, hreads⟩ := hostEvents_foreign h hes
    exact .inr ⟨ho, ⟨hreads, hwrites⟩, responsesOf_foreign h hes,
      h1.trans (congrArg _ hold), h2.trans (congrArg _ hold), h3.trans (congrArg _ hold)⟩

theorem ReachableBy.simReadRounds (hr : ReachableBy cfg ok s) (h0 : 0 < cfg.payloadNum)
    (hN : cfg.payloadNum < 4294967296) (h : Nat) : SimWrapper.ReadRounds cfg h (s.sim h) s.log :=
  ((simView cfg h).always (SimWrapper.simReadRounds_closed h0 hN)
    (by exact ⟨⟨List.Sublist.refl [], List.Sublist.refl []⟩, h0, rfl⟩) hr).2

/-- While requests of a command do not clash, the acks a host gets are for payloads it created. -/
theorem ReachableBy.dspBw_subperm {c : Command} (hr : ReachableBy cfg ok s)
    (hok : ∀ s a, ok s a → NoClash cfg c s a) (h : Nat) :
    ((ofCmd c (sent (.dspBw h) s.log)).map Payload.bare).Subperm
      ((ofCmd c (sent (.create h) s.log)).map Payload.bare) := by
  refine List.subperm_ext_iff.mpr fun b hb => ?_
  obtain ⟨p, hp, rfl⟩ := List.mem_map.mp hb
  obtain ⟨hp, hcmd⟩ := mem_ofCmd.mp hp
  have hid : h = p.id := hr.dspBw_id hok ((mem_sent _).mp hp) hcmd
  have hid : h = p.bare.id := hid
  have hc : c = p.bare.command := hcmd.symm
  -- a request with the id of this host came from this host
  have hall := hr.inFlight_perm.count_eq p.bare
  have hbw :=
    ((sent_sublist (.dspBw h) (k := Chan.isDspBw) rfl s.log).map Payload.bare).count_le p.bare
  have hfw := congrArg (fun ps => (ps.map Payload.bare).count p.bare) (hr.ctrlFw_filter h)
  have hpath := congrArg (fun ps => (ps.map Payload.bare).count p.bare) (hr.host_path h c)
  rw [hid] at hfw
  simp only [List.map_append, List.count_append, count_bare_id, hc, count_bare_ofCmd]
    at hall hfw hpath ⊢
  rw [← hid] at hfw
  omega

/-- The read acks a host has consumed. -/
def readAcks (h : Nat) (s : Sys) : List Payload := ofCmd .read (sent (.endResp h) s.log)

/-- They come through the DSP of the host, in their order. -/
theorem ReachableBy.readAcks_dspBw (hr : ReachableBy cfg ok s) (h : Nat) :
    (readAcks h s).Sublist (ofCmd .read (sent (.dspBw h) s.log)) := by
  rw [hr.ack_path h .read]
  exact (((List.sublist_append_left ..).trans (List.sublist_append_left ..)).trans
    (List.sublist_append_left ..)).trans ((hr.simAcks h).1.trans (List.sublist_append_left ..))

/-- While reads do not clash, they are for read payloads the host created. -/
theorem ReachableBy.readAcks_subperm (hr : ReachableBy cfg ok s)
    (hok : ∀ s a, ok s a → NoClash cfg .read s a) (h : Nat) :
    ((readAcks h s).map Payload.bare).Subperm
    ((ofCmd .read (sent (.create h) s.log)).map Payload.bare) :=
  ((hr.readAcks_dspBw h).map Payload.bare).subperm.trans (hr.dspBw_subperm hok h)

theorem ReachableBy.responses_le (hr : ReachableBy cfg ok s)
    (hok : ∀ s a, ok s a → NoClash cfg .read s a) (h0 : 0 < cfg.payloadNum)
    (hN : cfg.payloadNum < 4294967296) (h : Nat) :
    (responsesOf h s.log).length ≤ (readsOf h s.log).length := by
  have hround := (hr.simReadRounds h0 hN h).2
  have hle := (hr.readAcks_subperm hok h).length_le
  rw [List.length_map, List.length_map, (hr.create_length h).1, readAcks] at hle
  exact Nat.le_of_mul_le_mul_left (by omega) h0

/-- A host waits as long as one of its reads has no response, and there is at most one such. -/
def Waits (h : Nat) (s : Sys) : Prop :=
  (readsOf h s.log).length + (s.sim h).proc.reading =
    (responsesOf h s.log).length + (s.sim h).hostBlocked.toNat

theorem ReachableBy.waits (hr : ReachableBy cfg ok s) (hok : ∀ s a, ok s a → NoClash cfg .read s a)
    (h0 : 0 < cfg.payloadNum) (hN : cfg.payloadNum < 4294967296) (h : Nat) : Waits h s := by
  refine Reach.invariant (P := Waits h) (by exact rfl) (fun s a t hrs ha hw hs => ?_) hr
  have hle := ReachableBy.responses_le (.tail hrs ha hs) hok h0 hN h
  obtain ⟨es, hl, ⟨b, -, hact⟩ | ⟨-, ⟨hreads, -⟩, hresp, hproc, -, hblocked⟩⟩ := step_host hs h
  · unfold Waits at hw ⊢
    rw [hl, readsOf_append, responsesOf_append, List.length_append, List.length_append] at hle ⊢
    have hbound := Bool.toNat_le (s.sim h).hostBlocked
    rcases SimWrapper.act_balanced hact with ⟨hresp, hbal⟩ | ⟨hone, hreads, hproc, hfree⟩
    · rw [hresp, List.length_nil]
      omega
    · -- without a read to answer there would be more responses than reads
      rw [hreads, List.length_nil, Nat.add_zero, hone] at hle ⊢
      rw [hproc, hfree, Bool.toNat_false]
      omega
  · unfold Waits at hw ⊢
    rw [hl, readsOf_append, responsesOf_append, hreads, hresp, List.append_nil, List.append_nil,
      hproc, hblocked]
    exact hw

/-! ## Acks by packet -/

/-- A consumed ack is for a chunk of a read the host has handled. -/
theorem ReachableBy.readAck_form (hr : ReachableBy cfg ok s)
    (hok : ∀ s a, ok s a → NoClash cfg .read s a) {h : Nat} {p : Payload} (hp : p ∈ readAcks h s) :
    p.id = h ∧ p.packet < (readsOf h s.log).length ∧ p.chunk < cfg.payloadNum := by
  obtain ⟨p', hp', he⟩ := List.mem_map.mp
    ((hr.readAcks_subperm hok h).subset (List.mem_map_of_mem hp))
  rw [(hr.simCreated h).1.1, mem_packetPayloads] at hp'
  obtain ⟨n, hn, hp'⟩ := hp'
  obtain ⟨i, hi, rfl⟩ := List.mem_map.mp hp'
  rw [← Payload.bare_id p, ← Payload.bare_packet p, ← Payload.bare_chunk p, ← he]
  exact ⟨rfl, hn, List.mem_range.mp hi⟩

theorem ReachableBy.readAcks_taken (hr : ReachableBy cfg ok s)
    (hok : ∀ s a, ok s a → NoClash cfg .read s a) (h : Nat) :
      Groups.Taken cfg.payloadNum ((readAcks h s).map Payload.key) where
  nodup := by
    have hcreated : ((ofCmd .read (sent (.create h) s.log)).map Payload.key).Nodup :=
      List.Nodup.map_on (fun p hp p' hp' hk => (hr.simCreated h).key_inj hp hp' hk)
        (hr.create_nodup h .read)
    have hbare (ps : List Payload) : (ps.map Payload.bare).map Payload.key =
        ps.map Payload.key := by
      rw [List.map_map]
      rfl
    obtain ⟨l, hperm, hl⟩ := hr.readAcks_subperm hok h
    have hperm := hperm.map Payload.key
    have hl := hl.map Payload.key
    rw [hbare] at hperm hl
    exact hperm.nodup_iff.mp (hcreated.sublist hl)
  place k hk := by
    obtain ⟨p, hp, rfl⟩ := List.mem_map.mp hk
    exact (hr.readAck_form hok hp).2.2

/-- No ack is consumed in a round before that of its read: the host sends one read at a time. -/
theorem ReachableBy.readAck_le (hr : ReachableBy cfg ok s)
    (hok : ∀ s a, ok s a → NoClash cfg .read s a) (h0 : 0 < cfg.payloadNum)
    (hN : cfg.payloadNum < 4294967296) (h : Nat) :
    ∀ j, ∀ hj : j < (readAcks h s).length, (readAcks h s)[j].packet ≤ j / cfg.payloadNum := by
  refine Reach.invariant (P := fun s => ∀ j, ∀ hj : j < (readAcks h s).length,
    (readAcks h s)[j].packet ≤ j / cfg.payloadNum) (by simp [readAcks, init])
    (fun s a t hrs ha hle hs j hj => ?_) hr
  have hr' : ReachableBy cfg ok t := .tail hrs ha hs
  have hw := ReachableBy.waits hrs hok h0 hN h
  have hround := (ReachableBy.simReadRounds hrs h0 hN h).2
  obtain ⟨es, hl, hcase⟩ := step_host hs h
  have hacks : readAcks h t = readAcks h s ++ ofCmd .read (sent (.endResp h) es) := by
    rw [readAcks, hl, sent_append, ofCmd_append, ← readAcks]
  by_cases hold : j < (readAcks h s).length
  · simp only [hacks, List.getElem_append_left hold]
    exact hle j hold
  · -- an ack consumed just now is for a read handled, and these are one ahead at most
    have hlt := (hr'.readAck_form hok (List.getElem_mem hj)).2.1
    have hw' := hr'.waits hok h0 hN h
    unfold Waits at hw hw'
    have hbound := Bool.toNat_le (s.sim h).hostBlocked
    have hbound' := Bool.toNat_le (t.sim h).hostBlocked
    have hreads : (readsOf h t.log).length ≤ (responsesOf h s.log).length + 1 := by
      rw [hl, readsOf_append, List.length_append, responsesOf_append, List.length_append] at hw'
      rw [hl, readsOf_append, List.length_append]
      rcases hcase with ⟨b, -, hact⟩ | ⟨-, ⟨hreads, -⟩, -⟩
      · rcases SimWrapper.act_balanced hact with ⟨hresp, -⟩ | ⟨-, hreads, -⟩
        · rw [hresp, List.length_nil] at hw'
          omega
        · rw [hreads, List.length_nil]
          omega
      · rw [hreads, List.length_nil]
        omega
    have hj : (responsesOf h s.log).length ≤ j / cfg.payloadNum := by
      rw [Nat.le_div_iff_mul_le h0, Nat.mul_comm]
      rw [readAcks] at hold
      omega
    omega

/-- In every run in which reads of different hosts do not clash: each host consumes the read acks of
    its own reads only and packet by packet, so that response `n` is for read `n`; and it waits
    exactly while one of the reads it sent has no response. -/
theorem reads_answered_in_order (hr : ReachableBy cfg (NoClash cfg .read) s)
    (h0 : 0 < cfg.payloadNum) (hN : cfg.payloadNum < 4294967296) (h : Nat) : Waits h s ∧
      ∀ j, ∀ hj : j < (readAcks h s).length,
        (readAcks h s)[j].id = h ∧ (readAcks h s)[j].packet = j / cfg.payloadNum := by
  have hok : ∀ s a, NoClash cfg .read s a → NoClash cfg .read s a := fun _ _ hn => hn
  refine ⟨hr.waits hok h0 hN h, fun j hj => ⟨(hr.readAck_form hok (List.getElem_mem hj)).1, ?_⟩⟩
  have hgroup := (hr.readAcks_taken hok h).group_eq_of_le (fun j hj => by
    rw [List.getElem_map]
    exact hr.readAck_le hok h0 hN h j (by simpa using hj)) j (by simpa using hj)
  rwa [List.getElem_map] at hgroup

/-- Two hosts write a packet each and then read it back. -/
def twoReaders (n : Nat) : Sys :=
  runSkip (step (smallConfig 2 1 4)) (NoClash (smallConfig 2 1 4) .read) (init (smallConfig 2 1 4))
    (.sim 0 (.recv (.fill .write 8 7)) :: .sim 1 (.recv (.fill .write 24 9)) ::
      rounds (smallConfig 2 1 4) n ++
      (.sim 0 (.recv (.fill .read 8 0)) :: .sim 1 (.recv (.fill .read 24 0)) ::
        rounds (smallConfig 2 1 4) n))

theorem reads_answered_of_twoReaders : (Waits 1 (twoReaders 20) ∧
      ∀ j, ∀ hj : j < (readAcks 1 (twoReaders 20)).length, (readAcks 1 (twoReaders 20))[j].id = 1 ∧
        (readAcks 1 (twoReaders 20))[j].packet = j / (smallConfig 2 1 4).payloadNum) ∧
    (readAcks 0 (twoReaders 20)).length = 3 ∧ (readAcks 1 (twoReaders 20)).length = 1 :=
  ⟨reads_answered_in_order (reach_runSkip _ _) (by decide) (by decide) 1, by decide +kernel⟩

end Sys

end TSim4CXL
