/-
  The counters and queues of a SIMWrapper, in an environment that acks every forwarded payload
  once, in any order.

  `Ledger` collects what the SIMWrapper always keeps with its log; `Ledger.accounts` adds up.
  An ack that reaches `peq_cb` while the incoming slot of its command is full is lost
  (`ack_lost`). `ack_accounting` is about the runs in which this does not happen (`Spaced`):
  there all acks are consumed in the end, so every read packet is answered and every write
  packet signalled.
-/
import TSim4CXL.Trace.LoneHost
import TSim4CXL.Model.Top

namespace TSim4CXL

open Transition

/-- Only a notification takes an ack out of the event queue. -/
theorem SimWrapper.act_peq {cfg : Config} {h : Nat} {env : SimEnv} {w w' : SimWrapper}
    {a : SimWrapper.Act} {es : List Event} (ha : a ≠ .peq) (hs : w.act cfg h env a = .ok (w', es)) :
    w'.peq = w.peq := by
  by_cases hp : a = .posedge
  · subst hp
    cases hs
    rfl
  · exact congrArg Prod.fst (SimWrapper.act_consumes hp ha hs).1

namespace LoneHost

variable {cfg : Config} {mem : Nat → Nat → UInt8} {w w' : SimWrapper} {l : List Event}

/-! ## The ledger -/

/-- What a SIMWrapper keeps with its log. -/
def Ledger (cfg : Config) (w : SimWrapper) (l : List Event) : Prop :=
  Base cfg w l ∧ SimWrapper.Outstanding 0 w l ∧ SimWrapper.SignalOrder 0 w l ∧
    SimWrapper.Acks 0 w l ∧ SimWrapper.Rounds cfg 0 w l

theorem ledger_closed (h0 : 0 < cfg.payloadNum) (hN : cfg.payloadNum < 4294967296) :
    (moveComponent cfg mem).Closed (Ledger cfg) :=
  (base_closed h0 hN).and (closed_of_sim (SimWrapper.simOutstanding_closed.and
    (SimWrapper.simSignalOrder_closed.and (SimWrapper.simRounds_closed h0 hN))))

/-- The payloads of a command that have been created, and those whose ack has been consumed. -/
def created (c : Command) (l : List Event) : List Payload := ofCmd c (sent (.create 0) l)

def consumed (c : Command) (l : List Event) : List Payload := ofCmd c (sent (.endResp 0) l)

/-- The queue of the acks of a command. -/
def ackQueue (w : SimWrapper) : Command → List Payload
  | .read => w.rackQueue
  | .write => w.wackQueue

theorem Fair.delivered_le (hf : Fair l) (c : Command) :
    (ofCmd c (sent (.simBw 0) l)).length ≤ (ofCmd c (sent (.uspFw 0) l)).length := by
  have hsub : (ofCmd c (sent (.simBw 0) l)).map Payload.bare ⊆
      (ofCmd c (sent (.uspFw 0) l)).map Payload.bare := by
    intro x hx
    obtain ⟨p, hp, rfl⟩ := List.mem_map.mp hx
    obtain ⟨hp, hcmd⟩ := mem_ofCmd.mp hp
    obtain ⟨q, hq, rfl⟩ := hf.ack_form hp
    rw [ackOf_bare]
    refine List.mem_map_of_mem (mem_ofCmd.mpr ⟨hq, ?_⟩)
    rw [← hcmd, ← Payload.bare_command, ← Payload.bare_command (ackOf q), ackOf_bare]
  have hnodup : ((ofCmd c (sent (.simBw 0) l)).map Payload.bare).Nodup :=
    hf.nodup.sublist (List.Sublist.map Payload.bare List.filter_sublist)
  simpa using (List.subperm_of_subset hnodup hsub).length_le

/-- Acks consumed and in the queue are for forwarded payloads. -/
theorem Ledger.consumed_le (hl : Ledger cfg w l) (hf : Fair l) (c : Command) :
    (consumed c l).length + (ackQueue w c).length ≤ (ofCmd c (sent (.uspFw 0) l)).length := by
  refine Nat.le_trans ?_ (hf.delivered_le c)
  obtain ⟨-, -, -, ⟨hr, hw⟩, -⟩ := hl
  cases c with
  | read =>
      have := hr.length_le
      simp only [List.length_append] at this
      exact Nat.le_trans (by simp only [consumed, ackQueue]; omega) this
  | write =>
      have := hw.length_le
      simp only [List.length_append] at this
      exact Nat.le_trans (by simp only [consumed, ackQueue]; omega) this

theorem Ledger.forwarded_le (hl : Ledger cfg w l) (c : Command) :
    (ofCmd c (sent (.uspFw 0) l)).length ≤ (created c l).length := by
  obtain ⟨⟨⟨hr, hw⟩, -⟩, -⟩ := hl
  cases c with
  | read => rw [created, hr, List.length_append]; exact Nat.le_add_right ..
  | write => rw [created, hw, List.length_append]; exact Nat.le_add_right ..

/-! ## Adding up -/

/-- The counters of a SIMWrapper and its log. -/
structure Accounts (cfg : Config) (w : SimWrapper) (l : List Event) : Prop where
  outstanding : (sent (.uspFw 0) l).length < (sent (.endResp 0) l).length + 4294967296 →
    w.outstanding + (sent (.endResp 0) l).length = (sent (.uspFw 0) l).length
  writes : w.wackNum + (created .write l).length =
    cfg.payloadNum * w.syncQueue.length + (consumed .write l).length
  reads : w.rackNum + (created .read l).length =
    cfg.payloadNum * ((readsOf 0 l).length - (responsesOf 0 l).length) + (consumed .read l).length
  consumed_le : ∀ c, (consumed c l).length ≤ (created c l).length
  responses_le : (responsesOf 0 l).length ≤ (readsOf 0 l).length
  signals : signalsOf 0 l ++ w.syncQueue = (writesOf 0 l).map (·.address)

theorem length_ofCmd (ps : List Payload) :
    ps.length = (ofCmd .read ps).length + (ofCmd .write ps).length := by
  induction ps with
  | nil => rfl
  | cons p ps ih =>
      cases hc : p.command <;> simp [ofCmd_cons, hc] <;> omega

theorem Ledger.forwarded_ge (hl : Ledger cfg w l) (hf : Fair l) :
    (sent (.endResp 0) l).length + w.rackQueue.length + w.wackQueue.length ≤
      (sent (.uspFw 0) l).length := by
  have hr := hl.consumed_le hf .read
  have hw := hl.consumed_le hf .write
  rw [length_ofCmd (sent (.endResp 0) l), length_ofCmd (sent (.uspFw 0) l)]
  simp only [consumed, ackQueue] at hr hw
  omega

theorem Ledger.accounts (hl : Ledger cfg w l) (hf : Fair l) (h0 : 0 < cfg.payloadNum) :
    Accounts cfg w l := by
  have hge := hl.forwarded_ge hf
  have hle (c : Command) : (consumed c l).length ≤ (created c l).length :=
    Nat.le_trans (Nat.le_trans (Nat.le_add_right ..) (hl.consumed_le hf c)) (hl.forwarded_le c)
  have hresp := hl.1.responses_le hf h0
  obtain ⟨⟨-, ⟨-, -, hrack⟩, hcreated⟩, ⟨hout, hout'⟩, horder, -, -, hwack⟩ := hl
  obtain ⟨hr, hw⟩ := hcreated.length
  refine ⟨fun hlt => ?_, ?_, ?_, hle, hresp, horder⟩
  · unfold u32 at hout
    omega
  · have hsync : w.syncQueue.length + (signalsOf 0 l).length = (writesOf 0 l).length := by
      have := congrArg List.length horder
      rw [List.length_append, List.length_map] at this
      omega
    rw [created, consumed, hw, ← hwack, ← hsync, Nat.mul_add]
    omega
  · obtain ⟨n, hn⟩ := Nat.exists_eq_add_of_le hresp
    rw [created, consumed, hr, ← hrack, hn, Nat.add_sub_cancel_left, Nat.mul_add]
    omega

/-! ## Clock edges -/

/-- An ack in a queue finds `outstanding` above 0, and the one that completes a round finds a flag
    to raise. -/
structure Backed (cfg : Config) (w : SimWrapper) (l : List Event) : Prop where
  outstanding : w.rackQueue ≠ [] ∨ w.wackQueue ≠ [] →
    (sent (.uspFw 0) l).length < (sent (.endResp 0) l).length + 4294967296 → w.outstanding ≠ 0
  syncQueue : w.wackQueue ≠ [] → u32 (w.wackNum + 1) = cfg.payloadNum → w.syncQueue ≠ []

theorem Ledger.backed (hl : Ledger cfg w l) (hf : Fair l) (h0 : 0 < cfg.payloadNum)
    (hN : cfg.payloadNum < 4294967296) : Backed cfg w l := by
  have ha := hl.accounts hf h0
  constructor
  · intro hq hlt
    have := ha.outstanding hlt
    have := hl.forwarded_ge hf
    have : 0 < w.rackQueue.length + w.wackQueue.length := by
      rcases hq with hq | hq <;> have := List.length_pos_iff.mpr hq <;> omega
    omega
  · intro hq hn hs
    have hlen := List.length_pos_iff.mpr hq
    have hle := Nat.le_trans (hl.consumed_le hf .write) (hl.forwarded_le .write)
    have hw := ha.writes
    obtain ⟨-, -, -, -, hlt, -⟩ := hl
    rw [u32, Nat.mod_eq_of_lt (by omega)] at hn
    simp only [hs, List.length_nil, Nat.mul_zero, ackQueue] at hw hle
    omega

/-- A falling edge after the state `s`: what the two ack blocks find, and that the edge succeeds. -/
def EdgeSafe (cfg : Config) (env : SimEnv) (s : SimWrapper × List Event) : Prop :=
  let r := s.1.forwardRead 0
  let f := r.1.forwardWrite 0
  let a := f.1.sendRack cfg 0 env
  Backed cfg f.1 (s.2 ++ r.2 ++ f.2) ∧ Backed cfg a.1 (s.2 ++ r.2 ++ f.2 ++ a.2) ∧
    ∃ t, s.1.clockNegedge cfg 0 env = .ok t

theorem ReachableAlone.ledger {s : SimWrapper × List Event} (hr : ReachableAlone cfg mem s)
    (h0 : 0 < cfg.payloadNum) (hN : cfg.payloadNum < 4294967296) : Ledger cfg s.1 s.2 :=
  hr.always (closed_of_moves (ledger_closed h0 hN))
    ⟨base_init h0, ⟨rfl, by decide⟩, rfl, ⟨List.Sublist.refl [], List.Sublist.refl []⟩, h0, rfl⟩

theorem ReachableAlone.edgeSafe {s : SimWrapper × List Event} (hr : ReachableAlone cfg mem s)
    (h0 : 0 < cfg.payloadNum) (hN : cfg.payloadNum < 4294967296) (sync : SyncObject) (n : Nat) :
    EdgeSafe cfg ⟨sync, n, load mem⟩ s := by
  obtain ⟨w, l⟩ := s
  have hclosed := @ledger_closed cfg mem h0 hN
  have hstep {v v' : SimWrapper} {k es : List Event} (hk : Ledger cfg v k ∧ Fair k)
      (hc : Chain (SimWrapper.Move cfg 0 ⟨sync, n, load mem⟩) v es v') :
      Ledger cfg v' (k ++ es) ∧ Fair (k ++ es) :=
    ⟨hclosed.chain (hc.mono fun _ _ _ hm => ⟨sync, n, hm⟩) hk.1,
      hk.2.append_own (hc.forall_mem fun _ _ _ hm => hm.source)⟩
  have h1 := hstep ⟨hr.ledger h0 hN, hr.fair⟩ (SimWrapper.forwardRead_chain w)
  have h2 := hstep h1 (SimWrapper.forwardWrite_chain _)
  have h3 := hstep h2 (SimWrapper.sendRack_chain _)
  have hb := h3.1.backed h3.2 h0 hN
  refine ⟨h2.1.backed h2.2 h0 hN, hb, ?_⟩
  unfold SimWrapper.clockNegedge SimWrapper.sendWack
  dsimp only
  split
  · rename_i hw
    split at hw
    · cases hw
    · rename_i hq
      split at hw
      · rename_i hn
        split at hw
        · exact absurd (by assumption) (hb.syncQueue (by simp [hq]) hn)
        · cases hw
      · cases hw
  · exact ⟨_, rfl⟩

/-! ## Acks that find their slot empty -/

/-- The incoming slot of the acks of a command. -/
def slot (w : SimWrapper) : Command → Option Payload
  | .read => w.rackIncoming
  | .write => w.wackIncoming

/-- The ack at the head of the event queue finds its slot empty. -/
def SlotFree (w : SimWrapper) : Prop := ∀ p ∈ w.peq.head?, slot w p.command = none

/-- A step that is not the notification of an ack, or one that finds the slot empty. -/
def Spaced (s : SimWrapper × List Event) : LoneAct → Prop
  | .step .peq _ _ => SlotFree s.1
  | _ => True

instance (w : SimWrapper) : Decidable (SlotFree w) :=
  inferInstanceAs (Decidable (∀ p ∈ w.peq.head?, slot w p.command = none))

instance (s : SimWrapper × List Event) (a : LoneAct) : Decidable (Spaced s a) :=
  match a with
  | .step .peq _ _ => inferInstanceAs (Decidable (SlotFree s.1))
  | .step (.recv _) _ _ => isTrue trivial
  | .step .process _ _ => isTrue trivial
  | .step .posedge _ _ => isTrue trivial
  | .step .negedge _ _ => isTrue trivial
  | .ack _ => isTrue trivial

/-- The acks of a command that are on their way inside the SIMWrapper, the oldest first. -/
def pending (w : SimWrapper) (c : Command) : List Payload :=
  ackQueue w c ++ (slot w c).toList ++ ofCmd c w.peq

/-- No ack is lost: the acks delivered have been consumed or are on their way. -/
def AllAcks (w : SimWrapper) (l : List Event) : Prop :=
  ∀ c, consumed c l ++ pending w c = ofCmd c (sent (.simBw 0) l)

/-- A move that takes an ack out of the event queue only with its slot empty. -/
def SpacedMove (cfg : Config) (mem : Nat → Nat → UInt8) (w : SimWrapper) (es : List Event)
    (w' : SimWrapper) : Prop :=
  (moveComponent cfg mem).move w es w' ∧ (w'.peq.length = w.peq.length ∨ SlotFree w)

theorem AllAcks.move {es : List Event} (ha : AllAcks w l) (hacks : SimWrapper.Acks 0 w l)
    (hm : SpacedMove cfg mem w es w') : AllAcks w' (l ++ es) := by
  obtain ⟨⟨sync, n, hm⟩, hfree⟩ := hm
  intro c
  have hc := ha c
  rw [consumed, pending] at hc
  rw [consumed, pending]
  cases hm with
  | control _ _ _ _ _ _ hes _ =>
      cases c <;> simpa [sent_quiet _ hes, ackQueue, slot] using hc
  | createRead => cases c <;> simpa [SimWrapper.handleReadPacket, ackQueue, slot] using hc
  | createWrite => cases c <;> simpa [SimWrapper.handleWritePacket, ackQueue, slot] using hc
  | forwardRead => cases c <;> simpa [ackQueue, slot] using hc
  | forwardWrite => cases c <;> simpa [ackQueue, slot] using hc
  | rack hq _ =>
      have hcmd := hacks.rackQueue_command _ (hq ▸ List.mem_cons_self)
      cases c <;> simpa [ackQueue, slot, ofCmd_cons, hcmd, hq] using hc
  | respond hq _ _ =>
      have hcmd := hacks.rackQueue_command _ (hq ▸ List.mem_cons_self)
      cases c <;> simpa [ackQueue, slot, ofCmd_cons, hcmd, hq] using hc
  | wack hq _ =>
      have hcmd := hacks.wackQueue_command _ (hq ▸ List.mem_cons_self)
      cases c <;> simpa [ackQueue, slot, ofCmd_cons, hcmd, hq] using hc
  | signal hq _ _ =>
      have hcmd := hacks.wackQueue_command _ (hq ▸ List.mem_cons_self)
      cases c <;> simpa [ackQueue, slot, ofCmd_cons, hcmd, hq] using hc
  | posedge => cases c <;> simpa [SimWrapper.clockPosedge, ackQueue, slot] using hc
  | @peqRead p q hq hcmd =>
      have hslot : w.rackIncoming = none := by
        have hfree := hfree.resolve_left (by simp [hq]) p (by simp [hq])
        rwa [hcmd] at hfree
      cases c <;> simpa [ackQueue, slot, ofCmd_cons, hcmd, hq, hslot] using hc
  | @peqWrite p q hq hcmd =>
      have hslot : w.wackIncoming = none := by
        have hfree := hfree.resolve_left (by simp [hq]) p (by simp [hq])
        rwa [hcmd] at hfree
      cases c <;> simpa [ackQueue, slot, ofCmd_cons, hcmd, hq, hslot] using hc

/-- The moves never put an ack into the event queue. -/
theorem peq_length_le {es : List Event} (hm : (moveComponent cfg mem).move w es w') :
    w'.peq.length ≤ w.peq.length := by
  obtain ⟨sync, n, hm⟩ := hm
  cases hm with
  | peqRead hq _ => simp [hq]
  | peqWrite hq _ => simp [hq]
  | _ => exact Nat.le_refl _

theorem spaced_chain {sync : SyncObject} {n : Nat} {a : SimWrapper.Act} {es : List Event}
    (hs : w.act cfg 0 ⟨sync, n, load mem⟩ a = .ok (w', es)) (hok : Spaced (w, l) (.step a sync n)) :
    Chain (SpacedMove cfg mem) w es w' := by
  have hchain : Chain (moveComponent cfg mem).move w es w' :=
    (SimWrapper.act_chain hs).mono fun _ _ _ hm => ⟨sync, n, hm⟩
  by_cases ha : a = .peq
  · subst ha
    simp only [SimWrapper.act] at hs
    split at hs
    · cases hs
    · rename_i hw
      cases hs
      exact .single ⟨⟨sync, n, SimWrapper.peqCb_move hw⟩, .inr hok⟩
  · have hlen : w'.peq.length = w.peq.length := congrArg List.length (SimWrapper.act_peq ha hs)
    exact (hchain.of_measure (f := fun w => w.peq.length) (fun _ _ _ => peq_length_le) hlen).mono
      fun _ _ _ hm => ⟨hm.1, .inl hm.2⟩

/-- The runs in which every ack finds its slot empty. -/
def ReachableSpaced (cfg : Config) (mem : Nat → Nat → UInt8) (s : SimWrapper × List Event) : Prop :=
  Reach (step cfg mem) Spaced init s

theorem AllAcks.chain {es : List Event} (hc : Chain (SpacedMove cfg mem) w es w')
    (ha : SimWrapper.Acks 0 w l ∧ AllAcks w l) :
    SimWrapper.Acks 0 w' (l ++ es) ∧ AllAcks w' (l ++ es) := by
  induction hc generalizing l with
  | nil _ => simpa using ha
  | cons hm _ ih =>
      rw [← List.append_assoc]
      exact ih ⟨(closed_of_sim SimWrapper.simAcks_closed).move _ _ _ _ hm.1 ha.1, ha.2.move ha.1 hm⟩

theorem ReachableSpaced.allAcks {s : SimWrapper × List Event} (hr : ReachableSpaced cfg mem s) :
    SimWrapper.Acks 0 s.1 s.2 ∧ AllAcks s.1 s.2 := by
  refine Reach.invariant (P := fun s => SimWrapper.Acks 0 s.1 s.2 ∧ AllAcks s.1 s.2) ?_ ?_ hr
  · exact ⟨⟨List.Sublist.refl [], List.Sublist.refl []⟩, fun c => by cases c <;> rfl⟩
  · intro s a s' _ hok ha hs
    cases a with
    | step a sync n =>
        simp only [step] at hs
        split at hs
        · rename_i hact
          cases hs
          exact AllAcks.chain (spaced_chain hact hok) ha
        · cases hs
    | ack p =>
        simp only [step] at hs
        split at hs
        · cases hs
          refine ⟨?_, fun c => ?_⟩
          · have := (@SimWrapper.simAcks_closed cfg 0).hear s.1 s.2 (.call (.simBw 0) (ackOf p))
              (ack_source _) ha.1
            simpa [SimWrapper.component, SimWrapper.hear] using this
          · -- the ack joins the event queue
            have hc := ha.2 c
            rw [consumed, pending] at hc
            rw [consumed, pending]
            cases c <;> simp [SimWrapper.nbTransportBw, ackQueue, slot, ← hc]
        · cases hs

/-! ## When everything has settled -/

/-- Nothing is queued or on its way, and every forwarded payload has been acked. -/
structure Settled (w : SimWrapper) (l : List Event) : Prop where
  rQueue : w.rQueue = []
  wQueue : w.wQueue = []
  pending : ∀ c, pending w c = []
  acked : ∀ p ∈ sent (.uspFw 0) l, p.bare ∈ (sent (.simBw 0) l).map Payload.bare

/-- Every read packet has its response and every write packet its signal. -/
structure Complete (w : SimWrapper) (l : List Event) : Prop where
  responses : (responsesOf 0 l).length = (readsOf 0 l).length
  signals : signalsOf 0 l = (writesOf 0 l).map (·.address)

/-- Each forwarded payload stands for one ack, so as many acks were delivered. -/
theorem Ledger.delivered_ge (hl : Ledger cfg w l)
    (hacked : ∀ p ∈ sent (.uspFw 0) l, p.bare ∈ (sent (.simBw 0) l).map Payload.bare)
    (c : Command) :
    (ofCmd c (sent (.uspFw 0) l)).length ≤ (ofCmd c (sent (.simBw 0) l)).length := by
  obtain ⟨⟨hq, -, hcreated⟩, -⟩ := hl
  have hpre : ofCmd c (sent (.uspFw 0) l) <+: created c l := by
    cases c with
    | read => exact ⟨_, hq.1.symm⟩
    | write => exact ⟨_, hq.2.symm⟩
  have hnodup : ((ofCmd c (sent (.uspFw 0) l)).map Payload.bare).Nodup := by
    refine List.Nodup.map_on (fun p hp q hq hpq => ?_) ((hcreated.nodup c).sublist hpre.sublist)
    refine hcreated.key_inj (hpre.mem hp) (hpre.mem hq) ?_
    rw [← Payload.key_bare, hpq, Payload.key_bare]
  have hsub : (ofCmd c (sent (.uspFw 0) l)).map Payload.bare ⊆
      (ofCmd c (sent (.simBw 0) l)).map Payload.bare := by
    intro x hx
    obtain ⟨p, hp, rfl⟩ := List.mem_map.mp hx
    obtain ⟨hp, hcmd⟩ := mem_ofCmd.mp hp
    obtain ⟨q, hq, hpq⟩ := List.mem_map.mp (hacked p hp)
    rw [← hpq]
    refine List.mem_map_of_mem (mem_ofCmd.mpr ⟨hq, ?_⟩)
    rw [← hcmd, ← Payload.bare_command, hpq, Payload.bare_command]
  simpa using (List.subperm_of_subset hnodup hsub).length_le

theorem Ledger.consumed_eq (hl : Ledger cfg w l) (hf : Fair l) (ha : AllAcks w l)
    (hs : Settled w l) (c : Command) : (consumed c l).length = (created c l).length := by
  have hdelivered := ha c
  rw [hs.pending c, List.append_nil] at hdelivered
  have hforwarded : created c l = ofCmd c (sent (.uspFw 0) l) := by
    cases c with
    | read => rw [created, hl.1.1.1, hs.rQueue, List.append_nil]
    | write => rw [created, hl.1.1.2, hs.wQueue, List.append_nil]
  rw [hdelivered, hforwarded]
  exact Nat.le_antisymm (hf.delivered_le c) (hl.delivered_ge hs.acked c)

theorem Ledger.complete (hl : Ledger cfg w l) (hf : Fair l) (ha : AllAcks w l) (hs : Settled w l)
    (h0 : 0 < cfg.payloadNum) : Complete w l := by
  have haccounts := hl.accounts hf h0
  have hreads := haccounts.reads
  have hwrites := haccounts.writes
  have hresp := haccounts.responses_le
  have hsignals := haccounts.signals
  rw [hl.consumed_eq hf ha hs] at hreads hwrites
  obtain ⟨⟨-, ⟨-, hrlt, -⟩, -⟩, -, -, -, hwlt, -⟩ := hl
  -- a counter below `payload_num` that is a multiple of it is 0
  have hzero {n m k : Nat} (hn : n < cfg.payloadNum) (h : n + k = cfg.payloadNum * m + k) :
      m = 0 := by
    rcases Nat.eq_zero_or_pos m with hm | hm
    · exact hm
    · have := Nat.le_mul_of_pos_right cfg.payloadNum hm
      omega
  constructor
  · have := hzero hrlt hreads
    omega
  · rwa [List.length_eq_zero_iff.mp (hzero hwlt hwrites), List.append_nil] at hsignals

/-- The host waits for its response: at most one read packet is handled and not answered. -/
theorem ReachableAlone.reads_le {s : SimWrapper × List Event} (hr : ReachableAlone cfg mem s)
    (h0 : 0 < cfg.payloadNum) (hN : cfg.payloadNum < 4294967296) :
    (readsOf 0 s.2).length ≤ (responsesOf 0 s.2).length + 1 := by
  have hd := hr.always (disciplined_closed h0 hN) ⟨base_init h0, fun _ => ⟨rfl, by simp [readAcks]⟩⟩
  have := (hd.2 hr.fair).1
  have := Bool.toNat_le s.1.hostBlocked
  omega

/-- The accounts hold in every run, and no falling edge decrements `outstanding` at 0 or takes the
    front of an empty `sync_queue`. Where every ack finds its slot empty, nothing is left
    unanswered in the end. -/
theorem ack_accounting (h0 : 0 < cfg.payloadNum) (hsize : cfg.packetSize < 4294967296)
    {s : SimWrapper × List Event} (hr : ReachableAlone cfg mem s) :
    Accounts cfg s.1 s.2 ∧ (readsOf 0 s.2).length ≤ (responsesOf 0 s.2).length + 1 ∧
      (∀ j, ∀ hj : j < (readAcks s.2).length, (readAcks s.2)[j].packet = j / cfg.payloadNum) ∧
      (∀ sync n, EdgeSafe cfg ⟨sync, n, load mem⟩ s) ∧
      (ReachableSpaced cfg mem s → Settled s.1 s.2 → Complete s.1 s.2) := by
  have hN : cfg.payloadNum < 4294967296 := Nat.lt_of_le_of_lt (Nat.div_le_self ..) hsize
  have hl := hr.ledger h0 hN
  exact ⟨hl.accounts hr.fair h0, hr.reads_le h0 hN, hr.ack_packet h0 hN, hr.edgeSafe h0 hN,
    fun hs hset => hl.complete hr.fair hs.allAcks.2 hset h0⟩

/-! ## Concrete runs -/

/-- A packet of two payloads and the falling edges that forward them. -/
def packetSteps (q : Packet) : List LoneAct :=
  let sync := SyncObject.init.signal q.address
  [.step (.recv q) sync 1, .step .process sync 1, .step .process sync 1, .step .negedge sync 1,
    .step .negedge sync 1]

/-- The ack of a payload and the edges that consume it. -/
def ackRound (p : Payload) : List LoneAct :=
  [.ack p, .step .peq SyncObject.init 1, .step .posedge SyncObject.init 1,
    .step .negedge SyncObject.init 1]

/-- A write and a read of address 8, the acks one after the other, the second one first. -/
def spacedRun : SimWrapper × List Event :=
  let cfg := smallConfig 1 1 2
  let w := Packet.fill .write 8 1
  let r := Packet.fill .read 8 0
  runSkip (step cfg fun _ _ => 0) Spaced init
    (packetSteps w ++ ackRound (SimWrapper.writePayload cfg 0 w 0 1) ++
      ackRound (SimWrapper.writePayload cfg 0 w 0 0) ++ packetSteps r ++
      ackRound (SimWrapper.readPayload cfg 0 r 0 1) ++
        ackRound (SimWrapper.readPayload cfg 0 r 0 0))

theorem ack_accounting_spaced : (readsOf 0 spacedRun.2).length = 1 ∧
    (writesOf 0 spacedRun.2).length = 1 ∧ Complete spacedRun.1 spacedRun.2 := by
  have hr : ReachableSpaced (smallConfig 1 1 2) (fun _ _ => 0) spacedRun := reach_runSkip _ _
  have hset : spacedRun.1.rQueue = [] ∧ spacedRun.1.wQueue = [] ∧
      (pending spacedRun.1 .read = [] ∧ pending spacedRun.1 .write = []) ∧
      ∀ p ∈ sent (.uspFw 0) spacedRun.2,
        p.bare ∈ (sent (.simBw 0) spacedRun.2).map Payload.bare := by
    decide +kernel
  obtain ⟨h1, h2, ⟨h3, h4⟩, h5⟩ := hset
  exact ⟨by decide +kernel, by decide +kernel,
    (ack_accounting (by decide) (by decide) hr.any).2.2.2.2 hr
      ⟨h1, h2, fun c => by cases c <;> assumption, h5⟩⟩

/-- A read of address 8, and both acks notified between two rising edges. -/
def lostRun : SimWrapper × List Event :=
  let cfg := smallConfig 1 1 2
  let r := Packet.fill .read 8 0
  runSkip (step cfg fun _ _ => 0) anyStep init
    (packetSteps r ++ [.ack (SimWrapper.readPayload cfg 0 r 0 0),
      .ack (SimWrapper.readPayload cfg 0 r 0 1), .step .peq SyncObject.init 1,
      .step .peq SyncObject.init 1, .step .posedge SyncObject.init 1,
      .step .negedge SyncObject.init 1])

/-- The second ack overwrites the first: nothing is on its way, and the read has no response. -/
theorem ack_lost : ∃ s, ReachableAlone (smallConfig 1 1 2) (fun _ _ => 0) s ∧ s.1.rQueue = [] ∧
    s.1.wQueue = [] ∧ (pending s.1 .read = [] ∧ pending s.1 .write = []) ∧
    (∀ p ∈ sent (.uspFw 0) s.2, p.bare ∈ (sent (.simBw 0) s.2).map Payload.bare) ∧
    (readsOf 0 s.2).length = 1 ∧ responsesOf 0 s.2 = [] ∧ s.1.outstanding = 1 :=
  ⟨lostRun, reach_runSkip _ _, by decide +kernel⟩

end LoneHost

end TSim4CXL
