/-
  Two runs of a SIMWrapper on its own over the same steps and different backing stores.

  What is in the backing store reaches `packet_data` and the data of responses, and nothing
  else: the two runs can take the same steps and log the same events, up to the data of the
  responses (`run_same`).
-/
import TSim4CXL.Trace.LoneHost

namespace TSim4CXL

open Transition

/-! ## Logs up to the data of responses -/

/-- The event without the data of a response. -/
def Event.blank : Event → Event
  | .respond h _ => .respond h []
  | e => e

theorem pick_blank {β : Type} {f : Event → Option β} (hf : ∀ e : Event, f e.blank = f e)
    (l : List Event) :
    pick f (l.map Event.blank) = pick f l := by
  rw [pick, List.filterMap_map]
  exact List.filterMap_congr fun e _ => hf e

@[simp] theorem sent_blank (c : Chan) (l : List Event) : sent c (l.map Event.blank) = sent c l :=
  pick_blank (fun e => by cases e <;> rfl) l

@[simp] theorem readsOf_blank (h : Nat) (l : List Event) :
    readsOf h (l.map Event.blank) = readsOf h l :=
  pick_blank (fun e => by cases e <;> rfl) l

@[simp] theorem responsesOf_blank (h : Nat) (l : List Event) :
    responsesOf h (l.map Event.blank) = (responsesOf h l).map fun _ => [] := by
  induction l with
  | nil => rfl
  | cons e l ih =>
      rw [List.map_cons, responsesOf_cons, responsesOf_cons, List.map_append, ih]
      congr 1
      cases e with
      | respond k data => by_cases hk : k = h <;> simp [Event.blank, hk]
      | _ => simp [Event.blank]

/-! ## Steps -/

namespace SimWrapper

variable {cfg : Config} {h activeDram : Nat} {sync : SyncObject}
  {load load' : DataPtr → Nat → List UInt8} {w w' : SimWrapper} {es : List Event}

/-- The same SIMWrapper with other bytes in `packet_data`. -/
def withData (w : SimWrapper) (data : Nat → UInt8) : SimWrapper := { w with packetData := data }

theorem handlePacket_withData (w : SimWrapper) (data : Nat → UInt8) (packet : Packet) :
    handlePacket h ⟨sync, activeDram, load'⟩ (w.withData data) packet =
      ((handlePacket h ⟨sync, activeDram, load⟩ w packet).1.withData data,
        (handlePacket h ⟨sync, activeDram, load⟩ w packet).2) := by
  unfold handlePacket
  split
  · rfl
  · rfl
  · unfold endIteration
    split <;> rfl

theorem recv_withData (w : SimWrapper) (data : Nat → UInt8) (packet : Packet) :
    (w.withData data).recv h ⟨sync, activeDram, load'⟩ packet =
      (w.recv h ⟨sync, activeDram, load⟩ packet).map fun r => (r.1.withData data, r.2) := by
  unfold recv
  by_cases hg : w.proc = .loop ∧ w.status = .running ∧ w.hostBlocked = false
  · have hg' : (w.withData data).proc = .loop ∧ (w.withData data).status = .running ∧
        (w.withData data).hostBlocked = false := hg
    rw [if_pos hg, if_pos hg']
    dsimp only
    split
    · rfl
    · exact congrArg Except.ok (handlePacket_withData
        { w with received := true, hostBlocked := packet.type = .read } data packet)
  · have hg' : ¬ ((w.withData data).proc = .loop ∧ (w.withData data).status = .running ∧
        (w.withData data).hostBlocked = false) := hg
    rw [if_neg hg, if_neg hg']
    rfl

theorem process_withData (w : SimWrapper) (data : Nat → UInt8) :
    (w.withData data).process cfg h ⟨sync, activeDram, load'⟩ =
      (w.process cfg h ⟨sync, activeDram, load⟩).map fun r => (r.1.withData data, r.2) := by
  have hp : (w.withData data).proc = w.proc := rfl
  have hst : (w.withData data).status = w.status := rfl
  unfold process
  rw [hp, hst]
  split
  · split
    · rfl
    · unfold endIteration
      split <;> rfl
  · exact congrArg Except.ok (handlePacket_withData ..)
  · rfl
  · rfl
  · rfl
  · rfl
  · rfl

theorem forwardRead_withData (w : SimWrapper) (data : Nat → UInt8) :
    (w.withData data).forwardRead h = ((w.forwardRead h).1.withData data, (w.forwardRead h).2) := by
  have hq : (w.withData data).rQueue = w.rQueue := rfl
  unfold forwardRead
  rw [hq]
  split <;> rfl

theorem forwardWrite_withData (w : SimWrapper) (data : Nat → UInt8) :
    (w.withData data).forwardWrite h =
      ((w.forwardWrite h).1.withData data, (w.forwardWrite h).2) := by
  have hq : (w.withData data).wQueue = w.wQueue := rfl
  unfold forwardWrite
  rw [hq]
  split <;> rfl

theorem sendWack_withData (w : SimWrapper) (data : Nat → UInt8) :
    (w.withData data).sendWack cfg h = (w.sendWack cfg h).map fun r =>
    (r.1.withData data, r.2) := by
  have hq : (w.withData data).wackQueue = w.wackQueue := rfl
  have hn : (w.withData data).wackNum = w.wackNum := rfl
  have hs : (w.withData data).syncQueue = w.syncQueue := rfl
  unfold sendWack
  rw [hq]
  split
  · rfl
  · dsimp only
    rw [hn]
    split
    · rw [hs]
      split <;> rfl
    · rfl

/-- The RACK block is where the bytes come in. -/
theorem sendRack_withData (w : SimWrapper) (data : Nat → UInt8) : ∃ data' es',
    (w.withData data).sendRack cfg h ⟨sync, activeDram, load'⟩ =
        ((w.sendRack cfg h ⟨sync, activeDram, load⟩).1.withData data', es') ∧
      es'.map Event.blank = (w.sendRack cfg h ⟨sync, activeDram, load⟩).2.map Event.blank := by
  have hq : (w.withData data).rackQueue = w.rackQueue := rfl
  have hn : (w.withData data).rackNum = w.rackNum := rfl
  unfold sendRack
  rw [hq]
  split
  · exact ⟨data, [], rfl, rfl⟩
  · dsimp only
    rw [hn]
    split
    · exact ⟨_, _, rfl, rfl⟩
    · exact ⟨_, _, rfl, rfl⟩

theorem clockNegedge_withData (data : Nat → UInt8)
    (hs : w.clockNegedge cfg h ⟨sync, activeDram, load⟩ = .ok (w', es)) : ∃ data' es',
    (w.withData data).clockNegedge cfg h ⟨sync, activeDram, load'⟩ = .ok (w'.withData data', es') ∧
      es'.map Event.blank = es.map Event.blank := by
  unfold clockNegedge at hs ⊢
  dsimp only at hs ⊢
  rw [forwardRead_withData]
  dsimp only
  rw [forwardWrite_withData]
  dsimp only
  obtain ⟨data', es', he, hes⟩ := @sendRack_withData cfg h activeDram sync load load'
    ((w.forwardRead h).1.forwardWrite h).1 data
  rw [he]
  dsimp only
  rw [sendWack_withData]
  split at hs
  · cases hs
  · rename_i hw
    cases hs
    rw [hw]
    exact ⟨data', _, rfl, by simp only [List.map_append, hes]⟩

/-- One step, whatever is in `packet_data` and behind the pointers. -/
theorem act_withData {a : Act} (data : Nat → UInt8)
    (hs : w.act cfg h ⟨sync, activeDram, load⟩ a = .ok (w', es)) : ∃ data' es',
    (w.withData data).act cfg h ⟨sync, activeDram, load'⟩ a = .ok (w'.withData data', es') ∧
      es'.map Event.blank = es.map Event.blank := by
  cases a with
  | recv packet =>
      refine ⟨data, es, ?_, rfl⟩
      have hs : w.recv h ⟨sync, activeDram, load⟩ packet = .ok (w', es) := hs
      show (w.withData data).recv h ⟨sync, activeDram, load'⟩ packet = _
      rw [@recv_withData h activeDram sync load load' w data packet, hs]
      rfl
  | process =>
      refine ⟨data, es, ?_, rfl⟩
      have hs : w.process cfg h ⟨sync, activeDram, load⟩ = .ok (w', es) := hs
      show (w.withData data).process cfg h ⟨sync, activeDram, load'⟩ = _
      rw [@process_withData cfg h activeDram sync load load' w data, hs]
      rfl
  | posedge =>
      cases hs
      exact ⟨data, [], rfl, rfl⟩
  | negedge => exact clockNegedge_withData data hs
  | peq =>
      refine ⟨data, es, ?_, rfl⟩
      have hq : (w.withData data).peq = w.peq := rfl
      simp only [act, peqCb] at hs ⊢
      rw [hq]
      split at hs
      · cases hs
      · rename_i hw
        split at hw
        · cases hw
        · split at hw <;> cases hw <;> cases hs <;> rfl

end SimWrapper

/-! ## Runs -/

namespace LoneHost

variable {cfg : Config} {mem mem' : Nat → Nat → UInt8}

/-- The same but for the bytes read from the backing store. -/
def Same (s s' : SimWrapper × List Event) : Prop :=
  (∃ data, s'.1 = s.1.withData data) ∧ s'.2.map Event.blank = s.2.map Event.blank

namespace Same

variable {s s' : SimWrapper × List Event}

theorem sent_eq (h : Same s s') (c : Chan) : sent c s'.2 = sent c s.2 := by
  rw [← sent_blank, h.2, sent_blank]

theorem readsOf_eq (h : Same s s') (k : Nat) : readsOf k s'.2 = readsOf k s.2 := by
  rw [← readsOf_blank, h.2, readsOf_blank]

theorem responses_length (h : Same s s') (k : Nat) :
    (responsesOf k s'.2).length = (responsesOf k s.2).length := by
  have := congrArg (fun l => (responsesOf k l).length) h.2
  simpa using this

end Same

theorem step_same {s s' t : SimWrapper × List Event} {a : LoneAct} (hR : Same s s')
    (hs : step cfg mem s a = .ok t) : ∃ t', step cfg mem' s' a = .ok t' ∧ Same t t' := by
  obtain ⟨w', l'⟩ := s'
  obtain ⟨⟨data, rfl⟩, hl⟩ := hR
  cases a with
  | step a sync n =>
      simp only [step] at hs ⊢
      split at hs
      · rename_i ha
        cases hs
        have hsame := @SimWrapper.act_withData cfg 0 n sync (load mem) (load mem') s.1 _ _ a data ha
        obtain ⟨data', es', ha', hes⟩ := hsame
        refine ⟨_, by rw [ha'], ⟨data', rfl⟩, ?_⟩
        rw [List.map_append, List.map_append, hl, hes]
      · cases hs
  | ack p =>
      have hR : Same s (s.1.withData data, l') := ⟨⟨data, rfl⟩, hl⟩
      simp only [step] at hs ⊢
      rw [hR.sent_eq, hR.sent_eq]
      split at hs
      · rename_i hp
        cases hs
        rw [if_pos hp]
        exact ⟨_, rfl, ⟨data, rfl⟩, by rw [List.map_append, List.map_append, hl]⟩
      · cases hs

theorem run_same {as : List LoneAct} {s : SimWrapper × List Event}
    (hrun : run (step cfg mem) init as = .ok s) (mem' : Nat → Nat → UInt8) :
    ∃ s', run (step cfg mem') init as = .ok s' ∧ Same s s' :=
  run_lockstep (fun _ _ _ _ => step_same) ⟨⟨SimWrapper.init.packetData, rfl⟩, rfl⟩ hrun

end LoneHost

end TSim4CXL
