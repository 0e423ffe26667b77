/-
  What a host process and the backplane do with the rings of a host.

  `Asking`: a host process sends the packets of its calls in their order, stores the responses where
  its reads want them, and has sent at most one read more than it has received responses; if it has,
  this read is the last packet it sent. The other lemmas say what a step of one side leaves to the
  other.
-/
import TSim4CXL.Model.Cosim
import TSim4CXL.Properties.Channel

namespace TSim4CXL

open Transition

/-! ## What a host process does -/

/-- The packet a process is sending. -/
def ShmemPc.sending : ShmemPc → List Packet
  | .sendTest p => [p]
  | .sendCopy p => [p]
  | .sendStore p => [p]
  | _ => []

def ShmemPc.receiving : ShmemPc → Bool
  | .recvTest => true
  | .recvCopy => true
  | .recvStore _ => true
  | _ => false

/-- How many packets are reads. -/
def reads (ps : List Packet) : Nat := ps.countP (·.type = .read)

@[simp] theorem reads_nil : reads [] = 0 := rfl

@[simp] theorem reads_append (ps qs : List Packet) : reads (ps ++ qs) = reads ps + reads qs :=
  List.countP_append

@[simp] theorem reads_singleton (p : Packet) : reads [p] = (decide (p.type = .read)).toNat := by
  by_cases hp : p.type = .read <;> simp [reads, hp]

/-- The `memcpy`s of the responses. -/
def copiesOf (acts : List HostAct) : List Copy :=
  acts.filterMap fun
    | .send _ _ => none
    | .store c => some c

@[simp] theorem copiesOf_send (p : Packet) (c : Option Copy) (acts : List HostAct) :
    copiesOf (.send p c :: acts) = copiesOf acts := rfl

@[simp] theorem copiesOf_store (c : Copy) (acts : List HostAct) :
    copiesOf (.store c :: acts) = c :: copiesOf acts := rfl

/-- Each read is followed by the store of its response, and there is no other store. -/
inductive Paired : List HostAct → Prop
  | nil : Paired []
  | send {p : Packet} {c : Option Copy} {acts : List HostAct} (hp : p.type ≠ .read)
      (h : Paired acts) : Paired (.send p c :: acts)
  | read {p : Packet} {c : Option Copy} {c' : Copy} {acts : List HostAct} (hp : p.type = .read)
      (h : Paired acts) : Paired (.send p c :: .store c' :: acts)

theorem Paired.append {acts acts' : List HostAct} (h : Paired acts) (h' : Paired acts') :
    Paired (acts ++ acts') := by
  induction h with
  | nil => exact h'
  | send hp _ ih => exact .send hp ih
  | read hp _ ih => exact .read hp ih

theorem paired_forDown {packetSize : Nat} {body : Nat → List HostAct} (hb : ∀ j, Paired (body j)) :
    ∀ fuel i j, Paired (forDown packetSize body fuel i j) := by
  intro fuel
  induction fuel with
  | zero => exact fun _ _ => .nil
  | succ fuel ih =>
      intro i j
      rw [forDown]
      split
      · exact (hb j).append (ih _ _)
      · exact .nil

theorem Call.acts_paired {packetSize : Nat} {call : Call} {acts : List HostAct}
    (h : call.acts packetSize = some acts) : Paired acts := by
  cases call with
  | read address size device delta =>
      obtain ⟨_, -, rfl⟩ := Option.map_eq_some_iff.mp h
      exact paired_forDown (fun j => .read rfl .nil) _ _ _
  | write address data size device delta =>
      obtain ⟨_, -, rfl⟩ := Option.map_eq_some_iff.mp h
      exact paired_forDown (fun j => .send (by simp [makePacket]) .nil) _ _ _
  | signal | wait | terminate =>
      cases h
      exact .send (by simp [makePacket]) .nil

/-- Whatever calls a host makes, it waits for each response before it goes on. -/
theorem paired_of_callActs {packetSize : Nat} {calls : List Call} {acts : List HostAct}
    (h : callActs packetSize calls = some acts) : Paired acts := by
  induction calls generalizing acts with
  | nil =>
      cases h
      exact .nil
  | cons call calls ih =>
      simp only [callActs, Option.bind_eq_bind, Option.bind_eq_some_iff] at h
      obtain ⟨first, hfirst, rest, hrest, h⟩ := h
      cases h
      exact (Call.acts_paired hfirst).append (ih hrest)

namespace HostLink

/-- Where a host is between its reads and their responses. -/
inductive Turn (l : HostLink) : Prop
  | free (hreads : reads l.shmem.hostSent = l.shmem.hostReceived.length) (hp : Paired l.todo)
      (hpc : l.shmem.host.receiving = false)
      (hsend : l.shmem.greeted = true →
        ∀ p ∈ l.shmem.host.sending, ∃ c rest, l.todo = .send p c :: rest)
  /-- the last packet sent is a read without a response -/
  | waits {c : Copy} {rest : List HostAct} {ps : List Packet} {q : Packet}
      (hreads : reads l.shmem.hostSent = l.shmem.hostReceived.length + 1)
      (htodo : l.todo = .store c :: rest) (hp : Paired rest)
      (hlast : l.shmem.hostSent = ps ++ [q]) (hq : q.type = .read)
      (hpc : l.shmem.host = .ready ∨ l.shmem.host.receiving = true)

/-- What a host process has done of its acts. -/
structure Asking (acts : List HostAct) (l : HostLink) : Prop where
  packets : l.shmem.hostSent ++ packetsOf l.todo = packetsOf acts
  copies : l.stored.map Prod.fst ++ copiesOf l.todo = copiesOf acts
  stored : l.stored.map Prod.snd = l.shmem.hostReceived
  turn : l.Turn

variable {l l' : HostLink} {acts : List HostAct}

theorem Asking.within (ha : l.Asking acts) {m : Shmem} (hsent : m.hostSent = l.shmem.hostSent)
    (hrec : m.hostReceived = l.shmem.hostReceived) (ht : Turn { l with shmem := m }) :
    Asking acts { l with shmem := m } where
  packets := by rw [hsent]; exact ha.packets
  copies := ha.copies
  stored := ha.stored.trans hrec.symm
  turn := ht

/-- A step of a host process with nothing outstanding. -/
theorem Asking.host_free (ha : l.Asking acts) (hl : l.shmem.Linked) (hs : l.host = .ok l')
    (hreads : reads l.shmem.hostSent = l.shmem.hostReceived.length) (hp : Paired l.todo)
    (hpc : l.shmem.host.receiving = false)
    (hsend : l.shmem.greeted = true →
      ∀ p ∈ l.shmem.host.sending, ∃ c rest, l.todo = .send p c :: rest) :
    l'.Asking acts := by
  obtain ⟨m, todo, stored⟩ := l
  dsimp only at hl hreads hp hpc hsend
  cases hh : m.host with
  | absent => simp [HostLink.host, move, hh, Shmem.hostStep] at hs
  | prepare stores =>
      have hgreeted : m.greeted = false := hl.hostPc.2 _ hh
      cases stores with
      | nil =>
          simp only [HostLink.host, move, hh, Shmem.hostStep, Except.ok.injEq] at hs
          subst hs
          exact ha.within rfl rfl (.free hreads hp rfl fun hg => by rw [hgreeted] at hg; cases hg)
      | cons c stores =>
          simp only [HostLink.host, move, hh, Shmem.hostStep, Except.ok.injEq] at hs
          subst hs
          obtain ⟨_ | _, c⟩ := c <;>
            exact ha.within rfl rfl (.free hreads hp rfl fun _ _ hq => absurd hq List.not_mem_nil)
  | ready =>
      cases hp with
      | nil => simp [HostLink.host, move, hh, Shmem.hostStep] at hs
      | send hq hrest =>
          simp only [HostLink.host, move, hh, Shmem.hostStep, Except.ok.injEq] at hs
          subst hs
          refine ha.within rfl rfl (.free hreads (.send hq hrest) rfl fun _ p hp => ?_)
          cases List.mem_singleton.mp hp
          exact ⟨_, _, rfl⟩
      | read hq hrest =>
          simp only [HostLink.host, move, hh, Shmem.hostStep, Except.ok.injEq] at hs
          subst hs
          refine ha.within rfl rfl (.free hreads (.read hq hrest) rfl fun _ p hp => ?_)
          cases List.mem_singleton.mp hp
          exact ⟨_, _, rfl⟩
  | sendTest p =>
      rw [hh] at hsend
      simp only [HostLink.host, move, hh, Shmem.hostStep, Except.ok.injEq] at hs
      subst hs
      by_cases hf : pbIsFull m.ib = true
      · rw [if_pos hf]
        exact ha.within rfl rfl (.free hreads hp rfl hsend)
      · rw [if_neg hf]
        exact ha.within rfl rfl (.free hreads hp rfl hsend)
  | sendCopy p =>
      rw [hh] at hsend
      simp only [HostLink.host, move, hh, Shmem.hostStep, Except.ok.injEq] at hs
      subst hs
      exact ha.within rfl rfl (.free hreads hp rfl hsend)
  | sendStore p =>
      rw [hh] at hsend
      have hpackets := ha.packets
      have hcopies := ha.copies
      have hstored := ha.stored
      by_cases hg : m.greeted = true
      · obtain ⟨c, rest, rfl⟩ := hsend hg p (List.mem_singleton_self p)
        simp only [HostLink.host, move, hh, Shmem.hostStep, if_pos hg, Except.ok.injEq] at hs
        subst hs
        dsimp only at hpackets hcopies
        refine ⟨by simpa using hpackets, by simpa using hcopies, hstored, ?_⟩
        cases hp with
        | send hq hrest =>
            exact .free (by simpa [hq] using hreads) hrest rfl
              fun _ _ hq => absurd hq List.not_mem_nil
        | read hq hrest =>
            exact .waits (by simpa [hq] using hreads) rfl hrest rfl hq (.inl rfl)
      · have hshape : l' = ⟨{ m with host := .ready, ib := pbWriteStore m.ib, greeted := true },
            todo, stored⟩ := by
          simp only [HostLink.host, move, hh, Shmem.hostStep, if_neg hg] at hs
          split at hs <;> cases hs <;> first | rfl | simp_all
        subst hshape
        exact ha.within rfl rfl (.free hreads hp rfl fun _ _ hq => absurd hq List.not_mem_nil)
  | recvTest => simp [hh, ShmemPc.receiving] at hpc
  | recvCopy => simp [hh, ShmemPc.receiving] at hpc
  | recvStore p => simp [hh, ShmemPc.receiving] at hpc

theorem Asking.host (ha : l.Asking acts) (hl : l.shmem.Linked) (hs : l.host = .ok l') :
    l'.Asking acts := by
  cases ha.turn with
  | free hreads hp hpc hsend => exact ha.host_free hl hs hreads hp hpc hsend
  | waits hreads htodo hp hlast hq hpc =>
      obtain ⟨m, todo, stored⟩ := l
      dsimp only at hreads htodo hlast hpc
      subst htodo
      have hpackets := ha.packets
      have hcopies := ha.copies
      have hstored := ha.stored
      cases hh : m.host with
      | ready | recvCopy =>
          simp only [HostLink.host, move, hh, Shmem.hostStep, Except.ok.injEq] at hs
          subst hs
          exact ha.within rfl rfl (.waits hreads rfl hp hlast hq (.inr rfl))
      | recvTest =>
          simp only [HostLink.host, move, hh, Shmem.hostStep, Except.ok.injEq] at hs
          subst hs
          refine ha.within rfl rfl (.waits hreads rfl hp hlast hq (.inr ?_))
          dsimp only
          split <;> rfl
      | recvStore p =>
          simp only [HostLink.host, move, hh, Shmem.hostStep, Except.ok.injEq] at hs
          subst hs
          dsimp only at hpackets hcopies hstored
          exact ⟨hpackets, by simpa using hcopies, by simpa using hstored,
            .free (by simpa using hreads) hp rfl fun _ _ hq => absurd hq List.not_mem_nil⟩
      | _ => simp [hh, ShmemPc.receiving] at hpc

end HostLink

/-! ## What the backplane does with a ring -/

namespace Shmem

variable {s t : Shmem} {m : Move}

/-- A step of the backplane does nothing for the host but start it. -/
theorem backStep_host (hs : s.backStep m = .ok t) : t.hostSent = s.hostSent ∧
    t.hostReceived = s.hostReceived ∧ t.greeted = s.greeted ∧
      (t.host = s.host ∨ (∃ todo, s.back = .prepare todo) ∧ t.host = .prepare hostPrepare) := by
  cases m with
  | send _ | recv =>
      cases hb : s.back with
      | ready =>
          simp only [backStep, hb, Except.ok.injEq] at hs
          subst hs
          exact ⟨rfl, rfl, rfl, .inl rfl⟩
      | _ => simp [backStep, hb] at hs
  | go =>
      cases hb : s.back with
      | absent | ready => simp [backStep, hb] at hs
      | prepare todo =>
          cases todo with
          | nil =>
              simp only [backStep, hb, Except.ok.injEq] at hs
              subst hs
              exact ⟨rfl, rfl, rfl, .inr ⟨⟨[], rfl⟩, rfl⟩⟩
          | cons c todo =>
              simp only [backStep, hb, Except.ok.injEq] at hs
              subst hs
              obtain ⟨_ | _, c⟩ := c <;> exact ⟨rfl, rfl, rfl, .inl rfl⟩
      | sendTest _ | sendCopy _ | sendStore _ | recvCopy =>
          simp only [backStep, hb, Except.ok.injEq] at hs
          subst hs
          exact ⟨rfl, rfl, rfl, .inl rfl⟩
      | recvTest | recvStore _ =>
          simp only [backStep, hb] at hs
          split at hs <;> cases hs <;> exact ⟨rfl, rfl, rfl, .inl rfl⟩

/-- A step of the host leaves the backplane where it is. -/
theorem hostStep_back (hs : s.hostStep m = .ok t) : t.back = s.back ∧ t.backSent = s.backSent ∧
    t.backReceived = s.backReceived ∧ t.connected = s.connected := by
  cases m with
  | send _ | recv =>
      cases hh : s.host with
      | ready =>
          simp only [hostStep, hh, Except.ok.injEq] at hs
          subst hs
          exact ⟨rfl, rfl, rfl, rfl⟩
      | _ => simp [hostStep, hh] at hs
  | go =>
      cases hh : s.host with
      | absent | ready => simp [hostStep, hh] at hs
      | prepare todo =>
          cases todo with
          | nil =>
              simp only [hostStep, hh, Except.ok.injEq] at hs
              subst hs
              exact ⟨rfl, rfl, rfl, rfl⟩
          | cons c todo =>
              simp only [hostStep, hh, Except.ok.injEq] at hs
              subst hs
              obtain ⟨_ | _, c⟩ := c <;> exact ⟨rfl, rfl, rfl, rfl⟩
      | sendTest _ | sendCopy _ | recvTest | recvCopy | recvStore _ =>
          simp only [hostStep, hh, Except.ok.injEq] at hs
          subst hs
          exact ⟨rfl, rfl, rfl, rfl⟩
      | sendStore _ =>
          simp only [hostStep, hh] at hs
          split at hs <;> cases hs <;> exact ⟨rfl, rfl, rfl, rfl⟩

/-- A step within a call takes a packet out of the ring, or only goes on with the call. -/
theorem backStep_go (hinv : s.Preparing ∨ s.Linked) (hs : s.backStep .go = .ok t) :
    (∃ p, s.back = .recvStore p ∧ s.connected = true ∧ t.back = .ready ∧ t.connected = true ∧
        t.backReceived = s.backReceived ++ [p] ∧ t.backSent = s.backSent) ∨
      ((∀ p, s.back = .recvStore p → s.connected = false) ∧ t.backReceived = s.backReceived ∧
        t.backSent ++ t.back.sending = s.backSent ++ s.back.sending ∧
        (t.connected = true → t.back.receiving = true →
          s.connected = true ∧ s.back.receiving = true)) := by
  cases hb : s.back with
  | absent | ready => simp [backStep, hb] at hs
  | prepare todo =>
      have hc : s.connected = false := by
        rcases hinv with ⟨_, -, -, hsilent, -⟩ | hl
        · exact hsilent.1
        · exact absurd hb (hl.backPc.2 _)
      cases todo with
      | nil =>
          simp only [backStep, hb, Except.ok.injEq] at hs
          subst hs
          exact .inr ⟨by simp, rfl, rfl, fun h => by rw [hc] at h; cases h⟩
      | cons c todo =>
          simp only [backStep, hb, Except.ok.injEq] at hs
          subst hs
          obtain ⟨_ | _, c⟩ := c <;> exact .inr ⟨by simp, rfl, rfl, fun _ h => by cases h⟩
  | sendTest p =>
      simp only [backStep, hb, Except.ok.injEq] at hs
      subst hs
      by_cases hf : pbIsFull s.bi = true
      · rw [if_pos hf]
        exact .inr ⟨by simp, rfl, rfl, fun _ h => by cases h⟩
      · rw [if_neg hf]
        exact .inr ⟨by simp, rfl, rfl, fun _ h => by cases h⟩
  | sendCopy p =>
      simp only [backStep, hb, Except.ok.injEq] at hs
      subst hs
      exact .inr ⟨by simp, rfl, rfl, fun _ h => by cases h⟩
  | sendStore p =>
      simp only [backStep, hb, Except.ok.injEq] at hs
      subst hs
      exact .inr ⟨by simp, rfl, by simp [ShmemPc.sending], fun _ h => by cases h⟩
  | recvTest =>
      simp only [backStep, hb] at hs
      split at hs
      · cases hs
        refine .inr ⟨by simp, rfl, ?_, fun hc _ => ⟨hc, rfl⟩⟩
        dsimp only
        split <;> rfl
      · cases hs
        exact .inr ⟨by simp, rfl, rfl, fun hc _ => ⟨hc, rfl⟩⟩
  | recvCopy =>
      simp only [backStep, hb, Except.ok.injEq] at hs
      subst hs
      exact .inr ⟨by simp, rfl, rfl, fun hc _ => ⟨hc, rfl⟩⟩
  | recvStore p =>
      simp only [backStep, hb] at hs
      by_cases hc : s.connected = true
      · rw [if_pos hc] at hs
        cases hs
        exact .inl ⟨p, rfl, hc, rfl, hc, rfl, rfl⟩
      · rw [if_neg hc] at hs
        cases hs
        exact .inr ⟨fun _ _ => by simpa using hc, rfl, rfl, fun _ h => by cases h⟩

/-- A call begins where none was. -/
theorem backStep_call (hm : m ≠ .go) (hs : s.backStep m = .ok t) : s.back = .ready ∧
    t.backReceived = s.backReceived ∧ t.backSent = s.backSent ∧ t.connected = s.connected ∧
      (m = .recv ∧ t.back = .recvTest ∨ ∃ p, m = .send p ∧ t.back = .sendTest p) := by
  cases m with
  | go => exact absurd rfl hm
  | send p =>
      cases hb : s.back with
      | ready =>
          simp only [backStep, hb, Except.ok.injEq] at hs
          subst hs
          exact ⟨rfl, rfl, rfl, rfl, .inr ⟨p, rfl, rfl⟩⟩
      | _ => simp [backStep, hb] at hs
  | recv =>
      cases hb : s.back with
      | ready =>
          simp only [backStep, hb, Except.ok.injEq] at hs
          subst hs
          exact ⟨rfl, rfl, rfl, rfl, .inl ⟨rfl, rfl⟩⟩
      | _ => simp [backStep, hb] at hs

end Shmem

namespace HostLink

variable {l l' : HostLink} {acts : List HostAct} {m : Shmem.Move}

theorem back_eq_ok (hs : l.back m = .ok l') : l.shmem.backStep m = .ok l'.shmem ∧
    l' = { l with shmem := l'.shmem } := by
  unfold HostLink.back at hs
  split at hs
  · cases hs
  · rename_i hstep
    cases hs
    exact ⟨hstep, rfl⟩

theorem host_eq_ok (hs : l.host = .ok l') : l.shmem.hostStep l.move = .ok l'.shmem := by
  unfold HostLink.host at hs
  split at hs
  · cases hs
  · rename_i hstep
    rw [hstep]
    split at hs <;> cases hs <;> rfl

theorem Asking.back (ha : l.Asking acts) (hinv : l.shmem.Preparing ∨ l.shmem.Linked)
    (hs : l.back m = .ok l') : l'.Asking acts := by
  obtain ⟨hstep, hl'⟩ := back_eq_ok hs
  obtain ⟨hsent, hrec, hgreeted, hhost⟩ := Shmem.backStep_host hstep
  rw [hl']
  refine ha.within hsent hrec ?_
  rcases hhost with hhost | ⟨⟨todo, hback⟩, hhost⟩
  · cases ha.turn with
    | free hreads hp hpc hsend =>
        exact .free (by rw [hsent, hrec]; exact hreads) hp (by rw [hhost]; exact hpc)
          (by rw [hgreeted, hhost]; exact hsend)
    | waits hreads htodo hp hlast hq hpc =>
        exact .waits (by rw [hsent, hrec]; exact hreads) htodo hp (by rw [hsent]; exact hlast) hq
          (by rw [hhost]; exact hpc)
  · -- the host process begins
    have habsent : l.shmem.host = .absent := by
      rcases hinv with ⟨_, -, habsent, -⟩ | hl
      · exact habsent
      · exact absurd hback (hl.backPc.2 todo)
    cases ha.turn with
    | free hreads hp hpc hsend =>
        exact .free (by rw [hsent, hrec]; exact hreads) hp (by rw [hhost]; rfl)
          (by rw [hhost]; exact fun _ _ hq => absurd hq List.not_mem_nil)
    | waits hreads htodo hp hlast hq hpc => simp [habsent, ShmemPc.receiving] at hpc

end HostLink

end TSim4CXL
