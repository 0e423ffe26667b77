/-
  The packets received are handled in order.

  A SIMWrapper has one packet in hand between its poll and the end of its handler. Of each kind, the
  packets received over the ring are those handled and then the one in hand (`Cosim.Handled`); a
  packet of any other kind ends the host.
-/
import TSim4CXL.Properties.Cosim

namespace TSim4CXL

open Transition

/-! ## The packet in hand -/

/-- The packet received and not yet handled. -/
def ProcState.inHand : ProcState → List Packet
  | .delta packet => [packet]
  | .gate packet _ => [packet]
  | .readCpu packet => [packet]
  | .writeCpu packet => [packet]
  | .loop => []
  | .done => []

/-- A packet is with the handler of its kind. -/
def ProcState.Fitting : ProcState → Prop
  | .gate packet _ => packet.type = .read
  | .readCpu packet => packet.type = .read
  | .writeCpu packet => packet.type = .write
  | _ => True

def Command.packetType : Command → PacketType
  | .read => .read
  | .write => .write

/-- The packets of one kind. -/
def ofType (c : Command) (ps : List Packet) : List Packet := ps.filter (·.type = c.packetType)

@[simp] theorem ofType_nil (c : Command) : ofType c [] = [] := rfl

@[simp] theorem ofType_append (c : Command) (ps qs : List Packet) :
    ofType c (ps ++ qs) = ofType c ps ++ ofType c qs := List.filter_append ..

theorem ofType_singleton (c : Command) (p : Packet) :
    ofType c [p] = if p.type = c.packetType then [p] else [] := by
  unfold ofType
  split <;> simp_all

/-- The packets of one kind that a host has handled. -/
def handledOf (c : Command) (h : Nat) (l : List Event) : List Packet :=
  match c with
  | .read => readsOf h l
  | .write => writesOf h l

@[simp] theorem handledOf_append (c : Command) (h : Nat) (l l' : List Event) :
    handledOf c h (l ++ l') = handledOf c h l ++ handledOf c h l' := by
  cases c
  · exact readsOf_append ..
  · exact writesOf_append ..

theorem handledOf_eq_nil {h : Nat} {es : List Event} (hes : readsOf h es = [] ∧ writesOf h es = [])
    (c : Command) :
    handledOf c h es = [] := by
  cases c
  · exact hes.1
  · exact hes.2

/-! ## A step of a SIMWrapper -/

namespace SimWrapper

variable {cfg : Config} {h : Nat} {env : SimEnv} {w w' : SimWrapper} {es : List Event}

/-- The packets `ps` are handled by these events or in hand afterwards. -/
def Handles (h : Nat) (ps : List Packet) (es : List Event) (w' : SimWrapper) : Prop :=
  w'.proc.Fitting ∧ ∀ c, handledOf c h es ++ ofType c w'.proc.inHand = ofType c ps

theorem Handles.of_ok {ps : List Packet} {r : SimWrapper × List Event}
    (hs : (.ok r : Except Fault (SimWrapper × List Event)) = .ok (w', es))
    (hr : Handles h ps r.2 r.1) :
    Handles h ps es w' := by
  cases hs
  exact hr

theorem handles_quiet {ps : List Packet} (hes : readsOf h es = [] ∧ writesOf h es = [])
    (hf : w'.proc.Fitting) (hp : ∀ c, ofType c w'.proc.inHand = ofType c ps) : Handles h ps es w' :=
  ⟨hf, fun c => by rw [handledOf_eq_nil hes, List.nil_append, hp c]⟩

theorem pollGate_handles {packet : Packet} (ht : packet.type = .read) :
    Handles h [packet] (pollGate h env w packet).2 (pollGate h env w packet).1 := by
  unfold pollGate
  refine handles_quiet ?_ ht fun c => rfl
  dsimp only
  split <;> simp

/-- The end of an iteration has no packet in hand. -/
theorem endIteration_handles (h : Nat) (env : SimEnv) (w : SimWrapper) {ps : List Packet}
    (hps : ∀ c, ofType c ps = []) :
    Handles h ps (endIteration h env w).2 (endIteration h env w).1 := by
  unfold endIteration
  split <;> exact handles_quiet (by simp) trivial fun c => (hps c).symm

theorem handlePacket_handles (w : SimWrapper) (packet : Packet) :
    Handles h [packet] (handlePacket h env w packet).2 (handlePacket h env w packet).1 := by
  unfold handlePacket
  split
  · rename_i ht
    exact pollGate_handles ht
  · rename_i ht
    exact handles_quiet (by simp) ht fun c => rfl
  · rename_i hread hwrite
    refine endIteration_handles h env _ fun c => ?_
    rw [ofType_singleton, if_neg]
    cases c
    · exact hread
    · exact hwrite

/-- A poll that returns a packet puts it in hand. -/
theorem recv_handles {packet : Packet} (hs : w.recv h env packet = .ok (w', es)) :
    w.proc.inHand = [] ∧ Handles h [packet] es w' := by
  unfold recv at hs
  split at hs
  · rename_i hg
    refine ⟨by rw [hg.1]; rfl, ?_⟩
    dsimp only at hs
    split at hs
    · exact .of_ok hs (handles_quiet (by simp) trivial fun c => rfl)
    · exact .of_ok hs (handlePacket_handles _ packet)
  · cases hs

theorem process_handles (hf : w.proc.Fitting) (hs : w.process cfg h env = .ok (w', es)) :
    Handles h w.proc.inHand es w' := by
  unfold process at hs
  split at hs <;> rename_i hp <;> simp only [hp, ProcState.Fitting] at hf <;> rw [hp]
  · split at hs
    · exact .of_ok hs (handles_quiet (by simp) (by rw [hp]; trivial) fun c => by rw [hp])
    · obtain ⟨hfit, hhand⟩ :=
        endIteration_handles h env { w with terminated := true } (fun c => ofType_nil c)
      refine .of_ok hs ⟨hfit, fun c => ?_⟩
      rw [handledOf_append, handledOf_eq_nil (by split <;> simp), List.nil_append]
      exact hhand c
  · exact .of_ok hs (handlePacket_handles w _)
  · exact .of_ok hs (pollGate_handles hf)
  · exact .of_ok hs (handles_quiet (by simp) hf fun c => rfl)
  · refine .of_ok hs ⟨trivial, fun c => ?_⟩
    cases c <;>
      simp [handleReadPacket, handledOf, ProcState.inHand, ofType_singleton, Command.packetType, hf]
  · refine .of_ok hs ⟨trivial, fun c => ?_⟩
    cases c <;>
      simp [handleWritePacket, handledOf, ProcState.inHand, ofType_singleton,
        Command.packetType, hf]
  · cases hs

theorem frame_handles (hf : w.proc.Fitting) (h' : Frame h w es w') :
    Handles h w.proc.inHand es w' := by
  obtain ⟨hproc, -, -, hdata⟩ := h'
  refine handles_quiet ⟨readsOf_data hdata, ?_⟩ (hproc ▸ hf) fun c => by rw [hproc]
  refine (pick_eq_nil _).mpr fun e he => ?_
  have := hdata e he
  cases e <;> simp_all [Event.Data]

/-- Any other step handles the packet in hand or keeps it. -/
theorem act_handles {a : Act} (ha : ∀ p, a ≠ .recv p) (hf : w.proc.Fitting)
    (hs : w.act cfg h env a = .ok (w', es)) : Handles h w.proc.inHand es w' := by
  cases a with
  | recv packet => exact absurd rfl (ha packet)
  | process => exact process_handles hf hs
  | posedge =>
      cases hs
      exact handles_quiet ⟨rfl, rfl⟩ hf fun c => rfl
  | negedge => exact frame_handles hf (clockNegedge_frame hs)
  | peq =>
      simp only [act] at hs
      split at hs
      · cases hs
      · rename_i hw
        cases hs
        exact frame_handles hf (peqCb_frame hw)

end SimWrapper

/-! ## Runs with host processes -/

namespace Cosim

variable {cfg : Config} {s t : Cosim} {acts : Nat → List HostAct} {h : Nat}

/-- Of each kind, a SIMWrapper has received the packets it handled and then the one in hand. -/
structure Handled (s : Cosim) (h : Nat) : Prop where
  fitting : (s.sys.sim h).proc.Fitting
  received : ∀ c, ofType c (s.link h).shmem.backReceived =
    handledOf c h s.sys.log ++ ofType c (s.sys.sim h).proc.inHand

/-- A step in which the SIMWrapper of the host receives nothing. -/
theorem Handled.step (hi : Handled s h) {a : Action} (hs : Sys.step cfg s.sys a = .ok t.sys)
    (hno : ∀ p, a ≠ .sim h (.recv p))
    (hrec : (t.link h).shmem.backReceived = (s.link h).shmem.backReceived) : Handled t h := by
  obtain ⟨es, hlog, ⟨b, rfl, hact⟩ | ⟨-, hes, -, hproc, -, -⟩⟩ := Sys.step_host hs h
  · obtain ⟨hfit, hhand⟩ := SimWrapper.act_handles (fun p hp => hno p (hp ▸ rfl)) hi.fitting hact
    refine ⟨hfit, fun c => ?_⟩
    rw [hrec, hi.received c, hlog, handledOf_append, List.append_assoc, hhand c]
  · refine ⟨hproc ▸ hi.fitting, fun c => ?_⟩
    rw [hrec, hi.received c, hlog, handledOf_append, handledOf_eq_nil hes, List.append_nil, hproc]

theorem Handled.keep (hi : Handled s h) (hsys : t.sys = s.sys)
    (hrec : (t.link h).shmem.backReceived = (s.link h).shmem.backReceived) : Handled t h where
  fitting := hsys ▸ hi.fitting
  received c := by rw [hrec, hsys]; exact hi.received c

theorem Inv.handled_back (hv : Inv cfg acts s) (hi : ∀ k, Handled s k) (hs : s.back cfg h = .ok t)
    (k : Nat) :
    Handled t k := by
  obtain ⟨-, -, l, hback, hlink, -, hcase⟩ := back_eq_ok hs
  have hother (hk : k ≠ h) : (t.link k).shmem.backReceived = (s.link k).shmem.backReceived := by
    rw [hlink, Function.update_of_ne hk]
  have hl : t.link h = l := by rw [hlink, Function.update_self]
  rcases Shmem.backStep_go (hv.channel h) (HostLink.back_eq_ok hback).1 with
    ⟨p, hpc, hconn, -, -, hrec, -⟩ | ⟨hno, hrec, -⟩
  · rcases hcase with ⟨p', hpc', -, hstep⟩ | ⟨-, hno⟩
    · obtain rfl : p' = p := by
        rw [hpc] at hpc'
        injection hpc' with he
        exact he.symm
      rw [unblock_eq (hv.not_blocked hpc hconn)] at hstep
      by_cases hk : k = h
      · subst hk
        obtain ⟨es, hlog, ⟨b, hb, hact⟩ | ⟨howner, -⟩⟩ := Sys.step_host hstep k
        · cases hb
          obtain ⟨hnone, hfit, hhand⟩ := SimWrapper.recv_handles hact
          refine ⟨hfit, fun c => ?_⟩
          rw [hl, hrec, ofType_append, (hi k).received c, hnone, ofType_nil, List.append_nil, hlog,
            handledOf_append, List.append_assoc, hhand c]
        · exact absurd rfl howner
      · exact (hi k).step hstep (fun q hq => hk (by cases hq; rfl)) (hother hk)
    · rw [hno p hpc] at hconn
      cases hconn
  · rcases hcase with ⟨p, hpc, hconn, -⟩ | ⟨hsys, -⟩
    · rw [hno p hpc] at hconn
      cases hconn
    · refine (hi k).keep hsys ?_
      by_cases hk : k = h
      · rw [hk, hl, hrec]
      · exact hother hk

theorem Handled.poll (hi : Handled s k) (hs : s.poll cfg h = .ok t) : Handled t k := by
  unfold Cosim.poll at hs
  split at hs
  · cases hs
  split at hs
  · split at hs
    · cases hs
    · rename_i l hback
      cases hs
      refine hi.keep rfl ?_
      by_cases hk : k = h
      · subst hk
        simpa using (Shmem.backStep_call (by simp) (HostLink.back_eq_ok hback).1).2.1
      · simp [hk]
  · cases hs

theorem Handled.host (hi : Handled s k) (hs : s.host h = .ok t) : Handled t k := by
  unfold Cosim.host at hs
  split at hs
  · cases hs
  rename_i l hhost
  cases hs
  refine hi.keep rfl ?_
  by_cases hk : k = h
  · subst hk
    simpa using (Shmem.hostStep_back (HostLink.host_eq_ok hhost)).2.2.1
  · simp [hk]

theorem Handled.stretch {a : Action} (hi : Handled s k) (hs : s.stretch cfg a = .ok t) :
    Handled t k := by
  obtain ⟨-, hpolls, hstep, hcase⟩ := stretch_eq_ok hs
  refine hi.step hstep (fun p hp => hpolls (by rw [hp]; trivial)) ?_
  rcases hcase with ⟨h, b, bytes, rest, l, -, -, hback, hlink, -⟩ | ⟨-, hlink, -⟩
  · rw [hlink]
    by_cases hk : k = h
    · subst hk
      simpa using (Shmem.backStep_call (by simp) (HostLink.back_eq_ok hback).1).2.1
    · simp [hk]
  · rw [hlink]

theorem Reachable.handled {ib bi : Nat → PacketBuffer} (hr : Reachable cfg ib bi acts s)
    (h0 : 0 < cfg.payloadNum) (hN : cfg.payloadNum < 4294967296) (hp : ∀ h, Paired (acts h))
    (h : Nat) :
    Handled s h := by
  refine Reach.invariant (P := fun s => ∀ h, Handled s h)
    (by exact fun h => ⟨trivial, fun c => by cases c <;> rfl⟩)
    (fun s a t hrs _ hi hs k => ?_) hr h
  cases a with
  | back h => exact (Reachable.inv hrs h0 hN hp).handled_back hi hs k
  | poll h => exact (hi k).poll hs
  | sys a => exact (hi k).stretch hs
  | host h => exact (hi k).host hs

end Cosim

end TSim4CXL
