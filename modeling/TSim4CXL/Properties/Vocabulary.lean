/-
  The packet types a host sends and the ones its SIMWrapper handles.

  `handle_packet` knows reads and writes; every other type is taken for the end of the host. So a
  packet of `trcSignal` or `trcWait` ends it, and what comes after is never received
  (`barrier_ends_host`). `terminated_by_terminate`: with no such call before the first
  `trcTerminate`, a host has ended only when the packet of that call was handled, and all packets
  before it were received.
-/
import TSim4CXL.Model.FedHost
import TSim4CXL.Model.Top
import TSim4CXL.Trace.Control

namespace TSim4CXL

open Transition

/-- `handle_packet` has a branch for it, other than the default one. -/
def Packet.IsRequest (packet : Packet) : Prop := packet.type = .read ∨ packet.type = .write

instance (packet : Packet) : Decidable packet.IsRequest := inferInstanceAs (Decidable (_ ∨ _))

namespace SimWrapper

variable {cfg : Config} {h : Nat} {env : SimEnv} {w w' : SimWrapper} {es : List Event}

/-! ## What a step does to the status -/

/-- The packet received and not yet handled. -/
def pending (w : SimWrapper) : Option Packet :=
  match w.proc with
  | .delta packet => some packet
  | _ => none

/-- The status after a packet was handled. -/
def dispatched (packet : Packet) (status : Status) : Status :=
  if packet.IsRequest then status else .terminated

theorem endIteration_status : (endIteration h env w).1.status = w.status ∧
    (endIteration h env w).1.pending = none := by
  unfold endIteration
  split <;> exact ⟨rfl, rfl⟩

theorem handlePacket_status (packet : Packet) :
    (handlePacket h env w packet).1.status = dispatched packet w.status ∧
      (handlePacket h env w packet).1.pending = none := by
  unfold handlePacket dispatched
  split
  · rename_i ht
    rw [if_pos (show packet.IsRequest from .inl ht)]
    exact ⟨rfl, rfl⟩
  · rename_i ht
    rw [if_pos (show packet.IsRequest from .inr ht)]
    exact ⟨rfl, rfl⟩
  · rename_i hr hw
    rw [if_neg (show ¬ packet.IsRequest from not_or.mpr ⟨hr, hw⟩)]
    exact endIteration_status

theorem recv_status {packet : Packet} (hs : w.recv h env packet = .ok (w', es)) :
    w.status = .running ∧ w.pending = none ∧
      (w'.status = .running ∧ w'.pending = some packet ∨
        w'.status = dispatched packet .running ∧ w'.pending = none) := by
  unfold recv at hs
  split at hs
  · rename_i hg
    obtain ⟨hp, hrun, -⟩ := hg
    refine ⟨hrun, by simp [pending, hp], ?_⟩
    dsimp only at hs
    split at hs <;> obtain rfl : _ = w' := congrArg Prod.fst (Except.ok.inj hs)
    · exact .inl ⟨hrun, rfl⟩
    · exact .inr (hrun ▸ handlePacket_status packet)
  · cases hs

theorem process_status (hs : w.process cfg h env = .ok (w', es)) :
    w'.status = w.pending.elim w.status (dispatched · w.status) ∧ w'.pending = none := by
  unfold process at hs
  unfold pending
  split at hs <;> rename_i hp <;> rw [hp]
  · split at hs <;> obtain rfl : _ = w' := congrArg Prod.fst (Except.ok.inj hs)
    · exact ⟨rfl, by rw [hp]⟩
    · exact endIteration_status
  · obtain rfl : _ = w' := congrArg Prod.fst (Except.ok.inj hs)
    exact handlePacket_status _
  · cases hs
    exact ⟨rfl, rfl⟩
  · cases hs
    exact ⟨rfl, rfl⟩
  · cases hs
    exact ⟨rfl, rfl⟩
  · cases hs
    exact ⟨rfl, rfl⟩
  · cases hs

/-- A clock edge or a notification. -/
theorem frame_status (hf : Frame h w es w') : w'.status = w.status ∧ w'.pending = w.pending :=
  ⟨hf.2.1, by rw [pending, hf.1, ← pending]⟩

end SimWrapper

/-! ## Runs -/

namespace FedHost

/-- The packets handled so far: requests only, and after the host has ended one more. -/
def Handled (w : SimWrapper) (handled : List Packet) : Prop :=
  w.status = .running ∧ (∀ q ∈ handled, q.IsRequest) ∨
    w.status = .terminated ∧ w.pending = none ∧
      ∃ before last, handled = before ++ [last] ∧ (∀ q ∈ before, q.IsRequest) ∧ ¬ last.IsRequest

/-- Each packet is handled, pending or coming. -/
def Ordered (packets : List Packet) (s : FedHost) : Prop :=
  s.received ++ s.coming = packets ∧
    ∃ handled, s.received = handled ++ s.host.1.pending.toList ∧ Handled s.host.1 handled

theorem Handled.dispatch {w' : SimWrapper} {handled : List Packet} {packet : Packet}
    (hh : ∀ q ∈ handled, q.IsRequest) (hst : w'.status = SimWrapper.dispatched packet .running)
    (hp : w'.pending = none) :
    Handled w' (handled ++ [packet]) := by
  by_cases hq : packet.IsRequest
  · rw [SimWrapper.dispatched, if_pos hq] at hst
    refine .inl ⟨hst, fun q hmem => ?_⟩
    rcases List.mem_append.mp hmem with hmem | hmem
    · exact hh q hmem
    · exact List.mem_singleton.mp hmem ▸ hq
  · rw [SimWrapper.dispatched, if_neg hq] at hst
    exact .inr ⟨hst, hp, handled, packet, rfl, hh, hq⟩

/-- A step that handles and receives nothing. -/
theorem Ordered.quiet {packets : List Packet} {s : FedHost} {host : SimWrapper × List Event}
    (ho : Ordered packets s) (hst : host.1.status = s.host.1.status)
    (hp : host.1.pending = s.host.1.pending) : Ordered packets { s with host := host } := by
  obtain ⟨hsplit, handled, hreceived, hh⟩ := ho
  refine ⟨hsplit, handled, by rw [hp, ← hreceived], ?_⟩
  unfold Handled
  rwa [hst, hp]

theorem Ordered.recv {packets : List Packet} {s : FedHost} {packet : Packet} {rest : List Packet}
    {host : SimWrapper × List Event} (ho : Ordered packets s) (hc : s.coming = packet :: rest)
    (hrun : s.host.1.status = .running) (hnone : s.host.1.pending = none)
    (hnew : host.1.status = .running ∧ host.1.pending = some packet ∨
      host.1.status = SimWrapper.dispatched packet .running ∧ host.1.pending = none) :
    Ordered packets ⟨s.received ++ [packet], rest, host⟩ := by
  obtain ⟨hsplit, handled, hreceived, hh⟩ := ho
  have hall : ∀ q ∈ handled, q.IsRequest := by
    rcases hh with hh | hh
    · exact hh.2
    · exact absurd (hrun.symm.trans hh.1) (by decide)
  rw [hnone, Option.toList_none, List.append_nil] at hreceived
  refine ⟨by rw [List.append_assoc, ← hsplit, hc]; rfl, ?_⟩
  rcases hnew with ⟨hst, hp⟩ | ⟨hst, hp⟩
  · exact ⟨handled, by rw [hp, hreceived]; rfl, .inl ⟨hst, hall⟩⟩
  · exact ⟨handled ++ [packet], by rw [hp, hreceived]; simp, .dispatch hall hst hp⟩

theorem Ordered.process {packets : List Packet} {s : FedHost} {host : SimWrapper × List Event}
    (ho : Ordered packets s) (hst : host.1.status =
      s.host.1.pending.elim s.host.1.status (SimWrapper.dispatched · s.host.1.status))
    (hnone : host.1.pending = none) : Ordered packets { s with host := host } := by
  cases hp : s.host.1.pending with
  | none => exact ho.quiet (by rw [hst, hp]; rfl) (hnone.trans hp.symm)
  | some packet =>
      obtain ⟨hsplit, handled, hreceived, hh⟩ := ho
      rw [hp] at hst hreceived
      rcases hh with ⟨hrun, hall⟩ | ⟨-, hnot, -⟩
      · refine ⟨hsplit, handled ++ [packet],
          by rw [hnone, hreceived]; simp, .dispatch hall ?_ hnone⟩
        rw [hst, Option.elim_some, hrun]
      · rw [hp] at hnot
        cases hnot

variable {cfg : Config} {mem : Nat → Nat → UInt8}

theorem ordered_step {packets : List Packet} {s s' : FedHost} {a : LoneAct} (ho : Ordered packets s)
    (hs : step cfg mem s a = .ok s') : Ordered packets s' := by
  obtain ⟨host, hhost, hrest⟩ := bind_eq_ok.mp hs
  obtain ⟨t, ht, heq⟩ := bind_eq_ok.mp hrest
  obtain rfl := Except.ok.inj heq
  clear hs hrest heq
  cases a with
  | ack p =>
      cases ht
      simp only [LoneHost.step] at hhost
      split at hhost <;> cases hhost
      exact ho.quiet rfl rfl
  | step b sync activeDram =>
      simp only [LoneHost.step] at hhost
      split at hhost <;> cases hhost
      rename_i w es hact
      cases b with
      | recv packet =>
          obtain ⟨hrun, hnone, hnew⟩ := SimWrapper.recv_status hact
          simp only [take] at ht
          split at ht
          · cases ht
          · rename_i first rest hc
            split at ht <;> cases ht
            rename_i hfirst
            exact ho.recv (hfirst ▸ hc) hrun hnone hnew
      | process =>
          cases ht
          obtain ⟨hst, hnone⟩ := SimWrapper.process_status hact
          exact ho.process hst hnone
      | posedge =>
          cases ht
          cases hact
          exact ho.quiet rfl rfl
      | negedge =>
          cases ht
          obtain ⟨hst, hp⟩ := SimWrapper.frame_status (SimWrapper.clockNegedge_frame hact)
          exact ho.quiet hst hp
      | peq =>
          cases ht
          simp only [SimWrapper.act] at hact
          split at hact <;> cases hact
          rename_i hpeq
          obtain ⟨hst, hp⟩ := SimWrapper.frame_status (SimWrapper.peqCb_frame (h := 0) hpeq)
          exact ho.quiet hst hp

theorem ordered {packets : List Packet} {s : FedHost} (hs : Reachable cfg mem packets s) :
    Ordered packets s :=
  hs.invariant ⟨rfl, [], rfl, .inl ⟨rfl, by simp⟩⟩ fun _ _ _ _ _ ho hstep => ordered_step ho hstep

/-- What a host that has ended has received. -/
theorem received_of_terminated {packets : List Packet} {s : FedHost}
    (hs : Reachable cfg mem packets s) (ht : s.host.1.status = .terminated) : ∃ before last,
      s.received = before ++ [last] ∧ before ++ last :: s.coming = packets ∧
        (∀ q ∈ before, q.IsRequest) ∧ ¬ last.IsRequest := by
  obtain ⟨hsplit, handled, hreceived, ⟨hrun, -⟩ | ⟨-, hnone, before, last, rfl, hb, hl⟩⟩ :=
    ordered hs
  · exact absurd (hrun.symm.trans ht) (by decide)
  · rw [hnone, Option.toList_none, List.append_nil] at hreceived
    refine ⟨before, last, hreceived, ?_, hb, hl⟩
    rw [← hsplit, hreceived, List.append_assoc]
    rfl

end FedHost

/-! ## Calls -/

/-- The calls `trcRead` and `trcWrite`. -/
def Call.IsRequest : Call → Prop
  | .read .. => True
  | .write .. => True
  | _ => False

/-- No `trcSignal` or `trcWait` before the first `trcTerminate`. -/
def BarrierFree : List Call → Prop
  | [] => True
  | .terminate _ :: _ => True
  | call :: calls => call.IsRequest ∧ BarrierFree calls

theorem Call.packets_request {packetSize : Nat} {call : Call} (hc : call.IsRequest)
    {acts : List HostAct} (h : call.acts packetSize = some acts) :
      ∀ q ∈ packetsOf acts, q.IsRequest := by
  intro q hq
  obtain ⟨copy, hq⟩ := mem_packetsOf.mp hq
  cases call with
  | read address size device delta =>
      obtain ⟨rounded, -, rfl⟩ := Option.map_eq_some_iff.mp h
      obtain ⟨j, hj⟩ := mem_forDown hq
      rcases List.mem_pair.mp hj with hj | hj
      · cases hj
        exact .inl rfl
      · cases hj
  | write address data size device delta =>
      obtain ⟨rounded, -, rfl⟩ := Option.map_eq_some_iff.mp h
      obtain ⟨j, hj⟩ := mem_forDown hq
      cases List.mem_singleton.mp hj
      exact .inr rfl
  | _ => cases hc

theorem callPackets_cons {packetSize : Nat} {call : Call} {calls : List Call}
    {packets : List Packet} :
    callPackets packetSize (call :: calls) = some packets ↔
      ∃ acts, call.acts packetSize = some acts ∧
      ∃ rest, callPackets packetSize calls = some rest ∧ packetsOf acts ++ rest = packets := by
  simp only [callPackets, Option.bind_eq_bind, Option.bind_eq_some_iff, Option.pure_def,
    Option.some.injEq]

/-- Requests at the head of a list are before the first packet that is none. -/
theorem append_eq_requests {as bs before rest : List Packet} {last : Packet}
    (h : as ++ bs = before ++ last :: rest) (ha : ∀ q ∈ as, q.IsRequest) (hl : ¬ last.IsRequest) :
    ∃ tail, before = as ++ tail ∧ bs = tail ++ last :: rest := by
  rcases List.append_eq_append_iff.mp h with ⟨tail, hb, hbs⟩ | ⟨tail, has, hlast⟩
  · exact ⟨tail, hb, hbs⟩
  · cases tail with
    | nil => exact ⟨[], by simpa using has.symm, hlast.symm⟩
    | cons q tail =>
        obtain ⟨rfl, -⟩ := List.cons.inj hlast
        exact absurd (ha last (by simp [has])) hl

/-- The first packet that is no request is the one of the first `trcTerminate`. -/
theorem BarrierFree.split {packetSize : Nat} {calls : List Call} (hfree : BarrierFree calls)
    {before rest : List Packet} {last : Packet}
    (h : callPackets packetSize calls = some (before ++ last :: rest))
    (hb : ∀ q ∈ before, q.IsRequest) (hl : ¬ last.IsRequest) :
      ∃ requests delta after, calls = requests ++ .terminate delta :: after ∧
      (∀ call ∈ requests, call.IsRequest) ∧ callPackets packetSize requests = some before ∧
      packetsOf (trcTerminate packetSize delta) = [last] := by
  induction calls generalizing before with
  | nil => simp [callPackets] at h
  | cons call calls ih =>
      obtain ⟨acts, hacts, packets, hpackets, hsplit⟩ := callPackets_cons.mp h
      have hcall (hfree : call.IsRequest ∧ BarrierFree calls) : ∃ requests delta after,
          call :: calls = requests ++ .terminate delta :: after ∧
          (∀ call ∈ requests, call.IsRequest) ∧
            callPackets packetSize requests = some before ∧
              packetsOf (trcTerminate packetSize delta) = [last] := by
        obtain ⟨tail, rfl, rfl⟩ := append_eq_requests hsplit (Call.packets_request hfree.1 hacts) hl
        obtain ⟨requests, delta, after, rfl, hreq, hps, hlast⟩ :=
          ih hfree.2 hpackets fun q hq => hb q (List.mem_append_right _ hq)
        refine ⟨call :: requests, delta, after, rfl, ?_,
          callPackets_cons.mpr ⟨acts, hacts, _, hps, rfl⟩, hlast⟩
        exact List.forall_mem_cons.mpr ⟨hfree.1, hreq⟩
      cases call with
      | terminate delta =>
          obtain rfl := Option.some.inj hacts
          cases before with
          | nil => exact ⟨[], delta, calls, rfl,
                by simp, rfl, congrArg (fun q => [q]) (List.cons.inj hsplit).1⟩
          | cons q before =>
              -- the packet of `trcTerminate` is no request
              have hq := hb q (List.mem_cons_self ..)
              rw [← (List.cons.inj hsplit).1] at hq
              rcases hq with hq | hq <;> cases hq
      | read address size device delta => exact hcall hfree
      | write address data size device delta => exact hcall hfree
      | signal signalID => exact hfree.1.elim
      | wait waitID => exact hfree.1.elim

/-- A host whose calls have no barrier before the first `trcTerminate` has ended only when the
    packet of that call was handled, and then all packets of the calls before it were received. -/
theorem terminated_by_terminate {cfg : Config} {mem : Nat → Nat → UInt8} {calls : List Call}
    (hfree : BarrierFree calls) {packets : List Packet}
    (hpackets : callPackets cfg.packetSize calls = some packets) {s : FedHost}
    (hs : FedHost.Reachable cfg mem packets s) (ht : s.host.1.status = .terminated) :
    ∃ requests delta after, calls = requests ++ .terminate delta :: after ∧
      (∀ call ∈ requests, call.IsRequest) ∧
      ∃ before, callPackets cfg.packetSize requests = some before ∧
        s.received = before ++ packetsOf (trcTerminate cfg.packetSize delta) := by
  obtain ⟨before, last, hreceived, hsplit, hb, hl⟩ := FedHost.received_of_terminated hs ht
  obtain ⟨requests, delta, after, hcalls, hreq, hbefore, hlast⟩ :=
    hfree.split (hsplit ▸ hpackets) hb hl
  exact ⟨requests, delta, after, hcalls, hreq, before, hbefore, by rw [hlast, hreceived]⟩

/-! ## A host that ends at once -/

/-- A first packet that is no request ends the host, whatever else is coming. -/
theorem FedHost.exists_terminated (cfg : Config) (mem : Nat → Nat → UInt8) {packet : Packet}
    (rest : List Packet) (hq : ¬ packet.IsRequest) (hd : packet.delta = 0) :
    ∃ s, Reachable cfg mem (packet :: rest) s ∧ s.host.1.status = .terminated ∧
      s.coming = rest := by
  obtain ⟨r, hrecv, hst⟩ : ∃ r,
      SimWrapper.init.recv 0 ⟨SyncObject.init, 1, LoneHost.load mem⟩ packet = .ok r ∧
        r.1.status = SimWrapper.dispatched packet .running := by
    unfold SimWrapper.recv
    rw [if_pos ⟨rfl, rfl, rfl⟩]
    dsimp only
    rw [if_neg (not_not.mpr hd)]
    exact ⟨_, rfl, (SimWrapper.handlePacket_status packet).1⟩
  have hstep : step cfg mem (init (packet :: rest)) (.step (.recv packet) SyncObject.init 1) =
      .ok ⟨[packet], rest, (r.1, [] ++ r.2)⟩ := by
    simp only [step, LoneHost.step, init, LoneHost.init, SimWrapper.act, hrecv, take, if_pos]
    rfl
  refine ⟨_, .tail .refl trivial hstep, ?_, rfl⟩
  rw [hst, SimWrapper.dispatched, if_neg hq]

theorem terminated_by_terminate_of_one : ∃ s,
    FedHost.Reachable (smallConfig 1 1 2) (fun _ _ => 0) (packetsOf (trcTerminate 4 0)) s ∧
      ∃ requests delta after, [Call.terminate 0] = requests ++ .terminate delta :: after ∧
        (∀ call ∈ requests, call.IsRequest) ∧ ∃ before, callPackets 4 requests = some before ∧
          s.received = before ++ packetsOf (trcTerminate 4 delta) := by
  obtain ⟨s, hs, ht, -⟩ := FedHost.exists_terminated (smallConfig 1 1 2) (fun _ _ => 0) []
    (show ¬ (makePacket 4 .terminated 0 none 0 0 0).IsRequest by rintro (h | h) <;> cases h) rfl
  exact ⟨s, hs, terminated_by_terminate (show BarrierFree [.terminate 0] from trivial) rfl hs ht⟩

/-- The call ends the host, and the write after it is not received. -/
def EndsHost (call : Call) : Prop :=
  ∃ packets s, callPackets 4 [call, .write 16 uintArray 4 0 0] = some packets ∧
    FedHost.Reachable (smallConfig 1 1 2) (fun _ _ => 0) packets s ∧
    s.host.1.status = .terminated ∧ s.coming.map Packet.address = [16]

theorem endsHost_of_barrier {call : Call} {packet : Packet}
    (hc : call.acts 4 = some [.send packet none]) (hq : ¬ packet.IsRequest)
    (hd : packet.delta = 0) : EndsHost call := by
  have hwrite : ∃ packets, callPackets 4 [.write 16 uintArray 4 0 0] = some packets ∧
      packets.map Packet.address = [16] := by
    have h := packetsOf_trcWrite (show 0 < 4 by decide) 16 uintArray 4 0 0
    rw [roundUp_of_dvd (by decide) (by decide) (Nat.dvd_refl 4) (by decide)] at h
    obtain ⟨acts, hacts, hpackets⟩ := Option.map_eq_some_iff.mp h
    refine ⟨_, callPackets_cons.mpr ⟨acts, hacts, [], rfl, rfl⟩, ?_⟩
    rw [List.append_nil, hpackets]
    rfl
  obtain ⟨rest, hrest, haddress⟩ := hwrite
  obtain ⟨s, hs, ht, hcoming⟩ := FedHost.exists_terminated _ _ rest hq hd
  exact ⟨packet :: rest, s, callPackets_cons.mpr ⟨_, hc, rest, hrest, rfl⟩, hs, ht,
    hcoming ▸ haddress⟩

/-- A signal or a wait ends the host, and the write after it is never received. -/
theorem barrier_ends_host : EndsHost (.signal 8) ∧ EndsHost (.wait 8) :=
  ⟨endsHost_of_barrier rfl (by rintro (h | h) <;> cases h) rfl,
    endsHost_of_barrier rfl (by rintro (h | h) <;> cases h) rfl⟩

end TSim4CXL
