/-
  The simulator with its host processes is an instance of the one whose polls return any packet.

  A host process waits for the response to each read it sends, so `recv` never has to refuse a
  packet because of `hostBlocked`. The argument counts: a host has sent at most one read more than
  it has received responses, and if it has, that read is the last packet it sent (`Asking`); the
  backplane has received exactly one read more than it has answered while `hostBlocked` holds
  (`Answering`); and the rings are first in, first out. So while `hostBlocked` holds there is
  nothing left to receive.

  An ack that goes to the wrong host would end another host's wait, so this holds in runs in which
  no two reads of one address are in flight for different hosts (`NoClash`).

  * `hosts_refine`: every such run is a run of `Sys`, and the packets a SIMWrapper got are the first
    ones of its host's calls
  * `responses_stored`: what a host stores are the responses to its reads, each in its place, and
    the backplane never waits for room for a response
-/
import TSim4CXL.Properties.HostLink
import TSim4CXL.Properties.ReadOrder

namespace TSim4CXL

open Transition

namespace Cosim

variable {cfg : Config} {s t : Cosim} {acts : Nat → List HostAct} {h k : Nat}

/-! ## The invariant -/

/-- What the backplane has done for a host: it has answered all reads it received but the one the
    host waits for. -/
structure Answering (cfg : Config) (s : Cosim) (h : Nat) : Prop where
  reads : reads (s.link h).shmem.backReceived =
    (responsesOf h s.sys.log).length + (s.sys.sim h).hostBlocked.toNat
  answers : (s.link h).shmem.backSent ++ (s.link h).shmem.back.sending =
    (responsesOf h s.sys.log).map (responsePacket cfg)
  idle : s.busy ≠ some h → (s.link h).shmem.back = .ready ∨ (s.link h).shmem.connected = false
  polling : (s.link h).shmem.connected = true → (s.link h).shmem.back.receiving = true →
    Polling s.sys h

/-- No stretch lets two reads of one address from different hosts meet. -/
def NoReadClash (cfg : Config) (s : Cosim) : CosimAct → Prop
  | .sys a => Sys.NoClash cfg .read s.sys a
  | _ => True

instance (a : CosimAct) : Decidable (NoReadClash cfg s a) :=
  match a with
  | .sys a => inferInstanceAs (Decidable (Sys.NoClash cfg .read s.sys a))
  | .back _ => isTrue trivial
  | .poll _ => isTrue trivial
  | .host _ => isTrue trivial

structure Inv (cfg : Config) (acts : Nat → List HostAct) (s : Cosim) : Prop where
  sys : Sys.ReachableBy cfg (Sys.NoClash cfg .read) s.sys
  channel : ∀ h, (s.link h).shmem.Preparing ∨ (s.link h).shmem.Linked
  asking : ∀ h, (s.link h).Asking (acts h)
  answering : ∀ h, Answering cfg s h

theorem reads_le_of_prefix {ps qs : List Packet} (hp : ps <+: qs) :
    TSim4CXL.reads ps ≤ TSim4CXL.reads qs :=
  hp.sublist.countP_le

/-- A host has no more than one response coming. -/
theorem Inv.reads_sent_le (hi : Inv cfg acts s) (h : Nat) :
    TSim4CXL.reads (s.link h).shmem.hostSent ≤ (s.link h).shmem.hostReceived.length + 1 := by
  cases (hi.asking h).turn <;> omega

theorem Inv.received_prefix (hi : Inv cfg acts s) (h : Nat) :
    (s.link h).shmem.backReceived <+: (s.link h).shmem.hostSent := by
  rcases hi.channel h with hp | hl
  · exact hp.fifo.back_received
  · exact hl.fifo.back_received

/-- While a host waits it has sent nothing the backplane has not received. -/
theorem Inv.nothing_coming (hi : Inv cfg acts s) (hl : (s.link h).shmem.Linked)
    (hb : (s.sys.sim h).hostBlocked = true) :
    (s.link h).shmem.backReceived = (s.link h).shmem.hostSent := by
  have hreads := (hi.answering h).reads
  have hsent := congrArg List.length (hi.answering h).answers
  have hrec := hl.fifo.host_received.length_le
  have hpre := hi.received_prefix h
  have hle := reads_le_of_prefix hpre
  rw [hb, Bool.toNat_true] at hreads
  rw [List.length_append, List.length_map] at hsent
  cases (hi.asking h).turn with
  | free hfree => omega
  | waits hwait htodo hp hlast hq hpc =>
      -- the last packet sent is a read, so the backplane has it if it has all reads
      rw [hlast] at hpre hwait ⊢
      rcases List.prefix_concat_iff.mp hpre with heq | hpre
      · exact heq
      · have := reads_le_of_prefix hpre
        rw [reads_append, reads_singleton, decide_eq_true hq, Bool.toNat_true] at hwait
        omega

theorem Inv.connected_linked (hi : Inv cfg acts s) (hconn : (s.link h).shmem.connected = true) :
    (s.link h).shmem.Linked := by
  rcases hi.channel h with ⟨_, -, -, hsilent, -⟩ | hl
  · rw [hsilent.1] at hconn
    cases hconn
  · exact hl

/-- A host whose packet was just copied out of its ring does not wait. -/
theorem Inv.not_blocked (hi : Inv cfg acts s) {p : Packet}
    (hpc : (s.link h).shmem.back = .recvStore p) (hconn : (s.link h).shmem.connected = true) :
    (s.sys.sim h).hostBlocked = false := by
  have hl := hi.connected_linked hconn
  by_contra hb
  have hcoming := hl.ib.waiting p (.inr (by simp only [Shmem.ibChannel, hpc, Shmem.readerOf]))
  simp [Shmem.ibChannel, Shmem.first, hconn, hl.greeted_of_connected hconn,
    hi.nothing_coming hl (by simpa using hb)] at hcoming

theorem Answering.keep (ha : Answering cfg s k) (hlink : t.link k = s.link k)
    (hresp : responsesOf k t.sys.log = responsesOf k s.sys.log)
    (hproc : (t.sys.sim k).proc = (s.sys.sim k).proc)
    (hstatus : (t.sys.sim k).status = (s.sys.sim k).status)
    (hblocked : (t.sys.sim k).hostBlocked = (s.sys.sim k).hostBlocked) (hbusy : s.busy ≠ some k) :
      Answering cfg t k where
  reads := by rw [hlink, hresp, hblocked]; exact ha.reads
  answers := by rw [hlink, hresp]; exact ha.answers
  idle _ := by rw [hlink]; exact ha.idle hbusy
  polling hc hr := by
    rw [hlink] at hc hr
    rw [Polling, hproc, hstatus]
    exact ha.polling hc hr

theorem unblock_eq {s : Sys} (hb : (s.sim h).hostBlocked = false) : unblock s h = s := by
  unfold unblock
  rw [← hb, Function.update_eq_self]

/-! ## Steps -/

theorem back_eq_ok (hs : s.back cfg h = .ok t) :
    s.sys.stopped = false ∧ (s.busy = none ∨ s.busy = some h) ∧
    ∃ l, (s.link h).back .go = .ok l ∧ t.link = Function.update s.link h l ∧
      t.busy = (if l.shmem.back.isReady then none else some h) ∧
      ((∃ p, (s.link h).shmem.back = .recvStore p ∧ (s.link h).shmem.connected = true ∧
          Sys.step cfg (unblock s.sys h) (.sim h (.recv p)) = .ok t.sys) ∨
        t.sys = s.sys ∧ ∀ p, (s.link h).shmem.back = .recvStore p →
          (s.link h).shmem.connected = false) := by
  unfold Cosim.back at hs
  split at hs
  · cases hs
  rename_i hstop
  split at hs
  · rename_i hg
    refine ⟨by simpa using hstop, hg.2, ?_⟩
    split at hs
    · cases hs
    · rename_i l hback
      refine ⟨l, hback, ?_⟩
      dsimp only at hs
      split at hs
      · rename_i p hpc hconn
        split at hs
        · cases hs
        · rename_i u hu
          cases hs
          exact ⟨rfl, rfl, .inl ⟨p, hpc, hconn, hu⟩⟩
      · rename_i hno
        cases hs
        refine ⟨rfl, rfl, .inr ⟨rfl, fun p hpc => ?_⟩⟩
        by_contra hconn
        exact hno p hpc (by simpa using hconn)
  · cases hs

/-- The channels and the hosts' acts after a step of the backplane on one ring. -/
theorem Inv.links_back (hi : Inv cfg acts s) {l : HostLink} {m : Shmem.Move}
    (hback : (s.link h).back m = .ok l) (hlink : t.link = Function.update s.link h l) :
    (∀ k, (t.link k).shmem.Preparing ∨ (t.link k).shmem.Linked) ∧
      ∀ k, (t.link k).Asking (acts k) := by
  rw [hlink]
  refine ⟨fun k => ?_, fun k => ?_⟩ <;> by_cases hk : k = h
  · subst hk
    simpa using Shmem.inv_step (a := .back m) (hi.channel k) (HostLink.back_eq_ok hback).1
  · simpa [hk] using hi.channel k
  · subst hk
    simpa using (hi.asking k).back (hi.channel k) hback
  · simpa [hk] using hi.asking k

theorem Inv.back (hi : Inv cfg acts s) (hs : s.back cfg h = .ok t) : Inv cfg acts t := by
  obtain ⟨-, hbusy, l, hback, hlink, hbusy', hcase⟩ := back_eq_ok hs
  obtain ⟨hchannel, hasking⟩ := hi.links_back hback hlink
  have hl : t.link h = l := by rw [hlink, Function.update_self]
  have hother {k : Nat} (hk : k ≠ h) : t.link k = s.link k := by
    rw [hlink, Function.update_of_ne hk]
  have hfree {k : Nat} (hk : k ≠ h) : s.busy ≠ some k := by
    rcases hbusy with hb | hb <;> rw [hb] <;> simp [Ne.symm hk]
  have hidle : t.busy ≠ some h → l.shmem.back = .ready := fun hne => by
    rw [hbusy'] at hne
    cases hpc : l.shmem.back <;> simp_all [ShmemPc.isReady]
  rcases Shmem.backStep_go (hi.channel h) (HostLink.back_eq_ok hback).1 with
    ⟨p, hpc, hconn, hpc', hconn', hrec, hsent⟩ | ⟨hno, hrec, hsent, hpoll⟩
  · -- a packet is received
    have hblocked := hi.not_blocked hpc hconn
    rcases hcase with ⟨p', hpc'', -, hstep⟩ | ⟨-, hno⟩
    · obtain rfl : p' = p := by
        rw [hpc] at hpc''
        injection hpc'' with he
        exact he.symm
      rw [unblock_eq hblocked] at hstep
      have hclash : Sys.NoClash cfg .read s.sys (.sim h (.recv p')) := trivial
      refine ⟨.tail hi.sys hclash hstep, hchannel, hasking, fun k => ?_⟩
      obtain ⟨es, hlog, ⟨b, hact, hturn⟩ | ⟨howner, -, hresp, hproc, hstatus, hblk⟩⟩ :=
        Sys.step_host hstep k
      · cases hact
        obtain ⟨-, hread, hresp⟩ := SimWrapper.recv_blocked hturn
        have ha := hi.answering h
        have hreads := ha.reads
        have hanswers := ha.answers
        rw [hblocked, Bool.toNat_false] at hreads
        rw [hpc] at hanswers
        constructor
        · rw [hl, hrec, reads_append, reads_singleton, hreads, hlog, responsesOf_append,
            hresp, hread, List.append_nil, Nat.add_zero]
        · rw [hl, hsent, hpc', hlog, responsesOf_append, hresp, List.append_nil]
          exact hanswers
        · exact fun _ => .inl (by rw [hl, hpc'])
        · intro _ hr
          rw [hl, hpc'] at hr
          cases hr
      · have hk : k ≠ h := fun hk => howner (by rw [hk]; rfl)
        exact (hi.answering k).keep (hother hk)
          (by rw [hlog, responsesOf_append, hresp, List.append_nil])
          hproc hstatus hblk (hfree hk)
    · rw [hno p hpc] at hconn
      cases hconn
  · -- the call goes on
    rcases hcase with ⟨p, hpc, hconn, -⟩ | ⟨hsys, -⟩
    · rw [hno p hpc] at hconn
      cases hconn
    refine ⟨hsys ▸ hi.sys, hchannel, hasking, fun k => ?_⟩
    by_cases hk : k = h
    · subst hk
      have ha := hi.answering k
      constructor
      · rw [hl, hrec, hsys]
        exact ha.reads
      · rw [hl, hsent, hsys]
        exact ha.answers
      · exact fun hne => .inl (by rw [hl, hidle hne])
      · intro hc hr
        rw [hl] at hc hr
        obtain ⟨hc, hr⟩ := hpoll hc hr
        rw [hsys]
        exact ha.polling hc hr
    · exact (hi.answering k).keep (hother hk) (by rw [hsys]) (by rw [hsys]) (by rw [hsys])
        (by rw [hsys]) (hfree hk)

theorem Inv.poll (hi : Inv cfg acts s) (hs : s.poll cfg h = .ok t) : Inv cfg acts t := by
  unfold Cosim.poll at hs
  split at hs
  · cases hs
  split at hs
  · rename_i hg
    split at hs
    · cases hs
    · rename_i l hback
      cases hs
      obtain ⟨hchannel, hasking⟩ :=
        hi.links_back (t := ⟨s.sys, Function.update s.link h l, some h⟩) hback rfl
      refine ⟨hi.sys, hchannel, hasking, fun k => ?_⟩
      by_cases hk : k = h
      · subst hk
        obtain ⟨hready, hrec, hsent, hconn, hcall⟩ :=
          Shmem.backStep_call (by simp) (HostLink.back_eq_ok hback).1
        have hpc : l.shmem.back = .recvTest := by simpa using hcall
        have ha := hi.answering k
        have hanswers := ha.answers
        rw [hready] at hanswers
        constructor
        · simpa [hrec] using ha.reads
        · simpa [hpc, hsent, ShmemPc.sending] using hanswers
        · exact fun hne => absurd rfl hne
        · exact fun _ _ => hg.2.2
      · exact (hi.answering k).keep (by simp [hk]) rfl rfl rfl rfl (by simp [hg.2.1])
  · cases hs

theorem Inv.host (hi : Inv cfg acts s) (hs : s.host h = .ok t) : Inv cfg acts t := by
  unfold Cosim.host at hs
  split at hs
  · cases hs
  rename_i l hhost
  cases hs
  have hstep := HostLink.host_eq_ok hhost
  obtain ⟨hback, hsent, hrec, hconn⟩ := Shmem.hostStep_back hstep
  have hlinked : (s.link h).shmem.Linked := by
    rcases hi.channel h with ⟨_, -, habsent, -⟩ | hlinked
    · cases hm : (s.link h).move <;> simp [Shmem.hostStep, habsent, hm] at hstep
    · exact hlinked
  refine ⟨hi.sys, fun k => ?_, fun k => ?_, fun k => ?_⟩ <;> by_cases hk : k = h
  · subst hk
    simpa using Shmem.inv_step (a := .host _) (hi.channel k) hstep
  · simpa [hk] using hi.channel k
  · subst hk
    simpa using (hi.asking k).host hlinked hhost
  · simpa [hk] using hi.asking k
  · subst hk
    have ha := hi.answering k
    constructor
    · simpa [hrec] using ha.reads
    · simpa [hback, hsent] using ha.answers
    · simpa [hback, hconn] using ha.idle
    · simpa [hback, hconn] using ha.polling
  · have ha := hi.answering k
    constructor
    · simpa [hk] using ha.reads
    · simpa [hk] using ha.answers
    · simpa [hk] using ha.idle
    · simpa [hk] using ha.polling

/-- A response is made while the host waits, and its ring is free. -/
theorem Inv.respond (hi : Inv cfg acts s) (h0 : 0 < cfg.payloadNum)
    (hN : cfg.payloadNum < 4294967296) {a : Action} {u : Sys} {es : List Event}
    (hclash : Sys.NoClash cfg .read s.sys a) (hstep : Sys.step cfg s.sys a = .ok u)
    (hbusy : s.busy = none) (hlog : u.log = s.sys.log ++ es) (hone : (responsesOf h es).length = 1)
    (hreads : readsOf h es = []) (hproc : (u.sim h).proc = (s.sys.sim h).proc)
    (hfree : (u.sim h).hostBlocked = false) :
    (s.sys.sim h).hostBlocked = true ∧ (s.link h).shmem.back = .ready := by
  have hnow := hi.sys.waits (fun _ _ hn => hn) h0 hN h
  have hnext := Sys.ReachableBy.waits (.tail hi.sys hclash hstep) (fun _ _ hn => hn) h0 hN h
  unfold Sys.Waits at hnow hnext
  rw [hlog, readsOf_append, hreads, List.append_nil, responsesOf_append, List.length_append,
    hone, hproc, hfree, Bool.toNat_false] at hnext
  have hb : (s.sys.sim h).hostBlocked = true := by
    cases hb : (s.sys.sim h).hostBlocked with
    | true => rfl
    | false =>
        rw [hb, Bool.toNat_false] at hnow
        omega
  refine ⟨hb, ?_⟩
  have ha := hi.answering h
  rcases ha.idle (by simp [hbusy]) with hready | hconn
  · exact hready
  · -- before the handshake nothing has been received
    have hnone : (s.link h).shmem.backReceived = [] := by
      rcases hi.channel h with ⟨_, -, -, hsilent, -⟩ | hl
      · exact hsilent.2.2.2.1
      · exact (hl.waiting hconn).2.1
    have := ha.reads
    rw [hnone, hb, reads_nil, Bool.toNat_true] at this
    omega

theorem stretch_eq_ok {a : Action} (hs : s.stretch cfg a = .ok t) :
    s.busy = none ∧ ¬ Polls s.sys a ∧ Sys.step cfg s.sys a = .ok t.sys ∧
      ((∃ h b bytes rest l, a = .sim h b ∧
          responsesOf h (t.sys.log.drop s.sys.log.length) = bytes :: rest ∧
          (s.link h).back (.send (responsePacket cfg bytes)) = .ok l ∧
          t.link = Function.update s.link h l ∧ t.busy = some h) ∨
        (∀ h b, a = .sim h b → responsesOf h (t.sys.log.drop s.sys.log.length) = []) ∧
          t.link = s.link ∧ t.busy = none) := by
  unfold Cosim.stretch at hs
  split at hs
  · rename_i hg
    refine ⟨hg.1, hg.2, ?_⟩
    split at hs
    · cases hs
    · rename_i u hstep
      rw [hstep]
      split at hs
      · rename_i h b
        split at hs
        · rename_i hnone
          cases hs
          refine ⟨rfl, .inr ⟨fun k c hk => ?_, rfl, hg.1⟩⟩
          cases hk
          exact hnone
        · rename_i bytes rest hsome
          split at hs
          · cases hs
          · rename_i l hback
            cases hs
            exact ⟨rfl, .inl ⟨h, b, bytes, rest, l, rfl, hsome, hback, rfl, rfl⟩⟩
      · rename_i hother
        cases hs
        exact ⟨rfl, .inr ⟨fun k c hk => absurd hk (hother k c), rfl, hg.1⟩⟩
  · cases hs

theorem Inv.stretch (hi : Inv cfg acts s) (h0 : 0 < cfg.payloadNum)
    (hN : cfg.payloadNum < 4294967296) {a : Action} (hclash : Sys.NoClash cfg .read s.sys a)
    (hs : s.stretch cfg a = .ok t) : Inv cfg acts t := by
  obtain ⟨hbusy, hpolls, hstep, hcase⟩ := stretch_eq_ok hs
  have hlinks : (∀ k, (t.link k).shmem.Preparing ∨ (t.link k).shmem.Linked) ∧
      ∀ k, (t.link k).Asking (acts k) := by
    rcases hcase with ⟨h, b, bytes, rest, l, -, -, hback, hlink, -⟩ | ⟨-, hlink, -⟩
    · exact hi.links_back hback hlink
    · rw [hlink]
      exact ⟨hi.channel, hi.asking⟩
  refine ⟨.tail hi.sys hclash hstep, hlinks.1, hlinks.2, fun k => ?_⟩
  have ha := hi.answering k
  obtain ⟨es, hlog, ⟨b, rfl, hact⟩ | ⟨howner, -, hresp, hproc, hstatus, hblk⟩⟩ :=
    Sys.step_host hstep k
  · have hnew : responsesOf k (t.sys.log.drop s.sys.log.length) = responsesOf k es := by
      rw [hlog, List.drop_left]
    have hidle := ha.idle (by simp [hbusy])
    rcases SimWrapper.act_blocked (fun p hp => hpolls (by rw [hp]; trivial)) hact with
      ⟨hblk, hresp⟩ | ⟨hone, hreads, hproc, hfree⟩
    · have hlink : t.link = s.link := by
        rcases hcase with ⟨h, c, bytes, rest, l, hsim, hsome, -⟩ | ⟨-, hlink, -⟩
        · cases hsim
          rw [hnew, hresp] at hsome
          cases hsome
        · exact hlink
      constructor
      · rw [hlink, hlog, responsesOf_append, hresp, List.append_nil, hblk]
        exact ha.reads
      · rw [hlink, hlog, responsesOf_append, hresp, List.append_nil]
        exact ha.answers
      · rw [hlink]
        exact fun _ => hidle
      · intro hc hr
        rw [hlink] at hc hr
        rcases hidle with hidle | hidle
        · rw [hidle] at hr
          cases hr
        · rw [hidle] at hc
          cases hc
    · -- the response goes into the ring
      obtain ⟨hb, hready⟩ := hi.respond h0 hN hclash hstep hbusy hlog hone hreads hproc hfree
      rcases hcase with ⟨h, c, bytes, rest, l, hsim, hsome, hback, hlink, hbusy'⟩ | ⟨hnone, -⟩
      · cases hsim
        have hl : t.link k = l := by rw [hlink, Function.update_self]
        obtain ⟨-, hrec, hsent, -, hcall⟩ :=
          Shmem.backStep_call (by simp) (HostLink.back_eq_ok hback).1
        have hpc : l.shmem.back = .sendTest (responsePacket cfg bytes) := by simpa using hcall
        have hbytes : responsesOf k es = [bytes] := by
          rw [hnew] at hsome
          rw [hsome, List.length_cons] at hone
          rw [hsome, List.eq_nil_of_length_eq_zero (l := rest) (by omega)]
        have hreads := ha.reads
        have hanswers := ha.answers
        rw [hb, Bool.toNat_true] at hreads
        rw [hready] at hanswers
        constructor
        · rw [hl, hrec, hreads, hlog, responsesOf_append, List.length_append, hone, hfree]
          rfl
        · rw [hl, hsent, hpc, hlog, responsesOf_append, hbytes, List.map_append, ← hanswers]
          simp [ShmemPc.sending]
        · exact fun hne => absurd hbusy' hne
        · intro _ hr
          rw [hl, hpc] at hr
          cases hr
      · rw [← hnew, hnone k b rfl] at hone
        cases hone
  · refine ha.keep ?_ (by rw [hlog, responsesOf_append, hresp, List.append_nil]) hproc hstatus hblk
      (by simp [hbusy])
    rcases hcase with ⟨h, b, bytes, rest, l, rfl, -, -, hlink, -⟩ | ⟨-, hlink, -⟩
    · have hk : k ≠ h := fun hk => howner (by rw [hk]; rfl)
      rw [hlink, Function.update_of_ne hk]
    · rw [hlink]

theorem inv_init {ib bi : Nat → PacketBuffer} (hp : ∀ h, Paired (acts h)) :
    Inv cfg acts (init cfg ib bi acts) where
  sys := .refl
  channel h :=
    have hstart : Shmem.Reachable (ib h) (bi h) (Shmem.init (ib h) (bi h)) := .refl
    hstart.inv
  asking h := ⟨rfl, rfl, rfl, .free rfl (hp h) rfl fun _ _ hq => absurd hq List.not_mem_nil⟩
  answering h :=
    { reads := rfl
      answers := rfl
      idle := fun _ => .inr rfl
      polling := fun hc => by cases hc }

/-- The states of the runs in which reads of different hosts do not clash, whatever the rings held
    before. -/
def Reachable (cfg : Config) (ib bi : Nat → PacketBuffer) (acts : Nat → List HostAct)
    (s : Cosim) : Prop :=
  Reach (step cfg) (NoReadClash cfg) (init cfg ib bi acts) s

theorem Reachable.inv {ib bi : Nat → PacketBuffer} (hr : Reachable cfg ib bi acts s)
    (h0 : 0 < cfg.payloadNum) (hN : cfg.payloadNum < 4294967296) (hp : ∀ h, Paired (acts h)) :
    Inv cfg acts s := by
  refine Reach.invariant (P := Inv cfg acts) (inv_init hp) (fun s a t _ hok hi hs => ?_) hr
  cases a with
  | back h => exact hi.back hs
  | poll h => exact hi.poll hs
  | sys a => exact hi.stretch h0 hN hok hs
  | host h => exact hi.host hs

/-! ## Nothing is refused -/

theorem recv_ok {env : SimEnv} {w : SimWrapper} {p : Packet} (hproc : w.proc = .loop)
    (hstatus : w.status = .running) (hb : w.hostBlocked = false) :
      ∃ w' es, w.recv h env p = .ok (w', es) := by
  unfold SimWrapper.recv
  rw [if_pos ⟨hproc, hstatus, hb⟩]
  dsimp only
  split <;> exact ⟨_, _, rfl⟩

/-- A packet that was copied out of its ring can be handled. -/
theorem Inv.handled (hi : Inv cfg acts s) (hh : h < cfg.hostNum) (hstop : s.sys.stopped = false)
    {p : Packet} (hpc : (s.link h).shmem.back = .recvStore p)
    (hconn : (s.link h).shmem.connected = true) :
    ∃ t, step cfg s (.back h) = .ok t := by
  have ha := hi.answering h
  have hbusy : s.busy = some h := by
    by_contra hne
    rcases ha.idle hne with hready | hno
    · rw [hpc] at hready
      cases hready
    · rw [hno] at hconn
      cases hconn
  obtain ⟨hproc, hstatus⟩ := ha.polling hconn (by rw [hpc]; rfl)
  have hb := hi.not_blocked hpc hconn
  obtain ⟨w, es, hrecv⟩ : ∃ w es, (s.sys.sim h).recv h s.sys.env p = .ok (w, es) :=
    recv_ok hproc hstatus hb
  obtain ⟨u, hstep⟩ : ∃ u, Sys.step cfg (unblock s.sys h) (.sim h (.recv p)) = .ok u := by
    rw [unblock_eq hb]
    exact ⟨_, Sys.step_eq_ok.mpr ⟨hstop, es, _, .sim hh hrecv, rfl⟩⟩
  obtain ⟨l, hback⟩ : ∃ l, (s.link h).back .go = .ok l := by
    simp only [HostLink.back, Shmem.backStep, hpc, if_pos hconn]
    exact ⟨_, rfl⟩
  show ∃ t, s.back cfg h = .ok t
  unfold Cosim.back
  rw [if_neg (by simp [hstop]), if_pos ⟨hh, .inr hbusy⟩, hback]
  simp only [hpc, hconn, hstep]
  exact ⟨_, rfl⟩

/-- A response finds its ring free. -/
theorem Inv.answered (hi : Inv cfg acts s) (h0 : 0 < cfg.payloadNum)
    (hN : cfg.payloadNum < 4294967296) {a : Action} {u : Sys} (hbusy : s.busy = none)
    (hpolls : ¬ Polls s.sys a) (hclash : Sys.NoClash cfg .read s.sys a)
    (hstep : Sys.step cfg s.sys a = .ok u) :
    ∃ t, step cfg s (.sys a) = .ok t ∧ t.sys = u := by
  show ∃ t, s.stretch cfg a = .ok t ∧ t.sys = u
  unfold Cosim.stretch
  rw [if_pos ⟨hbusy, hpolls⟩, hstep]
  dsimp only
  split
  · rename_i h b
    split
    · exact ⟨_, rfl, rfl⟩
    · rename_i bytes rest hsome
      obtain ⟨es, hlog, ⟨c, hc, hact⟩ | ⟨howner, -⟩⟩ := Sys.step_host hstep h
      · cases hc
        rw [hlog, List.drop_left] at hsome
        rcases SimWrapper.act_blocked (fun p hp => hpolls (by rw [hp]; trivial)) hact with
          ⟨-, hresp⟩ | ⟨hone, hreads, hproc, hfree⟩
        · rw [hresp] at hsome
          cases hsome
        · have hready := (hi.respond h0 hN hclash hstep hbusy hlog hone hreads hproc hfree).2
          simp only [HostLink.back, Shmem.backStep, hready]
          exact ⟨_, rfl, rfl⟩
      · exact absurd rfl howner
  · exact ⟨_, rfl, rfl⟩

/-- There is no more than one response on its way, so there is room for it. -/
theorem Inv.responses_le (hi : Inv cfg acts s) (h : Nat) :
    (responsesOf h s.sys.log).length ≤ (s.link h).shmem.hostReceived.length + 1 := by
  have hreads := (hi.answering h).reads
  have hle := reads_le_of_prefix (hi.received_prefix h)
  have := hi.reads_sent_le h
  omega

theorem Inv.room (hi : Inv cfg acts s) {p : Packet} (hpc : (s.link h).shmem.back = .sendTest p) :
    pbIsFull (s.link h).shmem.bi = false := by
  rcases hi.channel h with ⟨_, hp, -⟩ | hl
  · rw [hpc] at hp
    cases hp
  · have hlen := congrArg List.length (hi.answering h).answers
    have hle := hi.responses_le h
    rw [hpc, List.length_append, List.length_map] at hlen
    simp only [ShmemPc.sending, List.length_singleton] at hlen
    rw [Bool.eq_false_iff]
    intro hf
    have := hl.bi.isFull_iff.mp hf
    simp only [Shmem.biChannel, pktBufferSize] at this
    omega

/-! ## Main results -/

/-- The simulator runs as if its polls returned any packets: each SIMWrapper gets the first packets
    of the calls of its host, what is received can be handled, and the response to a read finds the
    ring free. -/
structure Fed (cfg : Config) (acts : Nat → List HostAct) (s : Cosim) : Prop where
  refines : Sys.ReachableBy cfg (Sys.NoClash cfg .read) s.sys
  received : ∀ h, (s.link h).shmem.backReceived <+: packetsOf (acts h)
  handled : ∀ h < cfg.hostNum, ∀ p, s.sys.stopped = false → (s.link h).shmem.back = .recvStore p →
    (s.link h).shmem.connected = true → ∃ t, step cfg s (.back h) = .ok t
  answered : ∀ a u, s.busy = none → ¬ Polls s.sys a → Sys.NoClash cfg .read s.sys a →
    Sys.step cfg s.sys a = .ok u → ∃ t, step cfg s (.sys a) = .ok t ∧ t.sys = u

/-- Every run of the simulator with its host processes is a run of `Sys`, fed with their calls. -/
theorem hosts_refine {packetSize : Nat} {calls : Nat → List Call} {ib bi : Nat → PacketBuffer}
    (hcalls : ∀ h, callActs packetSize (calls h) = some (acts h)) (h0 : 0 < cfg.payloadNum)
    (hN : cfg.payloadNum < 4294967296) (hr : Reachable cfg ib bi acts s) : Fed cfg acts s where
  refines := (hr.inv h0 hN fun h => paired_of_callActs (hcalls h)).sys
  received h := by
    have hi := hr.inv h0 hN fun h => paired_of_callActs (hcalls h)
    rw [← (hi.asking h).packets]
    exact (hi.received_prefix h).trans (List.prefix_append ..)
  handled h hh p hstop hpc hconn :=
    (hr.inv h0 hN fun h => paired_of_callActs (hcalls h)).handled hh hstop hpc hconn
  answered a u hbusy hpolls hclash hstep :=
    (hr.inv h0 hN fun h => paired_of_callActs (hcalls h)).answered h0 hN hbusy hpolls hclash hstep

/-- One host writes a packet, reads it back and ends. -/
def threeCalls : List Call :=
  [.write 8 (fun k => UInt8.ofNat (k + 1)) 8 0 0, .read 8 8 0 0, .terminate 0]

def threeActs : List HostAct :=
  [writeRequest 8 8 (fun k => UInt8.ofNat (k + 1)) 0 8 0 0, readRequest 8 8 8 0 0, .store ⟨0, 0, 8⟩,
    terminateRequest 8 0]

theorem callActs_threeCalls : callActs 8 threeCalls = some threeActs := by
  have hround : roundUp 8 8 = some 8 :=
    roundUp_of_dvd (by decide) (by decide) (by decide) (by decide)
  simp only [threeCalls, callActs, Call.acts, trcWrite, trcRead, hround, Option.map_some]
  rfl

/-- The connection is set up over rings full of rubbish; then the host, the rings and the simulator
    take turns `n` times. -/
def threeCallsRun (n : Nat) : Cosim :=
  runSkip (step (smallConfig 1 1 4)) (NoReadClash (smallConfig 1 1 4))
    (init (smallConfig 1 1 4) (fun _ => ⟨5, 3, fun _ => .zero⟩) (fun _ => ⟨1, 0, fun _ => .zero⟩)
      fun _ => threeActs)
    ((List.replicate 30 [CosimAct.host 0, .back 0]).flatten ++
      (List.replicate n ([.host 0, .poll 0, .back 0, .back 0, .back 0] ++
        (round (smallConfig 1 1 4)).map CosimAct.sys)).flatten)

theorem threeCallsRun_reachable (n : Nat) :
    Reachable (smallConfig 1 1 4) (fun _ => ⟨5, 3, fun _ => .zero⟩)
      (fun _ => ⟨1, 0, fun _ => .zero⟩) (fun _ => threeActs) (threeCallsRun n) :=
  reach_runSkip _ _

theorem hosts_refine_of_threeCalls : Fed (smallConfig 1 1 4) (fun _ => threeActs)
    (threeCallsRun 5) ∧
    ((threeCallsRun 5).link 0).shmem.backReceived.length = 2 :=
  ⟨hosts_refine (fun _ => callActs_threeCalls) (by decide) (by decide) (threeCallsRun_reachable 5),
    by decide +kernel⟩

/-- What a host has stored are the first responses to its reads, each with the copy its read asked
    for. At most one more is on its way, and there is room for it when it is sent. -/
structure Stored (cfg : Config) (acts : List HostAct) (s : Cosim) (h : Nat) : Prop where
  copies : (s.link h).stored.map Prod.fst <+: copiesOf acts
  responses : (s.link h).stored.map Prod.snd <+: (responsesOf h s.sys.log).map (responsePacket cfg)
  coming : (responsesOf h s.sys.log).length ≤ (s.link h).stored.length + 1
  room : ∀ p, (s.link h).shmem.back = .sendTest p → pbIsFull (s.link h).shmem.bi = false

/-- Each host gets the responses to its reads, one by one and each in its place. -/
theorem responses_stored {packetSize : Nat} {calls : Nat → List Call} {ib bi : Nat → PacketBuffer}
    (hcalls : ∀ h, callActs packetSize (calls h) = some (acts h)) (h0 : 0 < cfg.payloadNum)
    (hN : cfg.payloadNum < 4294967296) (hr : Reachable cfg ib bi acts s) (h : Nat) :
    Stored cfg (acts h) s h := by
  have hi := hr.inv h0 hN fun h => paired_of_callActs (hcalls h)
  have ha := hi.asking h
  have hpre : (s.link h).shmem.hostReceived <+: (s.link h).shmem.backSent := by
    rcases hi.channel h with hp | hl
    · exact hp.fifo.host_received
    · exact hl.fifo.host_received
  refine ⟨?_, ?_, ?_, fun p hpc => hi.room hpc⟩
  · rw [← ha.copies]
    exact List.prefix_append ..
  · rw [ha.stored, ← (hi.answering h).answers]
    exact hpre.trans (List.prefix_append ..)
  · rw [← List.length_map Prod.snd, ha.stored]
    exact hi.responses_le h

theorem responses_stored_of_threeCalls : Stored (smallConfig 1 1 4) threeActs (threeCallsRun 40) 0 ∧
    ((threeCallsRun 40).link 0).stored.map (fun x => (x.1, x.2.data.take 8)) =
      [(⟨0, 0, 8⟩, [1, 2, 3, 4, 5, 6, 7, 8])] :=
  ⟨responses_stored (fun _ => callActs_threeCalls) (by decide) (by decide)
    (threeCallsRun_reachable 40) 0,
    by decide +kernel⟩

end Cosim

end TSim4CXL
