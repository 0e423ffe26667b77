/-
  The shared-memory channel is an exactly-once FIFO, from the set-up of the connection on.

  Each ring is a `RingBuffer.Channel` whose parties are the two processes (`ibChannel`,
  `biChannel`). While the backplane prepares, the host is not there yet; while the host prepares,
  it only stores zeros to indices that are zero, because the backplane has nothing to read and
  sends nothing before the handshake (`Linked`). `channel_fifo` reads the invariant of the
  channels off.
-/
import TSim4CXL.Model.Shmem
import TSim4CXL.Lib.Transition

namespace TSim4CXL

open Transition

namespace Shmem

variable {s t : Shmem}

/-! ## The two channels -/

def writerOf : ShmemPc → RingBuffer.Writer Packet
  | .sendCopy p => .put p
  | .sendStore p => .publish p
  | _ => .idle

def readerOf : ShmemPc → RingBuffer.Reader Packet
  | .recvCopy => .peek
  | .recvStore p => .advance p
  | _ => .idle

/-- The handshake, once the flag is set. -/
def first (flag : Bool) : List Packet := if flag then [.handshake] else []

def ibChannel (s : Shmem) : RingBuffer.Channel Packet :=
  ⟨s.ib, writerOf s.host, readerOf s.back, first s.greeted ++ s.hostSent,
    first s.connected ++ s.backReceived⟩

def biChannel (s : Shmem) : RingBuffer.Channel Packet :=
  ⟨s.bi, writerOf s.back, readerOf s.host, s.backSent, s.hostReceived⟩

/-! ## The invariant -/

/-- All indices are zero. -/
def Cleared (s : Shmem) : Prop :=
  s.ib.start = 0 ∧ s.ib.stop = 0 ∧ s.bi.start = 0 ∧ s.bi.stop = 0

/-- Nothing has been sent or received. -/
def Silent (s : Shmem) : Prop :=
  s.connected = false ∧ s.greeted = false ∧ s.hostSent = [] ∧ s.backReceived = [] ∧
    s.backSent = [] ∧ s.hostReceived = []

/-- Before `fork`: once the stores to go are done, the rings are clear. -/
def Preparing (s : Shmem) : Prop :=
  ∃ todo, s.back = .prepare todo ∧ s.host = .absent ∧ s.Silent ∧ (todo.foldl clear s).Cleared

/-- The places of a host that has not sent the handshake. -/
def Greeting : ShmemPc → Prop
  | .prepare _ => True
  | .sendTest p => p = .handshake
  | .sendCopy p => p = .handshake
  | .sendStore p => p = .handshake
  | _ => False

/-- The places of a backplane in `wait_connection`. -/
def Waiting : ShmemPc → Prop
  | .recvTest => True
  | .recvCopy => True
  | .recvStore _ => True
  | _ => False

/-- From `fork` on. -/
structure Linked (s : Shmem) : Prop where
  ib : s.ibChannel.Inv pktBufferSize
  bi : s.biChannel.Inv pktBufferSize
  greeting : s.greeted = false → Greeting s.host ∧ s.hostSent = []
  waiting : s.connected = false → Waiting s.back ∧ s.backReceived = [] ∧ s.backSent = []
  hostPc : s.host ≠ .absent ∧ ∀ todo, s.host = .prepare todo → s.greeted = false
  backPc : s.back ≠ .absent ∧ ∀ todo, s.back ≠ .prepare todo

theorem pktBufferSize_pos : 0 < pktBufferSize := by decide

/-- Rings that are clear, with nothing sent or received, are channels nobody has used. -/
theorem channels_of_clear (hc : s.Cleared) (hs : s.Silent) (hback : readerOf s.back = .idle)
    (hback' : writerOf s.back = .idle) (hhost : writerOf s.host = .idle)
    (hhost' : readerOf s.host = .idle) :
    s.ibChannel.Inv pktBufferSize ∧ s.biChannel.Inv pktBufferSize := by
  obtain ⟨⟨i1, i2, ie⟩, ⟨b1, b2, be⟩, back, host, c, g, hs1, br, bs, hr⟩ := s
  obtain ⟨rfl, rfl, rfl, rfl⟩ := hc
  obtain ⟨rfl, rfl, rfl, rfl, rfl, rfl⟩ := hs
  simp only [ibChannel, biChannel, first] at *
  rw [hback, hback', hhost, hhost']
  exact ⟨.init pktBufferSize_pos, .init pktBufferSize_pos⟩

theorem clear_frame (s : Shmem) (c : Side × ClearStore) :
    (s.clear c).back = s.back ∧ (s.clear c).host = s.host ∧
      ((s.clear c).Silent ↔ s.Silent) := by
  obtain ⟨_ | _, c⟩ := c <;> exact ⟨rfl, rfl, Iff.rfl⟩

theorem cleared_clear (hs : s.Cleared) (c : Side × ClearStore) : (s.clear c).Cleared := by
  obtain ⟨h1, h2, h3, h4⟩ := hs
  obtain ⟨_ | _, _ | _ | _⟩ := c
  · exact ⟨rfl, h2, h3, h4⟩
  · exact ⟨h1, rfl, h3, h4⟩
  · exact ⟨h1, h2, h3, h4⟩
  · exact ⟨h1, h2, rfl, h4⟩
  · exact ⟨h1, h2, h3, rfl⟩
  · exact ⟨h1, h2, h3, h4⟩

theorem writerOf_of_waiting {pc : ShmemPc} (h : Waiting pc) : writerOf pc = .idle := by
  cases pc <;> simp_all [Waiting, writerOf]

/-- Up to the handshake both rings are clear and nobody reads. -/
theorem Linked.before_greeting (hl : s.Linked) (hg : s.greeted = false) :
    s.Silent ∧ s.Cleared ∧ readerOf s.back = .idle ∧ writerOf s.back = .idle := by
  obtain ⟨-, hsent⟩ := hl.greeting hg
  have hib : s.ibChannel.sent = [] := by simp [ibChannel, first, hg, hsent]
  have hrec : s.ibChannel.received = [] := List.prefix_nil.mp (hib ▸ hl.ib.received_prefix)
  obtain ⟨hc, hback⟩ : s.connected = false ∧ s.backReceived = [] := by
    simp only [ibChannel, first, List.append_eq_nil_iff] at hrec
    exact ⟨by by_contra h; simp [h] at hrec, hrec.2⟩
  obtain ⟨hwait, -, hbs⟩ := hl.waiting hc
  have hhr : s.hostReceived = [] := by
    have : s.biChannel.received <+: s.biChannel.sent := hl.bi.received_prefix
    simp only [biChannel, hbs] at this
    exact List.prefix_nil.mp this
  refine ⟨⟨hc, hg, hsent, hback, hbs, hhr⟩, ⟨?_, ?_, ?_, ?_⟩, ?_, writerOf_of_waiting hwait⟩
  · simpa [ibChannel, hrec, hc, hback, first] using hl.ib.start_eq
  · simpa [ibChannel, hib, hg, hsent, first] using hl.ib.stop_eq
  · simpa [biChannel, hhr] using hl.bi.start_eq
  · simpa [biChannel, hbs] using hl.bi.stop_eq
  · -- a reader past its test has found something
    have hno (x : Packet) : ¬ (s.ibChannel.reader = .peek ∨ s.ibChannel.reader = .advance x) :=
      fun h => by
      have := hl.ib.waiting x h
      rw [hib] at this
      cases this
    cases hr : readerOf s.back with
    | idle => rfl
    | peek => exact absurd (.inl hr) (hno .zero)
    | advance x => exact absurd (.inr hr) (hno x)

/-! ## Steps -/

theorem backStep_preparing {m : Move} (hp : s.Preparing) (hs : s.backStep m = .ok t) :
    t.Preparing ∨ t.Linked := by
  obtain ⟨todo, hback, hhost, hsilent, hclear⟩ := hp
  cases m with
  | send p => simp [backStep, hback] at hs
  | recv => simp [backStep, hback] at hs
  | go =>
      cases todo with
      | cons c todo =>
          simp only [backStep, hback, Except.ok.injEq] at hs
          subst hs
          obtain ⟨-, hh, hsil⟩ := clear_frame s c
          refine .inl ⟨todo, rfl, hh.trans hhost, hsil.mpr hsilent, ?_⟩
          have hfold (l : List (Side × ClearStore)) (u : Shmem) (pc : ShmemPc) :
              (l.foldl clear { u with back := pc }).Cleared ↔ (l.foldl clear u).Cleared := by
            induction l generalizing u with
            | nil => exact Iff.rfl
            | cons x l ih =>
                obtain ⟨_ | _, x⟩ := x
                · exact ih { u with ib := x.apply u.ib }
                · exact ih { u with bi := x.apply u.bi }
          exact (hfold todo (s.clear c) _).mpr hclear
      | nil =>
          simp only [backStep, hback, Except.ok.injEq] at hs
          subst hs
          obtain ⟨hib, hbi⟩ :=
            channels_of_clear (s := { s with back := .recvTest, host := .prepare hostPrepare })
            hclear hsilent rfl rfl rfl rfl
          obtain ⟨hc, hg, hhs, hbr, hbs, -⟩ := hsilent
          exact .inr
            { ib := hib
              bi := hbi
              greeting := fun _ => ⟨trivial, hhs⟩
              waiting := fun _ => ⟨trivial, hbr, hbs⟩
              hostPc := ⟨by simp, fun _ _ => hg⟩
              backPc := ⟨by simp, by simp⟩ }

/-- A backplane that is not in `wait_connection` is connected. -/
theorem Linked.connected_of (hl : s.Linked) (hback : ¬ Waiting s.back) : s.connected = true := by
  by_contra h
  exact hback (hl.waiting (by simpa using h)).1

theorem Linked.greeted_of (hl : s.Linked) (hhost : ¬ Greeting s.host) : s.greeted = true := by
  by_contra h
  exact hhost (hl.greeting (by simpa using h)).1

/-- Starting a call, or testing again. -/
theorem Linked.back_test (hl : s.Linked) {pc : ShmemPc} (hw : writerOf pc = .idle)
    (hr : readerOf pc = .idle) (hpc : pc ≠ .absent ∧ ∀ todo, pc ≠ .prepare todo)
    (hwait : s.connected = false → Waiting pc) : Linked { s with back := pc } where
  ib := by simpa only [ibChannel, hr] using hl.ib.readIdle
  bi := by simpa only [biChannel, hw] using hl.bi.writeIdle
  greeting := hl.greeting
  waiting h := ⟨hwait h, (hl.waiting h).2⟩
  hostPc := hl.hostPc
  backPc := hpc

theorem Linked.host_test (hl : s.Linked) {pc : ShmemPc} (hw : writerOf pc = .idle)
    (hr : readerOf pc = .idle) (hpc : pc ≠ .absent ∧ ∀ todo, pc = .prepare todo → s.greeted = false)
    (hgreet : s.greeted = false → Greeting pc) : Linked { s with host := pc } where
  ib := by simpa only [ibChannel, hw] using hl.ib.writeIdle
  bi := by simpa only [biChannel, hr] using hl.bi.readIdle
  greeting h := ⟨hgreet h, (hl.greeting h).2⟩
  waiting := hl.waiting
  hostPc := hpc
  backPc := hl.backPc

/-- Before it is connected the backplane can only have found the handshake. -/
theorem Linked.handshake_of (hl : s.Linked) (hc : s.connected = false) {p : Packet}
    (hb : s.back = .recvStore p) : p = .handshake := by
  have hcopied := hl.ib.copied p (by simp only [ibChannel, hb, readerOf])
  simp only [ibChannel, hc, (hl.waiting hc).2.1, first] at hcopied
  by_cases hg : s.greeted = true
  · simpa [hg, eq_comm] using hcopied
  · rw [(hl.greeting (by simpa using hg)).2] at hcopied
    simp [hg] at hcopied

/-- The store that ends a receive, of a packet or of the handshake. -/
theorem Linked.back_advance (hl : s.Linked) {p : Packet} (hb : s.back = .recvStore p)
    (hs : s.backStep .go = .ok t) : t.Linked := by
  have hread := hl.ib.readAdvance (x := p) (by simp only [ibChannel, hb, readerOf])
  have hbi := hl.bi.writeIdle
  by_cases hc : s.connected = true
  · simp only [backStep, hb, if_pos hc, Except.ok.injEq] at hs
    subst hs
    refine ⟨?_, by simpa only [biChannel, writerOf] using hbi, hl.greeting,
      (fun h => by rw [hc] at h; cases h), hl.hostPc, by simp⟩
    simpa only [ibChannel, readerOf, pbReadStore, List.append_assoc] using hread
  · simp only [backStep, hb, if_neg hc, Except.ok.injEq] at hs
    subst hs
    have hcf : s.connected = false := by simpa using hc
    refine ⟨?_, by simpa only [biChannel, writerOf] using hbi, hl.greeting,
      (fun h => by cases h), hl.hostPc, by simp⟩
    simpa [ibChannel, readerOf, pbReadStore, hcf, (hl.waiting hcf).2.1, first,
      hl.handshake_of hcf hb] using hread

theorem backStep_linked {m : Move} (hl : s.Linked) (hs : s.backStep m = .ok t) : t.Linked := by
  have hconn (h : ¬ Waiting s.back) {P : Prop} (hc : s.connected = false) : P := by
    rw [hl.connected_of h] at hc
    cases hc
  cases m with
  | send _ | recv =>
      cases hb : s.back with
      | ready =>
          simp only [backStep, hb, Except.ok.injEq] at hs
          subst hs
          exact hl.back_test rfl rfl (by simp) (hconn (by simp [hb, Waiting]))
      | _ => simp [backStep, hb] at hs
  | go =>
      cases hb : s.back with
      | absent => simp [backStep, hb] at hs
      | ready => simp [backStep, hb] at hs
      | prepare todo => exact absurd hb (hl.backPc.2 todo)
      | sendTest p =>
          simp only [backStep, hb, Except.ok.injEq] at hs
          subst hs
          by_cases hf : pbIsFull s.bi = true
          · rw [if_pos hf]
            exact hl.back_test rfl rfl (by simp) (hconn (by simp [hb, Waiting]))
          · rw [if_neg hf]
            refine ⟨?_, hl.bi.writeTest (Bool.eq_false_iff.mpr hf) p, hl.greeting,
              hconn (by simp [hb, Waiting]), hl.hostPc, by simp⟩
            simpa only [ibChannel, readerOf] using hl.ib.readIdle
      | sendCopy p =>
          simp only [backStep, hb, Except.ok.injEq] at hs
          subst hs
          refine ⟨?_, hl.bi.writePut (by simp only [biChannel, hb, writerOf]), hl.greeting,
            hconn (by simp [hb, Waiting]), hl.hostPc, by simp⟩
          simpa only [ibChannel, readerOf] using hl.ib.readIdle
      | sendStore p =>
          simp only [backStep, hb, Except.ok.injEq] at hs
          subst hs
          refine ⟨?_, hl.bi.writePublish (by simp only [biChannel, hb, writerOf]), hl.greeting,
            hconn (by simp [hb, Waiting]), hl.hostPc, by simp⟩
          simpa only [ibChannel, readerOf] using hl.ib.readIdle
      | recvTest =>
          simp only [backStep, hb] at hs
          split at hs
          · cases hs
            by_cases hc : s.connected = true
            · rw [if_pos hc]
              exact hl.back_test rfl rfl (by simp) (fun h => by rw [hc] at h; cases h)
            · rw [if_neg hc]
              exact hl.back_test rfl rfl (by simp) (fun _ => trivial)
          · rename_i he
            cases hs
            refine ⟨hl.ib.readTest (Bool.eq_false_iff.mpr he), ?_, hl.greeting,
              fun h => ⟨trivial, (hl.waiting h).2⟩, hl.hostPc, by simp⟩
            simpa only [biChannel, writerOf] using hl.bi.writeIdle
      | recvCopy =>
          simp only [backStep, hb, Except.ok.injEq] at hs
          subst hs
          refine ⟨hl.ib.readPeek (by simp only [ibChannel, hb, readerOf]), ?_, hl.greeting,
            fun h => ⟨trivial, (hl.waiting h).2⟩, hl.hostPc, by simp⟩
          simpa only [biChannel, writerOf] using hl.bi.writeIdle
      | recvStore p => exact hl.back_advance hb hs

/-- The zeros of the host go where zeros are. -/
theorem Linked.host_clear (hl : s.Linked) {c : Side × ClearStore} {todo : List (Side × ClearStore)}
    (hh : s.host = .prepare (c :: todo)) : Linked { s.clear c with host := .prepare todo } := by
  obtain ⟨hsilent, hclear, hr, hw⟩ := hl.before_greeting (hl.hostPc.2 _ hh)
  obtain ⟨hback, -, hsil⟩ := clear_frame s c
  have hs := hsil.mpr hsilent
  obtain ⟨hib, hbi⟩ := channels_of_clear (s := { s.clear c with host := .prepare todo })
    (cleared_clear hclear c) hs (hback ▸ hr) (hback ▸ hw) rfl rfl
  exact
    { ib := hib
      bi := hbi
      greeting := fun _ => ⟨trivial, hs.2.2.1⟩
      waiting := fun _ => ⟨hback ▸ (hl.waiting hsilent.1).1, hs.2.2.2.1, hs.2.2.2.2.1⟩
      hostPc := ⟨by simp, fun _ _ => hs.2.1⟩
      backPc := hback ▸ hl.backPc }

/-- The store that ends a send, of the handshake or of a packet. -/
theorem Linked.host_publish (hl : s.Linked) {p : Packet} (hh : s.host = .sendStore p)
    (hs : s.hostStep .go = .ok t) : t.Linked := by
  have hwrite := hl.ib.writePublish (x := p) (by simp only [ibChannel, hh, writerOf])
  have hbi := hl.bi.readIdle
  by_cases hg : s.greeted = true
  · simp only [hostStep, hh, if_pos hg, Except.ok.injEq] at hs
    subst hs
    refine ⟨?_, by simpa only [biChannel, readerOf] using hbi,
      (fun h => by rw [hg] at h; cases h), hl.waiting, by simp, hl.backPc⟩
    simpa only [ibChannel, writerOf, pbWriteStore, List.append_assoc] using hwrite
  · -- the first packet sent is the handshake
    simp only [hostStep, hh, if_neg hg, Except.ok.injEq] at hs
    subst hs
    have hgf : s.greeted = false := by simpa using hg
    obtain ⟨hp, hsent⟩ := hl.greeting hgf
    rw [hh] at hp
    obtain rfl : p = .handshake := hp
    refine ⟨?_, by simpa only [biChannel, readerOf] using hbi, (fun h => by cases h),
      hl.waiting, by simp, hl.backPc⟩
    simpa [ibChannel, writerOf, pbWriteStore, hgf, hsent, first] using hwrite

theorem hostStep_linked {m : Move} (hl : s.Linked) (hs : s.hostStep m = .ok t) : t.Linked := by
  have hgreet (h : ¬ Greeting s.host) {P : Prop} (hc : s.greeted = false) : P := by
    rw [hl.greeted_of h] at hc
    cases hc
  cases m with
  | send _ | recv =>
      cases hh : s.host with
      | ready =>
          simp only [hostStep, hh, Except.ok.injEq] at hs
          subst hs
          exact hl.host_test rfl rfl (by simp) (hgreet (by simp [hh, Greeting]))
      | _ => simp [hostStep, hh] at hs
  | go =>
      cases hh : s.host with
      | absent => simp [hostStep, hh] at hs
      | ready => simp [hostStep, hh] at hs
      | prepare todo =>
          cases todo with
          | nil =>
              simp only [hostStep, hh, Except.ok.injEq] at hs
              subst hs
              exact hl.host_test rfl rfl (by simp) (fun _ => rfl)
          | cons c todo =>
              simp only [hostStep, hh, Except.ok.injEq] at hs
              subst hs
              exact hl.host_clear hh
      | sendTest p =>
          have hp (h : s.greeted = false) : p = .handshake := by
            have := (hl.greeting h).1
            rwa [hh] at this
          simp only [hostStep, hh, Except.ok.injEq] at hs
          subst hs
          by_cases hf : pbIsFull s.ib = true
          · rw [if_pos hf]
            exact hl.host_test rfl rfl (by simp) hp
          · rw [if_neg hf]
            refine ⟨hl.ib.writeTest (Bool.eq_false_iff.mpr hf) p, ?_,
              fun h => ⟨hp h, (hl.greeting h).2⟩, hl.waiting, by simp, hl.backPc⟩
            simpa only [biChannel, readerOf] using hl.bi.readIdle
      | sendCopy p =>
          have hp (h : s.greeted = false) : p = .handshake := by
            have := (hl.greeting h).1
            rwa [hh] at this
          simp only [hostStep, hh, Except.ok.injEq] at hs
          subst hs
          refine ⟨hl.ib.writePut (by simp only [ibChannel, hh, writerOf]), ?_,
            fun h => ⟨hp h, (hl.greeting h).2⟩, hl.waiting, by simp, hl.backPc⟩
          simpa only [biChannel, readerOf] using hl.bi.readIdle
      | sendStore p => exact hl.host_publish hh hs
      | recvTest =>
          simp only [hostStep, hh, Except.ok.injEq] at hs
          subst hs
          by_cases he : pbIsEmpty s.bi = true
          · rw [if_pos he]
            exact hl.host_test rfl rfl (by simp) (hgreet (by simp [hh, Greeting]))
          · rw [if_neg he]
            refine ⟨?_, hl.bi.readTest (Bool.eq_false_iff.mpr he), hgreet (by simp [hh, Greeting]),
              hl.waiting, by simp, hl.backPc⟩
            simpa only [ibChannel, writerOf] using hl.ib.writeIdle
      | recvCopy =>
          simp only [hostStep, hh, Except.ok.injEq] at hs
          subst hs
          refine ⟨?_, hl.bi.readPeek (by simp only [biChannel, hh, readerOf]),
            hgreet (by simp [hh, Greeting]), hl.waiting, by simp, hl.backPc⟩
          simpa only [ibChannel, writerOf] using hl.ib.writeIdle
      | recvStore p =>
          simp only [hostStep, hh, Except.ok.injEq] at hs
          subst hs
          refine ⟨?_, hl.bi.readAdvance (by simp only [biChannel, hh, readerOf]),
            hgreet (by simp [hh, Greeting]), hl.waiting, by simp, hl.backPc⟩
          simpa only [ibChannel, writerOf] using hl.ib.writeIdle

theorem inv_step {a : Act} (h : s.Preparing ∨ s.Linked) (hs : s.step a = .ok t) :
    t.Preparing ∨ t.Linked := by
  cases a with
  | back m =>
      rcases h with hp | hl
      · exact backStep_preparing hp hs
      · exact .inr (backStep_linked hl hs)
  | host m =>
      rcases h with ⟨-, -, hhost, -⟩ | hl
      · cases m <;> simp [step, hostStep, hhost] at hs
      · exact .inr (hostStep_linked hl hs)

/-- The states of all runs, whatever the rings held before. -/
def Reachable (ib bi : PacketBuffer) (s : Shmem) : Prop := Reach step anyStep (init ib bi) s

theorem Reachable.inv {ib bi : PacketBuffer} (hr : Reachable ib bi s) : s.Preparing ∨ s.Linked := by
  refine Reach.invariant (P := fun s => s.Preparing ∨ s.Linked) (.inl ?_)
    (fun _ _ _ _ _ h hs => inv_step h hs) hr
  exact ⟨backPrepare, rfl, rfl, ⟨rfl, rfl, rfl, rfl, rfl, rfl⟩, rfl, rfl, rfl, rfl⟩

/-! ## First in, first out -/

/-- What both processes can rely on: what is received is a prefix of what was sent, the rings hold
    the rest, nobody reads an empty ring or writes to a full one. -/
structure Fifo (s : Shmem) : Prop where
  back_received : s.backReceived <+: s.hostSent
  host_received : s.hostReceived <+: s.backSent
  ib_unread : s.connected = true → s.ib.unread pktBufferSize = s.hostSent.drop s.backReceived.length
  ib_handshake : s.greeted = true → s.connected = false →
    s.ib.unread pktBufferSize = .handshake :: s.hostSent
  bi_unread : s.host ≠ .absent → s.bi.unread pktBufferSize = s.backSent.drop s.hostReceived.length
  back_reads : ∀ p, s.back = .recvCopy ∨ s.back = .recvStore p → pbIsEmpty s.ib = false
  host_reads : ∀ p, s.host = .recvCopy ∨ s.host = .recvStore p → pbIsEmpty s.bi = false
  back_writes : ∀ p, s.back = .sendCopy p ∨ s.back = .sendStore p → pbIsFull s.bi = false
  host_writes : ∀ p, s.host = .sendCopy p ∨ s.host = .sendStore p → pbIsFull s.ib = false
  ib_length : (s.ib.unread pktBufferSize).length ≤ pktBufferSize - 1
  bi_length : (s.bi.unread pktBufferSize).length ≤ pktBufferSize - 1

theorem unread_le (pb : PacketBuffer) : (pb.unread pktBufferSize).length ≤ pktBufferSize - 1 :=
  Nat.le_sub_one_of_lt (RingBuffer.unread_length_lt pktBufferSize_pos pb)

theorem Linked.greeted_of_connected (hl : s.Linked) (hc : s.connected = true) :
    s.greeted = true := by
  by_contra h
  have := (hl.before_greeting (by simpa using h)).1.1
  rw [hc] at this
  cases this

theorem Linked.fifo (hl : s.Linked) : s.Fifo where
  back_received := by
    have hp : first s.connected ++ s.backReceived <+: first s.greeted ++ s.hostSent :=
      hl.ib.received_prefix
    by_cases hc : s.connected = true
    · rw [hc, hl.greeted_of_connected hc] at hp
      exact (List.prefix_append_right_inj _).mp hp
    · rw [(hl.waiting (by simpa using hc)).2.1]
      exact List.nil_prefix
  host_received := hl.bi.received_prefix
  ib_unread hc := by
    have hu := hl.ib.unread_eq pktBufferSize_pos
    simpa [ibChannel, first, hc, hl.greeted_of_connected hc] using hu
  ib_handshake hg hc := by
    have hu := hl.ib.unread_eq pktBufferSize_pos
    simpa [ibChannel, first, hg, hc, (hl.waiting hc).2.1] using hu
  bi_unread _ := hl.bi.unread_eq pktBufferSize_pos
  back_reads p h := hl.ib.not_empty (x := p)
    (by rcases h with h | h <;> simp [ibChannel, h, readerOf])
  host_reads p h := hl.bi.not_empty (x := p)
    (by rcases h with h | h <;> simp [biChannel, h, readerOf])
  back_writes p h := hl.bi.not_full (x := p)
    (by rcases h with h | h <;> simp [biChannel, h, writerOf])
  host_writes p h := hl.ib.not_full (x := p)
    (by rcases h with h | h <;> simp [ibChannel, h, writerOf])
  ib_length := unread_le s.ib
  bi_length := unread_le s.bi

theorem Preparing.fifo (hp : s.Preparing) : s.Fifo := by
  obtain ⟨todo, hback, hhost, ⟨hc, hg, hs, hbr, hbs, hhr⟩, -⟩ := hp
  exact
    { back_received := by rw [hbr]; exact List.nil_prefix
      host_received := by rw [hhr]; exact List.nil_prefix
      ib_unread := fun h => by rw [hc] at h; cases h
      ib_handshake := fun h => by rw [hg] at h; cases h
      bi_unread := fun h => absurd hhost h
      back_reads := fun p h => by simp [hback] at h
      host_reads := fun p h => by simp [hhost] at h
      back_writes := fun p h => by simp [hback] at h
      host_writes := fun p h => by simp [hhost] at h
      ib_length := unread_le s.ib
      bi_length := unread_le s.bi }

/-- The channel is first in, first out in every interleaving of set-up, sends and receives. -/
theorem channel_fifo {ib bi : PacketBuffer} (hr : Reachable ib bi s) : s.Fifo := by
  rcases hr.inv with hp | hl
  · exact hp.fifo
  · exact hl.fifo

/-- Both sides set the connection up on rings full of rubbish, the host sends two packets and the
    backplane receives one of them. -/
def setUpActs : List Act :=
  List.replicate 11 (.back .go) ++ List.replicate 5 (.host .go) ++ [.back .go] ++
    List.replicate 9 (.host .go) ++ List.replicate 3 (.back .go) ++
    [.host (.send { Packet.zero with type := .write, address := 8 }), .host .go, .host .go,
      .back .recv, .back .go, .host .go,
      .host (.send { Packet.zero with address := 8 })] ++
    List.replicate 3 (.host .go) ++ [.back .recv, .back .go, .back .go, .back .go]

def setUpRun : Shmem :=
  match run step (init ⟨5, 3, fun _ => .zero⟩ ⟨1, 0, fun _ => .zero⟩) setUpActs with
  | .ok s => s
  | .error _ => init ⟨0, 0, fun _ => .zero⟩ ⟨0, 0, fun _ => .zero⟩

theorem channel_fifo_of_setUpRun : setUpRun.hostSent.map Packet.type = [.write, .read] ∧
    setUpRun.backReceived.map Packet.type = [.write] ∧ setUpRun.Fifo :=
  ⟨by decide +kernel,
    by decide +kernel, channel_fifo (@reach_run _ _ _ step _ _ _ setUpActs .refl rfl)⟩

end Shmem

end TSim4CXL
