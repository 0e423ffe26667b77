/-
  What a MEMWrapper can do, and what always holds between it and the log.

  Ramulator completes accepted requests in any order, so past `memRequest` the order is
  lost; what is kept are the requests themselves. Requests are compared without their
  data pointers (`Payload.bare`), which `backward_trans` sets.

  Proved:
  * `memQueue_closed`: payloads received are those taken from the event queue and then the rest
  * `memFlow_closed`: a request taken in is answered once or in exactly one queue
  * `memCommands_closed`: reads and writes are not mixed up
  * `memOutstanding_closed`: `m_outstanding` counts what was handed to the bridge and not
    answered, modulo 2^32
  * `memData_closed`: the backing store holds the buffers of the writes taken in
-/
import TSim4CXL.Model.MemWrapper
import Mathlib.Data.List.Perm.Basic

namespace TSim4CXL

open Transition

namespace MemWrapper

variable {d : Nat}

/-! ## Moves -/

inductive Move (d : Nat) : MemWrapper → List Event → MemWrapper → Prop
  | peqRead (m : MemWrapper) {p : Payload} {q : List Payload} (hq : m.peq = p :: q)
      (hc : p.command = .read) :
      Move d m [.call (.peqCb d) p] { m with peq := q, rQueue := m.rQueue ++ [genTrans p] }
  | peqWrite (m : MemWrapper) {p : Payload} {q : List Payload} {bytes : List UInt8}
      (hq : m.peq = p :: q) (hc : p.command = .write)
      (hb : ∀ b, p.dataPtr = .buffer b → bytes = b.take p.dataLength) :
      Move d m [.call (.peqCb d) p] { m with
        peq := q, memData := memcpy m.memData p.address bytes, wQueue := m.wQueue ++ [genTrans p] }
  | posedge (m : MemWrapper) : Move d m [] m.clockPosedge
  | collectRead (m : MemWrapper) {p : Payload} {q : List Payload} (stats : Statistics)
      (hq : m.outQueue = p :: q) (hc : p.command = .read) :
      Move d m [] { m with outQueue := q, rackQueue := m.rackQueue ++ [p], stats := stats }
  | collectWrite (m : MemWrapper) {p : Payload} {q : List Payload} (stats : Statistics)
      (hq : m.outQueue = p :: q) (hc : p.command = .write) :
      Move d m [] { m with outQueue := q, wackQueue := m.wackQueue ++ [p], stats := stats }
  | send (m : MemWrapper) {p : Payload} {q : List Payload} (stats : Statistics)
      (r w : Nat → Nat) (hq : m.memRequest = p :: q) :
      Move d m [] { m with
        memRequest := q, inQueue := m.inQueue ++ [p], mOutstanding := u32 (m.mOutstanding + 1),
        stats := stats, rTransMap := r, wTransMap := w }
  | accept (m : MemWrapper) {p : Payload} {q : List Payload} (hq : m.inQueue = p :: q) :
      Move d m [.call (.accept d) p] { m with inQueue := q, dram := m.dram ++ [p] }
  | complete (m : MemWrapper) {i : Nat} {p : Payload} (hi : m.dram[i]? = some p) :
      Move d m [.call (.complete d) p]
        { m with dram := m.dram.eraseIdx i, outQueue := m.outQueue ++ [p] }
  | ackRead (m : MemWrapper) {p : Payload} {q : List Payload} (hq : m.rackQueue = p :: q) :
      Move d m [.call (.ctrlBw d) (backwardTrans d p)]
        { m with rackQueue := q, mOutstanding := u32Pred m.mOutstanding }
  | ackWrite (m : MemWrapper) {p : Payload} {q : List Payload} (hq : m.wackQueue = p :: q) :
      Move d m [.call (.ctrlBw d) (backwardTrans d p)]
        { m with wackQueue := q, mOutstanding := u32Pred m.mOutstanding }
  /-- `active_dram = 0` and the end of `simulate_dram` -/
  | idle (m : MemWrapper) (hr : m.running = true) (ho : m.mOutstanding = 0) :
      Move d m [.dramIdle d] { m with running := false }

/-- A MEMWrapper as a component. -/
def component (d : Nat) : Component MemWrapper Event where
  hear := hear d
  foreign e := e.source ≠ .mem d
  move := Move d

theorem Move.source {m m' : MemWrapper} {es : List Event} (hm : Move d m es m') :
    ∀ e ∈ es, e.source = .mem d := by
  cases hm <;> simp [Event.source, Chan.source]

/-! ### Steps are chains of moves -/

theorem peqCb_move {load : DataPtr → Nat → List UInt8} {m m' : MemWrapper} {es : List Event}
    (hload : ∀ b n, load (.buffer b) n = b.take n) (hs : m.peqCb d load = .ok (m', es)) :
    Move d m es m' := by
  unfold peqCb at hs
  split at hs
  · cases hs
  · rename_i p q hq
    split at hs <;> rename_i hc <;> cases hs
    · exact .peqRead m hq hc
    · exact .peqWrite m hq hc fun b hb => by rw [hb, hload]

theorem collect_chain (now : Nat) (m : MemWrapper) : Chain (Move d) m [] (m.collect now) := by
  unfold collect
  split
  · exact .nil _
  · rename_i p q hq
    split <;> rename_i hc <;> simp only [updateTransDelay, hc]
    · exact .single (.collectRead m _ hq hc)
    · exact .single (.collectWrite m _ hq hc)

theorem sendCommand_move (now : Nat) (m : MemWrapper) (p : Payload) (q : List Payload) :
    Move d { m with memRequest := p :: q } []
      { sendCommand now { m with memRequest := [] } p with memRequest := q } := by
  have hm := fun st r w => Move.send (d := d) { m with memRequest := p :: q } st r w rfl
  unfold sendCommand recordRequest
  cases hc : p.command with
  | read => exact hm _ _ m.wTransMap
  | write => exact hm _ m.rTransMap _

theorem sendCommand_memRequest (now : Nat) (m : MemWrapper) (p : Payload) :
    (sendCommand now m p).memRequest = m.memRequest := by
  unfold sendCommand recordRequest
  split <;> rfl

theorem issue_chain (now : Nat) (m : MemWrapper) : Chain (Move d) m [] (m.issue now) := by
  -- the loop pops `memRequest`; the fold runs over it with the queue already emptied
  suffices h : ∀ (ps : List Payload) (m : MemWrapper), m.memRequest = [] →
      Chain (Move d) { m with memRequest := ps } [] (ps.foldl (sendCommand now) m) from
    h m.memRequest { m with memRequest := [] } rfl
  intro ps
  induction ps with
  | nil =>
      intro m hm
      rw [show ({ m with memRequest := [] } : MemWrapper) = m by rw [← hm]]
      exact .nil _
  | cons p ps ih =>
      intro m hm
      have hmove := sendCommand_move (d := d) now m p ps
      rw [show ({ m with memRequest := [] } : MemWrapper) = m by rw [← hm]] at hmove
      exact .cons hmove (ih _ (by rw [sendCommand_memRequest, hm]))

theorem clockTick_chain (accept : Bool) (m : MemWrapper) :
    Chain (Move d) m (m.clockTick d accept).2 (m.clockTick d accept).1 := by
  unfold clockTick
  split
  · exact .nil _
  · rename_i p q hq
    split
    · exact .single (.accept m hq)
    · exact .nil _

theorem collect_running (now : Nat) (m : MemWrapper) : (m.collect now).running = m.running := by
  unfold collect
  split
  · rfl
  · split <;> rename_i hc <;> simp only [updateTransDelay, hc]

theorem issue_running (now : Nat) (m : MemWrapper) : (m.issue now).running = m.running := by
  suffices h : ∀ (ps : List Payload) (m : MemWrapper), (ps.foldl (sendCommand now) m).running =
      m.running from
    h m.memRequest { m with memRequest := [] }
  intro ps
  induction ps with
  | nil => exact fun _ => rfl
  | cons p ps ih =>
      intro m
      rw [List.foldl_cons, ih]
      unfold sendCommand recordRequest
      split <;> rfl

theorem clockTick_running (accept : Bool) (m : MemWrapper) :
    (m.clockTick d accept).1.running = m.running := by
  unfold clockTick
  split
  · rfl
  · split <;> rfl

theorem simulateDram_chain {activeCores now : Nat} {accept : Bool} {m m' : MemWrapper}
    {es : List Event} (hs : m.simulateDram d activeCores accept now = .ok (m', es)) :
    Chain (Move d) m es m' := by
  have hc := ((collect_chain (d := d) now m).trans (issue_chain now _)).trans
    (clockTick_chain accept _)
  unfold simulateDram at hs
  split at hs
  · rename_i hr
    dsimp only at hs
    split at hs
    · rename_i ho
      refine .of_ok hs (hc.trans (.single (.idle _ ?_ ho.2)))
      rw [clockTick_running, issue_running, collect_running, hr]
    · exact .of_ok hs hc
  · cases hs

theorem complete_move {i : Nat} {m m' : MemWrapper} {es : List Event}
    (hs : m.complete d i = .ok (m', es)) : Move d m es m' := by
  unfold complete at hs
  split at hs
  · split at hs
    · cases hs
    · rename_i p hp
      cases hs
      exact .complete m hp
  · cases hs

theorem clockNegedge_chain (m : MemWrapper) :
    Chain (Move d) m (m.clockNegedge d).2 (m.clockNegedge d).1 := by
  cases hr : m.rackQueue with
  | nil =>
      cases hw : m.wackQueue with
      | nil =>
          have hs : m.clockNegedge d = (m, []) := by
            cases m
            simp_all [clockNegedge]
          rw [hs]
          exact .nil m
      | cons p q =>
          have hs : m.clockNegedge d =
              ({ m with wackQueue := q, mOutstanding := u32Pred m.mOutstanding },
                [.call (.ctrlBw d) (backwardTrans d p)]) := by
            simp [clockNegedge, hr, hw]
          rw [hs]
          exact .single (.ackWrite m hw)
  | cons a r =>
      cases hw : m.wackQueue with
      | nil =>
          have hs : m.clockNegedge d =
              ({ m with rackQueue := r, mOutstanding := u32Pred m.mOutstanding },
                [.call (.ctrlBw d) (backwardTrans d a)]) := by
            simp [clockNegedge, hr, hw]
          rw [hs]
          exact .single (.ackRead m hr)
      | cons p q =>
          have hs : m.clockNegedge d = ({ m with
                rackQueue := r, wackQueue := q, mOutstanding := u32Pred (u32Pred m.mOutstanding) },
              [.call (.ctrlBw d) (backwardTrans d a)] ++
                [.call (.ctrlBw d) (backwardTrans d p)]) := by
            simp [clockNegedge, hr, hw]
          rw [hs]
          exact .cons (.ackRead m hr) (.single (.ackWrite
            { m with rackQueue := r, mOutstanding := u32Pred m.mOutstanding } hw))

/-- Every step of a MEMWrapper is a chain of moves. -/
theorem act_chain {activeCores : Nat} {load : DataPtr → Nat → List UInt8} {m m' : MemWrapper}
    {a : Act} {es : List Event} (hload : ∀ b n, load (.buffer b) n = b.take n)
    (hs : m.act d activeCores load a = .ok (m', es)) : Chain (Move d) m es m' := by
  cases a with
  | peq => exact .single (peqCb_move hload hs)
  | posedge => exact .of_ok hs (.single (.posedge m))
  | negedge => exact .of_ok hs (clockNegedge_chain m)
  | simulateDram accept now => exact simulateDram_chain hs
  | complete i => exact .single (complete_move hs)

/-! ## Hearing -/

/-- A MEMWrapper hears the requests the controller sends to it. -/
theorem hear_cases (m : MemWrapper) (e : Event) :
    (m.hear d e = m ∧ sent (.memFw d) [e] = []) ∨
      ∃ p, e = .call (.memFw d) p ∧ m.hear d e = m.nbTransportFw p := by
  cases e with
  | call c p =>
      by_cases h1 : c = .memFw d
      · exact .inr ⟨p, by rw [h1], by simp [h1, hear]⟩
      · refine .inl ⟨?_, by simp [h1]⟩
        cases c <;> simp_all [hear]
  | _ => exact .inl ⟨rfl, rfl⟩

theorem foreign_sent {e : Event} (he : e.source ≠ .mem d) {c : Chan} (hc : c.source = .mem d) :
    sent c [e] = [] :=
  sent_eq_nil c (by simpa [hc] using he)

/-! ## The event queue -/

/-- Payloads received are those taken from the event queue and then the rest. -/
def Queue (d : Nat) (m : MemWrapper) (l : List Event) : Prop :=
  sent (.memFw d) l = sent (.peqCb d) l ++ m.peq

theorem memQueue_closed : (component d).Closed (Queue d) where
  hear m l e he hq := by
    have hs := foreign_sent he (c := .peqCb d) rfl
    show sent _ _ = sent _ _ ++ (m.hear d e).peq
    rw [sent_append, sent_append, hs, List.append_nil, hq]
    rcases hear_cases (d := d) m e with ⟨hm, hf⟩ | ⟨p, rfl, hm⟩
    · rw [hm, hf, List.append_nil]
    · rw [hm]
      simp [nbTransportFw]
  move m l es m' hm hq := by
    unfold Queue at hq ⊢
    cases hm with
    | peqRead hp => simp [hq, hp]
    | peqWrite hp => simp [hq, hp]
    | posedge => simp [hq, clockPosedge]
    | collectRead => simp [hq]
    | collectWrite => simp [hq]
    | send => simp [hq]
    | accept => simp [hq]
    | complete => simp [hq]
    | ackRead => simp [hq]
    | ackWrite => simp [hq]
    | idle => simp [hq]

/-! ## Requests inside -/

/-- Requests completed by Ramulator and not yet answered. -/
def completed (m : MemWrapper) : List Payload := m.outQueue ++ m.rackQueue ++ m.wackQueue

/-- Requests handed to the bridge and not yet answered. -/
def issued (m : MemWrapper) : List Payload := m.inQueue ++ m.dram ++ m.completed

/-- Requests taken in and not yet answered. -/
def contents (m : MemWrapper) : List Payload := m.rQueue ++ m.wQueue ++ m.memRequest ++ m.issued

/-- A request taken in is answered once or in exactly one queue; a request Ramulator completed
    is answered once or in one of the queues behind it. -/
def Flow (d : Nat) (m : MemWrapper) (l : List Event) : Prop :=
  ((sent (.peqCb d) l).map Payload.bare).Perm
      ((sent (.ctrlBw d) l).map Payload.bare ++ m.contents.map Payload.bare) ∧
    ((sent (.complete d) l).map Payload.bare).Perm
      ((sent (.ctrlBw d) l).map Payload.bare ++ m.completed.map Payload.bare)

theorem count_eraseIdx {α : Type} [DecidableEq α] {l : List α} {i : Nat} {x : α}
    (hi : l[i]? = some x) (y : α) :
      l.count y = (l.eraseIdx i).count y + if x = y then 1 else 0 := by
  obtain ⟨hn, rfl⟩ := List.getElem?_eq_some_iff.mp hi
  have hp := (List.getElem_cons_eraseIdx_perm hn).count_eq y
  rw [← hp, List.count_cons]
  simp

theorem map_eraseIdx_bare (l : List Payload) (i : Nat) :
    (l.eraseIdx i).map Payload.bare = (l.map Payload.bare).eraseIdx i := by
  induction l generalizing i with
  | nil => rfl
  | cons p l ih => cases i <;> simp [ih]

theorem memFlow_closed : (component d).Closed (Flow d) where
  hear m l e he hf := by
    have h1 := foreign_sent he (c := .peqCb d) rfl
    have h2 := foreign_sent he (c := .ctrlBw d) rfl
    have h3 := foreign_sent he (c := .complete d) rfl
    show Flow d (m.hear d e) _
    unfold Flow
    rw [sent_append, sent_append, sent_append, h1, h2, h3]
    rcases hear_cases (d := d) m e with ⟨hm, -⟩ | ⟨p, rfl, hm⟩ <;> rw [hm] <;>
      simpa [Flow, nbTransportFw, contents, issued, completed] using hf
  move m l es m' hm hf := by
    simp only [Flow, contents, issued, completed, List.perm_iff_count, List.map_append,
      List.count_append, sent_append] at hf ⊢
    obtain ⟨h1, h2⟩ := hf
    refine ⟨fun a => ?_, fun a => ?_⟩ <;> have h1 := h1 a <;> have h2 := h2 a <;> cases hm with
    | peqRead hq => simp [List.count_cons] at h1 h2 ⊢; omega
    | peqWrite hq => simp [List.count_cons] at h1 h2 ⊢; omega
    | posedge =>
        cases hr : m.rQueue <;> cases hw : m.wQueue <;>
          simp [clockPosedge, hr, hw, List.count_cons] at h1 h2 ⊢ <;> omega
    | collectRead _ hq => simp [hq, List.count_cons] at h1 h2 ⊢; omega
    | collectWrite _ hq => simp [hq, List.count_cons] at h1 h2 ⊢; omega
    | send _ _ _ hq => simp [hq, List.count_cons] at h1 h2 ⊢; omega
    | accept hq => simp [hq, List.count_cons] at h1 h2 ⊢; omega
    | @complete i p hi =>
        have hi : (m.dram.map Payload.bare)[i]? = some p.bare := by simp [hi]
        have hc := count_eraseIdx hi a
        simp [map_eraseIdx_bare, List.count_cons] at h1 h2 ⊢
        omega
    | ackRead hq => simp [hq, List.count_cons] at h1 h2 ⊢; omega
    | ackWrite hq => simp [hq, List.count_cons] at h1 h2 ⊢; omega
    | idle => simp at h1 h2 ⊢; omega

/-- A read ack points into the backing store, at its own address. -/
def Pointers (d : Nat) (l : List Event) : Prop :=
  ∀ p ∈ sent (.ctrlBw d) l, p.command = .read → p.dataPtr = .memData d p.address

theorem memPointers_closed : (component d).Closed fun _ l => Pointers d l where
  hear m l e he hp := by
    have hs := foreign_sent he (c := .ctrlBw d) rfl
    show Pointers d (l ++ [e])
    unfold Pointers
    rw [sent_append, hs, List.append_nil]
    exact hp
  move m l es m' hm hp := by
    have hback (p : Payload) : (backwardTrans d p).command = .read →
        (backwardTrans d p).dataPtr = .memData d (backwardTrans d p).address := by
      unfold backwardTrans
      cases hc : p.command <;> simp [hc]
    intro p hmem
    rw [sent_append, List.mem_append] at hmem
    rcases hmem with hmem | hmem
    · exact hp p hmem
    · cases hm with
      | ackRead =>
          simp only [sent_cons, sent_nil, Event.call?, decide_true, if_true, Option.toList_some,
            List.append_nil, List.mem_singleton] at hmem
          exact hmem ▸ hback _
      | ackWrite =>
          simp only [sent_cons, sent_nil, Event.call?, decide_true, if_true, Option.toList_some,
            List.append_nil, List.mem_singleton] at hmem
          exact hmem ▸ hback _
      | _ => simp at hmem

/-! ### Commands -/

/-- Read queues hold reads, write queues hold writes. -/
def Commands (m : MemWrapper) : Prop :=
  (∀ p ∈ m.rQueue ++ m.rackQueue, p.command = .read) ∧
    ∀ p ∈ m.wQueue ++ m.wackQueue, p.command = .write

/-- Each entry was there before, or has the command of its queue. -/
theorem Commands.of_mem {m m' : MemWrapper} (hc : Commands m)
    (hr : ∀ p ∈ m'.rQueue ++ m'.rackQueue, p ∈ m.rQueue ++ m.rackQueue ∨ p.command = .read)
    (hw : ∀ p ∈ m'.wQueue ++ m'.wackQueue, p ∈ m.wQueue ++ m.wackQueue ∨ p.command = .write) :
    Commands m' :=
  ⟨fun p hp => (hr p hp).elim (hc.1 p) id, fun p hp => (hw p hp).elim (hc.2 p) id⟩

theorem memCommands_closed : (component d).Closed fun m _ => Commands m where
  hear m l e he hc := by
    show Commands (m.hear d e)
    rcases hear_cases (d := d) m e with ⟨hm, -⟩ | ⟨p, -, hm⟩ <;> rw [hm] <;> exact hc
  move m l es m' hm hc := by
    cases hm with
    | peqRead _ hp =>
        apply hc.of_mem
        · intro x hx
          simp only [List.mem_append, List.mem_singleton] at hx ⊢
          rcases hx with (hx | rfl) | hx
          · exact .inl (.inl hx)
          · exact .inr hp
          · exact .inl (.inr hx)
        · exact fun x hx => .inl hx
    | peqWrite _ hp =>
        apply hc.of_mem
        · exact fun x hx => .inl hx
        · intro x hx
          simp only [List.mem_append, List.mem_singleton] at hx ⊢
          rcases hx with (hx | rfl) | hx
          · exact .inl (.inl hx)
          · exact .inr hp
          · exact .inl (.inr hx)
    | posedge =>
        apply hc.of_mem <;> intro x hx <;> rcases List.mem_append.mp hx with hx | hx
        · exact .inl (List.mem_append_left _ (List.mem_of_mem_drop hx))
        · exact .inl (List.mem_append_right _ hx)
        · exact .inl (List.mem_append_left _ (List.mem_of_mem_drop hx))
        · exact .inl (List.mem_append_right _ hx)
    | collectRead _ _ hp =>
        apply hc.of_mem
        · intro x hx
          rw [← List.append_assoc, List.mem_append, List.mem_singleton] at hx
          rcases hx with hx | rfl
          · exact .inl hx
          · exact .inr hp
        · exact fun x hx => .inl hx
    | collectWrite _ _ hp =>
        apply hc.of_mem
        · exact fun x hx => .inl hx
        · intro x hx
          rw [← List.append_assoc, List.mem_append, List.mem_singleton] at hx
          rcases hx with hx | rfl
          · exact .inl hx
          · exact .inr hp
    | send => exact hc
    | accept => exact hc
    | complete => exact hc
    | ackRead hq =>
        apply hc.of_mem
        · intro x hx
          rcases List.mem_append.mp hx with hx | hx
          · exact .inl (List.mem_append_left _ hx)
          · exact .inl (List.mem_append_right _ (hq ▸ List.mem_cons_of_mem _ hx))
        · exact fun x hx => .inl hx
    | ackWrite hq =>
        apply hc.of_mem
        · exact fun x hx => .inl hx
        · intro x hx
          rcases List.mem_append.mp hx with hx | hx
          · exact .inl (List.mem_append_left _ hx)
          · exact .inl (List.mem_append_right _ (hq ▸ List.mem_cons_of_mem _ hx))
    | idle => exact hc

/-! ## m_outstanding -/

/-- `m_outstanding` counts the requests handed to the bridge and not answered. -/
def Outstanding (m : MemWrapper) : Prop := m.mOutstanding = u32 m.issued.length

theorem memOutstanding_closed : (component d).Closed fun m _ => Outstanding m where
  hear m l e he ho := by
    show Outstanding (m.hear d e)
    rcases hear_cases (d := d) m e with ⟨hm, -⟩ | ⟨p, -, hm⟩ <;> rw [hm] <;> exact ho
  move m l es m' hm ho := by
    simp only [Outstanding, issued, completed, List.length_append] at ho ⊢
    cases hm with
    | peqRead => exact ho
    | peqWrite => exact ho
    | posedge => exact ho
    | collectRead _ hq =>
        rw [ho]
        congr 1
        simp [hq]
        omega
    | collectWrite _ hq =>
        rw [ho]
        congr 1
        simp [hq]
        omega
    | send =>
        rw [ho]
        simp only [u32, List.length_append, List.length_singleton]
        omega
    | accept hq =>
        rw [ho]
        congr 1
        simp [hq]
        omega
    | complete hi =>
        obtain ⟨hn, -⟩ := List.getElem?_eq_some_iff.mp hi
        rw [ho]
        congr 1
        simp [List.length_eraseIdx, hn]
        omega
    | ackRead hq =>
        refine (congrArg u32Pred ?_).trans (u32Pred_u32_succ _)
        rw [ho]
        congr 1
        simp [hq]
        omega
    | ackWrite hq =>
        refine (congrArg u32Pred ?_).trans (u32Pred_u32_succ _)
        rw [ho]
        congr 1
        simp [hq]
        omega
    | idle => exact ho

/-! ## The backing store -/

/-- The bytes a write payload brings along. -/
def buffered (p : Payload) : List UInt8 :=
  match p.dataPtr with
  | .buffer bytes => bytes.take p.dataLength
  | _ => []

/-- The store after the writes `ps`, oldest first. -/
def stored (ps : List Payload) : Nat → UInt8 :=
  Store.writeAll (fun _ => 0) (ps.map fun p => (p.address, buffered p))

/-- Every write taken in points at a buffer. -/
def Buffered (d : Nat) (l : List Event) : Prop :=
  ∀ p ∈ sent (.peqCb d) l, p.command = .write → ∃ b, p.dataPtr = .buffer b

/-- The backing store holds the buffers of the writes taken in. -/
def Data (d : Nat) (m : MemWrapper) (l : List Event) : Prop :=
  Buffered d l → m.memData = stored (ofCmd .write (sent (.peqCb d) l))

theorem memData_closed : (component d).Closed (Data d) where
  hear m l e he hd hb := by
    have hs := foreign_sent he (c := .peqCb d) rfl
    have hb : Buffered d l := by simpa [Buffered, hs] using hb
    show (m.hear d e).memData = _
    rw [sent_append, hs, List.append_nil, ← hd hb]
    rcases hear_cases (d := d) m e with ⟨hm, -⟩ | ⟨p, -, hm⟩ <;> rw [hm]
    rfl
  move m l es m' hm hd hb := by
    have hd := hd fun p hp => hb p (by rw [sent_append]; exact List.mem_append_left _ hp)
    cases hm with
    | peqRead _ hc => simpa [ofCmd_cons, hc] using hd
    | @peqWrite p q bytes _ hc hbytes =>
        obtain ⟨b, hp⟩ := hb p (by simp) hc
        simp [ofCmd_cons, hc, stored, buffered, memcpy, hp, hbytes b hp, hd]
    | posedge => simpa [clockPosedge] using hd
    | collectRead => simpa using hd
    | collectWrite => simpa using hd
    | send => simpa using hd
    | accept => simpa using hd
    | complete => simpa using hd
    | ackRead => simpa using hd
    | ackWrite => simpa using hd
    | idle => simpa using hd

end MemWrapper

end TSim4CXL
