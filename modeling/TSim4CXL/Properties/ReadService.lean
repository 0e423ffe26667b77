/-
  The DRAM controller calls each read back at a time fixed when the read enters `pending`.

  `serve_completed_reads` looks at the front of `pending` alone and takes at most one
  request a tick, so a read waits for its own data and for every read in front of it, a
  forwarded one too: `dues` gives the clock at which each is called back.
  `reads_called_back`: in every run, whatever is sent and whatever the parts answer, the
  reads pending now are called back in their order, each when it is due and not before; with
  read latencies of at most `L` the one at position `i` is called back within `L + i` ticks.
-/
import TSim4CXL.Lib.ServiceQueue
import TSim4CXL.Properties.DramController

namespace TSim4CXL.Ramulator

open Transition ServiceQueue

namespace DramController

variable {C : DramConfig} {P : Parts} {c c' : DramController} {b : Buf} {L : Int}

/-- The clock and `pending`. -/
def timed (c : DramController) : Int × List Request := (c.clk, c.pending)

/-! ## What the steps of a call do to `pending` -/

@[simp] theorem timed_set (r : ReqBuffer) : (c.set b r).timed = c.timed := by
  cases b <;> rfl

@[simp] theorem timed_enqueue (req : Request) : (c.enqueue b req).1.timed = c.timed :=
  timed_set _

@[simp] theorem timed_remove (it : Nat) : (c.remove b it).timed = c.timed := timed_set _

@[simp] theorem timed_setWriteMode : (c.setWriteMode C).timed = c.timed := by
  unfold setWriteMode
  split <;> split <;> rfl

@[simp] theorem timed_bestReady : (c.bestReady P b).1.timed = c.timed := by
  unfold bestReady
  dsimp only
  split <;> exact timed_set _

@[simp] theorem timed_findRequest : (c.findRequest C P).1.timed = c.timed := by
  have hb := timed_bestReady (P := P) (c := c) (b := .active)
  unfold findRequest
  rcases hbest : c.bestReady P .active with ⟨c₁, _ | f⟩
  · rw [hbest] at hb
    dsimp only
    split
    · exact hb
    · simpa using hb
  · rw [hbest] at hb
    exact hb

@[simp] theorem timed_scheduleRequest : (c.scheduleRequest C P).1.timed = c.timed := by
  have hf := timed_findRequest (C := C) (P := P) (c := c)
  unfold scheduleRequest
  rcases hfr : c.findRequest C P with ⟨c₁, _ | f⟩ <;> rw [hfr] at hf <;> exact hf

theorem timed_refresh (l : List (List Int × Int)) :
    (l.foldl (fun c (vec, type) => (c.prioritySend C (.ofAddrVec vec type)).1) c).timed =
      c.timed := by
  induction l generalizing c with
  | nil => rfl
  | cons r l ih => exact ih.trans (timed_enqueue _)

theorem timed_schedule : (c.schedule C P).1.1.timed =
    { c with clk := c.clk + 1 }.serveCompletedReads.1.timed := by
  unfold schedule
  exact timed_scheduleRequest.trans (timed_refresh _)

/-- The command issued completes at most one read, and that `readLatency` later. -/
theorem timed_issue {f : Found} {calls : List Nat} (h : c.issue P f = .ok (c', calls)) :
    ∃ new, c'.timed = (c.clk, c.pending ++ new) ∧
      ∀ req ∈ new, req.depart = c.clk + P.readLatency := by
  unfold issue at h
  split at h
  · split at h
    · cases h
      exact ⟨_, timed_remove _, fun req hreq => by rw [List.mem_singleton.mp hreq]⟩
    · split at h
      · split at h
        · cases h
          exact ⟨[], (timed_remove _).trans (by simp [timed]), by simp⟩
        · cases h
      · cases h
        exact ⟨[], (timed_remove _).trans (by simp [timed]), by simp⟩
  · split at h <;> cases h
    · exact ⟨[], ((timed_remove _).trans (timed_enqueue _)).trans (by simp [timed]), by simp⟩
    · exact ⟨[], by simp [timed], by simp⟩

@[simp] theorem clk_serveCompletedReads : c.serveCompletedReads.1.clk = c.clk := by
  unfold serveCompletedReads
  split
  · rfl
  · split <;> rfl

theorem mem_serveCompletedReads {req : Request} (h : req ∈ c.serveCompletedReads.1.pending) :
    req ∈ c.pending := by
  unfold serveCompletedReads at h
  split at h
  · exact h
  · rename_i first pending hp
    split at h
    · exact hp ▸ List.mem_cons_of_mem first h
    · exact h

/-! ## What a call does to `pending` -/

/-- When the pending reads are called back. -/
def dues (c : DramController) : List Int := ServiceQueue.dues Request.depart c.clk c.pending

/-- From `c` to `c'` the first reads were called back, none before it was due, and the times of
    the others are as they were. -/
def Served (c c' : DramController) (calls : List Nat) : Prop :=
  ∃ served new later, c'.pending = c.pending.drop served ++ new ∧
    c'.dues = c.dues.drop served ++ later ∧
    ((c.pending.take served).filterMap Request.callback).Sublist calls ∧
    (∀ due ∈ c.dues.take served, due ≤ c'.clk) ∧ c.clk ≤ c'.clk

theorem Served.refl (c : DramController) : Served c c [] :=
  ⟨0, [], [], by simp, by simp, by simp, by simp, Int.le_refl _⟩

theorem Served.trans {c'' : DramController} {calls calls' : List Nat} (h : Served c c' calls)
    (h' : Served c' c'' calls') : Served c c'' (calls ++ calls') := by
  obtain ⟨n, new, later, hp, hd, hcall, hdue, hclk⟩ := h
  obtain ⟨n', new', later', hp', hd', hcall', hdue', hclk'⟩ := h'
  refine ⟨n + n', new.drop (n' - (c.pending.drop n).length) ++ new',
    later.drop (n' - (c.dues.drop n).length) ++ later', ?_, ?_, ?_, ?_, Int.le_trans hclk hclk'⟩
  · rw [hp', hp, List.drop_append, List.drop_drop, List.append_assoc]
  · rw [hd', hd, List.drop_append, List.drop_drop, List.append_assoc]
  · rw [List.take_add, List.filterMap_append]
    refine hcall.append (.trans ?_ hcall')
    rw [hp, List.take_append, List.filterMap_append]
    exact List.sublist_append_left _ _
  · intro due hmem
    rw [List.take_add, List.mem_append] at hmem
    rcases hmem with hmem | hmem
    · exact Int.le_trans (hdue due hmem) hclk'
    · refine hdue' due ?_
      rw [hd, List.take_append]
      exact List.mem_append_left _ hmem

/-- A tick of the clock calls the front back when it is due. -/
theorem served_serveCompletedReads :
    Served c { c with clk := c.clk + 1 }.serveCompletedReads.1
      { c with clk := c.clk + 1 }.serveCompletedReads.2 := by
  unfold serveCompletedReads
  split
  · rename_i hp
    refine ⟨0, [], [], ?_, ?_, ?_, ?_, Int.le_add_of_nonneg_right Int.one_nonneg⟩ <;>
      simp_all [dues, ServiceQueue.dues]
  · rename_i req pending hp
    split
    · rename_i hdepart
      refine ⟨1, [], [], ?_, ?_, ?_, ?_, Int.le_add_of_nonneg_right Int.one_nonneg⟩
      all_goals dsimp only at hp
      · simp [hp]
      · simp [dues, hp, dues_leave hdepart]
      · cases hcall : req.callback <;> simp [hp, hcall]
      · simp [dues, hp, dues_leave hdepart]
    · rename_i hdepart
      refine ⟨0, [], [], ?_, ?_, ?_, ?_, Int.le_add_of_nonneg_right Int.one_nonneg⟩
      all_goals dsimp only at hp hdepart
      · simp
      · simp [dues, hp, dues_wait (Int.not_le.mp hdepart)]
      · simp
      · simp

/-- What enters `pending` delays nobody. -/
theorem served_append {calls : List Nat} (new : List Request)
    (h : c'.timed = (c.clk, c.pending ++ new)) : Served c c' calls := by
  obtain ⟨hclk, hp⟩ := Prod.mk.inj h
  obtain ⟨t, ht⟩ := dues_append Request.depart c.clk c.pending new
  refine ⟨0, new, ServiceQueue.dues Request.depart t new, ?_, ?_, ?_, ?_, Int.le_of_eq hclk.symm⟩
  · simpa using hp
  · rw [dues, hclk, hp, ht]
    rfl
  · simp
  · simp

theorem send_pending {req req' : Request} {ok : Bool} (h : c.send C req = .ok (c', req', ok)) :
    ∃ new, c'.timed = (c.clk, c.pending ++ new) ∧ ∀ r ∈ new, r.depart = c.clk + 1 := by
  have hsent {b : Buf} {r : Request} (h : c.enqueueSent b r = (c', req', ok)) :
      ∃ new, c'.timed = (c.clk, c.pending ++ new) ∧ ∀ r ∈ new, r.depart = c.clk + 1 := by
    have he := timed_enqueue (c := c) (b := b) { r with arrive := c.clk }
    refine ⟨[], ?_, by simp⟩
    unfold enqueueSent at h
    dsimp only at h
    split at h <;> rename_i henq <;> rw [henq] at he <;> cases h <;> simpa [timed] using he
  unfold send at h
  dsimp only at h
  split at h
  · cases h
    exact ⟨_, rfl, fun r hr => by rw [List.mem_singleton.mp hr]⟩
  · split at h
    · exact hsent (Except.ok.inj h)
    · split at h
      · exact hsent (Except.ok.inj h)
      · cases h

/-- A tick: the completed read first, then the one whose last command is issued. -/
theorem tick_pending {calls : List Nat} (h : c.tick C P = .ok (c', calls)) :
    ∃ new more, calls = { c with clk := c.clk + 1 }.serveCompletedReads.2 ++ more ∧
      c'.timed = (c.clk + 1,
        { c with clk := c.clk + 1 }.serveCompletedReads.1.pending ++ new) ∧
      ∀ req ∈ new, req.depart = c.clk + 1 + P.readLatency := by
  have hs := timed_schedule (C := C) (P := P) (c := c)
  have hclk := clk_serveCompletedReads (c := { c with clk := c.clk + 1 })
  have hcalls : (c.schedule C P).2 = { c with clk := c.clk + 1 }.serveCompletedReads.2 := rfl
  unfold tick at h
  rcases hsched : c.schedule C P with ⟨⟨c₁, _ | f⟩, calls₁⟩
  · rw [hsched] at h hs hcalls
    cases h
    refine ⟨[], [], by rw [← hcalls, List.append_nil], ?_, by simp⟩
    rw [hs, timed, hclk, List.append_nil]
  · rw [hsched] at h hs hcalls
    obtain ⟨hclk₁, hp₁⟩ := Prod.mk.inj hs
    dsimp only at h hclk₁ hp₁
    split at h
    · rename_i c₂ more hissue
      cases h
      obtain ⟨new, hnew, hdepart⟩ := timed_issue hissue
      rw [hclk₁, hclk] at hnew hdepart
      exact ⟨new, more, by rw [← hcalls], by rw [hnew, hp₁], hdepart⟩
    · cases h

end DramController

/-! ## Runs -/

namespace DramRun

variable {C : DramConfig} {s t : DramRun} {L : Int}

/-- The DRAM delivers within `L` ticks of the last command. -/
def LatencyAtMost (L : Int) (_ : DramRun) : DramCall → Prop
  | .send _ => True
  | .tick P => P.readLatency ≤ L

instance (L : Int) (s : DramRun) (a : DramCall) : Decidable (LatencyAtMost L s a) :=
  match a with
  | .send _ => isTrue trivial
  | .tick P => inferInstanceAs (Decidable (P.readLatency ≤ L))

/-- One call calls reads back as they are due. -/
theorem served_step {a : DramCall} (h : step C s a = .ok t) :
    ∃ calls, t.called = s.called ++ calls ∧ s.ctrl.Served t.ctrl calls := by
  cases a with
  | send req =>
      simp only [step] at h
      split at h
      · rename_i c req' hsend
        cases h
        obtain ⟨new, hnew, -⟩ := DramController.send_pending hsend
        exact ⟨[], (List.append_nil _).symm, DramController.served_append new hnew⟩
      · rename_i c req' hsend
        cases h
        obtain ⟨new, hnew, -⟩ := DramController.send_pending hsend
        exact ⟨[], (List.append_nil _).symm, DramController.served_append new hnew⟩
      · cases h
  | tick P =>
      simp only [step] at h
      split at h
      · rename_i c calls htick
        cases h
        obtain ⟨new, more, rfl, hnew, -⟩ := DramController.tick_pending htick
        refine ⟨_, rfl, DramController.served_serveCompletedReads.trans
          (DramController.served_append new ?_)⟩
        rw [hnew, DramController.clk_serveCompletedReads]
      · cases h

/-- No pending read is more than `L` ticks away from its data. -/
def Near (L : Int) (s : DramRun) : Prop :=
  ∀ req ∈ s.ctrl.pending, req.depart ≤ s.ctrl.clk + L

theorem near_step {a : DramCall} (hL : 1 ≤ L) (h : Near L s) (ha : LatencyAtMost L s a)
    (hstep : step C s a = .ok t) : Near L t := by
  cases a with
  | send req =>
      have hkeep {c : DramController} {req' : Request} {ok : Bool}
          (hsend : s.ctrl.send C { req with callback := some s.next } = .ok (c, req', ok)) :
          ∀ r ∈ c.pending, r.depart ≤ c.clk + L := by
        obtain ⟨new, hnew, hdepart⟩ := DramController.send_pending hsend
        obtain ⟨hclk, hp⟩ := Prod.mk.inj hnew
        intro r hr
        rw [hclk]
        rcases List.mem_append.mp (hp ▸ hr) with hr | hr
        · exact h r hr
        · have := hdepart r hr
          omega
      simp only [step] at hstep
      split at hstep <;> cases hstep <;> exact hkeep ‹_›
  | tick P =>
      simp only [step] at hstep
      split at hstep
      · rename_i c calls htick
        cases hstep
        obtain ⟨new, more, -, hnew, hdepart⟩ := DramController.tick_pending htick
        obtain ⟨hclk, hp⟩ := Prod.mk.inj hnew
        intro r hr
        have hlat : P.readLatency ≤ L := ha
        dsimp only at hr ⊢
        rw [hclk]
        rcases List.mem_append.mp (hp ▸ hr) with hr | hr
        · have := h r (DramController.mem_serveCompletedReads
            (c := { s.ctrl with clk := s.ctrl.clk + 1 }) hr)
          omega
        · have := hdepart r hr
          omega
      · cases hstep

theorem served_of_reach {ok : DramRun → DramCall → Prop} (h : Reach (step C) ok s t) :
    ∃ calls, t.called = s.called ++ calls ∧ s.ctrl.Served t.ctrl calls := by
  induction h with
  | refl => exact ⟨[], (List.append_nil _).symm, .refl _⟩
  | tail _ _ hstep ih =>
      obtain ⟨calls, hcalled, hserved⟩ := ih
      obtain ⟨calls', hcalled', hserved'⟩ := served_step hstep
      exact ⟨calls ++ calls', by rw [hcalled', hcalled, List.append_assoc],
        hserved.trans hserved'⟩

/-- From any state of a run on, the pending reads are called back in their order, each when it is
    due and not before, and the one at position `i` within `L + i` ticks. -/
theorem reads_called_back (hL : 1 ≤ L) (h : Reach (step C) (LatencyAtMost L) init s)
    (h' : Reach (step C) (LatencyAtMost L) s t) :
    ∃ served new calls, t.ctrl.pending = s.ctrl.pending.drop served ++ new ∧
      t.called = s.called ++ calls ∧
      ((s.ctrl.pending.take served).filterMap Request.callback).Sublist calls ∧
      (∀ req ∈ s.ctrl.pending.drop served, ∀ n ∈ req.callback, n ∉ t.called) ∧
      ∀ (i : Nat) (due : Int), s.ctrl.dues[i]? = some due →
        due ≤ s.ctrl.clk + L + i ∧ (i < served ↔ due ≤ t.ctrl.clk) := by
  have hsound : Sound t := (sound_init.of_reach h).of_reach h'
  have hnear : Near L s := h.invariant (fun _ hreq => nomatch hreq)
    fun _ _ _ _ ha hn hstep => near_step hL hn ha hstep
  obtain ⟨calls, hcalled, served, new, later, hp, hd, hcall, hdue, -⟩ := served_of_reach h'
  refine ⟨served, new, calls, hp, hcalled, hcall, fun req hreq n hn => ?_,
    fun i due hi => ⟨?_, ?_, ?_⟩⟩
  · exact hsound.pending_notMem (hp ▸ List.mem_append_left _ hreq) hn
  · exact dues_le (by omega) hnear hi
  · intro hlt
    refine hdue due (List.mem_of_getElem? (i := i) ?_)
    rw [List.getElem?_take_of_lt hlt]
    exact hi
  · -- a read that has not been called back is still due
    intro hle
    by_contra hnot
    have hmem : due ∈ t.ctrl.dues := by
      rw [hd]
      refine List.mem_append_left _ (List.mem_of_getElem? (i := i - served) ?_)
      rw [List.getElem?_drop, Nat.add_sub_cancel' (Nat.le_of_not_lt hnot)]
      exact hi
    have hlt : t.ctrl.clk < due := lt_of_mem_dues hmem
    omega

/-- A read whose last command is issued, then a write and a read that gets its data. -/
def forwardedCalls : List DramCall :=
  [.send { addr := 0, typeId := Request.Read }, .tick lastCommand,
    .send { addr := 64, typeId := Request.Write }, .send { addr := 64, typeId := Request.Read }]

/-- The forwarded read has its data at 2 and is called back at 26, behind the read at 25. -/
theorem reads_called_back_of_forwardedCalls :
    let s := runSkip (step ddr5) (LatencyAtMost 24) init forwardedCalls
    let t := runSkip (step ddr5) (LatencyAtMost 24) s (List.replicate 24 (.tick lastCommand))
    s.ctrl.pending.map Request.depart = [25, 2] ∧ s.ctrl.dues = [25, 26] ∧ t.called = [1, 0] ∧
      ∃ served new calls, t.ctrl.pending = s.ctrl.pending.drop served ++ new ∧
        t.called = s.called ++ calls ∧
        ((s.ctrl.pending.take served).filterMap Request.callback).Sublist calls ∧
        (∀ req ∈ s.ctrl.pending.drop served, ∀ n ∈ req.callback, n ∉ t.called) ∧
        ∀ (i : Nat) (due : Int), s.ctrl.dues[i]? = some due →
          due ≤ s.ctrl.clk + 24 + i ∧ (i < served ↔ due ≤ t.ctrl.clk) :=
  ⟨by decide +kernel, by decide +kernel, by decide +kernel,
    reads_called_back (by decide) (reach_runSkip init forwardedCalls) (reach_runSkip _ _)⟩

end DramRun

end TSim4CXL.Ramulator
