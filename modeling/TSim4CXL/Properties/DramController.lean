/-
  The DRAM controller completes each accepted request exactly once, unless it opens a request
  into a full active buffer.

  `m_active_buffer.enqueue` accepts while no more than `max_size` requests are in it, and
  `tick` does not look at what it returns: with one more, the request that is opened is
  copied nowhere and still removed from its own buffer. `completed_once`: in a run none of
  whose ticks does that, every accepted request is in one buffer or has been called back
  once, and the first tick that does it ends this. Maintenance requests have no callback and
  may be lost. The invariant is about owners, the callback of a request with its type: a
  tick moves them between the buffers or calls them back.
-/
import TSim4CXL.Lib.Transition
import TSim4CXL.Model.DramController
import Mathlib.Data.List.Perm.Basic
import Mathlib.Data.List.Nodup

namespace TSim4CXL.Ramulator

open Transition

/-! ## Owners -/

/-- Whose request it is, with its type; nobody's when it has no callback. -/
def Request.owner (req : Request) : Option (Nat × Int) := req.callback.map (·, req.typeId)

def ownersOf (l : List Request) : List (Nat × Int) := l.filterMap Request.owner

@[simp] theorem ownersOf_append (l l' : List Request) :
    ownersOf (l ++ l') = ownersOf l ++ ownersOf l' := List.filterMap_append

@[simp] theorem ownersOf_nil : ownersOf [] = [] := rfl

theorem ownersOf_cons (req : Request) (l : List Request) :
    ownersOf (req :: l) = req.owner.toList ++ ownersOf l := by
  cases h : req.owner <;> simp [ownersOf, h]

@[simp] theorem ownersOf_singleton (req : Request) : ownersOf [req] = req.owner.toList := by
  simp [ownersOf_cons]

theorem ownersOf_eq_nil {l : List Request} :
    ownersOf l = [] ↔ ∀ req ∈ l, req.callback = none := by
  simp [ownersOf, Request.owner]

/-- Writing commands does not change whose requests they are. -/
theorem ownersOf_commands (commands : Nat → Int) (l : List Request) :
    ownersOf (l.mapIdx fun i req => { req with command := commands i }) = ownersOf l := by
  induction l generalizing commands with
  | nil => rfl
  | cons req l ih =>
      simp only [List.mapIdx_cons, ownersOf_cons]
      rw [ih fun i => commands (i + 1)]
      rfl

theorem ownersOf_eraseIdx {l : List Request} {i : Nat} {req : Request} (h : l[i]? = some req) :
    (ownersOf l).Perm (req.owner.toList ++ ownersOf (l.eraseIdx i)) := by
  obtain ⟨hi, rfl⟩ := List.getElem?_eq_some_iff.mp h
  rw [← ownersOf_cons]
  exact (List.getElem_cons_eraseIdx_perm hi).symm.filterMap _

/-- The requests of one callback in a list. -/
def heldIn (l : List Request) (n : Nat) : Nat := l.countP fun req => req.callback = some n

theorem count_ownersOf (l : List Request) (n : Nat) :
    ((ownersOf l).map Prod.fst).count n = heldIn l n := by
  induction l with
  | nil => rfl
  | cons req l ih =>
      rw [ownersOf_cons, List.map_append, List.count_append, ih, heldIn, heldIn,
        List.countP_cons, Nat.add_comm]
      congr 1
      cases h : req.callback <;> simp [Request.owner, h, List.count_singleton]

namespace DramController

variable {C : DramConfig} {P : Parts} {c c' : DramController} {b : Buf}

/-- The owners of all requests in the controller. -/
def owners (c : DramController) : List (Nat × Int) :=
  ownersOf c.pending ++ ownersOf c.active.buffer ++ ownersOf c.read.buffer ++
    ownersOf c.write.buffer ++ ownersOf c.priority.buffer

@[simp] theorem get_set (r : ReqBuffer) : (c.set b r).get b = r := by
  cases b <;> rfl

theorem get_set_of_ne {b' : Buf} (h : b ≠ b') (r : ReqBuffer) : (c.set b' r).get b = c.get b := by
  cases b <;> cases b' <;> first | rfl | exact absurd rfl h

/-- One buffer is replaced: what it gains and loses is what the controller does. -/
theorem owners_set {r : ReqBuffer} {l l' : List (Nat × Int)}
    (h : (ownersOf (c.get b).buffer ++ l).Perm (ownersOf r.buffer ++ l')) :
    (c.owners ++ l).Perm ((c.set b r).owners ++ l') := by
  rw [List.perm_iff_count] at h ⊢
  intro o
  have ho := h o
  cases b <;> simp only [owners, set, get, List.count_append] at ho ⊢ <;> omega

theorem owners_remove {it : Nat} {req : Request} (h : (c.get b).buffer[it]? = some req) :
    c.owners.Perm ((c.remove b it).owners ++ req.owner.toList) := by
  have h' : (ownersOf (c.get b).buffer ++ []).Perm
      (ownersOf ((c.get b).buffer.eraseIdx it) ++ req.owner.toList) := by
    rw [List.append_nil]
    exact (ownersOf_eraseIdx h).trans List.perm_append_comm
  have := owners_set (r := (c.get b).remove it) h'
  rwa [List.append_nil] at this

/-- `enqueue` keeps the request exactly when there is room. -/
theorem owners_enqueue (req : Request) :
    (c.enqueue b req).1.owners.Perm
      (c.owners ++ if (c.get b).size ≤ (c.get b).maxSize then req.owner.toList else []) := by
  have h : (ownersOf (c.get b).buffer ++
      if (c.get b).size ≤ (c.get b).maxSize then req.owner.toList else []).Perm
      (ownersOf ((c.get b).enqueue req).1.buffer ++ []) := by
    unfold ReqBuffer.enqueue
    split <;> simp
  simpa [enqueue] using (owners_set h).symm

theorem owners_push (req : Request) :
    { c with pending := c.pending ++ [req] }.owners.Perm (c.owners ++ req.owner.toList) := by
  rw [List.perm_iff_count]
  intro o
  simp only [owners, ownersOf_append, ownersOf_singleton, List.count_append]
  omega

/-! ## Scheduling -/

/-- What scheduling leaves as it is: the owners, those in the priority buffer and the room in
    the active buffer. -/
structure Kept (c c' : DramController) : Prop where
  owners : c'.owners = c.owners
  priority : ownersOf c'.priority.buffer = ownersOf c.priority.buffer
  size : c'.active.size = c.active.size
  maxSize : c'.active.maxSize = c.active.maxSize

theorem Kept.refl (c : DramController) : Kept c c := ⟨rfl, rfl, rfl, rfl⟩

theorem Kept.trans {c'' : DramController} (h : Kept c c') (h' : Kept c' c'') : Kept c c'' where
  owners := h'.owners.trans h.owners
  priority := h'.priority.trans h.priority
  size := h'.size.trans h.size
  maxSize := h'.maxSize.trans h.maxSize

/-- A buffer is replaced by one with the same owners, of the same length and room. -/
theorem kept_set {l : List Request} (hl : l.length = (c.get b).buffer.length)
    (ho : ownersOf l = ownersOf (c.get b).buffer) :
    Kept c (c.set b { c.get b with buffer := l }) := by
  cases b <;> constructor <;> simp_all [owners, set, get, ReqBuffer.size]

theorem kept_bestReady : Kept c (c.bestReady P b).1 := by
  have h := kept_set (c := c) (b := b) (List.length_mapIdx ..)
    (ownersOf_commands (P.best b (c.get b).buffer).commands _)
  unfold bestReady
  dsimp only
  split <;> exact h

theorem bestReady_found {f : Found} (h : (c.bestReady P b).2 = some f) :
    ((c.bestReady P b).1.get f.buf).buffer[f.it]? = some f.req := by
  unfold bestReady at h ⊢
  dsimp only at h ⊢
  split at h
  · rename_i req hreq
    split at h
    · obtain rfl := Option.some.inj h
      simpa using hreq
    · cases h
  · cases h

theorem kept_setWriteMode : Kept c (c.setWriteMode C) := by
  unfold setWriteMode
  split <;> split <;> exact ⟨rfl, rfl, rfl, rfl⟩

/-- Every way to find a request keeps the owners and points to the request it found. -/
theorem findRequest_spec : Kept c (c.findRequest C P).1 ∧
    ∀ f, (c.findRequest C P).2 = some f →
      ((c.findRequest C P).1.get f.buf).buffer[f.it]? = some f.req := by
  have hk := kept_bestReady (P := P) (c := c) (b := .active)
  have hf := fun f => bestReady_found (P := P) (c := c) (b := .active) (f := f)
  unfold findRequest
  rcases hb : c.bestReady P .active with ⟨c₁, _ | f₁⟩
  · rw [hb] at hk
    dsimp only
    split
    · rename_i req rest hp
      have hset := kept_set (c := c₁) (b := .priority)
        (l := { req with command := P.preqCommand req.finalCommand req.addrVec } :: rest)
        (by simp [get, hp]) (by simp only [get, hp, ownersOf_cons]; rfl)
      refine ⟨hk.trans hset, fun f hfound => ?_⟩
      split at hfound
      · obtain rfl := Option.some.inj hfound
        rfl
      · cases hfound
    · exact ⟨(hk.trans kept_setWriteMode).trans kept_bestReady, fun f => bestReady_found⟩
  · rw [hb] at hk hf
    exact ⟨hk, hf⟩

theorem scheduleRequest_spec : Kept c (c.scheduleRequest C P).1 ∧
    ∀ f, (c.scheduleRequest C P).2 = some f →
      ((c.scheduleRequest C P).1.get f.buf).buffer[f.it]? = some f.req := by
  have h := findRequest_spec (C := C) (P := P) (c := c)
  unfold scheduleRequest
  rcases hfr : c.findRequest C P with ⟨c₁, _ | f₁⟩
  · rw [hfr] at h
    exact h
  · rw [hfr] at h
    refine ⟨h.1, fun f hf => ?_⟩
    dsimp only at hf ⊢
    split at hf
    · cases hf
    · exact h.2 f hf

/-- A maintenance request is nobody's, wherever it ends up. -/
theorem kept_prioritySend (vec : List Int) (type : Int) :
    Kept c (c.prioritySend C (.ofAddrVec vec type)).1 := by
  simp only [prioritySend, enqueue, ReqBuffer.enqueue]
  split
  · constructor <;> simp [owners, set, get, Request.owner, Request.ofAddrVec]
  · exact .refl c

theorem kept_refresh (l : List (List Int × Int)) :
    Kept c (l.foldl (fun c (vec, type) => (c.prioritySend C (.ofAddrVec vec type)).1) c) := by
  induction l generalizing c with
  | nil => exact .refl c
  | cons r l ih => exact (kept_prioritySend r.1 r.2).trans ih

/-- A completed read is called back and leaves the queue. -/
theorem owners_serveCompletedReads : ∃ done,
    (c.owners).Perm (c.serveCompletedReads.1.owners ++ done) ∧
      done.map Prod.fst = c.serveCompletedReads.2 ∧
      c.serveCompletedReads.1.priority = c.priority ∧
      c.serveCompletedReads.1.active = c.active := by
  unfold serveCompletedReads
  split
  · exact ⟨[], by simp, rfl, rfl, rfl⟩
  · rename_i req pending hp
    split
    · refine ⟨req.owner.toList, ?_, ?_, rfl, rfl⟩
      · rw [List.perm_iff_count]
        intro o
        simp only [owners, hp, ownersOf_cons, List.count_append]
        omega
      · cases h : req.callback <;> simp [Request.owner, h]
    · exact ⟨[], by simp, rfl, rfl, rfl⟩

/-- The first half of a tick: some reads are called back, and the rest is where it was. -/
theorem schedule_spec : ∃ done, (c.owners).Perm ((c.schedule C P).1.1.owners ++ done) ∧
    done.map Prod.fst = (c.schedule C P).2 ∧
    ownersOf (c.schedule C P).1.1.priority.buffer = ownersOf c.priority.buffer ∧
    (c.schedule C P).1.1.active.size = c.active.size ∧
    (c.schedule C P).1.1.active.maxSize = c.active.maxSize ∧
    ∀ f, (c.schedule C P).1.2 = some f →
      ((c.schedule C P).1.1.get f.buf).buffer[f.it]? = some f.req := by
  obtain ⟨done, ho, hd, hp, ha⟩ := owners_serveCompletedReads (c := { c with clk := c.clk + 1 })
  have hr :=
    kept_refresh (C := C) (c := { c with clk := c.clk + 1 }.serveCompletedReads.1) P.refresh
  have hs := scheduleRequest_spec (C := C) (P := P) (c := P.refresh.foldl
    (fun c (vec, type) => (c.prioritySend C (.ofAddrVec vec type)).1)
    { c with clk := c.clk + 1 }.serveCompletedReads.1)
  have hk := hr.trans hs.1
  refine ⟨done, ?_, hd, ?_, ?_, ?_, hs.2⟩
  · have := hk.owners
    unfold schedule
    rw [this]
    exact ho
  · exact hk.priority.trans (by rw [hp])
  · exact hk.size.trans (by rw [ha])
  · exact hk.maxSize.trans (by rw [ha])

/-! ## Issuing -/

/-- The request is opened, and `m_active_buffer` has no room for it. -/
def Overfills (P : Parts) (c : DramController) (f : Found) : Prop :=
  f.req.command ≠ f.req.finalCommand ∧ P.isOpening f.req.command = true ∧
    c.active.maxSize < c.active.size

instance (f : Found) : Decidable (Overfills P c f) :=
  inferInstanceAs (Decidable (_ ∧ _ ∧ _))

theorem enqueue_at (b' : Buf) (req' : Request) {req : Request} {it : Nat}
    (h : (c.get b).buffer[it]? = some req) :
    ((c.enqueue b' req').1.get b).buffer[it]? = some req := by
  unfold enqueue
  by_cases hb : b = b'
  · subst hb
    have hi := (List.getElem?_eq_some_iff.mp h).choose
    rw [get_set]
    unfold ReqBuffer.enqueue
    split
    · rwa [List.getElem?_append_left hi]
    · exact h
  · rwa [get_set_of_ne hb]

/-- The copy in `pending` has the owner of the request that is removed. -/
theorem owners_finishRead {req : Request} {it : Nat} (h : (c.get b).buffer[it]? = some req)
    (depart : Int) :
    c.owners.Perm ({ c with pending := c.pending ++ [{ req with depart := depart }] }.remove
      b it).owners := by
  have hpush := owners_push (c := c) { req with depart := depart }
  have h' : ({ c with pending := c.pending ++ [{ req with depart := depart }] }.get
      b).buffer[it]? = some req := by
    cases b <;> exact h
  have hrem := owners_remove h'
  exact (List.perm_append_right_iff _).mp (hpush.symm.trans hrem)

/-- A request that is opened and finds no room is in no buffer any more. -/
theorem owners_open {req : Request} {it : Nat} (h : (c.get b).buffer[it]? = some req) :
    c.owners.Perm (((c.enqueue .active req).1.remove b it).owners ++
      if c.active.maxSize < c.active.size then req.owner.toList else []) := by
  have henq := owners_enqueue (c := c) (b := .active) req
  have hrem := owners_remove (enqueue_at .active req h)
  rw [get] at henq
  by_cases hroom : c.active.size ≤ c.active.maxSize
  · rw [if_neg (Nat.not_lt.mpr hroom), List.append_nil]
    rw [if_pos hroom] at henq
    exact (List.perm_append_right_iff _).mp (henq.symm.trans hrem)
  · rw [if_pos (Nat.not_le.mp hroom)]
    rw [if_neg hroom, List.append_nil] at henq
    exact henq.symm.trans hrem

/-- The second half of a tick: a finished write is called back; the request is lost when it
    overfills the active buffer. -/
theorem issue_spec {f : Found} {calls : List Nat} (hat : (c.get f.buf).buffer[f.it]? = some f.req)
    (htype : ∀ o ∈ f.req.owner, o.2 = Request.Read ∨ o.2 = Request.Write)
    (h : c.issue P f = .ok (c', calls)) :
    ∃ done, done.map Prod.fst = calls ∧
      c.owners.Perm (c'.owners ++ done ++ if Overfills P c f then f.req.owner.toList else []) := by
  unfold issue at h
  split at h
  · rename_i hfinal
    have hov : ¬ Overfills P c f := fun hov => hov.1 hfinal
    rw [if_neg hov]
    simp only [List.append_nil]
    split at h
    · cases h
      refine ⟨[], rfl, ?_⟩
      rw [List.append_nil]
      exact owners_finishRead hat _
    · rename_i hread
      split at h
      · split at h
        · rename_i n hn
          cases h
          exact ⟨f.req.owner.toList, by simp [Request.owner, hn], owners_remove hat⟩
        · cases h
      · rename_i hwrite
        cases h
        have hnone : f.req.owner = none := by
          rcases hreq : f.req.owner with _ | o
          · rfl
          · have hmem : o ∈ f.req.owner := hreq
            obtain ⟨n, -, rfl⟩ := Option.map_eq_some_iff.mp hreq
            rcases htype _ hmem with ht | ht
            · exact absurd ht hread
            · exact absurd ht hwrite
        refine ⟨[], rfl, ?_⟩
        simpa [hnone] using owners_remove hat
  · rename_i hfinal
    split at h
    · rename_i hopen
      cases h
      have hov : Overfills P c f ↔ c.active.maxSize < c.active.size :=
        ⟨fun hov => hov.2.2, fun hfull => ⟨hfinal, hopen, hfull⟩⟩
      refine ⟨[], rfl, ?_⟩
      simp only [hov, List.append_nil]
      exact owners_open hat
    · rename_i hopen
      cases h
      have hov : ¬ Overfills P c f := fun hov => hopen hov.2.1
      exact ⟨[], rfl, by simp [hov]⟩

theorem priority_remove {it : Nat} (h : ownersOf c.priority.buffer = []) :
    ownersOf (c.remove b it).priority.buffer = [] := by
  cases b with
  | priority =>
      rw [ownersOf_eq_nil] at h ⊢
      intro req hreq
      exact h req (List.mem_of_mem_eraseIdx hreq)
  | active | read | write => exact h

theorem priority_issue {f : Found} {calls : List Nat} (h : c.issue P f = .ok (c', calls))
    (hp : ownersOf c.priority.buffer = []) : ownersOf c'.priority.buffer = [] := by
  unfold issue at h
  split at h
  · split at h
    · cases h
      exact priority_remove (c := { c with pending := _ }) hp
    · split at h
      · split at h
        · cases h
          exact priority_remove hp
        · cases h
      · cases h
        exact priority_remove hp
  · split at h
    · cases h
      exact priority_remove hp
    · cases h
      exact hp

/-- A tick calls some requests back and leaves the others in the controller, but for the one
    that overfills the active buffer. -/
theorem tick_spec {calls : List Nat}
    (htype : ∀ o ∈ c.owners, o.2 = Request.Read ∨ o.2 = Request.Write)
    (hp : ownersOf c.priority.buffer = []) (h : c.tick C P = .ok (c', calls)) :
    ownersOf c'.priority.buffer = [] ∧ ∃ done lost, done.map Prod.fst = calls ∧
      c.owners.Perm (c'.owners ++ done ++ lost) ∧
      (lost ≠ [] ↔ ∃ f ∈ (c.schedule C P).1.2, f.req.callback ≠ none ∧ Overfills P c f) := by
  obtain ⟨done, ho, hd, hprio, hsize, hmax, hat⟩ := schedule_spec (C := C) (P := P) (c := c)
  unfold tick at h
  rcases hs : c.schedule C P with ⟨⟨c₁, _ | f⟩, calls₁⟩
  · rw [hs] at h ho hd hprio
    cases h
    refine ⟨hprio.trans hp, done, [], hd, ?_, by simp⟩
    rw [List.append_nil]
    exact ho
  · rw [hs] at h ho hd hprio hsize hmax hat
    dsimp only at h ho hd hprio hsize hmax hat
    split at h
    · rename_i c₂ more hissue
      cases h
      have hmem : ∀ o ∈ f.req.owner, o.2 = Request.Read ∨ o.2 = Request.Write := by
        intro o hown
        refine htype o (ho.mem_iff.mpr (List.mem_append_left _ ?_))
        rw [(owners_remove (hat f rfl)).mem_iff, Option.mem_def.mp hown]
        simp
      obtain ⟨done', hd', ho'⟩ := issue_spec (hat f rfl) hmem hissue
      refine ⟨priority_issue hissue (hprio.trans hp), done ++ done',
        if Overfills P c₁ f then f.req.owner.toList else [], by simp [hd, hd'],
        (ho.trans (ho'.append_right done)).trans ?_, ?_⟩
      · rw [List.perm_iff_count]
        intro o
        simp only [List.count_append]
        omega
      · have hov : Overfills P c₁ f ↔ Overfills P c f := by simp only [Overfills, hsize, hmax]
        by_cases hf : Overfills P c f <;> simp [hov, hf, Request.owner]
    · cases h

/-! ## Sending -/

theorem priority_enqueue (req : Request) (hb : b ≠ .priority) :
    (c.enqueue b req).1.priority = c.priority := by
  cases b with
  | priority => exact absurd rfl hb
  | active | read | write => rfl

theorem enqueue_accepts (req : Request) :
    (c.enqueue b req).2 = decide ((c.get b).size ≤ (c.get b).maxSize) := by
  unfold enqueue ReqBuffer.enqueue
  split <;> simp_all

theorem enqueueSent_spec {req req' : Request} {ok : Bool} (hb : b ≠ .priority)
    (h : c.enqueueSent b req = (c', req', ok)) : c'.priority = c.priority ∧
      c'.owners.Perm (c.owners ++ if ok then req.owner.toList else []) := by
  have hp := priority_enqueue (c := c) { req with arrive := c.clk } hb
  have ho := owners_enqueue (c := c) (b := b) { req with arrive := c.clk }
  have hok := enqueue_accepts (c := c) (b := b) { req with arrive := c.clk }
  unfold enqueueSent at h
  dsimp only at h
  split at h
  · rename_i c₁ henq
    rw [henq] at hp ho hok
    cases h
    rw [if_pos (of_decide_eq_true hok.symm)] at ho
    exact ⟨hp, ho⟩
  · rename_i c₁ henq
    rw [henq] at hp ho hok
    cases h
    rw [if_neg (of_decide_eq_false hok.symm)] at ho
    exact ⟨hp, ho⟩

/-- A request is in the controller once when `send` returns true, and not when it returns
    false. Only reads and writes are sent. -/
theorem send_spec {req req' : Request} {ok : Bool} (h : c.send C req = .ok (c', req', ok)) :
    (req.typeId = Request.Read ∨ req.typeId = Request.Write) ∧ c'.priority = c.priority ∧
      c'.owners.Perm (c.owners ++ if ok then req.owner.toList else []) := by
  have hsent {b : Buf} (hb : b ≠ .priority) (h : c.enqueueSent b
      { req with finalCommand := C.requestTranslations req.typeId } = (c', req', ok)) :
      c'.priority = c.priority ∧
        c'.owners.Perm (c.owners ++ if ok then req.owner.toList else []) := by
    have := enqueueSent_spec hb h
    exact this
  unfold send at h
  dsimp only at h
  split at h
  · rename_i hfwd
    cases h
    refine ⟨.inl hfwd.1, rfl, ?_⟩
    exact owners_push _
  · split at h
    · rename_i hread
      exact ⟨.inl hread, hsent (by decide) (Except.ok.inj h)⟩
    · split at h
      · rename_i hwrite
        exact ⟨.inr hwrite, hsent (by decide) (Except.ok.inj h)⟩
      · cases h

end DramController

/-! ## Runs -/

namespace DramRun

variable {C : DramConfig} {s t : DramRun}

/-- How often the request of a call is in `m_read_buffer`, `m_write_buffer`,
    `m_active_buffer` and `pending`. -/
def inBuffers (c : DramController) (n : Nat) : Nat :=
  heldIn c.read.buffer n + heldIn c.write.buffer n + heldIn c.active.buffer n + heldIn c.pending n

/-- A request for which `send` returned true is in one of the four, once, or has been called
    back once; one for which it returned false neither is nor has been. -/
structure CompletedOnce (s : DramRun) : Prop where
  accepted : ∀ n ∈ s.accepted, inBuffers s.ctrl n + s.called.count n = 1
  refused : ∀ n ∈ s.refused, inBuffers s.ctrl n = 0 ∧ s.called.count n = 0

/-- The tick does not open a request with a callback while more than `max_size` requests are
    in `m_active_buffer`. -/
def Roomy (C : DramConfig) (s : DramRun) : DramCall → Prop
  | .send _ => True
  | .tick P => ∀ f ∈ (s.ctrl.schedule C P).1.2,
      f.req.callback ≠ none → ¬ DramController.Overfills P s.ctrl f

instance (a : DramCall) : Decidable (Roomy C s a) :=
  match a with
  | .send _ => isTrue trivial
  | .tick _ => inferInstanceAs (Decidable (∀ f ∈ _, _))

structure Inv (s : DramRun) : Prop where
  owners : (s.ctrl.owners.map Prod.fst ++ s.called).Perm s.accepted
  types : ∀ o ∈ s.ctrl.owners, o.2 = Request.Read ∨ o.2 = Request.Write
  priority : ownersOf s.ctrl.priority.buffer = []
  nodup : s.accepted.Nodup
  fresh : ∀ n ∈ s.accepted ++ s.refused, n < s.next
  apart : ∀ n ∈ s.refused, n ∉ s.accepted

theorem count_owners {c : DramController} (h : ownersOf c.priority.buffer = []) (n : Nat) :
    (c.owners.map Prod.fst).count n = inBuffers c n := by
  simp only [DramController.owners, h, List.map_append, List.count_append, count_ownersOf,
    List.append_nil, inBuffers]
  omega

theorem Inv.completedOnce (h : Inv s) : CompletedOnce s := by
  have hcount (n : Nat) : inBuffers s.ctrl n + s.called.count n = s.accepted.count n := by
    rw [← count_owners h.priority, ← List.count_append]
    exact h.owners.count_eq n
  constructor
  · intro n hn
    rw [hcount, List.count_eq_one_of_mem h.nodup hn]
  · intro n hn
    have := hcount n
    rw [List.count_eq_zero.mpr (h.apart n hn)] at this
    omega

theorem inv_init : Inv init := by
  constructor <;> simp [init, DramController.init, DramController.owners]

/-- The number of the next call is not in use. -/
theorem Inv.next_notMem (h : Inv s) : s.next ∉ s.accepted ++ s.refused :=
  fun hmem => Nat.lt_irrefl _ (h.fresh _ hmem)

theorem Inv.fresh_succ (h : Inv s) : ∀ n ∈ s.accepted ++ s.refused ++ [s.next], n < s.next + 1 := by
  intro n hn
  rcases List.mem_append.mp hn with hn | hn
  · exact Nat.lt_succ_of_lt (h.fresh n hn)
  · rw [List.mem_singleton.mp hn]
    exact Nat.lt_succ_self _

/-- A request is taken in under the number of its call. -/
theorem Inv.accept {c : DramController} {type : Int} (h : Inv s)
    (htype : type = Request.Read ∨ type = Request.Write)
    (hprio : c.priority = s.ctrl.priority)
    (hown : c.owners.Perm (s.ctrl.owners ++ [(s.next, type)])) :
    Inv { s with ctrl := c, next := s.next + 1, accepted := s.accepted ++ [s.next] } := by
  have hnew := h.next_notMem
  rw [List.mem_append, not_or] at hnew
  constructor
  · refine List.Perm.trans ?_ (h.owners.append_right [s.next])
    rw [List.perm_iff_count]
    intro n
    have := (hown.map Prod.fst).count_eq n
    simp only [List.map_append, List.map_cons, List.map_nil, List.count_append] at this ⊢
    omega
  · intro o ho
    rcases List.mem_append.mp (hown.mem_iff.mp ho) with ho | ho
    · exact h.types o ho
    · rw [List.mem_singleton.mp ho]
      exact htype
  · rw [hprio]
    exact h.priority
  · exact List.nodup_append.mpr ⟨h.nodup, List.nodup_singleton _, by grind⟩
  · intro n hn
    apply h.fresh_succ n
    simp only [List.mem_append] at hn ⊢
    tauto
  · intro n hn hmem
    rcases List.mem_append.mp hmem with hmem | hmem
    · exact h.apart n hn hmem
    · exact hnew.2 (List.mem_singleton.mp hmem ▸ hn)

/-- A request is turned away under the number of its call. -/
theorem Inv.refuse {c : DramController} (h : Inv s) (hprio : c.priority = s.ctrl.priority)
    (hown : c.owners.Perm s.ctrl.owners) :
    Inv { s with ctrl := c, next := s.next + 1, refused := s.refused ++ [s.next] } := by
  have hnew := h.next_notMem
  rw [List.mem_append, not_or] at hnew
  constructor
  · exact ((hown.map Prod.fst).append_right s.called).trans h.owners
  · exact fun o ho => h.types o (hown.mem_iff.mp ho)
  · rw [hprio]
    exact h.priority
  · exact h.nodup
  · intro n hn
    apply h.fresh_succ n
    rwa [List.append_assoc]
  · intro n hn hmem
    rcases List.mem_append.mp hn with hn | hn
    · exact h.apart n hn hmem
    · exact hnew.1 (List.mem_singleton.mp hn ▸ hmem)

theorem inv_send {req : Request} (h : Inv s) (hs : step C s (.send req) = .ok t) : Inv t := by
  simp only [step] at hs
  split at hs
  · rename_i c req' hsend
    cases hs
    obtain ⟨htype, hprio, hown⟩ := DramController.send_spec hsend
    exact h.accept htype hprio hown
  · rename_i c req' hsend
    cases hs
    obtain ⟨_, hprio, hown⟩ := DramController.send_spec hsend
    exact h.refuse hprio (by simpa using hown)
  · cases hs

theorem inv_tick {P : Parts} (h : Inv s) (hs : step C s (.tick P) = .ok t) :
    (Roomy C s (.tick P) → Inv t) ∧ (¬ Roomy C s (.tick P) → ¬ CompletedOnce t) := by
  simp only [step] at hs
  split at hs
  · rename_i c calls htick
    cases hs
    obtain ⟨hprio, done, lost, hd, hperm, hlost⟩ :=
      DramController.tick_spec h.types h.priority htick
    have hroomy : Roomy C s (.tick P) ↔ lost = [] := by
      rw [← not_iff_not, ← ne_eq, hlost]
      simp [Roomy]
    have hids : ((c.owners.map Prod.fst ++ (s.called ++ calls)) ++ lost.map Prod.fst).Perm
        s.accepted := by
      refine List.Perm.trans ?_ h.owners
      rw [List.perm_iff_count]
      intro n
      have := (hperm.map Prod.fst).count_eq n
      simp only [List.map_append, List.count_append, hd] at this ⊢
      omega
    rw [hroomy]
    constructor
    · rintro rfl
      rw [List.map_nil, List.append_nil] at hids
      refine ⟨hids, fun o ho => ?_, hprio, h.nodup, h.fresh, h.apart⟩
      exact h.types o (hperm.mem_iff.mpr (by simp [ho]))
    · intro hne hcompleted
      obtain ⟨o, rest, rfl⟩ := List.exists_cons_of_ne_nil hne
      have hmem : o.1 ∈ s.accepted := hids.mem_iff.mp (by simp)
      have hone := hcompleted.accepted o.1 hmem
      have hcount := hids.count_eq o.1
      rw [List.count_eq_one_of_mem h.nodup hmem] at hcount
      simp only [List.count_append, List.map_cons, List.count_cons_self,
        count_owners hprio] at hcount hone
      omega
  · cases hs

theorem inv_of_reach (h : Reach (step C) (Roomy C) init s) : Inv s := by
  refine Reach.invariant inv_init (fun s a t _ hroomy hinv hstep => ?_) h
  cases a with
  | send req => exact inv_send hinv hstep
  | tick P => exact (inv_tick hinv hstep).1 hroomy

/-- While no tick overfills the active buffer, every accepted request is in one buffer or has
    been called back once. The first tick that overfills it ends that. -/
theorem completed_once (h : Reach (step C) (Roomy C) init s) : CompletedOnce s ∧
    ∀ a t, step C s a = .ok t → (CompletedOnce t ↔ Roomy C s a) := by
  have hinv := inv_of_reach h
  refine ⟨hinv.completedOnce, fun a t hstep => ?_⟩
  cases a with
  | send req => exact iff_of_true (inv_send hinv hstep).completedOnce trivial
  | tick P =>
      obtain ⟨hkeep, hlose⟩ := inv_tick hinv hstep
      refine ⟨fun hc => ?_, fun hroomy => (hkeep hroomy).completedOnce⟩
      by_contra hroomy
      exact hlose hroomy hc

/-- The default watermarks `0.2f` and `0.8f`; the final command of a request is the number of
    its type. -/
def ddr5 : DramConfig where
  wrLowWatermark := 13421773 / 67108864
  wrHighWatermark := 13421773 / 16777216
  rowAddrIdx := 4
  requestTranslations := id

/-- A tick in which every request is ready for its last command and the first is picked. -/
def lastCommand : Parts where
  refresh := []
  best _ l := ⟨fun i => (l.map Request.finalCommand).getD i (-1), 0⟩
  checkReady _ _ := true
  preqCommand final _ := final
  isOpening _ := false
  isClosing _ := false
  readLatency := 24

/-- A tick in which no request is ready for its last command, and the first of a queue is
    opened, by the command 2. -/
def openFirst : Parts :=
  { lastCommand with
    best := fun b l => if b = .active then lastCommand.best b l else ⟨fun _ => 2, 0⟩
    checkReady := fun command _ => command = 2
    isOpening := fun command => command = 2 }

/-- A read is opened and read, a write written, and a read between them gets the data of the
    write. -/
def mixedCalls : List DramCall :=
  [.send { addr := 0, typeId := Request.Read }, .tick openFirst,
    .send { addr := 64, typeId := Request.Write }, .send { addr := 64, typeId := Request.Read },
    .tick lastCommand, .tick lastCommand]

theorem completed_once_of_mixedCalls :
    (runSkip (step ddr5) (Roomy ddr5) init mixedCalls).accepted = [0, 1, 2] ∧
      (runSkip (step ddr5) (Roomy ddr5) init mixedCalls).called = [2, 1] ∧
      CompletedOnce (runSkip (step ddr5) (Roomy ddr5) init mixedCalls) :=
  ⟨by decide +kernel, by decide +kernel, (completed_once (reach_runSkip init mixedCalls)).1⟩

/-- 34 reads, each opened before any of them is read. -/
def openings : List DramCall :=
  (List.range 34).flatMap fun n =>
    [.send { addr := 64 * n, typeId := Request.Read }, .tick openFirst]

/-- The 34th read has been accepted, is in no buffer and has not been called back. -/
theorem opened_read_lost : ∃ s, Reach (step ddr5) anyStep init s ∧ 33 ∈ s.accepted ∧
    inBuffers s.ctrl 33 = 0 ∧ s.called = [] ∧ ¬ CompletedOnce s := by
  have hrun : 33 ∈ (runSkip (step ddr5) anyStep init openings).accepted ∧
      inBuffers (runSkip (step ddr5) anyStep init openings).ctrl 33 = 0 ∧
      (runSkip (step ddr5) anyStep init openings).called = [] := by decide +kernel
  refine ⟨_, reach_runSkip init openings, hrun.1, hrun.2.1, hrun.2.2, fun hc => ?_⟩
  have hone := hc.accepted 33 hrun.1
  rw [hrun.2.1, hrun.2.2] at hone
  cases hone

/-! ## Runs that may lose requests -/

/-- The callbacks invoked are of different accepted requests. Requests may be lost on the way. -/
def Sound (s : DramRun) : Prop := ∃ lost, Inv { s with called := s.called ++ lost }

theorem Sound.send {req : Request} (h : Sound s) (hs : step C s (.send req) = .ok t) :
    Sound t ∧ t.called = s.called ∧ t.next = s.next + 1 ∧
      (t.accepted = s.accepted ++ [s.next] ∨ t.accepted = s.accepted) := by
  obtain ⟨lost, hinv⟩ := h
  have hstep : step C { s with called := s.called ++ lost } (.send req) =
      .ok { t with called := s.called ++ lost } := by
    simp only [step] at hs ⊢
    split at hs <;> cases hs <;> rfl
  have hcalled : t.called = s.called ∧ t.next = s.next + 1 ∧
      (t.accepted = s.accepted ++ [s.next] ∨ t.accepted = s.accepted) := by
    simp only [step] at hs
    split at hs <;> cases hs
    · exact ⟨rfl, rfl, .inl rfl⟩
    · exact ⟨rfl, rfl, .inr rfl⟩
  refine ⟨⟨lost, ?_⟩, hcalled⟩
  rw [hcalled.1]
  exact inv_send hinv hstep

theorem Sound.tick {P : Parts} (h : Sound s) (hs : step C s (.tick P) = .ok t) :
    Sound t ∧ t.next = s.next ∧ t.accepted = s.accepted ∧
      t.called = s.called ++ t.called.drop s.called.length := by
  obtain ⟨lost, hinv⟩ := h
  simp only [step] at hs
  split at hs
  · rename_i c calls htick
    cases hs
    obtain ⟨hprio, done, gone, hd, hperm, -⟩ :=
      DramController.tick_spec hinv.types hinv.priority htick
    refine ⟨⟨lost ++ gone.map Prod.fst, ?_, ?_, hprio, hinv.nodup, hinv.fresh, hinv.apart⟩, rfl,
      rfl, ?_⟩
    · refine List.Perm.trans ?_ hinv.owners
      rw [List.perm_iff_count]
      intro n
      have := (hperm.map Prod.fst).count_eq n
      simp only [List.map_append, List.count_append, hd] at this ⊢
      omega
    · exact fun o ho => hinv.types o (hperm.mem_iff.mpr (by simp [ho]))
    · rw [List.drop_left]
  · cases hs

theorem Sound.nodup (h : Sound s) : s.called.Nodup ∧ s.accepted.Nodup ∧
    (∀ n ∈ s.called, n ∈ s.accepted) ∧ ∀ n ∈ s.accepted, n < s.next := by
  obtain ⟨lost, hinv⟩ := h
  have hown : (s.ctrl.owners.map Prod.fst ++ (s.called ++ lost)).Perm s.accepted := hinv.owners
  have hnodup := hown.nodup_iff.mpr hinv.nodup
  refine ⟨?_, hinv.nodup, fun n hn => hown.mem_iff.mp (by simp [hn]),
    fun n hn => hinv.fresh n (List.mem_append_left _ hn)⟩
  exact (List.nodup_append.mp (List.nodup_append.mp hnodup).2.1).1

theorem sound_init : Sound init := ⟨[], inv_init⟩

/-- The requests accepted and not called back. -/
def waiting (s : DramRun) : List Nat := s.accepted.filter (· ∉ s.called)

theorem Sound.of_reach {ok : DramRun → DramCall → Prop} (hs : Sound s)
    (h : Reach (step C) ok s t) : Sound t := by
  refine Reach.invariant hs (fun s a t _ _ hs hstep => ?_) h
  cases a with
  | send req => exact (hs.send hstep).1
  | tick P => exact (hs.tick hstep).1

/-- What waits is in a buffer or lost. -/
theorem waiting_perm {lost : List Nat} (h : Inv { s with called := s.called ++ lost }) :
    s.waiting.Perm (s.ctrl.owners.map Prod.fst ++ lost) := by
  have hown : (s.ctrl.owners.map Prod.fst ++ (s.called ++ lost)).Perm s.accepted := h.owners
  have hnodup := List.nodup_append.mp (hown.nodup_iff.mpr h.nodup)
  have hlost := (List.nodup_append.mp hnodup.2.1).2.2
  refine (hown.filter (· ∉ s.called)).symm.trans ?_
  rw [List.filter_append, List.filter_append, List.filter_eq_self.mpr, List.filter_eq_nil_iff.mpr,
    List.nil_append, List.filter_eq_self.mpr]
  · intro n hn
    simpa using fun hmem => hlost n hmem n hn rfl
  · simp
  · intro n hn
    simpa using fun hmem => hnodup.2.2 n hn n (List.mem_append_left _ hmem) rfl

/-- A pending read has not been called back. -/
theorem Sound.pending_notMem (h : Sound s) {req : Request} (hreq : req ∈ s.ctrl.pending) {n : Nat}
    (hn : req.callback = some n) : n ∉ s.called := by
  obtain ⟨lost, hinv⟩ := h
  have hown : (s.ctrl.owners.map Prod.fst ++ (s.called ++ lost)).Perm s.accepted := hinv.owners
  have hdisj := (List.nodup_append.mp (hown.nodup_iff.mpr hinv.nodup)).2.2
  have hmem : (n, req.typeId) ∈ s.ctrl.owners := by
    have hpending : (n, req.typeId) ∈ ownersOf s.ctrl.pending :=
      List.mem_filterMap.mpr ⟨req, hreq, by simp [Request.owner, hn]⟩
    simp [DramController.owners, hpending]
  exact fun hcalled => hdisj n (List.mem_map_of_mem hmem) n (List.mem_append_left _ hcalled) rfl

end DramRun

end TSim4CXL.Ramulator
