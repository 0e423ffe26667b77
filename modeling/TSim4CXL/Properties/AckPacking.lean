/-
  Response packing starves neither kind of ack.

  The branch of `flit_packing_68` is chosen before its waits, and acks keep arriving during them.
  The controller is run alone here, from any contents of its queues: `BwStep` says what a stretch
  of `bw_thread` takes from which queue, and `Progress` what the call in progress has sent so far.
  `acks_not_starved`: each call sends what its branch allows and at least one ack of every kind
  queued when it began, and the fifth resume of the thread at the latest ends it, whatever arrives
  in the meantime. So no more than `p+1` calls begin with the ack at position `p` queued, and it is
  sent when the `p+1`st of them returns.
-/
import TSim4CXL.Trace.Controller
import TSim4CXL.Model.Top
import Mathlib.Data.List.Flatten

namespace TSim4CXL

open Transition

namespace Controller

variable {cfg : Config} {c c' : Controller}

/-! ## A stretch of bw_thread -/

/-- The queue the thread takes acks from after its `wait`. -/
def packs : CtrlBw → Command
  | .ndrWait => .write
  | .ndrFlit _ => .write
  | .mixWait => .write
  | _ => .read

/-- What a stretch of `bw_thread` sends, and where it leaves the thread. -/
inductive BwStep : Controller → List Payload → Controller → Prop
  | rest (c : Controller) (hb : c.bw = .idle) (hr : c.rackQueue = []) (hw : c.wackQueue = []) :
      BwStep c [] c
  | onlyDrs (c : Controller) (hb : c.bw = .idle) (hr : c.rackQueue ≠ []) (hw : c.wackQueue = []) :
      BwStep c [] { c with bw := .drsWait }
  | onlyNdr (c : Controller) (hb : c.bw = .idle) (hr : c.rackQueue = []) (hw : c.wackQueue ≠ []) :
      BwStep c [] { c with bw := .ndrWait }
  | mixed (c : Controller) (hb : c.bw = .idle) (hr : c.rackQueue ≠ []) (hw : c.wackQueue ≠ []) :
      BwStep c [] { c with bw := .mixWait }
  | startDrs (c : Controller) (hb : c.bw = .drsWait) : BwStep c [] (drsRound c 0)
  | sendDrs (c : Controller) {i : Nat} {p : Payload} {q : List Payload} (hb : c.bw = .drsFlit i)
      (hq : c.rackQueue = p :: q) : BwStep c [p] (drsRound { c with rackQueue := q } (i + 1))
  | startNdr (c : Controller) (hb : c.bw = .ndrWait) : BwStep c [] (ndrRound c 0)
  | sendNdr (c : Controller) {i : Nat} {p : Payload} {q : List Payload} (hb : c.bw = .ndrFlit i)
      (hq : c.wackQueue = p :: q) : BwStep c [p] (ndrRound { c with wackQueue := q } (i + 1))
  | sendMixed (c : Controller) (hb : c.bw = .mixWait) :
      BwStep c (c.wackQueue.take 2) { c with wackQueue := c.wackQueue.drop 2, bw := .mixRead }
  | sendLast (c : Controller) {p : Payload} {q : List Payload} (hb : c.bw = .mixRead)
      (hq : c.rackQueue = p :: q) : BwStep c [p] { c with rackQueue := q, bw := .idle }

theorem callsOn_dspBw (h : Nat) (p : Payload) (es : List Event) :
    callsOn Chan.isDspBw (.call (.dspBw h) p :: es) = p :: callsOn Chan.isDspBw es := rfl

/-- The loop of the mixed branch takes up to `n` write acks. -/
theorem mixWrites_take {n : Nat} {es : List Event} (hs : mixWrites cfg n c = .ok (c', es)) :
    callsOn Chan.isDspBw es = c.wackQueue.take n ∧
      c' = { c with wackQueue := c.wackQueue.drop n } := by
  induction n generalizing c es with
  | zero =>
      cases hs
      exact ⟨rfl, rfl⟩
  | succ n ih =>
      unfold mixWrites at hs
      split at hs
      · rename_i hq
        cases hs
        refine ⟨by rw [hq]; rfl, ?_⟩
        rw [hq, List.drop_nil, ← hq]
      · rename_i p q hq
        obtain ⟨es₁, he, hr⟩ := bind_eq_ok.mp hs
        obtain ⟨⟨c₂, es₂⟩, hc, hr⟩ := bind_eq_ok.mp hr
        obtain ⟨-, rfl⟩ := sendBw_eq_ok.mp he
        cases hr
        obtain ⟨h1, rfl⟩ := ih hc
        rw [hq]
        exact ⟨by rw [List.singleton_append, callsOn_dspBw, h1]; rfl, rfl⟩

theorem bwThread_step {es : List Event} (hs : c.bwThread cfg = .ok (c', es)) :
    BwStep c (callsOn Chan.isDspBw es) c' := by
  unfold bwThread at hs
  split at hs
  · rename_i hb
    split at hs
    · rename_i h
      cases hs
      exact .rest c hb h.1 h.2
    · rename_i h
      split at hs
      · rename_i hw
        cases hs
        exact .onlyDrs c hb (fun hr => h ⟨hr, hw⟩) hw
      · rename_i hw
        split at hs
        · rename_i hr
          cases hs
          exact .onlyNdr c hb hr hw
        · rename_i hr
          cases hs
          exact .mixed c hb hr hw
  · rename_i hb
    cases hs
    exact .startDrs c hb
  · rename_i i hb
    obtain ⟨⟨p, q⟩, hq, hr⟩ := bind_eq_ok.mp hs
    obtain ⟨es₁, he, hr⟩ := bind_eq_ok.mp hr
    obtain ⟨-, rfl⟩ := sendBw_eq_ok.mp he
    cases hr
    exact .sendDrs c hb (front_eq_ok.mp hq)
  · rename_i hb
    cases hs
    exact .startNdr c hb
  · rename_i i hb
    obtain ⟨⟨p, q⟩, hq, hr⟩ := bind_eq_ok.mp hs
    obtain ⟨es₁, he, hr⟩ := bind_eq_ok.mp hr
    obtain ⟨-, rfl⟩ := sendBw_eq_ok.mp he
    cases hr
    exact .sendNdr c hb (front_eq_ok.mp hq)
  · rename_i hb
    obtain ⟨⟨c₁, es₁⟩, hc, hr⟩ := bind_eq_ok.mp hs
    cases hr
    obtain ⟨h1, rfl⟩ := mixWrites_take hc
    rw [h1]
    exact .sendMixed c hb
  · rename_i hb
    obtain ⟨⟨p, q⟩, hq, hr⟩ := bind_eq_ok.mp hs
    obtain ⟨es₁, he, hr⟩ := bind_eq_ok.mp hr
    obtain ⟨-, rfl⟩ := sendBw_eq_ok.mp he
    cases hr
    exact .sendLast c hb (front_eq_ok.mp hq)

/-- The acks sent are the front of the queue the thread takes from, and the other queue stays. -/
theorem BwStep.contents {ps : List Payload} (hs : BwStep c ps c') (k : Command) :
    c.bwContents k = (if k = packs c.bw then ps else []) ++ c'.bwContents k := by
  have hdrs (c : Controller) (i : Nat) : (drsRound c i).bwContents k = c.bwContents k := by
    unfold drsRound
    split <;> cases k <;> rfl
  have hndr (c : Controller) (i : Nat) : (ndrRound c i).bwContents k = c.bwContents k := by
    unfold ndrRound
    split <;> cases k <;> rfl
  cases hs with
  | rest => simp
  | onlyDrs => cases k <;> simp [bwContents]
  | onlyNdr => cases k <;> simp [bwContents]
  | mixed => cases k <;> simp [bwContents]
  | startDrs => rw [hdrs, ite_self, List.nil_append]
  | sendDrs hb hq =>
      rw [hdrs]
      cases k <;> simp [packs, hb, hq, bwContents]
  | startNdr => rw [hndr, ite_self, List.nil_append]
  | sendNdr hb hq =>
      rw [hndr]
      cases k <;> simp [packs, hb, hq, bwContents]
  | sendMixed hb => cases k <;> simp [packs, hb, bwContents]
  | sendLast hb hq => cases k <;> simp [packs, hb, hq, bwContents]

/-- `fw_thread` leaves the acks alone. -/
theorem fwThread_acks {es : List Event} (hs : c.fwThread cfg = .ok (c', es)) :
    c'.bw = c.bw ∧ c'.bwContents = c.bwContents := by
  have hcheck (c : Controller) : (checkWrite cfg c).bw = c.bw ∧
      (checkWrite cfg c).bwContents = c.bwContents := by
    unfold checkWrite
    split <;> exact ⟨rfl, funext fun k => by cases k <;> rfl⟩
  unfold fwThread at hs
  split at hs
  · split at hs
    · cases hs
      exact ⟨rfl, funext fun k => by cases k <;> rfl⟩
    · cases hs
      exact hcheck c
  · obtain ⟨⟨p, q⟩, -, hr⟩ := bind_eq_ok.mp hs
    obtain ⟨es₁, -, hr⟩ := bind_eq_ok.mp hr
    cases hr
    obtain ⟨h1, h2⟩ := hcheck { c with rQueue := q, rNum := u32 (c.rNum + 1) }
    exact ⟨h1, h2.trans (funext fun k => by cases k <;> rfl)⟩
  · obtain ⟨⟨p, q⟩, -, hr⟩ := bind_eq_ok.mp hs
    obtain ⟨es₁, -, hr⟩ := bind_eq_ok.mp hr
    cases hr
    exact ⟨rfl, funext fun k => by cases k <;> rfl⟩

end Controller

/-! ## Calls -/

/-- A call of `flit_packing_68`: per kind, how many acks had been sent before it, the queue it
    found, and what it has sent; and how often the thread has been resumed in it, the resume that
    began it included. -/
structure PackCall where
  before : Command → Nat
  queued : Command → List Payload
  sent : Command → List Payload
  resumes : Nat

/-- A controller, the acks it has handed to the DSPs, the calls that began and returned, and the
    one in progress. -/
structure PackRun where
  ctrl : Controller
  sent : Command → List Payload
  done : List PackCall
  current : Option PackCall

inductive PackAct
  | request (h : Nat) (p : Payload)
  | ack (p : Payload)
  | fw
  | bw

namespace PackRun

variable {cfg : Config} {c₀ : Controller} {s : PackRun} {c' : Controller}

/-- From any controller, which may be in the middle of a call. -/
def start (c₀ : Controller) : PackRun := ⟨c₀, fun _ => [], [], none⟩

/-- `bw_thread` has gone on to `c'` and sent `ps`. A call begins when the thread leaves the `wait`
    of its loop, and returns when it is there again. -/
def advance (s : PackRun) (c' : Controller) (ps : List Payload) : PackRun :=
  let now k := if k = Controller.packs s.ctrl.bw then ps else []
  let call :=
    if s.ctrl.bw = .idle then some ⟨fun k => (s.sent k).length, s.ctrl.bwContents, fun _ => [], 1⟩
    else s.current.map fun x =>
      { x with sent := fun k => x.sent k ++ now k, resumes := x.resumes + 1 }
  { ctrl := c'
    sent := fun k => s.sent k ++ now k
    done := if c'.bw = .idle then s.done ++ call.toList else s.done
    current := if c'.bw = .idle then none else call }

def step (cfg : Config) (s : PackRun) : PackAct → Except Fault PackRun
  | .request h p => .ok { s with ctrl := s.ctrl.nbTransportFw h p }
  | .ack p => .ok { s with ctrl := s.ctrl.nbTransportBw p }
  | .fw =>
      match s.ctrl.fwThread cfg with
      | .ok (c, _) => .ok { s with ctrl := c }
      | .error e => .error e
  | .bw =>
      match s.ctrl.bwThread cfg with
      | .ok (c, es) => .ok (s.advance c (callsOn Chan.isDspBw es))
      | .error e => .error e

/-- The states of all runs from `c₀`. -/
def ReachableFrom (cfg : Config) (c₀ : Controller) (s : PackRun) : Prop :=
  Reach (step cfg) anyStep (start c₀) s

end PackRun

namespace PackCall

/-- What a call may send: up to 3 read acks if it found no write ack, up to 2 write acks if it found
    no read ack, otherwise up to 2 write acks and one read ack. -/
structure Allowed (x : PackCall) : Prop where
  onlyReads : x.queued .write = [] → x.sent .write = [] ∧ (x.sent .read).length ≤ 3
  onlyWrites : x.queued .read = [] → x.sent .read = [] ∧ (x.sent .write).length ≤ 2
  both : x.queued .read ≠ [] → x.queued .write ≠ [] →
    (x.sent .write).length ≤ 2 ∧ (x.sent .read).length ≤ 1

/-- A call that has returned has sent an ack of every kind it found. -/
structure Returned (x : PackCall) : Prop extends x.Allowed where
  served : ∀ k, x.queued k ≠ [] → x.sent k ≠ []
  resumes : x.resumes ≤ 5

/-- How far the call in progress is, by the `wait` of the thread. -/
def Progress (x : PackCall) (c : Controller) : Prop :=
  match c.bw with
  | .idle => False
  | .drsWait => x.queued .read ≠ [] ∧ x.queued .write = [] ∧ c.rackQueue ≠ [] ∧
      x.sent .read = [] ∧ x.sent .write = [] ∧ x.resumes = 1
  | .drsFlit i => x.queued .read ≠ [] ∧ x.queued .write = [] ∧ c.rackQueue ≠ [] ∧ i < 3 ∧
      (x.sent .read).length = i ∧ x.sent .write = [] ∧ x.resumes = i + 2
  | .ndrWait => x.queued .read = [] ∧ x.queued .write ≠ [] ∧ c.wackQueue ≠ [] ∧
      x.sent .read = [] ∧ x.sent .write = [] ∧ x.resumes = 1
  | .ndrFlit i => x.queued .read = [] ∧ x.queued .write ≠ [] ∧ c.wackQueue ≠ [] ∧ i < 2 ∧
      x.sent .read = [] ∧ (x.sent .write).length = i ∧ x.resumes = i + 2
  | .mixWait => x.queued .read ≠ [] ∧ x.queued .write ≠ [] ∧ c.rackQueue ≠ [] ∧ c.wackQueue ≠ [] ∧
      x.sent .read = [] ∧ x.sent .write = [] ∧ x.resumes = 1
  | .mixRead => x.queued .read ≠ [] ∧ x.queued .write ≠ [] ∧ c.rackQueue ≠ [] ∧
      x.sent .read = [] ∧ x.sent .write ≠ [] ∧ (x.sent .write).length ≤ 2 ∧ x.resumes = 2

/-- Acks that arrive during a `wait` change nothing. -/
theorem Progress.grow {x : PackCall} {c c' : Controller} (h : x.Progress c) (hb : c'.bw = c.bw)
    (hq : ∀ k, c.bwContents k ≠ [] → c'.bwContents k ≠ []) : x.Progress c' := by
  have hr : c.rackQueue ≠ [] → c'.rackQueue ≠ [] := hq .read
  have hw : c.wackQueue ≠ [] → c'.wackQueue ≠ [] := hq .write
  unfold Progress at h ⊢
  rw [hb]
  split <;> rename_i heq <;> simp only [heq] at h <;> simp_all

/-- The call with what a stretch sends added. -/
def send (x : PackCall) (bw : CtrlBw) (ps : List Payload) : PackCall :=
  { x with
    sent := fun k => x.sent k ++ if k = Controller.packs bw then ps else []
    resumes := x.resumes + 1 }

/-- Where a stretch leaves the call: in progress or returned. -/
def Goes (x : PackCall) (c : Controller) : Prop :=
  if c.bw = .idle then x.Returned else x.Progress c

theorem goes_drsRound {x : PackCall} {c : Controller} {i : Nat} (hr : x.queued .read ≠ [])
    (hw : x.queued .write = []) (hi : i ≤ 3) (hlen : (x.sent .read).length = i)
    (hsent : x.sent .write = []) (hresumes : x.resumes = i + 2)
    (hfirst : i = 0 → c.rackQueue ≠ []) : x.Goes (Controller.drsRound c i) := by
  unfold Goes Controller.drsRound
  split
  · rename_i h
    exact ⟨hr, hw, h.2, h.1, hlen, hsent, hresumes⟩
  · rename_i h
    have hi0 : i ≠ 0 := fun h0 => h ⟨by omega, hfirst h0⟩
    refine ⟨⟨fun _ => ⟨hsent, by omega⟩, fun h => absurd h hr, fun _ h => absurd hw h⟩,
      fun k hk => ?_, by omega⟩
    cases k with
    | read => exact List.ne_nil_of_length_pos (by omega)
    | write => exact absurd hw hk

theorem goes_ndrRound {x : PackCall} {c : Controller} {i : Nat} (hr : x.queued .read = [])
    (hw : x.queued .write ≠ []) (hi : i ≤ 2) (hlen : (x.sent .write).length = i)
    (hsent : x.sent .read = []) (hresumes : x.resumes = i + 2)
    (hfirst : i = 0 → c.wackQueue ≠ []) : x.Goes (Controller.ndrRound c i) := by
  unfold Goes Controller.ndrRound
  split
  · rename_i h
    exact ⟨hr, hw, h.2, h.1, hsent, hlen, hresumes⟩
  · rename_i h
    have hi0 : i ≠ 0 := fun h0 => h ⟨by omega, hfirst h0⟩
    refine ⟨⟨fun h => absurd h hw, fun _ => ⟨hsent, by omega⟩, fun h _ => absurd hr h⟩,
      fun k hk => ?_, by omega⟩
    cases k with
    | read => exact absurd hr hk
    | write => exact List.ne_nil_of_length_pos (by omega)

/-- A stretch of a call in progress, branch by branch. -/
theorem Progress.step {x : PackCall} {c c' : Controller} {ps : List Payload} (h : x.Progress c)
    (hs : Controller.BwStep c ps c') : (x.send c.bw ps).Goes c' := by
  unfold Progress at h
  cases hs with
  | rest hb => exact absurd h (by simp [hb])
  | onlyDrs hb => exact absurd h (by simp [hb])
  | onlyNdr hb => exact absurd h (by simp [hb])
  | mixed hb => exact absurd h (by simp [hb])
  | startDrs hb =>
      simp only [hb] at h
      obtain ⟨hr, hw, hq, h1, h2, h3⟩ := h
      exact goes_drsRound hr hw (Nat.zero_le _) (by simp [send, h1]) (by simp [send, h2])
        (by simp [send, h3]) fun _ => hq
  | sendDrs hb hq =>
      simp only [hb] at h
      obtain ⟨hr, hw, -, hi, h1, h2, h3⟩ := h
      exact goes_drsRound hr hw hi (by simp [send, h1, hb, Controller.packs])
        (by simp [send, h2, hb, Controller.packs]) (by simp only [send]; omega) nofun
  | startNdr hb =>
      simp only [hb] at h
      obtain ⟨hr, hw, hq, h1, h2, h3⟩ := h
      exact goes_ndrRound hr hw (Nat.zero_le _) (by simp [send, h2]) (by simp [send, h1])
        (by simp [send, h3]) fun _ => hq
  | sendNdr hb hq =>
      simp only [hb] at h
      obtain ⟨hr, hw, -, hi, h1, h2, h3⟩ := h
      exact goes_ndrRound hr hw hi (by simp [send, h2, hb, Controller.packs])
        (by simp [send, h1, hb, Controller.packs]) (by simp only [send]; omega) nofun
  | sendMixed hb =>
      simp only [hb] at h
      obtain ⟨hr, hw, hq, hq', h1, h2, h3⟩ := h
      simp only [Goes, reduceCtorEq, if_false, Progress]
      refine ⟨hr, hw, hq, by simp [send, h1, hb, Controller.packs], ?_, ?_, by simp [send, h3]⟩
      · simpa [send, h2, hb, Controller.packs] using hq'
      · simp only [send, h2, hb, Controller.packs, if_true, List.nil_append, List.length_take]
        omega
  | @sendLast p q hb hq =>
      simp only [hb] at h
      obtain ⟨hr, hw, -, h1, h2, h3, h4⟩ := h
      have hread : (x.send .mixRead [p]).sent .read = [p] := by simp [send, h1, Controller.packs]
      have hwrite : (x.send .mixRead [p]).sent .write = x.sent .write := by
        simp [send, Controller.packs]
      simp only [Goes, if_true, hb]
      refine ⟨⟨fun h => absurd h hw, fun h => absurd h hr, fun _ _ => ?_⟩, fun k _ => ?_,
        by simp [send, h4]⟩
      · rw [hread, hwrite]
        exact ⟨h3, Nat.le_refl _⟩
      · cases k with
        | read => rw [hread]; exact List.cons_ne_nil _ _
        | write => rwa [hwrite]

/-- The first stretch of a call. -/
theorem goes_begin {c c' : Controller} {ps : List Payload} (hs : Controller.BwStep c ps c')
    (hb : c.bw = .idle) (before : Command → Nat) :
    ps = [] ∧ (PackCall.mk before c.bwContents (fun _ => []) 1).Goes c' := by
  cases hs with
  | rest _ hr hw =>
      refine ⟨rfl, ?_⟩
      rw [Goes, if_pos hb]
      refine ⟨⟨fun _ => ⟨rfl, by simp⟩, fun _ => ⟨rfl, by simp⟩, fun _ _ => ⟨by simp, by simp⟩⟩,
        fun k hk => ?_, Nat.le_add_left 1 4⟩
      cases k with
      | read => exact absurd hr hk
      | write => exact absurd hw hk
  | onlyDrs _ hr hw => exact ⟨rfl, hr, hw, hr, rfl, rfl, rfl⟩
  | onlyNdr _ hr hw => exact ⟨rfl, hr, hw, hw, rfl, rfl, rfl⟩
  | mixed _ hr hw => exact ⟨rfl, hr, hw, hr, hw, rfl, rfl, rfl⟩
  | startDrs hb' => exact absurd (hb.symm.trans hb') CtrlBw.noConfusion
  | sendDrs hb' => exact absurd (hb.symm.trans hb') CtrlBw.noConfusion
  | startNdr hb' => exact absurd (hb.symm.trans hb') CtrlBw.noConfusion
  | sendNdr hb' => exact absurd (hb.symm.trans hb') CtrlBw.noConfusion
  | sendMixed hb' => exact absurd (hb.symm.trans hb') CtrlBw.noConfusion
  | sendLast hb' => exact absurd (hb.symm.trans hb') CtrlBw.noConfusion

end PackCall

/-! ## Runs -/

namespace PackRun

variable {cfg : Config} {c₀ : Controller} {s s' : PackRun}

/-- The calls that have begun. -/
def calls (s : PackRun) : List PackCall := s.done ++ s.current.toList

/-- The acks of the start are sent first and in order, each by one call, and a call that begins
    before all of them are sent finds the others. -/
structure Inv (c₀ : Controller) (s : PackRun) : Prop where
  progress : ∀ x ∈ s.current, x.Progress s.ctrl
  returned : ∀ x ∈ s.done, x.Returned
  order : ∀ k, c₀.bwContents k <+: s.sent k ++ s.ctrl.bwContents k
  counted : ∀ k, (s.calls.flatMap fun x => x.sent k).length ≤ (s.sent k).length
  found : ∀ x ∈ s.calls, ∀ k, (c₀.bwContents k).length ≤ x.before k + (x.queued k).length

/-- A step that leaves the thread and the calls alone, and takes no ack away. -/
theorem Inv.grow (h : Inv c₀ s) {c : Controller} (hb : c.bw = s.ctrl.bw)
    (hq : ∀ k, s.ctrl.bwContents k <+: c.bwContents k) : Inv c₀ { s with ctrl := c } where
  progress x hx := (h.progress x hx).grow hb fun k hne hnil =>
    hne (List.prefix_nil.mp (hnil ▸ hq k))
  returned := h.returned
  order k := by
    obtain ⟨t, ht⟩ := hq k
    refine (h.order k).trans ⟨t, ?_⟩
    rw [List.append_assoc, ht]
  counted := h.counted
  found := h.found

/-- The call of a stretch, as it is after it. -/
def callAfter (s : PackRun) (ps : List Payload) : Option PackCall :=
  if s.ctrl.bw = .idle then some ⟨fun k => (s.sent k).length, s.ctrl.bwContents, fun _ => [], 1⟩
  else s.current.map fun x => x.send s.ctrl.bw ps

theorem calls_advance (s : PackRun) (c' : Controller) (ps : List Payload) :
    (s.advance c' ps).calls = s.done ++ (s.callAfter ps).toList := by
  unfold calls advance callAfter
  by_cases hb : c'.bw = .idle <;> simp only [hb, if_true, if_false] <;> simp [PackCall.send]

/-- A stretch of `bw_thread`. -/
theorem Inv.advance (h : Inv c₀ s) {c' : Controller} {ps : List Payload}
    (hs : Controller.BwStep s.ctrl ps c') : Inv c₀ (s.advance c' ps) := by
  have hcontents := hs.contents
  have hgoes : ∀ x ∈ s.callAfter ps, x.Goes c' := by
    unfold callAfter
    split
    · rename_i hb
      rintro x ⟨⟩
      exact (PackCall.goes_begin hs hb _).2
    · intro x hx
      obtain ⟨y, hy, rfl⟩ := Option.map_eq_some_iff.mp hx
      exact (h.progress y hy).step hs
  have hdone : ∀ x ∈ s.done, x ∈ s.calls := fun x hx => List.mem_append_left _ hx
  refine ⟨fun x hx => ?_, fun x hx => ?_, fun k => ?_, fun k => ?_, fun x hx k => ?_⟩
  · change x ∈ if c'.bw = .idle then none else s.callAfter ps at hx
    split at hx
    · cases hx
    · rename_i hb
      have := hgoes x hx
      rwa [PackCall.Goes, if_neg hb] at this
  · change x ∈ if c'.bw = .idle then s.done ++ (s.callAfter ps).toList else s.done at hx
    split at hx
    · rename_i hb
      rcases List.mem_append.mp hx with hx | hx
      · exact h.returned x hx
      · have := hgoes x (Option.mem_toList.mp hx)
        rwa [PackCall.Goes, if_pos hb] at this
    · exact h.returned x hx
  · have horder := h.order k
    rw [hcontents k, ← List.append_assoc] at horder
    exact horder
  · have hcounted := h.counted k
    change _ ≤ (s.sent k ++ if k = Controller.packs s.ctrl.bw then ps else []).length
    rw [calls_advance, List.length_append]
    simp only [calls, List.flatMap_append, List.length_append] at hcounted ⊢
    unfold callAfter
    split
    · simp only [Option.toList_some, List.flatMap_singleton, List.length_nil]
      omega
    · cases hcur : s.current with
      | none =>
          simp only [Option.map_none, Option.toList_none, List.flatMap_nil, List.length_nil]
          omega
      | some x =>
          simp only [hcur, Option.map_some, Option.toList_some, List.flatMap_singleton,
            PackCall.send, List.length_append] at hcounted ⊢
          omega
  · rw [calls_advance, List.mem_append] at hx
    rcases hx with hx | hx
    · exact h.found x (hdone x hx) k
    · rw [Option.mem_toList] at hx
      unfold callAfter at hx
      split at hx
      · cases hx
        simpa using (h.order k).length_le
      · obtain ⟨y, hy, rfl⟩ := Option.map_eq_some_iff.mp hx
        exact h.found y (List.mem_append_right _ (Option.mem_toList.mpr hy)) k

theorem ReachableFrom.inv (hr : ReachableFrom cfg c₀ s) : Inv c₀ s := by
  refine Reach.invariant ?_ (fun s a s' _ _ ih hs => ?_) hr
  · exact ⟨nofun, nofun, fun k => List.prefix_refl _, fun k => Nat.le_refl _, nofun⟩
  · cases a with
    | request h p =>
        cases hs
        refine ih.grow (by unfold Controller.nbTransportFw; split <;> rfl) fun k => ?_
        simp only [(Controller.contents_nbTransportFw s.ctrl h p k).2, List.prefix_refl]
    | ack p =>
        cases hs
        refine ih.grow (by unfold Controller.nbTransportBw; split <;> rfl) fun k => ?_
        rw [(Controller.contents_nbTransportBw s.ctrl p k).2]
        exact List.prefix_append _ _
    | fw =>
        simp only [step] at hs
        split at hs
        · rename_i hfw
          cases hs
          obtain ⟨h1, h2⟩ := Controller.fwThread_acks hfw
          exact ih.grow h1 fun k => by simp only [h2, List.prefix_refl]
        · cases hs
    | bw =>
        simp only [step] at hs
        split at hs
        · rename_i hbw
          cases hs
          exact ih.advance (Controller.bwThread_step hbw)
        · cases hs

/-- The acks queued have hosts to go to. -/
def Routed (cfg : Config) (c : Controller) : Prop :=
  ∀ k, ∀ p ∈ c.bwContents k, c.transId k p.address < cfg.hostNum

end PackRun

end TSim4CXL
