/-
  The simulator with the shipped DRAM controller is an instance of the open one.

  `abs` fills the DRAM of a device with the requests its controller has accepted and not called
  back. `shipped_refines`: every run, with whatever the scheduler, the refresh manager and the DRAM
  model answer, is then a run of `Sys` with the same log, as long as no device holds 2^32
  requests. What holds of every run of `Sys` so holds of the simulator as it is shipped.
  `shipped_conserved`: as long as no active buffer is overfilled, a controller loses nothing.
-/
import TSim4CXL.Model.Shipped
import TSim4CXL.Properties.DramController
import TSim4CXL.Trace.Top

namespace TSim4CXL

open Transition

/-! ## A device -/

namespace Dram

/-- The payloads the controller has accepted and not called back. -/
def held (c : Dram) : List Payload := c.run.waiting.map c.transOf

/-- Every request sent has its payload. -/
structure Valid (c : Dram) : Prop where
  sound : c.run.Sound
  length : c.trans.length = c.run.next

theorem valid_init : Valid init := ⟨Ramulator.DramRun.sound_init, rfl⟩

variable {c : Dram} {M : MemorySystem} {P : Ramulator.Parts} {run : Ramulator.DramRun}

theorem Valid.waiting_lt (hc : c.Valid) {n : Nat} (hn : n ∈ c.run.waiting) :
    n < c.trans.length := by
  rw [hc.length]
  exact hc.sound.nodup.2.2.2 n (List.mem_filter.mp hn).1

/-- A request sent is held if it was accepted. -/
theorem Valid.send (hc : c.Valid) {p : Payload}
    (hs : c.run.step M.dram (.send (M.request p)) = .ok run) :
    Valid ⟨run, c.trans ++ [p]⟩ ∧
      held ⟨run, c.trans ++ [p]⟩ = c.held ++ if c.run.next ∈ run.accepted then [p] else [] := by
  obtain ⟨hsound, hcalled, hnext, hacc⟩ := hc.sound.send hs
  refine ⟨⟨hsound, by rw [List.length_append, hc.length, hnext]; rfl⟩, ?_⟩
  have hfresh : c.run.next ∉ c.run.accepted := fun hmem =>
    Nat.lt_irrefl _ (hc.sound.nodup.2.2.2 _ hmem)
  have hold : c.run.waiting.map (transOf ⟨run, c.trans ++ [p]⟩) = c.held := by
    refine List.map_congr_left fun n hn => ?_
    have := hc.waiting_lt hn
    simp [transOf, List.getElem?_append_left this]
  rcases hacc with hacc | hacc
  · have hnot : c.run.next ∉ c.run.called := fun hmem => hfresh (hc.sound.nodup.2.2.1 _ hmem)
    have hwait : run.waiting = c.run.waiting ++ [c.run.next] := by
      simp [Ramulator.DramRun.waiting, hacc, hcalled, hnot]
    rw [if_pos (by simp [hacc]), held, hwait, List.map_append, hold]
    simp [transOf, ← hc.length]
  · have hwait : run.waiting = c.run.waiting := by
      simp [Ramulator.DramRun.waiting, hacc, hcalled]
    rw [if_neg (hacc ▸ hfresh), List.append_nil, held, hwait, hold]

theorem Valid.tick (hc : c.Valid) (hs : c.run.step M.dram (.tick P) = .ok run) :
    Valid { c with run := run } :=
  ⟨(hc.sound.tick hs).1, by rw [(hc.sound.tick hs).2.1]; exact hc.length⟩

end Dram

/-! ## Filling in the DRAM -/

/-- The device with `ps` in its DRAM. -/
def MemWrapper.withDram (m : MemWrapper) (ps : List Payload) : MemWrapper := { m with dram := ps }

namespace MemWrapper

theorem hear_withDram (d : Nat) (m : MemWrapper) (ps : List Payload) (e : Event) :
    (m.withDram ps).hear d e = (m.hear d e).withDram ps := by
  unfold hear
  split
  · split <;> rfl
  · rfl

theorem foldl_hear_withDram (d : Nat) (ps : List Payload) (es : List Event) (m : MemWrapper) :
    es.foldl (hear d) (m.withDram ps) = (es.foldl (hear d) m).withDram ps := by
  induction es generalizing m with
  | nil => rfl
  | cons e es ih => rw [List.foldl_cons, hear_withDram, ih, List.foldl_cons]

theorem collect_withDram (now : Nat) (m : MemWrapper) (ps : List Payload) :
    (m.withDram ps).collect now = (m.collect now).withDram ps := by
  unfold collect
  have hq : (m.withDram ps).outQueue = m.outQueue := rfl
  rw [hq]
  split
  · rfl
  · split <;> rename_i hc <;> simp only [updateTransDelay, hc] <;> rfl

theorem issue_withDram (now : Nat) (m : MemWrapper) (ps : List Payload) :
    (m.withDram ps).issue now = (m.issue now).withDram ps := by
  suffices h : ∀ (qs : List Payload) (m : MemWrapper), qs.foldl (sendCommand now) (m.withDram ps) =
      (qs.foldl (sendCommand now) m).withDram ps from h m.memRequest { m with memRequest := [] }
  intro qs
  induction qs with
  | nil => exact fun _ => rfl
  | cons q qs ih =>
      intro m
      have hsend : sendCommand now (m.withDram ps) q = (sendCommand now m q).withDram ps := by
        unfold sendCommand recordRequest
        cases q.command <;> rfl
      rw [List.foldl_cons, hsend, ih, List.foldl_cons]

/-- What an open DRAM does not do leaves what is in it as it is. -/
theorem act_withDram {d n : Nat} {load : DataPtr → Nat → List UInt8} {m m' : MemWrapper} {a : Act}
    {es : List Event} (ha : (Action.mem d a).isDram = false) (ps : List Payload)
    (hs : m.act d n load a = .ok (m', es)) :
    (m.withDram ps).act d n load a = .ok (m'.withDram ps, es) := by
  cases a with
  | peq =>
      simp only [act, peqCb] at hs ⊢
      have hq : (m.withDram ps).peq = m.peq := rfl
      rw [hq]
      split at hs
      · cases hs
      · split at hs <;> cases hs <;> rfl
  | posedge =>
      cases hs
      rfl
  | negedge =>
      cases hs
      rfl
  | simulateDram => cases ha
  | complete => cases ha

/-- The `send` of a tick is a tick of an open DRAM. -/
theorem sendFront_spec {d : Nat} {M : MemorySystem} {m m' : MemWrapper} {c c' : Dram}
    {es : List Event} (hc : c.Valid) (hs : m.sendFront M d c = .ok ((m', c'), es)) : c'.Valid ∧
      ∃ accept, (m.withDram c.held).clockTick d accept = (m'.withDram c'.held, es) := by
  unfold sendFront at hs
  cases hin : m.inQueue with
  | nil =>
      rw [hin] at hs
      cases hs
      exact ⟨hc, true, by rw [clockTick, show (m.withDram c.held).inQueue = [] from hin]⟩
  | cons p q =>
      have htick (accept : Bool) : (m.withDram c.held).clockTick d accept =
          if accept then ({ m with inQueue := q }.withDram (c.held ++ [p]), [.call (.accept d) p])
          else (m.withDram c.held, []) := by
        rw [clockTick, show (m.withDram c.held).inQueue = p :: q from hin]
        rfl
      rw [hin] at hs
      dsimp only at hs
      split at hs
      · cases hs
      · rename_i run hrun
        obtain ⟨hvalid, hheld⟩ := hc.send hrun
        split at hs
        · rename_i hacc
          rw [if_pos hacc] at hheld
          cases hs
          exact ⟨hvalid, true, by rw [htick, hheld]; rfl⟩
        · rename_i hacc
          rw [if_neg hacc, List.append_nil] at hheld
          cases hs
          exact ⟨hvalid, false, by rw [htick, hheld]; rfl⟩

/-- A tick completes some of the requests held, each once. -/
theorem tickDram_spec {d : Nat} {M : MemorySystem} {P : Ramulator.Parts} {m m' : MemWrapper}
    {c c' : Dram} {es : List Event} (hc : c.Valid) (hs : m.tickDram M P d c = .ok ((m', c'), es)) :
      c'.Valid ∧
      ∃ ns : List Nat, ns.Nodup ∧ (∀ n ∈ ns, n ∈ c.run.waiting) ∧
        c'.held = (c.run.waiting.filter (· ∉ ns)).map c.transOf ∧
        m' = { m with outQueue := m.outQueue ++ ns.map c.transOf } ∧
        es = (ns.map c.transOf).map (.call (.complete d)) := by
  unfold tickDram at hs
  split at hs
  · cases hs
  · rename_i run hrun
    cases hs
    obtain ⟨hsound, hnext, hacc, hcalled⟩ := hc.sound.tick hrun
    obtain ⟨hnodup, -, hsub, -⟩ := hsound.nodup
    rw [hcalled] at hnodup
    obtain ⟨-, hns, hdisj⟩ := List.nodup_append.mp hnodup
    refine ⟨hc.tick hrun, run.called.drop c.run.called.length, hns, fun n hn => ?_, ?_, rfl, rfl⟩
    · rw [Ramulator.DramRun.waiting, List.mem_filter, ← hacc]
      refine ⟨hsub n (hcalled ▸ List.mem_append_right _ hn), ?_⟩
      simp only [decide_eq_true_eq]
      exact fun hold => hdisj n hold n hn rfl
    · show run.waiting.map c.transOf = _
      congr 1
      rw [Ramulator.DramRun.waiting, Ramulator.DramRun.waiting, List.filter_filter, hacc, hcalled]
      refine List.filter_congr fun n _ => ?_
      simp [not_or, Bool.and_comm]

theorem complete_withDram {d i n : Nat} (load : DataPtr → Nat → List UInt8) {m : MemWrapper}
    {ids : List Nat} (f : Nat → Payload) (hrun : m.running = true) (hi : i ∈ ids) :
    (m.withDram (ids.map f)).act d n load (.complete (ids.idxOf i)) =
      .ok (({ m with outQueue := m.outQueue ++ [f i] } : MemWrapper).withDram ((ids.erase i).map f),
        [.call (.complete d) (f i)]) := by
  have hat : (m.withDram (ids.map f)).dram[ids.idxOf i]? = some (f i) := by
    show (ids.map f)[ids.idxOf i]? = _
    rw [List.getElem?_map, List.getElem?_idxOf hi, Option.map_some]
  have hleft : (ids.map f).eraseIdx (ids.idxOf i) = (ids.erase i).map f := by
    rw [List.eraseIdx_map, List.erase_eq_eraseIdx_of_idxOf rfl]
  have hrun' : (m.withDram (ids.map f)).running = true := hrun
  show complete d (ids.idxOf i) _ = _
  unfold complete
  rw [if_pos hrun', hat, ← hleft]
  rfl

end MemWrapper

namespace Sys

variable {cfg : Config} {s t : Sys}

def withDram (f : Nat → List Payload) (s : Sys) : Sys :=
  { s with mem := fun d => (s.mem d).withDram (f d) }

theorem emit_withDram (f : Nat → List Payload) (s : Sys) (es : List Event) :
    (s.withDram f).emit es = (s.emit es).withDram f := by
  simp only [emit, withDram, MemWrapper.foldl_hear_withDram]

theorem load_withDram (f : Nat → List Payload) (s : Sys) : (s.withDram f).load = s.load := by
  funext ptr n
  cases ptr <;> rfl

theorem update_withDram (f : Nat → List Payload) (d : Nat) (m : MemWrapper) :
    withDram f { s with mem := Function.update s.mem d m } =
      { s.withDram f with mem := Function.update (s.withDram f).mem d (m.withDram (f d)) } := by
  simp only [withDram, mk.injEq, true_and, and_true]
  funext k
  by_cases hk : k = d
  · subst hk
    simp
  · simp [hk]

theorem Stretch.withDram {a : Action} {es : List Event} (ha : a.isDram = false)
    (f : Nat → List Payload) (ht : Stretch cfg s a es t) :
      Stretch cfg (s.withDram f) a es (t.withDram f) := by
  have henv : (s.withDram f).env = s.env := by
    rw [env, load_withDram]
    rfl
  cases ht with
  | sim hh hact => exact .sim hh (by rw [henv]; exact hact)
  | usp hh hact => exact .usp hh hact
  | dsp hh hact => exact .dsp hh hact
  | ctrl hact => exact .ctrl hact
  | mem hd hact =>
      rw [update_withDram]
      refine .mem hd ?_
      rw [load_withDram]
      exact MemWrapper.act_withDram ha _ hact

theorem step_withDram {a : Action} (ha : a.isDram = false) (f : Nat → List Payload)
    (hs : step cfg s a = .ok t) : step cfg (s.withDram f) a = .ok (t.withDram f) := by
  obtain ⟨hstop, es, u, hu, rfl⟩ := step_eq_ok.mp hs
  exact step_eq_ok.mpr ⟨hstop, es, _, hu.withDram ha f, (emit_withDram f u es).symm⟩

/-! ## One iteration of `simulate_dram` -/

/-- Nobody hears what a DRAM accepts and completes. -/
theorem emit_dram {d : Nat} {es : List Event}
    (hes : ∀ e ∈ es, ∃ p, e = .call (.accept d) p ∨ e = .call (.complete d) p) (s : Sys) :
    s.emit es = { s with log := s.log ++ es } := by
  induction es generalizing s with
  | nil => simp [emit]
  | cons e es ih =>
      have hone : s.emit [e] = { s with log := s.log ++ [e] } := by
        obtain ⟨p, rfl | rfl⟩ := hes e List.mem_cons_self <;> rfl
      have happ := emit_append s [e] es
      rw [List.singleton_append] at happ
      rw [← happ, hone, ih (fun e' he => hes e' (List.mem_cons_of_mem _ he))]
      simp

theorem complete_events {d : Nat} (ps : List Payload) :
    ∀ e ∈ ps.map (Event.call (.complete d)),
      ∃ p, e = .call (.accept d) p ∨ e = .call (.complete d) p := by
  intro e he
  obtain ⟨p, -, rfl⟩ := List.mem_map.mp he
  exact ⟨p, .inr rfl⟩

theorem step_mem {d : Nat} {a : MemWrapper.Act} {m : MemWrapper} {es : List Event}
    (hstop : s.stopped = false) (hd : d < cfg.dramNum)
    (hact : (s.mem d).act d s.activeCores s.load a = .ok (m, es)) :
    step cfg s (.mem d a) = .ok (({ s with mem := Function.update s.mem d m } : Sys).emit es) :=
  step_eq_ok.mpr ⟨hstop, es, _, .mem hd hact, rfl⟩

/-- A DRAM completes one request after the other, in any order. -/
theorem run_complete {d : Nat} {m : MemWrapper} {ids ns : List Nat} {f : Nat → Payload}
    (hd : d < cfg.dramNum) (hrun : m.running = true) (hstop : s.stopped = false)
    (hm : s.mem d = m.withDram (ids.map f)) (hids : ids.Nodup) (hns : ns.Nodup)
    (hsub : ∀ n ∈ ns, n ∈ ids) : ∃ as, run (step cfg) s as = .ok { s with
      mem := Function.update s.mem d
        ({ m with outQueue := m.outQueue ++ ns.map f }.withDram ((ids.filter (· ∉ ns)).map f))
      log := s.log ++ (ns.map f).map (.call (.complete d)) } := by
  induction ns generalizing s m ids with
  | nil =>
      refine ⟨[], ?_⟩
      simp [run, ← hm]
  | cons n ns ih =>
      obtain ⟨hn, hns⟩ := List.nodup_cons.mp hns
      have hrest : ∀ k ∈ ns, k ∈ ids.erase n := by
        intro k hk
        refine (List.mem_erase_of_ne ?_).mpr (hsub k (List.mem_cons_of_mem _ hk))
        rintro rfl
        exact hn hk
      have hact := MemWrapper.complete_withDram (d := d) (n := s.activeCores) s.load f hrun
        (hsub n List.mem_cons_self)
      rw [← hm] at hact
      have hstep := step_mem hstop hd hact
      have hev : ∀ e ∈ [Event.call (.complete d) (f n)], _ := complete_events [f n]
      rw [emit_dram hev] at hstep
      obtain ⟨as, has⟩ := ih (s := { s with
          mem := Function.update s.mem d
            ({ m with outQueue := m.outQueue ++ [f n] }.withDram ((ids.erase n).map f))
          log := s.log ++ [.call (.complete d) (f n)] })
        (m := { m with outQueue := m.outQueue ++ [f n] }) hrun hstop (Function.update_self ..)
        (hids.erase n) hns hrest
      have hleft : (ids.erase n).filter (· ∉ ns) = ids.filter (· ∉ n :: ns) := by
        rw [hids.erase_eq_filter, List.filter_filter]
        refine List.filter_congr fun k _ => ?_
        by_cases hk : k = n <;> simp [hk]
      refine ⟨.mem d (.complete (ids.idxOf n)) :: as, ?_⟩
      simp only [run, hstep, has, hleft, List.map_cons, List.append_assoc, List.singleton_append,
        Function.update_idem]

end Sys

/-! ## Refinement -/

namespace ShippedSys

variable {cfg : Config} {M : MemorySystem} {s t : ShippedSys}

/-- The simulator with an open DRAM that this one is an instance of. -/
def abs (s : ShippedSys) : Sys := s.sys.withDram fun d => (s.dram d).held

/-- No device holds 2^32 requests, which `m_outstanding` could not tell from none. -/
def Uncrowded (cfg : Config) (s : ShippedSys) : Prop :=
  ∀ d < cfg.dramNum, (s.abs.mem d).contents.length < 4294967296

instance : Decidable (s.Uncrowded cfg) := inferInstanceAs (Decidable (∀ d < _, _))

/-- The states of the runs in which no device is overcrowded and every step meets `ok`. -/
def ReachableBy (cfg : Config) (M : MemorySystem) (ok : ShippedSys → ShippedAction → Prop)
    (s : ShippedSys) : Prop :=
  Reach (step cfg M) (fun s a => s.Uncrowded cfg ∧ ok s a) (init cfg) s

/-- A device and its controller change: so does what they are an instance of. -/
theorem abs_update (s : ShippedSys) (d : Nat) (m : MemWrapper) (c : Dram) (es : List Event) :
    abs ⟨({ s.sys with mem := Function.update s.sys.mem d m } : Sys).emit es,
      Function.update s.dram d c⟩ =
      ({ s.abs with mem := Function.update s.abs.mem d (m.withDram c.held) } : Sys).emit es := by
  show Sys.withDram (fun k => (Function.update s.dram d c k).held) _ = _
  rw [← Sys.emit_withDram, Sys.update_withDram]
  dsimp only
  rw [Function.update_self]
  congr 2
  funext k
  by_cases hk : k = d
  · subst hk
    simp
  · simp [hk, abs, Sys.withDram]

theorem clockTick_events {d : Nat} {m : MemWrapper} (accept : Bool) :
    ∀ e ∈ (m.clockTick d accept).2, ∃ p, e = .call (.accept d) p ∨ e = .call (.complete d) p := by
  unfold MemWrapper.clockTick
  split
  · simp
  · split <;> simp

/-- Up to the end of a tick requests only move on inside a device: when `m_outstanding` is 0 then,
    there are none behind `mem_request`. -/
theorem issued_nil {d : Nat} {m m' : MemWrapper} {l es : List Event}
    (hc : Chain (MemWrapper.Move d) m es m') (hf : MemWrapper.Flow d m l)
    (ho : MemWrapper.Outstanding m) (hok : m.contents.length < 4294967296)
    (hes : ∀ e ∈ es, ∃ p, e = .call (.accept d) p ∨ e = .call (.complete d) p)
    (h0 : m'.mOutstanding = 0) : m'.issued = [] := by
  have hf' := (MemWrapper.memFlow_closed.chain hc hf).1.length_eq
  have ho' : MemWrapper.Outstanding m' := MemWrapper.memOutstanding_closed.chain (l := l) hc ho
  have hnone {c : Chan} (hcs : c ≠ .accept d ∧ c ≠ .complete d) : sent c es = [] := by
    refine callsOn_eq_nil _ fun c' p he => ?_
    rw [decide_eq_false_iff_not]
    rintro rfl
    obtain ⟨q, hq | hq⟩ := hes _ he <;> cases hq <;> simp at hcs
  have hlen := hf.1.length_eq
  simp only [sent_append, hnone (c := .peqCb d) (by simp), hnone (c := .ctrlBw d) (by simp),
    List.append_nil, List.length_map, List.length_append] at hf' hlen
  have hle : m'.issued.length ≤ m'.contents.length := by
    simp only [MemWrapper.contents, List.length_append]
    omega
  rw [MemWrapper.Outstanding, h0, u32, Nat.mod_eq_of_lt (by omega)] at ho'
  exact List.eq_nil_of_length_eq_zero ho'.symm

/-- An iteration of `simulate_dram` is a `send`, a tick and the test for the end. -/
theorem simulateShipped_eq_ok {d n now : Nat} {P : Ramulator.Parts} {m m' : MemWrapper}
    {c c' : Dram} {es : List Event} (hs : m.simulateShipped M P d n now c = .ok ((m', c'), es)) :
      m.running = true ∧
      ∃ (m₁ m₂ : MemWrapper) (c₁ : Dram) (es₁ es₂ : List Event),
        ((m.collect now).issue now).sendFront M d c = .ok ((m₁, c₁), es₁) ∧
        m₁.tickDram M P d c₁ = .ok ((m₂, c'), es₂) ∧
        ((n = 0 ∧ m₂.mOutstanding = 0) ∧ m' = { m₂ with running := false } ∧
            es = es₁ ++ es₂ ++ [.dramIdle d] ∨
          ¬ (n = 0 ∧ m₂.mOutstanding = 0) ∧ m' = m₂ ∧ es = es₁ ++ es₂) := by
  unfold MemWrapper.simulateShipped at hs
  split at hs
  · rename_i hrun
    unfold MemWrapper.clockTickShipped at hs
    cases hsend : ((m.collect now).issue now).sendFront M d c with
    | error e => simp [hsend] at hs
    | ok r =>
        obtain ⟨⟨m₁, c₁⟩, es₁⟩ := r
        rw [hsend] at hs
        dsimp only at hs
        cases htick : m₁.tickDram M P d c₁ with
        | error e => simp [htick] at hs
        | ok r =>
            obtain ⟨⟨m₂, c₂⟩, es₂⟩ := r
            rw [htick] at hs
            dsimp only at hs
            split at hs <;> rename_i hidle <;> cases hs
            · exact ⟨hrun, m₁, m₂, c₁, es₁, es₂, rfl, htick, .inl ⟨hidle, rfl, rfl⟩⟩
            · exact ⟨hrun, m₁, _, c₁, es₁, es₂, rfl, htick, .inr ⟨hidle, rfl, rfl⟩⟩
  · cases hs

theorem refine_simulate {d now : Nat} {P : Ramulator.Parts} (hr : Sys.Reachable cfg s.abs)
    (hvalid : (s.dram d).Valid) (hok : s.Uncrowded cfg)
    (hs : step cfg M s (.simulateDram d P now) = .ok t) :
    (∀ k, (s.dram k).Valid → (t.dram k).Valid) ∧ Sys.Reachable cfg t.abs := by
  simp only [step] at hs
  split at hs
  · cases hs
  rename_i hstop
  have hstop : s.abs.stopped = false := by
    show s.sys.stopped = false
    simpa using hstop
  split at hs
  · rename_i hd
    split at hs
    · rename_i m c es hsim
      cases hs
      obtain ⟨hrun, m₁, m₂, c₁, es₁, es₂, hsend, htick, hcase⟩ := simulateShipped_eq_ok hsim
      obtain ⟨hc₁, accept, hclock⟩ := MemWrapper.sendFront_spec hvalid hsend
      obtain ⟨hc, ns, hns, hsub, hheld, rfl, rfl⟩ := MemWrapper.tickDram_spec hc₁ htick
      rw [← MemWrapper.issue_withDram, ← MemWrapper.collect_withDram] at hclock
      refine ⟨fun k hk => ?_, ?_⟩
      · by_cases hkd : k = d
        · subst hkd
          simpa using hc
        · simpa [hkd] using hk
      rw [abs_update]
      have hev : ∀ e ∈ es₁, ∃ p, e = Event.call (.accept d) p ∨ e = .call (.complete d) p := by
        have h := clockTick_events (d := d)
          (m := (((s.sys.mem d).withDram (s.dram d).held).collect now).issue now) accept
        rwa [hclock] at h
      have hact : (s.abs.mem d).act d s.abs.activeCores s.abs.load (.simulateDram accept now) =
          if s.sys.activeCores = 0 ∧ m₁.mOutstanding = 0 then
            .ok ({ m₁.withDram c₁.held with running := false }, es₁ ++ [.dramIdle d])
          else .ok (m₁.withDram c₁.held, es₁) := by
        show MemWrapper.simulateDram d s.sys.activeCores accept now _ = _
        unfold MemWrapper.simulateDram
        rw [if_pos (show (s.abs.mem d).running = true from hrun)]
        dsimp only
        rw [show s.abs.mem d = (s.sys.mem d).withDram (s.dram d).held from rfl, hclock]
        rfl
      rcases hcase with ⟨hidle, rfl, rfl⟩ | ⟨hidle, rfl, rfl⟩
      · -- nothing is left in the device, so the controller has nothing to call back
        have hchain := ((MemWrapper.collect_chain (d := d) now (s.abs.mem d)).trans
          (MemWrapper.issue_chain now _)).trans (MemWrapper.clockTick_chain accept _)
        rw [show s.abs.mem d = (s.sys.mem d).withDram (s.dram d).held from rfl, hclock] at hchain
        have hnil :=
          issued_nil hchain (Sys.ReachableBy.memFlow hr d) (Sys.ReachableBy.memOutstanding hr d)
          (hok d hd) (by simpa using hev) hidle.2
        have hwait : c₁.run.waiting = [] := by
          simp only [MemWrapper.issued, List.append_eq_nil_iff] at hnil
          exact List.map_eq_nil_iff.mp hnil.1.2
        have hnone : ns = [] := List.eq_nil_iff_forall_not_mem.mpr fun n hn => by
          simpa [hwait] using hsub n hn
        subst hnone
        rw [if_pos hidle] at hact
        have hnext := Sys.step_mem hstop hd hact
        have hheld' : c.held = c₁.held := by
          rw [hheld, Dram.held, hwait]
          rfl
        rw [hheld']
        simp only [List.map_nil, List.append_nil]
        exact .tail hr trivial hnext
      · rw [if_neg hidle] at hact
        have hnext := Sys.step_mem hstop hd hact
        rw [Sys.emit_dram hev] at hnext
        have hrun₁ : m₁.running = true := by
          have h := MemWrapper.clockTick_running (d := d) accept
            ((((s.sys.mem d).withDram (s.dram d).held).collect now).issue now)
          rw [hclock, MemWrapper.issue_running, MemWrapper.collect_running] at h
          exact h.trans hrun
        obtain ⟨as, has⟩ := Sys.run_complete (s := { s.abs with
            mem := Function.update s.abs.mem d (m₁.withDram c₁.held), log := s.abs.log ++ es₁ })
          (f := c₁.transOf) hd hrun₁ hstop (Function.update_self ..) (hc₁.sound.nodup.2.1.filter _)
            hns hsub
        have hall : ∀ e ∈ es₁ ++ (ns.map c₁.transOf).map (Event.call (.complete d)),
            ∃ p, e = Event.call (.accept d) p ∨ e = .call (.complete d) p := fun e he =>
          (List.mem_append.mp he).elim (hev e) (Sys.complete_events _ e)
        have hr₂ := reach_run (.tail hr trivial hnext) has
        rw [Function.update_idem, List.append_assoc] at hr₂
        rw [Sys.emit_dram hall, hheld]
        exact hr₂
    · cases hs
  · cases hs

theorem ReachableBy.refines_valid {ok : ShippedSys → ShippedAction → Prop}
    (hr : ReachableBy cfg M ok s) :
    (∀ d, (s.dram d).Valid) ∧ Sys.Reachable cfg s.abs := by
  refine Reach.invariant (P := fun s => (∀ d, (s.dram d).Valid) ∧ Sys.Reachable cfg s.abs)
    ⟨fun _ => Dram.valid_init, show Sys.Reachable cfg (init cfg).abs from .refl⟩
    (fun s a t _ hok hinv hs => ?_) hr
  cases a with
  | other a =>
      simp only [step] at hs
      split at hs
      · cases hs
      · rename_i ha
        split at hs
        · rename_i hstep
          cases hs
          exact ⟨hinv.1, .tail hinv.2 trivial (Sys.step_withDram (by simpa using ha) _ hstep)⟩
        · cases hs
  | simulateDram d P now =>
      obtain ⟨hv, ht⟩ := refine_simulate hinv.2 (hinv.1 d) hok.1 hs
      exact ⟨fun k => hv k (hinv.1 k), ht⟩

/-! ## Conservation -/

/-- The tick after a `send` does not open a request while the active buffer is full. -/
def RoomyTick (M : MemorySystem) (P : Ramulator.Parts) :
    Except ShippedFault ((MemWrapper × Dram) × List Event) → Prop
  | .ok r => Ramulator.DramRun.Roomy M.dram r.1.2.run (.tick P)
  | .error _ => True

instance (P : Ramulator.Parts) (r : Except ShippedFault ((MemWrapper × Dram) × List Event)) :
    Decidable (RoomyTick M P r) :=
  match r with
  | .ok r => inferInstanceAs (Decidable (Ramulator.DramRun.Roomy M.dram r.1.2.run (.tick P)))
  | .error _ => isTrue trivial

/-- No active buffer is overfilled. -/
def Roomy (M : MemorySystem) (s : ShippedSys) : ShippedAction → Prop
  | .other _ => True
  | .simulateDram d P now =>
      RoomyTick M P ((((s.sys.mem d).collect now).issue now).sendFront M d (s.dram d))

instance (a : ShippedAction) : Decidable (s.Roomy M a) :=
  match a with
  | .other _ => isTrue trivial
  | .simulateDram _ P _ => inferInstanceAs (Decidable (RoomyTick M P _))

theorem sendFront_inv {d : Nat} {m m' : MemWrapper} {c c' : Dram} {es : List Event} (hc : c.run.Inv)
    (hs : m.sendFront M d c = .ok ((m', c'), es)) : c'.run.Inv := by
  unfold MemWrapper.sendFront at hs
  split at hs
  · cases hs
    exact hc
  · split at hs
    · cases hs
    · rename_i hrun
      have h := Ramulator.DramRun.inv_send hc hrun
      dsimp only at hs
      split at hs <;> cases hs <;> exact h

theorem tickDram_inv {d : Nat} {P : Ramulator.Parts} {m m' : MemWrapper} {c c' : Dram}
    {es : List Event} (hc : c.run.Inv) (hroomy : Ramulator.DramRun.Roomy M.dram c.run (.tick P))
    (hs : m.tickDram M P d c = .ok ((m', c'), es)) : c'.run.Inv := by
  unfold MemWrapper.tickDram at hs
  split at hs
  · cases hs
  · rename_i hrun
    cases hs
    exact (Ramulator.DramRun.inv_tick hc hrun).1 hroomy

/-- While no tick overfills an active buffer no controller loses a request. -/
theorem ReachableBy.intact (hr : ReachableBy cfg M (Roomy M) s) (d : Nat) : (s.dram d).run.Inv := by
  revert d
  refine Reach.invariant (P := fun s => ∀ d, (s.dram d).run.Inv)
    (fun _ => Ramulator.DramRun.inv_init)
    (fun s a t _ hok hinv hs => ?_) hr
  cases a with
  | other a =>
      simp only [step] at hs
      split at hs
      · cases hs
      · split at hs <;> cases hs
        exact hinv
  | simulateDram d P now =>
      have hroomy : RoomyTick M P _ := hok.2
      simp only [step] at hs
      split at hs
      · cases hs
      split at hs
      · split at hs
        · rename_i m c es hsim
          cases hs
          obtain ⟨-, m₁, m₂, c₁, es₁, es₂, hsend, htick, -⟩ := simulateShipped_eq_ok hsim
          rw [hsend] at hroomy
          intro k
          by_cases hk : k = d
          · subst hk
            simpa using tickDram_inv (sendFront_inv (hinv k) hsend) hroomy htick
          · simpa [hk] using hinv k
        · cases hs
      · cases hs

/-- The payloads in `pending` and the buffers of a controller. -/
def atController (c : Dram) : List Payload := c.run.ctrl.owners.map fun o => c.transOf o.1

/-- The requests in a device: in the queues of the MEMWrapper and its Bridge, and in the
    controller. -/
def contents (s : ShippedSys) (d : Nat) : List Payload :=
  let m := s.sys.mem d
  m.rQueue ++ m.wQueue ++ m.memRequest ++ m.inQueue ++ atController (s.dram d) ++ m.outQueue ++
    m.rackQueue ++ m.wackQueue

/-- What a controller holds is in its buffers, or was opened into a full active buffer. -/
theorem held_perm {c : Dram} (lost : List Nat)
    (hc : Ramulator.DramRun.Inv { c.run with called := c.run.called ++ lost }) :
    c.held.Perm (atController c ++ lost.map c.transOf) := by
  have h := (Ramulator.DramRun.waiting_perm hc).map c.transOf
  rwa [List.map_append, List.map_map] at h

/-! ## The simulator as it is shipped -/

/-- Every run of the simulator with the shipped controller is a run of the one with an open DRAM,
    with the same log. The requests pending there are those in the buffers of the controller, and
    those it has lost. -/
theorem shipped_refines (hr : ReachableBy cfg M anyStep s) :
    Sys.Reachable cfg s.abs ∧ s.abs.log = s.sys.log ∧
      ∀ d, ∃ lost, ((s.abs.mem d).dram).Perm (atController (s.dram d) ++ lost) := by
  obtain ⟨hvalid, hreach⟩ := hr.refines_valid
  refine ⟨hreach, rfl, fun d => ?_⟩
  obtain ⟨lost, hinv⟩ := (hvalid d).sound
  exact ⟨_, held_perm lost hinv⟩

/-- A memory system that takes an address for a row number. -/
def rowMapped : MemorySystem := ⟨fun a => [0, 0, 0, 0, a], Ramulator.DramRun.ddr5⟩

/-- A round in which the controllers find what `P` answers. -/
def round (cfg : Config) (P : Ramulator.Parts) : List ShippedAction := (TSim4CXL.round cfg).map fun
  | .mem d (.simulateDram _ now) => .simulateDram d P now
  | a => .other a

/-- A host writes one packet of four payloads; the device opens requests for 8 rounds and finishes
    them in `n` more. -/
def oneWrite (n : Nat) : ShippedSys :=
  runSkip (step (smallConfig 1 1 4) rowMapped)
    (fun s a => s.Uncrowded (smallConfig 1 1 4) ∧ s.Roomy rowMapped a) (init (smallConfig 1 1 4))
    (.other (.sim 0 (.recv (.fill .write 8 7))) ::
      (List.replicate 8 (round (smallConfig 1 1 4) Ramulator.DramRun.openFirst)).flatten ++
      (List.replicate n (round (smallConfig 1 1 4) Ramulator.DramRun.lastCommand)).flatten)

theorem shipped_refines_of_oneWrite : (Sys.Reachable (smallConfig 1 1 4) (oneWrite 3).abs ∧
      (oneWrite 3).abs.log = (oneWrite 3).sys.log ∧
      ∀ d, ∃ lost, (((oneWrite 3).abs.mem d).dram).Perm
        (atController ((oneWrite 3).dram d) ++ lost)) ∧
    (((oneWrite 3).abs.mem 0).dram).length = 1 ∧
    (sent (.ctrlBw 0) (oneWrite 3).sys.log).length = 2 :=
  ⟨shipped_refines ((reach_runSkip (init (smallConfig 1 1 4)) _).weaken
    (fun _ _ h => ⟨h.1, trivial⟩)), by decide +kernel⟩

/-- While no tick overfills an active buffer, every request a device took in is answered once, or
    is in exactly one queue or buffer between its port and its DRAM. -/
theorem shipped_conserved (hr : ReachableBy cfg M (Roomy M) s) (d : Nat) :
    ((sent (.peqCb d) s.sys.log).map Payload.bare).Perm
      ((sent (.ctrlBw d) s.sys.log).map Payload.bare ++ (s.contents d).map Payload.bare) := by
  have hflow := (Sys.ReachableBy.memFlow hr.refines_valid.2 d).1
  have hinv := hr.intact d
  have hheld := (held_perm [] (by simpa using hinv)).map Payload.bare
  rw [List.map_nil, List.append_nil] at hheld
  rw [List.perm_iff_count] at hflow hheld ⊢
  intro a
  have h1 := hflow a
  have h2 := hheld a
  simp only [abs, Sys.withDram, MemWrapper.withDram, MemWrapper.contents, MemWrapper.issued,
    MemWrapper.completed, contents, List.map_append, List.count_append] at h1 h2 ⊢
  omega

/-- Four requests taken in, two of them still in the device, one of these in the controller. -/
theorem shipped_conserved_of_oneWrite :
    ((sent (.peqCb 0) (oneWrite 3).sys.log).map Payload.bare).Perm
      ((sent (.ctrlBw 0) (oneWrite 3).sys.log).map Payload.bare ++
        ((oneWrite 3).contents 0).map Payload.bare) ∧
    (sent (.peqCb 0) (oneWrite 3).sys.log).length = 4 ∧ ((oneWrite 3).contents 0).length = 2 ∧
    (atController ((oneWrite 3).dram 0)).length = 1 :=
  ⟨shipped_conserved (reach_runSkip (init (smallConfig 1 1 4)) _) 0, by decide +kernel⟩

end ShippedSys

end TSim4CXL
