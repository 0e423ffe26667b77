/-
  Labelled transition systems with a partial step function, and one rule for
  systems made of components that talk by broadcasting events.

  A step is `step : σ → α → Except φ σ`: the label `α` picks what happens, the
  error `φ` says why it cannot. `Reach` collects the states reached by steps that
  each satisfy a side condition in the state before them. `run` and `runSkip` do the
  same as functions, for one concrete list of labels.

  `Component` and `View` are the compositional part. A system that appends what it
  emits to a log is looked at through one component: each step is either a chain of
  moves of that component, which emit some events, or a step of somebody else, whose
  events the component hears. A relation between the component and the log that both
  cases preserve (`Component.Closed`) holds in every reachable state (`View.always`).
-/
import Mathlib.Data.List.Basic

namespace Transition

variable {σ α φ τ β ψ ε κ : Type*}

/-! ## Reachable states -/

/-- States reached from `init` by steps that satisfy `ok` in the state before them. -/
inductive Reach (step : σ → α → Except φ σ) (ok : σ → α → Prop) (init : σ) : σ → Prop
  | refl : Reach step ok init init
  | tail {s s' : σ} {a : α} : Reach step ok init s → ok s a → step s a = .ok s' →
      Reach step ok init s'

/-- Every step is allowed. -/
def anyStep (_ : σ) (_ : α) : Prop := True

variable {step : σ → α → Except φ σ} {ok : σ → α → Prop} {init : σ}

theorem Reach.weaken {ok' : σ → α → Prop} (hok : ∀ s a, ok s a → ok' s a) {s : σ}
    (h : Reach step ok init s) : Reach step ok' init s := by
  induction h with
  | refl => exact .refl
  | tail _ ha hs ih => exact .tail ih (hok _ _ ha) hs

theorem Reach.any {s : σ} (h : Reach step ok init s) : Reach step anyStep init s :=
  h.weaken fun _ _ _ => trivial

/-- The invariant rule. The step case may use that the state before is reachable. -/
theorem Reach.invariant {P : σ → Prop} (h0 : P init)
    (hstep : ∀ s a s', Reach step ok init s → ok s a → P s → step s a = .ok s' → P s')
    {s : σ} (h : Reach step ok init s) : P s := by
  induction h with
  | refl => exact h0
  | tail hr ha hs ih => exact hstep _ _ _ hr ha ih hs

/-- A run of a system is a run of the part of it that `f` keeps. -/
theorem Reach.map {step' : τ → β → Except ψ τ} {f : σ → τ}
    (hstep : ∀ s a s', step s a = .ok s' → ∃ b, step' (f s) b = .ok (f s')) {s : σ}
    (h : Reach step ok init s) : Reach step' anyStep (f init) (f s) := by
  induction h with
  | refl => exact .refl
  | tail _ _ hs ih =>
      obtain ⟨b, hb⟩ := hstep _ _ _ hs
      exact .tail ih trivial hb

/-! ## Running a list of labels -/

/-- Run the labels one after the other; the first step that cannot be taken ends the run. -/
def run (step : σ → α → Except φ σ) : σ → List α → Except φ σ
  | s, [] => .ok s
  | s, a :: as =>
      match step s a with
      | .ok s' => run step s' as
      | .error e => .error e

theorem reach_run {s₀ s s' : σ} {as : List α} (h0 : Reach step anyStep s₀ s)
    (h : run step s as = .ok s') : Reach step anyStep s₀ s' := by
  induction as generalizing s with
  | nil =>
      simp only [run, Except.ok.injEq] at h
      exact h ▸ h0
  | cons a as ih =>
      simp only [run] at h
      cases hs : step s a with
      | error e => simp [hs] at h
      | ok t =>
          rw [hs] at h
          exact ih (.tail h0 trivial hs) h

/-- Two systems that keep a relation step by step keep it over a run: where one can go, the other
    can. -/
theorem run_lockstep {step' : σ → α → Except φ σ} {R : σ → σ → Prop}
    (hstep : ∀ s s' t a, R s s' → step s a = .ok t → ∃ t', step' s' a = .ok t' ∧ R t t')
    {s s' t : σ} {as : List α} (hR : R s s') (h : run step s as = .ok t) :
    ∃ t', run step' s' as = .ok t' ∧ R t t' := by
  induction as generalizing s s' with
  | nil =>
      simp only [run, Except.ok.injEq] at h
      exact ⟨s', rfl, h ▸ hR⟩
  | cons a as ih =>
      simp only [run] at h
      cases hs : step s a with
      | error e => simp [hs] at h
      | ok u =>
          rw [hs] at h
          obtain ⟨u', hs', hR'⟩ := hstep _ _ _ _ hR hs
          obtain ⟨t', ht', hRt⟩ := ih hR' h
          exact ⟨t', by simp only [run, hs', ht'], hRt⟩

/-- Run the labels that can be taken and whose step meets the side condition, skip the others. -/
def runSkip (step : σ → α → Except φ σ) (ok : σ → α → Prop) [∀ s a, Decidable (ok s a)] :
    σ → List α → σ
  | s, [] => s
  | s, a :: as =>
      if ok s a then
        match step s a with
        | .ok s' => runSkip step ok s' as
        | .error _ => runSkip step ok s as
      else runSkip step ok s as

theorem reach_runSkip_of [∀ s a, Decidable (ok s a)] {s₀ s : σ} (as : List α)
    (h0 : Reach step ok s₀ s) : Reach step ok s₀ (runSkip step ok s as) := by
  induction as generalizing s with
  | nil => exact h0
  | cons a as ih =>
      simp only [runSkip]
      split
      · rename_i ha
        split
        · rename_i t hs
          exact ih (.tail h0 ha hs)
        · exact ih h0
      · exact ih h0

/-- Whatever `runSkip` ends in is reachable by allowed steps. -/
theorem reach_runSkip [∀ s a, Decidable (ok s a)] (s₀ : σ) (as : List α) :
    Reach step ok s₀ (runSkip step ok s₀ as) := reach_runSkip_of as .refl

instance (s : σ) (a : α) : Decidable (anyStep s a) := isTrue trivial

/-! ## Looking at a system through one component -/

/-- A component that logs what it emits: what hearing an event of somebody else does to it,
    which events it never emits itself, and its moves with the events they emit. -/
structure Component (κ ε : Type*) where
  hear : κ → ε → κ
  foreign : ε → Prop
  move : κ → List ε → κ → Prop

/-- Several moves in a row, their events one after the other. -/
inductive Chain (R : κ → List ε → κ → Prop) : κ → List ε → κ → Prop
  | nil (c : κ) : Chain R c [] c
  | cons {c c' c'' : κ} {es es' : List ε} : R c es c' → Chain R c' es' c'' →
      Chain R c (es ++ es') c''

theorem Chain.single {R : κ → List ε → κ → Prop} {c c' : κ} {es : List ε} (h : R c es c') :
    Chain R c es c' := by
  simpa using Chain.cons h (.nil c')

theorem Chain.trans {R : κ → List ε → κ → Prop} {c c' c'' : κ} {es es' : List ε}
    (h : Chain R c es c') (h' : Chain R c' es' c'') : Chain R c (es ++ es') c'' := by
  induction h with
  | nil _ => simpa using h'
  | cons hr _ ih => simpa using Chain.cons hr (ih h')

theorem Chain.mono {R S : κ → List ε → κ → Prop} (hR : ∀ c es c', R c es c' → S c es c')
    {c c' : κ} {es : List ε} (h : Chain R c es c') : Chain S c es c' := by
  induction h with
  | nil _ => exact .nil _
  | cons hr _ ih => exact .cons (hR _ _ _ hr) ih

/-- A measure no move raises is kept by every move of a chain that keeps it. -/
theorem Chain.of_measure {R : κ → List ε → κ → Prop} {f : κ → Nat}
    (hf : ∀ c es c', R c es c' → f c' ≤ f c) {c c' : κ} {es : List ε} (h : Chain R c es c')
    (heq : f c' = f c) : Chain (fun c es c' => R c es c' ∧ f c' = f c) c es c' := by
  have hle {c c' : κ} {es : List ε} (h : Chain R c es c') : f c' ≤ f c := by
    induction h with
    | nil _ => exact Nat.le_refl _
    | cons hr _ ih => exact Nat.le_trans ih (hf _ _ _ hr)
  induction h with
  | nil _ => exact .nil _
  | cons hr hrest ih =>
      have h1 := hf _ _ _ hr
      have h2 := hle hrest
      exact .cons ⟨hr, by omega⟩ (ih (by omega))

/-- What holds of the events of every move holds of the events of a chain. -/
theorem Chain.forall_mem {R : κ → List ε → κ → Prop} {p : ε → Prop}
    (hR : ∀ c es c', R c es c' → ∀ e ∈ es, p e) {c c' : κ} {es : List ε} (h : Chain R c es c') :
    ∀ e ∈ es, p e := by
  induction h with
  | nil _ => simp
  | cons hr _ ih =>
      intro e he
      rcases List.mem_append.mp he with he | he
      · exact hR _ _ _ hr e he
      · exact ih e he

/-- What holds of all events of a chain holds of those of every move. -/
theorem Chain.restrict {R : κ → List ε → κ → Prop} {p : ε → Prop} {c c' : κ} {es : List ε}
    (h : Chain R c es c') (hp : ∀ e ∈ es, p e) :
    Chain (fun c es c' => R c es c' ∧ ∀ e ∈ es, p e) c es c' := by
  induction h with
  | nil _ => exact .nil _
  | cons hr _ ih =>
      exact .cons ⟨hr, fun e he => hp e (List.mem_append_left _ he)⟩
        (ih fun e he => hp e (List.mem_append_right _ he))

/-- A step that returns the pair `r` is a chain when `r` is. -/
theorem Chain.of_ok {R : κ → List ε → κ → Prop} {c c' : κ} {es : List ε} {r : κ × List ε}
    (hs : (.ok r : Except φ (κ × List ε)) = .ok (c', es)) (h : Chain R c r.2 r.1) :
    Chain R c es c' := by
  cases hs
  exact h

/-- A relation between a component and the log that survives hearing one foreign event and
    every single move. -/
structure Component.Closed (C : Component κ ε) (P : κ → List ε → Prop) : Prop where
  hear : ∀ c l e, C.foreign e → P c l → P (C.hear c e) (l ++ [e])
  move : ∀ c l es c', C.move c es c' → P c l → P c' (l ++ es)

namespace Component.Closed

variable {C : Component κ ε} {P : κ → List ε → Prop}

theorem foldl_hear (hP : C.Closed P) (es : List ε) {c : κ} {l : List ε}
    (hes : ∀ e ∈ es, C.foreign e) (h : P c l) : P (es.foldl C.hear c) (l ++ es) := by
  induction es generalizing c l with
  | nil => simpa using h
  | cons e es ih =>
      have he : C.foreign e := hes e List.mem_cons_self
      have := ih (fun e' h' => hes e' (List.mem_cons_of_mem _ h')) (hP.hear c l e he h)
      simpa using this

theorem chain (hP : C.Closed P) {c c' : κ} {l es : List ε} (hc : Chain C.move c es c')
    (h : P c l) : P c' (l ++ es) := by
  induction hc generalizing l with
  | nil _ => simpa using h
  | cons hr _ ih => simpa using ih (hP.move _ _ _ _ hr h)

theorem and {Q : κ → List ε → Prop} (hP : C.Closed P) (hQ : C.Closed Q) :
    C.Closed fun c l => P c l ∧ Q c l where
  hear c l e he h := ⟨hP.hear c l e he h.1, hQ.hear c l e he h.2⟩
  move c l es c' hm h := ⟨hP.move c l es c' hm h.1, hQ.move c l es c' hm h.2⟩

/-- What is closed under moves is closed under chains of them. -/
theorem transfer {C' : Component κ ε} (hP : C.Closed P) (hhear : ∀ c e, C'.hear c e = C.hear c e)
    (hforeign : ∀ e, C'.foreign e → C.foreign e)
    (hmove : ∀ c es c', C'.move c es c' → Chain C.move c es c') : C'.Closed P where
  hear c l e he h := by
    rw [hhear]
    exact hP.hear c l e (hforeign e he) h
  move c l es c' hm h := hP.chain (hmove c es c' hm) h

/-- A relation that is closed as long as `P` holds, together with `P`. -/
theorem and_of {Q : κ → List ε → Prop} (hP : C.Closed P)
    (hhear : ∀ c l e, C.foreign e → P c l → Q c l → Q (C.hear c e) (l ++ [e]))
    (hmove : ∀ c l es c', C.move c es c' → P c l → Q c l → Q c' (l ++ es)) :
    C.Closed fun c l => P c l ∧ Q c l where
  hear c l e he h := ⟨hP.hear c l e he h.1, hhear c l e he h.1 h.2⟩
  move c l es c' hm h := ⟨hP.move c l es c' hm h.1, hmove c l es c' hm h.1 h.2⟩

end Component.Closed

/-- A system in which one finds the component `C`: every step is a chain of its moves, or
    somebody else's step whose events it hears. -/
structure View (C : Component κ ε) (step : σ → α → Except φ σ) (log : σ → List ε) where
  comp : σ → κ
  covers : ∀ {s a s'}, step s a = .ok s' → ∃ es, log s' = log s ++ es ∧
    (Chain C.move (comp s) es (comp s') ∨
      (∀ e ∈ es, C.foreign e) ∧ comp s' = es.foldl C.hear (comp s))

variable {C : Component κ ε} {log : σ → List ε} {P : κ → List ε → Prop}

theorem View.step_closed (V : View C step log) (hP : C.Closed P) {s s' : σ} {a : α}
    (hs : step s a = .ok s') (h : P (V.comp s) (log s)) : P (V.comp s') (log s') := by
  obtain ⟨es, hl, hcase⟩ := V.covers hs
  rw [hl]
  rcases hcase with hmove | ⟨hes, hc⟩
  · exact hP.chain hmove h
  · rw [hc]
    exact hP.foldl_hear es hes h

/-- A closed relation that holds at the start holds in every reachable state. -/
theorem View.always (V : View C step log) (hP : C.Closed P)
    (h0 : P (V.comp init) (log init)) {s : σ} (h : Reach step ok init s) :
    P (V.comp s) (log s) :=
  Reach.invariant (P := fun s => P (V.comp s) (log s)) h0
    (fun _ _ _ _ _ hp hs => V.step_closed hP hs hp) h

end Transition
