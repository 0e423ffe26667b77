/-
  Payload ownership across the pools.

  `payloads_owned` runs the pools beside the simulator, over the log of any reachable state. No
  object is released at count 0; objects are taken at count 0 and released at count 1, and between
  two releases an object is taken again. A lookup of `device_map` gives the device of the packet,
  the memcpy of a write reads the bytes it was created with. The objects in all queues, event
  queues and incoming slots are different ones, counted 1, not free and hold their requests. A
  released object was in one place before its step and is in none after it; what `clock_negedge`
  reads of it after the END_RESP call is still its own data.
-/
import TSim4CXL.Properties.Lifetimes
import TSim4CXL.Trace.Control

namespace TSim4CXL

open Transition

/-- The packet a payload was created for. -/
def packetOf (l : List Event) (p : Payload) : Option Packet :=
  match p.command with
  | .read => (readsOf p.id l)[p.packet]?
  | .write => (writesOf p.id l)[p.packet]?

namespace Pools

/-- What event `e` of a run with log `l` finds in the pools. -/
structure Finds (P : Pools) (l : List Event) (e : Event) : Prop where
  taken : ∀ x, P.takes e = some x → P.refCount x = 0
  released : ∀ t, e.ends = some t → P.refCount (P.object t) = 1
  device : ∀ d p, e = .call (.memFw d) p →
    P.deviceMap (P.object (.host p.bare)) = d ∧ (packetOf l p).map (·.deviceId) = some d
  stored : ∀ d p, e = .call (.peqCb d) p → (P.heap (P.object (.host p.bare))).bare = p.bare ∧
    (p.command = .write → P.heap (P.object (.host p.bare)) = p)
  acked : ∀ h p, e = .call (.endResp h) p → (P.heap (P.object (.dram p.bare))).bare = p.bare ∧
    (p.command = .read → (P.heap (P.object (.dram p.bare))).dataPtr = p.dataPtr)

/-- Event `e` after `l` takes object `x`. -/
def Takes (heap : Object → Payload) (l : List Event) (e : Event) (x : Object) : Prop :=
  ∃ P, after heap l = some P ∧ P.takes e = some x

/-- Event `e` after `l` releases object `x`. -/
def Releases (heap : Object → Payload) (l : List Event) (e : Event) (x : Object) : Prop :=
  ∃ P t, after heap l = some P ∧ e.ends = some t ∧ P.object t = x

variable {l : List Event} {P : Pools} {e : Event}

theorem Kept.released (hk : Kept l P) (hf : Fits l e) {t : Tenant} (ht : e.ends = some t) :
    P.refCount (P.object t) = 1 := by
  cases e with
  | call c p =>
      cases c with
      | peqCb d =>
          cases ht
          exact hk.keeps.one _ hf.2.1
      | endResp h =>
          cases ht
          exact hk.keeps.one _ hf.2.1
      | _ => cases ht
  | _ => cases ht

theorem Kept.taken (hk : Kept l P) {x : Object} (hx : P.takes e = some x) : P.refCount x = 0 := by
  cases e with
  | call c p =>
      cases c with
      | create h =>
          cases hx
          exact hk.keeps.next_count _
      | peqCb d =>
          cases hx
          exact hk.keeps.next_count _
      | _ => cases hx
  | _ => cases hx

end Pools

/-- A step that consumes an ack is one of the clock edges. -/
theorem SimWrapper.Turn.data_of_endResp {h : Nat} {env : SimEnv} {w w' : SimWrapper}
    {b : SimWrapper.Act} {es : List Event} {p : Payload} (ht : SimWrapper.Turn h env w b es w')
    (he : .call (.endResp h) p ∈ es) : ∀ x ∈ es, x.Data h := by
  cases ht with
  | data hf => exact hf.2.2.2
  | walk _ _ _ _ _ hes => exact absurd (hes _ he) nofun
  | pass => simp at he
  | free => simp at he
  | finish =>
      rcases List.mem_append.mp he with he | he <;> split at he <;> simp at he

namespace Sys

variable {cfg : Config} {s s' : Sys} {ok : Sys → Action → Prop}

/-- A created payload is for the device of its packet. -/
theorem ReachableBy.packetOf_device (hr : ReachableBy cfg ok s) {p : Payload}
    (hp : p ∈ sent (.create p.id) s.log) :
    (packetOf s.log p).map (·.deviceId) = some p.deviceId := by
  rcases hr.mem_create hp with ⟨n, hn, i, -, he⟩ | ⟨n, hn, i, -, he⟩
  · have hc : p.command = .read := by rw [he]; rfl
    have hq : p.packet = n := by rw [he]; rfl
    have hd : p.deviceId = ((readsOf p.id s.log)[n]).deviceId := by
      conv_lhs => rw [he]
      rfl
    simp [packetOf, hc, hq, hd, hn]
  · have hc : p.command = .write := by rw [he]; rfl
    have hq : p.packet = n := by rw [he]; rfl
    have hd : p.deviceId = ((writesOf p.id s.log)[n]).deviceId := by
      conv_lhs => rw [he]
      rfl
    simp [packetOf, hc, hq, hd, hn]

/-- Every event of a run finds the objects as the code expects them. -/
theorem ReachableBy.finds (hr : ReachableBy cfg ok s) {l₁ l₂ : List Event} {e : Event} {P : Pools}
    (hl : s.log = l₁ ++ e :: l₂) (hk : P.Kept l₁) : P.Finds s.log e := by
  have hf := hr.fits_of_split l₁ e l₂ hl
  refine ⟨fun x => hk.taken, fun t => hk.released hf, ?_, ?_, ?_⟩
  · rintro d p rfl
    obtain ⟨rfl, hlive⟩ := hf
    have hm : p ∈ callsOn Chan.isMemFw s.log :=
      (mem_callsOn _).mpr ⟨_, rfl, hl ▸ List.mem_append_right _ List.mem_cons_self⟩
    exact ⟨(hk.good _ hlive).2.1, hr.packetOf_device (hr.memFw_create hm)⟩
  · rintro d p rfl
    obtain ⟨-, hlive, -, -, hc⟩ := hf
    exact ⟨(hk.good _ hlive).1, fun hw => (hk.good _ hlive).2.2 p hc rfl hw⟩
  · rintro h p rfl
    obtain ⟨hack, hlive, hptr⟩ := hf
    refine ⟨(hk.good _ hlive).1, fun hc => ?_⟩
    rw [hptr hc]
    exact (hk.good _ hlive).2 hack hc

theorem ReachableBy.kept (hr : ReachableBy cfg ok s) (heap : Object → Payload) {l₁ l₂ : List Event}
    (hl : s.log = l₁ ++ l₂) : ∃ P, Pools.after heap l₁ = some P ∧ P.Kept l₁ :=
  Pools.after_eq_some heap fun m₁ e m₂ hm => hr.fits_of_split m₁ e (m₂ ++ l₂) (by rw [hl, hm]; simp)

/-- Between two releases of an object it is taken. -/
theorem ReachableBy.taken_between (hr : ReachableBy cfg ok s) {heap : Object → Payload}
    {l₁ l₂ l₃ : List Event} {e₁ e₂ : Event} {x : Object}
    (hl : s.log = l₁ ++ e₁ :: (l₂ ++ e₂ :: l₃)) (h₁ : Pools.Releases heap l₁ e₁ x)
    (h₂ : Pools.Releases heap (l₁ ++ e₁ :: l₂) e₂ x) :
    ∃ m₁ e m₂, l₂ = m₁ ++ e :: m₂ ∧ Pools.Takes heap (l₁ ++ e₁ :: m₁) e x := by
  by_contra hnone
  obtain ⟨P, t, hP, ht, rfl⟩ := h₁
  obtain ⟨P₂, t₂, hP₂, ht₂, hx⟩ := h₂
  have hl' : s.log = (l₁ ++ e₁ :: l₂) ++ e₂ :: l₃ := by rw [hl]; simp
  obtain ⟨P', hP', hk⟩ := hr.kept heap hl
  cases hP.symm.trans hP'
  obtain ⟨Q, hQ, -⟩ := hr.kept heap (show s.log = (l₁ ++ [e₁]) ++ (l₂ ++ e₂ :: l₃) by rw [hl]; simp)
  obtain ⟨P₂', hP₂', hk₂⟩ := hr.kept heap hl'
  cases hP₂.symm.trans hP₂'
  -- the count is 0 after the first release and 1 at the second
  have hf := hr.finds hl hk
  have hone := hf.released t ht
  obtain ⟨P'', hP'', hhear⟩ := Pools.after_concat_eq_some hQ
  cases hP.symm.trans hP''
  have hzero := (Pools.hear_released hhear ht hone fun hn => by
    have := hf.taken _ hn
    omega).1
  have hone₂ := (hr.finds hl' hk₂).released t₂ ht₂
  rw [hx, Pools.count_eq_zero_of_after hQ
    (show Pools.after heap (l₁ ++ [e₁] ++ l₂) = _ by simpa using hP₂) hzero ?_] at hone₂
  · cases hone₂
  · intro m₁ e m₂ hm R hR htake
    exact hnone ⟨m₁, e, m₂, hm, R, by simpa using hR, htake⟩

/-! ## The step of a release -/

/-- After a release the step takes no object and answers nothing. -/
theorem ReachableBy.quiet_after (hr : ReachableBy cfg ok s) {a : Action} {es₁ es₂ : List Event}
    {e : Event} {t : Sys} (ht : Stretch cfg s a (es₁ ++ e :: es₂) t) {x : Tenant}
    (hx : e.ends = some x) : callsOn Chan.isCreate es₂ = [] ∧ callsOn Chan.isPeqCb es₂ = [] ∧
      callsOn Chan.isCtrlBw es₂ = [] := by
  have he : e ∈ es₁ ++ e :: es₂ := by simp
  cases e with
  | call c p =>
      cases c with
      | peqCb d =>
          obtain ⟨-, rfl⟩ := ht.moment.alone d p rfl
          exact ⟨rfl, rfl, rfl⟩
      | endResp h =>
          have ho : a.owner = .sim h := (ht.source _ he).symm
          cases a with
          | sim k b =>
              cases ho
              have hdata := (hr.sim_turn ht).data_of_endResp he
              have hnil {k : Chan → Bool} (hu : k (.uspFw h) = false)
                  (he : k (.endResp h) = false) :
                  callsOn k es₂ = [] := by
                refine callsOn_eq_nil _ fun c q hq => ?_
                rcases hdata _ (List.mem_append_right _ (List.mem_cons_of_mem _ hq)) with rfl | rfl
                · exact hu
                · exact he
              exact ⟨hnil rfl rfl, hnil rfl rfl, hnil rfl rfl⟩
          | _ => cases ho
      | _ => cases hx
  | _ => cases hx

/-- Without a call that takes an object none is taken. -/
theorem takes_eq_none {P : Pools} {e : Event} {es : List Event} (hc : callsOn Chan.isCreate es = [])
    (hq : callsOn Chan.isPeqCb es = []) (he : e ∈ es) : P.takes e = none := by
  cases e with
  | call c p =>
      cases c with
      | create h =>
          exact absurd ((mem_callsOn _).mpr ⟨_, rfl, he⟩) (by rw [hc]; exact List.not_mem_nil)
      | peqCb d =>
          exact absurd ((mem_callsOn _).mpr ⟨_, rfl, he⟩) (by rw [hq]; exact List.not_mem_nil)
      | _ => rfl
  | _ => rfl

/-- What a release leaves behind, up to the end of its step: the object is counted 0, holds what it
    held, and nothing takes it. -/
theorem ReachableBy.after_release (hr : ReachableBy cfg ok s) {a : Action} {es₁ es₂ : List Event}
    {e : Event} {t : Sys} (ht : Stretch cfg s a (es₁ ++ e :: es₂) t)
    (hu : ReachableBy cfg ok (t.emit (es₁ ++ e :: es₂))) {x : Tenant} (hx : e.ends = some x)
    {heap : Object → Payload} {P : Pools} (hP : Pools.after heap (s.log ++ es₁) = some P)
    {es₃ : List Event} (hes : es₃ <+: es₂) :
    ∃ Q, Pools.after heap (s.log ++ es₁ ++ e :: es₃) = some Q ∧ Q.refCount (P.object x) = 0 ∧
      Q.heap (P.object x) = P.heap (P.object x) := by
  obtain ⟨m, rfl⟩ := hes
  have hlog : (t.emit (es₁ ++ e :: (es₃ ++ m))).log = s.log ++ es₁ ++ e :: (es₃ ++ m) :=
    ht.moment.log
  obtain ⟨P', hP', hk⟩ := hu.kept heap hlog
  cases hP.symm.trans hP'
  obtain ⟨R, hR, -⟩ :=
    hu.kept heap (show _ = (s.log ++ es₁ ++ [e]) ++ (es₃ ++ m) by rw [hlog]; simp)
  obtain ⟨Q, hQ, -⟩ := hu.kept heap (show _ = (s.log ++ es₁ ++ e :: es₃) ++ m by rw [hlog]; simp)
  obtain ⟨P', hP', hhear⟩ := Pools.after_concat_eq_some hR
  cases hP.symm.trans hP'
  -- the event itself
  have hf := hu.finds hlog hk
  have hone := hf.released x hx
  obtain ⟨hzero, hheap⟩ := Pools.hear_released hhear hx hone fun hn => by
    have := hf.taken _ hn
    omega
  -- the rest of the step
  obtain ⟨hc, hq, ha⟩ := hr.quiet_after ht hx
  rw [callsOn_append, List.append_eq_nil_iff] at hc hq ha
  have hQ' : Pools.after heap (s.log ++ es₁ ++ [e] ++ es₃) = some Q := by simpa using hQ
  refine ⟨Q, hQ, Pools.count_eq_zero_of_after hR hQ' hzero ?_, ?_⟩
  · intro m₁ y m₂ hm S _ htake
    rw [takes_eq_none hc.1 hq.1 (hm ▸ List.mem_append_right _ List.mem_cons_self)] at htake
    cases htake
  · rw [Pools.heap_eq_of_after hR hQ' hc.1 hq.1 ha.1, hheap]

/-- What a device payload holds when its ack is consumed: its request and, for a read, the pointer
    to its own bytes. -/
def HoldsOwn (fields : Payload) : Event → Prop
  | .call (.endResp _) p => fields.bare = p.bare ∧
      (p.command = .read → fields.dataPtr = .memData p.deviceId p.address)
  | _ => True

theorem ReachableBy.holdsOwn (hr : ReachableBy cfg ok s) {l₁ l₂ : List Event} {e : Event}
    {P : Pools} (hl : s.log = l₁ ++ e :: l₂) (hk : P.Kept l₁) {x : Tenant} (hx : e.ends = some x) :
    HoldsOwn (P.heap (P.object x)) e := by
  have hf := hr.finds hl hk
  cases e with
  | call c p =>
      cases c with
      | endResp h =>
          cases hx
          have hmem : .call (.endResp h) p ∈ s.log :=
            hl ▸ List.mem_append_right _ List.mem_cons_self
          refine ⟨(hf.acked h p rfl).1, fun hc => ?_⟩
          rw [(hf.acked h p rfl).2 hc, hr.endResp_pointer hmem hc]
      | _ => trivial
  | _ => trivial

/-- The places hold different live objects. -/
theorem ReachableBy.places (hr : ReachableBy cfg ok s) {P : Pools} (hk : P.Kept s.log) :
    ((s.slots cfg).map P.object).Nodup ∧ ∀ t ∈ s.slots cfg, P.refCount (P.object t) = 1 ∧
      (P.object t).index ∉ (P.mm (P.object t).owner).freeList ∧
      (P.heap (P.object t)).bare = t.request := by
  have hlive := hr.slots_live
  refine ⟨hr.slots_nodup.map_on fun t ht u hu he => hk.keeps.inj (hlive t ht) (hlive u hu) he, ?_⟩
  exact fun t ht =>
    ⟨hk.keeps.one t (hlive t ht), hk.keeps.not_free (hlive t ht), (hk.good t (hlive t ht)).bare⟩

/-! ## Payload ownership -/

/-- In every reachable state, whatever new objects hold: the pools go through the log, and every
    event finds the objects as the code expects them; between two releases of an object it is taken;
    the places hold different live objects; and a step that releases an object had it in a place
    before, has it in none after, takes none any more and until its end finds it as it was. -/
theorem payloads_owned (heap : Object → Payload) (hr : Reachable cfg s) :
    (∀ l₁ e l₂, s.log = l₁ ++ e :: l₂ → ∃ P Q, Pools.after heap l₁ = some P ∧ P.hear e = some Q ∧
      P.Finds s.log e) ∧
    (∀ l₁ e₁ l₂ e₂ l₃ x, s.log = l₁ ++ e₁ :: (l₂ ++ e₂ :: l₃) → Pools.Releases heap l₁ e₁ x →
      Pools.Releases heap (l₁ ++ e₁ :: l₂) e₂ x →
      ∃ m₁ e m₂, l₂ = m₁ ++ e :: m₂ ∧ Pools.Takes heap (l₁ ++ e₁ :: m₁) e x) ∧
    (∃ P, Pools.after heap s.log = some P ∧ ((s.slots cfg).map P.object).Nodup ∧
      ∀ t ∈ s.slots cfg, P.refCount (P.object t) = 1 ∧
        (P.object t).index ∉ (P.mm (P.object t).owner).freeList ∧
        (P.heap (P.object t)).bare = t.request) ∧
    ∀ a s' es₁ e es₂ t P, step cfg s a = .ok s' → s'.log = s.log ++ (es₁ ++ e :: es₂) →
      e.ends = some t → Pools.after heap (s.log ++ es₁) = some P →
      t ∈ s.slots cfg ∧
      (∃ P', Pools.after heap s'.log = some P' ∧ P'.refCount (P.object t) = 0 ∧
        ∀ u ∈ s'.slots cfg, P'.object u ≠ P.object t) ∧
      (∀ y ∈ es₂, ∀ R : Pools, R.takes y = none) ∧
      ∀ es₃, es₃ <+: es₂ → ∃ Q, Pools.after heap (s.log ++ es₁ ++ e :: es₃) = some Q ∧
        HoldsOwn (Q.heap (P.object t)) e := by
  have hr : ReachableBy cfg anyStep s := hr
  refine ⟨fun l₁ e l₂ hl => ?_, fun l₁ e₁ l₂ e₂ l₃ x => hr.taken_between, ?_, ?_⟩
  · obtain ⟨P, hP, hk⟩ := hr.kept heap hl
    obtain ⟨Q, hQ, -⟩ := hk.hear (hr.fits_of_split l₁ e l₂ hl)
    exact ⟨P, Q, hP, hQ, hr.finds hl hk⟩
  · obtain ⟨P, hP, hk⟩ := hr.kept heap (List.append_nil _).symm
    exact ⟨P, hP, hr.places hk⟩
  · intro a s' es₁ e es₂ x P hs hl hx hP
    have hu : ReachableBy cfg anyStep s' := .tail hr trivial hs
    obtain ⟨-, es, t, ht, rfl⟩ := step_eq_ok.mp hs
    have hes : (t.emit es).log = s.log ++ es := congrArg (· ++ es) ht.log
    obtain rfl := List.append_cancel_left (hes.symm.trans hl)
    obtain ⟨hplace, -⟩ := hr.ends_place ht hu hx
    obtain ⟨hc, hq, -⟩ := hr.quiet_after ht hx
    refine ⟨hplace, ?_, fun y hy R => takes_eq_none hc hq hy, fun es₃ hes₃ => ?_⟩
    · obtain ⟨P', hP', hk'⟩ := hu.kept heap (List.append_nil _).symm
      obtain ⟨Q, hQ, hzero, -⟩ := hr.after_release ht hu hx hP (List.prefix_refl es₂)
      rw [← ht.moment.log] at hQ
      cases hP'.symm.trans hQ
      refine ⟨P', hP', hzero, fun u hmem he => ?_⟩
      have hone := hk'.keeps.one u (hu.slots_live u hmem)
      rw [he, hzero] at hone
      cases hone
    · obtain ⟨P', hP', hk⟩ := hu.kept heap ht.moment.log
      cases hP.symm.trans hP'
      obtain ⟨Q, hQ, -, hheap⟩ := hr.after_release ht hu hx hP hes₃
      refine ⟨Q, hQ, ?_⟩
      rw [hheap]
      exact hu.holdsOwn ht.moment.log hk hx

/-- What the objects a new pool makes hold in the run below. -/
def blank (_ : Object) : Payload := ⟨0, .read, 0, 0, 0, .null, 0, 0⟩

/-- A host writes two packets of four payloads, the second when objects of the first are free. -/
def reusingWrites : Sys :=
  runSkip (step (smallConfig 1 1 4)) anyStep (init (smallConfig 1 1 4))
    (.sim 0 (.recv (.fill .write 8 7)) :: rounds (smallConfig 1 1 4) 10 ++
      .sim 0 (.recv (.fill .write 16 7)) :: rounds (smallConfig 1 1 4) 4)

/-- Eight payloads were taken there, and five objects made. -/
theorem payloads_owned_of_reusingWrites :
    ((callsOn Chan.isCreate reusingWrites.log).length = 8 ∧
      ((Pools.after blank reusingWrites.log).map fun P => (P.mm (.sim 0)).made) = some 5) ∧
      ∃ P, Pools.after blank reusingWrites.log = some P ∧
        ((reusingWrites.slots (smallConfig 1 1 4)).map P.object).Nodup := by
  refine ⟨by decide +kernel, ?_⟩
  obtain ⟨P, hP, hn, -⟩ := (payloads_owned blank (reach_runSkip _ _)).2.2.1
  exact ⟨P, hP, hn⟩

end Sys

end TSim4CXL
