/-
  Objects of the payload pools over a log.

  `Keeps`: every live tenant has an object of its own with reference count 1, the other objects
  are counted 0, and no live tenant's object is free. Taking an object for a new tenant and
  releasing the object of a live one keep it (`Keeps.acquire`, `Keeps.release`), and there the
  count is what `acquire` and `release` expect.

  A log says which tenants are live (`Live`) and which events it may go on with (`Fits`).
  `Kept.hear`: an event that fits does to the objects what the code expects of it, and the object
  of a live tenant still holds its request. `after_eq_some`: so over a whole log.
-/
import TSim4CXL.Model.Pools
import TSim4CXL.Trace.Controller

namespace TSim4CXL

/-- The tenant whose object an event releases. -/
def Event.ends : Event → Option Tenant
  | .call (.peqCb _) p => some (.host p.bare)
  | .call (.endResp _) p => some (.dram p.bare)
  | _ => none

namespace Pools

/-! ## Live tenants -/

/-- The object `allocate` returns next. -/
def next (P : Pools) (o : Owner) : Object := ⟨o, (P.mm o).allocate.1⟩

/-- What the pools keep of the tenants that have an object. -/
structure Keeps (live : Tenant → Prop) (P : Pools) : Prop where
  owner : ∀ t, (P.object t).owner = t.owner
  holds : ∀ o, (P.mm o).toPool.Holds (fun t => live t ∧ t.owner = o) (fun t => (P.object t).index)
  one : ∀ t, live t → P.refCount (P.object t) = 1
  zero : ∀ x, (∀ t, live t → P.object t ≠ x) → P.refCount x = 0

variable {live live' : Tenant → Prop} {P Q : Pools}

theorem keeps_init (heap : Object → Payload) (h : ∀ t, ¬ live t) : Keeps live (init heap) where
  owner _ := rfl
  holds _ := Pool.Holds.empty _ _ fun t ht => h t ht.1
  one t ht := absurd ht (h t)
  zero _ _ := rfl

/-- The contents of the objects do not matter. -/
theorem Keeps.congr (hk : Keeps live P) (hlive : ∀ t, live' t ↔ live t) (hmm : Q.mm = P.mm)
    (hcount : Q.refCount = P.refCount) (hobject : Q.object = P.object) : Keeps live' Q := by
  obtain rfl : live' = live := funext fun t => propext (hlive t)
  refine ⟨?_, ?_, ?_, ?_⟩
  · rw [hobject]
    exact hk.owner
  · rw [hmm, hobject]
    exact hk.holds
  · rw [hcount, hobject]
    exact hk.one
  · rw [hcount, hobject]
    exact hk.zero

namespace Keeps

theorem inj (hk : Keeps live P) {s t : Tenant} (hs : live s) (ht : live t)
    (he : P.object s = P.object t) : s = t := by
  have ho : s.owner = t.owner := by rw [← hk.owner s, he, hk.owner]
  exact (hk.holds t.owner).inj s t ⟨hs, ho⟩ ⟨ht, rfl⟩ (congrArg Object.index he)

theorem not_free (hk : Keeps live P) {t : Tenant} (ht : live t) :
    (P.object t).index ∉ (P.mm (P.object t).owner).freeList := by
  rw [hk.owner]
  exact (hk.holds t.owner).not_free t ⟨ht, rfl⟩

/-- No live tenant's object is taken. -/
theorem ne_next (hk : Keeps live P) {t : Tenant} (ht : live t) (o : Owner) :
    P.object t ≠ P.next o := by
  intro he
  have ho : t.owner = o := by rw [← hk.owner, he]; rfl
  refine (hk.holds o).take_fresh ⟨ht, ho⟩ ?_
  rw [he, next, Mm.allocate_fst]

theorem next_count (hk : Keeps live P) (o : Owner) : P.refCount (P.next o) = 0 :=
  hk.zero _ fun _ ht => hk.ne_next ht o

theorem count_le (hk : Keeps live P) (x : Object) : P.refCount x ≤ 1 := by
  by_cases hx : ∃ t, live t ∧ P.object t = x
  · obtain ⟨t, ht, rfl⟩ := hx
    exact Nat.le_of_eq (hk.one t ht)
  · rw [hk.zero x fun t ht he => hx ⟨t, ht, he⟩]
    exact Nat.zero_le 1

/-! ### Taking -/

@[simp] theorem acquire_object_self (P : Pools) (t : Tenant) :
    (P.acquire t.owner t).object t = P.next t.owner := Function.update_self ..

theorem acquire_object_of_ne (P : Pools) {s t : Tenant} (hst : s ≠ t) (o : Owner) :
    (P.acquire o t).object s = P.object s := Function.update_of_ne hst ..

/-- A live tenant's object is not the one taken. -/
theorem acquire_object_ne (hk : Keeps live P) {s t : Tenant} (hs : live s) (ht : ¬ live t) :
    (P.acquire t.owner t).object s ≠ (P.acquire t.owner t).object t := by
  have hst : s ≠ t := fun he => ht (he ▸ hs)
  rw [acquire_object_of_ne P hst, acquire_object_self]
  exact hk.ne_next hs t.owner

theorem acquire (hk : Keeps live P) {t : Tenant} (ht : ¬ live t) :
    Keeps (fun s => s = t ∨ live s) (P.acquire t.owner t) where
  owner s := by
    by_cases hst : s = t
    · rw [hst, acquire_object_self]
      rfl
    · rw [acquire_object_of_ne P hst]
      exact hk.owner s
  holds o := by
    by_cases ho : o = t.owner
    · subst ho
      have hmm : ((P.acquire t.owner t).mm t.owner).toPool = (P.mm t.owner).toPool.take.2 := by
        rw [← Mm.allocate_toPool]
        simp [Pools.acquire]
      have hnew : ((P.acquire t.owner t).object t).index = (P.mm t.owner).toPool.take.1 := by
        rw [acquire_object_self, next, Mm.allocate_fst]
      rw [hmm]
      refine (hk.holds t.owner).take hnew (fun s hs => ?_) fun s hs => ?_
      · exact hs.1.imp id fun hl => ⟨hl, hs.2⟩
      · rw [acquire_object_of_ne P hs]
    · have hmm : (P.acquire t.owner t).mm o = P.mm o := Function.update_of_ne ho ..
      have hne {s : Tenant} (hs : s.owner = o) : s ≠ t := fun he => ho (he ▸ hs.symm)
      rw [hmm]
      refine (hk.holds o).mono (fun s hs => ⟨hs.1.resolve_left (hne hs.2), hs.2⟩) fun s hs => ?_
      rw [acquire_object_of_ne P (hne hs.2)]
  one s hs := by
    by_cases hst : s = t
    · rw [hst, acquire_object_self]
      show Function.update P.refCount (P.next t.owner) (P.refCount (P.next t.owner) + 1) _ = 1
      rw [Function.update_self, hk.next_count]
    · have hl := hs.resolve_left hst
      rw [acquire_object_of_ne P hst]
      exact (Function.update_of_ne (hk.ne_next hl t.owner) ..).trans (hk.one s hl)
  zero x hx := by
    have hnext : x ≠ P.next t.owner := fun he => hx t (.inl rfl) (by rw [acquire_object_self, he])
    refine (Function.update_of_ne hnext ..).trans (hk.zero x fun s hs he => hx s (.inr hs) ?_)
    have hst : s ≠ t := fun he => ht (he ▸ hs)
    rw [acquire_object_of_ne P hst, he]

/-! ### Releasing -/

theorem release_eq {x : Object} (hx : P.refCount x = 1) : P.release x = some { P with
    refCount := Function.update P.refCount x 0
    mm := Function.update P.mm x.owner ((P.mm x.owner).free x.index) } := by
  simp [Pools.release, hx]

theorem release (hk : Keeps live P) {t : Tenant} (ht : live t) :
    ∃ Q, P.release (P.object t) = some Q ∧
    Keeps (fun s => live s ∧ s ≠ t) Q ∧ Q.object = P.object ∧ Q.heap = P.heap ∧
      Q.deviceMap = P.deviceMap := by
  refine ⟨_, release_eq (hk.one t ht), ⟨hk.owner, fun o => ?_, fun s hs => ?_, fun x hx => ?_⟩,
    rfl, rfl, rfl⟩
  · simp only [hk.owner t]
    by_cases ho : o = t.owner
    · subst ho
      rw [Function.update_self, Mm.free_toPool]
      refine (hk.holds t.owner).give (n := t) ⟨ht, rfl⟩ fun s hs => ⟨⟨hs.1.1, hs.2⟩, hs.1.2⟩
    · rw [Function.update_of_ne ho]
      exact (hk.holds o).mono (fun s hs => ⟨hs.1.1, hs.2⟩) fun _ _ => rfl
  · exact (Function.update_of_ne (fun he => hs.2 (hk.inj hs.1 ht he)) ..).trans (hk.one s hs.1)
  · by_cases hxt : x = P.object t
    · rw [hxt]
      exact Function.update_self ..
    · refine (Function.update_of_ne hxt ..).trans (hk.zero x fun s hs he => ?_)
      exact hx s ⟨hs, fun hst => hxt (by rw [← hst, he])⟩ he

end Keeps

end Pools

/-! ## What a log says -/

def Chan.isCreate : Chan → Bool
  | .create _ => true
  | _ => false

def Chan.isPeqCb : Chan → Bool
  | .peqCb _ => true
  | _ => false

def Chan.isEndResp : Chan → Bool
  | .endResp _ => true
  | _ => false

/-- The requests of the calls on the channels `k` selects, whatever their data pointers are. -/
def requests (k : Chan → Bool) (l : List Event) : List Payload := (callsOn k l).map Payload.bare

section requests

variable (k : Chan → Bool) (l : List Event) (c : Chan) (p : Payload)

@[simp] theorem requests_nil : requests k [] = [] := rfl

@[simp] theorem requests_append (l l' : List Event) :
    requests k (l ++ l') = requests k l ++ requests k l' := by
  simp [requests]

@[simp] theorem requests_call : requests k [.call c p] = if k c then [p.bare] else [] := by
  by_cases h : k c <;> simp [requests, h]

theorem mem_requests {a : Payload} : a ∈ requests k l ↔ ∃ p ∈ callsOn k l, p.bare = a :=
  List.mem_map

theorem requests_eq_nil {l : List Event} (h : callsOn k l = []) : requests k l = [] := by
  rw [requests, h, List.map_nil]

end requests

/-- The tenants that have an object: created and not taken in by a device, taken in and its ack
    not consumed. -/
def Live (l : List Event) : Tenant → Prop
  | .host p => p ∈ requests Chan.isCreate l ∧ p ∉ requests Chan.isPeqCb l
  | .dram p => p ∈ requests Chan.isPeqCb l ∧ p ∉ requests Chan.isEndResp l

/-- What the simulator does next after `l`, as far as objects are concerned. -/
def Fits (l : List Event) : Event → Prop
  | .call (.create h) p =>
      p.id = h ∧ p.bare ∉ requests Chan.isCreate l ∧ p.bare ∉ requests Chan.isPeqCb l
  | .call (.memFw d) p => p.deviceId = d ∧ Live l (.host p.bare)
  | .call (.peqCb d) p => p.deviceId = d ∧ Live l (.host p.bare) ∧
      p.bare ∉ requests Chan.isCtrlBw l ∧ p.bare ∉ requests Chan.isEndResp l ∧
      p ∈ callsOn Chan.isCreate l
  | .call (.ctrlBw d) p => p.deviceId = d ∧ Live l (.dram p.bare)
  | .call (.endResp _) p => p.bare ∈ requests Chan.isCtrlBw l ∧ Live l (.dram p.bare) ∧
      (p.command = .read → p.dataPtr = .memData p.deviceId p.address)
  | _ => True

section live

variable {l : List Event} {p : Payload} {t : Tenant}

theorem not_live_nil (t : Tenant) : ¬ Live [] t := by
  cases t <;> simp [Live]

theorem live_create {h : Nat} (hp : p.bare ∉ requests Chan.isPeqCb l) :
    Live (l ++ [.call (.create h) p]) t ↔ t = .host p.bare ∨ Live l t := by
  cases t with
  | host q =>
      by_cases hq : q = p.bare
      · subst hq
        simp [Live, Chan.isCreate, Chan.isPeqCb, hp]
      · simp [Live, Chan.isCreate, Chan.isPeqCb, hq]
  | dram q => simp [Live, Chan.isPeqCb, Chan.isEndResp]

theorem live_peqCb {d : Nat} (hp : p.bare ∉ requests Chan.isEndResp l) :
    Live (l ++ [.call (.peqCb d) p]) t ↔
      (t = .dram p.bare ∨ Live l t) ∧ t ≠ .host p.bare := by
  cases t with
  | host q => simp [Live, Chan.isCreate, Chan.isPeqCb, and_assoc]
  | dram q =>
      by_cases hq : q = p.bare
      · subst hq
        simp [Live, Chan.isPeqCb, Chan.isEndResp, hp]
      · simp [Live, Chan.isPeqCb, Chan.isEndResp, hq]

theorem live_endResp {h : Nat} :
    Live (l ++ [.call (.endResp h) p]) t ↔ Live l t ∧ t ≠ .dram p.bare := by
  cases t with
  | host q => simp [Live, Chan.isCreate, Chan.isPeqCb]
  | dram q => simp [Live, Chan.isPeqCb, Chan.isEndResp, and_assoc]

/-- The other events start and end no life. -/
theorem live_of_none {e : Event} (hc : requests Chan.isCreate [e] = [])
    (hq : requests Chan.isPeqCb [e] = []) (he : requests Chan.isEndResp [e] = []) :
    Live (l ++ [e]) t ↔ Live l t := by
  cases t <;> simp [Live, hc, hq, he]

end live

/-! ## What the objects hold -/

/-- The fields of a tenant's object, and its entry of `device_map`. -/
def Matches (l : List Event) (fields : Payload) (device : Nat) : Tenant → Prop
  | .host p => fields.bare = p ∧ device = p.deviceId ∧
      ∀ q ∈ callsOn Chan.isCreate l, q.bare = p → q.command = .write → fields = q
  | .dram p => fields.bare = p ∧
      (p ∈ requests Chan.isCtrlBw l → p.command = .read →
      fields.dataPtr = .memData p.deviceId p.address)

theorem Matches.bare {l : List Event} {fields : Payload} {device : Nat} {t : Tenant}
    (h : Matches l fields device t) : fields.bare = t.request := by
  cases t <;> exact h.1

/-- Events that create nothing and answer nothing leave what an object has to hold. -/
theorem Matches.of_none {l es : List Event} {fields : Payload} {device : Nat} {t : Tenant}
    (hc : callsOn Chan.isCreate es = []) (ha : requests Chan.isCtrlBw es = [])
    (h : Matches l fields device t) : Matches (l ++ es) fields device t := by
  cases t with
  | host p => simpa [Matches, hc] using h
  | dram p => simpa [Matches, ha] using h

namespace Pools

/-- The objects after a log: who has which, and what they hold. -/
structure Kept (l : List Event) (P : Pools) : Prop where
  keeps : Keeps (Live l) P
  good : ∀ t, Live l t → Matches l (P.heap (P.object t)) (P.deviceMap (P.object t)) t

variable {l : List Event} {P Q : Pools} {p : Payload}

theorem kept_nil (heap : Object → Payload) : Kept [] (init heap) :=
  ⟨keeps_init heap not_live_nil, fun t ht => absurd ht (not_live_nil t)⟩

theorem Kept.create {h : Nat} (hk : Kept l P) (hf : Fits l (.call (.create h) p)) :
    Kept (l ++ [.call (.create h) p]) (P.addPayload h p) := by
  obtain ⟨rfl, hnew, hpeq⟩ := hf
  have hlive (t : Tenant) := live_create (t := t) (h := p.id) hpeq
  have hdead : ¬ Live l (.host p.bare) := fun hl => hnew hl.1
  have hacq := hk.keeps.acquire hdead
  refine ⟨hacq.congr hlive rfl rfl rfl, fun t ht => ?_⟩
  rcases (hlive t).mp ht with rfl | hl
  · -- the new payload
    have hheap : ((P.addPayload p.id p).heap ((P.addPayload p.id p).object (.host p.bare))).bare =
        p.bare ∧
        (p.command = .write →
          (P.addPayload p.id p).heap ((P.addPayload p.id p).object (.host p.bare)) = p) := by
      cases hc : p.command <;> simp [addPayload, hc, Payload.bare]
    refine ⟨hheap.1, Function.update_self .., fun q hq he hw => ?_⟩
    rw [callsOn_append, List.mem_append] at hq
    rcases hq with hq | hq
    · exact absurd ((mem_requests _ _).mpr ⟨q, hq, he⟩) hnew
    · have hqp : q = p := by simpa [Chan.isCreate] using hq
      rw [hqp]
      exact hheap.2 (hqp ▸ hw)
  · -- the others
    have hne := hk.keeps.acquire_object_ne hl hdead
    have hst : t ≠ .host p.bare := fun he => hdead (he ▸ hl)
    have hold := hk.good t hl
    have hobj : (P.addPayload p.id p).object t = P.object t :=
      Keeps.acquire_object_of_ne P hst (.sim p.id)
    have hheap : (P.addPayload p.id p).heap ((P.addPayload p.id p).object t) =
        P.heap (P.object t) := by
      rw [← hobj]
      exact Function.update_of_ne hne ..
    have hdev : (P.addPayload p.id p).deviceMap ((P.addPayload p.id p).object t) =
        P.deviceMap (P.object t) := by
      rw [← hobj]
      exact Function.update_of_ne hne ..
    rw [hheap, hdev]
    cases t with
    | host a =>
        refine ⟨hold.1, hold.2.1, fun q hq he hw => ?_⟩
        rw [callsOn_append, List.mem_append] at hq
        rcases hq with hq | hq
        · exact hold.2.2 q hq he hw
        · have hqp : q = p := by simpa [Chan.isCreate] using hq
          exact absurd (by rw [← he, hqp]) hst
    | dram a => simpa [Matches, Chan.isCtrlBw] using hold

theorem Kept.peqCb {d : Nat} (hk : Kept l P) (hf : Fits l (.call (.peqCb d) p)) :
    ∃ Q, (P.genTrans d p (P.object (.host p.bare))).release (P.object (.host p.bare)) = some Q ∧
      Kept (l ++ [.call (.peqCb d) p]) Q := by
  obtain ⟨rfl, hhost, hctrl, hend, -⟩ := hf
  have hlive (t : Tenant) := live_peqCb (t := t) (d := p.deviceId) hend
  have hdead : ¬ Live l (.dram p.bare) := fun hl => hhost.2 hl.1
  have hne : Tenant.host p.bare ≠ .dram p.bare := nofun
  have hobj {t : Tenant} (ht : t ≠ .dram p.bare) :
      (P.genTrans p.deviceId p (P.object (.host p.bare))).object t = P.object t :=
    Keeps.acquire_object_of_ne P ht (.mem p.deviceId)
  have hacq : Keeps (fun t => t = .dram p.bare ∨ Live l t)
      (P.genTrans p.deviceId p (P.object (.host p.bare))) :=
    (hk.keeps.acquire hdead).congr (fun _ => Iff.rfl) rfl rfl rfl
  obtain ⟨Q, hrel, hkeeps, hQobj, hheap, hdev⟩ := hacq.release (t := .host p.bare) (.inr hhost)
  rw [hobj hne] at hrel
  refine ⟨Q, hrel, hkeeps.congr hlive rfl rfl rfl, fun t ht => ?_⟩
  rw [hQobj, hheap, hdev]
  obtain ⟨hl, hth⟩ := (hlive t).mp ht
  rcases hl with rfl | hl
  · -- the new payload of the device
    have hfields : (P.genTrans p.deviceId p (P.object (.host p.bare))).heap
        ((P.genTrans p.deviceId p (P.object (.host p.bare))).object (.dram p.bare)) =
          { P.heap (P.object (.host p.bare)) with
            dataPtr := (P.heap (P.next (.mem p.deviceId))).dataPtr } := by
      simp [genTrans, next, acquire]
    rw [hfields]
    refine ⟨(hk.good _ hhost).bare, fun hm => absurd ?_ hctrl⟩
    simpa [Chan.isCtrlBw] using hm
  · have htd : t ≠ .dram p.bare := fun he => hdead (he ▸ hl)
    have hneq := hk.keeps.acquire_object_ne hl hdead
    have hheap' : (P.genTrans p.deviceId p (P.object (.host p.bare))).heap
        ((P.genTrans p.deviceId p (P.object (.host p.bare))).object t) = P.heap (P.object t) := by
      rw [← hobj htd]
      exact Function.update_of_ne hneq ..
    rw [hheap', hobj htd]
    exact (hk.good t hl).of_none (by simp [Chan.isCreate]) (by simp [Chan.isCtrlBw])

theorem Kept.ctrlBw {d : Nat} (hk : Kept l P) (hf : Fits l (.call (.ctrlBw d) p)) :
    Kept (l ++ [.call (.ctrlBw d) p]) (P.backwardTrans d p) := by
  obtain ⟨rfl, hdram⟩ := hf
  have hlive (t : Tenant) : Live (l ++ [.call (.ctrlBw p.deviceId) p]) t ↔ Live l t :=
    live_of_none (by simp [Chan.isCreate]) (by simp [Chan.isPeqCb]) (by simp [Chan.isEndResp])
  have hold := hk.good _ hdram
  have hfields : (P.backwardTrans p.deviceId p).mm = P.mm ∧
      (P.backwardTrans p.deviceId p).refCount = P.refCount ∧
      (P.backwardTrans p.deviceId p).object = P.object ∧
      (P.backwardTrans p.deviceId p).deviceMap = P.deviceMap := by
    unfold backwardTrans
    split <;> exact ⟨rfl, rfl, rfl, rfl⟩
  obtain ⟨hmm, hcount, hobj, hdev⟩ := hfields
  refine ⟨hk.keeps.congr hlive hmm hcount hobj, fun t ht => ?_⟩
  have hl := (hlive t).mp ht
  rw [hobj, hdev]
  by_cases htp : t = .dram p.bare
  · -- the payload answered
    subst htp
    unfold backwardTrans
    split
    · refine ⟨?_, fun _ _ => ?_⟩
      · simpa [Payload.bare] using hold.1
      · have haddress : (P.heap (P.object (.dram p.bare))).bare.address = p.address := by
          rw [hold.1]; rfl
        rw [Payload.bare_address] at haddress
        simp [haddress]
    · rename_i hc
      exact ⟨hold.1, fun _ hr => absurd (hc.symm.trans hr) nofun⟩
  · have hneq : P.object t ≠ P.object (.dram p.bare) := fun he => htp (hk.keeps.inj hl hdram he)
    have hheap : (P.backwardTrans p.deviceId p).heap (P.object t) = P.heap (P.object t) := by
      unfold backwardTrans
      split
      · exact Function.update_of_ne hneq ..
      · rfl
    rw [hheap]
    cases t with
    | host a => simpa [Matches, Chan.isCreate] using hk.good _ hl
    | dram a =>
        have ha : a ≠ p.bare := fun he => htp (by rw [he])
        simpa [Matches, Chan.isCtrlBw, ha] using hk.good _ hl

theorem Kept.endResp {h : Nat} (hk : Kept l P) (hf : Fits l (.call (.endResp h) p)) :
    ∃ Q, P.release (P.object (.dram p.bare)) = some Q ∧ Kept (l ++ [.call (.endResp h) p]) Q := by
  obtain ⟨-, hdram, -⟩ := hf
  obtain ⟨Q, hrel, hkeeps, hobj, hheap, hdev⟩ := hk.keeps.release hdram
  refine ⟨Q, hrel, hkeeps.congr (fun t => live_endResp) rfl rfl rfl, fun t ht => ?_⟩
  rw [hobj, hheap, hdev]
  exact (hk.good t (live_endResp.mp ht).1).of_none (by simp [Chan.isCreate])
    (by simp [Chan.isCtrlBw])

/-- An event without objects. -/
theorem Kept.of_none {e : Event} (hk : Kept l P) (hc : callsOn Chan.isCreate [e] = [])
    (hq : callsOn Chan.isPeqCb [e] = []) (ha : callsOn Chan.isCtrlBw [e] = [])
    (he : callsOn Chan.isEndResp [e] = []) : Kept (l ++ [e]) P := by
  have hlive (t : Tenant) : Live (l ++ [e]) t ↔ Live l t :=
    live_of_none (requests_eq_nil _ hc) (requests_eq_nil _ hq) (requests_eq_nil _ he)
  exact ⟨hk.keeps.congr hlive rfl rfl rfl, fun t ht =>
    (hk.good t ((hlive t).mp ht)).of_none hc (requests_eq_nil _ ha)⟩

/-- An event that fits goes through, and the objects are kept. -/
theorem Kept.hear {e : Event} (hk : Kept l P) (hf : Fits l e) :
    ∃ Q, P.hear e = some Q ∧ Kept (l ++ [e]) Q := by
  cases e with
  | call c p =>
      cases c with
      | create h => exact ⟨_, rfl, hk.create hf⟩
      | peqCb d => exact hk.peqCb hf
      | ctrlBw d => exact ⟨_, rfl, hk.ctrlBw hf⟩
      | endResp h => exact hk.endResp hf
      | _ => exact ⟨P, rfl, hk.of_none rfl rfl rfl rfl⟩
  | _ => exact ⟨P, rfl, hk.of_none rfl rfl rfl rfl⟩

/-- Over a log all of whose events fit. -/
theorem after_eq_some (heap : Object → Payload) :
    ∀ {l : List Event}, (∀ l₁ e l₂, l = l₁ ++ e :: l₂ → Fits l₁ e) → ∃ P, after heap l = some P ∧
      Kept l P := by
  intro l
  induction l using List.reverseRecOn with
  | nil => exact fun _ => ⟨_, after_nil heap, kept_nil heap⟩
  | append_singleton l e ih =>
      intro hf
      obtain ⟨P, hP, hk⟩ := ih fun l₁ x l₂ hl => hf l₁ x (l₂ ++ [e]) (by rw [hl]; simp)
      obtain ⟨Q, hQ, hk'⟩ := hk.hear (hf l e [] rfl)
      exact ⟨Q, by rw [after_concat, hP]; exact hQ, hk'⟩

/-! ## Taking and releasing -/

/-- The object an event takes from a pool. -/
def takes (P : Pools) : Event → Option Object
  | .call (.create h) _ => some (P.next (.sim h))
  | .call (.peqCb d) _ => some (P.next (.mem d))
  | _ => none

theorem release_frame {x : Object} (h : P.release x = some Q) :
    Q.heap = P.heap ∧ Q.object = P.object ∧
    Q.refCount = Function.update P.refCount x (P.refCount x - 1) := by
  unfold release at h
  split at h
  · cases h
  · cases h
    exact ⟨rfl, rfl, rfl⟩

theorem release_count_le {x : Object} (h : P.release x = some Q) (y : Object) :
    Q.refCount y ≤ P.refCount y := by
  rw [(release_frame h).2.2]
  by_cases hy : y = x
  · rw [hy, Function.update_self]
    exact Nat.sub_le ..
  · exact Nat.le_of_eq (Function.update_of_ne hy ..)

/-- The count of the object released was 1 and is 0, and the object holds what it held. -/
theorem hear_released {e : Event} {t : Tenant} (h : P.hear e = some Q) (ht : e.ends = some t)
    (hone : P.refCount (P.object t) = 1) (hnext : P.takes e ≠ some (P.object t)) :
    Q.refCount (P.object t) = 0 ∧ Q.heap (P.object t) = P.heap (P.object t) := by
  have hrel {R : Pools} (hR : R.refCount (P.object t) = 1)
      (hheap : R.heap (P.object t) = P.heap (P.object t)) (h : R.release (P.object t) = some Q) :
      Q.refCount (P.object t) = 0 ∧ Q.heap (P.object t) = P.heap (P.object t) := by
    obtain ⟨h1, -, h2⟩ := release_frame h
    rw [h1, h2, Function.update_self, hR]
    exact ⟨rfl, hheap⟩
  cases e with
  | call c p =>
      cases c with
      | peqCb d =>
          cases ht
          have hne : P.object (.host p.bare) ≠ P.next (.mem d) := fun he => hnext (by rw [he]; rfl)
          have hobj : (P.acquire (.mem d) (.dram p.bare)).object (.dram p.bare) = P.next (.mem d) :=
            Function.update_self ..
          refine hrel ((Function.update_of_ne hne ..).trans hone) ?_ h
          refine Function.update_of_ne ?_ ..
          rw [hobj]
          exact hne
      | endResp d =>
          cases ht
          exact hrel hone rfl h
      | _ => cases ht
  | _ => cases ht

theorem backwardTrans_frame (P : Pools) (d : Nat) (p : Payload) :
    (P.backwardTrans d p).refCount = P.refCount := by
  unfold backwardTrans
  split <;> rfl

/-- Only taking an object raises its count. -/
theorem hear_count_le {e : Event} {x : Object} (h : P.hear e = some Q) (hx : P.takes e ≠ some x) :
    Q.refCount x ≤ P.refCount x := by
  have hsame (he : some P = some Q) : Q.refCount x ≤ P.refCount x := by
    cases he
    exact Nat.le_refl _
  cases e with
  | call c p =>
      cases c with
      | create k =>
          cases h
          have hne : x ≠ P.next (.sim k) := fun he => hx (by rw [he]; rfl)
          exact Nat.le_of_eq (Function.update_of_ne hne ..)
      | peqCb k =>
          have hne : x ≠ P.next (.mem k) := fun he => hx (by rw [he]; rfl)
          refine Nat.le_trans (release_count_le h x) (Nat.le_of_eq ?_)
          exact Function.update_of_ne hne ..
      | ctrlBw k =>
          cases h
          exact Nat.le_of_eq (congrFun (backwardTrans_frame P k p) x)
      | endResp k => exact release_count_le h x
      | _ => exact hsame h
  | _ => exact hsame h

/-- What the objects hold is changed by taking one and by answers only. -/
theorem hear_frame {e : Event} (h : P.hear e = some Q) (hc : callsOn Chan.isCreate [e] = [])
    (hq : callsOn Chan.isPeqCb [e] = []) (ha : callsOn Chan.isCtrlBw [e] = []) :
    Q.heap = P.heap ∧ P.takes e = none := by
  have hsame (he : some P = some Q) : Q.heap = P.heap := by
    cases he
    rfl
  cases e with
  | call c p =>
      cases c with
      | create k => cases hc
      | peqCb k => cases hq
      | ctrlBw k => cases ha
      | endResp k => exact ⟨(release_frame h).1, rfl⟩
      | _ => exact ⟨hsame h, rfl⟩
  | _ => exact ⟨hsame h, rfl⟩

section after

variable {heap : Object → Payload} {es : List Event} {x : Object}

theorem after_concat_eq_some {e : Event} (h : after heap (l ++ [e]) = some Q) :
    ∃ P, after heap l = some P ∧ P.hear e = some Q := by
  rw [after_concat] at h
  exact Option.bind_eq_some_iff.mp h

/-- A count stays 0 until the object is taken. -/
theorem count_eq_zero_of_after (hP : after heap l = some P) (hQ : after heap (l ++ es) = some Q)
    (hx : P.refCount x = 0) (hes : ∀ m₁ e m₂, es = m₁ ++ e :: m₂ →
      ∀ R, after heap (l ++ m₁) = some R → R.takes e ≠ some x) : Q.refCount x = 0 := by
  induction es using List.reverseRecOn generalizing Q with
  | nil =>
      rw [List.append_nil, hP] at hQ
      cases hQ
      exact hx
  | append_singleton es e ih =>
      rw [← List.append_assoc] at hQ
      obtain ⟨R, hR, hRQ⟩ := after_concat_eq_some hQ
      have hR0 := ih hR fun m₁ y m₂ hm => hes m₁ y (m₂ ++ [e]) (by rw [hm]; simp)
      have := hear_count_le hRQ (hes es e [] rfl R hR)
      omega

/-- Without takes and answers the objects hold what they held. -/
theorem heap_eq_of_after (hP : after heap l = some P) (hQ : after heap (l ++ es) = some Q)
    (hc : callsOn Chan.isCreate es = []) (hq : callsOn Chan.isPeqCb es = [])
    (ha : callsOn Chan.isCtrlBw es = []) : Q.heap = P.heap := by
  induction es using List.reverseRecOn generalizing Q with
  | nil =>
      rw [List.append_nil, hP] at hQ
      cases hQ
      rfl
  | append_singleton es e ih =>
      rw [← List.append_assoc] at hQ
      obtain ⟨R, hR, hRQ⟩ := after_concat_eq_some hQ
      rw [callsOn_append, List.append_eq_nil_iff] at hc hq ha
      rw [(hear_frame hRQ hc.2 hq.2 ha.2).1]
      exact ih hR hc.1 hq.1 ha.1

end after

end Pools

end TSim4CXL
