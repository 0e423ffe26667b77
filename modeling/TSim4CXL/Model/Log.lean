/-
  The events a run is logged by, and what one picks from a log.

  Every `nb_transport` call, every created, stored, accepted and completed payload is a
  `call` on a channel; the other events are what claims about hosts, flags and shutdown
  speak of. `sent c l` are the payloads of the calls on channel `c`, oldest first;
  `signalsOf`, `writesOf` and `readsOf` pick the other events of one host.
-/
import TSim4CXL.Model.Payload
import Mathlib.Data.List.Induction
import Mathlib.Data.List.Nodup

namespace TSim4CXL

/-! ## Events -/

/-- The components: hosts with their ports, the controller, the memory devices. -/
inductive Comp
  | sim (h : Nat)
  | usp (h : Nat)
  | dsp (h : Nat)
  | ctrl
  | mem (d : Nat)
deriving DecidableEq, Repr

/-- The calls that take one payload. `uspFw h` is `nb_transport_fw` of USP `h` with phase
    BEGIN_REQ, `dspBw h` is the `nb_transport_bw` the controller makes on its slave socket
    `h`, `endResp h` the END_RESP call of SIMWrapper `h`, `complete d` the callback of
    Ramulator. -/
inductive Chan
  | create (h : Nat)
  | uspFw (h : Nat)
  | dspFw (h : Nat)
  | ctrlFw (h : Nat)
  | memFw (d : Nat)
  | peqCb (d : Nat)
  | accept (d : Nat)
  | complete (d : Nat)
  | ctrlBw (d : Nat)
  | dspBw (h : Nat)
  | uspBw (h : Nat)
  | simBw (h : Nat)
  | endResp (h : Nat)
deriving DecidableEq, Repr

/-- The component that makes the call. -/
def Chan.source : Chan → Comp
  | .create h => .sim h
  | .uspFw h => .sim h
  | .dspFw h => .usp h
  | .ctrlFw h => .dsp h
  | .memFw _ => .ctrl
  | .peqCb d => .mem d
  | .accept d => .mem d
  | .complete d => .mem d
  | .ctrlBw d => .mem d
  | .dspBw _ => .ctrl
  | .uspBw h => .dsp h
  | .simBw h => .usp h
  | .endResp h => .sim h

/-- What a step makes visible to other components and to the log. `pass h a` is a
    `check_signal(a)` of host `h` that returned true, `free h a` ends its
    `handle_wait_packet(a)`. -/
inductive Event
  | call (c : Chan) (p : Payload)
  | readPacket (h : Nat) (packet : Packet)
  | writePacket (h : Nat) (packet : Packet)
  | respond (h : Nat) (data : List UInt8)
  | signal (h a : Nat)
  | pass (h a : Nat)
  | free (h a : Nat)
  | coreDone (h : Nat)
  | dramIdle (d : Nat)
  | stop (h : Nat)
deriving DecidableEq

/-- The component whose step emits the event. -/
def Event.source : Event → Comp
  | .call c _ => c.source
  | .readPacket h _ => .sim h
  | .writePacket h _ => .sim h
  | .respond h _ => .sim h
  | .signal h _ => .sim h
  | .pass h _ => .sim h
  | .free h _ => .sim h
  | .coreDone h => .sim h
  | .dramIdle d => .mem d
  | .stop h => .sim h

/-! ### Projections of the log -/

namespace Event

@[simp] def call? (k : Chan → Bool) : Event → Option Payload
  | .call c p => if k c then some p else none
  | _ => none

@[simp] def signal? (h : Nat) : Event → Option Nat
  | .signal k a => if k = h then some a else none
  | _ => none

@[simp] def write? (h : Nat) : Event → Option Packet
  | .writePacket k q => if k = h then some q else none
  | _ => none

@[simp] def read? (h : Nat) : Event → Option Packet
  | .readPacket k q => if k = h then some q else none
  | _ => none

@[simp] def response? (h : Nat) : Event → Option (List UInt8)
  | .respond k data => if k = h then some data else none
  | _ => none

end Event

/-- What `f` picks from the log, oldest first. -/
def pick {β : Type} (f : Event → Option β) (l : List Event) : List β := l.filterMap f

section pick

variable {β : Type} (f : Event → Option β)

@[simp] theorem pick_nil : pick f [] = [] := rfl

@[simp] theorem pick_append (l l' : List Event) : pick f (l ++ l') = pick f l ++ pick f l' :=
  List.filterMap_append ..

@[simp] theorem pick_cons (e : Event) (l : List Event) :
    pick f (e :: l) = (f e).toList ++ pick f l := by
  cases he : f e <;> simp [pick, he]

@[simp] theorem pick_map_call (c : Chan) (ps : List Payload) :
    pick f (ps.map (.call c)) = ps.filterMap fun p => f (.call c p) := by
  simp only [pick, List.filterMap_map]
  rfl

theorem mem_pick {b : β} {l : List Event} : b ∈ pick f l ↔ ∃ e ∈ l, f e = some b :=
  List.mem_filterMap

theorem pick_eq_nil {l : List Event} : pick f l = [] ↔ ∀ e ∈ l, f e = none :=
  List.filterMap_eq_nil_iff

end pick

/-- The payloads of the calls on the channels `k` selects. -/
def callsOn (k : Chan → Bool) : List Event → List Payload := pick (·.call? k)

/-- The payloads of the calls on one channel. -/
def sent (c : Chan) : List Event → List Payload := callsOn (· = c)

/-- The addresses host `h` has signalled. -/
def signalsOf (h : Nat) : List Event → List Nat := pick (·.signal? h)

/-- The write packets host `h` has handled. -/
def writesOf (h : Nat) : List Event → List Packet := pick (·.write? h)

/-- The read packets host `h` has handled. -/
def readsOf (h : Nat) : List Event → List Packet := pick (·.read? h)

/-- The data of the responses host `h` has got. -/
def responsesOf (h : Nat) : List Event → List (List UInt8) := pick (·.response? h)

section callsOn

variable (k : Chan → Bool) (c : Chan)

@[simp] theorem callsOn_nil : callsOn k [] = [] := rfl

@[simp] theorem callsOn_append (l l' : List Event) :
    callsOn k (l ++ l') = callsOn k l ++ callsOn k l' := pick_append ..

@[simp] theorem callsOn_cons (e : Event) (l : List Event) :
    callsOn k (e :: l) = (e.call? k).toList ++ callsOn k l := pick_cons ..

@[simp] theorem callsOn_map_call (c : Chan) (ps : List Payload) :
    callsOn k (ps.map (.call c)) = if k c then ps else [] := by
  by_cases h : k c <;> simp [callsOn, h]

theorem mem_callsOn {p : Payload} {l : List Event} :
    p ∈ callsOn k l ↔ ∃ c, k c = true ∧ .call c p ∈ l := by
  simp only [callsOn, mem_pick]
  constructor
  · rintro ⟨e, he, hp⟩
    cases e with
    | call c q =>
        by_cases h : k c
        · simp only [Event.call?, h, if_true, Option.some.injEq] at hp
          exact ⟨c, h, hp ▸ he⟩
        · simp [h] at hp
    | _ => simp at hp
  · rintro ⟨c, hc, he⟩
    exact ⟨_, he, by simp [hc]⟩

theorem callsOn_eq_nil {l : List Event} (h : ∀ c p, .call c p ∈ l → k c = false) :
    callsOn k l = [] := by
  refine List.eq_nil_iff_forall_not_mem.mpr fun p hp => ?_
  obtain ⟨c, hc, he⟩ := (mem_callsOn k).mp hp
  simp [h c p he] at hc

@[simp] theorem sent_nil : sent c [] = [] := rfl

@[simp] theorem sent_append (l l' : List Event) : sent c (l ++ l') = sent c l ++ sent c l' :=
  callsOn_append ..

@[simp] theorem sent_cons (e : Event) (l : List Event) :
    sent c (e :: l) = (e.call? (· = c)).toList ++ sent c l := callsOn_cons ..

@[simp] theorem sent_map_call (c' : Chan) (ps : List Payload) :
    sent c (ps.map (.call c')) = if c' = c then ps else [] := by
  simp [sent]

theorem mem_sent {p : Payload} {l : List Event} : p ∈ sent c l ↔ .call c p ∈ l := by
  simp [sent, mem_callsOn]

/-- The calls on one channel among those on several. -/
theorem sent_sublist {k : Chan → Bool} (hk : k c = true) (l : List Event) :
    (sent c l).Sublist (callsOn k l) := by
  induction l with
  | nil => exact List.Sublist.refl _
  | cons e l ih =>
      rw [sent_cons, callsOn_cons]
      refine List.Sublist.append ?_ ih
      cases e with
      | call c' p =>
          by_cases hc : c' = c
          · simp [hc, hk]
          · simp [hc]
      | _ => simp

/-- Nothing is sent on a channel by steps of other components than its source. -/
theorem sent_eq_nil {l : List Event} (h : ∀ e ∈ l, e.source ≠ c.source) : sent c l = [] := by
  refine callsOn_eq_nil _ fun c' p he => ?_
  rw [decide_eq_false_iff_not]
  rintro rfl
  exact h _ he rfl

end callsOn

section hostEvents

variable (h : Nat)

@[simp] theorem signalsOf_nil : signalsOf h [] = [] := rfl
@[simp] theorem writesOf_nil : writesOf h [] = [] := rfl
@[simp] theorem readsOf_nil : readsOf h [] = [] := rfl
@[simp] theorem responsesOf_nil : responsesOf h [] = [] := rfl

@[simp] theorem signalsOf_append (l l' : List Event) :
    signalsOf h (l ++ l') = signalsOf h l ++ signalsOf h l' := pick_append ..
@[simp] theorem writesOf_append (l l' : List Event) :
    writesOf h (l ++ l') = writesOf h l ++ writesOf h l' := pick_append ..
@[simp] theorem readsOf_append (l l' : List Event) :
    readsOf h (l ++ l') = readsOf h l ++ readsOf h l' := pick_append ..
@[simp] theorem responsesOf_append (l l' : List Event) :
    responsesOf h (l ++ l') = responsesOf h l ++ responsesOf h l' := pick_append ..

@[simp] theorem signalsOf_cons (e : Event) (l : List Event) :
    signalsOf h (e :: l) = (e.signal? h).toList ++ signalsOf h l := pick_cons ..
@[simp] theorem writesOf_cons (e : Event) (l : List Event) :
    writesOf h (e :: l) = (e.write? h).toList ++ writesOf h l := pick_cons ..
@[simp] theorem readsOf_cons (e : Event) (l : List Event) :
    readsOf h (e :: l) = (e.read? h).toList ++ readsOf h l := pick_cons ..
@[simp] theorem responsesOf_cons (e : Event) (l : List Event) :
    responsesOf h (e :: l) = (e.response? h).toList ++ responsesOf h l := pick_cons ..

@[simp] theorem signalsOf_map_call (c : Chan) (ps : List Payload) :
    signalsOf h (ps.map (.call c)) = [] := by simp [signalsOf]
@[simp] theorem writesOf_map_call (c : Chan) (ps : List Payload) :
    writesOf h (ps.map (.call c)) = [] := by simp [writesOf]
@[simp] theorem readsOf_map_call (c : Chan) (ps : List Payload) :
    readsOf h (ps.map (.call c)) = [] := by simp [readsOf]
@[simp] theorem responsesOf_map_call (c : Chan) (ps : List Payload) :
    responsesOf h (ps.map (.call c)) = [] := by simp [responsesOf]

theorem hostEvents_foreign {l : List Event} (hl : ∀ e ∈ l, e.source ≠ .sim h) :
    signalsOf h l = [] ∧ writesOf h l = [] ∧ readsOf h l = [] := by
  refine ⟨(pick_eq_nil _).mpr ?_, (pick_eq_nil _).mpr ?_, (pick_eq_nil _).mpr ?_⟩ <;>
    intro e he <;> have := hl e he <;> cases e <;> simp_all [Event.source]

theorem responsesOf_foreign {l : List Event} (hl : ∀ e ∈ l, e.source ≠ .sim h) :
    responsesOf h l = [] := by
  refine (pick_eq_nil _).mpr ?_
  intro e he
  have := hl e he
  cases e <;> simp_all [Event.source]

theorem mem_signalsOf {a : Nat} {l : List Event} : a ∈ signalsOf h l ↔ .signal h a ∈ l := by
  simp only [signalsOf, mem_pick]
  refine ⟨?_, fun he => ⟨_, he, by simp⟩⟩
  rintro ⟨e, he, ha⟩
  cases e <;> simp_all

theorem mem_writesOf {q : Packet} {l : List Event} : q ∈ writesOf h l ↔ .writePacket h q ∈ l := by
  simp only [writesOf, mem_pick]
  refine ⟨?_, fun he => ⟨_, he, by simp⟩⟩
  rintro ⟨e, he, ha⟩
  cases e <;> simp_all

theorem mem_readsOf {q : Packet} {l : List Event} : q ∈ readsOf h l ↔ .readPacket h q ∈ l := by
  simp only [readsOf, mem_pick]
  refine ⟨?_, fun he => ⟨_, he, by simp⟩⟩
  rintro ⟨e, he, ha⟩
  cases e <;> simp_all

end hostEvents

/-- A split of a longer log at an event the new part does not hold is a split of the old log. -/
theorem split_append {l es l₁ l₂ : List Event} {x : Event} (h : l ++ es = l₁ ++ x :: l₂)
    (hx : x ∉ es) : ∃ l₂', l = l₁ ++ x :: l₂' := by
  rcases List.append_eq_append_iff.mp h with ⟨m, rfl, hes⟩ | ⟨m, rfl, hm⟩
  · exact absurd (hes ▸ List.mem_append_right m List.mem_cons_self) hx
  · cases m with
    | nil =>
        rw [List.nil_append] at hm
        exact absurd (hm ▸ List.mem_cons_self) hx
    | cons y m =>
        simp only [List.cons_append, List.cons.injEq] at hm
        exact ⟨m, by rw [hm.1]⟩

/-- A split of a log with one more event is at this event or a split of the old log. -/
theorem split_concat {l l₁ l₂ : List Event} {x y : Event} (h : l ++ [y] = l₁ ++ x :: l₂) :
    (l₁ = l ∧ x = y) ∨ ∃ l₃, l = l₁ ++ x :: l₃ := by
  rcases List.eq_nil_or_concat l₂ with rfl | ⟨l₃, z, rfl⟩
  · obtain ⟨rfl, hx⟩ := List.append_inj' h rfl
    exact .inl ⟨rfl, (List.cons.inj hx).1.symm⟩
  · have h : l ++ [y] = l₁ ++ x :: l₃ ++ [z] := by simpa using h
    exact .inr ⟨l₃, (List.append_inj' h rfl).1⟩

/-- The payloads of a sequence of packets, packet by packet; `f q n` makes those of the packet
    with number `n`. -/
def packetPayloads (f : Packet → Nat → List Payload) (qs : List Packet) : List Payload :=
  qs.zipIdx.flatMap fun x => f x.1 x.2

@[simp] theorem packetPayloads_nil (f : Packet → Nat → List Payload) :
    packetPayloads f [] = [] := rfl

@[simp] theorem packetPayloads_concat (f : Packet → Nat → List Payload) (qs : List Packet)
    (q : Packet) : packetPayloads f (qs ++ [q]) = packetPayloads f qs ++ f q qs.length := by
  simp [packetPayloads, List.zipIdx_append]

theorem mem_packetPayloads {f : Packet → Nat → List Payload} {qs : List Packet} {p : Payload} :
    p ∈ packetPayloads f qs ↔ ∃ n, ∃ hn : n < qs.length, p ∈ f qs[n] n := by
  simp only [packetPayloads, List.mem_flatMap, Prod.exists, List.mem_zipIdx_iff_getElem?]
  constructor
  · rintro ⟨q, n, hq, hp⟩
    obtain ⟨hn, rfl⟩ := List.getElem?_eq_some_iff.mp hq
    exact ⟨n, hn, hp⟩
  · rintro ⟨n, hn, hp⟩
    exact ⟨_, n, List.getElem?_eq_getElem hn, hp⟩

theorem packetPayloads_nodup {f : Packet → Nat → List Payload} (hf : ∀ q n, (f q n).Nodup)
    (hn : ∀ q n, ∀ p ∈ f q n, p.packet = n) (qs : List Packet) : (packetPayloads f qs).Nodup := by
  induction qs using List.reverseRecOn with
  | nil => exact List.nodup_nil
  | append_singleton qs q ih =>
      rw [packetPayloads_concat]
      refine ih.append (hf q _) ?_
      -- the payloads of an earlier packet carry an earlier number
      intro p h1 h2
      obtain ⟨n, hlt, hp⟩ := mem_packetPayloads.mp h1
      have := hn _ _ p hp
      have := hn _ _ p h2
      omega

theorem packetPayloads_length {f : Packet → Nat → List Payload} {n : Nat}
    (hf : ∀ q k, (f q k).length = n) (qs : List Packet) :
    (packetPayloads f qs).length = n * qs.length := by
  induction qs using List.reverseRecOn with
  | nil => rfl
  | append_singleton qs q ih =>
      rw [packetPayloads_concat, List.length_append, ih, hf, List.length_append,
        List.length_singleton, Nat.mul_add, Nat.mul_one]

/-- The payloads of the first packets come first. -/
theorem packetPayloads_take (f : Packet → Nat → List Payload) (qs : List Packet) (m : Nat) :
    packetPayloads f (qs.take m) <+: packetPayloads f qs := by
  refine ⟨((qs.drop m).zipIdx (qs.take m).length).flatMap fun x => f x.1 x.2, ?_⟩
  conv => rhs; rw [← List.take_append_drop m qs]
  rw [packetPayloads, packetPayloads, List.zipIdx_append, List.flatMap_append, Nat.zero_add]

/-- A prefix as long as the first `n + 1` packets holds packet `n`. -/
theorem mem_of_packetPayloads_prefix {f : Packet → Nat → List Payload} {N n : Nat}
    (hf : ∀ q k, (f q k).length = N) {qs : List Packet} {ps : List Payload}
    (hps : ps <+: packetPayloads f qs) (hn : n < qs.length) (hlen : N * (n + 1) ≤ ps.length) :
    ∀ p ∈ f qs[n] n, p ∈ ps := by
  intro p hp
  have htake : (packetPayloads f (qs.take (n + 1))).length ≤ ps.length := by
    rw [packetPayloads_length hf, List.length_take, Nat.min_eq_left hn]
    exact hlen
  refine (List.prefix_of_prefix_length_le (packetPayloads_take f qs (n + 1)) hps htake).mem ?_
  refine mem_packetPayloads.mpr ⟨n, ?_, ?_⟩
  · rw [List.length_take]
    omega
  · rw [List.getElem_take]
    exact hp

end TSim4CXL
