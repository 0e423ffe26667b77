/-
  The wait of the first flit of a packet.

  `flit_packing_68` waits `port_latency+link_latency` when its flit counter is a multiple of the
  flits of a packet: `payload_num/2` for reads, and 20 for writes, whatever the packet size.
  `Tally` says which flits a USP has started after any run: read flit `i` starts at payload `2i`,
  write flit `j` is in phase `j % 5` of its round of four payloads. `port_latency_iff`: the
  latency is charged once per packet exactly when payload_num is 16 or there are too few writes to
  tell, and the counters have not wrapped around in the middle of a packet.
-/
import TSim4CXL.Properties.UspStranding

namespace TSim4CXL

open Transition

/-! ## The flits of a USP -/

/-- A flit at its `wait`: which wait, the payloads of its command that had left their queue before,
    and `f_idx` for a write. -/
structure Flit where
  command : Command
  delay : Delay
  position : Nat
  phase : Nat
deriving DecidableEq

namespace Flit

/-- The first flit of a packet of `n` payloads: it starts with the first of them. The last flit of
    a round of four starts behind its payloads. -/
def First (n : Nat) (f : Flit) : Prop := f.phase = 0 ∧ n ∣ f.position

/-- The flit waits the port latency if it is the first of its packet, and a period otherwise. -/
def Right (cfg : Config) (f : Flit) : Prop :=
  (First cfg.payloadNum f → f.delay = Usp.flitLatency cfg) ∧
    (¬ First cfg.payloadNum f → f.delay = .period)

end Flit

namespace Usp

variable {cfg : Config} {h : Nat} {u u' : Usp} {l : List Event}

/-- The payloads of a command that have arrived. -/
def received (h : Nat) (l : List Event) (c : Command) : Nat := (ofCmd c (sent (.uspFw h) l)).length

/-- The queue of a command. -/
def fwQueue (u : Usp) : Command → List Payload
  | .read => u.rQueue
  | .write => u.wQueue

/-- The phase of a write flit; `lastFlit` has set `f_idx` back. -/
def phase (u : Usp) : Nat :=
  match u.fw with
  | .lastFlit _ => 4
  | _ => u.fIdx

/-- The flit `fw_thread` is suspended in. -/
def flitOf (h : Nat) (l : List Event) (u : Usp) : List Flit :=
  let taken c := received h l c - (u.fwQueue c).length
  match u.fw with
  | .idle => []
  | .lastFlit _ => [⟨.write, .period, taken .write, 4⟩]
  | .firstFlit delay => [⟨.write, delay, taken .write, u.fIdx⟩]
  | .midFlit _ => [⟨.write, .period, taken .write, u.fIdx⟩]
  | .readFlit delay => [⟨.read, delay, taken .read, 0⟩]

/-- A USP on its own with its log and the flits it has started. -/
abbrev FlitUsp := (Usp × List Event) × List Flit

def flitStep (cfg : Config) (h : Nat) (s : FlitUsp) (a : AloneAct) : Except Fault FlitUsp :=
  match aloneStep cfg h s.1 a with
  | .ok t =>
      match a with
      | .thread .fw => .ok (t, s.2 ++ flitOf h t.2 t.1)
      | _ => .ok (t, s.2)
  | .error e => .error e

/-- The states of all runs of the USP of host `h`. -/
def ReachableFlits (cfg : Config) (h : Nat) (s : FlitUsp) : Prop :=
  Reach (flitStep cfg h) anyStep ((init, []), []) s

/-! ## The tally of the flits -/

/-- Read flit `i` takes payloads `2i` and `2i+1`. -/
def readFlit (cfg : Config) (i : Nat) : Flit :=
  ⟨.read, if u32 i % (cfg.payloadNum / rMsg) = 0 then flitLatency cfg else .period, 2 * i, 0⟩

/-- Write flit `j` is in phase `j % 5` of round `j / 5`. -/
def writeFlit (cfg : Config) (j : Nat) : Flit :=
  ⟨.write, if j % 5 = 0 ∧ u32 j % 20 = 0 then flitLatency cfg else .period,
    4 * (j / 5) + j % 5, j % 5⟩

def flitsOf (c : Command) (fl : List Flit) : List Flit := fl.filter fun f => f.command = c

/-- The flits of a command that have started and not ended. -/
def busy (u : Usp) : Command → Nat
  | .read => match u.fw with
    | .readFlit _ => 1
    | _ => 0
  | .write => match u.fw with
    | .idle => 0
    | .readFlit _ => 0
    | _ => 1

/-- `R` read flits have ended, and of the writes `q` rounds and the phases of the one begun. -/
structure Tally (cfg : Config) (h R q : Nat) (u : Usp) (l : List Event) (fl : List Flit) :
    Prop where
  reads : flitsOf .read fl = (List.range (R + u.busy .read)).map (readFlit cfg)
  writes : flitsOf .write fl = (List.range (5 * q + u.phase + u.busy .write)).map (writeFlit cfg)
  readFlit : u.stats.readFlit = u32 R
  writeFlit : u.stats.writeFlit = u32 (5 * q + u.phase)
  readTaken : received h l .read = 2 * R + u.rQueue.length
  writeTaken : received h l .write = 4 * q + u.phase + u.wQueue.length

variable {fl : List Flit} {R q : Nat}

theorem received_call {c : Chan} (hc : c ≠ .uspFw h) (p : Payload) (l : List Event) :
    received h (l ++ [.call c p]) = received h l := by
  funext k
  simp [received, sent_append, hc]

theorem u32_succ (n : Nat) : u32 (u32 n + 1) = u32 (n + 1) := by
  unfold u32
  omega

/-- The end of a flit. -/
theorem Tally.finish {v : Usp} {es : List Event} (ht : Tally cfg h R q u l fl) (hp : Phase u)
    (hf : u.fw ≠ .idle) (hv : v.fw = .idle) (hm : Move cfg h u es v) :
    ∃ R q, Tally cfg h R q v (l ++ es) fl := by
  obtain ⟨h1, h2, h3, h4, h5, h6⟩ := ht
  cases hm with
  | startLast hi => exact absurd hi hf
  | startFirst hi => exact absurd hi hf
  | startMid hi => exact absurd hi hf
  | startRead hi => exact absurd hi hf
  | takeWack => exact absurd hv hf
  | takeRack => exact absurd hv hf
  | sendWack => exact absurd hv hf
  | sendRack => exact absurd hv hf
  | finishLast hw =>
      simp only [Phase, hw] at hp
      simp only [busy, phase, hw] at h1 h2 h4 h6
      refine ⟨R, q + 1, h1, ?_, h3, ?_, ?_, ?_⟩
      · simpa [busy, phase, hp.1, Nat.mul_succ] using h2
      · simp only [Statistics.increaseWFlit, h4, u32_succ, phase, hp.1]
        congr 1
      · rw [received_call (by simp)]
        exact h5
      · rw [received_call (by simp), h6]
        simp only [phase, hp.1]
        omega
  | finishFirst hw hq =>
      simp only [busy, phase, hw, hq, List.length_cons] at h1 h2 h4 h6
      refine ⟨R, q, h1, h2, h3, ?_, by rwa [List.append_nil], ?_⟩
      · simp only [Statistics.increaseWFlit, h4, u32_succ, phase]
        congr 1
      · rw [List.append_nil, h6]
        simp only [phase]
        omega
  | finishMid hw hq =>
      simp only [busy, phase, hw, hq, List.length_cons] at h1 h2 h4 h6
      refine ⟨R, q, h1, h2, h3, ?_, ?_, ?_⟩
      · simp only [Statistics.increaseWFlit, h4, u32_succ, phase]
        congr 1
      · rw [received_call (by simp)]
        exact h5
      · rw [received_call (by simp), h6]
        simp only [phase]
        omega
  | finishRead hw hq =>
      simp only [busy, phase, hw, hq, List.length_cons] at h1 h2 h4 h5 h6
      refine ⟨R + 1, q, h1, h2, ?_, h4, ?_, ?_⟩
      · simp only [Statistics.increaseRFlit, h3, u32_succ]
      · rw [← List.singleton_append, ← List.append_assoc, received_call (by simp),
          received_call (by simp), h5]
        simp only
        omega
      · rw [← List.singleton_append, ← List.append_assoc, received_call (by simp),
          received_call (by simp), h6]
        rfl

theorem flitsOf_concat (c : Command) (fl : List Flit) (f : Flit) :
    flitsOf c (fl ++ [f]) = flitsOf c fl ++ if f.command = c then [f] else [] := by
  rw [flitsOf, List.filter_append]
  by_cases hc : f.command = c <;> simp [flitsOf, hc]

/-- One more flit, the next of its command. -/
theorem range_map_succ {c : Command} {g : Nat → Flit} {n : Nat}
    (h : flitsOf c fl = (List.range n).map g) (hc : (g n).command = c) :
    flitsOf c (fl ++ [g n]) = (List.range (n + 1)).map g := by
  rw [flitsOf_concat, if_pos hc, h, List.range_succ, List.map_append]
  rfl

theorem flitsOf_other {c : Command} {f : Flit} (hc : f.command ≠ c) :
    flitsOf c (fl ++ [f]) = flitsOf c fl := by
  rw [flitsOf_concat, if_neg hc, List.append_nil]

/-- The write flit that starts in phase `k` of round `q`. -/
theorem writeFlit_eq (cfg : Config) (q : Nat) {k : Nat} (hk : k < 5) :
    writeFlit cfg (5 * q + k) = ⟨.write,
      if k = 0 ∧ u32 (5 * q + k) % 20 = 0 then flitLatency cfg else .period, 4 * q + k, k⟩ := by
  have hmod : (5 * q + k) % 5 = k := by omega
  have hdiv : (5 * q + k) / 5 = q := by omega
  rw [writeFlit, hmod, hdiv]

/-- The start of a flit. -/
theorem Tally.start (ht : Tally cfg h R q u l fl) (hp : Phase u) (hf : u.fw = .idle)
    (hf' : u'.fw ≠ .idle) (hm : Move cfg h u [] u') :
      Tally cfg h R q u' l (fl ++ flitOf h l u') := by
  obtain ⟨h1, h2, h3, h4, h5, h6⟩ := ht
  simp only [Phase, hf, Settled] at hp
  simp only [busy, phase, hf, Nat.add_zero] at h1 h2 h4 h6
  cases hm with
  | finishFirst hi => exact absurd (hf.symm.trans hi) UspFw.noConfusion
  | takeWack => exact absurd hf hf'
  | takeRack => exact absurd hf hf'
  | startLast hi hi4 hq =>
      have hflit := writeFlit_eq cfg q (show 4 < 5 by decide)
      rw [if_neg (by simp)] at hflit
      have htaken : received h l .write - u.wQueue.length = 4 * q + 4 := by omega
      rw [hi4] at h2 h4 h6
      refine ⟨?_, ?_, h3, h4, h5, h6⟩
      · rw [flitOf, flitsOf_other (by simp)]
        exact h1
      · simp only [flitOf, fwQueue, htaken, ← hflit]
        exact range_map_succ h2 rfl
  | startFirst hi hi0 hw =>
      have hflit := writeFlit_eq cfg q (show 0 < 5 by decide)
      simp only [true_and] at hflit
      have htaken : received h l .write - u.wQueue.length = 4 * q + 0 := by omega
      rw [hi0] at h2 h4 h6
      refine ⟨?_, ?_, h3, by simpa [phase, hi0] using h4, h5, by simpa [phase, hi0] using h6⟩
      · rw [flitOf, flitsOf_other (by simp)]
        exact h1
      · simp only [flitOf, fwQueue, htaken, h4, hi0, ← hflit]
        simpa [phase, busy, hi0] using range_map_succ h2 rfl
  | startMid hi hi0 hi4 hw hq =>
      have hlt : u.fIdx < 5 := by omega
      have hflit := writeFlit_eq cfg q hlt
      rw [if_neg (by simp [hi0])] at hflit
      have htaken : received h l .write - u.wQueue.length = 4 * q + u.fIdx := by omega
      refine ⟨?_, ?_, h3, h4, h5, h6⟩
      · rw [flitOf, flitsOf_other (by simp)]
        exact h1
      · simp only [flitOf, fwQueue, htaken, ← hflit]
        exact range_map_succ h2 rfl
  | startRead hi hr hn =>
      have htaken : received h l .read - u.rQueue.length = 2 * R := by omega
      refine ⟨?_, ?_, h3, h4, h5, h6⟩
      · simp only [flitOf, fwQueue, htaken, h3]
        exact range_map_succ (g := Usp.readFlit cfg) h1 rfl
      · rw [flitOf, flitsOf_other (by simp)]
        exact h2

/-- The tally looks at the queues of the requests, the counters and where `fw_thread` is. -/
theorem Tally.congr {l' : List Event} (ht : Tally cfg h R q u l fl) (hf : u'.fw = u.fw)
    (hi : u'.fIdx = u.fIdx) (hs : u'.stats = u.stats)
    (hr : received h l' .read + u.rQueue.length = received h l .read + u'.rQueue.length)
    (hw : received h l' .write + u.wQueue.length = received h l .write + u'.wQueue.length) :
    Tally cfg h R q u' l' fl := by
  have hphase : u'.phase = u.phase := by rw [phase, phase, hf, hi]
  have hbusy : u'.busy = u.busy := funext fun c => by cases c <;> simp only [busy, hf]
  obtain ⟨h1, h2, h3, h4, h5, h6⟩ := ht
  exact ⟨by rw [hbusy, h1], by rw [hphase, hbusy, h2], by rw [hs, h3], by rw [hs, hphase, h4],
    by omega, by omega⟩

/-- The tally of a state, with the phases of `fw_thread`. -/
def Tallied (cfg : Config) (h : Nat) (s : FlitUsp) : Prop :=
  Phase s.1.1 ∧ ∃ R q, Tally cfg h R q s.1.1 s.1.2 s.2

theorem received_forward (p : Payload) (l : List Event) (c : Command) :
    received h (l ++ [.call (.uspFw h) p]) c = received h l c + if p.command = c then 1 else 0 := by
  by_cases hc : p.command = c <;> simp [received, sent_append, ofCmd, hc]

theorem Tally.forward (ht : Tally cfg h R q u l fl) (p : Payload) :
    Tally cfg h R q (u.nbTransportFw p) (l ++ [.call (.uspFw h) p]) fl := by
  cases hp : p.command <;>
    refine ht.congr ?_ ?_ ?_ ?_ ?_ <;>
    simp only [nbTransportFw, hp, received_forward, reduceCtorEq, if_true, if_false,
      List.length_append, List.length_singleton] <;> omega

theorem Tally.ack (ht : Tally cfg h R q u l fl) (p : Payload) :
    Tally cfg h R q (u.nbTransportBw p) (l ++ [.call (.uspBw h) p]) fl := by
  cases hp : p.command <;>
    refine ht.congr ?_ ?_ ?_ ?_ ?_ <;> simp [nbTransportBw, hp, received_call]

theorem Tally.bwThread (ht : Tally cfg h R q u l fl) :
    Tally cfg h R q (u.bwThread cfg h).1 (l ++ (u.bwThread cfg h).2) fl := by
  obtain ⟨h1, h2, h3, h4, h5, hsent⟩ := bwThread_frame cfg h u
  have hreceived (c : Command) :
      received h (l ++ (u.bwThread cfg h).2) c = received h l c := by
    rw [received, sent_append, hsent _ (by simp), List.append_nil, received]
  exact ht.congr h1 h2 h3 (by rw [hreceived, h4]) (by rw [hreceived, h5])

theorem Tally.fwThread {es : List Event} (ht : Tally cfg h R q u l fl) (hp : Phase u)
    (hs : u.fwThread cfg h = .ok (u', es)) :
    ∃ R q, Tally cfg h R q u' (l ++ es) (fl ++ flitOf h (l ++ es) u') := by
  obtain ⟨v, hv, hfinish, hstart⟩ := fwThread_split hs
  have hvt : ∃ R q, Tally cfg h R q v (l ++ es) fl := by
    rcases hfinish with ⟨rfl, rfl⟩ | ⟨hf, hm⟩
    · exact ⟨R, q, by rwa [List.append_nil]⟩
    · exact ht.finish hp hf hv hm
  obtain ⟨R, q, hvt⟩ := hvt
  have hvp : Phase v := by
    rcases hfinish with ⟨rfl, -⟩ | ⟨-, hm⟩
    · exact hp
    · exact uspPhase_closed.move u [] es v hm hp
  rcases hstart with rfl | ⟨hf, hm⟩
  · exact ⟨R, q, by simpa [flitOf, hv] using hvt⟩
  · exact ⟨R, q, hvt.start hvp hv hf hm⟩

theorem flitStep_ok {s t : FlitUsp} {a : AloneAct} (hs : flitStep cfg h s a = .ok t) :
    aloneStep cfg h s.1 a = .ok t.1 := by
  simp only [flitStep] at hs
  split at hs
  · rename_i hstep
    split at hs <;> cases hs <;> exact hstep
  · cases hs

theorem ReachableFlits.phase {s : FlitUsp} (hr : ReachableFlits cfg h s) : Phase s.1.1 :=
  alone_phase (Reach.map (f := Prod.fst) (fun _ a _ hs => ⟨a, flitStep_ok hs⟩) hr)

theorem ReachableFlits.tallied {s : FlitUsp} (hr : ReachableFlits cfg h s) : Tallied cfg h s := by
  refine ⟨hr.phase, Reach.invariant (P := fun s : FlitUsp => ∃ R q, Tally cfg h R q s.1.1 s.1.2 s.2)
    ⟨0, 0, rfl, rfl, rfl, rfl, rfl, rfl⟩ (fun s a s' hr _ ⟨R, q, ht⟩ hs => ?_) hr⟩
  cases a with
  | forward p =>
      cases hs
      simp only [hear, if_true]
      exact ⟨R, q, ht.forward p⟩
  | ack p =>
      cases hs
      simp only [hear, if_true]
      exact ⟨R, q, ht.ack p⟩
  | thread a =>
      obtain ⟨u, es, hact, ht'⟩ := aloneStep_thread.mp (flitStep_ok hs)
      cases a with
      | bw =>
          cases hs
          exact ⟨R, q, ht.bwThread⟩
      | fw =>
          simp only [flitStep, aloneStep, hact] at hs
          cases hs
          exact ht.fwThread (ReachableFlits.phase hr) hact

/-! ## When the wait is right -/

/-- A counter modulo 2^32 tells the multiples of `n` apart as long as it does not wrap around, or
    wraps around at one of them. -/
theorem wrapped_dvd_iff (n R : Nat) :
    (∀ i < R, (u32 i % n = 0 ↔ n ∣ i)) ↔ n ∣ 4294967296 ∨ R ≤ 4294967296 := by
  constructor
  · intro hall
    rcases Nat.lt_or_ge 4294967296 R with hR | hR
    · exact .inl ((hall _ hR).mp (Nat.zero_mod n))
    · exact .inr hR
  · rintro (hd | hR) i hi
    · rw [← Nat.dvd_iff_mod_eq_zero, u32, Nat.dvd_mod_iff hd]
    · rw [u32, Nat.mod_eq_of_lt (Nat.lt_of_lt_of_le hi hR), Nat.dvd_iff_mod_eq_zero]

/-- The first flit of a write packet is every `5m`th, and the code takes every 20th. -/
theorem write_wait_iff {m : Nat} (hm : 0 < m) (J : Nat) :
    (∀ j < J, j % 5 = 0 → (u32 j % 20 = 0 ↔ m ∣ j / 5)) ↔
      J ≤ 5 * min m 4 ∨ m = 4 ∧ J ≤ 4294967300 := by
  constructor
  · intro hall
    rcases Nat.lt_trichotomy m 4 with h4 | rfl | h4
    · -- the second packet starts at flit `5m`, which is not a multiple of 20
      refine .inl (Nat.le_of_not_lt fun hJ => ?_)
      have hm5 : 5 * m / 5 = m := by omega
      have h5 := hall (5 * m) (by omega) (by omega)
      rw [hm5, u32] at h5
      have := h5.mpr (Nat.dvd_refl m)
      omega
    · rcases Nat.lt_or_ge 4294967300 J with hJ | hJ
      · exact absurd ((hall _ hJ (by decide)).mpr (by decide)) (by decide)
      · exact .inr ⟨rfl, hJ⟩
    · -- flit 20 belongs to the first packet
      refine .inl (Nat.le_of_not_lt fun hJ => ?_)
      have h20 := (hall 20 (by omega) (by decide)).mp (by decide)
      exact absurd (Nat.le_of_dvd (by decide) h20) (by omega)
  · rintro (hJ | ⟨rfl, hJ⟩) j hj h5
    · have hj20 : j < 20 := by omega
      have hk : j / 5 < m := by omega
      clear hj hJ
      have hu : u32 j % 20 = 0 ↔ j / 5 = 0 := by
        rw [u32, Nat.mod_eq_of_lt (Nat.lt_trans hj20 (by decide)), Nat.mod_eq_of_lt hj20]
        omega
      rw [hu]
      exact ⟨fun h => h ▸ Nat.dvd_zero m, fun h => Nat.eq_zero_of_dvd_of_lt h hk⟩
    · rcases Nat.lt_or_ge j 4294967296 with hj' | hj'
      · rw [u32, Nat.mod_eq_of_lt hj']
        omega
      · omega

/-- Every wait of a USP is the right one. -/
def WaitsRight (cfg : Config) (s : FlitUsp) : Prop := ∀ f ∈ s.2, f.Right cfg

/-- `r` read packets and `w` write packets of `n` payloads are few enough, or of a size that suits
    the two counters. -/
def Fits (n r w : Nat) : Prop :=
  (n / 2 ∣ 4294967296 ∨ n / 2 * r ≤ 4294967296) ∧ (w = 0 ∨ w = 1 ∧ n ≤ 16 ∨ n = 16 ∧ w ≤ 214748365)

theorem right_iff {c : Prop} [Decidable c] {f : Flit}
    (hd : f.delay = if c then flitLatency cfg else .period) :
    f.Right cfg ↔ (c ↔ f.First cfg.payloadNum) := by
  have hne : flitLatency cfg ≠ .period := nofun
  unfold Flit.Right
  rw [hd]
  by_cases hc : c <;> by_cases hf : f.First cfg.payloadNum <;> simp [hc, hf, hne, hne.symm]

theorem readFlit_right_iff {m : Nat} (hN : cfg.payloadNum = 4 * m) (i : Nat) :
    (readFlit cfg i).Right cfg ↔ (u32 i % (2 * m) = 0 ↔ 2 * m ∣ i) := by
  have hhalf : 4 * m / rMsg = 2 * m := by
    unfold rMsg
    omega
  rw [right_iff rfl, hN, hhalf]
  simp only [Flit.First, readFlit, true_and]
  rw [show 4 * m = 2 * (2 * m) by omega, Nat.mul_dvd_mul_iff_left (by decide)]

theorem writeFlit_right_iff {m : Nat} (hN : cfg.payloadNum = 4 * m) (j : Nat) :
    (writeFlit cfg j).Right cfg ↔ (j % 5 = 0 → (u32 j % 20 = 0 ↔ m ∣ j / 5)) := by
  rw [right_iff rfl, hN]
  simp only [Flit.First, writeFlit, and_congr_right_iff]
  refine forall_congr' fun h5 => ?_
  rw [h5, Nat.add_zero, Nat.mul_dvd_mul_iff_left (by decide)]

/-- The waits so far are right exactly when the numbers of flits are small enough. -/
theorem Tally.right_iff {m : Nat} (ht : Tally cfg h R q u l fl) (hm : 0 < m)
    (hN : cfg.payloadNum = 4 * m) :
    (∀ f ∈ fl, f.Right cfg) ↔ (2 * m ∣ 4294967296 ∨ R + u.busy .read ≤ 4294967296) ∧
      (5 * q + u.phase + u.busy .write ≤ 5 * min m 4 ∨
        m = 4 ∧ 5 * q + u.phase + u.busy .write ≤ 4294967300) := by
  have hsplit : (∀ f ∈ fl, f.Right cfg) ↔
      (∀ f ∈ flitsOf .read fl, f.Right cfg) ∧ ∀ f ∈ flitsOf .write fl, f.Right cfg := by
    simp only [flitsOf, List.mem_filter, decide_eq_true_eq]
    refine ⟨fun hall => ⟨fun f hf => hall f hf.1, fun f hf => hall f hf.1⟩, fun hall f hf => ?_⟩
    cases hc : f.command with
    | read => exact hall.1 f ⟨hf, hc⟩
    | write => exact hall.2 f ⟨hf, hc⟩
  rw [hsplit, ht.reads, ht.writes, ← wrapped_dvd_iff, ← write_wait_iff hm]
  simp only [List.mem_map, List.mem_range, forall_exists_index, and_imp, forall_apply_eq_imp_iff₂,
    readFlit_right_iff hN, writeFlit_right_iff hN]

/-- A flit is started only for payloads that have arrived. -/
theorem Tally.started_le (ht : Tally cfg h R q u l fl) (hp : Phase u) {x y : Nat}
    (hr : received h l .read ≤ 4 * x) (hw : received h l .write ≤ 4 * y) :
    R + u.busy .read ≤ 2 * x ∧ 5 * q + u.phase + u.busy .write ≤ 5 * y := by
  have h5 := ht.readTaken
  have h6 := ht.writeTaken
  unfold Phase at hp
  unfold phase busy at *
  split at hp
  · rename_i hf
    simp only [hf, Settled] at *
    omega
  · rename_i hf
    simp only [hf] at *
    omega
  · rename_i hf
    have := List.length_pos_iff.mpr hp.2.2
    simp only [hf] at *
    omega
  · rename_i hf
    have := List.length_pos_iff.mpr hp.2.2.2
    simp only [hf] at *
    omega
  · rename_i hf
    simp only [hf, Settled, rMsg] at *
    omega

/-- With nothing to do, all flits of whole packets have been started. -/
theorem Tally.started_eq (ht : Tally cfg h R q u l fl) (hp : Phase u) (hn : Quiescent u) {x y : Nat}
    (hr : received h l .read = 4 * x) (hw : received h l .write = 4 * y) :
    R + u.busy .read = 2 * x ∧ 5 * q + u.phase + u.busy .write = 5 * y := by
  obtain ⟨hf, hwq, hi4, hrq⟩ := hn
  have h5 := ht.readTaken
  have h6 := ht.writeTaken
  rw [hwq, List.length_nil] at h6
  simp only [Phase, hf, Settled] at hp
  simp only [phase, busy, hf, rMsg] at *
  omega

/-- With at most `r` read packets and `w` write packets every wait is right if they fit; with
    nothing left to do, only if they fit. -/
theorem port_latency_iff {s : FlitUsp} (hs : ReachableFlits cfg h s) (h0 : 0 < cfg.payloadNum)
    (h4 : 4 ∣ cfg.payloadNum) {r w : Nat} (hr : received h s.1.2 .read ≤ cfg.payloadNum * r)
    (hw : received h s.1.2 .write ≤ cfg.payloadNum * w) :
    (Fits cfg.payloadNum r w → WaitsRight cfg s) ∧
      (Quiescent s.1.1 → received h s.1.2 .read = cfg.payloadNum * r →
        received h s.1.2 .write = cfg.payloadNum * w → WaitsRight cfg s →
          Fits cfg.payloadNum r w) := by
  obtain ⟨m, hN⟩ := h4
  obtain ⟨hp, R, q, ht⟩ := hs.tallied
  have hm : 0 < m := by omega
  have hiff := ht.right_iff hm hN
  have hhalf : 4 * m / 2 = 2 * m := by omega
  rw [hN, Nat.mul_assoc] at hr hw ⊢
  rw [Nat.mul_assoc]
  rw [WaitsRight, hiff, Fits, hhalf, Nat.mul_assoc 2]
  constructor
  · obtain ⟨hR, hJ⟩ := ht.started_le hp hr hw
    rintro ⟨hread, hwrite⟩
    refine ⟨hread.imp_right fun h => by omega, ?_⟩
    rcases hwrite with rfl | ⟨rfl, hle⟩ | ⟨hN, hle⟩
    · exact .inl (by omega)
    · exact .inl (by omega)
    · obtain rfl : m = 4 := by omega
      exact .inr ⟨rfl, by omega⟩
  · intro hn hr hw
    obtain ⟨hR, hJ⟩ := ht.started_eq hp hn hr hw
    rw [hR, hJ]
    rintro ⟨hread, hwrite⟩
    refine ⟨hread, ?_⟩
    rcases hwrite with hle | ⟨rfl, hle⟩
    · rcases Nat.lt_or_ge w 2 with hw2 | hw2
      · obtain rfl | rfl : w = 0 ∨ w = 1 := by omega
        · exact .inl rfl
        · exact .inr (.inl ⟨rfl, by omega⟩)
      · have := Nat.mul_le_mul_left m hw2
        omega
    · exact .inr (.inr ⟨rfl, by omega⟩)

/-- The four payloads of a write packet. -/
def fourWrites : List Payload := SimWrapper.writePayloads (smallConfig 1 1 4) 0 (.fill .write 8 7) 0

/-- The four payloads of a read packet. -/
def fourReads : List Payload := SimWrapper.readPayloads (smallConfig 1 1 4) 0 (.fill .read 8 0) 0

/-- The payloads arrive, and `fw_thread` runs until there is nothing left to do. -/
def flitRun (payloads : List Payload) : FlitUsp :=
  runSkip (flitStep (smallConfig 1 1 4) 0) anyStep ((init, []), [])
    (payloads.map .forward ++ List.replicate 20 (.thread .fw))

theorem port_latency_of_mixed :
    (flitRun (fourWrites ++ fourReads)).2.length = 7 ∧
      WaitsRight (smallConfig 1 1 4) (flitRun (fourWrites ++ fourReads)) :=
  ⟨by decide +kernel, (port_latency_iff (h := 0) (r := 1) (w := 1) (reach_runSkip _ _) (by decide)
    (by decide) (by decide +kernel) (by decide +kernel)).1
    ⟨.inl (by decide), .inr (.inl ⟨rfl, by decide⟩)⟩⟩

/-- The first flit of the second write packet waits one period. -/
theorem second_write_undelayed : ∃ s, ReachableFlits (smallConfig 1 1 4) 0 s ∧
    (∃ f ∈ s.2, f.First 4 ∧ f.position = 4 ∧ f.delay = .period) ∧
    ¬ WaitsRight (smallConfig 1 1 4) s := by
  have hflit : ⟨.write, .period, 4, 0⟩ ∈ (flitRun (fourWrites ++ fourWrites)).2 := by decide +kernel
  have hfirst : Flit.First 4 ⟨.write, .period, 4, 0⟩ := ⟨rfl, by decide⟩
  refine ⟨_, reach_runSkip _ _, ⟨_, hflit, hfirst, rfl, rfl⟩, fun hall => ?_⟩
  exact absurd ((hall _ hflit).1 hfirst) (by decide)

end Usp

end TSim4CXL
