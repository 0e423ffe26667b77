/-
  A ring of `K` cells shared by one writer and one reader without a lock.

  `start` and `stop` are the indices of the oldest element and of the next free cell. The writer
  tests for room, puts an element down and then publishes it by moving `stop`; the reader tests
  for an element, copies it out and then moves `start`. Each of these is a step of its own, so
  `Channel` keeps where both parties are; `sent` and `received` are the elements published and
  given up so far.

  `Channel.Inv` holds in every interleaving: the indices are the lengths of `sent` and `received`
  modulo `K`, and the cells between them hold the rest of `sent`. Its rules are `Inv.writeTest` to
  `Inv.readAdvance`, what it gives are `Inv.received_prefix`, `Inv.unread_eq`, `Inv.not_full` and
  `Inv.not_empty`.
-/
import Mathlib.Data.List.Basic

/-- The indices and the cells. -/
structure RingBuffer (α : Type*) where
  start : Nat
  stop : Nat
  elems : Nat → α

namespace RingBuffer

variable {α : Type*} {K : Nat}

def isFull (K : Nat) (r : RingBuffer α) : Bool := (r.stop + 1) % K = r.start

def isEmpty (r : RingBuffer α) : Bool := r.stop = r.start

/-- Copy an element into the free cell. -/
def put (r : RingBuffer α) (x : α) : RingBuffer α :=
  { r with elems := fun i => if i = r.stop then x else r.elems i }

/-- Move `stop`. -/
def publish (K : Nat) (r : RingBuffer α) : RingBuffer α := { r with stop := (r.stop + 1) % K }

/-- The oldest element. -/
def peek (r : RingBuffer α) : α := r.elems r.start

/-- Move `start`. -/
def advance (K : Nat) (r : RingBuffer α) : RingBuffer α := { r with start := (r.start + 1) % K }

/-- The elements from `start` up to `stop`. -/
def unread (K : Nat) (r : RingBuffer α) : List α :=
  (List.range ((r.stop + K - r.start) % K)).map fun i => r.elems ((r.start + i) % K)

theorem unread_length_lt (hK : 0 < K) (r : RingBuffer α) : (r.unread K).length < K := by
  rw [unread, List.length_map, List.length_range]
  exact Nat.mod_lt _ hK

end RingBuffer

/-- Where the writer is. -/
inductive RingBuffer.Writer (α : Type*)
  | idle
  | put (x : α)
  | publish (x : α)

/-- Where the reader is. -/
inductive RingBuffer.Reader (α : Type*)
  | idle
  | peek
  | advance (x : α)

namespace RingBuffer

/-- A ring with both parties and what went through it. -/
structure Channel (α : Type*) where
  ring : RingBuffer α
  writer : Writer α
  reader : Reader α
  sent : List α
  received : List α

variable {α : Type*} {K a b : Nat}

/-! ## Indices -/

theorem mod_eq_mod_iff (hle : b ≤ a) (hlt : a < b + K) : a % K = b % K ↔ a = b := by
  constructor
  · intro h
    have hd : K ∣ a - b := Nat.dvd_of_mod_eq_zero (Nat.sub_mod_eq_zero_of_mod_eq h)
    have : a - b = 0 := Nat.eq_zero_of_dvd_of_lt hd (by omega)
    omega
  · rintro rfl
    rfl

theorem succ_mod_eq_mod_iff (hle : b ≤ a) (hlt : a < b + K) :
    (a + 1) % K = b % K ↔ a + 1 = b + K := by
  constructor
  · intro h
    by_cases hlt' : a + 1 < b + K
    · have := (mod_eq_mod_iff (by omega) hlt').mp h
      omega
    · omega
  · intro h
    rw [h, Nat.add_mod_right]

/-! ## The invariant -/

/-- The indices count the elements sent and received, and what is unread is in its cells. -/
structure Channel.Inv (K : Nat) (c : Channel α) : Prop where
  start_eq : c.ring.start = c.received.length % K
  stop_eq : c.ring.stop = c.sent.length % K
  received_prefix : c.received <+: c.sent
  length_lt : c.sent.length < c.received.length + K
  cells : ∀ i, ∀ hi : i < c.sent.length, c.received.length ≤ i → c.ring.elems (i % K) = c.sent[i]
  room : ∀ x, c.writer = .put x ∨ c.writer = .publish x → c.sent.length + 1 < c.received.length + K
  written : ∀ x, c.writer = .publish x → c.ring.elems (c.sent.length % K) = x
  waiting : ∀ x, c.reader = .peek ∨ c.reader = .advance x → c.received.length < c.sent.length
  copied : ∀ x, c.reader = .advance x → c.sent[c.received.length]? = some x

namespace Channel

variable {c : Channel α}

theorem Inv.length_le (h : c.Inv K) : c.received.length ≤ c.sent.length :=
  h.received_prefix.length_le

/-- A ring nobody has used. -/
theorem Inv.init {elems : Nat → α} (hK : 0 < K) : Inv K ⟨⟨0, 0, elems⟩, .idle, .idle, [], []⟩ where
  start_eq := (Nat.zero_mod K).symm
  stop_eq := (Nat.zero_mod K).symm
  received_prefix := List.prefix_rfl
  length_lt := by simpa using hK
  cells := by simp
  room := by simp
  written := by simp
  waiting := by simp
  copied := by simp

theorem Inv.isFull_iff (h : c.Inv K) :
    c.ring.isFull K = true ↔ c.sent.length + 1 = c.received.length + K := by
  rw [isFull, decide_eq_true_eq, h.start_eq, h.stop_eq, Nat.mod_add_mod]
  exact succ_mod_eq_mod_iff h.length_le h.length_lt

theorem Inv.isEmpty_iff (h : c.Inv K) :
    c.ring.isEmpty = true ↔ c.sent.length = c.received.length := by
  rw [isEmpty, decide_eq_true_eq, h.start_eq, h.stop_eq]
  exact mod_eq_mod_iff h.length_le h.length_lt

/-! ### Steps of the writer -/

theorem Inv.writeIdle (h : c.Inv K) : Inv K { c with writer := .idle } :=
  { h with room := by simp, written := by simp }

theorem Inv.writeTest (h : c.Inv K) (hf : c.ring.isFull K = false) (x : α) :
    Inv K { c with writer := .put x } := by
  have hroom : c.sent.length + 1 ≠ c.received.length + K := fun he => by
    rw [h.isFull_iff.mpr he] at hf
    cases hf
  have hlt := h.length_lt
  exact { h with room := fun _ _ => by dsimp only; omega, written := by simp }

theorem Inv.writePut (h : c.Inv K) {x : α} (hw : c.writer = .put x) :
    Inv K { c with writer := .publish x, ring := c.ring.put x } := by
  have hroom := h.room x (.inl hw)
  refine { h with cells := ?_, room := fun _ _ => hroom, written := ?_ }
  · intro i hi hle
    dsimp only at hi hle ⊢
    -- no unread element is in the free cell
    have hne : i % K ≠ c.sent.length % K := fun he => by
      have := (mod_eq_mod_iff (K := K) (Nat.le_of_lt hi) (by omega)).mp he.symm
      omega
    rw [RingBuffer.put, h.stop_eq]
    dsimp only
    rw [if_neg hne]
    exact h.cells i hi hle
  · intro y hy
    cases hy
    dsimp only
    rw [RingBuffer.put, h.stop_eq]
    exact if_pos rfl

theorem Inv.writePublish (h : c.Inv K) {x : α} (hw : c.writer = .publish x) :
    Inv K { c with writer := .idle, ring := c.ring.publish K, sent := c.sent ++ [x] } where
  start_eq := h.start_eq
  stop_eq := by
    dsimp only
    rw [RingBuffer.publish, h.stop_eq, List.length_append, List.length_singleton, Nat.mod_add_mod]
  received_prefix := h.received_prefix.trans (List.prefix_append ..)
  length_lt := by
    have := h.room x (.inr hw)
    simpa using this
  cells i hi hle := by
    dsimp only at hi hle ⊢
    rw [List.length_append, List.length_singleton] at hi
    rcases Nat.lt_or_eq_of_le (Nat.le_of_lt_succ hi) with hlt | rfl
    · rw [List.getElem_append_left hlt]
      exact h.cells i hlt hle
    · rw [List.getElem_concat_length rfl]
      exact h.written x hw
  room := by simp
  written := by simp
  waiting y hy := by
    have := h.waiting y hy
    dsimp only
    rw [List.length_append]
    omega
  copied y hy := by
    have hlt := h.waiting y (.inr hy)
    dsimp only
    rw [List.getElem?_append_left hlt]
    exact h.copied y hy

/-! ### Steps of the reader -/

theorem Inv.readIdle (h : c.Inv K) : Inv K { c with reader := .idle } :=
  { h with waiting := by simp, copied := by simp }

theorem Inv.readTest (h : c.Inv K) (he : c.ring.isEmpty = false) :
    Inv K { c with reader := .peek } := by
  have hne : c.sent.length ≠ c.received.length := fun heq => by
    rw [h.isEmpty_iff.mpr heq] at he
    cases he
  have hle := h.length_le
  exact { h with waiting := fun _ _ => by dsimp only; omega, copied := by simp }

theorem Inv.readPeek (h : c.Inv K) (hr : c.reader = .peek) :
    Inv K { c with reader := .advance c.ring.peek } := by
  have hlt : c.received.length < c.sent.length := h.waiting c.ring.peek (.inl hr)
  refine { h with waiting := fun _ _ => hlt, copied := fun y hy => ?_ }
  cases hy
  dsimp only
  rw [RingBuffer.peek, h.start_eq, h.cells _ hlt (Nat.le_refl _), List.getElem?_eq_getElem hlt]

theorem Inv.readAdvance (h : c.Inv K) {x : α} (hr : c.reader = .advance x) :
    Inv K { c with reader := .idle, ring := c.ring.advance K, received := c.received ++ [x] } where
  start_eq := by
    dsimp only
    rw [RingBuffer.advance, h.start_eq, List.length_append, List.length_singleton, Nat.mod_add_mod]
  stop_eq := h.stop_eq
  received_prefix := by
    obtain ⟨rest, hrest⟩ := h.received_prefix
    have hx := h.copied x hr
    dsimp only
    cases rest with
    | nil => simp [← hrest] at hx
    | cons y ys =>
        rw [← hrest, List.getElem?_append_right (Nat.le_refl _), Nat.sub_self] at hx
        cases hx
        exact ⟨ys, by simpa using hrest⟩
  length_lt := by
    have := h.length_lt
    simp only [List.length_append, List.length_singleton]
    omega
  cells i hi hle := by
    rw [List.length_append] at hle
    exact h.cells i hi (Nat.le_of_succ_le hle)
  room y hy := by
    have := h.room y hy
    simp only [List.length_append, List.length_singleton]
    omega
  written := h.written
  waiting := by simp
  copied := by simp

/-! ### What it gives -/

/-- No write into a full ring. -/
theorem Inv.not_full (h : c.Inv K) {x : α} (hw : c.writer = .put x ∨ c.writer = .publish x) :
    c.ring.isFull K = false := by
  rw [Bool.eq_false_iff]
  intro hf
  have := h.room x hw
  have := h.isFull_iff.mp hf
  omega

/-- No read from an empty ring. -/
theorem Inv.not_empty (h : c.Inv K) {x : α} (hr : c.reader = .peek ∨ c.reader = .advance x) :
    c.ring.isEmpty = false := by
  rw [Bool.eq_false_iff]
  intro he
  have := h.waiting x hr
  have := h.isEmpty_iff.mp he
  omega

/-- The unread elements are those sent and not received. -/
theorem Inv.unread_eq (h : c.Inv K) (hK : 0 < K) :
    c.ring.unread K = c.sent.drop c.received.length := by
  have hlt := h.length_lt
  have hcount : (c.ring.stop + K - c.ring.start) % K = c.sent.length - c.received.length := by
    obtain ⟨n, hn⟩ : ∃ n, c.sent.length = c.received.length + n :=
      Nat.exists_eq_add_of_le h.length_le
    rw [h.start_eq, h.stop_eq, hn, Nat.add_sub_cancel_left, ← Nat.mod_add_mod]
    have hr := Nat.mod_lt c.received.length hK
    by_cases hwrap : c.received.length % K + n < K
    · rw [Nat.mod_eq_of_lt hwrap, show c.received.length % K + n + K - c.received.length % K =
        n + K by omega,
        Nat.add_mod_right, Nat.mod_eq_of_lt (by omega)]
    · rw [Nat.mod_eq_sub_mod (Nat.le_of_not_lt hwrap), Nat.mod_eq_of_lt (a := _ - K) (by omega),
        show c.received.length % K + n - K + K - c.received.length % K = n by omega,
        Nat.mod_eq_of_lt (by omega)]
  refine List.ext_getElem ?_ fun i hi hi' => ?_
  · rw [unread, List.length_map, List.length_range, hcount, List.length_drop]
  · rw [List.length_drop] at hi'
    simp only [unread, List.getElem_map, List.getElem_range, List.getElem_drop]
    rw [h.start_eq, Nat.mod_add_mod]
    exact h.cells _ (by omega) (Nat.le_add_right ..)

end Channel

end RingBuffer
