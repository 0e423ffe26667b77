/-
  The memory manager hands out each payload once.

  The access nodes are one doubly linked list: the empty ones, then the full ones from `free_list`
  on, with `empties` on the last empty one (`Chained`). So node by node the manager does what `Mm`
  does on lists (`Represents.allocate`, `Represents.free`), and for every sequence of calls
  `pool_correct` follows: no payload is handed out twice, and the freed ones come back last in
  first out.
-/
import TSim4CXL.Lib.Linked
import TSim4CXL.Lib.Transition
import TSim4CXL.Model.MmNodes
import TSim4CXL.Model.Pools
import Mathlib.Data.List.Perm.Basic

namespace TSim4CXL

open Transition

namespace MmNodes

variable {m : MmNodes} {es fs : List Nat} {a : Mm}

/-! ## The chain of nodes -/

/-- The nodes are one doubly linked list, the empty ones (`es`, from `empties` back) in front of
    the full ones (`fs`, from `free_list` on). -/
structure Chained (m : MmNodes) (es fs : List Nat) : Prop where
  linked : Linked (fun n => (m.node n).next) (fun n => (m.node n).prev) none (es.reverse ++ fs)
  all : (es.reverse ++ fs).Perm (List.range m.nodes)
  freeList : m.freeList = fs.head?
  empties : m.empties = es.head?

theorem Chained.nodup (h : Chained m es fs) : (es.reverse ++ fs).Nodup :=
  h.all.nodup_iff.mpr List.nodup_range

/-- The front of `free_list` becomes the last empty node. -/
theorem Chained.allocate {f : Nat} (h : Chained m es (f :: fs)) : m.allocate.1 = (m.node f).trans ∧
    m.allocate.2.node = m.node ∧ m.allocate.2.made = m.made ∧
      Chained m.allocate.2 (f :: es) fs := by
  have heq : m.allocate =
      ((m.node f).trans, { m with empties := some f, freeList := (m.node f).next }) := by
    simp only [MmNodes.allocate, h.freeList, List.head?_cons]
  have hchain : (f :: es).reverse ++ fs = es.reverse ++ f :: fs := by simp
  rw [heq]
  refine ⟨rfl, rfl, rfl, ?_, ?_, h.linked.neighbours.2, rfl⟩
  · rw [hchain]
    exact h.linked
  · rw [hchain]
    exact h.all

theorem Chained.allocate_new (h : Chained m es []) :
    m.allocate = (m.made, { m with made := m.made + 1 }) := by
  simp only [MmNodes.allocate, h.freeList, List.head?_nil]

theorem newAccess_frame (m : MmNodes) :
    m.newAccess.nodes = m.nodes + 1 ∧ m.newAccess.made = m.made ∧
    m.newAccess.empties = some m.nodes ∧ m.newAccess.freeList = m.freeList := by
  unfold MmNodes.newAccess
  cases hf : m.freeList <;> exact ⟨rfl, rfl, rfl, rfl⟩

theorem newAccess_self {m : MmNodes} (h : m.freeList ≠ some m.nodes) :
    m.newAccess.node m.nodes = { m.node m.nodes with next := m.freeList, prev := none } := by
  unfold MmNodes.newAccess
  cases hf : m.freeList with
  | none => simp [update]
  | some f =>
      have hne : m.nodes ≠ f := fun he => h (by rw [hf, he])
      simp [update, hne]

theorem newAccess_front {m : MmNodes} {f : Nat} (hf : m.freeList = some f) (hne : f ≠ m.nodes) :
    m.newAccess.node f = { m.node f with prev := some m.nodes } := by
  simp [MmNodes.newAccess, update, hf, hne]

theorem newAccess_other {m : MmNodes} {n : Nat} (hf : m.freeList ≠ some n) (hne : n ≠ m.nodes) :
    m.newAccess.node n = m.node n := by
  unfold MmNodes.newAccess
  cases hf' : m.freeList with
  | none => simp [update, hne]
  | some f =>
      have hnf : n ≠ f := fun he => hf (by rw [hf', he])
      simp [update, hne, hnf]

/-- A new node is linked in front of `free_list`, the only empty one. -/
theorem Chained.newAccess (h : Chained m [] fs) : Chained m.newAccess [m.nodes] fs ∧
    ∀ n ∈ fs, (m.newAccess.node n).trans = (m.node n).trans := by
  have hne : ∀ n ∈ fs, n ≠ m.nodes := fun n hn => by
    have := List.mem_range.mp (h.all.mem_iff.mp hn)
    omega
  have hself : m.newAccess.node m.nodes =
      { m.node m.nodes with next := m.freeList, prev := none } :=
    newAccess_self fun hf => hne _ (List.mem_of_mem_head? (h.freeList.symm.trans hf)) rfl
  have hfront : ∀ n, fs.head? = some n → m.newAccess.node n =
      { m.node n with prev := some m.nodes } :=
    fun n hn => newAccess_front (h.freeList.trans hn) (hne n (List.mem_of_mem_head? hn))
  have hother : ∀ n ∈ fs, fs.head? ≠ some n → m.newAccess.node n = m.node n :=
    fun n hn hh => newAccess_other (by rwa [h.freeList]) (hne n hn)
  have hboth : ∀ n ∈ fs, (m.newAccess.node n).next = (m.node n).next ∧
      (m.newAccess.node n).trans = (m.node n).trans := fun n hn => by
    by_cases hh : fs.head? = some n
    · rw [hfront n hh]
      exact ⟨rfl, rfl⟩
    · rw [hother n hn hh]
      exact ⟨rfl, rfl⟩
  obtain ⟨hnodes, -, hempties, hfree⟩ := newAccess_frame m
  refine ⟨⟨Linked.push h.linked h.nodup ?_ (fun n hn => (hboth n hn).1) (fun n hn => ?_) fun n hn
    hh => ?_,
    ?_, hfree.trans h.freeList, hempties⟩, fun n hn => (hboth n hn).2⟩
  · rw [hself]
    exact ⟨h.freeList, rfl⟩
  · rw [hfront n hn]
  · rw [hother n hn hh]
  · rw [hnodes, List.range_succ]
    exact (h.all.cons m.nodes).trans (List.perm_append_singleton ..).symm

/-- `free` with `e` on `empties`. -/
theorem free_of_empties {e : Nat} (h : m.empties = some e) (trans : Nat) : m.free trans =
    { m with
      node := Function.update m.node e { m.node e with trans := trans }
      freeList := some e
      empties := (m.node e).prev } := by
  simp [MmNodes.free, h, update]

/-- The last empty node becomes the front of `free_list`. -/
theorem Chained.free_empty {e : Nat} (h : Chained m (e :: es) fs) (trans : Nat) :
    Chained (m.free trans) es (e :: fs) := by
  have hchain : (e :: es).reverse ++ fs = es.reverse ++ e :: fs := by simp
  have hlinked := h.linked
  rw [hchain] at hlinked
  have hnode : ∀ n, (Function.update m.node e { m.node e with trans := trans } n).next =
      (m.node n).next ∧
      (Function.update m.node e { m.node e with trans := trans } n).prev = (m.node n).prev :=
        fun n => by
    by_cases hn : n = e
    · subst hn
      simp
    · simp [hn]
  rw [free_of_empties h.empties]
  refine ⟨hlinked.congr (fun n _ => (hnode n).1) fun n _ => (hnode n).2, ?_, rfl, ?_⟩
  · rw [← hchain]
    exact h.all
  · refine hlinked.neighbours.1.trans ?_
    rw [List.getLast?_reverse, Option.or_none]

theorem Chained.free_trans {e : Nat} (h : Chained m (e :: es) fs) (trans : Nat) :
    ((m.free trans).node e).trans = trans ∧
      ∀ n ∈ es ++ fs, ((m.free trans).node n).trans = (m.node n).trans := by
  have hnodup := h.nodup
  simp only [List.reverse_cons, List.append_assoc, List.singleton_append, List.nodup_append,
    List.nodup_cons, List.mem_reverse, List.mem_cons] at hnodup
  rw [free_of_empties h.empties]
  refine ⟨by simp, fun n hn => ?_⟩
  have hne : n ≠ e := by
    rintro rfl
    rcases List.mem_append.mp hn with hn | hn
    · exact hnodup.2.2 n hn n (.inl rfl) rfl
    · exact hnodup.2.1.1 hn
  simp [hne]

/-- Without an empty node, `free` makes one. -/
theorem free_new (h : m.empties = none) (trans : Nat) : m.free trans = m.newAccess.free trans := by
  have he := (newAccess_frame m).2.2.1
  simp [MmNodes.free, h, he]

/-! ## The nodes do what the lists do -/

/-- The payloads in the nodes are those of `a`. -/
def Represents (m : MmNodes) (a : Mm) : Prop :=
  ∃ es fs, Chained m es fs ∧
    a = ⟨fs.map fun n => (m.node n).trans, es.map fun n => (m.node n).trans, m.made⟩

theorem represents_init (node : Nat → Access) : Represents (init node) Mm.init :=
  ⟨[], [], ⟨trivial, .refl _, rfl, rfl⟩, rfl⟩

theorem Represents.allocate (h : Represents m a) :
    m.allocate.1 = a.allocate.1 ∧ Represents m.allocate.2 a.allocate.2 := by
  obtain ⟨es, fs, hc, rfl⟩ := h
  cases fs with
  | nil =>
      rw [hc.allocate_new]
      exact ⟨rfl, es, [], ⟨hc.linked, hc.all, hc.freeList, hc.empties⟩, rfl⟩
  | cons f fs =>
      obtain ⟨htrans, hnode, hmade, hc'⟩ := hc.allocate
      refine ⟨htrans, f :: es, fs, hc', ?_⟩
      rw [hnode, hmade]
      rfl

theorem free_made (m : MmNodes) (trans : Nat) : (m.free trans).made = m.made := by
  cases he : m.empties with
  | none => rw [free_new he, free_of_empties (newAccess_frame m).2.2.1, (newAccess_frame m).2.1]
  | some e => rw [free_of_empties he]

theorem Represents.free (h : Represents m a) (trans : Nat) :
    Represents (m.free trans) (a.free trans) := by
  obtain ⟨es, fs, hc, rfl⟩ := h
  cases es with
  | nil =>
      obtain ⟨hc', htrans⟩ := hc.newAccess
      obtain ⟨hself, hother⟩ := hc'.free_trans trans
      refine ⟨[], m.nodes :: fs, ?_, ?_⟩
      · rw [free_new hc.empties]
        exact hc'.free_empty trans
      · rw [free_made, free_new hc.empties, List.map_cons, hself]
        have hmap : (fs.map fun n => ((m.newAccess.free trans).node n).trans) =
            fs.map fun n => (m.node n).trans :=
          List.map_congr_left fun n hn => (hother n hn).trans (htrans n hn)
        rw [hmap]
        rfl
  | cons e es =>
      obtain ⟨hself, hother⟩ := hc.free_trans trans
      refine ⟨es, e :: fs, hc.free_empty trans, ?_⟩
      have hes : (es.map fun n => ((m.free trans).node n).trans) = es.map fun n =>
          (m.node n).trans :=
        List.map_congr_left fun n hn => hother n (List.mem_append_left _ hn)
      have hfs : (fs.map fun n => ((m.free trans).node n).trans) = fs.map fun n =>
          (m.node n).trans :=
        List.map_congr_left fun n hn => hother n (List.mem_append_right _ hn)
      rw [free_made, List.map_cons (l := fs), hself, hes, hfs]
      rfl

end MmNodes

/-! ## Sequences of calls -/

/-- A call that has returned. -/
inductive MmCall
  | allocated (ptr : Nat)
  | freed (ptr : Nat)

namespace MmCall

/-- The payloads handed out. -/
def handedOut (calls : List MmCall) : List Nat :=
  calls.foldl (fun out c => match c with
    | .allocated ptr => ptr :: out
    | .freed ptr => out.erase ptr) []

/-- The payloads freed and not allocated since, the one freed last first. -/
def available (calls : List MmCall) : List Nat :=
  calls.foldl (fun av c => match c with
    | .allocated ptr => av.erase ptr
    | .freed ptr => ptr :: av) []

@[simp] theorem handedOut_allocated (calls : List MmCall) (ptr : Nat) :
    handedOut (calls ++ [.allocated ptr]) = ptr :: handedOut calls := by
  simp [handedOut]

@[simp] theorem handedOut_freed (calls : List MmCall) (ptr : Nat) :
    handedOut (calls ++ [.freed ptr]) = (handedOut calls).erase ptr := by
  simp [handedOut]

@[simp] theorem available_allocated (calls : List MmCall) (ptr : Nat) :
    available (calls ++ [.allocated ptr]) = (available calls).erase ptr := by
  simp [available]

@[simp] theorem available_freed (calls : List MmCall) (ptr : Nat) :
    available (calls ++ [.freed ptr]) = ptr :: available calls := by
  simp [available]

end MmCall

/-- An `mm` and the calls so far. -/
structure CalledMm where
  mm : MmNodes
  calls : List MmCall

inductive MmAct
  | allocate
  | free (ptr : Nat)

namespace CalledMm

/-- Only payloads that are handed out are freed. -/
def step (s : CalledMm) : MmAct → Except Fault CalledMm
  | .allocate => .ok ⟨s.mm.allocate.2, s.calls ++ [.allocated s.mm.allocate.1]⟩
  | .free ptr =>
      if ptr ∈ MmCall.handedOut s.calls then .ok ⟨s.mm.free ptr, s.calls ++ [.freed ptr]⟩
      else .error .notEnabled

/-- The states after any sequence of calls; the memory may hold anything. -/
def ReachableCalls (s : CalledMm) : Prop := ∃ node, Reach step anyStep ⟨MmNodes.init node, []⟩ s

/-- The full nodes hold what has been freed, and each payload made is handed out or in one of
    them. -/
def Stocked (s : CalledMm) : Prop :=
  ∃ a, s.mm.Represents a ∧ a.freeList = MmCall.available s.calls ∧
    (MmCall.handedOut s.calls ++ MmCall.available s.calls).Perm (List.range a.made)

theorem Stocked.allocate {s : CalledMm} (h : Stocked s) :
    Stocked ⟨s.mm.allocate.2, s.calls ++ [.allocated s.mm.allocate.1]⟩ := by
  obtain ⟨a, hrep, hfree, hperm⟩ := h
  obtain ⟨hptr, hrep'⟩ := hrep.allocate
  refine ⟨a.allocate.2, hrep', ?_, ?_⟩ <;>
    simp only [hptr, MmCall.available_allocated, MmCall.handedOut_allocated, ← hfree] at hperm ⊢ <;>
    unfold Mm.allocate <;> split <;> rename_i heq
  · rw [heq, List.erase_cons_head]
  · rw [heq]
    rfl
  · rw [heq, List.erase_cons_head]
    rw [heq] at hperm
    exact List.perm_middle.symm.trans hperm
  · rw [heq] at hperm ⊢
    simp only [List.erase_nil, List.append_nil, List.range_succ] at hperm ⊢
    exact (hperm.cons _).trans (List.perm_append_singleton ..).symm

theorem Stocked.free {s : CalledMm} (h : Stocked s) {ptr : Nat}
    (hp : ptr ∈ MmCall.handedOut s.calls) :
    Stocked ⟨s.mm.free ptr, s.calls ++ [.freed ptr]⟩ := by
  obtain ⟨a, hrep, hfree, hperm⟩ := h
  have hmade : (a.free ptr).made = a.made := congrArg Pool.made (a.free_toPool ptr)
  refine ⟨a.free ptr, hrep.free ptr, ?_, ?_⟩
  · rw [MmCall.available_freed, ← hfree]
    exact congrArg Pool.free (a.free_toPool ptr)
  · rw [MmCall.available_freed, MmCall.handedOut_freed, hmade]
    refine List.perm_middle.trans (List.Perm.trans ?_ hperm)
    exact (List.perm_cons_erase hp).symm.append_right _

theorem ReachableCalls.stocked {s : CalledMm} (hr : ReachableCalls s) : Stocked s := by
  obtain ⟨node, hr⟩ := hr
  refine Reach.invariant ?_ (fun s a s' _ _ ih hs => ?_) hr
  · exact ⟨Mm.init, MmNodes.represents_init node, rfl, .refl _⟩
  · cases a with
    | allocate => cases hs; exact ih.allocate
    | free ptr =>
        simp only [step] at hs
        split at hs
        · rename_i hp
          cases hs
          exact ih.free hp
        · cases hs

/-! ## Correctness -/

/-- `n` calls of `allocate` in a row. -/
def allocates : Nat → MmNodes → List Nat × MmNodes
  | 0, m => ([], m)
  | n + 1, m =>
      let r := allocates n m.allocate.2
      (m.allocate.1 :: r.1, r.2)

/-- What holds between two calls. A node made by the next `free` finds all others full; `allocate`
    makes a payload only when nothing is available, and otherwise hands out what was freed, the
    last one first. -/
structure Correct (s : CalledMm) : Prop where
  chain : ∃ es fs, s.mm.Chained es fs ∧ (fs.map fun n => (s.mm.node n).trans) =
    MmCall.available s.calls ∧
    ∀ ptr, (s.mm.free ptr).nodes ≠ s.mm.nodes → fs.Perm (List.range s.mm.nodes)
  not_out : s.mm.allocate.1 ∉ MmCall.handedOut s.calls
  new_iff : s.mm.allocate.2.made ≠ s.mm.made ↔ MmCall.available s.calls = []
  new : MmCall.available s.calls = [] → s.mm.allocate.1 = s.mm.made
  last_in_first_out : ∀ n ≤ (MmCall.available s.calls).length,
    (allocates n s.mm).1 = (MmCall.available s.calls).take n
  none_lost : (MmCall.handedOut s.calls ++ MmCall.available s.calls).Perm (List.range s.mm.made)

theorem allocates_represents {m : MmNodes} {a : Mm} (h : m.Represents a) {n : Nat}
    (hn : n ≤ a.freeList.length) : (allocates n m).1 = a.freeList.take n := by
  induction n generalizing m a with
  | zero => simp [allocates]
  | succ n ih =>
      obtain ⟨hptr, hrep⟩ := h.allocate
      cases hfree : a.freeList with
      | nil => simp [hfree] at hn
      | cons ptr rest =>
          have ha : a.allocate =
              (ptr, { a with freeList := rest, empties := ptr :: a.empties }) := by
            simp only [Mm.allocate, hfree]
          rw [ha] at hptr hrep
          rw [hfree] at hn
          rw [allocates, hptr, ih hrep (Nat.le_of_succ_le_succ hn), List.take_succ_cons]

/-- A node is made only when `empties` is null. -/
theorem free_nodes {m : MmNodes} {ptr : Nat} (h : (m.free ptr).nodes ≠ m.nodes) :
    m.empties = none := by
  cases he : m.empties with
  | none => rfl
  | some e => exact absurd (by rw [MmNodes.free_of_empties he]) h

/-- For every sequence of calls in which only payloads handed out are freed. -/
theorem pool_correct {s : CalledMm} (hr : ReachableCalls s) : Correct s := by
  obtain ⟨a, hrep, hfree, hperm⟩ := hr.stocked
  obtain ⟨hptr, hrep'⟩ := hrep.allocate
  have hmade {m : MmNodes} {a : Mm} (h : m.Represents a) : m.made = a.made := by
    obtain ⟨es, fs, -, rfl⟩ := h
    rfl
  have htake : a.allocate.1 ∉ MmCall.handedOut s.calls := by
    intro hmem
    unfold Mm.allocate at hmem
    split at hmem
    · rename_i heq
      rw [← hfree, heq] at hperm
      have hnodup := hperm.nodup_iff.mpr List.nodup_range
      exact (List.nodup_append.mp hnodup).2.2 _ hmem _ (.head _) rfl
    · exact absurd (List.mem_range.mp (hperm.mem_iff.mp (List.mem_append_left _ hmem)))
        (Nat.lt_irrefl _)
  refine ⟨?_, by rwa [hptr], ?_, fun hnil => ?_, fun n hn => ?_, by rwa [hmade hrep]⟩
  · obtain ⟨es, fs, hc, rfl⟩ := hrep
    refine ⟨es, fs, hc, hfree, fun ptr hnodes => ?_⟩
    have hes : es = [] := List.head?_eq_none_iff.mp (hc.empties.symm.trans (free_nodes hnodes))
    subst hes
    exact hc.all
  · rw [hmade hrep, hmade hrep', ← hfree]
    unfold Mm.allocate
    split <;> rename_i heq <;> simp [heq]
  · rw [hptr, hmade hrep]
    simp only [Mm.allocate, hfree, hnil]
  · rw [← hfree] at hn ⊢
    exact allocates_represents hrep hn

/-- Two payloads, freed in the order in which they were allocated, and one taken again. -/
def reuseRun : CalledMm :=
  runSkip step anyStep ⟨MmNodes.init fun _ => ⟨7, none, none⟩, []⟩
    [.allocate, .allocate, .free 0, .free 1, .allocate]

theorem pool_correct_of_reuseRun : MmCall.available reuseRun.calls = [0] ∧
    reuseRun.mm.allocate.1 ∉ [1] ∧ (allocates 1 reuseRun.mm).1 = [0] := by
  have hr : ReachableCalls reuseRun := ⟨_, reach_runSkip _ _⟩
  have hav : MmCall.available reuseRun.calls = [0] := by decide +kernel
  have hout : MmCall.handedOut reuseRun.calls = [1] := by decide +kernel
  refine ⟨hav, ?_, ?_⟩
  · rw [← hout]
    exact (pool_correct hr).not_out
  · have := (pool_correct hr).last_in_first_out 1 (by rw [hav]; decide)
    rwa [hav] at this

end CalledMm

end TSim4CXL
