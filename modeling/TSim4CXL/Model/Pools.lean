/-
  The payload pools: mm.cpp, `add_payload`, `gen_trans` and the two `release` calls.

  The other modules move payloads as values. Here a payload is an object of a pool that is used
  again. A component hands the pointer on that it was given, so the object in a queue is the one
  its payload was created as, and what there is to say is what becomes of that object: `Pools`
  follows the log and does with the objects what the code does at each event. `object` is a
  history variable, the object a payload was created as; the fields of an object (`heap`) are
  what its pointers lead to.
-/
import TSim4CXL.Lib.Pool
import TSim4CXL.Model.Top

namespace TSim4CXL

/-! ## mm -/

/-- The nodes of an `mm`, one doubly linked list: the full ones from `free_list` on with the objects
    in them, and the empty ones from `empties` back with what was left in them. Objects are
    numbered as they are made. -/
structure Mm where
  freeList : List Nat
  empties : List Nat
  made : Nat

namespace Mm

def init : Mm := ⟨[], [], 0⟩

def allocate (m : Mm) : Nat × Mm :=
  match m.freeList with
  | ptr :: next => (ptr, { m with freeList := next, empties := ptr :: m.empties })
  | [] => (m.made, { m with made := m.made + 1 })

/-- A new node is made only when there is no empty one. -/
def free (m : Mm) (ptr : Nat) : Mm :=
  match m.empties with
  | [] => { m with freeList := ptr :: m.freeList }
  | _ :: prev => { m with freeList := ptr :: m.freeList, empties := prev }

/-- What counts of a pool: the objects in it and the objects made. -/
def toPool (m : Mm) : Pool := ⟨m.freeList, m.made⟩

theorem allocate_fst (m : Mm) : m.allocate.1 = m.toPool.take.1 := by
  unfold allocate Pool.take toPool
  split <;> rename_i h <;> simp [h]

theorem allocate_toPool (m : Mm) : m.allocate.2.toPool = m.toPool.take.2 := by
  unfold allocate Pool.take toPool
  split <;> rename_i h <;> simp [h]

theorem free_toPool (m : Mm) (ptr : Nat) : (m.free ptr).toPool = m.toPool.give ptr := by
  unfold free toPool
  split <;> rfl

end Mm

/-! ## Objects -/

/-- The SIMWrappers and MEMWrappers have an `mm` each. -/
inductive Owner
  | sim (h : Nat)
  | mem (d : Nat)
deriving DecidableEq, Repr

/-- A `tlm_generic_payload` of a pool. -/
structure Object where
  owner : Owner
  index : Nat
deriving DecidableEq, Repr

/-- What an object is taken for: a payload of a host, or the payload a device makes for it. -/
inductive Tenant
  | host (p : Payload)
  | dram (p : Payload)
deriving DecidableEq

/-- The request a tenant stands for. -/
def Tenant.request : Tenant → Payload
  | .host p => p
  | .dram p => p

/-- The pool its object is from. -/
def Tenant.owner : Tenant → Owner
  | .host p => .sim p.id
  | .dram p => .mem p.deviceId

structure Pools where
  mm : Owner → Mm
  refCount : Object → Nat
  heap : Object → Payload
  deviceMap : Object → Nat
  object : Tenant → Object

namespace Pools

def init (heap : Object → Payload) : Pools where
  mm := fun _ => Mm.init
  refCount := fun _ => 0
  heap := heap
  deviceMap := fun _ => 0
  object := fun t => ⟨t.owner, 0⟩

/-- `allocate` and `acquire`. -/
def acquire (P : Pools) (o : Owner) (t : Tenant) : Pools :=
  let r := (P.mm o).allocate
  { P with
    mm := Function.update P.mm o r.2
    refCount := Function.update P.refCount ⟨o, r.1⟩ (P.refCount ⟨o, r.1⟩ + 1)
    object := Function.update P.object t ⟨o, r.1⟩ }

/-- `release`, which asserts that the count is positive and frees the object when it becomes 0. -/
def release (P : Pools) (x : Object) : Option Pools :=
  if P.refCount x = 0 then none
  else
    let n := P.refCount x - 1
    some { P with
      refCount := Function.update P.refCount x n
      mm := if n = 0 then Function.update P.mm x.owner ((P.mm x.owner).free x.index) else P.mm }

/-- `add_payload`: the data pointer is set for a write only, else it stays what it was. -/
def addPayload (P : Pools) (h : Nat) (p : Payload) : Pools :=
  let P := P.acquire (.sim h) (.host p.bare)
  let x := P.object (.host p.bare)
  let fields := match p.command with
    | .read => { p with dataPtr := (P.heap x).dataPtr }
    | .write => p
  { P with
    heap := Function.update P.heap x fields
    deviceMap := Function.update P.deviceMap x p.deviceId }

/-- `gen_trans` with the fields of the object `x`. -/
def genTrans (P : Pools) (d : Nat) (p : Payload) (x : Object) : Pools :=
  let fields := P.heap x
  let P := P.acquire (.mem d) (.dram p.bare)
  let y := P.object (.dram p.bare)
  { P with heap := Function.update P.heap y { fields with dataPtr := (P.heap y).dataPtr } }

/-- `set_data_ptr` of `backward_trans`. -/
def backwardTrans (P : Pools) (d : Nat) (p : Payload) : Pools :=
  let x := P.object (.dram p.bare)
  match p.command with
  | .read =>
      { P with
        heap := Function.update P.heap x
          { P.heap x with dataPtr := .memData d (P.heap x).address } }
  | .write => P

/-- What an event does to the objects. -/
def hear (P : Pools) : Event → Option Pools
  | .call (.create h) p => some (P.addPayload h p)
  | .call (.peqCb d) p =>
      let x := P.object (.host p.bare)
      (P.genTrans d p x).release x
  | .call (.ctrlBw d) p => some (P.backwardTrans d p)
  | .call (.endResp _) p => P.release (P.object (.dram p.bare))
  | _ => some P

/-- The pools after the events of a log; none when an object was released once too often. -/
def after (heap : Object → Payload) (l : List Event) : Option Pools :=
  l.foldl (fun P e => P.bind (·.hear e)) (some (init heap))

/-- What the objects a new pool makes hold. -/
theorem after_nil (heap : Object → Payload) : after heap [] = some (init heap) := rfl

theorem after_concat (heap : Object → Payload) (l : List Event) (e : Event) :
    after heap (l ++ [e]) = (after heap l).bind (·.hear e) := by
  rw [after, List.foldl_append, ← after]
  rfl

end Pools

end TSim4CXL
