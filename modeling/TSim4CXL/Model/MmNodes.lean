/-
  The memory manager of the payloads (mm.h, mm.cpp), node by node.

  An `access` node and a `tlm_generic_payload` are numbers, given out by `new` in turn; a null
  pointer is `none`. What `new access` leaves in `trans` is whatever was there.
-/
import Mathlib.Logic.Function.Basic

namespace TSim4CXL

/-- `mm::access`. -/
structure Access where
  trans : Nat
  next : Option Nat
  prev : Option Nat

/-- `mm`, with the nodes and the number of payloads made with `new`. -/
structure MmNodes where
  node : Nat → Access
  nodes : Nat
  made : Nat
  freeList : Option Nat
  empties : Option Nat

namespace MmNodes

def init (node : Nat → Access) : MmNodes := ⟨node, 0, 0, none, none⟩

/-- `p->field = value` on one node. -/
def update (m : MmNodes) (n : Nat) (f : Access → Access) : MmNodes :=
  { m with node := Function.update m.node n (f (m.node n)) }

/-- `mm::allocate`. -/
def allocate (m : MmNodes) : Nat × MmNodes :=
  match m.freeList with
  | some n => ((m.node n).trans, { m with empties := some n, freeList := (m.node n).next })
  | none => (m.made, { m with made := m.made + 1 })

/-- `empties = new access`, linked in front of `free_list`. -/
def newAccess (m : MmNodes) : MmNodes :=
  let e := m.nodes
  let m := { m with nodes := e + 1, empties := some e }
  let m := m.update e fun a => { a with next := m.freeList, prev := none }
  match m.freeList with
  | some f => m.update f fun a => { a with prev := some e }
  | none => m

/-- `mm::free`. -/
def free (m : MmNodes) (trans : Nat) : MmNodes :=
  let m := if m.empties = none then m.newAccess else m
  match m.empties with
  | some e =>
      let m := { m with freeList := some e }
      let m := m.update e fun a => { a with trans := trans }
      { m with empties := (m.node e).prev }
  | none => m

end MmNodes

end TSim4CXL
