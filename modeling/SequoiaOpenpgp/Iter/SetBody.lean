import SequoiaOpenpgp.Iter.PacketIter
import SequoiaOpenpgp.Packet.DerefLens

/-! # `set_body` on a packet

`packet.set_body(data)` goes through `DerefMut` to `Common::set_body`: on every variant it clears
the children the packet's `Common` holds, so `descendants()` of the packet returns nothing, stores
the new body, and leaves everything outside the `Common` as it was.
-/

namespace SequoiaOpenpgp
set_option autoImplicit false

/-- `packet.set_body(data)`: `Common::set_body` on the `Common` that `deref_mut` borrows. -/
def Packet.setBody (p : Packet) (data : List UInt8) : List UInt8 × Packet :=
  ((p.deref.setBody data).1, p.derefMut fun c => (c.setBody data).2)

/-- `set_body` on any packet leaves it without children, so `descendants()` returns `None` at
once, and with the new body (`None` when it is empty); nothing outside the `Common` changes; and
setting a body again returns the one just set. -/
theorem packet_setBody (p : Packet) (data data' : List UInt8) (n : Nat) :
    (p.setBody data).2.deref.children = none ∧
    (p.setBody data).2.deref.body = (if data.length = 0 then none else some data) ∧
    (p.setBody data).2.deref.descendants.run n = List.replicate n (none, 0) ∧
    (p.setBody data).2.complement = p.complement ∧
    ((p.setBody data).2.setBody data').1 = data := by
  have hd : (p.setBody data).2.deref = ⟨none, if data.length = 0 then none else some data⟩ := by
    simp [Packet.setBody]
  refine ⟨by rw [hd], by rw [hd], ?_, Packet.complement_derefMut p fun c => (c.setBody data).2, ?_⟩
  · rw [PacketIter.run_eq, PacketIter.pending_descendants, hd]
    simp
  · rw [Packet.setBody, hd, Common.setBody_fst]
    by_cases h : data = [] <;> simp [h]

end SequoiaOpenpgp
