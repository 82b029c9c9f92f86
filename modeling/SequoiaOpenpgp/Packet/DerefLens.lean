import SequoiaOpenpgp.Packet.Core

/-! # `Deref` and `DerefMut` of `Packet` form a lens onto `Common`

The two impls are separate 19-arm matches. Three facts are read off each arm by one case split
(`deref_derefMut`, `derefMut_derefMut`, `derefMut_deref`), and an update through `deref_mut`
sees exactly the `Common` that `deref` reads (`derefMut_congr`).

`complement p` is a third 19-arm match: the packet with its `Common` cleared. Against it, by a
case split of its own, a write changes nothing outside the `Common` (`complement_derefMut`), and a
packet is determined by its `Common` and its complement (`derefMut_complement`, `ext_deref`).
-/

namespace SequoiaOpenpgp
set_option autoImplicit false

namespace Packet

/-! ## The three facts read off the arms -/

/-- Reading through `deref` after an update through `deref_mut` sees the update. -/
@[simp] theorem deref_derefMut (p : Packet) (f : Common Packet → Common Packet) :
    (p.derefMut f).deref = f p.deref := by
  cases p <;> rename_i q <;> cases q <;> rfl

/-- Two updates through `deref_mut` act as their composite. -/
@[simp] theorem derefMut_derefMut (p : Packet) (f g : Common Packet → Common Packet) :
    (p.derefMut f).derefMut g = p.derefMut fun c => g (f c) := by
  cases p <;> rename_i q <;> cases q <;> rfl

/-- Writing back, through `deref_mut`, the `Common` that `deref` read changes nothing. -/
@[simp] theorem derefMut_deref (p : Packet) : (p.derefMut fun _ => p.deref) = p := by
  cases p <;> rename_i q <;> cases q <;> rfl

/-! ## Consequences -/

/-- `deref_mut` borrows the `Common` that `deref` reads: an update only sees that value. -/
theorem derefMut_congr (p : Packet) {f g : Common Packet → Common Packet}
    (h : f p.deref = g p.deref) : p.derefMut f = p.derefMut g := by
  rw [← derefMut_deref p, derefMut_derefMut, derefMut_derefMut, h]

@[simp] theorem derefMut_id (p : Packet) : (p.derefMut fun c => c) = p :=
  (derefMut_congr p (g := fun _ => p.deref) rfl).trans (derefMut_deref p)

/-- The packet with its `Common` cleared, arm by arm: everything of it that `deref` does not
reach (the variant, the version and every other field). -/
def complement : Packet → Packet
  | unknown packet => unknown { packet with common := default }
  | signature (.v4 packet) => signature (.v4 { packet with common := default })
  | onePassSig (.v3 packet) => onePassSig (.v3 { packet with common := default })
  | publicKey (.v4 packet) => publicKey (.v4 { packet with common := default })
  | publicSubkey (.v4 packet) => publicSubkey (.v4 { packet with common := default })
  | secretKey (.v4 packet) => secretKey (.v4 { packet with common := default })
  | secretSubkey (.v4 packet) => secretSubkey (.v4 { packet with common := default })
  | marker packet => marker { packet with common := default }
  | trust packet => trust { packet with common := default }
  | userID packet => userID { packet with common := default }
  | userAttribute packet => userAttribute { packet with common := default }
  | literal packet => literal { packet with common := default }
  | compressedData packet => compressedData { packet with common := default }
  | pkesk (.v3 packet) => pkesk (.v3 { packet with common := default })
  | skesk (.v4 packet) => skesk (.v4 { packet with common := default })
  | skesk (.v5 packet) =>
    skesk (.v5 { packet with skesk4 := { packet.skesk4 with common := default } })
  | seip (.v1 packet) => seip (.v1 { packet with common := default })
  | mdc packet => mdc { packet with common := default }
  | aed (.v1 packet) => aed (.v1 { packet with common := default })

@[simp] theorem deref_complement (p : Packet) : p.complement.deref = default := by
  cases p <;> rename_i q <;> cases q <;> rfl

/-- A write through `deref_mut` leaves the complement alone. -/
@[simp] theorem complement_derefMut (p : Packet) (f : Common Packet → Common Packet) :
    (p.derefMut f).complement = p.complement := by
  cases p <;> rename_i q <;> cases q <;> rfl

/-- A packet is its complement with its `Common` written back. -/
theorem derefMut_complement (p : Packet) : (p.complement.derefMut fun _ => p.deref) = p := by
  cases p <;> rename_i q <;> cases q <;> rfl

/-- A packet is determined by its `Common` and its complement. -/
theorem ext_deref {p q : Packet} (hd : p.deref = q.deref) (hc : p.complement = q.complement) :
    p = q := by
  rw [← derefMut_complement p, ← derefMut_complement q, hd, hc]

/-- `Deref` and `DerefMut` select the same `Common` on every packet and form a lawful lens: a
write is read back, writing back what was read is the identity, the second of two writes wins,
and a write leaves the complement (variant, version and every other field) as it was, the
complement and the `Common` together determining the packet. -/
theorem packet_deref_lens (p : Packet) (c c' : Common Packet) :
    (p.derefMut fun _ => c).deref = c ∧
    (p.derefMut fun _ => p.deref) = p ∧
    ((p.derefMut fun _ => c).derefMut fun _ => c') = (p.derefMut fun _ => c') ∧
    (p.derefMut fun _ => c).complement = p.complement ∧
    (∀ q : Packet, q.deref = p.deref → q.complement = p.complement → q = p) ∧
    ∀ f : Common Packet → Common Packet, p.derefMut f = p.derefMut fun _ => f p.deref :=
  ⟨deref_derefMut p _, derefMut_deref p, derefMut_derefMut p _ _, complement_derefMut p _,
    fun _ => ext_deref, fun _ => derefMut_congr p rfl⟩

end Packet

end SequoiaOpenpgp
