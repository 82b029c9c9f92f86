import Mathlib.Data.List.Basic

/-! # The packet object model of `packet/mod.rs`

* `Container P`, `Common P`: the source's `Container` and `Common`, over the packet type `P` so
  that `Packet` can nest them (`Common.children : Option<Container>`, `Container.packets : Vec<Packet>`).
* The packet structs (`Signature4`, `Key4`, `SKESK5`, …) are declared outside `packet/mod.rs`. Of
  their fields this model keeps the ones the `Deref` arms name: `common`, and `skesk4` in
  `SKESK5`. Every other field of a struct is kept whole as `other : List UInt8` (their encoding),
  so a write through `deref_mut` can be seen to leave it alone.
* The version enums (`Signature::V4`, `SKESK::{V4,V5}`, …) with their forwarding `Deref`/`DerefMut`
  impls, and `Packet` itself, with the 19-arm `Deref` (`Packet.deref`) and `DerefMut`
  (`Packet.derefMut`, the update a caller makes through the mutable borrow).
* `Common::set_body` and the `Container` operations `new`, `push`, `insert`. The `From` impls
  into `Packet` are its constructors.
-/

namespace SequoiaOpenpgp
set_option autoImplicit false

/-! ## Containers and common fields -/

/-- Holds zero or more OpenPGP packets, in wire order. -/
structure Container (P : Type) where
  packets : List P

/-- Fields used by multiple packet types. -/
structure Common (P : Type) where
  children : Option (Container P)
  body : Option (List UInt8)

/-- `impl Default for Common`. -/
instance {P : Type} : Inhabited (Common P) := ⟨⟨none, none⟩⟩

/-- The packets `Common::descendants` iterates over: those of `children`, or the empty slice. -/
def Common.childPackets {P : Type} (c : Common P) : List P :=
  match c.children with
  | some container => container.packets
  | none => []

@[simp] theorem Common.childPackets_none {P : Type} (body : Option (List UInt8)) :
    Common.childPackets (⟨none, body⟩ : Common P) = [] := rfl

@[simp] theorem Common.childPackets_some {P : Type} (c : Container P) (body : Option (List UInt8)) :
    Common.childPackets ⟨some c, body⟩ = c.packets := rfl

/-- `Common::set_body`: clears the children, stores `data` (an empty body is absent) and
returns the old body, or an empty vector. -/
def Common.setBody {P : Type} (c : Common P) (data : List UInt8) : List UInt8 × Common P :=
  (c.body.getD [], { children := none, body := if data.length = 0 then none else some data })

@[simp] theorem Common.setBody_fst {P : Type} (c : Common P) (data : List UInt8) :
    (c.setBody data).1 = c.body.getD [] := rfl

@[simp] theorem Common.setBody_snd {P : Type} (c : Common P) (data : List UInt8) :
    (c.setBody data).2 = ⟨none, if data.length = 0 then none else some data⟩ := rfl

/-- `Container::new`. -/
def Container.new {P : Type} : Container P := ⟨[]⟩

/-- `Container::push`: adds a packet after the others. -/
def Container.push {P : Type} (c : Container P) (packet : P) : Container P :=
  ⟨c.packets ++ [packet]⟩

/-- `Container::insert`: inserts a packet at index `i`; `Vec::insert` panics (`none`) when `i` is
past the end. -/
def Container.insert {P : Type} (c : Container P) (i : Nat) (packet : P) : Option (Container P) :=
  if i ≤ c.packets.length then some ⟨c.packets.insertIdx i packet⟩ else none

/-! ## Packet structs

Declared outside `packet/mod.rs`; only the fields the `Deref` arms read are named. -/

structure Unknown (P : Type) where
  common : Common P
  other : List UInt8

structure Signature4 (P : Type) where
  common : Common P
  other : List UInt8

structure OnePassSig3 (P : Type) where
  common : Common P
  other : List UInt8

structure Key4 (P : Type) where
  common : Common P
  other : List UInt8

structure Marker (P : Type) where
  common : Common P
  other : List UInt8

structure Trust (P : Type) where
  common : Common P
  other : List UInt8

structure UserID (P : Type) where
  common : Common P
  other : List UInt8

structure UserAttribute (P : Type) where
  common : Common P
  other : List UInt8

structure Literal (P : Type) where
  common : Common P
  other : List UInt8

structure CompressedData (P : Type) where
  common : Common P
  other : List UInt8

structure PKESK3 (P : Type) where
  common : Common P
  other : List UInt8

structure SKESK4 (P : Type) where
  common : Common P
  other : List UInt8

/-- A version 5 SKESK packet extends the version 4 one: its `Common` is `skesk4.common`. -/
structure SKESK5 (P : Type) where
  skesk4 : SKESK4 P
  other : List UInt8

structure SEIP1 (P : Type) where
  common : Common P
  other : List UInt8

structure MDC (P : Type) where
  common : Common P
  other : List UInt8

structure AED1 (P : Type) where
  common : Common P
  other : List UInt8

/-! ## Version enums and their forwarders -/

/-- Holds a signature packet. -/
inductive Signature (P : Type) where
  | v4 (sig : Signature4 P)

/-- Holds a one-pass signature packet. -/
inductive OnePassSig (P : Type) where
  | v3 (ops : OnePassSig3 P)

/-- Holds an asymmetrically encrypted session key. -/
inductive PKESK (P : Type) where
  | v3 (p : PKESK3 P)

/-- Holds a symmetrically encrypted session key. -/
inductive SKESK (P : Type) where
  | v4 (p : SKESK4 P)
  | v5 (p : SKESK5 P)

/-- Holds a public key, public subkey, private key or private subkey packet. -/
inductive Key (P : Type) where
  | v4 (p : Key4 P)

/-- Holds an encrypted data packet. -/
inductive SEIP (P : Type) where
  | v1 (p : SEIP1 P)

/-- Holds an AEAD encrypted data packet. -/
inductive AED (P : Type) where
  | v1 (p : AED1 P)

section Forwarders
variable {P : Type}

/-- `Deref for Signature`: the trivial forwarder for a singleton enum. -/
def Signature.deref : Signature P → Signature4 P
  | .v4 sig => sig

/-- `DerefMut for Signature`, as the update made through the borrow. -/
def Signature.derefMut (s : Signature P) (g : Signature4 P → Signature4 P) : Signature P :=
  match s with
  | .v4 sig => .v4 (g sig)

def OnePassSig.deref : OnePassSig P → OnePassSig3 P
  | .v3 ops => ops

def OnePassSig.derefMut (s : OnePassSig P) (g : OnePassSig3 P → OnePassSig3 P) : OnePassSig P :=
  match s with
  | .v3 ops => .v3 (g ops)

def PKESK.deref : PKESK P → PKESK3 P
  | .v3 p => p

def PKESK.derefMut (s : PKESK P) (g : PKESK3 P → PKESK3 P) : PKESK P :=
  match s with
  | .v3 p => .v3 (g p)

def Key.deref : Key P → Key4 P
  | .v4 p => p

def Key.derefMut (k : Key P) (g : Key4 P → Key4 P) : Key P :=
  match k with
  | .v4 p => .v4 (g p)

def SEIP.deref : SEIP P → SEIP1 P
  | .v1 p => p

def SEIP.derefMut (s : SEIP P) (g : SEIP1 P → SEIP1 P) : SEIP P :=
  match s with
  | .v1 p => .v1 (g p)

def AED.deref : AED P → AED1 P
  | .v1 p => p

def AED.derefMut (s : AED P) (g : AED1 P → AED1 P) : AED P :=
  match s with
  | .v1 p => .v1 (g p)

/-- `Signature::version`, and below the other enums' `version`. -/
def Signature.version : Signature P → UInt8
  | .v4 _ => 4

def OnePassSig.version : OnePassSig P → UInt8
  | .v3 _ => 3

def PKESK.version : PKESK P → UInt8
  | .v3 _ => 3

def SKESK.version : SKESK P → UInt8
  | .v4 _ => 4
  | .v5 _ => 5

def Key.version : Key P → UInt8
  | .v4 _ => 4

def SEIP.version : SEIP P → UInt8
  | .v1 _ => 1

def AED.version : AED P → UInt8
  | .v1 _ => 1

end Forwarders

/-! ## Packets -/

/-- The OpenPGP packets Sequoia knows about. -/
inductive Packet where
  | unknown (packet : Unknown Packet)
  | signature (packet : Signature Packet)
  | onePassSig (packet : OnePassSig Packet)
  | publicKey (packet : Key Packet)
  | publicSubkey (packet : Key Packet)
  | secretKey (packet : Key Packet)
  | secretSubkey (packet : Key Packet)
  | marker (packet : Marker Packet)
  | trust (packet : Trust Packet)
  | userID (packet : UserID Packet)
  | userAttribute (packet : UserAttribute Packet)
  | literal (packet : Literal Packet)
  | compressedData (packet : CompressedData Packet)
  | pkesk (packet : PKESK Packet)
  | skesk (packet : SKESK Packet)
  | seip (packet : SEIP Packet)
  | mdc (packet : MDC Packet)
  | aed (packet : AED Packet)

namespace Packet

/-- `Deref for Packet`: the packet's `Common`. -/
def deref : Packet → Common Packet
  | unknown packet => packet.common
  | signature (.v4 packet) => packet.common
  | onePassSig packet => packet.deref.common
  | publicKey packet => packet.deref.common
  | publicSubkey packet => packet.deref.common
  | secretKey packet => packet.deref.common
  | secretSubkey packet => packet.deref.common
  | marker packet => packet.common
  | trust packet => packet.common
  | userID packet => packet.common
  | userAttribute packet => packet.common
  | literal packet => packet.common
  | compressedData packet => packet.common
  | pkesk packet => packet.deref.common
  | skesk (.v4 packet) => packet.common
  | skesk (.v5 packet) => packet.skesk4.common
  | seip packet => packet.deref.common
  | mdc packet => packet.common
  | aed (.v1 packet) => packet.common

/-- `DerefMut for Packet`: the packet after the caller updates, by `f`, the `Common` that
`deref_mut` borrows. Writing `c` is `derefMut p fun _ => c`. -/
def derefMut (p : Packet) (f : Common Packet → Common Packet) : Packet :=
  match p with
  | unknown packet => unknown { packet with common := f packet.common }
  | signature (.v4 packet) => signature (.v4 { packet with common := f packet.common })
  | onePassSig packet => onePassSig (packet.derefMut fun q => { q with common := f q.common })
  | publicKey packet => publicKey (packet.derefMut fun q => { q with common := f q.common })
  | publicSubkey packet => publicSubkey (packet.derefMut fun q => { q with common := f q.common })
  | secretKey packet => secretKey (packet.derefMut fun q => { q with common := f q.common })
  | secretSubkey packet => secretSubkey (packet.derefMut fun q => { q with common := f q.common })
  | marker packet => marker { packet with common := f packet.common }
  | trust packet => trust { packet with common := f packet.common }
  | userID packet => userID { packet with common := f packet.common }
  | userAttribute packet => userAttribute { packet with common := f packet.common }
  | literal packet => literal { packet with common := f packet.common }
  | compressedData packet => compressedData { packet with common := f packet.common }
  | pkesk packet => pkesk (packet.derefMut fun q => { q with common := f q.common })
  | skesk (.v4 packet) => skesk (.v4 { packet with common := f packet.common })
  | skesk (.v5 packet) =>
    skesk (.v5 { packet with skesk4 := { packet.skesk4 with common := f packet.skesk4.common } })
  | seip packet => seip (packet.derefMut fun q => { q with common := f q.common })
  | mdc packet => mdc { packet with common := f packet.common }
  | aed (.v1 packet) => aed (.v1 { packet with common := f packet.common })

/-- The packets below this one: `children` read through `deref`. -/
def childPackets (p : Packet) : List Packet := p.deref.childPackets

/-- A packet's children are smaller than it, so recursion over the packet tree terminates. -/
theorem sizeOf_childPackets_lt (p : Packet) : sizeOf p.childPackets < sizeOf p := by
  have hc : ∀ c : Common Packet, sizeOf c.childPackets < sizeOf c := by
    rintro ⟨_ | ⟨⟨ps⟩⟩, body⟩ <;> simp [Common.childPackets] <;> omega
  have hd : sizeOf p.deref < sizeOf p := by
    rcases p with ⟨c, o⟩ | ⟨⟨c, o⟩⟩ | ⟨⟨c, o⟩⟩ | ⟨⟨c, o⟩⟩ | ⟨⟨c, o⟩⟩ | ⟨⟨c, o⟩⟩ | ⟨⟨c, o⟩⟩ |
      ⟨c, o⟩ | ⟨c, o⟩ | ⟨c, o⟩ | ⟨c, o⟩ | ⟨c, o⟩ | ⟨c, o⟩ | ⟨⟨c, o⟩⟩ | (⟨c, o⟩ | ⟨⟨c, o⟩, o'⟩) |
      ⟨⟨c, o⟩⟩ | ⟨c, o⟩ | ⟨⟨c, o⟩⟩ <;>
    simp [deref, Signature.deref, OnePassSig.deref, Key.deref, PKESK.deref, SEIP.deref,
      AED.deref] <;> omega
  exact (hc _).trans hd

end Packet

end SequoiaOpenpgp
