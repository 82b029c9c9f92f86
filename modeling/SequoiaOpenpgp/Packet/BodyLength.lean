import Mathlib.Data.List.Basic
import Mathlib.Algebra.Group.Nat.Basic

/-! # Body lengths and the byte source they are read from

* `BufferedReader`: the `&mut bio` the parsers take, over an in-memory buffer (`Memory`): the
  unread bytes are the state, a failed read is a `ReadError`.
* `dataConsumeHard`, `readBeU16`, `readBeU32`: the buffered-reader calls the parsers make. They
  belong to the `buffered-reader` crate; they are modelled by what they return.
* `u32Sub`, `u32Add`, `u32Shl`: `u32` arithmetic as a debug build runs it, failing with
  `arithmeticOverflow` where the build would panic; where no check fails they compute what a
  release build computes.
* `BodyLength`, `PacketLengthType`, `parseNewFormat` (`BodyLength::parse_new_format`) and
  `parseOldFormat` (`BodyLength::parse_old_format`).
-/

namespace SequoiaOpenpgp
set_option autoImplicit false

/-! ## The byte source -/

/-- Why a read fails: `io::ErrorKind::UnexpectedEof` from `data_consume_hard`, or the panic of a
debug build on a `u32` operation that overflows. -/
inductive ReadError where
  | unexpectedEof
  | arithmeticOverflow
  deriving DecidableEq, Repr

/-- A reader over the unread bytes of an in-memory buffer. -/
abbrev BufferedReader := StateT (List UInt8) (Except ReadError)

namespace BufferedReader

theorem bind_apply {α β : Type} (x : BufferedReader α) (f : α → BufferedReader β)
    (s : List UInt8) :
    (x >>= f) s = match x s with
      | .ok (a, s') => f a s'
      | .error e => .error e := by
  show Except.bind _ _ = _
  cases x s <;> rfl

theorem map_apply {α β : Type} (f : α → β) (x : BufferedReader α) (s : List UInt8) :
    (f <$> x) s = match x s with
      | .ok (a, s') => .ok (f a, s')
      | .error e => .error e := by
  show Except.map _ _ = _
  cases x s <;> rfl

@[simp] theorem pure_apply {α : Type} (a : α) (s : List UInt8) :
    (pure a : BufferedReader α) s = .ok (a, s) := rfl

@[simp] theorem throw_apply {α : Type} (e : ReadError) (s : List UInt8) :
    (throw e : BufferedReader α) s = .error e := rfl

end BufferedReader

/-- `BufferedReader::data_consume_hard`: the next `amount` bytes, consumed; `UnexpectedEof`, and
nothing consumed, when fewer are left. -/
def dataConsumeHard (amount : Nat) : BufferedReader (List UInt8) := fun bio =>
  if amount ≤ bio.length then .ok (bio.take amount, bio.drop amount) else .error .unexpectedEof

theorem dataConsumeHard_append (bytes rest : List UInt8) :
    dataConsumeHard bytes.length (bytes ++ rest) = .ok (bytes, rest) := by
  simp [dataConsumeHard]

theorem dataConsumeHard_one (b : UInt8) (rest : List UInt8) :
    dataConsumeHard 1 (b :: rest) = .ok ([b], rest) :=
  dataConsumeHard_append [b] rest

theorem dataConsumeHard_of_lt {amount : Nat} {bio : List UInt8} (h : bio.length < amount) :
    dataConsumeHard amount bio = .error .unexpectedEof := by
  simp [dataConsumeHard, Nat.not_le.mpr h]

/-- The value of a byte string read big-endian. -/
def beValue (bytes : List UInt8) : Nat := bytes.foldl (fun acc b => acc * 256 + b.toNat) 0

/-- `BufferedReader::read_be_u16`. -/
def readBeU16 : BufferedReader UInt16 := do
  let input ← dataConsumeHard 2
  return UInt16.ofNat (beValue input)

/-- `BufferedReader::read_be_u32`. -/
def readBeU32 : BufferedReader UInt32 := do
  let input ← dataConsumeHard 4
  return UInt32.ofNat (beValue input)

/-! ## Checked `u32` arithmetic -/

/-- `a - b` on `u32`. -/
def u32Sub (a b : UInt32) : BufferedReader UInt32 :=
  if b ≤ a then pure (a - b) else throw .arithmeticOverflow

/-- `a + b` on `u32`. -/
def u32Add (a b : UInt32) : BufferedReader UInt32 :=
  if a.toNat + b.toNat < 2 ^ 32 then pure (a + b) else throw .arithmeticOverflow

/-- `a << b` on `u32`: the shift amount must be below the width. -/
def u32Shl (a : UInt32) (b : Nat) : BufferedReader UInt32 :=
  if b < 32 then pure (a <<< UInt32.ofNat b) else throw .arithmeticOverflow

/-! ## Body lengths -/

/-- The size of a packet: fully known (`Full`), chunked with OpenPGP's partial body encoding
(`Partial`, the size of the current chunk), or up to the end of the file (`Indeterminate`). -/
inductive BodyLength where
  | full (n : UInt32)
  | partialBody (n : UInt32)
  | indeterminate
  deriving DecidableEq, Repr

/-- The length type of an old-format CTB (`ctb::PacketLengthType`). -/
inductive PacketLengthType where
  | oneOctet
  | twoOctets
  | fourOctets
  | indeterminate
  deriving DecidableEq, Repr

/-- `((octet1 as u32 - 192) << 8) + octet2 as u32 + 192`, the two-octet body length. -/
def twoOctetLength (octet1 octet2 : UInt8) : BufferedReader UInt32 := do
  u32Add (← u32Add (← u32Shl (← u32Sub octet1.toUInt32 192) 8) octet2.toUInt32) 192

/-- `1 << (octet1 & 0x1F)`, the size of a partial body chunk. -/
def partialBodyLength (octet1 : UInt8) : BufferedReader UInt32 :=
  u32Shl 1 (octet1 &&& 0x1F).toNat

/-- Decodes a new format body length (RFC 4880, Section 4.2.2). -/
def parseNewFormat : BufferedReader BodyLength := do
  let octet1 := (← dataConsumeHard 1)[0]!
  if octet1 ≤ 191 then
    -- One octet.
    return .full octet1.toUInt32
  else if octet1 ≤ 223 then
    -- Two octets length.
    let octet2 := (← dataConsumeHard 1)[0]!
    return .full (← twoOctetLength octet1 octet2)
  else if octet1 ≤ 254 then
    -- Partial body length.
    return .partialBody (← partialBodyLength octet1)
  else
    -- Five octets.
    return .full (← readBeU32)

/-- Decodes an old format body length (RFC 4880, Section 4.2.1). -/
def parseOldFormat (lengthType : PacketLengthType) : BufferedReader BodyLength :=
  match lengthType with
  | .oneOctet => do return .full (← dataConsumeHard 1)[0]!.toUInt32
  | .twoOctets => do return .full (← readBeU16).toUInt32
  | .fourOctets => do return .full (← readBeU32)
  | .indeterminate => return .indeterminate

end SequoiaOpenpgp
