import Mathlib.Data.List.Basic

/-! # `PacketParserBuilder`: configuring a `PacketParser`

* The builder holds the input (`bio`, here the bytes of a `Memory` reader), how to decode it
  (`Dearmor`), and the `PacketParserSettings` it hands to `PacketParserState::new`.
* The setters each set one field: a setting of the builder, or how the input is decoded.
* `PacketParserSettings::default()`, the default `armor::ReaderMode`, `Header::parse` with
  `Header::valid`, the armor reader and `PacketParser::parse` are defined outside this file: they
  are arguments of the definitions here. `finalize` is modelled up to the call of
  `PacketParser::parse`, with the settings and the reader it passes.
-/

namespace SequoiaOpenpgp
set_option autoImplicit false

/-- The settings a `PacketParserBuilder` configures. -/
structure PacketParserSettings where
  maxRecursionDepth : UInt8
  bufferUnreadContent : Bool
  map : Bool
  deriving DecidableEq, Repr

/-- How to decode the input, over the armor reader's mode `M` (`armor::ReaderMode`). -/
inductive Dearmor (M : Type) where
  /-- Unconditionally treat the input as ASCII armored. -/
  | enabled (mode : M)
  /-- Unconditionally treat the input as a binary OpenPGP message. -/
  | disabled
  /-- Treat the input as armored if it does not appear to be binary. -/
  | auto (mode : M)
  deriving DecidableEq, Repr

/-- A builder for configuring a `PacketParser`. -/
structure PacketParserBuilder (M : Type) where
  bio : List UInt8
  dearmor : Dearmor M
  settings : PacketParserSettings
  deriving DecidableEq, Repr

namespace PacketParserBuilder

variable {M : Type}

/-- `from_bytes`, through `from_buffered_reader`: `Auto` with the default mode, and the default
settings. -/
def fromBytes (defaultMode : M) (defaultSettings : PacketParserSettings) (bytes : List UInt8) :
    PacketParserBuilder M :=
  ⟨bytes, .auto defaultMode, defaultSettings⟩

/-- The builder with its settings updated by `f`. -/
def withSettings (b : PacketParserBuilder M) (f : PacketParserSettings → PacketParserSettings) :
    PacketParserBuilder M :=
  { b with settings := f b.settings }

/-- `max_recursion_depth`. -/
def maxRecursionDepth (b : PacketParserBuilder M) (value : UInt8) : PacketParserBuilder M :=
  b.withSettings fun s => { s with maxRecursionDepth := value }

/-- `buffer_unread_content`. -/
def bufferUnreadContent (b : PacketParserBuilder M) : PacketParserBuilder M :=
  b.withSettings fun s => { s with bufferUnreadContent := true }

/-- `drop_unread_content`. -/
def dropUnreadContent (b : PacketParserBuilder M) : PacketParserBuilder M :=
  b.withSettings fun s => { s with bufferUnreadContent := false }

/-- `map`. -/
def map (b : PacketParserBuilder M) (enable : Bool) : PacketParserBuilder M :=
  b.withSettings fun s => { s with map := enable }

/-- The method `dearmor` (the field of the same name is what it sets). -/
def setDearmor (b : PacketParserBuilder M) (mode : Dearmor M) : PacketParserBuilder M :=
  { b with dearmor := mode }

/-! ## `finalize` -/

section Finalize

variable {Header R : Type} (parseHeader : List UInt8 → Option Header) (valid : Header → Bool)
  (armorReader : M → List UInt8 → List UInt8) (parse : PacketParserSettings → List UInt8 → R)

/-- The mode `finalize` dearmors the input with, if any. `Auto` parses a header from a `Dup` of
the input and takes the original reader back with `into_inner`, modelled as the same bytes; input
that does not start with a valid header is taken to be armored. -/
def dearmorMode (d : Dearmor M) (bio : List UInt8) : Option M :=
  match d with
  | .enabled mode => some mode
  | .disabled => none
  | .auto mode =>
    match parseHeader bio with
    | some header => if valid header then none else some mode
    | none => some mode

/-- `finalize`: the first packet is parsed, with the configured settings, from the input or from
an armor reader over it. -/
def finalize (b : PacketParserBuilder M) : R :=
  parse b.settings
    (match dearmorMode parseHeader valid b.dearmor b.bio with
      | some mode => armorReader mode b.bio
      | none => b.bio)

end Finalize

end PacketParserBuilder

end SequoiaOpenpgp
