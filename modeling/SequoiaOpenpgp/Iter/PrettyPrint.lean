import SequoiaOpenpgp.Iter.NaivePaths
import Mathlib.Algebra.Group.Nat.Basic

/-! # `Container::pretty_print`

* `Container.indent` is the source's `indent`: as many spaces as the depth, at most the 50 of its
  blank string. `prettyLine` is one `eprintln!` of `pretty_print`, with the packet's `Debug`
  text as the argument `debug` (`Debug for Packet` is derived outside `packet/mod.rs`).
* `Container.prettyPrint` is what `pretty_print` leaves on stderr (`Printed`): the lines it
  writes, each packet's line and then, when its `children` are `Some`, their lines one level
  further in; and whether it returns. `indent + 1` is a `usize` addition, which a debug build
  checks: at `usize::MAX` it panics before the children are printed.
* `prettyPrint_eq`: while `indent` plus the depth of every packet stays below `2 ^ 64 - 1`, no
  check fails, and the printed tree is the one the iterators walk. Its lines come in the pre-order
  `descendants()` returns, indented by depth, and numbered by the last index of the path
  `paths()` gives each packet.
-/

namespace SequoiaOpenpgp
set_option autoImplicit false

/-- The number of values of `usize` on a 64-bit target. -/
def usizeSize : Nat := 2 ^ 64

/-- `Container::indent`: converts an indentation level to whitespace, at most 50 spaces. -/
def Container.indent (depth : Nat) : String := String.mk (List.replicate (min depth 50) ' ')

/-- The line `eprintln!("{}{}: {:?}", Self::indent(indent), i + 1, p)`. -/
def prettyLine (debug : Packet → String) (indent number : Nat) (p : Packet) : String :=
  Container.indent indent ++ toString number ++ ": " ++ debug p

/-- What a call leaves on stderr: the lines it wrote, and whether it returned or panicked. -/
structure Printed where
  lines : List String
  returned : Bool
  deriving DecidableEq, Repr

/-- `a`, then `b` if `a` returned. -/
def Printed.andThen (a b : Printed) : Printed :=
  if a.returned then ⟨a.lines ++ b.lines, b.returned⟩ else a

@[simp] theorem Printed.andThen_returned (lines : List String) (b : Printed) :
    (⟨lines, true⟩ : Printed).andThen b = ⟨lines ++ b.lines, b.returned⟩ := rfl

/-- The loop of `pretty_print` over the siblings `ps`, enumerated from `i`: each packet's line,
then, when its `children` are `Some`, `children.pretty_print(indent + 1)`. -/
def prettyPrintFrom (debug : Packet → String) (indent i : Nat) : List Packet → Printed
  | [] => ⟨[], true⟩
  | p :: ps =>
    (⟨[prettyLine debug indent (i + 1) p], true⟩ : Printed).andThen <|
      (match h : p.deref.children with
        | some children =>
          if indent + 1 < usizeSize then prettyPrintFrom debug (indent + 1) 0 children.packets
          else ⟨[], false⟩
        | none => ⟨[], true⟩).andThen (prettyPrintFrom debug indent (i + 1) ps)
termination_by ps => sizeOf ps
decreasing_by
  all_goals simp_wf
  all_goals
    have hc := Packet.sizeOf_childPackets_lt ‹Packet›
    try simp only [Packet.childPackets, Common.childPackets, h] at hc
    omega

/-- `Container::pretty_print`. -/
def Container.prettyPrint (debug : Packet → String) (c : Container Packet) (indent : Nat) :
    Printed :=
  prettyPrintFrom debug indent 0 c.packets

@[simp] theorem prettyPrintFrom_nil (debug : Packet → String) (indent i : Nat) :
    prettyPrintFrom debug indent i [] = ⟨[], true⟩ := by
  rw [prettyPrintFrom]

/-- Below the overflow, `children` being `None` or `Some` makes no difference: a packet's line,
then the lines of its children, then those of its siblings. -/
theorem prettyPrintFrom_cons (debug : Packet → String) {indent : Nat} (i : Nat) (p : Packet)
    (ps : List Packet) (h : indent + 1 < usizeSize) :
    prettyPrintFrom debug indent i (p :: ps) =
      (⟨[prettyLine debug indent (i + 1) p], true⟩ : Printed).andThen
        ((prettyPrintFrom debug (indent + 1) 0 p.childPackets).andThen
          (prettyPrintFrom debug indent (i + 1) ps)) := by
  rw [prettyPrintFrom]
  split
  · rename_i children hc
    rw [if_pos h, show children.packets = p.childPackets by
      simp [Packet.childPackets, Common.childPackets, hc]]
  · rename_i hc
    rw [show p.childPackets = [] by simp [Packet.childPackets, Common.childPackets, hc],
      prettyPrintFrom_nil]

/-- The index among its siblings that a naive path ends with is unchanged below a parent. -/
theorem getLastD_cons_of_mem {s i : Nat} {ps : List Packet} {path : List Nat}
    (h : path ∈ naivePaths s ps) : (i :: path).getLastD 0 = path.getLastD 0 := by
  obtain ⟨j, rest, rfl, -⟩ := head_mem_naivePaths h
  simp only [List.getLastD_cons]

theorem prettyPrintFrom_eq (debug : Packet → String) (indent i : Nat) (ps : List Packet)
    (h : ∀ x ∈ preorder ps, indent + x.2 + 1 < usizeSize) :
    prettyPrintFrom debug indent i ps = ⟨((naivePaths i ps).zip (preorder ps)).map fun x =>
      prettyLine debug (indent + x.2.2) (x.1.getLastD 0 + 1) x.2.1, true⟩ := by
  induction ps using preorder.induct generalizing indent i with
  | case1 => simp
  | case2 p ps ihc ihs =>
    rw [preorder_cons] at h
    have hp : indent + 1 < usizeSize := h (p, 0) (List.mem_cons_self _ _)
    have hcs : ∀ x ∈ preorder p.childPackets, indent + 1 + x.2 + 1 < usizeSize := fun x hx => by
      have := h (deeper x) (List.mem_cons_of_mem _ (List.mem_append_left _ (List.mem_map_of_mem _ hx)))
      simp only [deeper] at this
      omega
    have hps : ∀ x ∈ preorder ps, indent + x.2 + 1 < usizeSize := fun x hx =>
      h x (List.mem_cons_of_mem _ (List.mem_append_right _ hx))
    have hlen : ((naivePaths 0 p.childPackets).map (i :: ·)).length =
        ((preorder p.childPackets).map deeper).length := by
      simp [length_naivePaths]
    rw [prettyPrintFrom_cons debug i p ps hp, ihc (indent + 1) 0 hcs, ihs indent (i + 1) hps,
      naivePaths_cons, preorder_cons, List.zip_cons_cons, List.zip_append hlen, List.zip_map,
      List.map_cons, List.map_append, List.map_map]
    simp only [Printed.andThen_returned, List.singleton_append, Printed.mk.injEq, and_true]
    congr 2
    refine List.map_congr_left fun x hx => ?_
    simp only [Function.comp, Prod.map, deeper, getLastD_cons_of_mem (List.of_mem_zip hx).1,
      Nat.add_right_comm indent 1, Nat.add_assoc]

/-- Unless `indent` plus the depth of some packet reaches `2 ^ 64 - 1`, `pretty_print(indent)`
returns, and it prints the tree the iterators walk: one line per packet, in the pre-order
`descendants()` returns, the packet at depth `d` indented by `min (indent + d) 50` spaces and
numbered by the last index of its path from `paths()` plus one, its position among its siblings
counted from 1. -/
theorem prettyPrint_eq (debug : Packet → String) (c : Container Packet) (indent : Nat)
    (h : ∀ x ∈ preorder c.packets, indent + x.2 + 1 < usizeSize) :
    c.prettyPrint debug indent =
      ⟨((naivePaths 0 c.packets).zip (preorder c.packets)).map fun x =>
        Container.indent (indent + x.2.2) ++ toString (x.1.getLastD 0 + 1) ++ ": " ++ debug x.2.1,
        true⟩ :=
  prettyPrintFrom_eq debug indent 0 c.packets h

/-- A compressed data packet holding one marker packet, printed from indent 0. -/
theorem prettyPrint_eq_compressed :
    (∀ x ∈ preorder [Packet.compressedData ⟨⟨some ⟨[.marker ⟨⟨none, none⟩, []⟩]⟩, none⟩, []⟩],
        0 + x.2 + 1 < usizeSize) ∧
      (⟨[Packet.compressedData ⟨⟨some ⟨[.marker ⟨⟨none, none⟩, []⟩]⟩, none⟩, []⟩]⟩ :
          Container Packet).prettyPrint (fun _ => "p") 0 =
        ⟨((naivePaths 0 [Packet.compressedData ⟨⟨some ⟨[.marker ⟨⟨none, none⟩, []⟩]⟩, none⟩, []⟩]).zip
          (preorder [Packet.compressedData ⟨⟨some ⟨[.marker ⟨⟨none, none⟩, []⟩]⟩, none⟩, []⟩])).map
            fun x => Container.indent (0 + x.2.2) ++ toString (x.1.getLastD 0 + 1) ++ ": " ++ "p",
          true⟩ := by
  have h : ∀ x ∈ preorder [Packet.compressedData ⟨⟨some ⟨[.marker ⟨⟨none, none⟩, []⟩]⟩, none⟩, []⟩],
      0 + x.2 + 1 < usizeSize := by
    simp [preorder_cons, Packet.childPackets, Packet.deref, deeper, usizeSize]
  exact ⟨h, prettyPrint_eq (fun _ => "p") _ 0 h⟩

end SequoiaOpenpgp
