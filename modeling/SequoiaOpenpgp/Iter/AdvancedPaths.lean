import SequoiaOpenpgp.Iter.NaivePaths

/-! # `paths()` on an iterator that has already been advanced

* `PacketIter.iterate k` is the iterator after `k` calls of `next`; it has the pre-order with its
  first `k` entries dropped still to return (`pending_iterate`).
* `paths()` starts its path at `[0]` on whatever packet comes next, and only the steps of a
  pre-order from one top-level packet are handled. So after a partial run its paths are those of
  the remaining top-level packets counted from the first of them, and inside a subtree they may
  repeat (`paths_after_next_counterexample`).
* `paths_after_subtrees`: after the whole trees of the first `j` top-level packets, `paths()`
  numbers the rest of the container from 0; shifting a path's first index by `j` gives the path
  from the root.
-/

namespace SequoiaOpenpgp
set_option autoImplicit false

namespace PacketIter

/-- The iterator after `k` calls of `next`. -/
def iterate : Nat → PacketIter → PacketIter
  | 0, it => it
  | k + 1, it => iterate k it.next.2

theorem pending_iterate (k : Nat) (it : PacketIter) :
    (it.iterate k).pending = it.pending.drop k := by
  induction k generalizing it with
  | zero => rfl
  | succ k ih => rw [iterate, ih, (next_spec it).2.1, List.drop_tail]

/-- After as many calls as the trees of the first `j` top-level packets have packets, the rest
of the container is pending. -/
theorem pending_iterate_subtrees (c : Container Packet) (j : Nat) :
    (c.descendants.iterate (preorder (c.packets.take j)).length).pending =
      preorder (c.packets.drop j) := by
  have hsplit : preorder c.packets = preorder (c.packets.take j) ++ preorder (c.packets.drop j) := by
    rw [← preorder_append, List.take_append_drop]
  rw [pending_iterate, pending_container_descendants, hsplit, List.drop_left]

end PacketIter

theorem pathRef_drop (ps : List Packet) (j i : Nat) (rest : List Nat) :
    pathRef (ps.drop j) (i :: rest) = pathRef ps ((i + j) :: rest) := by
  rcases rest with _ | ⟨k, rest⟩ <;> simp [pathRef, List.getElem?_drop, Nat.add_comm j i]

/-! ## A partial run breaks the paths -/

/-- The property asked of `paths()` after `k` calls of `next` on `descendants()`: every packet it
yields in `n` calls comes with its own path from the root, and no path is yielded twice. -/
def PathsStayCorrect (c : Container Packet) (k n : Nat) : Prop :=
  (∀ x ∈ ((c.descendants.iterate k).paths.run n).filterMap id, pathRef c.packets x.1 = some x.2) ∧
    ((((c.descendants.iterate k).paths.run n).filterMap id).map Prod.fst).Nodup

/-- A packet without children. -/
def leaf (tag : UInt8) : Packet := .marker ⟨default, [tag]⟩

/-- A compressed data packet with the children `ps`. -/
def node (ps : List Packet) : Packet := .compressedData ⟨⟨some ⟨ps⟩, none⟩, []⟩

/-- Two top-level packets, the second with a chain of two packets below it. -/
def chainTree : Container Packet := ⟨[leaf 0, node [node [leaf 1]]]⟩

theorem paths_after_next_counterexample :
    ¬ PathsStayCorrect chainTree 1 3 ∧ ¬ PathsStayCorrect chainTree 2 2 := by
  have h1 : (chainTree.descendants.iterate 1).paths.run 3 =
      [some ([0], node [node [leaf 1]]), some ([0, 0], node [leaf 1]), some ([0, 0, 0], leaf 1)] :=
    rfl
  have h2 : (chainTree.descendants.iterate 2).paths.run 2 =
      [some ([0], node [leaf 1]), some ([0], leaf 1)] := rfl
  refine ⟨fun ⟨h, _⟩ => ?_, fun ⟨_, h⟩ => ?_⟩
  · have := h ([0], node [node [leaf 1]]) (by simp [h1])
    simp [pathRef, chainTree, leaf, node] at this
  · simp [h2] at h

/-! ## After whole subtrees -/

/-- After the whole trees of the first `j` top-level packets (`k` calls, `k` the number of
packets in them), `paths()` returns the naive paths of the remaining top-level packets, counted
from 0, each with its packet, then `None` for ever. Adding `j` to a path's first index gives that
packet's path from the root; no path is returned twice, and every path update stays inside its
guards. -/
theorem paths_after_subtrees (c : Container Packet) (j n : Nat) :
    (c.descendants.iterate (preorder (c.packets.take j)).length).paths.run n =
      (((naivePaths 0 (c.packets.drop j)).zip
        ((preorder (c.packets.drop j)).map Prod.fst)).map some).take n ++
        List.replicate (n - (preorder (c.packets.drop j)).length) none ∧
    (∀ x ∈ (naivePaths 0 (c.packets.drop j)).zip ((preorder (c.packets.drop j)).map Prod.fst),
      ∃ i rest, x.1 = i :: rest ∧ pathRef c.packets ((i + j) :: rest) = some x.2) ∧
    (naivePaths 0 (c.packets.drop j)).Nodup ∧
    ∀ m, ((c.descendants.iterate (preorder (c.packets.take j)).length).paths.iterate m).NextSafe := by
  obtain ⟨h1, h2⟩ := paths_run_of_pending (PacketIter.pending_iterate_subtrees c j) n
  refine ⟨h1, fun x hx => ?_, nodup_naivePaths 0 _, h2⟩
  obtain ⟨i, rest, hi, -⟩ := head_mem_naivePaths (List.of_mem_zip hx).1
  refine ⟨i, rest, hi, ?_⟩
  rw [← pathRef_drop, ← hi]
  simpa using pathRef_naivePaths (c.packets.drop j) [] x (by simpa using hx)

end SequoiaOpenpgp
