import SequoiaOpenpgp.Iter.NaivePaths

/-! # The stored path of `PacketPathIter`

`next` reads `old_depth` off the stored path (`path.len() - 1`) and compares it with the
`depth` field the underlying `PacketIter` has just set. That is right only if, between calls, the
stored path is the path of the packet returned last and its length is that packet's depth plus
one, which is the `depth` field at that moment.

* `path_iterate_succ`, `depth_iterate_succ`: after `k + 1` calls on any path iterator with
  something pending, the stored path is the `k`-th path of the scan and `depth` the `k`-th
  pending level.
* `map_length_naivePaths`: a naive path is one longer than its packet's level.
* `paths_stored_path`: on `descendants().paths()`, after each call that returns a packet, the
  stored path is that packet's path, and `depth` is its length minus one.
-/

namespace SequoiaOpenpgp
set_option autoImplicit false

/-! ## Any path iterator -/

theorem lastPath_take_succ (prev : Option (List Nat)) :
    ∀ (ds : List Nat) (k : Nat), k < ds.length →
      lastPath prev (ds.take (k + 1)) = (scanPaths prev ds)[k]?
  | [], _, h => absurd h (Nat.not_lt_zero _)
  | d :: ds, 0, _ => by simp [lastPath, scanPaths]
  | d :: ds, k + 1, h => by
    rw [List.take_succ_cons, lastPath, scanPaths, List.getElem?_cons_succ]
    exact lastPath_take_succ _ ds k (by simpa using h)

namespace PacketPathIter

theorem next_iter (pi : PacketPathIter) : pi.next.2.iter = pi.iter.next.2 := by
  rcases h : pi.iter.next with ⟨_ | packet, iter⟩ <;> simp [next, h]

theorem iterate_succ' (k : Nat) (pi : PacketPathIter) :
    pi.iterate (k + 1) = (pi.iterate k).next.2 := by
  induction k generalizing pi with
  | zero => rfl
  | succ k ih => rw [iterate, ih, ← iterate]

/-- After `k` calls, the stored path is where the scan of the first `k` pending levels leaves it,
and the rest is pending. -/
theorem iterate_state (k : Nat) (pi : PacketPathIter) :
    (pi.iterate k).path = lastPath pi.path ((pi.iter.pending.take k).map Prod.snd) ∧
      (pi.iterate k).iter.pending = pi.iter.pending.drop k := by
  induction k generalizing pi with
  | zero => exact ⟨rfl, rfl⟩
  | succ k ih =>
    obtain ⟨ih1, ih2⟩ := ih pi.next.2
    have hs := next_spec pi
    rw [iterate, ih1, ih2]
    rcases hp : pi.iter.pending with _ | ⟨⟨p, d⟩, rest⟩ <;> rw [hp] at hs <;>
      obtain ⟨-, hs2, hs3⟩ := hs <;> simp [hs2, hs3, lastPath]

theorem path_iterate_succ {pi : PacketPathIter} {k : Nat} (hk : k < pi.iter.pending.length) :
    (pi.iterate (k + 1)).path = (scanPaths pi.path (pi.iter.pending.map Prod.snd))[k]? := by
  rw [(iterate_state (k + 1) pi).1, List.map_take]
  exact lastPath_take_succ _ _ k (by simpa using hk)

theorem depth_iterate_succ {pi : PacketPathIter} {k : Nat} (hk : k < pi.iter.pending.length) :
    (pi.iterate (k + 1)).iter.depth = pi.iter.pending[k].2 := by
  rw [iterate_succ', next_iter, (PacketIter.next_spec _).2.2, (iterate_state k pi).2,
    List.head?_drop, List.getElem?_eq_getElem hk]
  rfl

end PacketPathIter

/-! ## Fresh iterators -/

theorem scanPaths_root (ps : List Packet) :
    scanPaths none ((preorder ps).map Prod.snd) = naivePaths 0 ps := by
  have h := (scanPaths_preorder ps ([] : List Nat) 0 none rfl trivial).1
  simpa [levels] using h

/-- Each naive path is one longer than the level of its packet. -/
theorem map_length_naivePaths (s : Nat) (ps : List Packet) :
    (naivePaths s ps).map List.length = (preorder ps).map (·.2 + 1) := by
  induction ps using preorder.induct generalizing s with
  | case1 => simp
  | case2 p ps ihc ihs =>
    rw [naivePaths_cons, preorder_cons]
    simp only [List.map_cons, List.map_append, List.map_map, ihs, List.cons.injEq,
      List.append_cancel_right_eq]
    refine ⟨rfl, ?_⟩
    simpa [List.map_map, Function.comp_def, deeper] using congrArg (List.map (· + 1)) (ihc 0)

/-- On `descendants().paths()`, after each of the calls that return a packet the stored path is
the path of that packet, and the `depth` field of the underlying iterator is the path's length
minus one: the `old_depth` the next call reads off the path is the depth of the packet returned
last. -/
theorem paths_stored_path (c : Container Packet) :
    (List.range (preorder c.packets).length).map
        (fun k => (c.descendants.paths.iterate (k + 1)).path) =
      (naivePaths 0 c.packets).map some ∧
    (List.range (preorder c.packets).length).map
        (fun k => (c.descendants.paths.iterate (k + 1)).iter.depth + 1) =
      (naivePaths 0 c.packets).map List.length := by
  have hpending : c.descendants.paths.iter.pending = preorder c.packets := rfl
  constructor
  · refine List.ext_getElem (by simp [length_naivePaths]) fun k h1 h2 => ?_
    have hk : k < c.descendants.paths.iter.pending.length := by simpa [hpending] using h1
    simp only [List.getElem_map, List.getElem_range]
    rw [PacketPathIter.path_iterate_succ hk, hpending, PacketIter.paths, scanPaths_root,
      List.getElem?_eq_getElem (by simpa [length_naivePaths] using hk)]
  · rw [map_length_naivePaths]
    refine List.ext_getElem (by simp) fun k h1 h2 => ?_
    have hk : k < c.descendants.paths.iter.pending.length := by simpa [hpending] using h1
    simp only [List.getElem_map, List.getElem_range]
    rw [PacketPathIter.depth_iterate_succ hk]
    simp [hpending]

end SequoiaOpenpgp
