import SequoiaOpenpgp.Iter.PacketPathIter
import Mathlib.Data.List.Nodup

/-! # `paths()` gives every packet its index path

* `naivePaths` is the recursive enumeration of the source's test `packet_path_iter`, and
  `pathRef` the walk from a container that a path denotes (what the test compares with
  `PacketPile::path_ref`).
* `nextPath_descend` and `nextPath_next` are the two steps of `nextPath` a pre-order makes:
  into the first child, and from anywhere inside a subtree to the next sibling of its root.
* `scanPaths_preorder`: from a stored path that steps to `pre ++ [i]`, scanning the pre-order of
  siblings numbered from `i` below `pre` yields their naive paths below `pre`, every step is
  safe, and the stored path ends inside the last sibling's subtree.
* `paths_descendants_naivePaths`: `descendants().paths()` yields the naive paths with the
  packets they lead to, then `None`, and never fails a guard; `paths_descendants_sorted`: in
  strictly increasing lexicographic order.
-/

namespace SequoiaOpenpgp
set_option autoImplicit false

/-! ## Naive paths and the packets they lead to -/

/-- The test's enumeration: for the packet at index `i` (counting from `start`) the path `[i]`,
then `i` prepended to every path of its children, recursively. -/
def naivePaths (start : Nat) : List Packet → List (List Nat)
  | [] => []
  | p :: ps =>
    [start] :: ((naivePaths 0 p.childPackets).map (start :: ·) ++ naivePaths (start + 1) ps)
termination_by ps => sizeOf ps
decreasing_by
  all_goals simp_wf
  all_goals
    have := Packet.sizeOf_childPackets_lt ‹Packet›
    omega

@[simp] theorem naivePaths_nil (start : Nat) : naivePaths start [] = [] := by
  rw [naivePaths]

theorem naivePaths_cons (start : Nat) (p : Packet) (ps : List Packet) :
    naivePaths start (p :: ps) =
      [start] :: ((naivePaths 0 p.childPackets).map (start :: ·) ++ naivePaths (start + 1) ps) := by
  rw [naivePaths]

/-- The packet reached from the siblings `packets` by taking child `path[0]`, then `path[1]`
among that packet's children, and so on; `none` when an index is out of range. -/
def pathRef (packets : List Packet) : List Nat → Option Packet
  | [] => none
  | [i] => packets[i]?
  | i :: j :: rest => packets[i]?.bind fun p => pathRef p.childPackets (j :: rest)

theorem getElem?_length_append (pre : List Packet) (p : Packet) (ps : List Packet) :
    (pre ++ p :: ps)[pre.length]? = some p := by
  rw [List.getElem?_append_right (Nat.le_refl _), Nat.sub_self, List.getElem?_cons_zero]

theorem length_naivePaths (start : Nat) (ps : List Packet) :
    (naivePaths start ps).length = (preorder ps).length := by
  induction ps using preorder.induct generalizing start with
  | case1 => simp
  | case2 p ps ihc ihs => simp [naivePaths_cons, preorder_cons, ihc, ihs]

/-- Every naive path is non-empty and starts with the index of one of the siblings. -/
theorem head_mem_naivePaths {start : Nat} {ps : List Packet} {path : List Nat}
    (h : path ∈ naivePaths start ps) :
    ∃ i rest, path = i :: rest ∧ start ≤ i ∧ i < start + ps.length := by
  induction ps using preorder.induct generalizing start with
  | case1 => simp at h
  | case2 p ps _ ihs =>
    simp only [naivePaths_cons, List.mem_cons, List.mem_append, List.mem_map] at h
    rcases h with rfl | ⟨q, -, rfl⟩ | h
    · exact ⟨start, [], rfl, le_rfl, by simp⟩
    · exact ⟨start, q, rfl, le_rfl, by simp⟩
    · obtain ⟨i, rest, rfl, h1, h2⟩ := ihs h
      exact ⟨i, rest, rfl, by omega, by rw [List.length_cons]; omega⟩

/-- Different positions of the enumeration are different paths. -/
theorem nodup_naivePaths (start : Nat) (ps : List Packet) : (naivePaths start ps).Nodup := by
  induction ps using preorder.induct generalizing start with
  | case1 => simp
  | case2 p ps ihc ihs =>
    rw [naivePaths_cons, List.nodup_cons, List.nodup_append]
    refine ⟨?_, (ihc 0).map (fun _ _ h => List.cons_injective h), ihs _, ?_⟩
    · simp only [List.mem_append, List.mem_map, not_or, not_exists, not_and]
      refine ⟨fun q hq h => ?_, fun h => ?_⟩
      · obtain ⟨i, rest, rfl, -⟩ := head_mem_naivePaths hq
        simp at h
      · obtain ⟨i, rest, h', h1, -⟩ := head_mem_naivePaths h
        simp only [List.cons.injEq] at h'
        omega
    · intro x hx hy
      obtain ⟨q, -, rfl⟩ := List.mem_map.mp hx
      obtain ⟨i, rest, h', h1, -⟩ := head_mem_naivePaths hy
      simp only [List.cons.injEq] at h'
      omega

/-- Each naive path leads to the packet at the same position of the pre-order. The siblings sit
after `pre` in their container, so they are numbered from `pre.length`. -/
theorem pathRef_naivePaths (ps pre : List Packet) :
    ∀ x ∈ (naivePaths pre.length ps).zip ((preorder ps).map Prod.fst),
      pathRef (pre ++ ps) x.1 = some x.2 := by
  induction ps using preorder.induct generalizing pre with
  | case1 => simp
  | case2 p ps ihc ihs =>
    have hlen : ((naivePaths 0 p.childPackets).map (pre.length :: ·)).length =
        ((preorder p.childPackets).map deeper |>.map Prod.fst).length := by
      simp [length_naivePaths]
    rw [naivePaths_cons, preorder_cons, List.map_cons, List.map_append, List.zip_cons_cons,
      List.zip_append hlen]
    rintro ⟨path, packet⟩ hx
    simp only [List.mem_cons, List.mem_append, Prod.mk.injEq] at hx
    rcases hx with ⟨rfl, rfl⟩ | hx | hx
    · exact getElem?_length_append _ _ _
    · rw [List.map_map, List.zip_map_left] at hx
      obtain ⟨⟨q, r⟩, hqr, he⟩ := List.mem_map.mp hx
      simp only [Prod.map, Prod.mk.injEq, Function.comp] at he
      obtain ⟨rfl, rfl⟩ := he
      have hq := ihc [] (q, r) (by simpa [List.zip_map_right, deeper] using hqr)
      obtain ⟨j, rest, rfl, -⟩ := head_mem_naivePaths (List.of_mem_zip hqr).1
      rw [pathRef, getElem?_length_append]
      simpa using hq
    · have := ihs (pre ++ [p]) (path, packet) (by simpa using hx)
      simpa using this

/-! ## The two path steps of a pre-order -/

theorem modify_length_append (f : Nat → Nat) (pre t : List Nat) (a : Nat) :
    (pre ++ a :: t).modify f pre.length = pre ++ f a :: t := by
  induction pre with
  | nil => rfl
  | cons b pre ih => simp [ih]

/-- Into the first child (the recursion branch): the path grows by `0`. -/
theorem nextPath_descend {path : List Nat} (h : 0 < path.length) :
    nextPath path path.length = path ++ [0] := by
  simp only [nextPath]
  rw [if_neg (by omega), if_neg (by omega), if_pos (by omega)]

theorem nextPathSafe_descend {path : List Nat} (h : 0 < path.length) :
    NextPathSafe path path.length := by
  simp only [NextPathSafe]
  omega

/-- From anywhere in the subtree rooted at `pre ++ [i]` to the root's next sibling: the sibling
branch from the root itself, the popped branch from below it. -/
theorem nextPath_next (pre t : List Nat) (i : Nat) :
    nextPath (pre ++ i :: t) pre.length = pre ++ [i + 1] := by
  rcases t with _ | ⟨j, t⟩
  · simp [nextPath, modify_length_append]
  · have htake : (pre ++ i :: j :: t).take (pre.length + 1) = pre ++ [i] := by
      rw [List.take_append]
      rfl
    simp [nextPath, htake, modify_length_append]

theorem nextPathSafe_next (pre t : List Nat) (i : Nat) :
    NextPathSafe (pre ++ i :: t) pre.length := by
  simp only [NextPathSafe, List.length_append, List.length_cons, List.length_take]
  omega

/-! ## Scanning a pre-order -/

/-- The levels the root iterator reports for the pre-order of siblings at level `base`. -/
def levels (ps : List Packet) (base : Nat) : List Nat := (preorder ps).map (·.2 + base)

@[simp] theorem levels_nil (base : Nat) : levels [] base = [] := by
  simp [levels]

theorem levels_cons (p : Packet) (ps : List Packet) (base : Nat) :
    levels (p :: ps) base = base :: (levels p.childPackets (base + 1) ++ levels ps base) := by
  simp only [levels, preorder_cons, List.map_cons, List.map_append, List.map_map, Nat.zero_add,
    List.cons.injEq, List.append_cancel_right_eq, true_and]
  exact List.map_congr_left fun x _ => by simp only [Function.comp, deeper]; omega

/-- The stored path after the subtree of the packet at `pre ++ [i]` lies inside that subtree. -/
theorem lastPath_subtree (cs : List Packet) (pre : List Nat) (i : Nat)
    (h : cs ≠ [] → ∃ t, lastPath (some (pre ++ [i])) (levels cs (pre ++ [i]).length) =
      some (pre ++ [i] ++ (0 + cs.length - 1) :: t)) :
    ∃ t, lastPath (some (pre ++ [i])) (levels cs (pre.length + 1)) = some (pre ++ i :: t) := by
  rcases cs with _ | ⟨c, cs⟩
  · exact ⟨[], by simp [lastPath]⟩
  · obtain ⟨t, ht⟩ := h (List.cons_ne_nil c cs)
    exact ⟨_, by simpa using ht⟩

/-- The scan invariant. If the stored path `prev` steps, safely, to `pre ++ [i]` at level
`pre.length`, then scanning the pre-order of the siblings `ps` yields their naive paths numbered
from `i` below `pre`, every step is safe, and the stored path ends inside the last sibling's
subtree. -/
theorem scanPaths_preorder (ps : List Packet) (pre : List Nat) (i : Nat)
    (prev : Option (List Nat)) (hstep : stepPath prev pre.length = pre ++ [i])
    (hsafe : StepSafe prev pre.length) :
    scanPaths prev (levels ps pre.length) = (naivePaths i ps).map (pre ++ ·) ∧
      ScanSafe prev (levels ps pre.length) ∧
      (ps ≠ [] → ∃ t, lastPath prev (levels ps pre.length) = some (pre ++ (i + ps.length - 1) :: t)) := by
  induction ps using preorder.induct generalizing pre i prev with
  | case1 => simp [scanPaths, ScanSafe]
  | case2 p ps ihc ihs =>
    -- the children of `p`, one level down, below `pre ++ [i]`
    obtain ⟨hc1, hc2, hc3⟩ := ihc (pre ++ [i]) 0 (some (pre ++ [i]))
      (nextPath_descend (by simp)) (nextPathSafe_descend (by simp))
    -- the next sibling, from wherever the subtree of `p` left the stored path
    obtain ⟨t, ht⟩ := lastPath_subtree p.childPackets pre i hc3
    obtain ⟨hs1, hs2, hs3⟩ := ihs pre (i + 1) (some (pre ++ i :: t))
      (nextPath_next pre t i) (nextPathSafe_next pre t i)
    simp only [List.length_append, List.length_singleton] at hc1 hc2
    refine ⟨?_, ?_, fun _ => ?_⟩
    · simp [levels_cons, scanPaths, hstep, scanPaths_append, hc1, ht, hs1, naivePaths_cons]
    · simp [levels_cons, ScanSafe, hsafe, hstep, scanSafe_append, hc2, ht, hs2]
    · simp only [levels_cons, lastPath, hstep, lastPath_append, ht]
      rcases ps with _ | ⟨q, qs⟩
      · exact ⟨t, by simp [lastPath]⟩
      · obtain ⟨t', ht'⟩ := hs3 (List.cons_ne_nil q qs)
        exact ⟨t', by simp only [ht', List.length_cons]; congr 3; omega⟩

/-! ## `paths()` on a whole forest -/

/-- `paths()` on any iterator that has the whole trees of the siblings `ps` still to return (a
fresh `descendants()` among them): `next` returns the naive paths of `ps`, each with its packet,
then `None` for ever, and every path update stays inside its guards. -/
theorem paths_run_of_pending {it : PacketIter} {ps : List Packet} (h : it.pending = preorder ps)
    (n : Nat) :
    it.paths.run n =
      (((naivePaths 0 ps).zip ((preorder ps).map Prod.fst)).map some).take n ++
        List.replicate (n - (preorder ps).length) none ∧
    ∀ k, (it.paths.iterate k).NextSafe := by
  obtain ⟨h1, h2, -⟩ := scanPaths_preorder ps ([] : List Nat) 0 none rfl trivial
  have hlev : levels ps ([] : List Nat).length = (preorder ps).map Prod.snd := by
    simp [levels]
  rw [hlev] at h1 h2
  simp only [List.nil_append, List.map_id'] at h1
  refine ⟨?_, PacketPathIter.nextSafe_iterate (by simpa [PacketIter.paths, h] using h2)⟩
  rw [PacketPathIter.run_eq]
  simp [PacketIter.paths, h, h1]

/-- `descendants().paths()` on a container: `next` returns the naive paths, each with the packet
it leads to from the container, then `None` for ever; the enumeration has one path per packet
and no path twice; and at every call the path update stays inside its guards (no depth jump of
more than one level, no underflow of `path.len() - 1`, no index out of bounds). -/
theorem paths_descendants_naivePaths (c : Container Packet) (n : Nat) :
    c.descendants.paths.run n =
      (((naivePaths 0 c.packets).zip ((preorder c.packets).map Prod.fst)).map some).take n ++
        List.replicate (n - (preorder c.packets).length) none ∧
    (naivePaths 0 c.packets).length = (preorder c.packets).length ∧
    (∀ x ∈ (naivePaths 0 c.packets).zip ((preorder c.packets).map Prod.fst),
      pathRef c.packets x.1 = some x.2) ∧
    (naivePaths 0 c.packets).Nodup ∧
    ∀ k, (c.descendants.paths.iterate k).NextSafe := by
  obtain ⟨h1, h2⟩ := paths_run_of_pending (PacketIter.pending_container_descendants c) n
  exact ⟨h1, length_naivePaths 0 c.packets, by simpa using pathRef_naivePaths c.packets [],
    nodup_naivePaths 0 c.packets, h2⟩

/-! ## Order -/

/-- The naive paths are in strictly increasing lexicographic order. -/
theorem pairwise_lt_naivePaths (s : Nat) (ps : List Packet) :
    (naivePaths s ps).Pairwise List.lt := by
  induction ps using preorder.induct generalizing s with
  | case1 => simp
  | case2 p ps ihc ihs =>
    rw [naivePaths_cons, List.pairwise_cons, List.pairwise_append, List.pairwise_map]
    refine ⟨fun x hx => ?_, (ihc 0).imp (List.lt.tail (Nat.lt_irrefl s) (Nat.lt_irrefl s)), ihs _,
      fun x hx y hy => ?_⟩
    · rcases List.mem_append.mp hx with hx | hx
      · obtain ⟨q, hq, rfl⟩ := List.mem_map.mp hx
        obtain ⟨i, rest, rfl, -⟩ := head_mem_naivePaths hq
        exact List.lt.tail (Nat.lt_irrefl s) (Nat.lt_irrefl s) (List.lt.nil _ _)
      · obtain ⟨i, rest, rfl, h, -⟩ := head_mem_naivePaths hx
        exact List.lt.head _ _ (by omega)
    · obtain ⟨q, -, rfl⟩ := List.mem_map.mp hx
      obtain ⟨i, rest, rfl, h, -⟩ := head_mem_naivePaths hy
      exact List.lt.head _ _ (by omega)

/-- `descendants().paths()` returns its paths in strictly increasing lexicographic order. -/
theorem paths_descendants_sorted (c : Container Packet) (n : Nat) :
    (((c.descendants.paths.run n).filterMap id).map Prod.fst).Pairwise List.lt := by
  have hz : ((naivePaths 0 c.packets).zip ((preorder c.packets).map Prod.fst)).map Prod.fst =
      naivePaths 0 c.packets :=
    List.map_fst_zip _ _ (by simp [length_naivePaths])
  refine (pairwise_lt_naivePaths 0 c.packets).sublist ?_
  rw [(paths_run_of_pending (PacketIter.pending_container_descendants c) n).1]
  simp only [List.filterMap_append, List.filterMap_replicate_of_none, ← List.map_take,
    List.filterMap_map, Function.comp_def, id, List.filterMap_some, List.append_nil]
  have h := (List.take_sublist n ((naivePaths 0 c.packets).zip
    ((preorder c.packets).map Prod.fst))).map Prod.fst
  rwa [hz] at h

end SequoiaOpenpgp
