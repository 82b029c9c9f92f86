import SequoiaOpenpgp.Packet.Core

/-! # `PacketIter`: depth-first iteration over a packet tree

* `PacketIter` is the source's struct: the children not yet returned, the current child, the
  iterator over the current child's children (nested, one per level), and `depth`.
* `PacketIter.next` is `Iterator::next`; `Container.descendants` and `Common.descendants` build
  fresh iterators.
* `preorder ps` is what iteration over the siblings `ps` is for: the depth-first pre-order of
  their trees, each packet with its nesting level. `PacketIter.pending` is the part of it an
  iterator has still to return.
* `next_spec`: one call returns the head of `pending` and leaves its tail, and sets `depth` to the
  head's level (to 0 on `None`). `run_eq` follows by induction over the number of calls.
-/

namespace SequoiaOpenpgp
set_option autoImplicit false

/-- A `PacketIter` iterates over the contents of a packet in depth-first order. -/
structure PacketIter where
  /-- The current message's children not yet returned (`slice::Iter`). -/
  children : List Packet
  /-- The current child, the last value returned by `children.next()`. -/
  child : Option Packet
  /-- An iterator over the current child's children. -/
  grandchildren : Option PacketIter
  /-- The depth of the last returned packet. -/
  depth : Nat

/-- `Container::descendants`. -/
def Container.descendants (c : Container Packet) : PacketIter := ⟨c.packets, none, none, 0⟩

/-- `Common::descendants`: over `children`, or over the empty slice when there are none. -/
def Common.descendants (c : Common Packet) : PacketIter := ⟨c.childPackets, none, none, 0⟩

namespace PacketIter

/-- The end of `next`: get the next child and the iterator for its children, and return the
child itself. When the children are exhausted the old `grandchildren` stays. -/
def nextChild (children : List Packet) (grandchildren : Option PacketIter) :
    Option Packet × PacketIter :=
  match children with
  | [] => (none, ⟨[], none, grandchildren, 0⟩)
  | child :: children => (some child, ⟨children, some child, some child.deref.descendants, 0⟩)

/-- `Iterator for PacketIter`: the grandchild iterator first, and when it is exhausted the next
child. -/
def next : PacketIter → Option Packet × PacketIter
  | ⟨children, child, some grandchildren, _⟩ =>
    match grandchildren.next with
    | (some grandchild, grandchildren) =>
      (some grandchild, ⟨children, child, some grandchildren, grandchildren.depth + 1⟩)
    | (none, grandchildren) => nextChild children (some grandchildren)
  | ⟨children, _, none, _⟩ => nextChild children none

end PacketIter

/-! ## The depth-first pre-order -/

/-- One level further down. -/
def deeper (x : Packet × Nat) : Packet × Nat := (x.1, x.2 + 1)

/-- The depth-first pre-order of the trees of the siblings `ps`, each packet with its nesting
level below them: each packet, then its own descendants one level down, then the next sibling. -/
def preorder : List Packet → List (Packet × Nat)
  | [] => []
  | p :: ps => (p, 0) :: ((preorder p.childPackets).map deeper ++ preorder ps)
termination_by ps => sizeOf ps
decreasing_by
  all_goals simp_wf
  all_goals
    have := Packet.sizeOf_childPackets_lt ‹Packet›
    omega

@[simp] theorem preorder_nil : preorder [] = [] := by
  rw [preorder]

theorem preorder_cons (p : Packet) (ps : List Packet) :
    preorder (p :: ps) = (p, 0) :: ((preorder p.childPackets).map deeper ++ preorder ps) := by
  rw [preorder]

theorem preorder_append (ps qs : List Packet) :
    preorder (ps ++ qs) = preorder ps ++ preorder qs := by
  induction ps with
  | nil => simp
  | cons p ps ih => simp [preorder_cons, ih]

namespace PacketIter

/-- What the iterator has still to return, each packet with its level below the iterator's
root: the rest of the current child's descendants, then the trees of the children not yet
started. -/
def pending : PacketIter → List (Packet × Nat)
  | ⟨children, _, some grandchildren, _⟩ => grandchildren.pending.map deeper ++ preorder children
  | ⟨children, _, none, _⟩ => preorder children

@[simp] theorem pending_descendants (c : Common Packet) :
    c.descendants.pending = preorder c.childPackets := rfl

@[simp] theorem pending_container_descendants (c : Container Packet) :
    c.descendants.pending = preorder c.packets := rfl

/-- `nextChild` returns the head of the children's pre-order, provided the grandchild iterator
it keeps has nothing left. -/
theorem nextChild_spec (children : List Packet) (grandchildren : Option PacketIter)
    (hg : ∀ g ∈ grandchildren, g.pending = []) :
    (nextChild children grandchildren).1 = (preorder children).head?.map Prod.fst ∧
    (nextChild children grandchildren).2.pending = (preorder children).tail ∧
    (nextChild children grandchildren).2.depth =
      ((preorder children).head?.map Prod.snd).getD 0 := by
  rcases children with _ | ⟨child, children⟩
  · rcases grandchildren with _ | g
    · simp [nextChild, pending]
    · simp [nextChild, pending, hg g rfl]
  · simp [nextChild, pending, preorder_cons, Packet.childPackets]

/-- One call of `next`: it returns the head of `pending` and leaves its tail, and `depth` is the
returned packet's level (0 after `None`). -/
theorem next_spec : ∀ it : PacketIter,
    it.next.1 = it.pending.head?.map Prod.fst ∧ it.next.2.pending = it.pending.tail ∧
      it.next.2.depth = (it.pending.head?.map Prod.snd).getD 0
  | ⟨children, child, some g, depth⟩ => by
    obtain ⟨h1, h2, h3⟩ := next_spec g
    rcases hg : g.next with ⟨_ | grandchild, g'⟩
    · rw [hg] at h1 h2
      have hnil : g.pending = [] := by
        cases h : g.pending with
        | nil => rfl
        | cons x xs => simp [h] at h1
      have hnil' : g'.pending = [] := by simpa [hnil] using h2.symm
      simpa [next, pending, hg, hnil] using nextChild_spec children (some g') (by simp [hnil'])
    · rw [hg] at h1 h2 h3
      obtain ⟨x, xs, hx⟩ : ∃ x xs, g.pending = x :: xs := by
        cases h : g.pending with
        | nil => simp [h] at h1
        | cons x xs => exact ⟨x, xs, rfl⟩
      simp only [hx, List.head?_cons, Option.map_some', Option.some.injEq, List.tail_cons,
        Option.getD_some] at h1 h2 h3
      simp [next, pending, hg, hx, h1, h2, h3, deeper]
  | ⟨children, child, none, depth⟩ => by
    simpa [next, pending] using nextChild_spec children none (by simp)

/-- The results of `n` successive calls of `next`, each with the `depth` field after the call. -/
def run : Nat → PacketIter → List (Option Packet × Nat)
  | 0, _ => []
  | n + 1, it => (it.next.1, it.next.2.depth) :: run n it.next.2

/-- `n` calls return the first `n` entries of `pending`, each with its level as `depth`, and
`None` with `depth` 0 once `pending` is used up. -/
theorem run_eq (n : Nat) (it : PacketIter) :
    it.run n = (it.pending.map fun x => (some x.1, x.2)).take n ++
      List.replicate (n - it.pending.length) (none, 0) := by
  induction n generalizing it with
  | zero => simp [run]
  | succ n ih =>
    obtain ⟨h1, h2, h3⟩ := next_spec it
    rw [run, ih, h1, h2, h3]
    cases it.pending with
    | nil => simp [List.replicate_succ]
    | cons x xs => simp [Nat.succ_sub_succ]

end PacketIter

/-- `descendants()`, on a container or on the `Common` of a packet, returns the depth-first
pre-order of the tree below it, each packet with its level as `depth`; every call returns, and
after the first `None` every call returns `None`. -/
theorem descendants_run_preorder (c : Container Packet) (cm : Common Packet) (n : Nat) :
    c.descendants.run n = ((preorder c.packets).map fun x => (some x.1, x.2)).take n ++
      List.replicate (n - (preorder c.packets).length) (none, 0) ∧
    cm.descendants.run n = ((preorder cm.childPackets).map fun x => (some x.1, x.2)).take n ++
      List.replicate (n - (preorder cm.childPackets).length) (none, 0) :=
  ⟨PacketIter.run_eq n c.descendants, PacketIter.run_eq n cm.descendants⟩

end SequoiaOpenpgp
