import Mathlib.Data.List.Nodup

/-!
# Linked lists whose nodes have addresses

The nodes of a singly linked list in the order of their links. A node is read, written and unlinked
by its address, and its link is the address of the node behind it. As long as the addresses are
distinct, each of these touches one node: the lemmas place it between what is before and what is
after it.
-/

namespace Nblex

namespace Chain

variable {α κ : Type*} [DecidableEq κ] (addr : α → κ)

/-- The node at an address. -/
def node? (chain : List α) (place : κ) : Option α := chain.find? fun x => decide (addr x = place)

/-- The link of the node at an address. -/
def next? : List α → κ → Option κ
  | [], _ => none
  | x :: rest, place => if addr x = place then rest.head?.map addr else next? rest place

/-- Write the node at an address. -/
def write (chain : List α) (place : κ) (new : α) : List α :=
  chain.map fun x => if addr x = place then new else x

/-- Unlink the node at an address. -/
def unlink (chain : List α) (place : κ) : List α := chain.eraseP fun x => decide (addr x = place)

variable {addr} {before after : List α} {x : α}

omit [DecidableEq κ] in
/-- Nothing before a node has its address. -/
theorem before_ne (distinct : ((before ++ x :: after).map addr).Nodup) :
    ∀ y ∈ before, addr y ≠ addr x := by
  rw [List.map_append, List.map_cons] at distinct
  intro y member same
  exact (List.nodup_append.mp distinct).2.2 _ (List.mem_map_of_mem member) _ List.mem_cons_self same

omit [DecidableEq κ] in
/-- Nothing after a node has its address. -/
theorem after_ne (distinct : ((before ++ x :: after).map addr).Nodup) :
    ∀ y ∈ after, addr y ≠ addr x := by
  rw [List.map_append, List.map_cons] at distinct
  have tail := (List.nodup_cons.mp (List.nodup_append.mp distinct).2.1).1
  exact fun y member same => tail (same ▸ List.mem_map_of_mem member)

theorem node?_here (distinct : ((before ++ x :: after).map addr).Nodup) :
    node? addr (before ++ x :: after) (addr x) = some x := by
  rw [node?, List.find?_append, List.find?_eq_none.mpr, Option.none_or]
  · exact List.find?_cons_of_pos (decide_eq_true rfl)
  · intro y member
    simpa using before_ne distinct y member

theorem next?_here (distinct : ((before ++ x :: after).map addr).Nodup) :
    next? addr (before ++ x :: after) (addr x) = after.head?.map addr := by
  induction before with
  | nil => exact if_pos rfl
  | cons y before ih =>
      rw [List.cons_append, next?, if_neg (before_ne distinct y List.mem_cons_self)]
      exact ih (List.nodup_cons.mp distinct).2

theorem write_here (distinct : ((before ++ x :: after).map addr).Nodup) (new : α) :
    write addr (before ++ x :: after) (addr x) new = before ++ new :: after := by
  have others : ∀ part : List α, (∀ y ∈ part, addr y ≠ addr x) →
      part.map (fun y => if addr y = addr x then new else y) = part := by
    intro part different
    exact List.map_congr_left (fun y member => if_neg (different y member)) |>.trans
      (List.map_id' part)
  rw [write, List.map_append, List.map_cons, if_pos rfl, others before (before_ne distinct),
    others after (after_ne distinct)]

theorem unlink_here (distinct : ((before ++ x :: after).map addr).Nodup) :
    unlink addr (before ++ x :: after) (addr x) = before ++ after := by
  rw [unlink, List.eraseP_append_right]
  · exact congrArg (before ++ ·) (List.eraseP_cons_of_pos (decide_eq_true rfl))
  · intro y member
    simpa using before_ne distinct y member

omit [DecidableEq κ] in
/-- Writing a node without changing its address keeps all addresses. -/
theorem distinct_write (distinct : ((before ++ x :: after).map addr).Nodup) {new : α}
    (same : addr new = addr x) : ((before ++ new :: after).map addr).Nodup := by
  rw [List.map_append, List.map_cons, same, ← List.map_cons, ← List.map_append]
  exact distinct

end Chain

end Nblex
