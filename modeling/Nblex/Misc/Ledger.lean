import Mathlib.Data.List.Count
import Mathlib.Tactic.Common

/-!
# Ledgers of handles

A ledger issues handles, each once, and counts how often a handle has been released. What happens
to a ledger is described by the handles it spends: the releases of handles that were issued
before. Releases of handles that are issued on the way do not count.
-/

namespace Nblex

/-- The next handle to issue and the releases so far, the last one first. -/
structure Ledger where
  next : Nat
  releases : List Nat
  issued : ∀ handle ∈ releases, handle < next

namespace Ledger

/-- A ledger that has issued nothing. -/
def empty : Ledger := ⟨0, [], nofun⟩

/-- The ledger after it has issued the handle `next`. -/
def issue (ledger : Ledger) : Ledger where
  next := ledger.next + 1
  releases := ledger.releases
  issued := fun handle member => Nat.lt_succ_of_lt (ledger.issued handle member)

/-- A release; there is none of a handle that was never issued. -/
def release (ledger : Ledger) (handle : Nat) : Ledger :=
  if known : handle < ledger.next then
    { ledger with
      releases := handle :: ledger.releases
      issued := List.forall_mem_cons.mpr ⟨known, ledger.issued⟩ }
  else ledger

/-- How often a handle has been released. -/
def released (ledger : Ledger) (handle : Nat) : Nat := ledger.releases.count handle

@[simp] theorem issue_next (ledger : Ledger) : ledger.issue.next = ledger.next + 1 := rfl

@[simp] theorem issue_released (ledger : Ledger) (handle : Nat) :
    ledger.issue.released handle = ledger.released handle := rfl

@[simp] theorem release_next (ledger : Ledger) (handle : Nat) :
    (ledger.release handle).next = ledger.next := by
  unfold release
  split <;> rfl

theorem released_of_le {ledger : Ledger} {handle : Nat} (fresh : ledger.next ≤ handle) :
    ledger.released handle = 0 :=
  List.count_eq_zero.mpr (fun member => Nat.not_lt.mpr fresh (ledger.issued handle member))

theorem release_released {ledger : Ledger} {handle : Nat} (known : handle < ledger.next)
    (other : Nat) :
    (ledger.release handle).released other = ledger.released other + [handle].count other := by
  rw [release, dif_pos known, released, released, List.count_singleton, List.count_cons]

/-- From `before` to `after` the handles issued before are released as often as `gone` lists
    them. -/
structure Spends (before after : Ledger) (gone : List Nat) : Prop where
  next_le : before.next ≤ after.next
  released_eq : ∀ handle < before.next,
    after.released handle = before.released handle + gone.count handle

namespace Spends

theorem refl (ledger : Ledger) : Spends ledger ledger [] :=
  ⟨Nat.le_refl _, fun _ _ => rfl⟩

theorem trans {first second third : Ledger} {gone gone' : List Nat}
    (left : Spends first second gone) (right : Spends second third gone') :
    Spends first third (gone ++ gone') where
  next_le := Nat.le_trans left.next_le right.next_le
  released_eq := by
    intro handle known
    rw [right.released_eq handle (Nat.lt_of_lt_of_le known left.next_le),
      left.released_eq handle known, List.count_append, Nat.add_assoc]

theorem issue (ledger : Ledger) : Spends ledger ledger.issue [] :=
  ⟨Nat.le_succ _, fun _ _ => rfl⟩

theorem release {ledger : Ledger} {handle : Nat} (known : handle < ledger.next) :
    Spends ledger (ledger.release handle) [handle] :=
  ⟨Nat.le_of_eq (release_next ledger handle).symm, fun other _ => release_released known other⟩

/-- The releases of handles that were issued on the way are left out. -/
theorem own {before after : Ledger} {gone : List Nat} (spends : Spends before after gone)
    (fresh : ∀ handle ∈ gone, before.next ≤ handle) : Spends before after [] where
  next_le := spends.next_le
  released_eq := by
    intro handle known
    have absent : handle ∉ gone := fun member =>
      Nat.not_lt.mpr (fresh handle member) known
    rw [spends.released_eq handle known, List.count_eq_zero.mpr absent, List.count_nil]

end Spends

end Ledger

end Nblex
