import Mathlib.Data.List.Nodup
import Mathlib.Logic.Function.Basic

/-!
# Linked lists in a memory

The cells of singly linked lists, each at an address of its own. A link is the variable that
holds the first address of a list, or the `next` field of a cell; a loop that takes cells out of a
list walks the links, as C code does with a pointer to a pointer. Reading a free address gives
`none`.
-/

namespace Nblex

namespace LinkedMemory

/-- A cell of a list. -/
structure Cell (α : Type) where
  value : α
  next : Option Nat

/-- The cells at their addresses. -/
abbrev Memory (α : Type) := Nat → Option (Cell α)

/-- A place that holds the address of a cell, or a null pointer. -/
inductive Link where
  | head
  | next (address : Nat)

/-- A list in a memory: the variable that holds its first address, and the memory. -/
structure Rooted (α : Type) where
  head : Option Nat
  memory : Memory α

variable {α : Type}

/-- Read a link. -/
def Rooted.load (list : Rooted α) : Link → Option (Option Nat)
  | .head => some list.head
  | .next address => (list.memory address).map Cell.next

/-- Write a link. -/
def Rooted.store (list : Rooted α) (link : Link) (pointer : Option Nat) : Rooted α :=
  match link with
  | .head => { list with head := pointer }
  | .next address =>
      { list with
        memory := Function.update list.memory address
          ((list.memory address).map (fun cell => { cell with next := pointer })) }

/-- Give a cell back. -/
def Rooted.release (list : Rooted α) (address : Nat) : Rooted α :=
  { list with memory := Function.update list.memory address none }

/-- The list that a pointer leads to: the address and the value of each cell. -/
def Spans (memory : Memory α) : Option Nat → List (Nat × α) → Prop
  | pointer, [] => pointer = none
  | pointer, (address, value) :: rest =>
      pointer = some address ∧
        ∃ next, memory address = some ⟨value, next⟩ ∧ Spans memory next rest

/-- The addresses of the cells of a list. -/
def addresses (cells : List (Nat × α)) : List Nat := cells.map Prod.fst

/-- The values of the cells of a list. -/
def values (cells : List (Nat × α)) : List α := cells.map Prod.snd

@[simp] theorem addresses_nil : addresses ([] : List (Nat × α)) = [] := rfl

@[simp] theorem addresses_cons (cell : Nat × α) (rest : List (Nat × α)) :
    addresses (cell :: rest) = cell.1 :: addresses rest := rfl

@[simp] theorem addresses_append (front back : List (Nat × α)) :
    addresses (front ++ back) = addresses front ++ addresses back := List.map_append

@[simp] theorem values_nil : values ([] : List (Nat × α)) = [] := rfl

@[simp] theorem values_cons (cell : Nat × α) (rest : List (Nat × α)) :
    values (cell :: rest) = cell.2 :: values rest := rfl

theorem mem_addresses_of_filter {keep : Nat × α → Bool} {cells : List (Nat × α)} {address : Nat}
    (member : address ∈ addresses (cells.filter keep)) : address ∈ addresses cells := by
  obtain ⟨cell, kept, rfl⟩ := List.mem_map.mp member
  exact List.mem_map_of_mem (List.mem_filter.mp kept).1

/-- Filtering by the values is filtering the values. -/
theorem values_filter (keep : α → Bool) (cells : List (Nat × α)) :
    values (cells.filter (fun cell => keep cell.2)) = (values cells).filter keep := by
  rw [values, values, List.filter_map]
  rfl

/-! ## What a list depends on -/

/-- A list depends on the memory at its own addresses only. -/
theorem Spans.frame {memory memory' : Memory α} : ∀ {cells : List (Nat × α)}
    {pointer : Option Nat}, Spans memory pointer cells →
    (∀ address ∈ addresses cells, memory' address = memory address) →
    Spans memory' pointer cells := by
  intro cells
  induction cells with
  | nil =>
      intro pointer spans _
      exact spans
  | cons cell rest ih =>
      rintro pointer ⟨rfl, next, here, spans⟩ same
      refine ⟨rfl, next, ?_, ih spans ?_⟩
      · rw [same cell.1 List.mem_cons_self]
        exact here
      · intro address member
        exact same address (List.mem_cons_of_mem _ member)

/-- The cells of a list are taken. -/
theorem Spans.taken {memory : Memory α} : ∀ {cells : List (Nat × α)} {pointer : Option Nat},
    Spans memory pointer cells → ∀ address ∈ addresses cells, memory address ≠ none := by
  intro cells
  induction cells with
  | nil =>
      intro pointer _ address member
      cases member
  | cons cell rest ih =>
      rintro pointer ⟨rfl, next, here, spans⟩ address member
      rcases List.mem_cons.mp member with rfl | later
      · rw [here]
        exact Option.some_ne_none _
      · exact ih spans address later

/-- A list outlives a write to a free address. -/
theorem Spans.update {memory : Memory α} {cells : List (Nat × α)} {pointer : Option Nat}
    (spans : Spans memory pointer cells) {address : Nat} (free : memory address = none)
    (cell : Option (Cell α)) : Spans (Function.update memory address cell) pointer cells := by
  refine spans.frame ?_
  intro other member
  refine Function.update_of_ne ?_ _ _
  rintro rfl
  exact spans.taken other member free

/-- A cell put in front of a list, at a free address. -/
theorem Spans.push {memory : Memory α} {cells : List (Nat × α)} {pointer : Option Nat}
    (spans : Spans memory pointer cells) {address : Nat} (free : memory address = none)
    (value : α) :
    Spans (Function.update memory address (some ⟨value, pointer⟩)) (some address)
      ((address, value) :: cells) :=
  ⟨rfl, pointer, Function.update_self _ _ _, spans.update free _⟩

/-! ## Taking cells out -/

/-- The address of the cell a link is a field of. -/
def Link.owner : Link → Option Nat
  | .head => none
  | .next address => some address

section Store

variable {list : Rooted α} {link : Link} {pointer : Option Nat}

@[simp] theorem store_store (first second : Option Nat) :
    (list.store link first).store link second = list.store link second := by
  cases link with
  | head => rfl
  | next address =>
      have twice : ∀ cell : Option (Cell α),
          (cell.map (fun cell => { cell with next := first })).map
            (fun cell => { cell with next := second }) =
          cell.map (fun cell => { cell with next := second }) := by
        intro cell
        cases cell with
        | none => rfl
        | some cell => rfl
      simp only [Rooted.store, Function.update_idem, Function.update_self, twice]

/-- Writing back what is read changes nothing. -/
theorem store_load (reads : list.load link = some pointer) : list.store link pointer = list := by
  cases link with
  | head =>
      obtain rfl : list.head = pointer := Option.some.inj reads
      rfl
  | next address =>
      obtain ⟨cell, here, rfl⟩ := Option.map_eq_some_iff.mp reads
      have same : (list.memory address).map (fun old => { old with next := cell.next }) =
          list.memory address := by
        rw [here]
        rfl
      rw [Rooted.store, same, Function.update_eq_self]

theorem store_memory_of_ne {address : Nat} (other : link.owner ≠ some address) :
    (list.store link pointer).memory address = list.memory address := by
  cases link with
  | head => rfl
  | next owner =>
      refine Function.update_of_ne ?_ _ _
      rintro rfl
      exact other rfl

/-- What is written can be read, if the link was there. -/
theorem load_store {old : Option Nat} (reads : list.load link = some old) :
    (list.store link pointer).load link = some pointer := by
  cases link with
  | head => rfl
  | next address =>
      obtain ⟨cell, here, -⟩ := Option.map_eq_some_iff.mp reads
      simp only [Rooted.store, Rooted.load, Function.update_self, here, Option.map_some]

/-- Giving back another cell does not change what a link holds. -/
theorem load_release {address : Nat} (other : link.owner ≠ some address) :
    (list.release address).load link = list.load link := by
  cases link with
  | head => rfl
  | next owner =>
      have apart : owner ≠ address := by
        rintro rfl
        exact other rfl
      simp only [Rooted.load, Rooted.release, Function.update_of_ne apart]

/-- Giving back another cell and writing a link can be done in either order. -/
theorem store_release {address : Nat} (other : link.owner ≠ some address) :
    (list.release address).store link pointer = (list.store link pointer).release address := by
  cases link with
  | head => rfl
  | next owner =>
      have apart : owner ≠ address := by
        rintro rfl
        exact other rfl
      simp only [Rooted.store, Rooted.release, Function.update_of_ne apart,
        Function.update_comm apart]

theorem release_memory_of_ne {address released : Nat} (other : address ≠ released) :
    (list.release released).memory address = list.memory address :=
  Function.update_of_ne other _ _

end Store

/-- The cells behind a link: the link is not a field of one of them. -/
structure Behind (list : Rooted α) (link : Link) (cells : List (Nat × α)) : Prop where
  spans : ∃ pointer, list.load link = some pointer ∧ Spans list.memory pointer cells
  distinct : (addresses cells).Nodup
  apart : ∀ address ∈ addresses cells, link.owner ≠ some address

/-- The cells behind a link have become others, and nothing else in the memory has changed. -/
def Replaces (list : Rooted α) (link : Link) (cells kept : List (Nat × α)) (list' : Rooted α) :
    Prop :=
  ∃ pointer, list'.head = (list.store link pointer).head ∧
    (∀ address, address ∉ addresses cells →
      list'.memory address = (list.store link pointer).memory address) ∧
    Spans list'.memory pointer kept

section Behind

variable {list list' : Rooted α} {link : Link} {address : Nat} {value : α}
  {cells kept : List (Nat × α)}

theorem Behind.nil (behind : Behind list link []) : list.load link = some none := by
  obtain ⟨pointer, reads, spans⟩ := behind.spans
  obtain rfl : pointer = none := spans
  exact reads

/-- The first cell behind a link, with the link in it. -/
theorem Behind.cons (behind : Behind list link ((address, value) :: cells)) :
    list.load link = some (some address) ∧
      ∃ next, list.memory address = some ⟨value, next⟩ ∧ Spans list.memory next cells := by
  obtain ⟨pointer, reads, rfl, next, here, spans⟩ := behind.spans
  exact ⟨reads, next, here, spans⟩

theorem Behind.first_apart (behind : Behind list link ((address, value) :: cells)) :
    link.owner ≠ some address ∧ address ∉ addresses cells :=
  ⟨behind.apart address List.mem_cons_self, (List.nodup_cons.mp behind.distinct).1⟩

/-- The cells that are left behind a link whose first cell is taken out. -/
theorem Behind.drop (behind : Behind list link ((address, value) :: cells)) {next : Option Nat}
    (here : list.memory address = some ⟨value, next⟩) :
    Behind ((list.store link next).release address) link cells := by
  obtain ⟨reads, next', here', spans⟩ := behind.cons
  obtain ⟨notOwner, notLater⟩ := behind.first_apart
  obtain rfl : next' = next := by
    rw [here'] at here
    exact (Cell.mk.inj (Option.some.inj here)).2
  refine ⟨⟨next', ?_, ?_⟩, (List.nodup_cons.mp behind.distinct).2, ?_⟩
  · rw [load_release notOwner]
    exact load_store reads
  · refine spans.frame ?_
    intro other member
    have different : other ≠ address := by
      rintro rfl
      exact notLater member
    rw [release_memory_of_ne different]
    exact store_memory_of_ne (behind.apart other (List.mem_cons_of_mem _ member))
  · intro other member
    exact behind.apart other (List.mem_cons_of_mem _ member)

/-- The cells behind the first cell. -/
theorem Behind.keep (behind : Behind list link ((address, value) :: cells)) :
    Behind list (.next address) cells := by
  obtain ⟨-, next, here, spans⟩ := behind.cons
  refine ⟨⟨next, ?_, spans⟩, (List.nodup_cons.mp behind.distinct).2, ?_⟩
  · rw [Rooted.load, here]
    rfl
  · rintro other member same
    obtain rfl := Option.some.inj same
    exact behind.first_apart.2 member

theorem replaces_nil (behind : Behind list link []) : Replaces list link [] [] list := by
  refine ⟨none, ?_, ?_, rfl⟩
  · rw [store_load behind.nil]
  · intro other _
    rw [store_load behind.nil]

/-- Taking the first cell out, and then replacing the others. -/
theorem Replaces.drop (behind : Behind list link ((address, value) :: cells))
    {next : Option Nat}
    (rest : Replaces ((list.store link next).release address) link cells kept list') :
    Replaces list link ((address, value) :: cells) kept list' := by
  obtain ⟨pointer, head, outside, spans⟩ := rest
  have stores : ((list.store link next).release address).store link pointer =
      (list.store link pointer).release address := by
    rw [store_release behind.first_apart.1, store_store]
  rw [stores] at head outside
  refine ⟨pointer, head, ?_, spans⟩
  intro other outsideAll
  rw [addresses_cons, List.mem_cons, not_or] at outsideAll
  rw [outside other outsideAll.2, release_memory_of_ne outsideAll.1]

/-- Keeping the first cell, and replacing the others behind it. -/
theorem Replaces.keep (behind : Behind list link ((address, value) :: cells))
    (rest : Replaces list (.next address) cells kept list') :
    Replaces list link ((address, value) :: cells) ((address, value) :: kept) list' := by
  obtain ⟨reads, next, here, -⟩ := behind.cons
  obtain ⟨pointer, head, outside, spans⟩ := rest
  refine ⟨some address, ?_, ?_, rfl, pointer, ?_, spans⟩
  · rw [store_load reads]
    exact head
  · intro other outsideAll
    rw [addresses_cons, List.mem_cons, not_or] at outsideAll
    rw [outside other outsideAll.2, store_load reads]
    exact store_memory_of_ne (fun same => outsideAll.1 (Option.some.inj same).symm)
  · rw [outside address behind.first_apart.2]
    simp [Rooted.store, here]

/-- Cells of another list are where they were. -/
theorem Replaces.frame (replaced : Replaces list .head cells kept list')
    {others : List (Nat × α)} {pointer : Option Nat} (spans : Spans list.memory pointer others)
    (apart : ∀ address ∈ addresses others, address ∉ addresses cells) :
    Spans list'.memory pointer others := by
  obtain ⟨_, _, outside, _⟩ := replaced
  exact spans.frame (fun address member => outside address (apart address member))

theorem Replaces.spans (replaced : Replaces list .head cells kept list') :
    Spans list'.memory list'.head kept := by
  obtain ⟨pointer, head, _, spans⟩ := replaced
  rw [head]
  exact spans

end Behind

end LinkedMemory

end Nblex
