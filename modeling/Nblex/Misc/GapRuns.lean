import Mathlib.Algebra.Ring.Nat
import Mathlib.Data.List.SplitBy
import Mathlib.Data.List.Perm.Basic

/-!
# Maximal runs of a timed sequence

A sequence of times falls into maximal runs, cut where two consecutive times are a timeout or
more apart. `Tracks` relates the runs of a sequence to what a tracker holds that sees the times
one by one: the runs it has closed, in any order, and the runs it keeps open, newest first. The
lemmas say how one more time and one expiry tick change both.
-/

namespace Nblex.GapRuns

/-- Two consecutive times belong to one run. -/
def near (timeout a b : Nat) : Bool := decide (b - a < timeout)

/-- The maximal runs of a sequence of times. -/
def gapRuns (timeout : Nat) (times : List Nat) : List (List Nat) := times.splitBy (near timeout)

/-- What a tracker remembers of a run. -/
structure Summary where
  start : Nat
  last : Nat
  count : Nat
  deriving DecidableEq

/-- The summary of a run. -/
def summary (run : List Nat) : Summary where
  start := run.head?.getD 0
  last := run.getLast?.getD 0
  count := run.length

/-- A run has expired at `now` when its last time is a timeout or more ago. -/
def expired (timeout now : Nat) (s : Summary) : Bool := decide (timeout ≤ now - s.last)

variable {timeout : Nat} {times : List Nat}

/-- The summaries of the runs count every time once. -/
theorem sum_count_gapRuns {done live : List (List Nat)}
    (runs : gapRuns timeout times = done ++ live) :
    ((done.map summary).map Summary.count).sum + ((live.map summary).map Summary.count).sum =
      times.length := by
  have whole : (gapRuns timeout times).flatten = times := List.flatten_splitBy _ _
  rw [← whole, runs, List.length_flatten, List.map_append, List.sum_append, List.map_map,
    List.map_map]
  rfl

/-! ## The runs of a longer sequence -/

theorem flatten_gapRuns (timeout : Nat) (times : List Nat) :
    (gapRuns timeout times).flatten = times := List.flatten_splitBy _ _

theorem ne_nil_of_mem_gapRuns {run : List Nat} (h : run ∈ gapRuns timeout times) : run ≠ [] :=
  List.ne_nil_of_mem_splitBy h

theorem mem_of_mem_gapRuns {run : List Nat} (h : run ∈ gapRuns timeout times) {t : Nat}
    (member : t ∈ run) : t ∈ times := by
  rw [← flatten_gapRuns timeout times]
  exact List.mem_flatten_of_mem h member

/-- The sequence ends where its last run ends. -/
theorem getLast?_of_gapRuns {init : List (List Nat)} {run : List Nat}
    (h : gapRuns timeout times = init ++ [run]) : times.getLast? = run.getLast? := by
  have whole := flatten_gapRuns timeout times
  have nonempty : run ≠ [] := ne_nil_of_mem_gapRuns (h ▸ List.mem_append_right init (by simp))
  rw [h, List.flatten_append, List.flatten_singleton] at whole
  rw [← whole, List.getLast?_append_of_ne_nil _ nonempty]

/-- A time far from the last one starts a run. -/
theorem gapRuns_concat_far {t : Nat} (far : ∀ a ∈ times.getLast?, near timeout a t = false) :
    gapRuns timeout (times ++ [t]) = gapRuns timeout times ++ [[t]] := by
  unfold gapRuns
  rw [List.splitBy_append_cons [] far]
  rfl

/-- A time near the last one extends the last run. -/
theorem gapRuns_concat_near {init : List (List Nat)} {run : List Nat} {t : Nat}
    (h : gapRuns timeout times = init ++ [run])
    (close : ∀ a ∈ run.getLast?, near timeout a t = true) :
    gapRuns timeout (times ++ [t]) = init ++ [run ++ [t]] := by
  obtain ⟨whole, nonempty, chains, cuts⟩ := List.splitBy_eq_iff.mp h
  have runNonempty : run ≠ [] := ne_nil_of_mem_gapRuns (h ▸ List.mem_append_right init (by simp))
  refine List.splitBy_eq_iff.mpr ⟨?_, ?_, ?_, ?_⟩
  · rw [whole]
    simp
  · intro member
    rcases List.mem_append.mp member with member | member
    · exact nonempty (List.mem_append_left _ member)
    · simp at member
  · intro part member
    rcases List.mem_append.mp member with member | member
    · exact chains part (List.mem_append_left _ member)
    · rw [List.mem_singleton.mp member, List.isChain_append]
      refine ⟨chains run (List.mem_append_right init (by simp)), List.isChain_singleton t, ?_⟩
      intro a last b head
      rw [List.head?_singleton, Option.mem_some_iff] at head
      rw [← head]
      exact close a last
  · rw [List.isChain_append] at cuts ⊢
    refine ⟨cuts.1, List.isChain_singleton _, ?_⟩
    intro part last other head
    rw [List.head?_singleton, Option.mem_some_iff] at head
    obtain ⟨partNonempty, _, cut⟩ := cuts.2.2 part last run (by simp)
    refine ⟨partNonempty, by simp [← head], ?_⟩
    simpa [← head, List.head_append_of_ne_nil runNonempty] using cut

/-! ## Summaries -/

theorem summary_concat {run : List Nat} (nonempty : run ≠ []) (t : Nat) :
    summary (run ++ [t]) = ⟨(summary run).start, t, (summary run).count + 1⟩ := by
  simp [summary, List.head?_append_of_ne_nil _ nonempty]

theorem summary_last {run : List Nat} (nonempty : run ≠ []) :
    run.getLast? = some (summary run).last := by
  simp [summary, List.getLast?_eq_some_getLast nonempty]

theorem summary_last_mem {run : List Nat} (nonempty : run ≠ []) : (summary run).last ∈ run :=
  List.mem_of_getLast? (summary_last nonempty)

/-- In a sorted sequence the runs end one after the other, a timeout or more apart. -/
theorem gapRuns_pairwise (timeout : Nat) (sorted : times.Pairwise (· ≤ ·)) :
    (gapRuns timeout times).Pairwise (fun run later =>
      timeout ≤ (summary later).last - (summary run).last) := by
  have whole := flatten_gapRuns timeout times
  rw [← whole, List.pairwise_flatten] at sorted
  have nonempty : ∀ run ∈ gapRuns timeout times, run ≠ [] := fun run => ne_nil_of_mem_gapRuns
  have cuts := List.isChain_getLast_head_splitBy (near timeout) times
  change (gapRuns timeout times).IsChain _ at cuts
  generalize gapRuns timeout times = runs at sorted nonempty cuts
  induction runs with
  | nil => exact List.Pairwise.nil
  | cons run rest ih =>
      obtain ⟨within, between⟩ := sorted
      rw [List.pairwise_cons] at between ⊢
      have later := ih ⟨fun part member => within part (List.mem_cons_of_mem _ member), between.2⟩
        (fun part member => nonempty part (List.mem_cons_of_mem _ member)) cuts.tail
      refine ⟨?_, later⟩
      cases rest with
      | nil => simp
      | cons next rest =>
          -- The next run starts a timeout after this one ends, and every later one ends after.
          obtain ⟨⟨lastNe, headNe, cut⟩, -⟩ := List.isChain_cons_cons.mp cuts
          simp only [near, decide_eq_false_iff_not, Nat.not_lt] at cut
          have runNe := nonempty run List.mem_cons_self
          have lastEq : run.getLast lastNe = (summary run).last := by
            simp [summary, List.getLast?_eq_some_getLast lastNe]
          rw [lastEq] at cut
          intro part member
          have partLast := summary_last_mem (nonempty part (List.mem_cons_of_mem _ member))
          have after : next.head headNe ≤ (summary part).last := by
            rcases List.mem_cons.mp member with rfl | member
            · have sortedPart := within part (by simp)
              obtain ⟨first, others, rfl⟩ := List.exists_cons_of_ne_nil headNe
              rcases List.mem_cons.mp partLast with same | inside
              · exact Nat.le_of_eq same.symm
              · exact (List.pairwise_cons.mp sortedPart).1 _ inside
            · exact (List.pairwise_cons.mp between.2).1 part member _ (List.head_mem headNe) _
                partLast
          omega

/-! ## Trackers -/

/-- The runs of `times` are the closed ones, in any order, followed by the open ones, newest
    first; and every closed run had expired at one of the ticks. -/
def Tracks (timeout : Nat) (times ticks : List Nat) (closed opened : List Summary) : Prop :=
  ∃ done live, gapRuns timeout times = done ++ live ∧
    closed.Perm (done.map summary) ∧ opened = (live.map summary).reverse ∧
    ∀ s ∈ closed, ∃ now ∈ ticks, timeout ≤ now - s.last

variable {ticks : List Nat} {closed opened : List Summary}

theorem Tracks.nil (timeout : Nat) : Tracks timeout [] [] [] [] :=
  ⟨[], [], rfl, List.Perm.refl _, rfl, by simp⟩

theorem Tracks.count_pos (tracks : Tracks timeout times ticks closed opened) {s : Summary}
    (member : s ∈ opened) : 0 < s.count := by
  obtain ⟨done, live, runs, -, rfl, -⟩ := tracks
  obtain ⟨run, inside, rfl⟩ := List.mem_map.mp (List.mem_reverse.mp member)
  exact List.length_pos_of_ne_nil
    (ne_nil_of_mem_gapRuns (runs ▸ List.mem_append_right done inside))

theorem Tracks.last_mem (tracks : Tracks timeout times ticks closed opened) {s : Summary}
    (member : s ∈ opened) : s.last ∈ times := by
  obtain ⟨done, live, runs, -, rfl, -⟩ := tracks
  obtain ⟨run, inside, rfl⟩ := List.mem_map.mp (List.mem_reverse.mp member)
  have isRun : run ∈ gapRuns timeout times := runs ▸ List.mem_append_right done inside
  exact mem_of_mem_gapRuns isRun (summary_last_mem (ne_nil_of_mem_gapRuns isRun))

theorem Tracks.pairwise (tracks : Tracks timeout times ticks closed opened)
    (sorted : times.Pairwise (· ≤ ·)) :
    opened.Pairwise (fun s older => timeout ≤ s.last - older.last) := by
  obtain ⟨done, live, runs, -, rfl, -⟩ := tracks
  have apart := gapRuns_pairwise timeout sorted
  rw [runs] at apart
  rw [List.pairwise_reverse, List.pairwise_map]
  exact (List.pairwise_append.mp apart).2.1

/-- Only the newest open run can be near a time that comes later. -/
theorem Tracks.rest_far {s : Summary} {rest : List Summary}
    (tracks : Tracks timeout times ticks closed (s :: rest))
    (sorted : times.Pairwise (· ≤ ·)) {t : Nat} (later : ∀ a ∈ times, a ≤ t) :
    ∀ older ∈ rest, timeout ≤ t - older.last := by
  intro older member
  have apart := (List.pairwise_cons.mp (tracks.pairwise sorted)).1 older member
  have bound := later s.last (tracks.last_mem List.mem_cons_self)
  omega

/-- A time near the newest open run extends it. -/
theorem Tracks.extend {s : Summary} {rest : List Summary}
    (tracks : Tracks timeout times ticks closed (s :: rest)) {t : Nat}
    (close : t - s.last < timeout) :
    Tracks timeout (times ++ [t]) ticks closed (⟨s.start, t, s.count + 1⟩ :: rest) := by
  obtain ⟨done, live, runs, perm, openedEq, expiredAt⟩ := tracks
  rcases List.eq_nil_or_concat live with rfl | ⟨init, run, rfl⟩
  · simp at openedEq
  · rw [List.concat_eq_append] at runs openedEq
    simp only [List.map_append, List.map_cons, List.map_nil, List.reverse_append,
      List.reverse_singleton, List.singleton_append, List.cons.injEq] at openedEq
    obtain ⟨rfl, rfl⟩ := openedEq
    rw [← List.append_assoc] at runs
    have runNe : run ≠ [] := ne_nil_of_mem_gapRuns (runs ▸ List.mem_append_right _ (by simp))
    have longer : gapRuns timeout (times ++ [t]) = (done ++ init) ++ [run ++ [t]] := by
      apply gapRuns_concat_near runs
      intro a last
      rw [summary_last runNe, Option.mem_some_iff] at last
      rw [← last]
      exact decide_eq_true close
    refine ⟨done, init ++ [run ++ [t]], ?_, perm, ?_, expiredAt⟩
    · rw [longer, List.append_assoc]
    · simp [summary_concat runNe]

/-- A time near no open run, and past every tick, opens a run. -/
theorem Tracks.start (tracks : Tracks timeout times ticks closed opened) {t : Nat}
    (afterTicks : ∀ now ∈ ticks, now ≤ t) (far : ∀ s ∈ opened, timeout ≤ t - s.last) :
    Tracks timeout (times ++ [t]) ticks closed (⟨t, t, 1⟩ :: opened) := by
  obtain ⟨done, live, runs, perm, openedEq, expiredAt⟩ := tracks
  have longer : gapRuns timeout (times ++ [t]) = gapRuns timeout times ++ [[t]] := by
    apply gapRuns_concat_far
    intro a last
    rcases List.eq_nil_or_concat (gapRuns timeout times) with none | ⟨init, run, whole⟩
    · have empty := flatten_gapRuns timeout times
      rw [none] at empty
      rw [← empty] at last
      cases last
    · rw [List.concat_eq_append] at whole
      have isRun : run ∈ gapRuns timeout times := whole ▸ List.mem_append_right init (by simp)
      rw [getLast?_of_gapRuns whole, summary_last (ne_nil_of_mem_gapRuns isRun),
        Option.mem_some_iff] at last
      rw [← last]
      apply decide_eq_false
      rw [runs] at isRun
      rcases List.mem_append.mp isRun with inDone | inLive
      · obtain ⟨now, tick, old⟩ := expiredAt _ (perm.mem_iff.mpr (List.mem_map_of_mem inDone))
        have bound := afterTicks now tick
        omega
      · have apart := far (summary run) (by
          rw [openedEq]
          exact List.mem_reverse.mpr (List.mem_map_of_mem inLive))
        omega
  refine ⟨done, live ++ [[t]], ?_, perm, ?_, expiredAt⟩
  · rw [longer, runs, List.append_assoc]
  · rw [openedEq]
    simp [summary]

/-- What a time does to the open runs: it extends the newest one, or opens one when all of them
    are too old. -/
inductive Arrival (timeout t : Nat) : List Summary → List Summary → Prop
  | joins {s : Summary} {rest : List Summary} (close : t - s.last < timeout) :
      Arrival timeout t (s :: rest) (⟨s.start, t, s.count + 1⟩ :: rest)
  | opens {opened : List Summary} (far : ∀ s ∈ opened, timeout ≤ t - s.last) :
      Arrival timeout t opened (⟨t, t, 1⟩ :: opened)

theorem Tracks.arrive (tracks : Tracks timeout times ticks closed opened) {t : Nat}
    {opened' : List Summary} (arrival : Arrival timeout t opened opened')
    (afterTicks : ∀ now ∈ ticks, now ≤ t) :
    Tracks timeout (times ++ [t]) ticks closed opened' := by
  cases arrival with
  | joins close => exact tracks.extend close
  | opens far => exact tracks.start afterTicks far

/-- Where a property only gets lost along a list, the elements that have it come first. -/
theorem filter_append_filter_not {α : Type} {p : α → Bool} :
    ∀ {xs : List α}, xs.Pairwise (fun a b => p b = true → p a = true) →
      xs.filter p ++ xs.filter (fun a => !p a) = xs := by
  intro xs
  induction xs with
  | nil =>
      intro pairwise
      rfl
  | cons x xs ih =>
      intro pairwise
      obtain ⟨first, rest⟩ := List.pairwise_cons.mp pairwise
      by_cases holds : p x = true
      · rw [List.filter_cons_of_pos holds, List.filter_cons_of_neg (by simp [holds]),
          List.cons_append, ih rest]
      · have none : xs.filter p = [] := by
          rw [List.filter_eq_nil_iff]
          intro y member later
          exact holds (first y member later)
        have all : xs.filter (fun a => !p a) = xs := by
          rw [List.filter_eq_self]
          intro y member
          by_contra later
          exact holds (first y member (by simpa using later))
        rw [List.filter_cons_of_neg holds, List.filter_cons_of_pos (by simp [holds]), none, all,
          List.nil_append]

/-- A tick closes the open runs that have expired. -/
theorem Tracks.expire (tracks : Tracks timeout times ticks closed opened)
    (sorted : times.Pairwise (· ≤ ·)) (now : Nat) :
    Tracks timeout times (ticks ++ [now]) (closed ++ opened.filter (expired timeout now))
      (opened.filter (fun s => !expired timeout now s)) := by
  obtain ⟨done, live, runs, perm, openedEq, expiredAt⟩ := tracks
  have apart := gapRuns_pairwise timeout sorted
  rw [runs] at apart
  -- Runs end in their order, so an expired run has only expired ones before it.
  have split : live.filter (expired timeout now ∘ summary) ++
      live.filter (fun run => !(expired timeout now ∘ summary) run) = live := by
    apply filter_append_filter_not
    refine (List.pairwise_append.mp apart).2.1.imp ?_
    intro run later gap old
    simp only [Function.comp_apply, expired, decide_eq_true_eq] at old ⊢
    omega
  refine ⟨done ++ live.filter (expired timeout now ∘ summary),
    live.filter (fun run => !(expired timeout now ∘ summary) run), ?_, ?_, ?_, ?_⟩
  · rw [runs, List.append_assoc, split]
  · rw [List.map_append, openedEq, List.filter_reverse, List.filter_map]
    exact perm.append (List.reverse_perm _)
  · rw [openedEq, List.filter_reverse, List.filter_map]
    rfl
  · intro s member
    rcases List.mem_append.mp member with member | member
    · obtain ⟨tick, inside, old⟩ := expiredAt s member
      exact ⟨tick, List.mem_append_left _ inside, old⟩
    · refine ⟨now, List.mem_append_right _ (by simp), ?_⟩
      exact of_decide_eq_true (List.mem_filter.mp member).2

end Nblex.GapRuns
