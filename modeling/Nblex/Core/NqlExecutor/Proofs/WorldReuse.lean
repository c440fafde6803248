import Nblex.Core.NqlExecutor.Process
import Nblex.Core.NqlExecutor.Proofs.ExecutorKeeps
import Nblex.Misc.Guarded

/-!
# Worlds that are freed

`nblex_exec_contexts_shutdown_world` closes the timers of a world and keeps its contexts, which a
world created later at the same address obtains. No context refers to a freed world, and every
query starts with an empty state and a timer of its own, exactly as long as no world is freed in
which a query has asked for a state.
-/

namespace Nblex

/-! ## Where the states come from -/

/-- The first time a query asks for a state in a world, the state is empty. -/
def StartsEmpty (lookups : List Lookup) : Prop :=
  ∀ before lookup after, lookups = before ++ lookup :: after →
    (∀ earlier ∈ before, earlier.request.queryStr = lookup.request.queryStr →
      earlier.request.world ≠ lookup.request.world) →
    lookup.ctx.state.IsEmpty

/-- The state at an address belongs to a context of the world. -/
def Executor.Holds (exec : Executor) (addr : Nat) (world : WorldRef) : Prop :=
  ∃ ctx ∈ exec.contexts, ctx.addr = addr ∧ ctx.world = world

/-- Every context belongs to one of the worlds and was created by a request made in that world, and
    every request was given a context of its own world. -/
structure Traced (live : List WorldRef) (exec : Executor) : Prop where
  world : ∀ ctx ∈ exec.contexts, ctx.world ∈ live
  creator : ∀ ctx ∈ exec.contexts, ctx.creator.world = ctx.world ∧
    ctx.creator.queryStr = ctx.queryString ∧ ctx.creator ∈ exec.lookups.map Lookup.request
  empty : StartsEmpty exec.lookups
  given : ∀ lookup ∈ exec.lookups, exec.Holds lookup.ctx.addr lookup.request.world

theorem StartsEmpty.snoc {lookups : List Lookup} (empty : StartsEmpty lookups)
    {lookup : Lookup}
    (last : (∀ earlier ∈ lookups, earlier.request.queryStr = lookup.request.queryStr →
      earlier.request.world ≠ lookup.request.world) → lookup.ctx.state.IsEmpty) :
    StartsEmpty (lookups ++ [lookup]) := by
  intro before other after split first
  rcases List.eq_nil_or_concat after with rfl | ⟨rest, final, rfl⟩
  · obtain ⟨rfl, same⟩ := List.append_inj' split rfl
    obtain rfl : lookup = other := List.head_eq_of_cons_eq same
    exact last first
  · rw [List.concat_eq_append, ← List.cons_append, ← List.append_assoc] at split
    obtain ⟨rfl, -⟩ := List.append_inj' split rfl
    exact empty before other rest rfl first

theorem Executor.Holds.setState {exec : Executor} {addr : Nat} {world : WorldRef}
    (holds : exec.Holds addr world) (target : Nat) (state : ExecState) :
    (exec.setState target state).Holds addr world := by
  obtain ⟨ctx, inside, same, owner⟩ := holds
  refine ⟨_, List.mem_map_of_mem (f := _) inside, ?_, ?_⟩
  · rw [← same]
    split <;> rfl
  · rw [← owner]
    split <;> rfl

theorem Traced.setState {live : List WorldRef} {exec : Executor} (traced : Traced live exec)
    (addr : Nat) (state : ExecState) : Traced live (exec.setState addr state) where
  world := by
    intro ctx member
    obtain ⟨old, inside, rfl⟩ := List.mem_map.mp member
    have here := traced.world old inside
    split <;> exact here
  creator := by
    intro ctx member
    obtain ⟨old, inside, rfl⟩ := List.mem_map.mp member
    have here := traced.creator old inside
    split <;> exact here
  empty := traced.empty
  given := fun lookup member => (traced.given lookup member).setState addr state

theorem Traced.emit {live : List WorldRef} {exec : Executor} (traced : Traced live exec)
    (results : List ExecResult) : Traced live (exec.emit results) :=
  ⟨traced.world, traced.creator, traced.empty, traced.given⟩

/-- The worlds at different addresses. -/
def AddrsDistinct (live : List WorldRef) : Prop :=
  ∀ w ∈ live, ∀ w' ∈ live, w.addr = w'.addr → w = w'

/-- A lookup in one of the worlds ends in a context of that world. -/
theorem Traced.getState {live : List WorldRef} {exec : Executor} (traced : Traced live exec)
    (distinct : AddrsDistinct live) {text : String} {world : WorldRef} (inside : world ∈ live)
    (stage : Nat) {newState : ExecState} (empty : newState.IsEmpty) :
    Traced live (getState exec ⟨some text, world, stage⟩ newState).1 := by
  unfold Nblex.getState
  cases search : findCtx exec.contexts world (some text) with
  | some ctx =>
      obtain ⟨member, key⟩ := findCtx_some search
      obtain ⟨query, addr⟩ := Prod.mk.inj key
      have owner : ctx.world = world := distinct _ (traced.world ctx member) _ inside addr
      obtain ⟨sameWorld, sameText, asked⟩ := traced.creator ctx member
      refine ⟨traced.world, ?_, traced.empty.snoc ?_, ?_⟩
      · intro other here
        obtain ⟨ofWorld, ofText, made⟩ := traced.creator other here
        rw [List.map_append]
        exact ⟨ofWorld, ofText, List.mem_append_left _ made⟩
      · -- the context was created by an earlier request of the same query in the same world
        intro first
        obtain ⟨earlier, before, same⟩ := List.mem_map.mp asked
        have sameQuery : earlier.request.queryStr = some text := by
          rw [same, sameText, query]
        exact absurd (by rw [same, sameWorld, owner]) (first earlier before sameQuery)
      · intro lookup here
        rcases List.mem_append.mp here with before | last
        · exact traced.given lookup before
        · obtain rfl := List.mem_singleton.mp last
          exact ⟨ctx, member, rfl, owner⟩
  | none =>
      refine ⟨List.forall_mem_cons.mpr ⟨inside, traced.world⟩, ?_, traced.empty.snoc ?_, ?_⟩
      · refine List.forall_mem_cons.mpr ⟨⟨rfl, rfl, ?_⟩, ?_⟩
        · rw [List.map_append]
          exact List.mem_append_right _ List.mem_cons_self
        · intro other here
          obtain ⟨ofWorld, ofText, made⟩ := traced.creator other here
          rw [List.map_append]
          exact ⟨ofWorld, ofText, List.mem_append_left _ made⟩
      · exact fun _ => empty
      · intro lookup here
        rcases List.mem_append.mp here with before | last
        · obtain ⟨ctx, member, same⟩ := traced.given lookup before
          exact ⟨ctx, List.mem_cons_of_mem _ member, same⟩
        · obtain rfl := List.mem_singleton.mp last
          exact ⟨_, List.mem_cons_self, rfl, rfl⟩

theorem Executor.Holds.getState {exec : Executor} {addr : Nat} {world : WorldRef}
    (holds : exec.Holds addr world) (request : StageRequest) (newState : ExecState) :
    (getState exec request newState).1.Holds addr world := by
  unfold Nblex.getState
  cases findCtx exec.contexts request.world request.queryStr with
  | some ctx => exact holds
  | none =>
      obtain ⟨ctx, member, same⟩ := holds
      exact ⟨ctx, List.mem_cons_of_mem _ member, same⟩

theorem getState_lookups (exec : Executor) (request : StageRequest) (newState : ExecState) :
    exec.lookups <+: (getState exec request newState).1.lookups := by
  unfold getState
  cases findCtx exec.contexts request.world request.queryStr with
  | some ctx => exact List.prefix_append _ _
  | none => exact List.prefix_append _ _

/-! ## Timers -/

/-- Every timer is open and runs on the loop of the world its state belongs to. -/
def TimersOwned (exec : Executor) (timers : List StateTimer) : Prop :=
  ∀ timer ∈ timers, timer.closed = false ∧ exec.Holds timer.state timer.world

/-- The demand is met by an open timer. -/
def MetBy (timers : List StateTimer) (demand : Nat × WorldRef) : Prop :=
  ∃ timer ∈ timers, timer.state = demand.1 ∧ timer.world = demand.2 ∧ timer.closed = false

theorem ensureTimer_spec {exec : Executor}
    (unique : ∀ addr world world', exec.Holds addr world → exec.Holds addr world' →
      world = world')
    (started : Bool) {lookup : Lookup} (given : exec.Holds lookup.ctx.addr lookup.request.world)
    {timers : List StateTimer} (owned : TimersOwned exec timers) :
    TimersOwned exec (ensureTimer started timers lookup) ∧
      timers ⊆ ensureTimer started timers lookup ∧
      ∀ demand ∈ timerDemand started lookup,
        MetBy (ensureTimer started timers lookup) demand := by
  unfold ensureTimer timerDemand
  by_cases timed : (started && lookup.ctx.state.isTimed) = true
  · rw [timed, Bool.true_and, if_pos rfl]
    by_cases missing : timers.all (fun timer => decide (timer.state ≠ lookup.ctx.addr)) = true
    · rw [if_pos missing]
      refine ⟨List.forall_mem_cons.mpr ⟨⟨rfl, given⟩, owned⟩, List.subset_cons_self _ _, ?_⟩
      intro demand member
      obtain rfl := List.mem_singleton.mp member
      exact ⟨_, List.mem_cons_self, rfl, rfl, rfl⟩
    · rw [if_neg missing]
      refine ⟨owned, List.Subset.refl _, ?_⟩
      intro demand member
      obtain rfl := List.mem_singleton.mp member
      rw [List.all_eq_true] at missing
      push Not at missing
      obtain ⟨timer, inside, same⟩ := missing
      rw [ne_eq, decide_not, Bool.not_eq_true', Bool.not_eq_false, decide_eq_true_eq] at same
      obtain ⟨opened, holds⟩ := owned timer inside
      rw [same] at holds
      exact ⟨timer, inside, same, unique _ _ _ holds given, opened⟩
  · rw [Bool.not_eq_true] at timed
    rw [timed, Bool.false_and, if_neg Bool.false_ne_true, if_neg Bool.false_ne_true]
    exact ⟨owned, List.Subset.refl _, nofun⟩

theorem foldl_ensureTimer {exec : Executor}
    (unique : ∀ addr world world', exec.Holds addr world → exec.Holds addr world' →
      world = world')
    (started : Bool) {lookups : List Lookup}
    (given : ∀ lookup ∈ lookups, exec.Holds lookup.ctx.addr lookup.request.world) :
    ∀ {timers : List StateTimer}, TimersOwned exec timers →
      TimersOwned exec (lookups.foldl (ensureTimer started) timers) ∧
        timers ⊆ lookups.foldl (ensureTimer started) timers ∧
        ∀ demand ∈ lookups.flatMap (timerDemand started),
          MetBy (lookups.foldl (ensureTimer started) timers) demand := by
  induction lookups with
  | nil => exact fun owned => ⟨owned, List.Subset.refl _, nofun⟩
  | cons lookup lookups ih =>
      intro timers owned
      obtain ⟨here, kept, met⟩ :=
        ensureTimer_spec unique started (given lookup List.mem_cons_self) owned
      obtain ⟨later, kept', met'⟩ :=
        ih (fun other member => given other (List.mem_cons_of_mem _ member)) here
      refine ⟨later, fun timer member => kept' (kept member), ?_⟩
      intro demand member
      rw [List.flatMap_cons] at member
      rcases List.mem_append.mp member with first | rest
      · obtain ⟨timer, inside, same⟩ := met demand first
        exact ⟨timer, kept' inside, same⟩
      · exact met' demand rest

/-! ## Processes -/

/-- No context refers to a freed world, every query starts with an empty state, and every state
    that was looked up in a started world that has not been freed has an open timer on the loop of
    that world. -/
structure Detached (process : Process) : Prop where
  noStale : ∀ ctx ∈ process.exec.contexts, ctx.world ∈ process.worlds.map LiveWorld.ref
  startsEmpty : StartsEmpty process.exec.lookups
  ownTimers : ∀ demand ∈ process.demands, demand.2 ∈ process.worlds.map LiveWorld.ref →
    MetBy process.timers demand

/-- If the step frees a world, no query has asked for a state in that world. -/
def FreesUnused (process : Process) (op : ProcessOp) : Prop :=
  process.defined = true → ∀ addr, op = .free addr → ∀ live, process.liveAt addr = some live →
    ∀ request ∈ process.requests, request.world ≠ live.ref

/-- The invariant of a process that frees unused worlds only. -/
structure Process.Sound (nqlParse : String → Option NqlQuery) (process : Process) : Prop where
  inv : ExecInv nqlParse process.exec
  traced : Traced (process.worlds.map LiveWorld.ref) process.exec
  distinct : AddrsDistinct (process.worlds.map LiveWorld.ref)
  generations : ∀ live ∈ process.worlds, live.ref.generation < process.generation
  timers : TimersOwned process.exec process.timers
  demands : ∀ demand ∈ process.demands, MetBy process.timers demand
  requests : process.defined = true →
    process.exec.lookups.map Lookup.request = process.requests

theorem Process.Sound.detached {nqlParse : String → Option NqlQuery} {process : Process}
    (sound : process.Sound nqlParse) : Detached process :=
  ⟨sound.traced.world, sound.traced.empty, fun demand member _ => sound.demands demand member⟩

theorem newProcess_sound (nqlParse : String → Option NqlQuery) : newProcess.Sound nqlParse where
  inv := newExecutor_inv
  traced := by
    refine ⟨nofun, nofun, ?_, nofun⟩
    intro before lookup after split
    exact absurd split.symm (List.append_ne_nil_of_right_ne_nil before (List.cons_ne_nil _ _))
  distinct := nofun
  generations := nofun
  timers := nofun
  demands := nofun
  requests := fun _ => rfl

theorem ExecInv.holds_unique {nqlParse : String → Option NqlQuery} {exec : Executor}
    (inv : ExecInv nqlParse exec) (addr : Nat) (world world' : WorldRef)
    (holds : exec.Holds addr world) (holds' : exec.Holds addr world') : world = world' := by
  obtain ⟨ctx, inside, same, rfl⟩ := holds
  obtain ⟨ctx', inside', same', rfl⟩ := holds'
  rw [List.inj_on_of_nodup_map inv.addrs inside inside' (same.trans same'.symm)]

section Steps

variable [Pcre2] {nqlParse : String → Option NqlQuery} {process : Process}

/-- Executing a query in one of the worlds, or without a world. -/
theorem Process.Sound.execute (sound : process.Sound nqlParse) (queryStr : String)
    (event : Event) {live : Option LiveWorld} (inside : ∀ l ∈ live, l ∈ process.worlds)
    (clock : Nat → Nat) (defined : process.defined = true) :
    (process.execute nqlParse queryStr event live clock).Sound nqlParse := by
  have progress := execStep_progress sound.inv
    (.execute queryStr event (live.map LiveWorld.ref) clock)
  have inWorld : ∀ w, live.map LiveWorld.ref = some w →
      w ∈ process.worlds.map LiveWorld.ref := by
    intro w same
    obtain ⟨l, here, rfl⟩ := Option.map_eq_some_iff.mp same
    exact List.mem_map_of_mem (f := _) (inside l here)
  have traced : Traced (process.worlds.map LiveWorld.ref) (nqlExecute nqlParse process.exec
      queryStr event (live.map LiveWorld.ref) clock).exec :=
    nqlExecute_keeps
      (fun _ w stage _ same empty holds =>
        holds.getState sound.distinct (inWorld w same) stage empty)
      (fun _ addr state holds => holds.setState addr state)
      (fun _ results holds => holds.emit results) sound.traced nqlParse event clock
  have persist : ∀ addr world, process.exec.Holds addr world → (nqlExecute nqlParse process.exec
      queryStr event (live.map LiveWorld.ref) clock).exec.Holds addr world :=
    fun addr world holds => nqlExecute_keeps (P := fun exec => exec.Holds addr world)
      (fun _ w stage newState _ _ here => here.getState _ newState)
      (fun _ target state here => here.setState target state)
      (fun _ _ here => here) holds nqlParse event clock
  obtain ⟨made, grown⟩ : process.exec.lookups <+: (nqlExecute nqlParse process.exec
      queryStr event (live.map LiveWorld.ref) clock).exec.lookups :=
    nqlExecute_keeps (P := fun exec => process.exec.lookups <+: exec.lookups)
      (fun _ w stage newState _ _ here => here.trans (getState_lookups _ _ newState))
      (fun _ _ _ here => here) (fun _ _ here => here) (List.prefix_refl _) nqlParse event clock
  have new : (nqlExecute nqlParse process.exec queryStr event (live.map LiveWorld.ref)
      clock).exec.lookups.drop process.exec.lookups.length = made := by
    rw [← grown, List.drop_left]
  obtain ⟨owned, kept, met⟩ := foldl_ensureTimer progress.inv.holds_unique
    (live.any LiveWorld.started)
    (fun lookup member => traced.given lookup (grown ▸ List.mem_append_right _ member))
    (fun timer member => ⟨(sound.timers timer member).1,
      persist _ _ (sound.timers timer member).2⟩)
  refine ⟨progress.inv, traced, sound.distinct, sound.generations, ?_, ?_, ?_⟩
  · simp only [Process.execute, new]
    exact owned
  · simp only [Process.execute, new]
    intro demand member
    rcases List.mem_append.mp member with before | last
    · obtain ⟨timer, inside, same⟩ := sound.demands demand before
      exact ⟨timer, kept inside, same⟩
    · exact met demand last
  · intro still
    obtain ⟨first, -, lookups, all⟩ := progress.made
    have complete := all (Option.isSome_iff_ne_none.mp still)
    rw [complete, sound.requests defined] at lookups
    exact lookups

omit [Pcre2] in
theorem Process.Sound.tick (sound : process.Sound nqlParse) (state now : Nat)
    (defined : process.defined = true) :
    Process.Sound nqlParse { process with
      exec := (timerTick process.exec state now).exec
      defined := (timerTick process.exec state now).result.isSome } where
  inv := (timerTick_progress sound.inv state now).inv
  traced := timerTick_keeps (fun _ addr state holds => holds.setState addr state)
    (fun _ results holds => holds.emit results) sound.traced state now
  distinct := sound.distinct
  generations := sound.generations
  timers := fun timer member => ⟨(sound.timers timer member).1,
    timerTick_keeps (P := fun exec => exec.Holds timer.state timer.world)
      (fun _ target state here => here.setState target state) (fun _ _ here => here)
      (sound.timers timer member).2 state now⟩
  demands := sound.demands
  requests := by
    intro _
    have same : (timerTick process.exec state now).exec.lookups = process.exec.lookups :=
      timerTick_keeps (P := fun exec => exec.lookups = process.exec.lookups)
        (fun _ _ _ here => here) (fun _ _ here => here) rfl state now
    show (timerTick process.exec state now).exec.lookups.map Lookup.request = _
    rw [same]
    exact sound.requests defined

omit [Pcre2] in
theorem liveAt_some {addr : Nat} {live : LiveWorld} (found : process.liveAt addr = some live) :
    live ∈ process.worlds ∧ live.ref.addr = addr := by
  unfold Process.liveAt at found
  exact ⟨List.mem_of_find?_eq_some found, by simpa using List.find?_some found⟩

omit [Pcre2] in
theorem Process.Sound.newWorld (sound : process.Sound nqlParse) (addr : Nat) :
    (process.newWorld addr).Sound nqlParse := by
  unfold Process.newWorld
  cases search : process.liveAt addr with
  | some live => exact sound
  | none =>
      have unused : ∀ w ∈ process.worlds.map LiveWorld.ref, w.addr ≠ addr := by
        intro w member same
        obtain ⟨live, inside, rfl⟩ := List.mem_map.mp member
        exact absurd (decide_eq_true same) (List.find?_eq_none.mp search live inside)
      refine ⟨sound.inv, ?_, ?_, ?_, sound.timers, sound.demands, sound.requests⟩
      · obtain ⟨world, creator, empty, given⟩ := sound.traced
        exact ⟨fun ctx member => List.mem_cons_of_mem _ (world ctx member), creator, empty, given⟩
      · intro w member w' member' same
        rcases List.mem_cons.mp member with rfl | old
        · rcases List.mem_cons.mp member' with rfl | old'
          · rfl
          · exact absurd same.symm (unused w' old')
        · rcases List.mem_cons.mp member' with rfl | old'
          · exact absurd same (unused w old)
          · exact sound.distinct w old w' old' same
      · refine List.forall_mem_cons.mpr ⟨Nat.lt_succ_self _, ?_⟩
        exact fun live member => Nat.lt_succ_of_lt (sound.generations live member)

omit [Pcre2] in
theorem setStarted_refs (addr : Nat) (started : Bool) :
    (process.setStarted addr started).worlds.map LiveWorld.ref =
      process.worlds.map LiveWorld.ref := by
  rw [Process.setStarted, List.map_map]
  refine List.map_congr_left ?_
  intro live _
  rw [Function.comp_apply]
  split <;> rfl

omit [Pcre2] in
theorem Process.Sound.setStarted (sound : process.Sound nqlParse) (addr : Nat)
    (started : Bool) : (process.setStarted addr started).Sound nqlParse where
  inv := sound.inv
  traced := by
    rw [setStarted_refs]
    exact sound.traced
  distinct := by
    rw [setStarted_refs]
    exact sound.distinct
  generations := by
    intro live member
    obtain ⟨old, inside, rfl⟩ := List.mem_map.mp member
    have below := sound.generations old inside
    split <;> exact below
  timers := sound.timers
  demands := sound.demands
  requests := sound.requests

omit [Pcre2] in
/-- A request made in a world leaves a context of that world. -/
theorem Process.Sound.holds_of_request (sound : process.Sound nqlParse)
    (defined : process.defined = true) {request : StageRequest}
    (made : request ∈ process.requests) :
    ∃ addr, process.exec.Holds addr request.world := by
  rw [← sound.requests defined] at made
  obtain ⟨lookup, member, rfl⟩ := List.mem_map.mp made
  exact ⟨_, sound.traced.given lookup member⟩

omit [Pcre2] in
/-- Freeing a world in which nothing was requested. -/
theorem Process.Sound.freeWorld (sound : process.Sound nqlParse)
    (defined : process.defined = true) {addr : Nat}
    (unused : ∀ live, process.liveAt addr = some live → ∀ request ∈ process.requests,
      request.world ≠ live.ref) : (process.freeWorld addr).Sound nqlParse := by
  unfold Process.freeWorld
  cases search : process.liveAt addr with
  | none => exact sound
  | some live =>
      obtain ⟨inside, here⟩ := liveAt_some search
      have elsewhere : ∀ ctx ∈ process.exec.contexts, ctx.world.addr ≠ addr := by
        intro ctx member same
        have owner : ctx.world = live.ref := sound.distinct _ (sound.traced.world ctx member) _
          (List.mem_map_of_mem (f := _) inside) (same.trans here.symm)
        obtain ⟨ofWorld, -, made⟩ := sound.traced.creator ctx member
        rw [sound.requests defined] at made
        exact unused live search ctx.creator made (ofWorld.trans owner)
      have timers : nblexExecContextsShutdownWorld process.exec.contexts process.timers addr =
          process.timers := by
        refine (List.map_congr_left ?_).trans (List.map_id _)
        intro timer _
        rw [if_neg]
        · rfl
        · rw [List.any_eq_true]
          rintro ⟨ctx, member, same⟩
          exact elsewhere ctx member (of_decide_eq_true same).2
      dsimp only
      rw [timers]
      have kept : ∀ w ∈ (process.worlds.filter (fun live => decide (live.ref.addr ≠ addr))).map
          LiveWorld.ref, w ∈ process.worlds.map LiveWorld.ref := by
        intro w member
        obtain ⟨other, remains, rfl⟩ := List.mem_map.mp member
        exact List.mem_map_of_mem (f := _) (List.mem_of_mem_filter remains)
      obtain ⟨world, creator, empty, given⟩ := sound.traced
      refine ⟨sound.inv, ⟨?_, creator, empty, given⟩, ?_, ?_, sound.timers, sound.demands,
        sound.requests⟩
      · intro ctx member
        obtain ⟨other, there, same⟩ := List.mem_map.mp (world ctx member)
        refine List.mem_map.mpr ⟨other, List.mem_filter.mpr ⟨there, ?_⟩, same⟩
        rw [same]
        exact decide_eq_true (elsewhere ctx member)
      · exact fun w member w' member' => sound.distinct w (kept w member) w' (kept w' member')
      · exact fun other member => sound.generations other (List.mem_of_mem_filter member)

theorem processStep_sound (sound : process.Sound nqlParse) {op : ProcessOp}
    (unused : FreesUnused process op) : (processStep nqlParse process op).Sound nqlParse := by
  unfold processStep
  cases defined : process.defined with
  | false => exact sound
  | true =>
      rw [if_pos rfl]
      cases op with
      | newWorld addr => exact sound.newWorld addr
      | setStarted addr started => exact sound.setStarted addr started
      | free addr => exact sound.freeWorld defined (unused defined addr rfl)
      | tick state now => exact sound.tick state now defined
      | execute queryStr event addr clock =>
          cases addr with
          | none => exact sound.execute queryStr event (fun l same => by cases same) clock defined
          | some addr =>
              dsimp only
              cases search : process.liveAt addr with
              | none => exact sound
              | some live =>
                  refine sound.execute queryStr event ?_ clock defined
                  exact fun l same => Option.some.inj same ▸ (liveAt_some search).1

/-! ## Stale contexts -/

/-- A context refers to a world that has been freed. -/
def Stale (process : Process) : Prop :=
  ∃ addr world, process.exec.Holds addr world ∧ world ∉ process.worlds.map LiveWorld.ref ∧
    world.generation < process.generation

omit [Pcre2] in
theorem Stale.not_detached (stale : Stale process) : ¬Detached process := by
  intro detached
  obtain ⟨addr, world, ⟨ctx, member, -, rfl⟩, gone, -⟩ := stale
  exact gone (detached.noStale ctx member)

/-- Freeing a world in which something was requested leaves a stale context. -/
theorem processStep_breaks (sound : process.Sound nqlParse) {op : ProcessOp}
    (used : ¬FreesUnused process op) : Stale (processStep nqlParse process op) := by
  unfold FreesUnused at used
  push Not at used
  obtain ⟨defined, addr, rfl, live, search, request, made, same⟩ := used
  obtain ⟨inside, here⟩ := liveAt_some search
  obtain ⟨target, holds⟩ := sound.holds_of_request defined made
  rw [same] at holds
  rw [processStep, if_pos defined]
  dsimp only [Process.freeWorld]
  rw [search]
  refine ⟨target, live.ref, holds, ?_, sound.generations live inside⟩
  intro member
  obtain ⟨other, remains, equal⟩ := List.mem_map.mp member
  have elsewhere := of_decide_eq_true (List.mem_filter.mp remains).2
  rw [equal] at elsewhere
  exact elsewhere here

theorem processStep_stale (stale : Stale process) (op : ProcessOp) :
    Stale (processStep nqlParse process op) := by
  obtain ⟨target, world, holds, gone, old⟩ := stale
  unfold processStep
  split
  · cases op with
    | newWorld addr =>
        dsimp only [Process.newWorld]
        cases process.liveAt addr with
        | some live => exact ⟨target, world, holds, gone, old⟩
        | none =>
            refine ⟨target, world, holds, ?_, Nat.lt_succ_of_lt old⟩
            intro member
            rcases List.mem_cons.mp member with rfl | before
            · exact Nat.lt_irrefl _ old
            · exact gone before
    | setStarted addr started =>
        refine ⟨target, world, holds, ?_, old⟩
        rw [setStarted_refs]
        exact gone
    | free addr =>
        dsimp only [Process.freeWorld]
        cases process.liveAt addr with
        | none => exact ⟨target, world, holds, gone, old⟩
        | some live =>
            refine ⟨target, world, holds, ?_, old⟩
            intro member
            obtain ⟨other, remains, equal⟩ := List.mem_map.mp member
            exact gone (equal ▸ List.mem_map_of_mem (f := _) (List.mem_of_mem_filter remains))
    | tick state now =>
        exact ⟨target, world, timerTick_keeps (P := fun exec => exec.Holds target world)
          (fun _ addr state here => here.setState addr state) (fun _ _ here => here) holds state
          now, gone, old⟩
    | execute queryStr event addr clock =>
        have executed : ∀ live, Stale (process.execute nqlParse queryStr event live clock) :=
          fun live => ⟨target, world,
            nqlExecute_keeps (P := fun exec => exec.Holds target world)
              (fun _ w stage newState _ _ here => here.getState _ newState)
              (fun _ addr state here => here.setState addr state)
              (fun _ _ here => here) holds nqlParse event clock, gone, old⟩
        cases addr with
        | none => exact executed none
        | some addr =>
            dsimp only
            cases process.liveAt addr with
            | none => exact ⟨target, world, holds, gone, old⟩
            | some live => exact executed (some live)
  · exact ⟨target, world, holds, gone, old⟩

end Steps

/-- After a run no context refers to a freed world, and queries start with empty states and timers
    of their own, just in case no world was freed in which a query had asked for a state. -/
theorem detached_iff_freesUnused [Pcre2] (nqlParse : String → Option NqlQuery)
    (ops : List ProcessOp) :
    Detached (processRun nqlParse ops) ↔
      Guarded.Meets (processStep nqlParse) FreesUnused newProcess ops :=
  Guarded.foldl_claimed_iff (Process.Sound nqlParse) Stale
    (fun _ _ sound unused => processStep_sound sound unused)
    (fun _ _ sound used => processStep_breaks sound used)
    (fun _ op stale => processStep_stale stale op) (fun _ sound => sound.detached)
    (fun _ stale => stale.not_detached) (newProcess_sound nqlParse) ops

/-- A world is freed after `aggregate count()` has counted an event in it, and another one is made
    at its address. -/
def countThenReuse : List ProcessOp :=
  [.newWorld 1, .setStarted 1 true, .execute aggregateText loggedEvent (some 1) (fun _ => 0),
    .free 1, .newWorld 1]

theorem countThenReuse_stale :
    ¬∀ ops : List ProcessOp, Detached (@processRun literalPcre2 sampleParse ops) := by
  intro all
  have noStale := (all countThenReuse).noStale
  have contexts : (@processRun literalPcre2 sampleParse countThenReuse).exec.contexts.map
      ExecCtx.world = [⟨1, 0⟩] := by decide +kernel
  have worlds : (@processRun literalPcre2 sampleParse countThenReuse).worlds.map
      LiveWorld.ref = [⟨1, 1⟩] := by decide +kernel
  have listed := List.forall_mem_map.mpr noStale
  rw [contexts, worlds] at listed
  exact absurd (listed ⟨1, 0⟩ List.mem_cons_self) (by decide)

end Nblex
