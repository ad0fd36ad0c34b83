import Mathlib.Data.Set.Insert

/-!
Networks in which every node computes its state from what it last heard of its
neighbours. Snapshots of states travel in order and may get lost; nodes act in
any order. A round is over when every node has computed its state anew and has
since been heard by all its neighbours.

The convergence argument is the one for asynchronous iterations: levels of
states, each inside the one before, such that a node that holds states of one
level computes a state of the next. Then every round gains a level, and no
level is lost again.
-/

namespace Owl.AsyncRounds

universe u v w
variable {Node : Type u} {State : Type v} {World : Type w} [DecidableEq Node]

inductive Label (Node : Type u) where
  | update (i : Node)
  | send (j : Node)
  /-- The snapshot with `front` others in front of it gets lost. -/
  | lose (j i : Node) (front : Nat)
  | receive (j i : Node)
  /-- Nothing that the network consists of changes. -/
  | idle

structure Network (World : Type w) (Node : Type u) (State : Type v) where
  links : Node → Node → Prop
  state : World → Node → State
  /-- What the first node holds of the second. -/
  view : World → Node → Node → Set State
  /-- Snapshots on the way from the first node to the second, oldest first. -/
  queue : World → Node → Node → List State
  /-- What the state of a node becomes under a view. -/
  rule : Node → (Node → Set State) → State → State → Prop

/-- What a step does to the network; queues without a link do not matter. -/
inductive Change (net : Network World Node State) (before after : World) : Label Node → Prop where
  | update (i : Node) (computed : net.rule i (net.view before i) (net.state before i)
        (net.state after i))
      (others : ∀ k, k ≠ i → net.state after k = net.state before k)
      (views : net.view after = net.view before) (queues : net.queue after = net.queue before) :
      Change net before after (.update i)
  | send (j : Node) (states : net.state after = net.state before)
      (views : net.view after = net.view before)
      (sent : ∀ i, net.links j i → net.queue after j i = net.queue before j i ++ [net.state before j])
      (others : ∀ k i, k ≠ j → net.queue after k i = net.queue before k i) :
      Change net before after (.send j)
  | lose (j i : Node) (earlier later : List State) (lost : State)
      (states : net.state after = net.state before) (views : net.view after = net.view before)
      (flight : net.queue before j i = earlier ++ lost :: later)
      (left : net.queue after j i = earlier ++ later)
      (others : ∀ k l, (k, l) ≠ (j, i) → net.queue after k l = net.queue before k l) :
      Change net before after (.lose j i earlier.length)
  | receive (j i : Node) (snapshot : State) (later : List State) (link : net.links j i)
      (states : net.state after = net.state before)
      (flight : net.queue before j i = snapshot :: later) (left : net.queue after j i = later)
      (learnt : net.view after i j = {snapshot})
      (kept : ∀ l k, (k, l) ≠ (j, i) → net.view after l k = net.view before l k)
      (others : ∀ k l, (k, l) ≠ (j, i) → net.queue after k l = net.queue before k l) :
      Change net before after (.receive j i)
  | idle (states : net.state after = net.state before) (views : net.view after = net.view before)
      (queues : net.queue after = net.queue before) : Change net before after .idle

structure Marks (Node : Type u) where
  updated : Node → Bool
  /-- How many snapshots on a link were taken before their sender was updated. -/
  old : Node → Node → Nat
  heard : Node → Node → Bool

def Marks.start (length : Node → Node → Nat) : Marks Node where
  updated _ := false
  old := length
  heard _ _ := false

def Marks.takeOld (marks : Marks Node) (j i : Node) : Marks Node :=
  { marks with old := fun k l => if k = j ∧ l = i then marks.old k l - 1 else marks.old k l }

def Marks.next (marks : Marks Node) : Label Node → Marks Node
  | .update i => { marks with updated := fun k => decide (k = i) || marks.updated k }
  | .send j =>
      if marks.updated j then marks
      else { marks with old := fun k i => if k = j then marks.old k i + 1 else marks.old k i }
  | .lose j i front => if front < marks.old j i then marks.takeOld j i else marks
  | .receive j i =>
      if 0 < marks.old j i then marks.takeOld j i
      else { marks with heard := fun k l => decide (k = j ∧ l = i) || marks.heard k l }
  | .idle => marks

structure Marks.Complete (marks : Marks Node) (links : Node → Node → Prop) : Prop where
  updated : ∀ i, marks.updated i = true
  heard : ∀ j i, links j i → marks.heard j i = true

section Runs

variable (net : Network World Node State) (step : World → Label Node → World → Prop)

inductive Run : World → List (Label Node) → World → Prop where
  | nil (world : World) : Run world [] world
  | cons {first second third : World} {label : Label Node} {labels : List (Label Node)}
      (head : step first label second) (tail : Run second labels third) :
      Run first (label :: labels) third

def IsRound (start : World) (labels : List (Label Node)) : Prop :=
  (labels.foldl Marks.next (Marks.start fun j i => (net.queue start j i).length)).Complete net.links

inductive Rounds (start : World) : Nat → World → Prop where
  | zero : Rounds start 0 start
  | succ {n : Nat} {middle last : World} {labels : List (Label Node)}
      (rounds : Rounds start n middle) (run : Run step middle labels last)
      (round : IsRound net middle labels) : Rounds start (n + 1) last

section Restrict

variable {net step} {inv : World → Prop}
  (keeps : ∀ before label after, inv before → step before label after → inv after)
include keeps

omit [DecidableEq Node] in
theorem Run.restrict {before after : World} {labels : List (Label Node)}
    (run : Run step before labels after) (holds : inv before) :
    Run (fun first label second => inv first ∧ step first label second) before labels after ∧
      inv after := by
  induction run with
  | nil world => exact ⟨.nil world, holds⟩
  | cons head tail ih =>
      obtain ⟨rest, last⟩ := ih (keeps _ _ _ holds head)
      exact ⟨.cons ⟨holds, head⟩ rest, last⟩

/-- The steps of the rounds may be taken to start where the invariant holds. -/
theorem Rounds.restrict {start world : World} {n : Nat} (rounds : Rounds net step start n world)
    (holds : inv start) :
    Rounds net (fun first label second => inv first ∧ step first label second) start n world ∧
      inv world := by
  induction rounds with
  | zero => exact ⟨.zero, holds⟩
  | succ rounds run round ih =>
      obtain ⟨restricted, last⟩ := run.restrict keeps ih.2
      exact ⟨ih.1.succ restricted round, last⟩

end Restrict

end Runs

/-- Every snapshot that a node holds or is sent is at `level`; a node holds only
snapshots of its neighbours. -/
structure Within (net : Network World Node State) (home level : Node → State → Prop)
    (world : World) : Prop where
  home : ∀ i, home i (net.state world i)
  state : ∀ i, level i (net.state world i)
  view : ∀ i j, ∀ s ∈ net.view world i j, net.links j i ∧ level j s
  queue : ∀ j i, net.links j i → ∀ s ∈ net.queue world j i, level j s

def Heard (net : Network World Node State) (world : World) : Prop :=
  ∀ j i, net.links j i → (net.view world i j).Nonempty

/-- A node computes a state of the next level. What a node needs to have heard of
its neighbours is at hand from the first round on. -/
structure Gains (net : Network World Node State) (home : Node → State → Prop)
    (level : Nat → Node → State → Prop) : Prop where
  mono : ∀ n i s, level (n + 1) i s → level n i s
  gain : ∀ n i view s s', (∀ j, ∀ t ∈ view j, net.links j i ∧ level n j t) →
    (0 < n → ∀ j, net.links j i → (view j).Nonempty) → home i s → net.rule i view s s' →
    home i s' ∧ level (n + 1) i s'

section Levels

variable {net : Network World Node State} {home : Node → State → Prop}
  {level : Nat → Node → State → Prop} {n : Nat} {before after : World}

omit [DecidableEq Node] in
theorem change_heard {label : Label Node} (change : Change net before after label)
    (heard : Heard net before) : Heard net after := by
  intro j i link
  cases change with
  | update k computed others views queues => rw [views]; exact heard j i link
  | send k states views sent others => rw [views]; exact heard j i link
  | lose k l earlier later lost states views => rw [views]; exact heard j i link
  | receive k l snapshot later linked states flight left learnt kept =>
      by_cases same : (j, i) = (k, l)
      · cases same
        rw [learnt]
        exact Set.singleton_nonempty snapshot
      · rw [kept i j same]
        exact heard j i link
  | idle states views queues => rw [views]; exact heard j i link

omit [DecidableEq Node] in
/-- A queue that only loses snapshots does not leave the level. -/
theorem within_queues {level : Node → State → Prop} {j i : Node} (within : Within net home level before)
    (fewer : ∀ s ∈ net.queue after j i, s ∈ net.queue before j i)
    (others : ∀ k l, (k, l) ≠ (j, i) → net.queue after k l = net.queue before k l) :
    ∀ k l, net.links k l → ∀ s ∈ net.queue after k l, level k s := by
  intro k l link s member
  by_cases same : (k, l) = (j, i)
  · cases same
    exact within.queue j i link s (fewer s member)
  · rw [others k l same] at member
    exact within.queue k l link s member

omit [DecidableEq Node] in
/-- No step leaves a level. -/
theorem change_within (gains : Gains net home level) {label : Label Node}
    (change : Change net before after label) (within : Within net home (level n) before)
    (ready : 0 < n → Heard net before) : Within net home (level n) after := by
  cases change with
  | update i computed others views queues =>
      obtain ⟨owned, gained⟩ := gains.gain n i _ _ _ (within.view i)
        (fun positive j => ready positive j i) (within.home i) computed
      -- Only the state of `i` is new.
      have each : ∀ k, home k (net.state after k) ∧ level n k (net.state after k) := by
        intro k
        by_cases same : k = i
        · subst same
          exact ⟨owned, gains.mono n k _ gained⟩
        · rw [others k same]
          exact ⟨within.home k, within.state k⟩
      exact ⟨fun k => (each k).1, fun k => (each k).2, by rw [views]; exact within.view,
        by rw [queues]; exact within.queue⟩
  | send j states views sent others =>
      refine ⟨by rw [states]; exact within.home, by rw [states]; exact within.state,
        by rw [views]; exact within.view, ?_⟩
      intro k i link s member
      by_cases same : k = j
      · subst same
        rw [sent i link] at member
        rcases List.mem_append.mp member with old | new
        · exact within.queue k i link s old
        · rw [List.mem_singleton.mp new]
          exact within.state k
      · rw [others k i same] at member
        exact within.queue k i link s member
  | lose j i earlier later lost states views flight left others =>
      refine ⟨by rw [states]; exact within.home, by rw [states]; exact within.state,
        by rw [views]; exact within.view, within_queues within ?_ others⟩
      intro s member
      rw [left] at member
      rw [flight]
      exact List.mem_append.mpr ((List.mem_append.mp member).imp id (List.mem_cons_of_mem lost))
  | receive j i snapshot later link states flight left learnt kept others =>
      have known : level n j snapshot := within.queue j i link snapshot (by
        rw [flight]
        exact List.mem_cons_self)
      refine ⟨by rw [states]; exact within.home, by rw [states]; exact within.state, ?_,
        within_queues within ?_ others⟩
      · intro l k s member
        by_cases same : (k, l) = (j, i)
        · cases same
          rw [learnt] at member
          rw [Set.mem_singleton_iff.mp member]
          exact ⟨link, known⟩
        · rw [kept l k same] at member
          exact within.view l k s member
      · rw [left, flight]
        exact fun s member => List.mem_cons_of_mem _ member
  | idle states views queues =>
      exact ⟨by rw [states]; exact within.home, by rw [states]; exact within.state,
        by rw [views]; exact within.view, by rw [queues]; exact within.queue⟩

/-- The first `old` snapshots of a queue are from before the update of their
sender, the others are from after it. -/
structure Sorted (fresh : State → Prop) (updated : Bool) (old : Nat) (queue : List State) : Prop where
  waiting : updated = false → old = queue.length
  bound : old ≤ queue.length
  fresh : ∀ s ∈ queue.drop old, fresh s

section Queues

variable {fresh : State → Prop} {updated : Bool} {old : Nat} {queue : List State}

theorem Sorted.start : Sorted fresh false queue.length queue := by
  refine ⟨fun _ => rfl, le_refl _, ?_⟩
  intro s member
  rw [List.drop_length] at member
  cases member

theorem Sorted.update (sorted : Sorted fresh updated old queue) : Sorted fresh true old queue :=
  ⟨fun never => Bool.noConfusion never, sorted.bound, sorted.fresh⟩

theorem Sorted.send_fresh (sorted : Sorted fresh true old queue) {s : State} (known : fresh s) :
    Sorted fresh true old (queue ++ [s]) := by
  refine ⟨fun never => Bool.noConfusion never, ?_, ?_⟩
  · rw [List.length_append]
    exact Nat.le_add_right_of_le sorted.bound
  · intro t member
    rw [List.drop_append_of_le_length sorted.bound] at member
    rcases List.mem_append.mp member with earlier | new
    · exact sorted.fresh t earlier
    · rw [List.mem_singleton.mp new]
      exact known

theorem Sorted.send_old (sorted : Sorted fresh false old queue) (s : State) :
    Sorted fresh false (old + 1) (queue ++ [s]) := by
  have counted : old + 1 = (queue ++ [s]).length := by
    rw [List.length_append, sorted.waiting rfl]
    rfl
  rw [counted]
  exact .start

theorem Sorted.lose_old {earlier later : List State} {lost : State}
    (sorted : Sorted fresh updated old (earlier ++ lost :: later)) (front : earlier.length < old) :
    Sorted fresh updated (old - 1) (earlier ++ later) := by
  have bound := sorted.bound
  rw [List.length_append, List.length_cons] at bound
  -- What stands behind the old ones is the same list before and after the loss.
  have same : (earlier ++ later).drop (old - 1) = (earlier ++ lost :: later).drop old := by
    rw [List.drop_append, List.drop_append, List.drop_of_length_le (show earlier.length ≤ old - 1 by omega),
      List.drop_of_length_le front.le, show old - earlier.length = old - 1 - earlier.length + 1 by omega,
      List.drop_succ_cons]
  refine ⟨?_, ?_, by rw [same]; exact sorted.fresh⟩
  · intro still
    have whole := sorted.waiting still
    rw [List.length_append, List.length_cons] at whole
    rw [List.length_append]
    omega
  · rw [List.length_append]
    omega

theorem Sorted.lose_fresh {earlier later : List State} {lost : State}
    (sorted : Sorted fresh updated old (earlier ++ lost :: later)) (front : old ≤ earlier.length) :
    Sorted fresh updated old (earlier ++ later) := by
  refine ⟨?_, ?_, ?_⟩
  · intro still
    have whole := sorted.waiting still
    rw [List.length_append, List.length_cons] at whole
    omega
  · rw [List.length_append]
    omega
  · intro s member
    apply sorted.fresh
    rw [List.drop_append_of_le_length front] at member ⊢
    exact List.mem_append.mpr ((List.mem_append.mp member).imp id (List.mem_cons_of_mem lost))

end Queues

/-- What a round has gained so far: the states of the updated nodes, the snapshots
taken since and the views that came from them are at the next level. -/
structure Inside (net : Network World Node State) (home : Node → State → Prop)
    (level : Nat → Node → State → Prop) (n : Nat) (world : World) (marks : Marks Node) : Prop where
  within : Within net home (level n) world
  ready : 0 < n → Heard net world
  state : ∀ j, marks.updated j = true → level (n + 1) j (net.state world j)
  queue : ∀ j i, net.links j i →
    Sorted (level (n + 1) j) (marks.updated j) (marks.old j i) (net.queue world j i)
  view : ∀ j i, marks.heard j i = true → marks.updated j = true ∧ marks.old j i = 0 ∧
    (net.view world i j).Nonempty ∧ ∀ s ∈ net.view world i j, level (n + 1) j s

omit [DecidableEq Node] in
theorem inside_start (within : Within net home (level n) before) (ready : 0 < n → Heard net before) :
    Inside net home level n before (.start fun j i => (net.queue before j i).length) where
  within := within
  ready := ready
  state := by intro j updated; cases updated
  queue := fun _ _ _ => .start
  view := by intro j i heard; cases heard

/-- A snapshot leaves a queue, from among the old ones or from behind them. -/
theorem inside_queues {marks : Marks Node} (inside : Inside net home level n before marks) {j i : Node}
    {earlier later : List State} {lost : State}
    (flight : net.queue before j i = earlier ++ lost :: later)
    (left : net.queue after j i = earlier ++ later)
    (others : ∀ k l, (k, l) ≠ (j, i) → net.queue after k l = net.queue before k l) :
    ∀ k l, net.links k l → Sorted (level (n + 1) k) (marks.updated k)
      ((if earlier.length < marks.old j i then marks.takeOld j i else marks).old k l)
      (net.queue after k l) := by
  intro k l link
  have sorted := inside.queue k l link
  by_cases same : k = j ∧ l = i
  · obtain ⟨rfl, rfl⟩ := same
    rw [flight] at sorted
    rw [left]
    split
    case isTrue stale =>
      simp only [Marks.takeOld, and_self, ↓reduceIte]
      exact sorted.lose_old stale
    case isFalse recent => exact sorted.lose_fresh (not_lt.mp recent)
  · rw [others k l (by simpa using same)]
    split
    · simpa only [Marks.takeOld, same, ↓reduceIte] using sorted
    · exact sorted

section Steps

variable (gains : Gains net home level) {marks : Marks Node}
  (inside : Inside net home level n before marks)
include gains inside

theorem inside_update {i : Node} (change : Change net before after (.update i)) :
    Inside net home level n after (marks.next (.update i)) := by
  have within := change_within gains change inside.within inside.ready
  have ready := fun positive => change_heard change (inside.ready positive)
  cases change with
  | update _ computed others views queues =>
      obtain ⟨-, gained⟩ := gains.gain n i _ _ _ (inside.within.view i)
        (fun positive j => inside.ready positive j i) (inside.within.home i) computed
      refine ⟨within, ready, ?_, ?_, ?_⟩
      · intro j updated
        by_cases same : j = i
        · subst same
          exact gained
        · rw [others j same]
          exact inside.state j (by simpa [Marks.next, same] using updated)
      · intro j k link
        rw [queues]
        by_cases same : j = i
        · simpa [Marks.next, same] using (inside.queue j k link).update
        · simpa [Marks.next, same] using inside.queue j k link
      · intro j k heard
        obtain ⟨updated, rest⟩ := inside.view j k heard
        rw [views]
        exact ⟨by simp [Marks.next, updated], rest⟩

theorem inside_send {j : Node} (change : Change net before after (.send j)) :
    Inside net home level n after (marks.next (.send j)) := by
  have within := change_within gains change inside.within inside.ready
  have ready := fun positive => change_heard change (inside.ready positive)
  cases change with
  | send _ states views sent others =>
      rw [Marks.next]
      by_cases updated : marks.updated j = true
      · rw [if_pos updated]
        refine ⟨within, ready, by rw [states]; exact inside.state, ?_, by rw [views]; exact inside.view⟩
        intro k i link
        have sorted := inside.queue k i link
        by_cases same : k = j
        · subst same
          rw [sent i link]
          rw [updated] at sorted ⊢
          exact sorted.send_fresh (inside.state k updated)
        · rw [others k i same]
          exact sorted
      · rw [if_neg updated]
        refine ⟨within, ready, by rw [states]; exact inside.state, ?_, ?_⟩
        · intro k i link
          have sorted := inside.queue k i link
          by_cases same : k = j
          · subst same
            rw [Bool.not_eq_true] at updated
            rw [updated] at sorted
            simp only [↓reduceIte, sent i link, updated]
            exact sorted.send_old _
          · simp only [same, ↓reduceIte, others k i same]
            exact sorted
        -- Nobody has heard of a node that is not updated.
        · intro k i heard
          obtain ⟨known, rest⟩ := inside.view k i heard
          have different : k ≠ j := by
            rintro rfl
            exact updated known
          rw [views]
          simp only [different, ↓reduceIte]
          exact ⟨known, rest⟩

theorem inside_lose {j i : Node} {front : Nat} (change : Change net before after (.lose j i front)) :
    Inside net home level n after (marks.next (.lose j i front)) := by
  have within := change_within gains change inside.within inside.ready
  have ready := fun positive => change_heard change (inside.ready positive)
  cases change with
  | lose _ _ earlier later lost states views flight left others =>
      have queues := inside_queues inside flight left others
      by_cases stale : earlier.length < marks.old j i
      · simp only [if_pos stale] at queues
        rw [Marks.next, if_pos stale]
        refine ⟨within, ready, by rw [states]; exact inside.state, queues, ?_⟩
        intro k l heard
        obtain ⟨known, none, rest⟩ := inside.view k l heard
        rw [views]
        refine ⟨known, ?_, rest⟩
        simp only [Marks.takeOld]
        split <;> omega
      · simp only [if_neg stale] at queues
        rw [Marks.next, if_neg stale]
        exact ⟨within, ready, by rw [states]; exact inside.state, queues,
          by rw [views]; exact inside.view⟩

theorem inside_receive {j i : Node} (change : Change net before after (.receive j i)) :
    Inside net home level n after (marks.next (.receive j i)) := by
  have within := change_within gains change inside.within inside.ready
  have ready := fun positive => change_heard change (inside.ready positive)
  cases change with
  | receive _ _ snapshot later linked states flight left learnt kept others =>
      -- The snapshot leaves the queue at the front.
      have queues := inside_queues inside (show _ = [] ++ snapshot :: later from flight) left others
      by_cases stale : 0 < marks.old j i
      · simp only [List.length_nil, if_pos stale] at queues
        rw [Marks.next, if_pos stale]
        refine ⟨within, ready, by rw [states]; exact inside.state, queues, ?_⟩
        intro k l heard
        obtain ⟨known, none, rest⟩ := inside.view k l heard
        have different : ¬ (k = j ∧ l = i) := by
          rintro ⟨rfl, rfl⟩
          omega
        rw [kept l k (by simpa using different)]
        refine ⟨known, ?_, rest⟩
        simp only [Marks.takeOld, different, ↓reduceIte]
        exact none
      · simp only [List.length_nil, if_neg stale] at queues
        rw [Marks.next, if_neg stale]
        refine ⟨within, ready, by rw [states]; exact inside.state, queues, ?_⟩
        have none : marks.old j i = 0 := by omega
        have sorted := inside.queue j i linked
        rw [flight, none] at sorted
        intro k l heard
        by_cases same : k = j ∧ l = i
        · obtain ⟨rfl, rfl⟩ := same
          have updated : marks.updated k = true := by
            by_contra still
            rw [Bool.not_eq_true] at still
            cases sorted.waiting still
          refine ⟨updated, none, ?_⟩
          rw [learnt]
          refine ⟨Set.singleton_nonempty snapshot, ?_⟩
          rintro s rfl
          exact sorted.fresh s List.mem_cons_self
        · rw [kept l k (by simpa using same)]
          exact inside.view k l (by simpa [same] using heard)

theorem inside_change {label : Label Node} (change : Change net before after label) :
    Inside net home level n after (marks.next label) := by
  cases label with
  | update i => exact inside_update gains inside change
  | send j => exact inside_send gains inside change
  | lose j i front => exact inside_lose gains inside change
  | receive j i => exact inside_receive gains inside change
  | idle =>
      have within := change_within gains change inside.within inside.ready
      have ready := fun positive => change_heard change (inside.ready positive)
      cases change with
      | idle states views queues =>
          exact ⟨within, ready, by rw [states]; exact inside.state, by rw [queues]; exact inside.queue,
            by rw [views]; exact inside.view⟩

end Steps

section Convergence

variable {step : World → Label Node → World → Prop} (gains : Gains net home level)
  (lawful : ∀ before label after, step before label after → Change net before after label)
include gains lawful

theorem inside_run {marks : Marks Node} {labels : List (Label Node)}
    (run : Run step before labels after) (inside : Inside net home level n before marks) :
    Inside net home level n after (labels.foldl Marks.next marks) := by
  induction run generalizing marks with
  | nil world => exact inside
  | cons head tail ih => exact ih (inside_change gains inside (lawful _ _ _ head))

/-- A level is kept along every run. -/
theorem run_within {labels : List (Label Node)} (run : Run step before labels after)
    (within : Within net home (level n) before) (ready : 0 < n → Heard net before) :
    Within net home (level n) after :=
  (inside_run gains lawful run (inside_start within ready)).within

/-- A round gains a level. -/
theorem round_gains {labels : List (Label Node)} (run : Run step before labels after)
    (round : IsRound net before labels) (within : Within net home (level n) before)
    (ready : 0 < n → Heard net before) :
    Within net home (level (n + 1)) after ∧ Heard net after := by
  have inside := inside_run gains lawful run (inside_start within ready)
  have known : ∀ j i, net.links j i → _ := fun j i link => inside.view j i (round.heard j i link)
  refine ⟨⟨inside.within.home, fun i => inside.state i (round.updated i), ?_, ?_⟩, ?_⟩
  · intro i j s member
    obtain ⟨link, -⟩ := inside.within.view i j s member
    exact ⟨link, (known j i link).2.2.2 s member⟩
  · intro j i link s member
    have fresh := (inside.queue j i link).fresh s
    rw [(known j i link).2.1] at fresh
    exact fresh member
  · exact fun j i link => (known j i link).2.2.1

theorem rounds_within {start world : World} (rounds : Rounds net step start n world)
    (within : Within net home (level 0) start) :
    Within net home (level n) world ∧ (0 < n → Heard net world) := by
  induction rounds with
  | zero => exact ⟨within, fun positive => absurd positive (lt_irrefl 0)⟩
  | succ rounds run round ih =>
      obtain ⟨gained, heard⟩ := round_gains gains lawful run round ih.1 ih.2
      exact ⟨gained, fun _ => heard⟩

omit lawful in
/-- Rounds gain levels, and further steps keep them; what the steps do may rest on an invariant. -/
theorem rounds_later {inv : World → Prop}
    (keeps : ∀ before label after, inv before → step before label after → inv after)
    (lawful : ∀ before label after, inv before → step before label after →
      Change net before after label) {start world later : World} (holds : inv start)
    (within : Within net home (level 0) start) (rounds : Rounds net step start n world)
    {labels : List (Label Node)} (run : Run step world labels later) :
    Within net home (level n) later := by
  have allowed := fun before label after (step : inv before ∧ step before label after) =>
    lawful before label after step.1 step.2
  obtain ⟨restricted, holds'⟩ := rounds.restrict keeps holds
  obtain ⟨reached, heard⟩ := rounds_within gains allowed restricted within
  exact run_within gains allowed (run.restrict keeps holds').1 reached heard

end Convergence

end Levels

end Owl.AsyncRounds
