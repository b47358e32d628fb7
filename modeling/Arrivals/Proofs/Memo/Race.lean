import Arrivals.Proofs.Access
import Mathlib.Data.List.Induction

/-! The memo under callers that overtake each other. A lookup goes in four steps, a clear bumps the
generation and then empties one shard after the other, and commits land in between. Main statement:
no cost that was read before a clear outlives it, so a clear behind the last commit leaves nothing
that is out of date. -/

namespace Arrivals

namespace Memo

def bump (m : Memo) : Memo := { m with generation := m.generation + 1 }

def sweep {n : Nat} (shard : ConnectionKey → Fin n) (m : Memo) (j : Nat) : Memo :=
  { m with edges := m.edges.filter fun k _ => (shard k).val ≠ j }

theorem get?_sweep {n : Nat} {shard : ConnectionKey → Fin n} {m : Memo} {j : Nat} {k : ConnectionKey}
    {v : Int} (h : (m.sweep shard j).get? k = some v) : m.get? k = some v ∧ (shard k).val ≠ j := by
  rw [get?, sweep, Table.get?_filter, Option.filter_eq_some_iff] at h
  exact ⟨h.1, by simpa using h.2⟩

end Memo

namespace Race

/-- How far a caller has come: with a lookup until it has read a cost from the store, and when it
did; with a clear, since when it runs and the next shard to empty. -/
inductive Task where
  | idle
  | missed (k : ConnectionKey)
  | loaded (k : ConnectionKey) (generation : Nat)
  | holding (k : ConnectionKey) (generation : Nat) (seconds : Int) (readAt : Nat)
  | sweeping (since : Nat) (next : Nat)
  deriving DecidableEq

inductive Event (ι : Type) where
  | lookup (i : ι) (k : ConnectionKey)
  | load (i : ι)
  | read (i : ι) (fails : Bool)
  | remember (i : ι)
  | bump (i : ι)
  | sweep (i : ι)
  | commit (t : Transaction)

end Race

/-- Every step takes a tick of the clock. The fields behind it only keep record: when the cost
that is remembered of a key was read, when the last commit landed, when the generation was last
bumped, and when the clears began that are over. -/
structure Race (ι : Type) where
  store : Store
  memo : Memo
  task : ι → Race.Task
  clock : Nat
  readAt : ConnectionKey → Nat
  committed : Nat
  bumped : Nat
  cleared : List Nat

namespace Race

variable {ι : Type} [DecidableEq ι] {n : Nat}

/-- Any store and any memo, before anyone calls. -/
def start (st : Store) (m : Memo) : Race ι := ⟨st, m, fun _ => .idle, 1, fun _ => 0, 0, 0, []⟩

def set (s : Race ι) (i : ι) (t : Task) : Race ι :=
  { s with task := fun j => if j = i then t else s.task j, clock := s.clock + 1 }

def step (shard : ConnectionKey → Fin n) (s : Race ι) : Event ι → Race ι
  | .lookup i k =>
    match s.task i with
    | .idle => if (s.memo.get? k).isSome then s.set i .idle else s.set i (.missed k)
    | _ => s
  | .load i =>
    match s.task i with
    | .missed k => s.set i (.loaded k s.memo.generation)
    | _ => s
  | .read i fails =>
    match s.task i with
    | .loaded k generation =>
      match if fails then none else s.store.cost? k with
      | some seconds => s.set i (.holding k generation seconds s.clock)
      | none => s.set i .idle
    | _ => s
  | .remember i =>
    match s.task i with
    | .holding k generation seconds readAt =>
      { s.set i .idle with
        memo := s.memo.remember generation k seconds
        readAt := fun j =>
          if (s.memo.generation = generation ∧ s.memo.get? k = none) ∧ j = k then readAt
          else s.readAt j }
    | _ => s
  | .bump i =>
    match s.task i with
    | .idle => { s.set i (.sweeping s.clock 0) with memo := s.memo.bump, bumped := s.clock }
    | _ => s
  | .sweep i =>
    match s.task i with
    | .sweeping since next =>
      if next < n then { s.set i (.sweeping since (next + 1)) with memo := s.memo.sweep shard next }
      else { s.set i .idle with cleared := since :: s.cleared }
    | _ => s
  | .commit t =>
    { s with store := t.commit s.store, committed := s.clock, clock := s.clock + 1 }

def run (shard : ConnectionKey → Fin n) (s : Race ι) (events : List (Event ι)) : Race ι :=
  events.foldl (step shard) s

/-- What a step can do: nothing; end a call without a change; or go on with it. -/
inductive Outcome (shard : ConnectionKey → Fin n) (s : Race ι) : Event ι → Race ι → Prop
  | stay (e) : Outcome shard s e s
  | done (e i) : Outcome shard s e (s.set i .idle)
  | missed {i k} : s.memo.get? k = none → Outcome shard s (.lookup i k) (s.set i (.missed k))
  | loaded {i k} : s.task i = .missed k →
      Outcome shard s (.load i) (s.set i (.loaded k s.memo.generation))
  | read {i k generation v} : s.task i = .loaded k generation → s.store.cost? k = some v →
      Outcome shard s (.read i false) (s.set i (.holding k generation v s.clock))
  | remembered {i k generation v readAt} : s.task i = .holding k generation v readAt →
      Outcome shard s (.remember i)
        { s.set i .idle with
          memo := s.memo.remember generation k v
          readAt := fun j =>
            if (s.memo.generation = generation ∧ s.memo.get? k = none) ∧ j = k then readAt
            else s.readAt j }
  | bumped {i} : s.task i = .idle →
      Outcome shard s (.bump i)
        { s.set i (.sweeping s.clock 0) with memo := s.memo.bump, bumped := s.clock }
  | swept {i since next} : s.task i = .sweeping since next → next < n →
      Outcome shard s (.sweep i)
        { s.set i (.sweeping since (next + 1)) with memo := s.memo.sweep shard next }
  | cleared {i since next} : s.task i = .sweeping since next → n ≤ next →
      Outcome shard s (.sweep i) { s.set i .idle with cleared := since :: s.cleared }
  | committed (t) :
      Outcome shard s (.commit t)
        { s with store := t.commit s.store, committed := s.clock, clock := s.clock + 1 }

theorem outcome_step (shard : ConnectionKey → Fin n) (s : Race ι) (e : Event ι) :
    Outcome shard s e (s.step shard e) := by
  cases e with
  | lookup i k =>
    rw [step]
    split
    next =>
      split
      next => exact .done _ i
      next hmiss => exact .missed (by simpa using hmiss)
    next => exact .stay _
  | load i =>
    rw [step]
    split
    next htask => exact .loaded htask
    next => exact .stay _
  | read i fails =>
    rw [step]
    split
    next htask =>
      split
      next hread =>
        cases fails with
        | true => cases hread
        | false => exact .read htask hread
      next => exact .done _ i
    next => exact .stay _
  | remember i =>
    rw [step]
    split
    next htask => exact .remembered htask
    next => exact .stay _
  | bump i =>
    rw [step]
    split
    next htask => exact .bumped htask
    next => exact .stay _
  | sweep i =>
    rw [step]
    split
    next htask =>
      split
      next hnext => exact .swept htask hnext
      next hnext => exact .cleared htask (by omega)
    next => exact .stay _
  | commit t => exact .committed t

/-- What holds of every caller: a cost that may still be remembered was read behind the last bump,
and behind a clear that is under way no shard that was emptied has an older cost. -/
def Task.Sound (shard : ConnectionKey → Fin n) (s : Race ι) : Task → Prop
  | .idle => True
  | .missed _ => True
  | .loaded _ generation => generation ≤ s.memo.generation
  | .holding k generation seconds readAt =>
    generation ≤ s.memo.generation ∧ readAt < s.clock ∧
      (generation = s.memo.generation → s.bumped < readAt) ∧
      (s.committed < readAt → s.store.cost? k = some seconds)
  | .sweeping since next =>
    since ≤ s.bumped ∧
      ∀ k v, s.memo.get? k = some v → (shard k).val < next → since < s.readAt k

structure Sound (shard : ConnectionKey → Fin n) (s : Race ι) : Prop where
  bumped_lt : s.bumped < s.clock
  readAt_lt : ∀ k, s.readAt k < s.clock
  cleared_le : ∀ b ∈ s.cleared, b ≤ s.bumped
  task : ∀ i, (s.task i).Sound shard s
  cleared : ∀ b ∈ s.cleared, ∀ k v, s.memo.get? k = some v → b < s.readAt k
  current : ∀ k v, s.memo.get? k = some v → s.committed < s.readAt k → s.store.cost? k = some v

omit [DecidableEq ι] in
theorem sound_start (shard : ConnectionKey → Fin n) (st : Store) (m : Memo) :
    Sound shard (start st m : Race ι) where
  bumped_lt := Nat.zero_lt_one
  readAt_lt _ := Nat.zero_lt_one
  cleared_le _ hb := by cases hb
  task _ := trivial
  cleared _ hb := by cases hb
  current _ _ _ h := absurd h (Nat.lt_irrefl 0)

section Step

variable {shard : ConnectionKey → Fin n} {s s' : Race ι} {e : Event ι}

theorem task_set {P : Task → Prop} {i : ι} {t : Task} (ht : P t) (h : ∀ j, P (s.task j)) (j : ι) :
    P ((s.set i t).task j) := by
  change P (if j = i then t else s.task j)
  split
  · exact ht
  · exact h j

theorem Sound.set (h : Sound shard s) {i : ι} {t : Task} (ht : t.Sound shard (s.set i t)) :
    Sound shard (s.set i t) where
  bumped_lt := Nat.lt_succ_of_lt h.bumped_lt
  readAt_lt k := Nat.lt_succ_of_lt (h.readAt_lt k)
  cleared_le := h.cleared_le
  task := by
    refine task_set ht fun j => ?_
    have hj := h.task j
    cases htask : s.task j with
    | holding =>
      rw [htask] at hj
      exact ⟨hj.1, Nat.lt_succ_of_lt hj.2.1, hj.2.2⟩
    | _ =>
      rw [htask] at hj
      exact hj
  cleared := h.cleared
  current := h.current

/-- What is remembered was so before, or was read since the last bump. -/
theorem Sound.remembered (h : Sound shard s) {i : ι} {m : Memo} {readAt : ConnectionKey → Nat}
    (hgeneration : m.generation = s.memo.generation) (hlt : ∀ k, readAt k < s.clock)
    (hentry : ∀ k v, m.get? k = some v →
      (s.memo.get? k = some v ∧ readAt k = s.readAt k) ∨
        (s.bumped < readAt k ∧ (s.committed < readAt k → s.store.cost? k = some v))) :
    Sound shard { s.set i .idle with memo := m, readAt := readAt } := by
  refine ⟨Nat.lt_succ_of_lt h.bumped_lt, fun k => Nat.lt_succ_of_lt (hlt k), h.cleared_le,
    task_set trivial fun j => ?_, fun b hb k v hk => ?_, fun k v hk hlate => ?_⟩
  · have hj := h.task j
    cases htask : s.task j with
    | idle => trivial
    | missed => trivial
    | loaded =>
      rw [htask] at hj
      exact Nat.le_trans hj (Nat.le_of_eq hgeneration.symm)
    | holding =>
      rw [htask] at hj
      exact ⟨Nat.le_trans hj.1 (Nat.le_of_eq hgeneration.symm), Nat.lt_succ_of_lt hj.2.1,
        fun hg => hj.2.2.1 (hg.trans hgeneration), hj.2.2.2⟩
    | sweeping since next =>
      rw [htask] at hj
      refine ⟨hj.1, fun k v hk hshard => ?_⟩
      show since < readAt k
      rcases hentry k v hk with ⟨hold, he⟩ | ⟨hnew, _⟩
      · rw [he]
        exact hj.2 k v hold hshard
      · exact Nat.lt_of_le_of_lt hj.1 hnew
  · show b < readAt k
    rcases hentry k v hk with ⟨hold, he⟩ | ⟨hnew, _⟩
    · rw [he]
      exact h.cleared b hb k v hold
    · exact Nat.lt_of_le_of_lt (h.cleared_le b hb) hnew
  · rcases hentry k v hk with ⟨hold, he⟩ | ⟨_, hcurrent⟩
    · exact h.current k v hold (Nat.lt_of_lt_of_eq hlate he)
    · exact hcurrent hlate

theorem Sound.remember (h : Sound shard s) {i : ι} {k : ConnectionKey} {generation readAt : Nat}
    {seconds : Int} (htask : s.task i = .holding k generation seconds readAt) :
    Sound shard
      { s.set i .idle with
        memo := s.memo.remember generation k seconds
        readAt := fun j =>
          if (s.memo.generation = generation ∧ s.memo.get? k = none) ∧ j = k then readAt
          else s.readAt j } := by
  have hi := h.task i
  rw [htask] at hi
  obtain ⟨_, hlt, hfresh, hcurrent⟩ := hi
  refine h.remembered (Memo.generation_remember _ _ _ _) (fun j => ?_) fun j v hj => ?_
  · split
    · exact hlt
    · exact h.readAt_lt j
  · rcases Memo.get?_remember hj with hj | ⟨hfree, rfl, rfl⟩
    · refine .inl ⟨hj, if_neg fun hk => ?_⟩
      rw [hk.2, hk.1.2] at hj
      cases hj
    · rw [if_pos ⟨hfree, rfl⟩]
      exact .inr ⟨hfresh hfree.1.symm, hcurrent⟩

theorem Sound.bump (h : Sound shard s) (i : ι) :
    Sound shard { s.set i (.sweeping s.clock 0) with memo := s.memo.bump, bumped := s.clock } := by
  refine ⟨Nat.lt_succ_self _, fun k => Nat.lt_succ_of_lt (h.readAt_lt k),
    fun b hb => Nat.le_trans (h.cleared_le b hb) (Nat.le_of_lt h.bumped_lt),
    task_set ⟨Nat.le_refl _, fun _ _ _ hshard => absurd hshard (Nat.not_lt_zero _)⟩ fun j => ?_,
    h.cleared, h.current⟩
  have hj := h.task j
  cases htask : s.task j with
  | idle => trivial
  | missed => trivial
  | loaded => rw [htask] at hj; exact Nat.le_succ_of_le hj
  | holding =>
    rw [htask] at hj
    exact ⟨Nat.le_succ_of_le hj.1, Nat.lt_succ_of_lt hj.2.1,
      fun hg => absurd (Nat.lt_succ_of_le hj.1) (Nat.not_lt_of_ge (Nat.le_of_eq hg.symm)), hj.2.2.2⟩
  | sweeping =>
    rw [htask] at hj
    exact ⟨Nat.le_trans hj.1 (Nat.le_of_lt h.bumped_lt), hj.2⟩

/-- With one more shard empty, a clear is one shard closer to its end. -/
theorem Sound.sweep (h : Sound shard s) {i : ι} {since next : Nat}
    (htask : s.task i = .sweeping since next) :
    Sound shard { s.set i (.sweeping since (next + 1)) with memo := s.memo.sweep shard next } := by
  have hi := h.task i
  rw [htask] at hi
  refine ⟨Nat.lt_succ_of_lt h.bumped_lt, fun k => Nat.lt_succ_of_lt (h.readAt_lt k), h.cleared_le,
    task_set ⟨hi.1, fun k v hv hshard => ?_⟩ fun j => ?_,
    fun b hb k v hv => h.cleared b hb k v (Memo.get?_sweep hv).1,
    fun k v hv => h.current k v (Memo.get?_sweep hv).1⟩
  · obtain ⟨hold, hne⟩ := Memo.get?_sweep hv
    exact hi.2 k v hold (by omega)
  · have hj := h.task j
    cases htask : s.task j with
    | holding =>
      rw [htask] at hj
      exact ⟨hj.1, Nat.lt_succ_of_lt hj.2.1, hj.2.2⟩
    | sweeping =>
      rw [htask] at hj
      exact ⟨hj.1, fun k v hv => hj.2 k v (Memo.get?_sweep hv).1⟩
    | _ =>
      rw [htask] at hj
      exact hj

theorem Sound.clear (h : Sound shard s) {i : ι} {since next : Nat}
    (htask : s.task i = .sweeping since next) (hall : n ≤ next) :
    Sound shard { s.set i .idle with cleared := since :: s.cleared } := by
  have hi := h.task i
  rw [htask] at hi
  have hset : Sound shard (s.set i .idle) := h.set trivial
  refine ⟨hset.bumped_lt, hset.readAt_lt, fun b hb => ?_, hset.task, fun b hb k v hv => ?_,
    hset.current⟩
  · rcases List.mem_cons.mp hb with rfl | hb
    · exact hi.1
    · exact h.cleared_le b hb
  · rcases List.mem_cons.mp hb with rfl | hb
    · exact hi.2 k v hv (by omega)
    · exact h.cleared b hb k v hv

omit [DecidableEq ι] in
/-- Whatever is held or remembered was read before this commit. -/
theorem Sound.commit (h : Sound shard s) (t : Transaction) :
    Sound shard
      { s with store := t.commit s.store, committed := s.clock, clock := s.clock + 1 } where
  bumped_lt := Nat.lt_succ_of_lt h.bumped_lt
  readAt_lt k := Nat.lt_succ_of_lt (h.readAt_lt k)
  cleared_le := h.cleared_le
  task j := by
    have hj := h.task j
    change (s.task j).Sound shard _
    cases htask : s.task j with
    | holding =>
      rw [htask] at hj
      exact ⟨hj.1, Nat.lt_succ_of_lt hj.2.1, hj.2.2.1, fun hlate => absurd hlate (Nat.lt_asymm hj.2.1)⟩
    | _ =>
      rw [htask] at hj
      exact hj
  cleared := h.cleared
  current k _ _ hlate := absurd hlate (Nat.lt_asymm (h.readAt_lt k))

theorem Sound.step (h : Sound shard s) (ho : Outcome shard s e s') : Sound shard s' := by
  cases ho with
  | stay => exact h
  | done => exact h.set trivial
  | missed => exact h.set trivial
  | loaded => exact h.set (Nat.le_refl _)
  | @read i k generation v htask hcost =>
    have hi := h.task i
    rw [htask] at hi
    exact h.set ⟨hi, Nat.lt_succ_self _, fun _ => h.bumped_lt, fun _ => hcost⟩
  | remembered htask => exact h.remember htask
  | bumped => exact h.bump _
  | swept htask => exact h.sweep htask
  | cleared htask hall => exact h.clear htask hall
  | committed t => exact h.commit t

theorem Sound.run (h : Sound shard s) (events : List (Event ι)) :
    Sound shard (s.run shard events) := by
  induction events generalizing s with
  | nil => exact h
  | cons e rest ih => exact ih (h.step (outcome_step shard s e))

theorem Outcome.of_holding (ho : Outcome shard s e s') {j : ι} {k : ConnectionKey}
    {generation readAt : Nat} {v : Int} (h : s'.task j = .holding k generation v readAt) :
    s.task j = .holding k generation v readAt ∨
      e = .read j false ∧ readAt = s.clock ∧ s.store.cost? k = some v := by
  have hset {i : ι} {t : Task} (h : (if j = i then t else s.task j) = .holding k generation v readAt) :
      s.task j = .holding k generation v readAt ∨ j = i ∧ t = .holding k generation v readAt := by
    split at h
    next hj => exact .inr ⟨hj, h⟩
    next => exact .inl h
  cases ho with
  | stay => exact .inl h
  | committed => exact .inl h
  | @read i k' generation' v' _ hcost =>
    rcases hset (t := .holding k' generation' v' s.clock) h with h | ⟨rfl, ht⟩
    · exact .inl h
    · cases ht
      exact .inr ⟨rfl, rfl, hcost⟩
  | _ => exact (hset h).imp_right fun h => by cases h.2

theorem Outcome.of_get? (ho : Outcome shard s e s') {k : ConnectionKey} {v : Int}
    (h : s'.memo.get? k = some v) :
    s.memo.get? k = some v ∧ s'.readAt k = s.readAt k ∨
      ∃ i generation, s.task i = .holding k generation v (s'.readAt k) := by
  cases ho with
  | @remembered i k' generation seconds readAt htask =>
    rcases Memo.get?_remember h with h | ⟨hfree, rfl, rfl⟩
    · refine .inl ⟨h, if_neg fun hk => ?_⟩
      rw [hk.2, hk.1.2] at h
      cases h
    · refine .inr ⟨i, generation, htask.trans ?_⟩
      exact congrArg (Task.holding k generation v) (if_pos ⟨hfree, rfl⟩).symm
  | swept => exact .inl ⟨(Memo.get?_sweep h).1, rfl⟩
  | _ => exact .inl ⟨h, rfl⟩

end Step

section Run

variable (shard : ConnectionKey → Fin n) (s : Race ι)

theorem run_snoc (events : List (Event ι)) (e : Event ι) :
    s.run shard (events ++ [e]) = (s.run shard events).step shard e := by
  rw [run, List.foldl_append]
  rfl

/-- At some moment of a run a caller read that an edge costs `v`. -/
def ReadDuring (events : List (Event ι)) (k : ConnectionKey) (v : Int) (moment : Nat) : Prop :=
  ∃ before i, before ++ [.read i false] <+: events ∧ (s.run shard before).clock = moment ∧
    (s.run shard before).store.cost? k = some v

theorem readDuring_of_run (st : Store) (m : Memo) (events : List (Event ι)) :
    let s : Race ι := start st m
    let t := s.run shard events
    (∀ i k generation v readAt, t.task i = .holding k generation v readAt →
        s.ReadDuring shard events k v readAt) ∧
      ∀ k v, t.memo.get? k = some v →
        m.get? k = some v ∧ t.readAt k = 0 ∨ s.ReadDuring shard events k v (t.readAt k) := by
  intro s
  induction events using List.reverseRecOn with
  | nil => exact ⟨fun _ _ _ _ _ h => (by cases h), fun k v h => .inl ⟨h, rfl⟩⟩
  | append_singleton events e ih =>
    have hlater {k v readAt} (h : s.ReadDuring shard events k v readAt) :
        s.ReadDuring shard (events ++ [e]) k v readAt := by
      obtain ⟨before, i, hp, h⟩ := h
      exact ⟨before, i, hp.trans (List.prefix_append _ _), h⟩
    have ho := outcome_step shard (s.run shard events) e
    rw [run_snoc]
    refine ⟨fun i k generation v readAt h => ?_, fun k v h => ?_⟩
    · rcases ho.of_holding h with h | ⟨rfl, rfl, hcost⟩
      · exact hlater (ih.1 i k generation v readAt h)
      · exact ⟨events, i, List.prefix_rfl, rfl, hcost⟩
    · rcases ho.of_get? h with ⟨h, hat⟩ | ⟨i, generation, h⟩
      · rw [hat]
        exact (ih.2 k v h).imp_right hlater
      · exact .inr (hlater (ih.1 i k generation v _ h))

end Run

section Undisturbed

variable {shard : ConnectionKey → Fin n} {s : Race ι} {i : ι}

theorem run_cons (e : Event ι) (events : List (Event ι)) :
    s.run shard (e :: events) = (s.step shard e).run shard events := rfl

theorem task_set_self (t : Task) : (s.set i t).task i = t := if_pos rfl

theorem step_sweep {since next : Nat} (htask : s.task i = .sweeping since next) :
    s.step shard (.sweep i) =
      if next < n then
        { s.set i (.sweeping since (next + 1)) with memo := s.memo.sweep shard next }
      else { s.set i .idle with cleared := since :: s.cleared } := by
  rw [step, htask]

theorem memo_run_sweeps {since next m : Nat} (htask : s.task i = .sweeping since next)
    (hm : next + m = n) :
    (s.run shard (.replicate (m + 1) (.sweep i))).memo =
      { s.memo with edges := s.memo.edges.filter fun k _ => (shard k).val < next } := by
  induction m generalizing s next with
  | zero =>
    rw [List.replicate_succ, run_cons, step_sweep htask, if_neg (by omega)]
    change s.memo = _
    rw [Table.filter_eq_self]
    intro e _
    exact decide_eq_true (by have hlt := (shard e.1).isLt; omega)
  | succ m ih =>
    have hnext : ({ s.set i (.sweeping since (next + 1)) with
        memo := s.memo.sweep shard next } : Race ι).task i = .sweeping since (next + 1) :=
      task_set_self _
    rw [List.replicate_succ, run_cons, step_sweep htask, if_pos (by omega)]
    refine (ih hnext (by omega)).trans ?_
    dsimp only [Memo.sweep]
    rw [Table.filter_filter]
    congr 2
    funext k _
    rw [← Bool.decide_and, decide_eq_decide]
    omega

theorem memo_run_clear (hi : s.task i = .idle) :
    (s.run shard (.bump i :: .replicate (n + 1) (.sweep i))).memo = s.memo.clear := by
  have hstep : s.step shard (.bump i) =
      { s.set i (.sweeping s.clock 0) with memo := s.memo.bump, bumped := s.clock } := by
    rw [step, hi]
  have hnext : (s.step shard (.bump i)).task i = .sweeping s.clock 0 := by
    rw [hstep]
    exact task_set_self _
  rw [run_cons]
  refine (memo_run_sweeps hnext (Nat.zero_add n)).trans ?_
  rw [hstep, Table.filter_eq_empty]
  · rfl
  · intro e _
    exact decide_eq_false (Nat.not_lt_zero _)

theorem memo_run_lookup (hi : s.task i = .idle) (k : ConnectionKey) {src : Source}
    (hstore : src.store = s.store) (hmemo : src.memo = s.memo) (hovertaking : src.overtaking = none) :
    (s.run shard [.lookup i k, .load i, .read i (src.outage src.calls .connection).isSome,
      .remember i]).memo = (src.run (Access.travelSeconds k)).2.memo := by
  have hget : src.run (getThe Source : Access StoreError Source) = (.ok src, src) := rfl
  rw [Access.travelSeconds, Source.run_bind_of_ok _ hget, hmemo]
  dsimp only
  cases hm : s.memo.get? k with
  | some v => simp [run, step, set, hi, hm, hmemo]
  | none =>
    dsimp only
    rw [Source.run_bind, Source.run_connection? hovertaking, Source.answer, hstore]
    cases src.outage src.calls .connection with
    | some e => simp [run, step, set, hi, hm, hmemo]
    | none =>
      cases hc : s.store.connection? k with
      | none => simp [run, step, set, hi, hm, hmemo, Store.cost?, hc]
      | some c =>
        have hlookup : (s.run shard [.lookup i k, .load i, .read i false, .remember i]).memo =
            s.memo.remember s.memo.generation k c.travelSeconds := by
          simp [run, step, set, hi, hm, Store.cost?, hc]
        refine hlookup.trans ?_
        rw [← hmemo]
        rfl

end Undisturbed

/-- However callers and commits overtake each other: what is remembered was there from the start
or was read when the record says; no cost read before a clear that is over is remembered; and if
such a clear began behind the last commit, everything that is remembered is current. -/
theorem clear_outdates (shard : ConnectionKey → Fin n) (st : Store) (m : Memo)
    (events : List (Event ι)) :
    let s : Race ι := start st m
    let t := s.run shard events
    (∀ k v, t.memo.get? k = some v →
        m.get? k = some v ∧ t.readAt k = 0 ∨ s.ReadDuring shard events k v (t.readAt k)) ∧
      (∀ b ∈ t.cleared, ∀ k v, t.memo.get? k = some v → b < t.readAt k) ∧
      ((∃ b ∈ t.cleared, t.committed < b) →
        ∀ k v, t.memo.get? k = some v → t.store.cost? k = some v) := by
  intro s t
  have hsound : Sound shard t := (sound_start shard st m).run events
  refine ⟨(readDuring_of_run shard st m events).2, hsound.cleared, ?_⟩
  rintro ⟨b, hb, hlate⟩ k v hk
  exact hsound.current k v hk (Nat.lt_trans hlate (hsound.cleared b hb k v hk))

example :
    let st := (default : Store).saveConnection ⟨"a", "b", "l", 60, 0, 0⟩
    let t := (start st .empty : Race Bool).run (fun _ => (0 : Fin 1))
      [.lookup true ⟨"a", "b"⟩, .load true, .read true false,
        .commit (Transaction.empty.saveConnection ⟨"a", "b", "l", 90, 0, 0⟩),
        .bump false, .sweep false, .sweep false, .remember true]
    t.committed = 4 ∧ t.cleared = [5] ∧ t.memo.isEmpty = true :=
  ⟨rfl, rfl, rfl⟩

end Race

end Arrivals
