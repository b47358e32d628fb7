import Arrivals.Expiring
import Arrivals.Proofs.Clock
import Mathlib.Data.Set.Card

/-! A table with expiry against the plain map that it stands for, over a run of calls. Main statement: as
long as the clock does not go back, nobody can tell them apart; and whatever the clock does, nothing is
shown that the map does not show. -/

namespace Arrivals.Expiring

variable {κ α : Type}

inductive Call (κ α : Type) where
  | set (k : κ) (a : α) (ttl : Span)
  | get (k : κ)
  | contains (k : κ)
  | remove (k : κ)
  | entries
  | count
  | sweep

namespace Call

abbrev Result : Call κ α → Type
  | set _ _ _ => Unit
  | get _ => Option α
  | contains _ => Bool
  | remove _ => Option α
  | entries => List (κ × α)
  | count => Nat
  | sweep => Nat

/-- Calls that are meant to change what is there. -/
def writes : Call κ α → Bool
  | set _ _ _ => true
  | remove _ => true
  | get _ => false
  | contains _ => false
  | entries => false
  | count => false
  | sweep => false

/-- The order of the entries does not matter, and a sweep tells nothing of what can be seen. -/
def SameResult : (c : Call κ α) → c.Result → c.Result → Prop
  | set _ _ _, _, _ => True
  | get _, r, r' => r = r'
  | contains _, r, r' => r = r'
  | remove _, r, r' => r = r'
  | entries, l, l' => List.Perm l l'
  | count, n, n' => n = n'
  | sweep, _, _ => True

end Call

/-- A call, with the time that the clock shows. -/
structure Event (κ α : Type) where
  time : Instant
  call : Call κ α

/-- Under each key what was put there last, and until when, unless it was taken away since. -/
def Plain (κ α : Type) := κ → Option (Lease α)

namespace Plain

def empty : Plain κ α := fun _ => none

def visible? (m : Plain κ α) (now : Instant) (k : κ) : Option α :=
  ((m k).filter fun l => now < l.expires).map Lease.value

/-- What a call is to answer on a plain map. -/
def Answers (m : Plain κ α) (now : Instant) : (c : Call κ α) → c.Result → Prop
  | .set _ _ _, _ => True
  | .get k, found => found = m.visible? now k
  | .contains k, found => found = (m.visible? now k).isSome
  | .remove k, found => found = m.visible? now k
  | .entries, l => (List.map Prod.fst l).Nodup ∧ ∀ k a, (k, a) ∈ l ↔ m.visible? now k = some a
  | .count, n => n = {k | (m.visible? now k).isSome}.ncard
  | .sweep, _ => True

/-- What is answered is there on the plain map, and has not expired. -/
def Allows (m : Plain κ α) (now : Instant) : (c : Call κ α) → c.Result → Prop
  | .set _ _ _, _ => True
  | .get k, found => ∀ a, found = some a → m.visible? now k = some a
  | .contains k, found => found = true → ∃ a, m.visible? now k = some a
  | .remove k, found => ∀ a, found = some a → m.visible? now k = some a
  | .entries, l => ∀ k a, (k, a) ∈ l → m.visible? now k = some a
  | .count, _ => True
  | .sweep, _ => True

theorem visible?_eq_some_iff {m : Plain κ α} {now : Instant} {k : κ} {a : α} :
    m.visible? now k = some a ↔ ∃ l, m k = some l ∧ now < l.expires ∧ l.value = a := by
  simp [visible?, Option.filter_eq_some_iff, and_assoc]

/-- A plain map leaves a call one answer only. -/
theorem Answers.same {m : Plain κ α} {now : Instant} {c : Call κ α} {r r' : c.Result}
    (h : m.Answers now c r) (h' : m.Answers now c r') : c.SameResult r r' := by
  cases c with
  | set => trivial
  | get => exact Eq.trans h (Eq.symm h')
  | contains => exact Eq.trans h (Eq.symm h')
  | remove => exact Eq.trans h (Eq.symm h')
  | entries =>
    refine (List.perm_ext_iff_of_nodup h.1.of_map h'.1.of_map).mpr fun (k, a) => ?_
    exact (h.2 k a).trans (h'.2 k a).symm
  | count => exact Eq.trans h (Eq.symm h')
  | sweep => trivial

variable [DecidableEq κ]

def step (m : Plain κ α) (e : Event κ α) : Plain κ α :=
  match e.call with
  | .set k a ttl => fun j => if k = j then some ⟨a, e.time.after ttl⟩ else m j
  | .remove k => fun j => if j = k then none else m j
  | .get _ => m
  | .contains _ => m
  | .entries => m
  | .count => m
  | .sweep => m

def run (events : List (Event κ α)) : Plain κ α := events.foldl step empty

theorem run_append (events : List (Event κ α)) (e : Event κ α) :
    run (events ++ [e]) = (run events).step e := by
  rw [run, List.foldl_append]
  rfl

theorem step_of_not_writes {e : Event κ α} (h : e.call.writes = false) (m : Plain κ α) :
    m.step e = m := by
  rw [step]
  cases hc : e.call <;> simp_all [Call.writes]

theorem run_filter_writes (events : List (Event κ α)) :
    run (events.filter fun e => e.call.writes) = run events := by
  induction events using List.reverseRecOn with
  | nil => rfl
  | append_singleton events e ih =>
    rw [List.filter_append, run_append, List.filter_singleton]
    cases h : e.call.writes with
    | true => rw [Bool.cond_true, run_append, ih]
    | false => rw [Bool.cond_false, List.append_nil, ih, step_of_not_writes h]

end Plain

theorem liveCount_le_size (t : Expiring κ α) (now : Instant) : t.liveCount now ≤ t.size :=
  List.length_filterMap_le _ _

theorem size_sweep (t : Expiring κ α) (now : Instant) : (t.sweep now).size = t.liveCount now := by
  change (t.leases.entries.filter fun e => e.2.live now).length =
    (t.leases.entries.filterMap fun e => (e.2.current? now).map fun a => (e.1, a)).length
  induction t.leases.entries with
  | nil => rfl
  | cons e rest ih =>
    rw [List.filter_cons, List.filterMap_cons, Lease.current?]
    cases e.2.live now <;> simp [ih]

variable [DecidableEq κ] {t : Expiring κ α} {m : Plain κ α} {now : Instant}

def answer (t : Expiring κ α) (now : Instant) : (c : Call κ α) → c.Result
  | .set _ _ _ => ()
  | .get k => t.visible? now k
  | .contains k => (t.visible? now k).isSome
  | .remove k => t.visible? now k
  | .entries => t.liveEntries now
  | .count => t.liveCount now
  | .sweep => t.size - (t.sweep now).size

def step (t : Expiring κ α) (e : Event κ α) : Expiring κ α :=
  match e.call with
  | .set k a ttl => t.set e.time k a ttl
  | .get k => t.touch e.time k
  | .contains k => t.touch e.time k
  | .remove k => t.erase k
  | .entries => t
  | .count => t
  | .sweep => t.sweep e.time

def run (events : List (Event κ α)) : Expiring κ α := events.foldl step empty

theorem run_append (events : List (Event κ α)) (e : Event κ α) :
    run (events ++ [e]) = (run events).step e := by
  rw [run, List.foldl_append]
  rfl

/-- What is stored is what the plain map holds, though some of that may be gone. -/
def Within (t : Expiring κ α) (m : Plain κ α) : Prop := ∀ k l, t.leases.get? k = some l → m k = some l

theorem within_empty : (empty : Expiring κ α).Within .empty := fun _ _ h => by cases h

theorem Within.of_filter {p : κ → Lease α → Bool} (h : t.Within m) :
    Within ⟨t.leases.filter p⟩ m := by
  intro k l hl
  rw [Table.get?_filter, Option.filter_eq_some_iff] at hl
  exact h k l hl.1

theorem Within.step (h : t.Within m) (e : Event κ α) : (t.step e).Within (m.step e) := by
  rw [Expiring.step, Plain.step]
  cases e.call with
  | set k a ttl =>
    intro j l hl
    dsimp only [set] at hl
    rw [Table.get?_insert] at hl
    dsimp only
    split at hl
    next hj => rw [if_pos hj, hl]
    next hj => rw [if_neg hj, h j l hl]
  | remove k =>
    intro j l hl
    dsimp only [erase] at hl
    rw [Table.get?_erase] at hl
    dsimp only
    split at hl
    next => cases hl
    next hj => rw [if_neg hj, h j l hl]
  | get => exact h.of_filter
  | contains => exact h.of_filter
  | entries => exact h
  | count => exact h
  | sweep => exact h.of_filter

theorem within_run (events : List (Event κ α)) : (run events).Within (.run events) := by
  induction events using List.reverseRecOn with
  | nil => exact within_empty
  | append_singleton events e ih =>
    rw [run_append, Plain.run_append]
    exact ih.step e

theorem Within.visible {k : κ} {a : α} (h : t.Within m) (ha : t.visible? now k = some a) :
    m.visible? now k = some a := by
  obtain ⟨l, hl, hlive, hvalue⟩ := visible?_eq_some_iff.mp ha
  exact Plain.visible?_eq_some_iff.mpr ⟨l, h k l hl, hlive, hvalue⟩

theorem Within.allows (h : t.Within m) (c : Call κ α) : m.Allows now c (t.answer now c) := by
  cases c with
  | set => trivial
  | get k => exact fun a => h.visible
  | contains k => exact fun hsome => (Option.isSome_iff_exists.mp hsome).imp fun a => h.visible
  | remove k => exact fun a => h.visible
  | entries => exact fun k a hmem => h.visible (mem_liveEntries_iff.mp hmem)
  | count => trivial
  | sweep => trivial

/-- From now on, the same can be seen of both. -/
def Shows (t : Expiring κ α) (m : Plain κ α) (now : Instant) : Prop :=
  ∀ later, now ≤ later → ∀ k, t.visible? later k = m.visible? later k

theorem shows_empty (now : Instant) : (empty : Expiring κ α).Shows .empty now := fun _ _ _ => rfl

theorem Shows.from {later : Instant} (h : t.Shows m now) (hlater : now ≤ later) :
    t.Shows m later :=
  fun after hafter => h after (Int.le_trans hlater hafter)

theorem Shows.step (h : t.Shows m now) {e : Event κ α} (he : now ≤ e.time) :
    (t.step e).Shows (m.step e) e.time := by
  intro later hlater j
  have hbefore := h later (Int.le_trans he hlater) j
  rw [Expiring.step, Plain.step]
  cases e.call with
  | set k a ttl =>
    dsimp only
    simp only [visible?_set, hbefore, Plain.visible?]
    by_cases hj : k = j
    · by_cases hlive : later < e.time.after ttl <;> simp [hj, hlive]
    · rw [if_neg hj, if_neg hj]
  | remove k =>
    dsimp only
    simp only [visible?_erase, hbefore, Plain.visible?]
    by_cases hj : j = k
    · rw [if_pos hj, if_pos hj]
      rfl
    · rw [if_neg hj, if_neg hj]
  | get k => exact (visible?_touch t hlater k j).trans hbefore
  | contains k => exact (visible?_touch t hlater k j).trans hbefore
  | entries => exact hbefore
  | count => exact hbefore
  | sweep => exact (visible?_sweep t hlater j).trans hbefore

theorem shows_run {events : List (Event κ α)}
    (hclock : (events.map Event.time ++ [now]).Pairwise (· ≤ ·)) :
    (run events).Shows (.run events) now := by
  refine Instant.run_induction (P := fun events now => (run events).Shows (.run events) now)
    shows_empty Shows.from (fun e h => ?_) hclock
  rw [run_append, Plain.run_append]
  exact h.step (Int.le_refl _)

theorem liveCount_eq_ncard (t : Expiring κ α) (now : Instant) :
    t.liveCount now = {k | (t.visible? now k).isSome}.ncard := by
  have hset : {k | (t.visible? now k).isSome} = ((t.liveEntries now).map Prod.fst).toFinset := by
    ext k
    simp [Option.isSome_iff_exists, mem_liveEntries_iff]
  rw [hset, Set.ncard_coe_finset, List.toFinset_card_of_nodup (t.nodup_keys_liveEntries now),
    List.length_map, liveCount]

theorem Shows.answers (h : t.Shows m now) (c : Call κ α) : m.Answers now c (t.answer now c) := by
  have hnow := h now (Int.le_refl _)
  cases c with
  | set => trivial
  | get k => exact hnow k
  | contains k => exact congrArg Option.isSome (hnow k)
  | remove k => exact hnow k
  | entries =>
    refine ⟨t.nodup_keys_liveEntries now, fun k a => ?_⟩
    rw [← hnow k]
    exact mem_liveEntries_iff
  | count =>
    have hcount := t.liveCount_eq_ncard now
    simp only [hnow] at hcount
    exact hcount
  | sweep => trivial

theorem liveCount_sweep (t : Expiring κ α) (now : Instant) :
    (t.sweep now).liveCount now = t.liveCount now := by
  rw [liveCount_eq_ncard, liveCount_eq_ncard]
  simp only [visible?_sweep t (Int.le_refl now.nanos)]

/-- As long as the clock does not go back, a table with expiry answers as the plain map does, and calls
that write nothing make no difference to later answers. Whatever the clock does, what is answered is on the
plain map and has not expired, no fewer entries are stored than live, and a sweep leaves the live ones and
tells how many others there were. -/
theorem run_mimics_plain (events : List (Event κ α)) :
    (∀ now, (events.map Event.time ++ [now]).Pairwise (· ≤ ·) → ∀ c,
      (Plain.run events).Answers now c ((run events).answer now c) ∧
      ∀ others : List (Event κ α), (others.map Event.time ++ [now]).Pairwise (· ≤ ·) →
        others.filter (fun e => e.call.writes) = events.filter (fun e => e.call.writes) →
          c.SameResult ((run others).answer now c) ((run events).answer now c)) ∧
    ∀ now, (∀ c, (Plain.run events).Allows now c ((run events).answer now c)) ∧
      (run events).liveCount now ≤ (run events).size ∧
      let swept := (run events).step ⟨now, .sweep⟩
      swept.size + ((run events).answer now .sweep : Nat) = (run events).size ∧
        swept.size = swept.liveCount now := by
  refine ⟨fun now hclock c => ?_, fun now => ⟨(within_run events).allows, ?_, ?_, ?_⟩⟩
  · have hanswers := (shows_run hclock).answers c
    refine ⟨hanswers, fun others hothers hwrites => Plain.Answers.same ?_ hanswers⟩
    rw [← Plain.run_filter_writes events, ← hwrites, Plain.run_filter_writes]
    exact (shows_run hothers).answers c
  · exact (run events).liveCount_le_size now
  · have hle := (run events).liveCount_le_size now
    rw [← size_sweep] at hle
    exact Nat.add_sub_of_le hle
  · exact ((run events).size_sweep now).trans ((run events).liveCount_sweep now).symm

/-- A value that lasts five seconds is asked for after six, which drops it. -/
def cellar : List (Event String Int) :=
  [⟨.ofMillis 0, .set "a" 1 (.ofSeconds 5)⟩, ⟨.ofMillis 0, .set "b" 2 (.ofSeconds 50)⟩,
    ⟨.ofMillis 3000, .set "c" 3 (.ofSeconds 50)⟩, ⟨.ofMillis 6000, .get "a"⟩,
    ⟨.ofMillis 7000, .remove "c"⟩]

theorem run_mimics_plain_cellar :
    let now := Instant.ofMillis 10000
    (cellar.map Event.time ++ [now]).Pairwise (· ≤ ·) ∧ (run cellar).size = 1 ∧
      (Plain.run cellar).Answers now .entries [("b", 2)] ∧
      ∀ others : List (Event String Int), (others.map Event.time ++ [now]).Pairwise (· ≤ ·) →
        others.filter (fun e => e.call.writes) = cellar.filter (fun e => e.call.writes) →
          (run others).answer now (.get "b") = some 2 := by
  intro now
  have hclock : (cellar.map Event.time ++ [now]).Pairwise (· ≤ ·) := by decide +kernel
  have hruns := (run_mimics_plain cellar).1 now hclock
  exact ⟨hclock, by decide +kernel, (hruns .entries).1, (hruns (.get "b")).2⟩

end Arrivals.Expiring
