import Arrivals.Proofs.Activity.Markers
import Arrivals.Proofs.Clock

/-! Counting riders over a run of registrations, sweeps and counts. Main statement: a count is the number
of users whose latest registration lists the line and has not run out, rounded down. -/

namespace Arrivals

structure Registration where
  user : UserId
  time : Instant
  lines : List Line
  justEntered : Bool

namespace Registration

def ttl (r : Registration) (limits : ActivityLimits) : Span :=
  if r.justEntered = true ∨ 1 < r.lines.length then limits.longTtl else limits.shortTtl

theorem ttlFor_eq (r : Registration) (limits : ActivityLimits) :
    Activity.ttlFor limits r.lines r.justEntered = r.ttl limits := by
  simp [Activity.ttlFor, ttl]

/-- It was made less than its time to live ago. -/
def Lasts (r : Registration) (limits : ActivityLimits) (now : Instant) : Prop :=
  now.since r.time < r.ttl limits

instance (r : Registration) (limits : ActivityLimits) (now : Instant) :
    Decidable (r.Lasts limits now) := inferInstanceAs (Decidable (_ < _))

theorem lasts_iff {r : Registration} {limits : ActivityLimits} {now : Instant} :
    r.Lasts limits now ↔ now < r.time.after (r.ttl limits) := by
  change now.nanos - r.time.nanos < (r.ttl limits).nanos ↔
    now.nanos < r.time.nanos + (r.ttl limits).nanos
  omega

/-- One of its lines goes by that id, or by that network. -/
def Lists (r : Registration) (key : Line → String) (id : String) : Prop :=
  ∃ l ∈ r.lines, key l = id

instance (r : Registration) (key : Line → String) (id : String) : Decidable (r.Lists key id) :=
  inferInstanceAs (Decidable (∃ _ ∈ _, _))

end Registration

namespace Activity

inductive Event where
  | register (r : Registration)
  | sweep (now : Instant)
  | countLine (now : Instant) (line : LineId)
  | countNetwork (now : Instant) (network : NetworkId)

def Event.time : Event → Instant
  | register r => r.time
  | sweep now => now
  | countLine now _ => now
  | countNetwork now _ => now

/-- The markers, and the registrations that were not refused, the latest first. -/
structure Roll where
  activity : Activity
  accepted : List Registration

namespace Roll

def empty : Roll := ⟨.empty, []⟩

def step (limits : ActivityLimits) (roll : Roll) : Event → Roll
  | .register r =>
    match roll.activity.register limits r.time r.lines r.user r.justEntered with
    | .ok activity => ⟨activity, r :: roll.accepted⟩
    | .error _ => roll
  | .sweep now => { roll with activity := roll.activity.sweep now }
  | .countLine _ _ => roll
  | .countNetwork _ _ => roll

def run (limits : ActivityLimits) (events : List Event) : Roll := events.foldl (step limits) .empty

def latest? (roll : Roll) (user : UserId) : Option Registration :=
  roll.accepted.find? fun r => r.user = user

def Rides (roll : Roll) (limits : ActivityLimits) (now : Instant) (key : Line → String)
    (id : String) (user : UserId) : Prop :=
  ∃ r ∈ roll.latest? user, r.Lists key id ∧ r.Lasts limits now

instance (roll : Roll) (limits : ActivityLimits) (now : Instant) (key : Line → String) (id : String)
    (user : UserId) : Decidable (roll.Rides limits now key id user) :=
  inferInstanceAs (Decidable (∃ _ ∈ _, _))

def riders (roll : Roll) (limits : ActivityLimits) (now : Instant) (key : Line → String)
    (id : String) : Finset UserId :=
  (roll.accepted.map Registration.user).toFinset.filter (roll.Rides limits now key id)

/-- The event is no registration by the user, or one that is refused. -/
def Spares (roll : Roll) (limits : ActivityLimits) (user : UserId) : Event → Prop
  | .register r => r.user = user → ∃ refusal,
      roll.activity.register limits r.time r.lines r.user r.justEntered = .error refusal
  | .sweep _ => True
  | .countLine _ _ => True
  | .countNetwork _ _ => True

variable {limits : ActivityLimits} {roll : Roll} {now later : Instant} {key : Line → String}
  {id : String} {user : UserId}

theorem mem_riders_iff : user ∈ roll.riders limits now key id ↔ roll.Rides limits now key id user := by
  rw [riders, Finset.mem_filter, List.mem_toFinset, List.mem_map]
  refine ⟨And.right, fun h => ⟨?_, h⟩⟩
  obtain ⟨r, hr, _⟩ := h
  exact ⟨r, List.mem_of_find?_eq_some hr, by simpa using List.find?_some hr⟩

theorem latest?_step {e : Event} (h : roll.Spares limits user e) :
    (roll.step limits e).latest? user = roll.latest? user := by
  cases e with
  | register r =>
    rw [step]
    split
    next activity hok =>
      have hne : r.user ≠ user := fun he => by
        obtain ⟨refusal, herror⟩ := h he
        rw [hok] at herror
        cases herror
      simp [latest?, hne]
    next => rfl
  | sweep => rfl
  | countLine => rfl
  | countNetwork => rfl

/-- From now on, those who are marked in a table are those who ride by the roll. -/
def Mirrors (t : Table String Markers) (key : Line → String) (limits : ActivityLimits) (roll : Roll)
    (now : Instant) : Prop :=
  ∀ later, now ≤ later → ∀ id user,
    Marked t later id user ↔ roll.Rides limits later key id user

theorem Mirrors.from {t : Table String Markers} (h : Mirrors t key limits roll now)
    (hlater : now ≤ later) : Mirrors t key limits roll later :=
  fun after hafter => h after (Int.le_trans hlater hafter)

theorem Mirrors.markOnly {t : Table String Markers} (h : Mirrors t key limits roll now)
    (activity : Activity) {r : Registration} (hr : now ≤ r.time) :
    Mirrors (markOnly t r.time r.user (ttlFor limits r.lines r.justEntered) (r.lines.map key)) key
      limits ⟨activity, r :: roll.accepted⟩ r.time := by
  intro later hlater id user
  rw [marked_markOnly, h later (Int.le_trans hr hlater), Rides, Rides, latest?, latest?, r.ttlFor_eq,
    ← Registration.lasts_iff, List.mem_map, List.find?_cons]
  by_cases hu : r.user = user
  · simp [hu, Registration.Lists]
  · simp [hu, Ne.symm hu]

theorem Mirrors.sweep {t : Table String Markers} (h : Mirrors t key limits roll now)
    {at_ : Instant} (hat : now ≤ at_) : Mirrors (sweepMarkers t at_) key limits roll at_ := by
  intro later hlater id user
  rw [marked_sweepMarkers hlater]
  exact h later (Int.le_trans hat hlater) id user

structure Sound (limits : ActivityLimits) (roll : Roll) (now : Instant) : Prop where
  lines : Mirrors roll.activity.lines Line.id limits roll now
  networks : Mirrors roll.activity.networks Line.network limits roll now

theorem sound_empty (limits : ActivityLimits) (now : Instant) : empty.Sound limits now where
  lines _ _ _ _ := ⟨fun h => absurd h not_marked_empty, nofun⟩
  networks _ _ _ _ := ⟨fun h => absurd h not_marked_empty, nofun⟩

theorem Sound.from (h : roll.Sound limits now) (hlater : now ≤ later) : roll.Sound limits later :=
  ⟨h.lines.from hlater, h.networks.from hlater⟩

theorem Sound.step (h : roll.Sound limits now) {e : Event} (he : now ≤ e.time) :
    (roll.step limits e).Sound limits e.time := by
  cases e with
  | register r =>
    rw [Roll.step]
    split
    next activity hok =>
      rw [register_eq_ok hok]
      exact ⟨h.lines.markOnly _ he, h.networks.markOnly _ he⟩
    next => exact h.from he
  | sweep => exact ⟨h.lines.sweep he, h.networks.sweep he⟩
  | countLine => exact h.from he
  | countNetwork => exact h.from he

theorem sound_run {events : List Event}
    (hclock : (events.map Event.time ++ [now]).Pairwise (· ≤ ·)) :
    (run limits events).Sound limits now := by
  refine Instant.run_induction (P := fun events now => (run limits events).Sound limits now)
    (sound_empty limits) Sound.from (fun e h => ?_) hclock
  rw [run, List.foldl_append]
  exact h.step (Int.le_refl _)

end Roll

/-- Rounded down to a multiple of the bucket, unless that is nought. -/
def RoundsTo (bucket count rounded : Nat) : Prop :=
  if bucket = 0 then rounded = count else bucket ∣ rounded ∧ rounded ≤ count ∧ count < rounded + bucket

theorem roundsTo_roundDown (limits : ActivityLimits) (count : Nat) :
    RoundsTo limits.fudgeBucket count (roundDown limits count) := by
  rw [RoundsTo, roundDown]
  split
  next => rfl
  next h =>
    have hmod := Nat.div_add_mod' count limits.fudgeBucket
    have hlt := Nat.mod_lt count (Nat.pos_of_ne_zero h)
    exact ⟨Nat.dvd_mul_left _ _, by omega, by omega⟩

/-- As long as the clock does not go back, each count is the number of users whose latest registration
that was not refused lists the line, or a line of the network, and has not run out. Nothing but
registrations of their own that are not refused changes whether they are counted. -/
theorem run_counts_riders (limits : ActivityLimits) {events : List Event} {now : Instant}
    (hclock : (events.map Event.time ++ [now]).Pairwise (· ≤ ·)) :
    let roll := Roll.run limits events
    (∀ line, RoundsTo limits.fudgeBucket (roll.riders limits now Line.id line).card
      (roll.activity.countLine limits now line)) ∧
    (∀ network, RoundsTo limits.fudgeBucket (roll.riders limits now Line.network network).card
      (roll.activity.countNetwork limits now network)) ∧
    ∀ e user, now ≤ e.time → roll.Spares limits user e → ∀ later, e.time ≤ later → ∀ id,
      (Marked (roll.step limits e).activity.lines later id user ↔
        Marked roll.activity.lines later id user) ∧
      (Marked (roll.step limits e).activity.networks later id user ↔
        Marked roll.activity.networks later id user) := by
  intro roll
  have hroll : roll.Sound limits now := Roll.sound_run hclock
  refine ⟨fun line => ?_, fun network => ?_, fun e user he hspares later hlater id => ?_⟩
  · rw [countLine, ridersUnder_eq_card fun u =>
      Roll.mem_riders_iff.trans (hroll.lines now (Int.le_refl _) line u).symm]
    exact roundsTo_roundDown limits _
  · rw [countNetwork, ridersUnder_eq_card fun u =>
      Roll.mem_riders_iff.trans (hroll.networks now (Int.le_refl _) network u).symm]
    exact roundsTo_roundDown limits _
  · have hstep := hroll.step he
    have hnow := Int.le_trans he hlater
    rw [hstep.lines later hlater, hroll.lines later hnow, hstep.networks later hlater,
      hroll.networks later hnow, Roll.Rides, Roll.Rides, Roll.Rides, Roll.Rides,
      Roll.latest?_step hspares]
    exact ⟨Iff.rfl, Iff.rfl⟩

def blue : Line := ⟨"blue", "Blue", "metro", ["a", "b"], 6⟩

def green : Line := ⟨"green", "Green", "metro", ["b", "c"], 6⟩

def red : Line := ⟨"red", "Red", "rail", ["c", "d"], 6⟩

/-- Counts in twos; a marker lasts four minutes or eight, and there is room for three ids. -/
def evening : ActivityLimits := ⟨2, .ofSeconds 240, .ofSeconds 480, 3⟩

/-- One rider settles, one changes lines, one comes late; the first is refused the red line, which
would bring a fourth id. -/
def eveningEvents : List Event :=
  [.register ⟨"u", .ofMillis 0, [blue], false⟩, .register ⟨"v", .ofMillis 0, [blue, green], false⟩,
    .register ⟨"u", .ofMillis 60000, [red], true⟩, .register ⟨"w", .ofMillis 120000, [blue], false⟩,
    .sweep (.ofMillis 200000), .countLine (.ofMillis 210000) "blue"]

theorem run_counts_riders_evening :
    let roll := Roll.run evening eveningEvents
    let now := Instant.ofMillis 250000
    (eveningEvents.map Event.time ++ [now]).Pairwise (· ≤ ·) ∧
      roll.riders evening now Line.id "blue" = {"v", "w"} ∧
      RoundsTo 2 2 (roll.activity.countLine evening now "blue") ∧
      (¬ Marked roll.activity.lines now "blue" "u" ∧ ¬ Marked roll.activity.lines now "red" "u") ∧
      (Marked (roll.step evening (.sweep now)).activity.lines now "blue" "w" ↔
        Marked roll.activity.lines now "blue" "w") := by
  intro roll now
  have hclock : (eveningEvents.map Event.time ++ [now]).Pairwise (· ≤ ·) := by decide +kernel
  have hriders : roll.riders evening now Line.id "blue" = {"v", "w"} := by decide +kernel
  obtain ⟨hline, -, hspares⟩ := run_counts_riders evening hclock
  have hcount := hline "blue"
  rw [hriders] at hcount
  exact ⟨hclock, hriders, hcount, by decide +kernel,
    (hspares (.sweep now) "w" (Int.le_refl _) trivial now (Int.le_refl _) "blue").1⟩

end Activity

end Arrivals
