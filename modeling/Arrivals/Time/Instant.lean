/-! Moments and lengths of time, both counted in nanoseconds. Whole seconds of a length are cut
towards zero; a moment's Unix second and millisecond are its floor. -/

namespace Arrivals

/-- Negative when it runs backwards. -/
structure Span where
  nanos : Int
  deriving DecidableEq, Repr, Inhabited

/-- Nanoseconds since the Unix epoch. -/
structure Instant where
  nanos : Int
  deriving DecidableEq, Repr, Inhabited

namespace Span

def ofNanos (n : Int) : Span := ⟨n⟩
def ofMillis (n : Int) : Span := ⟨n * 1000000⟩
def ofSeconds (n : Int) : Span := ⟨n * 1000000000⟩

/-- Truncated towards zero. -/
def seconds (s : Span) : Int := s.nanos.tdiv 1000000000

def millis (s : Span) : Int := s.nanos.tdiv 1000000

instance : LT Span := ⟨fun a b => a.nanos < b.nanos⟩
instance : LE Span := ⟨fun a b => a.nanos ≤ b.nanos⟩
instance (a b : Span) : Decidable (a < b) := inferInstanceAs (Decidable (a.nanos < b.nanos))
instance (a b : Span) : Decidable (a ≤ b) := inferInstanceAs (Decidable (a.nanos ≤ b.nanos))

end Span

namespace Instant

def ofMillis (n : Int) : Instant := ⟨n * 1000000⟩

def unixSeconds (t : Instant) : Int := t.nanos.fdiv 1000000000

def unixMillis (t : Instant) : Int := t.nanos.fdiv 1000000

def since (t from_ : Instant) : Span := ⟨t.nanos - from_.nanos⟩

def after (t : Instant) (s : Span) : Instant := ⟨t.nanos + s.nanos⟩

def before (t : Instant) (s : Span) : Instant := ⟨t.nanos - s.nanos⟩

instance : LT Instant := ⟨fun a b => a.nanos < b.nanos⟩
instance : LE Instant := ⟨fun a b => a.nanos ≤ b.nanos⟩
instance (a b : Instant) : Decidable (a < b) := inferInstanceAs (Decidable (a.nanos < b.nanos))
instance (a b : Instant) : Decidable (a ≤ b) := inferInstanceAs (Decidable (a.nanos ≤ b.nanos))

theorem lt_iff {a b : Instant} : a < b ↔ a.nanos < b.nanos := Iff.rfl
theorem le_iff {a b : Instant} : a ≤ b ↔ a.nanos ≤ b.nanos := Iff.rfl

@[simp] theorem after_since (t from_ : Instant) : from_.after (t.since from_) = t := by
  cases t; cases from_; simp only [after, since, mk.injEq]; omega

@[simp] theorem nanos_after (t : Instant) (s : Span) : (t.after s).nanos = t.nanos + s.nanos := rfl
@[simp] theorem nanos_since (t from_ : Instant) :
    (t.since from_).nanos = t.nanos - from_.nanos := rfl

end Instant

end Arrivals
