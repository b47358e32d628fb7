import Arrivals.Network.Edge
import Arrivals.Table

/-! Remembered edge costs. A clear starts a new generation, and a cost read under an older one is
not remembered any more. -/

namespace Arrivals

structure Memo where
  edges : Table ConnectionKey Int
  generation : Nat
  deriving Inhabited

namespace Memo

def empty : Memo := ⟨.empty, 0⟩

def size (m : Memo) : Nat := m.edges.size

def isEmpty (m : Memo) : Bool := m.edges.isEmpty

def get? (m : Memo) (k : ConnectionKey) : Option Int := m.edges.get? k

/-- Remembers a cost that was read while `generation` ran. -/
def remember (m : Memo) (generation : Nat) (k : ConnectionKey) (seconds : Int) : Memo :=
  if m.generation = generation ∧ m.get? k = none then
    { m with edges := m.edges.insert k seconds }
  else m

def clear (m : Memo) : Memo := ⟨.empty, m.generation + 1⟩

@[simp] theorem get?_clear (m : Memo) (k : ConnectionKey) : m.clear.get? k = none := rfl

/-- What is there afterwards was there already, or its place was free. -/
theorem get?_remember {m : Memo} {generation : Nat} {k j : ConnectionKey} {seconds v : Int}
    (h : (m.remember generation k seconds).get? j = some v) :
    m.get? j = some v ∨ (m.generation = generation ∧ m.get? k = none) ∧ j = k ∧ v = seconds := by
  rw [remember] at h
  split at h
  next hfree =>
    rw [get?, Table.get?_insert] at h
    split at h
    next hk => exact .inr ⟨hfree, hk.symm, (Option.some.inj h).symm⟩
    next => exact .inl h
  next => exact .inl h

@[simp] theorem generation_remember (m : Memo) (generation : Nat) (k : ConnectionKey)
    (seconds : Int) : (m.remember generation k seconds).generation = m.generation := by
  rw [remember]
  split <;> rfl

end Memo

end Arrivals
