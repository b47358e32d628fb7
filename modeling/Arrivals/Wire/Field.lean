import Arrivals.Bytes

/-! The fields of which binary messages are made: a number that says which field it is, and content
of one of five forms. What the groups of other senders hold is passed over. -/

namespace Arrivals.Wire

inductive Form where
  | varint
  | fixed64
  | sized
  | groupStart
  | groupEnd
  | fixed32
  deriving DecidableEq, Repr

namespace Form

def code : Form → Nat
  | .varint => 0
  | .fixed64 => 1
  | .sized => 2
  | .groupStart => 3
  | .groupEnd => 4
  | .fixed32 => 5

def all : List Form := [.varint, .fixed64, .sized, .groupStart, .groupEnd, .fixed32]

def ofCode? (n : Nat) : Option Form := all.find? fun f => f.code = n

@[simp] theorem ofCode?_code (f : Form) : ofCode? f.code = some f := by cases f <;> decide

end Form

inductive Content where
  | varint (n : Nat)
  | fixed64 (n : Nat)
  | sized (b : Bytes)
  | group
  | fixed32 (n : Nat)
  deriving DecidableEq, Repr

structure Field where
  number : Nat
  content : Content
  deriving DecidableEq, Repr

section Writing

def key (number : Nat) (form : Form) : Bytes := Bytes.base128 (8 * number + form.code)

namespace Field

def encode (f : Field) : Bytes :=
  match f.content with
  | .varint n => key f.number .varint ++ Bytes.base128 n
  | .fixed64 n => key f.number .fixed64 ++ Bytes.littleEndian 8 n
  | .sized b => key f.number .sized ++ Bytes.base128 b.length ++ b
  | .group => key f.number .groupStart ++ key f.number .groupEnd
  | .fixed32 n => key f.number .fixed32 ++ Bytes.littleEndian 4 n

end Field

def encodeFields (fields : List Field) : Bytes := fields.flatMap Field.encode

end Writing

section Reading

/-- At most `room` bytes. The last of ten has room for one bit alone. -/
def readBase128 : Nat → Bytes → Option (Nat × Bytes)
  | 0, _ => none
  | _ + 1, [] => none
  | room + 1, b :: rest =>
    if b < 128 then
      if room = 0 ∧ 2 ≤ b.toNat then none else some (b.toNat, rest)
    else
      match readBase128 room rest with
      | none => none
      | some (n, after) => some (b.toNat - 128 + 128 * n, after)

def readVarint (b : Bytes) : Option (Nat × Bytes) := readBase128 10 b

theorem length_of_readBase128 {room n : Nat} {b rest : Bytes}
    (h : readBase128 room b = some (n, rest)) : rest.length < b.length := by
  induction room generalizing b n rest with
  | zero => simp [readBase128] at h
  | succ room ih =>
    cases b with
    | nil => simp [readBase128] at h
    | cons x tail =>
      unfold readBase128 at h
      split at h
      · split at h
        · simp at h
        · simp only [Option.some.injEq, Prod.mk.injEq] at h
          simp [h.2]
      · split at h
        · simp at h
        · rename_i m after hr
          simp only [Option.some.injEq, Prod.mk.injEq] at h
          have := ih hr
          rw [← h.2]
          simp only [List.length_cons]
          omega

structure Key where
  number : Nat
  form : Form
  deriving DecidableEq, Repr

def readKey (b : Bytes) : Option (Key × Bytes) :=
  match readVarint b with
  | none => none
  | some (n, rest) =>
    if 4294967295 < n ∨ n / 8 = 0 then none
    else (Form.ofCode? (n % 8)).map fun form => (⟨n / 8, form⟩, rest)

theorem length_of_readKey {b rest : Bytes} {k : Key} (h : readKey b = some (k, rest)) :
    rest.length < b.length := by
  unfold readKey at h
  split at h
  · simp at h
  · rename_i n after hr
    split at h
    · simp at h
    · obtain ⟨form, _, hf⟩ := Option.map_eq_some_iff.mp h
      simp only [Prod.mk.injEq] at hf
      exact hf.2 ▸ length_of_readBase128 hr

def takeBytes (n : Nat) (b : Bytes) : Option (Bytes × Bytes) :=
  if (b.take n).length < n then none else some (b.take n, b.drop n)

theorem length_of_takeBytes {n : Nat} {b taken rest : Bytes}
    (h : takeBytes n b = some (taken, rest)) : rest.length ≤ b.length := by
  unfold takeBytes at h
  split at h
  · simp at h
  · simp only [Option.some.injEq, Prod.mk.injEq] at h
    rw [← h.2, List.length_drop]
    omega

def readPlain (form : Form) (b : Bytes) : Option (Content × Bytes) :=
  match form with
  | .varint => (readVarint b).map fun r => (.varint r.1, r.2)
  | .fixed64 => (takeBytes 8 b).map fun r => (.fixed64 (Bytes.ofLittleEndian r.1), r.2)
  | .sized =>
    match readVarint b with
    | none => none
    | some (n, rest) => (takeBytes n rest).map fun r => (.sized r.1, r.2)
  | .fixed32 => (takeBytes 4 b).map fun r => (.fixed32 (Bytes.ofLittleEndian r.1), r.2)
  | .groupStart => none
  | .groupEnd => none

theorem length_of_readPlain {form : Form} {b rest : Bytes} {c : Content}
    (h : readPlain form b = some (c, rest)) : rest.length ≤ b.length := by
  unfold readPlain at h
  split at h
  · obtain ⟨r, hr, he⟩ := Option.map_eq_some_iff.mp h
    simp only [Prod.mk.injEq] at he
    exact he.2 ▸ Nat.le_of_lt (length_of_readBase128 hr)
  · obtain ⟨r, hr, he⟩ := Option.map_eq_some_iff.mp h
    simp only [Prod.mk.injEq] at he
    exact he.2 ▸ length_of_takeBytes hr
  · split at h
    · simp at h
    · rename_i n after hv
      obtain ⟨r, hr, he⟩ := Option.map_eq_some_iff.mp h
      simp only [Prod.mk.injEq] at he
      have := length_of_readBase128 hv
      have := length_of_takeBytes hr
      rw [← he.2]
      omega
  · obtain ⟨r, hr, he⟩ := Option.map_eq_some_iff.mp h
    simp only [Prod.mk.injEq] at he
    exact he.2 ▸ length_of_takeBytes hr
  · simp at h
  · simp at h

/-- Passes over a group that has been opened, and those inside it: `opened` are their numbers, the
innermost first. No field may stand in more than `depth` groups. -/
def skipGroup (depth : Nat) (opened : List Nat) (b : Bytes) : Option Bytes :=
  match opened with
  | [] => some b
  | innermost :: outer =>
    match hk : readKey b with
    | none => none
    | some (k, rest) =>
      have := length_of_readKey hk
      if k.form = .groupEnd then
        if k.number = innermost then skipGroup depth outer rest else none
      else if opened.length < depth then
        if k.form = .groupStart then skipGroup depth (k.number :: opened) rest
        else
          match hp : readPlain k.form rest with
          | none => none
          | some (_, after) =>
            have := length_of_readPlain hp
            skipGroup depth opened after
      else none
termination_by b.length

theorem length_of_skipGroup {depth : Nat} {opened : List Nat} {b rest : Bytes}
    (h : skipGroup depth opened b = some rest) : rest.length ≤ b.length := by
  fun_induction skipGroup depth opened b with
  | case1 => simp_all
  | case2 => simp at h
  | case3 => rename_i ih; have := ih h; omega
  | case4 => simp at h
  | case5 =>
    rename_i ih
    rw [if_pos (by assumption), if_pos (by assumption)] at h
    have := ih h
    omega
  | case6 =>
    rw [if_pos (by assumption), if_neg (by assumption)] at h
    split at h
    · simp at h
    · simp_all
  | case7 =>
    rename_i hp _ _ ih
    rw [if_pos (by assumption), if_neg (by assumption)] at h
    split at h
    · simp at h
    · rename_i hq
      rw [hp] at hq
      simp only [Option.some.injEq, Prod.mk.injEq] at hq
      have := ih (hq.2 ▸ h)
      omega
  | case8 => rw [if_neg (by assumption)] at h; simp at h

def readField (depth : Nat) (b : Bytes) : Option (Field × Bytes) :=
  match readKey b with
  | none => none
  | some (k, rest) =>
    if k.form = .groupStart then
      (skipGroup depth [k.number] rest).map fun after => (⟨k.number, .group⟩, after)
    else (readPlain k.form rest).map fun r => (⟨k.number, r.1⟩, r.2)

theorem length_of_readField {depth : Nat} {b rest : Bytes} {f : Field}
    (h : readField depth b = some (f, rest)) : rest.length < b.length := by
  unfold readField at h
  split at h
  · simp at h
  · rename_i k after hk
    have := length_of_readKey hk
    split at h
    · obtain ⟨last, hl, he⟩ := Option.map_eq_some_iff.mp h
      have := length_of_skipGroup hl
      simp only [Prod.mk.injEq] at he
      rw [← he.2]
      omega
    · obtain ⟨r, hr, he⟩ := Option.map_eq_some_iff.mp h
      have := length_of_readPlain hr
      simp only [Prod.mk.injEq] at he
      rw [← he.2]
      omega

def readFields (depth : Nat) (b : Bytes) : Option (List Field) :=
  if b.isEmpty then some []
  else
    match h : readField depth b with
    | none => none
    | some (f, rest) =>
      have := length_of_readField h
      (readFields depth rest).map (f :: ·)
termination_by b.length

end Reading

end Arrivals.Wire
