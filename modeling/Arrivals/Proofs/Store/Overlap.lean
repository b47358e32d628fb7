import Arrivals.Store.Transaction
import Mathlib.Data.List.Induction
import Mathlib.Logic.Function.Basic

/-! Transactions that overlap on one store. Main statement: at any moment the store shows what it held at
first under the writes of the transactions that were committed, those of a later commit over those of an
earlier one; an open transaction shows its own writes over that, and they show nowhere else. -/

namespace Arrivals

section Writes

variable {κ α : Type} [DecidableEq κ]

/-- What is left of some saves: for each key the last record that was saved under it. -/
def lastSaved? (key : α → κ) (saves : List α) (k : κ) : Option α :=
  (saves.filter fun a => key a = k).getLast?

def overlay (held written : κ → Option α) (k : κ) : Option α := (written k).or (held k)

theorem lastSaved?_append (key : α → κ) (saves : List α) (a : α) (k : κ) :
    lastSaved? key (saves ++ [a]) k = if key a = k then some a else lastSaved? key saves k := by
  rw [lastSaved?, List.filter_append, List.getLast?_append]
  by_cases h : key a = k <;> simp [h, lastSaved?]

end Writes

/-- What was saved in a transaction, in the order of the calls. -/
structure Saves where
  connections : List Connection
  transfers : List Transfer
  deriving DecidableEq, Repr

namespace Saves

def empty : Saves := ⟨[], []⟩

def addConnection (w : Saves) (c : Connection) : Saves :=
  { w with connections := w.connections ++ [c] }

def addTransfer (w : Saves) (x : Transfer) : Saves := { w with transfers := w.transfers ++ [x] }

def connection? (w : Saves) : ConnectionKey → Option Connection :=
  lastSaved? Connection.key w.connections

def transfer? (w : Saves) : TransferKey → Option Transfer := lastSaved? Transfer.key w.transfers

/-- The transaction holds the last save of each key. -/
structure HeldBy (w : Saves) (t : Transaction) : Prop where
  connection : ∀ k, t.connections.get? k = w.connection? k
  transfer : ∀ k, t.transfers.get? k = w.transfer? k

theorem heldBy_empty : empty.HeldBy .empty := ⟨fun _ => rfl, fun _ => rfl⟩

variable {w : Saves} {t : Transaction}

theorem HeldBy.saveConnection (h : w.HeldBy t) (c : Connection) :
    (w.addConnection c).HeldBy (t.saveConnection c) where
  connection k := by
    rw [Transaction.saveConnection, Table.get?_insert, h.connection]
    exact (lastSaved?_append Connection.key w.connections c k).symm
  transfer := h.transfer

theorem HeldBy.saveTransfer (h : w.HeldBy t) (x : Transfer) :
    (w.addTransfer x).HeldBy (t.saveTransfer x) where
  connection := h.connection
  transfer k := by
    rw [Transaction.saveTransfer, Table.get?_insert, h.transfer]
    exact (lastSaved?_append Transfer.key w.transfers x k).symm

theorem HeldBy.connection?_eq (h : w.HeldBy t) (s : Store) (k : ConnectionKey) :
    t.connection? s k = overlay s.connection? w.connection? k := by
  rw [Transaction.connection?, h.connection, overlay]

theorem HeldBy.transfer?_eq (h : w.HeldBy t) (s : Store) (k : TransferKey) :
    t.transfer? s k = overlay s.transfer? w.transfer? k := by
  rw [Transaction.transfer?, h.transfer, overlay]

end Saves

/-- A store and the transactions that are open on it, by name. -/
structure Ledger (ι : Type) where
  store : Store
  opened : ι → Option Transaction

namespace Ledger

/-- Reads are not among the events: they change nothing, and may come after any of them. -/
inductive Event (ι : Type) where
  | start (i : ι)
  | saveConnection (i : ι) (c : Connection)
  | saveTransfer (i : ι) (x : Transfer)
  | commit (i : ι)
  | drop (i : ι)

def Event.name {ι : Type} : Event ι → ι
  | start i => i
  | saveConnection i _ => i
  | saveTransfer i _ => i
  | commit i => i
  | drop i => i

variable {ι : Type} [DecidableEq ι]

def init (store : Store) : Ledger ι := ⟨store, fun _ => none⟩

def set (s : Ledger ι) (i : ι) (t : Option Transaction) : Ledger ι :=
  { s with opened := Function.update s.opened i t }

def step (s : Ledger ι) : Event ι → Ledger ι
  | .start i => s.set i (some .empty)
  | .saveConnection i c => s.set i ((s.opened i).map (·.saveConnection c))
  | .saveTransfer i x => s.set i ((s.opened i).map (·.saveTransfer x))
  | .commit i =>
    match s.opened i with
    | some t => { s.set i none with store := t.commit s.store }
    | none => s
  | .drop i => s.set i none

def run (store : Store) (events : List (Event ι)) : Ledger ι := events.foldl step (init store)

/-- What a run has come to by its calls alone: the saves of each commit, in the order of the commits, and
those of the transactions that are open. -/
structure History (ι : Type) where
  committed : List Saves
  pending : ι → Option Saves

namespace History

def init : History ι := ⟨[], fun _ => none⟩

def set (h : History ι) (i : ι) (w : Option Saves) : History ι :=
  { h with pending := Function.update h.pending i w }

def step (h : History ι) : Event ι → History ι
  | .start i => h.set i (some .empty)
  | .saveConnection i c => h.set i ((h.pending i).map (·.addConnection c))
  | .saveTransfer i x => h.set i ((h.pending i).map (·.addTransfer x))
  | .commit i => { h.set i none with committed := h.committed ++ (h.pending i).toList }
  | .drop i => h.set i none

def run (events : List (Event ι)) : History ι := events.foldl step init

def connection? (h : History ι) (store : Store) : ConnectionKey → Option Connection :=
  (h.committed.map Saves.connection?).foldl overlay store.connection?

def transfer? (h : History ι) (store : Store) : TransferKey → Option Transfer :=
  (h.committed.map Saves.transfer?).foldl overlay store.transfer?

end History

/-- The ledger is where this history leads to from the store. -/
structure Follows (s : Ledger ι) (store : Store) (h : History ι) : Prop where
  connection : ∀ k, s.store.connection? k = h.connection? store k
  transfer : ∀ k, s.store.transfer? k = h.transfer? store k
  opened : ∀ i, Option.Rel Saves.HeldBy (h.pending i) (s.opened i)

variable {s : Ledger ι} {store : Store} {h : History ι}

theorem Follows.set (hs : s.Follows store h) (i : ι) {w : Option Saves} {t : Option Transaction}
    (ht : Option.Rel Saves.HeldBy w t) : (s.set i t).Follows store (h.set i w) where
  connection := hs.connection
  transfer := hs.transfer
  opened j := by
    change Option.Rel _ (Function.update h.pending i w j) (Function.update s.opened i t j)
    by_cases hj : j = i
    · subst hj
      rwa [Function.update_self, Function.update_self]
    · rw [Function.update_of_ne hj, Function.update_of_ne hj]
      exact hs.opened j

theorem rel_map {w : Option Saves} {t : Option Transaction} (ht : Option.Rel Saves.HeldBy w t)
    {f : Saves → Saves} {g : Transaction → Transaction}
    (hfg : ∀ w t, w.HeldBy t → (f w).HeldBy (g t)) :
    Option.Rel Saves.HeldBy (w.map f) (t.map g) := by
  cases ht with
  | some ht => exact .some (hfg _ _ ht)
  | none => exact .none

/-- A commit lays what the transaction holds over what was shown before. -/
theorem Follows.commit (hs : s.Follows store h) {i : ι} {w : Saves} {t : Transaction}
    (hw : h.pending i = some w) (ht : w.HeldBy t) :
    Follows { s.set i none with store := t.commit s.store } store
      { h.set i none with committed := h.committed ++ (h.pending i).toList } where
  connection k := by
    have hlast : (h.committed ++ [w]).map Saves.connection? =
        h.committed.map Saves.connection? ++ [w.connection?] := List.map_append
    rw [Transaction.connection?_commit, ht.connection?_eq, funext hs.connection, hw]
    change _ = ((h.committed ++ [w]).map Saves.connection?).foldl overlay store.connection? k
    rw [hlast, List.foldl_append]
    rfl
  transfer k := by
    have hlast : (h.committed ++ [w]).map Saves.transfer? =
        h.committed.map Saves.transfer? ++ [w.transfer?] := List.map_append
    rw [Transaction.transfer?_commit, ht.transfer?_eq, funext hs.transfer, hw]
    change _ = ((h.committed ++ [w]).map Saves.transfer?).foldl overlay store.transfer? k
    rw [hlast, List.foldl_append]
    rfl
  opened := (hs.set i .none).opened

theorem Follows.step (hs : s.Follows store h) (e : Event ι) :
    (s.step e).Follows store (h.step e) := by
  cases e with
  | start i => exact hs.set i (.some Saves.heldBy_empty)
  | saveConnection i c => exact hs.set i (rel_map (hs.opened i) fun _ _ ht => ht.saveConnection c)
  | saveTransfer i x => exact hs.set i (rel_map (hs.opened i) fun _ _ ht => ht.saveTransfer x)
  | commit i =>
    have hi := hs.opened i
    rw [Ledger.step, History.step]
    cases hw : h.pending i with
    | none =>
      rw [hw] at hi
      cases ht : s.opened i with
      | some t => rw [ht] at hi; cases hi
      | none =>
        have hset : h.set i none = h := by
          rw [History.set, ← hw, Function.update_eq_self]
        simpa [hset] using hs
    | some w =>
      rw [hw] at hi
      cases ht : s.opened i with
      | none => rw [ht] at hi; cases hi
      | some t =>
        rw [ht] at hi
        cases hi with
        | some hheld => exact hw ▸ hs.commit hw hheld
  | drop i => exact hs.set i .none

theorem follows_run (store : Store) (events : List (Event ι)) :
    (run store events).Follows store (History.run events) := by
  induction events using List.reverseRecOn with
  | nil => exact ⟨fun _ => rfl, fun _ => rfl, fun _ => .none⟩
  | append_singleton events e ih =>
    rw [run, History.run, List.foldl_append, List.foldl_append]
    exact ih.step e

/-- The two differ at most in what this transaction holds. -/
structure Apart (i : ι) (s s' : Ledger ι) : Prop where
  store : s.store = s'.store
  opened : ∀ j, j ≠ i → s.opened j = s'.opened j

section Apart

variable {i : ι} {s' : Ledger ι}

omit [DecidableEq ι] in
theorem Apart.refl (i : ι) (s : Ledger ι) : Apart i s s := ⟨rfl, fun _ _ => rfl⟩

theorem Apart.set (h : Apart i s s') (j : ι) {t t' : Option Transaction} (ht : j ≠ i → t = t') :
    Apart i (s.set j t) (s'.set j t') where
  store := h.store
  opened k hk := by
    change Function.update s.opened j t k = Function.update s'.opened j t' k
    by_cases hj : k = j
    · subst hj
      rw [Function.update_self, Function.update_self, ht hk]
    · rw [Function.update_of_ne hj, Function.update_of_ne hj]
      exact h.opened k hk

theorem Apart.set_self (h : Apart i s s') (t : Option Transaction) : Apart i (s.set i t) s' where
  store := h.store
  opened j hj := by
    change Function.update s.opened i t j = s'.opened j
    rw [Function.update_of_ne hj]
    exact h.opened j hj

theorem Apart.step (h : Apart i s s') {e : Event ι} (he : e.name ≠ i) :
    Apart i (s.step e) (s'.step e) := by
  cases e with
  | start j => exact h.set j fun _ => rfl
  | saveConnection j c => exact h.set j fun hj => by rw [h.opened j hj]
  | saveTransfer j x => exact h.set j fun hj => by rw [h.opened j hj]
  | commit j =>
    rw [Ledger.step, Ledger.step, ← h.opened j he]
    cases s.opened j with
    | none => exact h
    | some t => exact ⟨congrArg t.commit h.store, (h.set j fun _ => rfl).opened⟩
  | drop j => exact h.set j fun _ => rfl

theorem Apart.step_self (h : Apart i s s') {e : Event ι} (hname : e.name = i)
    (he : e ≠ .commit i) : Apart i (s.step e) s' := by
  subst hname
  cases e with
  | start j => exact h.set_self _
  | saveConnection j c => exact h.set_self _
  | saveTransfer j x => exact h.set_self _
  | commit j => exact absurd rfl he
  | drop j => exact h.set_self _

theorem Apart.foldl (h : Apart i s s') {during : List (Event ι)} (hd : .commit i ∉ during) :
    Apart i (during.foldl Ledger.step s)
      ((during.filter fun e => e.name ≠ i).foldl Ledger.step s') := by
  induction during generalizing s s' with
  | nil => exact h
  | cons e rest ih =>
    rw [List.mem_cons, not_or] at hd
    by_cases he : e.name = i
    · rw [List.filter_cons_of_neg (by simpa using he)]
      exact ih (h.step_self he (Ne.symm hd.1)) hd.2
    · rw [List.filter_cons_of_pos (by simpa using he)]
      exact ih (h.step he) hd.2

end Apart

/-- However transactions overlap, the store shows what it held at first under the last saves of each
committed transaction, one over the other in the order of the commits. A transaction is open just when the
calls say so, and shows the last of its own saves, or else what the store shows at that moment. Until it is
committed, all that it does shows nowhere else. Every record is filed under its own key. -/
theorem run_overlays (store : Store) (events : List (Event ι)) :
    let s := run store events
    let h := History.run events
    ((∀ k, s.store.connection? k = (h.committed.map fun w =>
        lastSaved? Connection.key w.connections).foldl overlay store.connection? k) ∧
      ∀ k, s.store.transfer? k = (h.committed.map fun w =>
        lastSaved? Transfer.key w.transfers).foldl overlay store.transfer? k) ∧
    (∀ i, s.opened i = none ↔ h.pending i = none) ∧
    (∀ i t, s.opened i = some t → ∃ w, h.pending i = some w ∧
      (∀ k, t.connection? s.store k =
        (lastSaved? Connection.key w.connections k).or (s.store.connection? k)) ∧
      ∀ k, t.transfer? s.store k =
        (lastSaved? Transfer.key w.transfers k).or (s.store.transfer? k)) ∧
    (∀ i during, .commit i ∉ during →
      (run store (events ++ during)).store =
        (run store (events ++ during.filter fun e => e.name ≠ i)).store ∧
      ∀ j, j ≠ i → (run store (events ++ during)).opened j =
        (run store (events ++ during.filter fun e => e.name ≠ i)).opened j) ∧
    ((∀ k c, s.store.connection? k = some c → c.key = k) ∧
      (∀ k x, s.store.transfer? k = some x → x.key = k) ∧
      ∀ i t, s.opened i = some t → (∀ k c, t.connections.get? k = some c → c.key = k) ∧
        ∀ k x, t.transfers.get? k = some x → x.key = k) := by
  intro s h
  have hs : s.Follows store h := follows_run store events
  refine ⟨⟨hs.connection, hs.transfer⟩, fun i => ?_, fun i t ht => ?_, fun i during hd => ?_,
    fun _ _ => Store.key_of_connection?, fun _ _ => Store.key_of_transfer?,
    fun _ t _ => ⟨fun _ _ => t.filedConnections.key_eq, fun _ _ => t.filedTransfers.key_eq⟩⟩
  · have hi := hs.opened i
    generalize s.opened i = t, h.pending i = w at hi ⊢
    cases hi with
    | some => simp
    | none => simp
  · have hi := hs.opened i
    rw [ht] at hi
    generalize h.pending i = w at hi ⊢
    cases hi with
    | some hw => exact ⟨_, rfl, hw.connection?_eq s.store, hw.transfer?_eq s.store⟩
  · have hquiet := (Apart.refl i s).foldl hd
    simp only [run, List.foldl_append]
    exact ⟨hquiet.store, hquiet.opened⟩

def edge (seconds : Int32) : Connection := ⟨"a", "b", "l", seconds, 0, 0⟩

/-- The second transaction is committed, and the first, which was begun before it, is still open. -/
def edgeEvents : List (Event Nat) :=
  [.start 1, .start 2, .saveConnection 2 (edge 20), .saveConnection 1 (edge 9),
    .saveConnection 1 (edge 10), .commit 2]

theorem run_overlays_edge :
    let s := run default edgeEvents
    s.store.connection? ⟨"a", "b"⟩ = some (edge 20) ∧
      (∃ t, s.opened 1 = some t ∧ t.connection? s.store ⟨"a", "b"⟩ = some (edge 10)) ∧
      (run default (edgeEvents ++ [.saveConnection 1 (edge 11), .drop 1])).store = s.store ∧
      (run default (edgeEvents ++ [.commit 1])).store.connection? ⟨"a", "b"⟩ = some (edge 10) := by
  intro s
  obtain ⟨⟨hconnection, -⟩, -, hopened, hquiet, -⟩ := run_overlays default edgeEvents
  obtain ⟨⟨hlater, -⟩, -⟩ := run_overlays default (edgeEvents ++ [.commit 1])
  have hopen : (s.opened 1).isSome = true := rfl
  obtain ⟨t, ht⟩ := Option.isSome_iff_exists.mp hopen
  obtain ⟨w, hw, hown, -⟩ := hopened 1 t ht
  have hw' : (History.run edgeEvents).pending 1 = some ⟨[edge 9, edge 10], []⟩ := rfl
  obtain rfl := Option.some.inj (hw'.symm.trans hw)
  refine ⟨(hconnection _).trans (by decide), ⟨t, ht, (hown _).trans (by decide)⟩, ?_,
    (hlater _).trans (by decide)⟩
  exact (hquiet 1 [.saveConnection 1 (edge 11), .drop 1] (by simp)).1

end Ledger

end Arrivals
