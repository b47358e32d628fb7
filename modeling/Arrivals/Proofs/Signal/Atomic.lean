import Arrivals.Proofs.Signal.Intake

/-! Reports are taken in as a whole or not at all. Main statement: a report in error leaves everything as
it was, and one that is accepted changes what it is about and nothing else. -/

namespace Arrivals

namespace Activity

variable {t : Table String Markers} {a : Activity} {limits : ActivityLimits} {now : Instant}
  {user : UserId} {lines : List Line} {justEntered : Bool} {r : Refusal}

/-- From `t` to `t'` a user is moved to the ids of a list, with one lease for all of them. The other
users stay where they are for as long as they had. -/
structure Moves (t t' : Table String Markers) (user : UserId) (list : List String)
    (expires : Instant) : Prop where
  own : ∀ id, lease? t' id user = if id ∈ list then some ⟨⟨⟩, expires⟩ else none
  others : ∀ id u, u ≠ user → lease? t' id u = lease? t id u
  tracked : ids t' = ids t ∪ list.toFinset

theorem moves_markOnly (t : Table String Markers) (now : Instant) (user : UserId) (ttl : Span)
    (list : List String) : Moves t (markOnly t now user ttl list) user list (now.after ttl) where
  own id := by rw [lease?_markOnly, if_pos rfl]
  others id u hu := by rw [lease?_markOnly, if_neg hu]
  tracked := ids_markOnly

/-- To track the ids of the lines and their networks as well would be too much. -/
structure Overflows (a : Activity) (limits : ActivityLimits) (lines : List Line) (r : Refusal) :
    Prop where
  limit : r.limit = limits.maxTracked
  untracked : r.id ∈ fresh a.lines (lines.map Line.id) ∨ r.id ∈ fresh a.networks (lines.map Line.network)
  exceeded : limits.maxTracked < (ids a.lines ∪ (lines.map Line.id).toFinset).card +
    (ids a.networks ∪ (lines.map Line.network).toFinset).card

theorem overflows_of_register (h : a.register limits now lines user justEntered = .error r) :
    a.Overflows limits lines r := by
  have hroom := (register_error_iff.mp ⟨r, h⟩).2
  rw [tracked_eq] at hroom
  rw [register] at h
  split at h
  next first rest hunseen =>
    split at h
    next hfull =>
      cases h
      refine ⟨rfl, ?_, ?_⟩
      · have hfirst := List.mem_append.mp (hunseen ▸ List.mem_cons_self (a := first) (l := rest))
        rwa [fresh_eq, fresh_eq, List.mem_toFinset, List.mem_toFinset]
      · rw [card_ids_union, card_ids_union]
        omega
    next => cases h
  next => cases h

theorem Overflows.register (h : a.Overflows limits lines r) (now : Instant) (user : UserId)
    (justEntered : Bool) : ∃ r, a.register limits now lines user justEntered = .error r := by
  refine register_error_iff.mpr ⟨h.untracked.imp (fun h => ⟨_, h⟩) fun h => ⟨_, h⟩, ?_⟩
  have hfull := h.exceeded
  rw [card_ids_union, card_ids_union] at hfull
  rw [tracked_eq]
  omega

end Activity

namespace Presence

theorem readings_register_suffix (p : Presence) (k : Sight) (now : Instant) :
    (p.register k now).readings <:+ p.readings ++ [⟨now, k⟩] := by
  rw [readings_register]
  exact List.suffix_append_self_iff.mpr (List.drop_suffix _ _)

end Presence

namespace Signal

/-- What is wrong with a report, or with the store while it is taken in. -/
inductive Faulty (x : Signal) (s : Service) : SignalError → Prop
  | outage {n : Nat} {call : Call} {e : StoreError} : s.source.calls ≤ n →
      s.source.outage n call = some e → x.Faulty s (.store e)
  | unknown {before after : List LineId} {id : LineId} : x.lines = before ++ id :: after →
      (∀ i ∈ before, (s.store.line? i).isSome = true) → s.store.line? id = none →
      x.Faulty s (.store (.lineNotFound id))
  | crowded {lines : List Line} {r : Refusal} : x.found s.store = .ok lines →
      s.activity.Overflows s.settings.limits lines r → x.Faulty s (.refused r)

/-- What becomes of a service with a report that stands for some lines. -/
structure Taken (x : Signal) (lines : List Line) (s s' : Service) : Prop where
  seen : ∀ k, s'.presence.lastSeen? k =
    if k = ⟨x.station, x.direction⟩ then some s.now else s.presence.lastSeen? k
  readings : s'.presence.readings <:+
    s.presence.readings ++ [⟨s.now, ⟨x.station, x.direction⟩⟩]
  length_readings : s'.presence.readings.length =
    min (s.presence.readings.length + 1) Presence.history
  onLines : Activity.Moves s.activity.lines s'.activity.lines x.user (lines.map Line.id)
    (s.now.after (Activity.ttlFor s.settings.limits lines x.justEntered))
  onNetworks : Activity.Moves s.activity.networks s'.activity.networks x.user
    (lines.map Line.network)
    (s.now.after (Activity.ttlFor s.settings.limits lines x.justEntered))
  rest : s' = { s with source.calls := s'.source.calls, reports := s'.reports }

theorem found_eq_error_iff {x : Signal} {st : Store} {e : StoreError} :
    x.found st = .error e ↔ ∃ before id after, x.lines = before ++ id :: after ∧
      (∀ i ∈ before, (st.line? i).isSome = true) ∧ st.line? id = none ∧ e = .lineNotFound id := by
  have hfound : x.found st = .error e ↔ x.lines.mapM st.named = .error e := by
    rw [found]
    cases x.lines with
    | nil => exact iff_of_false (by simp) (by simp [pure, Except.pure])
    | cons id rest => rfl
  have hnamed : x.lines.mapM st.named = .error e ↔
      ∃ id, x.lines.find? (fun id => (st.line? id).isNone) = some id ∧ e = .lineNotFound id := by
    rw [Store.mapM_named]
    cases x.lines.find? fun id => (st.line? id).isNone with
    | none => simp
    | some id => simp [eq_comm]
  rw [hfound, hnamed]
  simp only [List.find?_eq_some_iff_append, Option.isNone_iff_eq_none, Bool.not_eq_true',
    Option.isNone_eq_false_iff]
  constructor
  · rintro ⟨id, ⟨hid, before, after, hlines, hbefore⟩, rfl⟩
    exact ⟨before, id, after, hlines, hbefore, hid, rfl⟩
  · rintro ⟨before, id, after, hlines, hbefore, hid, rfl⟩
    exact ⟨id, ⟨hid, before, after, hlines, hbefore⟩, rfl⟩

variable {x : Signal} {s : Service}

theorem faulty_of_outcome {e : SignalError}
    (h : x.outcome s.store s.settings.limits s.now s.reports = .error e) : x.Faulty s e := by
  rw [outcome] at h
  split at h
  next fault hfound =>
    cases h
    obtain ⟨before, id, after, hlines, hbefore, hid, rfl⟩ := found_eq_error_iff.mp hfound
    exact .unknown hlines hbefore hid
  next lines hfound =>
    split at h
    next r hregister =>
      cases h
      exact .crowded hfound (Activity.overflows_of_register hregister)
    next => cases h

theorem outcome_of_faulty (hsteady : s.source.Steady) {e : SignalError} (h : x.Faulty s e) :
    ∃ e, x.outcome s.store s.settings.limits s.now s.reports = .error e := by
  cases h with
  | outage hn hfails =>
    rw [hsteady _ _ hn] at hfails
    cases hfails
  | unknown hlines hbefore hid =>
    have hfound := found_eq_error_iff.mpr ⟨_, _, _, hlines, hbefore, hid, rfl⟩
    exact ⟨_, by rw [outcome, hfound]⟩
  | crowded hfound hfull =>
    obtain ⟨r, hregister⟩ := hfull.register s.now x.user x.justEntered
    refine ⟨.refused r, ?_⟩
    rw [outcome, hfound]
    dsimp only
    rw [show s.reports.activity = s.activity from rfl, hregister]

theorem taken_of_outcome {after : Reports} {n : Nat}
    (h : x.outcome s.store s.settings.limits s.now s.reports = .ok after) :
    ∃ lines, x.found s.store = .ok lines ∧
      x.Taken lines s { s with source.calls := n, reports := after } := by
  obtain ⟨presence, activity⟩ := after
  obtain ⟨rfl, lines, hfound, hregister⟩ := outcome_eq_ok_iff.mp h
  obtain rfl := Activity.register_eq_ok hregister
  refine ⟨lines, hfound, fun k => ?_, ?_, ?_, Activity.moves_markOnly _ _ _ _ _,
    Activity.moves_markOnly _ _ _ _ _, rfl⟩
  · rw [Service.presence, Presence.lastSeen?_register]
    by_cases hk : k = ⟨x.station, x.direction⟩
    · rw [if_pos hk, if_pos hk.symm]
    · rw [if_neg hk, if_neg (Ne.symm hk)]
      rfl
  · exact Presence.readings_register_suffix _ _ _
  · exact Presence.length_pushReading s.presence.bounded _

end Signal

namespace Service

/-- A report in error leaves everything as it was but the count of the calls of the store. One that is
accepted is the last sighting at its station and the last reading, and moves its user to its lines and
their networks; all else stays. While no call fails, a report is in error just for a line that there is
none of, or for more ids than there is room for. -/
theorem signal_atomic (s : Service) (x : Signal) :
    let answer := (s.signal x).1
    let after := (s.signal x).2
    (∀ e, answer = .error e → after = { s with source.calls := after.source.calls } ∧ x.Faulty s e) ∧
    (answer = .ok ⟨⟩ → ∃ lines, x.found s.store = .ok lines ∧ x.Taken lines s after) ∧
    (s.source.Steady → ((∃ e, answer = .error e) ↔ ∃ e, x.Faulty s e)) := by
  intro answer after
  obtain ⟨n, hn, ⟨reports, houtcome, hsignal⟩ | ⟨e, hfault, hsignal⟩⟩ := s.signal_cases x
  · have hanswer : answer = .ok ⟨⟩ := congrArg Prod.fst hsignal
    have hafter : after = { s with source.calls := n, reports } := congrArg Prod.snd hsignal
    rw [hanswer, hafter]
    refine ⟨nofun, fun _ => Signal.taken_of_outcome houtcome, fun hsteady => ?_⟩
    refine iff_of_false nofun ?_
    rintro ⟨e, hfaulty⟩
    obtain ⟨e, herror⟩ := Signal.outcome_of_faulty hsteady hfaulty
    rw [houtcome] at herror
    cases herror
  · have hanswer : answer = .error e := congrArg Prod.fst hsignal
    have hafter : after = { s with source.calls := n } := congrArg Prod.snd hsignal
    have hfaulty : x.Faulty s e := by
      obtain houtcome | ⟨m, call, failure, hm, hfails, rfl⟩ := hfault
      · exact Signal.faulty_of_outcome houtcome
      · exact .outage hm hfails
    rw [hanswer, hafter]
    refine ⟨fun e' he => ⟨rfl, ?_⟩, nofun, fun _ => iff_of_true ⟨e, rfl⟩ ⟨e, hfaulty⟩⟩
    cases he
    exact hfaulty

end Service

end Arrivals
