import NexusErebus.Async.Observed

/-!
# Calls as processes

The programs of one process share its memory, and a property may tell them apart all the same: a
request is let in, and it is that request which signs.  `Machine.calls` numbers the events in the
order they come in and makes a process of each.  The state has the list of events next to the state
proper, so an observer that is given a number finds the event.  A call may be given up, which
leaves the state as it is.
-/

namespace Async

variable {S : Sig} {ε : Type}

/-- A call keeps its number. -/
theorem getElem?_extends {α : Type} {l l' : List α} (h : l <+: l') {n : Nat} {a : α}
    (ha : l[n]? = some a) : l'[n]? = some a := by
  obtain ⟨t, rfl⟩ := h
  rw [List.getElem?_append_left (List.getElem?_eq_some_iff.mp ha).1, ha]

theorem getElem?_concat_cases {α : Type} {l : List α} {a b : α} {n : Nat}
    (h : (l ++ [a])[n]? = some b) : l[n]? = some b ∨ n = l.length ∧ a = b := by
  rcases Nat.lt_or_ge n l.length with hn | hn
  · exact .inl (by rwa [List.getElem?_append_left hn] at h)
  · have hlt := (List.getElem?_eq_some_iff.mp h).1
    rw [List.length_append, List.length_singleton] at hlt
    obtain rfl : n = l.length := by omega
    exact .inr ⟨rfl, by simpa using h⟩

namespace Machine

variable (M : Machine S ε)

/-- The machine whose processes are the calls of another one. -/
def calls : Machine S ε where
  Pid := Nat
  St := M.St × List M.Ev
  Ev := Nat × M.Ev
  pid := Prod.fst
  body ev := M.body ev.2
  sync := M.sync
  Ans := M.Ans
  step n c s a := s.2[n]?.bind fun ev =>
    (M.step (M.pid ev) c s.1 a).map fun x => (x.1, (x.2, s.2))
  enter ev s :=
    if ev.1 = s.2.length then (M.enter ev.2 s.1).map fun st => (st, s.2 ++ [ev.2]) else none
  crash _ s := s
  decPid := inferInstance

variable {M}

/-- What a command of a call does. -/
theorem calls_step {n : Nat} {c : S.Cmd} {s s' : M.calls.St} {a : M.Ans c} {r : S.Res c}
    (hs : M.calls.step n c s a = some (r, s')) :
    ∃ ev, s.2[n]? = some ev ∧ M.step (M.pid ev) c s.1 a = some (r, s'.1) ∧ s'.2 = s.2 := by
  obtain ⟨ev, hev, hs⟩ := Option.bind_eq_some_iff.mp hs
  obtain ⟨x, hx, he⟩ := Option.map_eq_some_iff.mp hs
  cases he
  exact ⟨ev, hev, hx, rfl⟩

/-- What the arrival of a call does. -/
theorem calls_enter {ev : Nat × M.Ev} {s s' : M.calls.St} (he : M.calls.enter ev s = some s') :
    ev.1 = s.2.length ∧ M.enter ev.2 s.1 = some s'.1 ∧ s'.2 = s.2 ++ [ev.2] := by
  obtain ⟨hn, he⟩ := Option.ite_none_right_eq_some.mp he
  obtain ⟨st, hst, hs'⟩ := Option.map_eq_some_iff.mp he
  cases hs'
  exact ⟨hn, hst, rfl⟩

end Machine

end Async
