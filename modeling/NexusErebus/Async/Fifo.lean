import NexusErebus.Async.Pool
import Mathlib.Data.List.Perm.Basic
import Mathlib.Data.List.TakeWhile

/-!
# Answers in order

A client that sends its commands over one connection gets the answers in the order of the
commands, and the programs that wait for them go on in that order.  The runs of a machine
leave the order open.  Here are the runs that keep it, for a class of commands that is
`ordered`.

A world of such a run has two lists of tasks.  In `line` stand those that wait for an
ordered command, or have got the answer and have not gone on yet, in the order of their
commands.  All others are `loose`.  An ordered command is carried out if all before it in
the line have their answers, and of the tasks in line only the first goes on.  No process
stops.

Every such run is a run of the machine (`InOrder.reach`).
-/

namespace Async

variable {S : Sig} {ε : Type}

/-- The state, the tasks in line and the other tasks. -/
structure Lined (M : Machine S ε) where
  st : M.St
  line : List (Task M)
  loose : List (Task M)

variable {M : Machine S ε}

/-- The task waits for an ordered command. -/
def Task.awaits (ordered : S.Cmd → Bool) (t : Task M) : Bool :=
  match t.prog with
  | .call c _ => ordered c
  | _ => false

/-- The tasks a segment leaves: what it forked, then the rest of the program.  This is the order
in which their commands are sent. -/
def Machine.Seg.tasks (s : M.Seg Unit) (ev : M.Ev) : List (Task M) :=
  (s.forked ++ [s.rest]).map fun q => ⟨ev, q, false⟩

/-- The world after a segment.  The tasks that wait for an ordered command join the line. -/
def Lined.settle (ordered : S.Cmd → Bool) (line loose : List (Task M)) (ev : M.Ev)
    (s : M.Seg Unit) : Lined M where
  st := s.st
  line := line ++ (s.tasks ev).filter (Task.awaits ordered)
  loose := loose ++ (s.tasks ev).filter fun t => !t.awaits ordered

namespace Machine

variable (M)

/-- The worlds that runs reach in which answers come in order. -/
inductive InOrder (ordered : S.Cmd → Bool) (init : M.St → Prop) : Lined M → Prop where
  | start {st : M.St} : init st → InOrder ordered init ⟨st, [], []⟩
  | enter {w : Lined M} {ev : M.Ev} {st : M.St} :
      InOrder ordered init w → M.enter ev w.st = some st →
      InOrder ordered init ⟨st, w.line, w.loose ++ [⟨ev, M.body ev, true⟩]⟩
  /-- A loose task goes on. -/
  | resume {st : M.St} {line l₁ l₂ : List (Task M)} {ev : M.Ev} {q : Prog S ε Unit}
      {ans : Nat → (c : S.Cmd) → M.Ans c} {s : M.Seg Unit} :
      InOrder ordered init ⟨st, line, l₁ ++ ⟨ev, q, true⟩ :: l₂⟩ →
      M.seg (M.pid ev) ans q st [] = some s →
      InOrder ordered init (.settle ordered line (l₁ ++ l₂) ev s)
  /-- The first task in line goes on. -/
  | advance {st : M.St} {line loose : List (Task M)} {ev : M.Ev} {q : Prog S ε Unit}
      {ans : Nat → (c : S.Cmd) → M.Ans c} {s : M.Seg Unit} :
      InOrder ordered init ⟨st, ⟨ev, q, true⟩ :: line, loose⟩ →
      M.seg (M.pid ev) ans q st [] = some s →
      InOrder ordered init (.settle ordered line loose ev s)
  /-- The command of a loose task is carried out. -/
  | reply {st st' : M.St} {line l₁ l₂ : List (Task M)} {ev : M.Ev} {c : S.Cmd}
      {k : S.Res c → Prog S ε Unit} {ans : (c : S.Cmd) → M.Ans c} {r : S.Res c} :
      InOrder ordered init ⟨st, line, l₁ ++ ⟨ev, .call c k, false⟩ :: l₂⟩ → M.sync c = false →
      M.step (M.pid ev) c st (ans c) = some (r, st') →
      InOrder ordered init ⟨st', line, l₁ ++ ⟨ev, k r, true⟩ :: l₂⟩
  /-- The first command in line that has not been carried out is. -/
  | serve {st st' : M.St} {l₁ l₂ loose : List (Task M)} {ev : M.Ev} {c : S.Cmd}
      {k : S.Res c → Prog S ε Unit} {ans : (c : S.Cmd) → M.Ans c} {r : S.Res c} :
      InOrder ordered init ⟨st, l₁ ++ ⟨ev, .call c k, false⟩ :: l₂, loose⟩ →
      (∀ t ∈ l₁, t.ready = true) → M.sync c = false →
      M.step (M.pid ev) c st (ans c) = some (r, st') →
      InOrder ordered init ⟨st', l₁ ++ ⟨ev, k r, true⟩ :: l₂, loose⟩

variable {M}

/-! ## Carrying out a run in order -/

variable (M) in
/-- The environment's choice of a step. -/
inductive LineChoice where
  | start (ev : M.Ev)
  | resume (i : Nat) (ans : Nat → (c : S.Cmd) → M.Ans c)
  | advance (ans : Nat → (c : S.Cmd) → M.Ans c)
  | reply (i : Nat) (ans : (c : S.Cmd) → M.Ans c)
  | serve (ans : (c : S.Cmd) → M.Ans c)

/-- One step. -/
def lineNext (ordered : S.Cmd → Bool) (w : Lined M) : M.LineChoice → Option (Lined M)
  | .start ev =>
      (M.enter ev w.st).map fun st => ⟨st, w.line, w.loose ++ [⟨ev, M.body ev, true⟩]⟩
  | .resume i ans =>
      match w.loose[i]? with
      | some ⟨ev, q, true⟩ =>
          (M.seg (M.pid ev) ans q w.st []).map
            (.settle ordered w.line (w.loose.take i ++ w.loose.drop (i + 1)) ev)
      | _ => none
  | .advance ans =>
      match w.line with
      | ⟨ev, q, true⟩ :: line =>
          (M.seg (M.pid ev) ans q w.st []).map (.settle ordered line w.loose ev)
      | _ => none
  | .reply i ans =>
      match w.loose[i]? with
      | some ⟨ev, .call c k, false⟩ =>
          if M.sync c then none
          else (M.step (M.pid ev) c w.st (ans c)).map fun x =>
            ⟨x.2, w.line, w.loose.take i ++ ⟨ev, k x.1, true⟩ :: w.loose.drop (i + 1)⟩
      | _ => none
  | .serve ans =>
      match w.line.dropWhile (·.ready) with
      | ⟨ev, .call c k, false⟩ :: line =>
          if M.sync c then none
          else (M.step (M.pid ev) c w.st (ans c)).map fun x =>
            ⟨x.2, w.line.takeWhile (·.ready) ++ ⟨ev, k x.1, true⟩ :: line, w.loose⟩
      | _ => none

/-- Several steps. -/
def lineNexts (ordered : S.Cmd → Bool) (w : Lined M) : List M.LineChoice → Option (Lined M)
  | [] => some w
  | ch :: chs => (lineNext ordered w ch).bind (lineNexts ordered · chs)

theorem split_at {l : List (Task M)} {i : Nat} {t : Task M} (h : l[i]? = some t) :
    l = l.take i ++ t :: l.drop (i + 1) := by
  obtain ⟨hi, rfl⟩ := List.getElem?_eq_some_iff.mp h
  rw [← List.drop_eq_getElem_cons hi, List.take_append_drop]

theorem InOrder.lineNext {ordered : S.Cmd → Bool} {init : M.St → Prop} {w w' : Lined M}
    {ch : M.LineChoice} (hw : M.InOrder ordered init w)
    (h : Machine.lineNext ordered w ch = some w') : M.InOrder ordered init w' := by
  obtain ⟨st, line, loose⟩ := w
  cases ch with
  | start ev =>
      obtain ⟨st', hst, rfl⟩ := Option.map_eq_some_iff.mp h
      exact .enter hw hst
  | resume i ans =>
      simp only [Machine.lineNext] at h
      split at h
      next ev q hq =>
        obtain ⟨s, hs, rfl⟩ := Option.map_eq_some_iff.mp h
        rw [split_at hq] at hw
        exact .resume hw hs
      next => cases h
  | advance ans =>
      simp only [Machine.lineNext] at h
      split at h
      next ev q line hq =>
        obtain ⟨s, hs, rfl⟩ := Option.map_eq_some_iff.mp h
        exact .advance hw hs
      next => cases h
  | reply i ans =>
      simp only [Machine.lineNext] at h
      split at h
      next ev c k hq =>
        obtain ⟨hc, h⟩ := Option.ite_none_left_eq_some.mp h
        obtain ⟨x, hs, rfl⟩ := Option.map_eq_some_iff.mp h
        rw [split_at hq] at hw
        exact .reply hw (Bool.eq_false_iff.mpr hc) hs
      next => cases h
  | serve ans =>
      simp only [Machine.lineNext] at h
      split at h
      next ev c k rest hq =>
        obtain ⟨hc, h⟩ := Option.ite_none_left_eq_some.mp h
        obtain ⟨x, hs, rfl⟩ := Option.map_eq_some_iff.mp h
        rw [← List.takeWhile_append_dropWhile (p := (·.ready)) (l := line), hq] at hw
        exact .serve hw (fun t ht => List.mem_takeWhile_imp ht) (Bool.eq_false_iff.mpr hc) hs
      next => cases h

/-- A run in order that can be carried out, and ends as it should. -/
theorem InOrder.of_run {ordered : S.Cmd → Bool} {init : M.St → Prop} {ends : Lined M → Bool} :
    ∀ {chs : List M.LineChoice} {w : Lined M}, M.InOrder ordered init w →
      (Machine.lineNexts ordered w chs).any ends = true →
      ∃ w', M.InOrder ordered init w' ∧ ends w' = true
  | [], w, hw, h => ⟨w, hw, h⟩
  | ch :: chs, w, hw, h => by
      cases hn : Machine.lineNext ordered w ch with
      | none => simp [Machine.lineNexts, hn] at h
      | some w₁ =>
          simp only [Machine.lineNexts, hn, Option.bind_some] at h
          exact InOrder.of_run (hw.lineNext hn) h

/-! ## Runs in order are runs -/

/-- A task of a pool, and what the pool is without it. -/
theorem exists_index {pool l₁ l₂ : List (Task M)} {t : Task M}
    (h : pool.Perm (l₁ ++ t :: l₂)) : ∃ i, pool[i]? = some t ∧
      ∀ t', (pool.set i t').Perm (t' :: (l₁ ++ l₂)) := by
  have hmem : t ∈ pool := h.mem_iff.mpr (by simp)
  obtain ⟨i, hi, rfl⟩ := List.mem_iff_getElem.mp hmem
  refine ⟨i, List.getElem?_eq_getElem hi, fun t' => ?_⟩
  have hcons : (pool[i] :: pool.eraseIdx i).Perm (pool[i] :: (l₁ ++ l₂)) :=
    (List.getElem_cons_eraseIdx_perm hi).trans (h.trans List.perm_middle)
  exact (List.set_perm_cons_eraseIdx hi t').trans (hcons.cons_inv.cons t')

/-- The tasks of a segment take the place of its program. -/
theorem perm_settle {ordered : S.Cmd → Bool} {pool line loose : List (Task M)} {ev : M.Ev}
    {s : M.Seg Unit} (h : pool.Perm (⟨ev, s.rest, false⟩ :: (line ++ loose))) :
    (pool ++ s.forked.map fun q => (⟨ev, q, false⟩ : Task M)).Perm
      ((Lined.settle ordered line loose ev s).line ++
        (Lined.settle ordered line loose ev s).loose) := by
  have hnew := List.filter_append_perm (Task.awaits ordered) (s.tasks ev)
  simp only [Lined.settle]
  generalize (s.tasks ev).filter (Task.awaits ordered) = A at hnew ⊢
  generalize (s.tasks ev).filter (fun t => !t.awaits ordered) = B at hnew ⊢
  rw [Seg.tasks, List.map_append, List.map_singleton] at hnew
  generalize s.forked.map (fun q => (⟨ev, q, false⟩ : Task M)) = F at hnew ⊢
  have hrest : (pool ++ F).Perm (line ++ loose ++ (F ++ [⟨ev, s.rest, false⟩])) := by
    rw [← List.append_assoc]
    exact (h.append_right F).trans (List.perm_append_singleton _ _).symm
  have hsplit : (line ++ loose ++ (A ++ B)).Perm (line ++ A ++ (loose ++ B)) := by
    rw [List.append_assoc, List.append_assoc]
    exact (List.perm_append_comm_assoc loose A B).append_left line
  exact hrest.trans ((hnew.symm.append_left _).trans hsplit)

/-- What the runs in order reach, runs reach. -/
theorem InOrder.reach {ordered : S.Cmd → Bool} {init : M.St → Prop} {w : Lined M}
    (hw : M.InOrder ordered init w) : ∃ pool trace, M.Reach init ⟨w.st, pool, trace⟩ ∧
      pool.Perm (w.line ++ w.loose) := by
  induction hw with
  | start h => exact ⟨[], [], .start h, .refl _⟩
  | @enter w ev st _ he ih =>
      obtain ⟨pool, trace, hr, hp⟩ := ih
      have hn : next ⟨w.st, pool, trace⟩ (.start ev) =
          some ⟨st, pool ++ [⟨ev, M.body ev, true⟩], trace⟩ := by simp [next, he, afterStart]
      refine ⟨_, _, .step hr hn, ?_⟩
      rw [← List.append_assoc]
      exact hp.append_right _
  | @resume st line l₁ l₂ ev q ans s _ hs ih =>
      obtain ⟨pool, trace, hr, hp⟩ := ih
      rw [← List.append_assoc] at hp
      obtain ⟨i, hi, hset⟩ := exists_index hp
      have hn : next ⟨st, pool, trace⟩ (.resume i ans) =
          some (afterResume ⟨st, pool, trace⟩ i ev s) := by
        simp only [next, hi, hs, Option.map_some]
      refine ⟨_, _, .step hr hn, perm_settle ?_⟩
      rw [← List.append_assoc]
      exact hset _
  | @advance st line loose ev q ans s _ hs ih =>
      obtain ⟨pool, trace, hr, hp⟩ := ih
      obtain ⟨i, hi, hset⟩ := exists_index (show pool.Perm ([] ++ _ :: (line ++ loose)) from hp)
      have hn : next ⟨st, pool, trace⟩ (.resume i ans) =
          some (afterResume ⟨st, pool, trace⟩ i ev s) := by
        simp only [next, hi, hs, Option.map_some]
      exact ⟨_, _, .step hr hn, perm_settle (hset _)⟩
  | @reply st st' line l₁ l₂ ev c k ans r _ hc hs ih =>
      obtain ⟨pool, trace, hr, hp⟩ := ih
      rw [← List.append_assoc] at hp
      obtain ⟨i, hi, hset⟩ := exists_index hp
      have hn : next ⟨st, pool, trace⟩ (.reply i ans) =
          some (afterReply ⟨st, pool, trace⟩ i ev c (k r) st') := by
        simp [next, hi, hc, hs]
      refine ⟨_, _, .step hr hn, ?_⟩
      rw [← List.append_assoc]
      exact (hset _).trans List.perm_middle.symm
  | @serve st st' l₁ l₂ loose ev c k ans r _ _ hc hs ih =>
      obtain ⟨pool, trace, hr, hp⟩ := ih
      rw [List.append_assoc] at hp ⊢
      obtain ⟨i, hi, hset⟩ := exists_index hp
      have hn : next ⟨st, pool, trace⟩ (.reply i ans) =
          some (afterReply ⟨st, pool, trace⟩ i ev c (k r) st') := by
        simp [next, hi, hc, hs]
      refine ⟨_, _, .step hr hn, ?_⟩
      exact (hset _).trans List.perm_middle.symm

end Machine

end Async
