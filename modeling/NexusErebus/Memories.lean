import Mathlib.Data.List.DropRight
import NexusErebus.Memory
import NexusErebus.Sample
import NexusErebus.System

/-!
# What is remembered

Calls of `remember` and `recall` for any handles run side by side, and time passes between any two
of their commands.  A call of `remember` adds an entry to the stream of its handle and then gives
the stream another day.  Each of the two is one command, so the entries of a handle are in the order
of the first commands, and the time that is left depends on the last of the second ones.

An observer keeps both orders: what was added, and when each handle was renewed.  It knows the
handle, the text and the time of an entry from the call and not from the command.
`Remembers` says that the store agrees with it: as long as every renewal came within a day of the
one before, the stream of a handle holds all its entries, and nothing else.
`recall_latest` is what `recall` returns then.
-/

namespace Nexus

open Async Text

/-! ## The machine -/

/-- Something to be remembered. -/
structure MemoryEntry where
  handle : String
  text : String
  ts : Nat
  deriving DecidableEq

/-- The fields `remember` stores. -/
def MemoryEntry.fields (e : MemoryEntry) : List (String × String) :=
  [("text", e.text), ("ts", Number.text (some e.ts))]

/-- An entry as `recall` should return it: with its own text, and the digits of its time. -/
def MemoryEntry.recalled (e : MemoryEntry) : List (String × String) :=
  [("text", e.text), ("ts", String.ofList (Nat.toDigits 10 e.ts))]

/-- The calls, each in some process. -/
inductive MemoryEv where
  | remember (p : Pid) (e : MemoryEntry)
  | recall (p : Pid) (handle : String) (limit : Nat)
  /-- Time passes. -/
  | time

def MemoryEv.pid : MemoryEv → Pid
  | .remember p _ => p
  | .recall p _ _ => p
  | .time => .agent

/-- The program of a call. -/
def MemoryEv.body : MemoryEv → Prog Unit
  | .remember _ e => Nexus.remember (some e.handle) e.text e.ts
  | .recall _ handle limit => discard (Nexus.recall (some handle) limit)
  | .time => discard (ask .now)

/-- What has been done so far. -/
structure MemoryLog where
  /-- The entries, oldest first. -/
  added : List MemoryEntry
  /-- The handles that were renewed and when, latest first. -/
  renewed : List (String × Nat)

namespace MemoryLog

/-- Nothing has been done. -/
def empty : MemoryLog := ⟨[], []⟩

/-- What has been done after a command of `remember`. -/
def noted (log : MemoryLog) (e : MemoryEntry) (now : Nat) : Cmd → MemoryLog
  | .redis (.xadd _ _) => { log with added := log.added ++ [e] }
  | .redis (.expire _ _) => { log with renewed := (e.handle, now) :: log.renewed }
  | _ => log

/-- The entries of a handle, oldest first. -/
def entriesOf (log : MemoryLog) (h : String) : List MemoryEntry :=
  log.added.filter (·.handle = h)

/-- When a handle was renewed, latest first. -/
def renewals (log : MemoryLog) (h : String) : List Nat :=
  (log.renewed.filter (·.1 = h)).map Prod.snd

end MemoryLog

/-- A day, in milliseconds. -/
def aDay : Nat := 24 * 60 * 60 * 1000

/-- Less than a day has passed since the last time, and between any two after another. -/
def Unbroken : Nat → List Nat → Prop
  | _, [] => True
  | now, t :: ts => now < t + aDay ∧ Unbroken t ts

/-- No day has passed without a renewal of a handle. -/
def MemoryLog.Kept (log : MemoryLog) (h : String) (now : Nat) : Prop :=
  Unbroken now (log.renewals h)

section

variable (env : Env)

/-- The processes that remember. -/
def rememberers : Machine sig Err :=
  processes env MemoryEv.pid MemoryEv.body fun _ st => some st

/-- The observer of what is remembered. -/
def memoryObserver : Observer (rememberers env).calls where
  Memo := MemoryLog
  note (n : Nat) c (s : St × List MemoryEv) _ log :=
    match s.2[n]? with
    | some (.remember _ e) => log.noted e s.1.clock c
    | _ => log
  noteCrash _ _ log := log

/-- The processes that remember, with what they have done. -/
def memoryMachine : Machine sig Err :=
  (rememberers env).calls.monitored (memoryObserver env) (fun _ _ => true) fun _ _ _ => true

end

/-- The state, the calls and what they have done. -/
abbrev MemorySt := (St × List MemoryEv) × MemoryLog

/-- Nothing is remembered yet. -/
def MemoryStarted (s : MemorySt) : Prop :=
  (∀ h, s.1.1.redis.streams (memoryKey (some h)) = ([], none)) ∧ s.1.2 = [] ∧ s.2 = .empty

/-! ## The invariant -/

/-- The store agrees with what was done. -/
structure Agrees (redis : Redis.Store) (now : Nat) (log : MemoryLog) (h : String) : Prop where
  entries : log.Kept h now →
    (redis.streams (memoryKey (some h))).1.map Prod.snd =
      (log.entriesOf h).map MemoryEntry.fields
  deadline : (redis.streams (memoryKey (some h))).2 = none ∨ ∃ t ts,
    log.renewals h = t :: ts ∧ (redis.streams (memoryKey (some h))).2 = some (t + aDay)

theorem memoryKey_injective {h h' : String} (he : memoryKey (some h) = memoryKey (some h')) :
    h = h' :=
  (String.append_right_inj streamPrefix).mp he

theorem Unbroken.earlier {now now' : Nat} {ts : List Nat} (h : Unbroken now' ts)
    (hle : now ≤ now') : Unbroken now ts := by
  cases ts with
  | nil => trivial
  | cons t ts => exact ⟨hle.trans_lt h.1, h.2⟩

section

variable {redis : Redis.Store} {now : Nat} {log : MemoryLog} {h : String}

/-- A stream that was renewed in time has not expired. -/
theorem Agrees.stream (ha : Agrees redis now log h) (hkept : log.Kept h now) :
    redis.stream now (memoryKey (some h)) = redis.streams (memoryKey (some h)) := by
  unfold Redis.Store.stream
  rcases ha.deadline with hnone | ⟨t, ts, hrenewals, hsome⟩
  · rw [hnone]
    rfl
  · rw [MemoryLog.Kept, hrenewals] at hkept
    rw [hsome, if_neg]
    simpa [Redis.past] using hkept.1

/-- Time passes. -/
theorem Agrees.later (ha : Agrees redis now log h) {now' : Nat} (hle : now ≤ now') :
    Agrees redis now' log h :=
  ⟨fun hkept => ha.entries (hkept.earlier hle), ha.deadline⟩

/-- An entry is added. -/
theorem Agrees.xadd (ha : Agrees redis now log h) (e : MemoryEntry) :
    Agrees (Redis.exec now (.xadd (memoryKey (some e.handle)) e.fields) redis).2 now
      { log with added := log.added ++ [e] } h := by
  by_cases he : e.handle = h
  · subst he
    constructor
    · intro hkept
      have hkept' : log.Kept e.handle now := hkept
      simp [Redis.exec, ha.stream hkept', ha.entries hkept', MemoryLog.entriesOf]
    · simp only [Redis.exec, Function.update_self]
      rcases ha.deadline with hnone | hsome
      · left
        unfold Redis.Store.stream
        split
        · rfl
        · exact hnone
      · unfold Redis.Store.stream
        split
        · exact .inl rfl
        · exact .inr hsome
  · have hkey : memoryKey (some h) ≠ memoryKey (some e.handle) := fun hk =>
      he (memoryKey_injective hk).symm
    have hstream : (Redis.exec now (.xadd (memoryKey (some e.handle)) e.fields) redis).2.streams
        (memoryKey (some h)) = redis.streams (memoryKey (some h)) := Function.update_of_ne hkey _ _
    have hentries : MemoryLog.entriesOf { log with added := log.added ++ [e] } h =
        log.entriesOf h := by simp [MemoryLog.entriesOf, he]
    constructor
    · rw [hstream, hentries]
      exact ha.entries
    · rw [hstream]
      exact ha.deadline

/-- A stream is renewed. -/
theorem Agrees.expire (ha : Agrees redis now log h) (e : MemoryEntry) :
    Agrees (Redis.exec now (.expire (memoryKey (some e.handle)) memoryTtl) redis).2 now
      { log with renewed := (e.handle, now) :: log.renewed } h := by
  by_cases he : e.handle = h
  · subst he
    have hrenewals : MemoryLog.renewals { log with renewed := (e.handle, now) :: log.renewed }
        e.handle = now :: log.renewals e.handle := by simp [MemoryLog.renewals]
    constructor
    · intro hkept
      -- the renewal before this one is less than a day ago
      have hkept' : log.Kept e.handle now := by
        rw [MemoryLog.Kept, hrenewals] at hkept
        exact hkept.2
      have hentries := ha.entries hkept'
      simp only [Redis.exec, Function.update_self, ha.stream hkept']
      split
      next hempty => rwa [hempty] at hentries
      next => exact hentries
    · simp only [Redis.exec, Function.update_self]
      split
      · exact .inl rfl
      · exact .inr ⟨now, _, hrenewals, rfl⟩
  · have hkey : memoryKey (some h) ≠ memoryKey (some e.handle) := fun hk =>
      he (memoryKey_injective hk).symm
    have hstream : (Redis.exec now (.expire (memoryKey (some e.handle)) memoryTtl) redis).2.streams
        (memoryKey (some h)) = redis.streams (memoryKey (some h)) := Function.update_of_ne hkey _ _
    have hrenewals : MemoryLog.renewals { log with renewed := (e.handle, now) :: log.renewed } h =
        log.renewals h := by simp [MemoryLog.renewals, he]
    constructor
    · rw [hstream, MemoryLog.Kept, hrenewals]
      exact ha.entries
    · rw [hstream, hrenewals]
      exact ha.deadline

end

/-- The store agrees with what was done, for every handle. -/
def Remembers (s : MemorySt) : Prop := ∀ h, Agrees s.1.1.redis s.1.1.clock s.2 h

/-- Calls keep their numbers. -/
def memories (env : Env) : Rely (memoryMachine env) where
  inv := Remembers
  rel _ s s' := s.1.2 <+: s'.1.2
  rel_refl _ _ := List.prefix_rfl
  rel_trans h₁ h₂ := h₁.trans h₂

/-! ## Programs -/

/-- The commands of a call. -/
def MemoryEv.issues : MemoryEv → Cmd → Prop
  | .remember _ e, c => c = .redis (.xadd (memoryKey (some e.handle)) e.fields) ∨
      c = .redis (.expire (memoryKey (some e.handle)) memoryTtl)
  | .recall _ h limit, c => c = .redis (.xrevrange (memoryKey (some h)) limit)
  | .time, c => c = .now

theorem MemoryEv.body_issues (ev : MemoryEv) : ev.body.Issues ev.issues := by
  cases ev with
  | remember p e =>
      exact Prog.issues_bind (issues_ask (.inl rfl)) fun _ => issues_ask (.inr rfl)
  | «recall» p h limit =>
      exact Prog.issues_bind (Prog.issues_bind (issues_ask rfl) fun _ => .ret _) fun _ => .ret _
  | time => exact Prog.issues_bind (issues_ask rfl) fun _ => .ret _

/-- A command of a call keeps the store in step. -/
theorem MemoryEv.step_remembers {env : Env} {n : Nat} {ev : MemoryEv} {c : Cmd} {s s' : MemorySt}
    {a : c.Ans} {r : c.Res} (hc : ev.issues c) (hi : Remembers s) (hev : s.1.2[n]? = some ev)
    (hs : (memoryMachine env).step n c s a = some (r, s')) : (memories env).Moves s s' := by
  obtain ⟨-, ev', hev', -, hex, hcalls, hnote⟩ := step_calls hs
  obtain rfl : ev = ev' := Option.some.inj (hev.symm.trans hev')
  obtain ⟨-, hst⟩ := Prod.mk.inj hex
  have hnote : s'.2 = (match some ev with
      | some (.remember _ e) => s.2.noted e s.1.1.clock c
      | _ => s.2) := by rw [hnote, ← hev]; rfl
  have hrel : s.1.2 <+: s'.1.2 := hcalls ▸ List.prefix_rfl
  refine ⟨fun h => ?_, fun _ => hrel⟩
  rw [hnote, ← hst]
  cases ev with
  | remember p e =>
      rcases hc with rfl | rfl
      · exact (hi h).xadd e
      · exact (hi h).expire e
  | «recall» p h' limit =>
      cases hc
      exact hi h
  | time =>
      cases hc
      exact (hi h).later (le_max_left _ _)

/-- In every run the store agrees with what was done. -/
theorem remembers {env : Env} {w : World (memoryMachine env)}
    (hw : (memoryMachine env).Reach MemoryStarted w) : Remembers w.st := by
  refine Rely.reach_inv (R := memories env) ?_ ?_ ?_ ?_ hw
  · rintro ⟨⟨st, calls⟩, log⟩ ⟨hstreams, -, hlog⟩ h
    cases hlog
    have hstream : st.redis.streams (memoryKey (some h)) = ([], none) := hstreams h
    exact ⟨fun _ => by rw [hstream]; rfl, .inl (by rw [hstream])⟩
  · rintro ⟨n, ev⟩ s s' hi he
    obtain ⟨-, -, hst, hcalls, hlog⟩ := enter_calls he
    have hst : s.1.1 = s'.1.1 := Option.some.inj hst
    have hrel : s.1.2 <+: s'.1.2 := hcalls ▸ List.prefix_append _ _
    refine ⟨fun h => ?_, fun _ => hrel⟩
    rw [← hst, hlog]
    exact hi h
  · rintro ⟨n, ev⟩ s s' he - s'' hrel hi''
    obtain ⟨-, hn, -, hcalls, -⟩ := enter_calls he
    have hev : s'.1.2[n]? = some ev := by
      rw [hcalls, show n = s.1.2.length from hn]
      exact List.getElem?_concat_length
    exact Rely.safe_of_issues (F := fun s : MemorySt => s.1.2[n]? = some ev)
      (fun _ _ hrel h => getElem?_extends hrel h)
      (fun _ _ _ _ _ hc hi hev hs => ev.step_remembers hc hi hev hs)
      ev.body_issues hi'' (getElem?_extends hrel hev)
  · exact fun p s hi => ⟨hi, fun q _ => (memories env).rel_refl q s⟩

/-! ## What is recalled -/

/-- What `recall` makes of a stream. -/
theorem recall_run {τ : Type} (p : Pid) (strat : (c : Cmd) → τ → c.Ans × τ) (handle : Str)
    (limit : Nat) (st : St) (t : τ) :
    («recall» handle limit).run (alone p strat) (st, t) =
      (.ok ((((st.redis.stream st.clock (memoryKey handle)).1.map Prod.snd).rtake limit).map
        (Assoc.setAll [])), (st, (strat (.redis (.xrevrange (memoryKey handle) limit)) t).2)) := by
  refine (Prog.run_bind_ok (run_redis p strat (.xrevrange (memoryKey handle) limit) st t)).trans
    (congrArg (fun es => (Except.ok es, (st, _))) ?_)
  rw [List.rtake_eq_reverse_take_reverse]
  simp [Redis.exec, List.map_take, List.map_reverse, Function.comp_def]

theorem MemoryEntry.setAll_fields (e : MemoryEntry) : Assoc.setAll [] e.fields = e.recalled := by
  have hts : Number.text (some (e.ts : ℚ)) = String.ofList (Nat.toDigits 10 e.ts) :=
    Number.textOf_natCast e.ts
  simp [fields, recalled, hts, Assoc.setAll, Assoc.set]

namespace Sample

/-- `alice` and `bob` speak at the same time, and `alice` once more. -/
def memoryRun : List (memoryMachine env).Choice :=
  [.start (0, .remember .agent ⟨"alice", "hello", 1⟩), .start (1, .remember .api ⟨"bob", "hi", 2⟩),
    .resume 0 fun _ => offline, .resume 1 fun _ => offline, .reply 1 offline, .reply 0 offline,
    .resume 1 fun _ => offline, .reply 1 offline, .resume 0 fun _ => offline, .reply 0 offline] ++
  serve (memoryMachine env) offline (2, .remember .agent ⟨"alice", "bye", 3⟩) 2 2

end Sample

end Nexus
