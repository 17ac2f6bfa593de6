import NexusErebus.Data.Assoc
import Mathlib.Logic.Function.Basic

/-!
# A Redis server

The commands of a Redis server that the programs use, with their documented meaning.
A server holds hashes, sets, strings and streams under string keys.  Strings and
streams may have a deadline, after which the key is as good as absent.  Time is in
milliseconds and is given to every command.  A hash and a set have no deadline here,
since nobody sets one.

`exec` is total: a command always gets its answer.  What a server does with keys of
the wrong type is not described.
-/

namespace Redis

/-- The keys and values of a server. -/
structure Store where
  /-- Hashes, with their fields in order. -/
  hashes : String → List (String × String)
  /-- Sets, in the order of insertion. -/
  sets : String → List String
  /-- Strings, with a deadline. -/
  strings : String → Option (String × Option Nat)
  /-- Streams, oldest entry first, with a deadline. -/
  streams : String → List (Nat × List (String × String)) × Option Nat
  /-- The id of the next stream entry. -/
  nextId : Nat
  /-- What was published, oldest first. -/
  published : List (String × String)

/-- A server that holds nothing. -/
def Store.empty : Store where
  hashes _ := []
  sets _ := []
  strings _ := none
  streams _ := ([], none)
  nextId := 0
  published := []

/-- The commands. -/
inductive Cmd where
  | hset (key : String) (fields : List (String × String))
  | hget (key field : String)
  | hgetall (key : String)
  | sadd (key member : String)
  | smembers (key : String)
  | get (key : String)
  | setex (key : String) (seconds : Nat) (value : String)
  | publish (channel message : String)
  | xadd (key : String) (fields : List (String × String))
  | xrevrange (key : String) (count : Nat)
  | expire (key : String) (seconds : Nat)
  | incr (key : String)
  | del (key : String)
  deriving DecidableEq

/-- The answer of a command. -/
@[reducible] def Cmd.Res : Cmd → Type
  | .hget .. => Option String
  | .hgetall .. => List (String × String)
  | .smembers .. => List String
  | .get .. => Option String
  | .xrevrange .. => List (Nat × List (String × String))
  | _ => Unit

/-- A deadline has passed. -/
def past (now : Nat) : Option Nat → Bool
  | none => false
  | some t => t ≤ now

/-- The value of a string key. -/
def Store.string (s : Store) (now : Nat) (key : String) : Option String :=
  match s.strings key with
  | some (v, t) => if past now t then none else some v
  | none => none

/-- A stream and its deadline.  An expired stream is empty and has none. -/
def Store.stream (s : Store) (now : Nat) (key : String) :
    List (Nat × List (String × String)) × Option Nat :=
  if past now (s.streams key).2 then ([], none) else s.streams key

/-- The number a string stands for, to be counted up.  An absent one counts as zero. -/
def counter : Option String → Int
  | none => 0
  | some v => v.toInt?.getD 0

/-- Carry out a command at a time. -/
def exec (now : Nat) : (c : Cmd) → Store → c.Res × Store
  | .hset key fields, s =>
      ((), { s with
        hashes := Function.update s.hashes key (Assoc.setAll (s.hashes key) fields) })
  | .hget key field, s => ((s.hashes key).lookup field, s)
  | .hgetall key, s => (s.hashes key, s)
  | .sadd key member, s =>
      ((), { s with
        sets := Function.update s.sets key
          (if member ∈ s.sets key then s.sets key else s.sets key ++ [member]) })
  | .smembers key, s => (s.sets key, s)
  | .get key, s => (s.string now key, s)
  | .setex key seconds value, s =>
      ((), { s with
        strings := Function.update s.strings key (some (value, some (now + 1000 * seconds))) })
  | .publish channel message, s =>
      ((), { s with published := s.published ++ [(channel, message)] })
  | .xadd key fields, s =>
      let (es, t) := s.stream now key
      ((), { s with
        streams := Function.update s.streams key (es ++ [(s.nextId, fields)], t)
        nextId := s.nextId + 1 })
  | .xrevrange key count, s => ((s.stream now key).1.reverse.take count, s)
  | .expire key seconds, s =>
      -- an absent key stays absent
      ((), { s with
        strings := Function.update s.strings key
          ((s.string now key).map fun v => (v, some (now + 1000 * seconds)))
        streams := Function.update s.streams key
          (if (s.stream now key).1 = [] then ([], none)
            else ((s.stream now key).1, some (now + 1000 * seconds))) })
  | .incr key, s =>
      -- the deadline stays
      ((), { s with
        strings := Function.update s.strings key
          (some (toString (counter (s.string now key) + 1),
            (s.string now key).bind fun _ => (s.strings key).bind Prod.snd)) })
  | .del key, s =>
      ((), { s with
        hashes := Function.update s.hashes key []
        sets := Function.update s.sets key []
        strings := Function.update s.strings key none
        streams := Function.update s.streams key ([], none) })

/-- The key of a hash a command writes to. -/
def Cmd.writesHash : Cmd → Option String
  | .hset key _ | .del key => some key
  | _ => none

/-- Only `hset` and `del` change a hash, and only the one they name. -/
theorem exec_hashes (now : Nat) (c : Cmd) (s : Store) {key : String}
    (h : c.writesHash ≠ some key) : (exec now c s).2.hashes key = s.hashes key := by
  cases c with
  | hset key' _ | del key' =>
      have hne : key ≠ key' := fun he => h (congrArg some he.symm)
      exact Function.update_of_ne hne _ _
  | _ => rfl

/-- The key of a string a command writes to. -/
def Cmd.writesString : Cmd → Option String
  | .setex key _ _ | .expire key _ | .incr key | .del key => some key
  | _ => none

theorem exec_strings (now : Nat) (c : Cmd) (s : Store) {key : String}
    (h : c.writesString ≠ some key) : (exec now c s).2.strings key = s.strings key := by
  cases c with
  | setex key' _ _ | expire key' _ | incr key' | del key' =>
      have hne : key ≠ key' := fun he => h (congrArg some he.symm)
      exact Function.update_of_ne hne _ _
  | _ => rfl

theorem exec_hset_hashes (now : Nat) (key : String) (fields : List (String × String))
    (s : Store) : (exec now (.hset key fields) s).2.hashes key =
      Assoc.setAll (s.hashes key) fields := by
  simp [exec]

/-- A field of a hash survives every command that does not name it and does not delete the hash. -/
theorem exec_lookup (now : Nat) (c : Cmd) (s : Store) {key field : String}
    (h : ∀ fields, c = .hset key fields → field ∉ fields.map Prod.fst) (hdel : c ≠ .del key) :
    ((exec now c s).2.hashes key).lookup field = (s.hashes key).lookup field := by
  by_cases hc : c.writesHash = some key
  · cases c with
    | hset key' fields =>
        cases hc
        have hf : fields.reverse.lookup field = none := by
          rw [List.lookup_eq_none_iff]
          intro kv hkv
          have := h fields rfl
          simp only [List.mem_map, not_exists, not_and] at this
          simpa using fun he => this kv (List.mem_reverse.mp hkv) he.symm
        rw [exec_hset_hashes, Assoc.lookup_setAll, hf, Option.none_or]
    | del key' =>
        cases hc
        exact absurd rfl hdel
    | _ => simp [Cmd.writesHash] at hc
  · rw [exec_hashes now c s hc]

/-! ## Streams -/

/-- A stream that has expired has no deadline. -/
theorem past_stream (s : Store) (now : Nat) (key : String) : past now (s.stream now key).2 = false := by
  unfold Store.stream
  split
  · rfl
  next h => simpa using h

theorem stream_xadd (now : Nat) (key : String) (fields : List (String × String)) (s : Store) :
    (exec now (.xadd key fields) s).2.stream now key =
      ((s.stream now key).1 ++ [(s.nextId, fields)], (s.stream now key).2) := by
  have hpast := past_stream s now key
  unfold Store.stream
  rw [if_neg]
  · simp [exec, Store.stream]
  · simpa [exec] using hpast

/-- A new deadline leaves the entries as they are. -/
theorem stream_expire (now : Nat) (key : String) {seconds : Nat} (h : 0 < seconds) (s : Store) :
    ((exec now (.expire key seconds) s).2.stream now key).1 = (s.stream now key).1 := by
  have hstream : (exec now (.expire key seconds) s).2.streams key =
      if (s.stream now key).1 = [] then ([], none)
      else ((s.stream now key).1, some (now + 1000 * seconds)) := by simp [exec]
  rw [Store.stream, hstream]
  by_cases hempty : (s.stream now key).1 = []
  · rw [if_pos hempty, hempty]
    rfl
  · have hlater : past now (some (now + 1000 * seconds)) = false := by
      rw [past, decide_eq_false_iff_not]
      omega
    rw [if_neg hempty, hlater]
    rfl

end Redis
