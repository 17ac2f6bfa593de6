import NexusErebus.Runtime

/-!
# Conversation memory (memory.js)

What is said to and by the agent goes to a Redis stream per handle.  A stream is kept
for a day after its last entry.
-/

namespace Nexus

open Text (Str)

def streamPrefix : String := "memory:"

/-- Seconds. -/
def memoryTtl : Nat := 24 * 60 * 60

/-- The key of the stream of a handle. -/
def memoryKey (handle : Str) : String := streamPrefix ++ handle.text

def remember (handle : Str) (text : String) (ts : Nat) : Prog Unit := do
  let key := memoryKey handle
  redis (.xadd key [("text", text), ("ts", Number.text (some ts))])
  redis (.expire key memoryTtl)

/-- The last entries of a handle, oldest first. -/
def «recall» (handle : Str) (limit : Nat) : Prog (List (List (String × String))) := do
  let raw : List (Nat × List (String × String)) ← redis (.xrevrange (memoryKey handle) limit)
  return (raw.map fun (_, fields) => Assoc.setAll [] fields).reverse

end Nexus
