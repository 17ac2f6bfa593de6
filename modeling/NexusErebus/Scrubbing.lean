import NexusErebus.Csrf
import NexusErebus.Text.JsonMap

/-!
# What handlers find in a body (api-server.js)

Two middlewares clean the body of a request.  One removes the keys that MongoDB takes for
operators, the other passes every string through `xss`.  Both are registered before
`express.json`, and until that has run `req.body` is undefined.  So they find nothing to clean,
and the handlers find the body as it was sent.

Each middleware is right by itself: with the body read first, the handlers would find it cleaned
(`body_parsedFirst`).  What the stack of the source gives them is said by `received_cleaned_iff`.
-/

namespace Nexus

open Async Text

/-! ## The middlewares -/

/-- A request on its way through the middlewares. -/
structure Passing where
  /-- The JSON value that was sent, if any. -/
  sent : Option Json
  /-- `req.body`. -/
  body : Option Json

/-- The keys `express-mongo-sanitize` removes start with a dollar sign or contain a dot. -/
def isOperator (key : String) : Bool := key.toList.head? = some '$' || key.toList.contains '.'

/-- `mongoSanitize.sanitize`. -/
def sanitize (j : Json) : Json := j.dropKeys isOperator

/-- `if (req.body) mongoSanitize.sanitize(req.body)`. -/
def sanitizeBody (r : Passing) : Passing :=
  if Json.truthy r.body then { r with body := r.body.map sanitize } else r

section

variable (xss : String → String)

mutual

/-- The function `scrub` of the middleware. -/
def scrub : Json → Json
  | .arr xs => .arr (scrubElems xs)
  | .obj kvs => .obj (scrubMembers kvs)
  | j => j

/-- The loop of `scrub` over an array. -/
def scrubElems : List Json → List Json
  | [] => []
  | .str s :: xs => .str (xss s) :: scrubElems xs
  | v :: xs => scrub v :: scrubElems xs

/-- The loop of `scrub` over an object. -/
def scrubMembers : List (String × Json) → List (String × Json)
  | [] => []
  | (k, .str s) :: kvs => (k, .str (xss s)) :: scrubMembers kvs
  | (k, v) :: kvs => (k, scrub v) :: scrubMembers kvs

end

/-- `scrub(req.body)`. -/
def scrubBody (r : Passing) : Passing := { r with body := r.body.map (scrub xss) }

/-- `express.json()`. -/
def expressJson (r : Passing) : Passing := { r with body := r.sent }

/-- Run middlewares in the order they are registered. -/
def runStack (stack : List (Passing → Passing)) (sent : Option Json) : Passing :=
  stack.foldl (fun r middleware => middleware r) ⟨sent, none⟩

/-- The middlewares of the server that touch the body. -/
def bodyStack : List (Passing → Passing) := [sanitizeBody, scrubBody xss, expressJson]

/-- A request as its handler finds it, given the request as it was sent. -/
def received (r : ApiRequest) : ApiRequest :=
  { r with body := (runStack (bodyStack xss) r.body).body }

/-- A body that has been cleaned: the operator keys are gone, and every string is the image of
the string that was sent. -/
def cleaned (j : Json) : Json := (sanitize j).mapStrings xss

end

/-! ## The middlewares by themselves -/

section

variable (xss : String → String)

mutual

/-- `scrub` reaches every string of an object or an array. -/
theorem scrub_eq_mapStrings : ∀ j : Json, (∀ s, j ≠ .str s) → scrub xss j = j.mapStrings xss
  | .null, _ | .bool _, _ | .num _, _ => rfl
  | .str s, h => absurd rfl (h s)
  | .arr xs, _ => congrArg Json.arr (scrubElems_eq_mapStrings xs)
  | .obj kvs, _ => congrArg Json.obj (scrubMembers_eq_mapStrings kvs)

theorem scrubElems_eq_mapStrings : ∀ xs : List Json,
    scrubElems xss xs = Json.mapStringsElems xss xs
  | [] => rfl
  | v :: xs => by
      rw [Json.mapStringsElems, ← scrubElems_eq_mapStrings xs]
      cases v with
      | str s => rfl
      | _ => exact congrArg (· :: _) (scrub_eq_mapStrings _ nofun)

theorem scrubMembers_eq_mapStrings : ∀ kvs : List (String × Json),
    scrubMembers xss kvs = Json.mapStringsMembers xss kvs
  | [] => rfl
  | (k, v) :: kvs => by
      rw [Json.mapStringsMembers, ← scrubMembers_eq_mapStrings kvs]
      cases v with
      | str s => rfl
      | _ => exact congrArg (fun v => (k, v) :: _) (scrub_eq_mapStrings _ nofun)

end

/-- If the body were read first, it would be cleaned.  The parser takes only objects and
arrays. -/
theorem body_parsedFirst {j : Json} (hj : (∃ xs, j = .arr xs) ∨ ∃ kvs, j = .obj kvs) :
    (runStack [expressJson, sanitizeBody, scrubBody xss] (some j)).body = some (cleaned xss j) := by
  obtain ⟨xs, rfl⟩ | ⟨kvs, rfl⟩ := hj
  · exact congrArg some (scrub_eq_mapStrings xss (.arr _) nofun)
  · exact congrArg some (scrub_eq_mapStrings xss (.obj _) nofun)

/-- The handler finds the request as it was sent. -/
theorem received_eq (r : ApiRequest) : received xss r = r := rfl

end

/-- A handler finds the body of its request cleaned if and only if there was nothing to clean: no
key at any depth is an operator, and `xss` leaves every string at any depth as it is. -/
theorem received_cleaned_iff (xss : String → String) (r : ApiRequest) :
    (received xss r).body = r.body.map (cleaned xss) ↔
      ∀ j ∈ r.body, (∀ s ∈ j.strings, xss s = s) ∧ ∀ k ∈ j.keys, isOperator k = false := by
  rw [received_eq]
  cases r.body with
  | none => simp
  | some j =>
      simp only [Option.map_some, Option.some.injEq, Option.mem_def, forall_eq']
      exact eq_comm.trans Json.mapStrings_dropKeys_eq_iff

namespace Sample

/-- Angle brackets are escaped, as `xss` does for tags it does not know. -/
def escape (s : String) : String :=
  String.ofList (s.toList.flatMap fun c =>
    if c = '<' then "&lt;".toList else if c = '>' then "&gt;".toList else [c])

/-- A request for a token, with a valid CSRF token. -/
def signUp (body : Json) : ApiRequest where
  method := .post
  path := "/auth"
  malformed := false
  admitted := true
  authorization := none
  csrfCookie := some "VJ1mqV0Jb2y0fmZT8kZ9hYwX"
  csrfField := none
  xCsrfToken := some "Ab3dE6gH-xJAYKgfQIwb4Iyuc225SAtR42kA"
  xXsrfToken := none
  body := some body

/-- A body with a tag and with an operator. -/
def tagged : Json :=
  .obj [("handle", .str "@alice"), ("method", .str "telegram"),
    ("note", .obj [("$where", .str "<b>")])]

/-- The handler of `POST /auth` takes the request, and finds the tag and the operator in its
body. -/
theorem tagged_received :
    ((answerRequest env (received escape (signUp tagged))).run (alone .api unplugged)
        (St.fresh env 0, ())).1.toOption.map Prod.fst = some 200 ∧
      (received escape (signUp tagged)).body.map Json.strings =
        some ["@alice", "telegram", "<b>"] ∧
      (received escape (signUp tagged)).body.map Json.keys =
        some ["handle", "method", "note", "$where"] ∧
      (received escape (signUp tagged)).body ≠ (signUp tagged).body.map (cleaned escape) := by
  refine ⟨by decide +kernel, rfl, rfl, fun h => ?_⟩
  exact absurd (congrArg (Option.map Json.keys) h) (by decide)

end Sample

end Nexus
