import RaftGo.KvStore.Store
import RaftGo.Library.Text
import RaftGo.Raft.Node

/-! The HTTP API of a node (`cmd/kvstore/main.go`). A handler looks at the state of the node,
and then, if the node does not lead, at its `leaderID`; the node may have changed in
between. What it asks of the store takes time, so a handler ends with the question and with
what it makes of the answer. -/

namespace RaftGo.KvStore.Http

open Raft Library

inductive Method where
  | get
  | put
  | delete
  | post
  | other (name : String)
deriving DecidableEq, Repr

structure Request where
  method : Method
  path : String
  requestURI : String
  body : String := ""
  /-- The `value` of the query. -/
  value : String := ""
  /-- The `addr` of a JSON body, if the body can be decoded. -/
  addr : Option String := none
deriving DecidableEq, Repr

inductive Response where
  | error (text : String) (status : Nat)
  | redirect (target : String)
  | ok (text : String)
deriving DecidableEq, Repr

inductive Handling where
  | respond (response : Response)
  | get (key : String) (next : Except KvError String → Response)
  | call (op : Op) (next : Except KvError String → Response)
  | addPeer (addr : String) (next : Bool → Response)
  | removePeer (addr : String) (next : Bool → Response)

def Handling.redirected? : Handling → Option String
  | .respond (.redirect target) => some target
  | _ => none

/-- `strings.TrimPrefix`. -/
def trimPrefix (text start : String) : String :=
  if start.toList.isPrefixOf text.toList then String.ofList (text.toList.drop start.toList.length)
  else text

/-- What a handler answers on a node that does not lead. -/
def toLeader (peerHTTPAddrs : Table String) (leaderID : String) (request : Request) : Response :=
  if leaderID = "" then .error "no leader elected yet, retry shortly" 503
  else
    match peerHTTPAddrs leaderID with
    | none => .error "unknown leader address" 500
    | some leaderAddr => .redirect ("http://" ++ leaderAddr ++ request.requestURI)

def written : Except KvError String → Response
  | .error err => .error err.message 503
  | .ok _ => .ok "OK"

/-- The handler of `/keys/`. Reads are served by every node. -/
def makeHandler (peerHTTPAddrs : Table String) (state : NodeState) (leaderID : String)
    (request : Request) : Handling :=
  let key := trimPrefix request.path "/keys/"
  if key = "" then .respond (.error "missing key in path" 400)
  else if request.method ≠ .get ∧ state ≠ .leader then
    .respond (toLeader peerHTTPAddrs leaderID request)
  else
    match request.method with
    | .get => .get key fun
      | .error .keyNotFound => .error "not found" 404
      | .error err => .error err.message 503
      | .ok value => .ok value
    | .put =>
      let value := trimSpace request.body
      let value := if value = "" then request.value else value
      .call { type := .set, key, value } written
    | .delete => .call { type := .del, key } written
    | _ => .respond (.error "method not allowed" 405)

def changed (accepted : Bool) : Response :=
  if accepted then .ok "OK" else .error "raft: not the leader" 500

/-- The handlers of `/admin/add-node` and `/admin/remove-node`. -/
def makeAdminHandler (peerHTTPAddrs : Table String) (op : ConfigOp) (state : NodeState)
    (leaderID : String) (request : Request) : Handling :=
  if request.method ≠ .post then .respond (.error "method not allowed" 405)
  else if state ≠ .leader then .respond (toLeader peerHTTPAddrs leaderID request)
  else
    match request.addr with
    | none => .respond (.error "body must be JSON with an \"addr\" field" 400)
    | some addr =>
      if addr = "" then .respond (.error "body must be JSON with an \"addr\" field" 400)
      else
        match op with
        | .add => .addPeer addr changed
        | .remove => .removePeer addr changed
        | .unset => .respond (.ok "OK")

/-- The handlers `main` registers that send a client on to the leader. -/
inductive Route where
  | keys
  | admin (op : ConfigOp)
deriving DecidableEq, Repr

def Route.handle (peerHTTPAddrs : Table String) (state : NodeState) (leaderID : String)
    (request : Request) : Route → Handling
  | .keys => makeHandler peerHTTPAddrs state leaderID request
  | .admin op => makeAdminHandler peerHTTPAddrs op state leaderID request

variable {peerHTTPAddrs : Table String} {state : NodeState} {leaderID target : String}
  {request : Request}

theorem redirected_toLeader
    (redirected : (Handling.respond (toLeader peerHTTPAddrs leaderID request)).redirected? =
      some target) :
    leaderID ≠ "" ∧ ∃ leaderAddr, peerHTTPAddrs leaderID = some leaderAddr ∧
      target = "http://" ++ leaderAddr ++ request.requestURI := by
  unfold toLeader at redirected
  split at redirected
  · cases redirected
  · rename_i known
    refine ⟨known, ?_⟩
    cases found : peerHTTPAddrs leaderID with
    | none => simp [found, Handling.redirected?] at redirected
    | some leaderAddr =>
      rw [found] at redirected
      exact ⟨leaderAddr, rfl, (Option.some.inj redirected).symm⟩

/-- A redirect comes from a node that does not lead, and goes to the address it has for its
leader. -/
theorem Route.redirected (route : Route)
    (redirected : (route.handle peerHTTPAddrs state leaderID request).redirected? = some target) :
    state ≠ .leader ∧ leaderID ≠ "" ∧ ∃ leaderAddr, peerHTTPAddrs leaderID = some leaderAddr ∧
      target = "http://" ++ leaderAddr ++ request.requestURI := by
  cases route with
  | keys =>
    change (makeHandler ..).redirected? = _ at redirected
    unfold makeHandler at redirected
    dsimp only at redirected
    split at redirected
    · cases redirected
    · split at redirected
      · rename_i elsewhere
        exact ⟨elsewhere.2, redirected_toLeader redirected⟩
      · split at redirected <;> cases redirected
  | admin op =>
    change (makeAdminHandler ..).redirected? = _ at redirected
    unfold makeAdminHandler at redirected
    split at redirected
    · cases redirected
    · split at redirected
      · rename_i elsewhere
        exact ⟨elsewhere, redirected_toLeader redirected⟩
      · split at redirected
        · cases redirected
        · split at redirected
          · cases redirected
          · split at redirected <;> cases redirected

end RaftGo.KvStore.Http
