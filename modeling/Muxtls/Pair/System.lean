import Muxtls.Connection.Endpoint

namespace Muxtls

/-- Two endpoints, the client at `true` and the server at `false`, and the two transport
directions: `chan side` holds the encoded frames on their way to `side`. -/
structure Pair where
  ep : Bool → Endpoint
  chan : Bool → List Bytes

/-- A step of the pair: one endpoint acts, or it receives the oldest frame of its channel. -/
inductive Move where
  | act (side : Bool) (a : Act)
  | deliver (side : Bool)

/-- Everything except an item of the transport. -/
def Act.isLocal : Act → Bool
  | .receive _ => false
  | _ => true

def Event.wire : Event → Option Bytes
  | .sent f => some f.wire
  | _ => none

namespace Pair

/-- Two connected endpoints with valid limits. -/
def connect (limits : Bool → Limits) : Except Error Pair :=
  match Endpoint.connect (limits true) true, Endpoint.connect (limits false) false with
  | .ok client, .ok server => .ok ⟨fun side => if side then client else server, fun _ => []⟩
  | .error error, _ => .error error
  | _, .error error => .error error

/-- The effect of an endpoint step: the new endpoint, and its sent frames on the other channel. -/
def after (p : Pair) (side : Bool) (e : Endpoint) (events : List Event) : Pair where
  ep := Function.update p.ep side e
  chan := Function.update p.chan (!side) (p.chan (!side) ++ events.filterMap Event.wire)

def step (p : Pair) : Move → Option (Pair × List (Bool × Event))
  | .act side a =>
    if a.isLocal then
      ((p.ep side).step a).map fun (e, events) => (p.after side e events, events.map (side, ·))
    else none
  | .deliver side =>
    match p.chan side with
    | [] => none
    | bytes :: rest =>
      ((p.ep side).step (.receive bytes)).map fun (e, events) =>
        ({ p with chan := Function.update p.chan side rest }.after side e events, events.map (side, ·))

/-- The runs of two honest endpoints over reliable first-in-first-out channels. -/
def machine (limits : Bool → Limits) : Machine Pair (Bool × Event) :=
  .ofStep (fun p => connect limits = .ok p) step

end Pair
end Muxtls
