import Mathlib.Logic.Function.Basic
import V2x.Session

/-!
# Overrides shared by several clients

The overrides are one map, published as a whole. A client that updates them takes a copy, changes the
copy and publishes it, unless another map has been published since: then it starts over with a new copy.
Each step looks at the published map at most once, and the steps of different clients may come in any
order.
-/

namespace V2x.Shared

inductive Update
  | override (messageId : UInt8) (grammar : Grammar)
  | clear (messageId : UInt8)
  | clearAll

/-- The same update, asked of a session that nobody else uses. -/
def Update.request : Update → Request
  | override messageId grammar => .override messageId grammar
  | clear messageId => .clearOverride messageId
  | clearAll => .clearOverrides

/-- The map that an update makes of a map. -/
def Update.apply : Update → OrderedMap UInt8 Grammar → OrderedMap UInt8 Grammar
  | override messageId grammar, map => map.insert messageId grammar
  | clear messageId, map => map.erase messageId
  | clearAll, _ => .empty

/-- What the client is told when the update has put another map in the place of `replaced`. -/
def Update.reply : Update → OrderedMap UInt8 Grammar → Reply
  | clear messageId, replaced => .existed (replaced.contains messageId)
  | override _ _, _ | clearAll, _ => .done

/-- The published map. Maps that are published one after another are told apart by their generation,
whatever is in them. -/
structure Store where
  map : OrderedMap UInt8 Grammar
  generation : Nat := 0

def Store.publish (s : Store) (map : OrderedMap UInt8 Grammar) : Store :=
  ⟨map, s.generation + 1⟩

/-- What an update that has begun is going to do. -/
inductive Stage
  | copy
  /-- Publish, if `copied` is still the published map. -/
  | replace (copied : OrderedMap UInt8 Grammar) (generation : Nat)

/-- What a step of an update comes to. -/
inductive Progress
  | underway (next : Stage)
  | ended (reply : Reply) (store : Store)

/-- The first step of an update. Only if there is something to clear, clearing goes on to take a copy. -/
def Update.start : Update → Store → Progress
  | override _ _, s => .underway (.replace s.map s.generation)
  | clear messageId, s =>
    if s.map.contains messageId then .underway .copy else .ended (.existed false) s
  | clearAll, s => .ended .done (s.publish .empty)

/-- A later step of an update. -/
def Update.resume (u : Update) (s : Store) : Stage → Progress
  | .copy => .underway (.replace s.map s.generation)
  | .replace copied generation =>
    if generation = s.generation then .ended (u.reply s.map) (s.publish (u.apply copied))
    else .underway .copy

inductive Client
  | between (todo : List Update)
  /-- In the middle of an update that took its first step at time `since`. -/
  | within (update : Update) (since : Nat) (next : Stage) (todo : List Update)

/-- The updates that have not come to their end. -/
def Client.pending : Client → List Update
  | between todo => todo
  | within update _ _ todo => update :: todo

/-- An update that has come to its end, with the times of its first and its last step. -/
structure Completed where
  client : Nat
  update : Update
  reply : Reply
  first : Nat
  last : Nat

structure System where
  store : Store
  clients : Nat → Client
  /-- The number of steps taken. -/
  clock : Nat := 0
  /-- The oldest first. -/
  completed : List Completed := []

namespace System

def start (map : OrderedMap UInt8 Grammar) (programs : Nat → List Update) : System :=
  { store := { map }, clients := fun i => .between (programs i) }

/-- Client `i` has taken a step of an update. -/
def settle (s : System) (i : Nat) (update : Update) (since : Nat) (todo : List Update) :
    Progress → System
  | .underway next =>
    { s with
      clients := Function.update s.clients i (.within update since next todo)
      clock := s.clock + 1 }
  | .ended reply store =>
    { store
      clients := Function.update s.clients i (.between todo)
      clock := s.clock + 1
      completed := s.completed ++ [⟨i, update, reply, since, s.clock⟩] }

/-- Client `i` takes its next step, if it has one. -/
def step (s : System) (i : Nat) : System :=
  match s.clients i with
  | .between [] => s
  | .between (update :: todo) => s.settle i update s.clock todo (update.start s.store)
  | .within update since next todo => s.settle i update since todo (update.resume s.store next)

/-- Clients take steps in the order of the schedule. -/
def run (s : System) (schedule : List Nat) : System :=
  schedule.foldl step s

/-- The updates that client `i` has completed, in their order. -/
def completedBy (s : System) (i : Nat) : List Update :=
  (s.completed.filter fun c => c.client = i).map Completed.update

end System

end V2x.Shared
