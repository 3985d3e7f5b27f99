import MinkIpc.ObjectTable
import MinkIpc.Outcome
import MinkIpc.Run
import MinkIpc.TwoParty

/-! How handles travel over a connection. The channel is first in, first out, but the threads of an
endpoint handle what it has received in any order and one object argument at a time. -/

namespace MinkIpc.HandleTransfer

open TwoParty

/-- `target` is the object that the peer's slot held when the forwarder was made. -/
structure Forwarder (α : Type*) where
  handle : Nat
  target : α
  deriving DecidableEq, Repr

inductive Item (α : Type*)
  | recover (h : Nat) (obj : α)
  | forward (h : Nat) (obj : α)
  deriving DecidableEq, Repr

/-- What is left to unmarshal of a request or a success response, for a request its target last, and
the message that closes a handle. -/
inductive Message (α : Type*)
  | args (items : List (Item α))
  | close (h : Nat)
  deriving DecidableEq, Repr

/-- `inbox` is in the order of sending. `recovered` lists what the lookups were for and what
they gave. -/
structure Endpoint (α : Type*) where
  table : ObjectTable α
  forwarders : List (Forwarder α)
  inbox : List (Message α)
  recovered : List (α × Option α)

abbrev Connection (α : Type*) := Side → Endpoint α

inductive Arg (α : Type*)
  | forwarder (j : Nat)
  | generic (obj : α)
  deriving DecidableEq, Repr

inductive Action (α : Type*)
  | send (args : List (Arg α)) (target : Option Nat)
  | release (j : Nat)
  | detach (j : Nat)
  | derivePrimordial
  | process (i : Nat)
  | abort (i : Nat)
  deriving DecidableEq, Repr

variable {α : Type*}

def Connection.new (hd : Handles) (primordial : Side → α) (service : α) : Connection α
  | .left => ⟨⟨Function.update (fun _ => none) hd.primordial (some (primordial .left)), 1024, 1⟩,
      [⟨hd.generic, service⟩], [], []⟩
  | .right => ⟨⟨Function.update (Function.update (fun _ => none) hd.primordial
      (some (primordial .right))) hd.generic (some service), 1024, 2⟩, [], [], []⟩

def Endpoint.post (e : Endpoint α) (m : Message α) : Endpoint α := { e with inbox := e.inbox ++ [m] }

def marshalOutArg (hd : Handles) (forwarders : List (Forwarder α))
    (st : ObjectTable α × List (Item α)) :
    Arg α → Outcome Unit (ObjectTable α × List (Item α))
  | .forwarder j => match forwarders[j]? with
    | none => .error () st
    | some f =>
      if f.handle = hd.primordial then .error () st
      else .ok (st.1, st.2 ++ [.recover f.handle f.target])
  | .generic obj => match st.1.addObject hd obj with
    | none => .error () st
    | some (n, table) => .ok (table, st.2 ++ [.forward n obj])

def targetItem (forwarders : List (Forwarder α)) : Option Nat → Option (List (Item α))
  | none => some []
  | some j => forwarders[j]?.map fun f => [.recover f.handle f.target]

def Connection.send (hd : Handles) (c : Connection α) (s : Side) (args : List (Arg α))
    (target : Option Nat) : Option (Connection α) :=
  (targetItem (c s).forwarders target).map fun last =>
    match Outcome.forEach (marshalOutArg hd (c s).forwarders) args ((c s).table, []) with
    | .error _ st => modify c s fun e => { e with table := st.1 }
    | .ok st => modify (modify c s fun e => { e with table := st.1 }) s.peer
        (·.post (.args (st.2 ++ last)))

def Connection.release (hd : Handles) (c : Connection α) (s : Side) (j : Nat) :
    Option (Connection α) :=
  (c s).forwarders[j]?.map fun f =>
    let c := modify c s fun e => { e with forwarders := e.forwarders.eraseIdx j }
    if f.handle = hd.primordial then c else modify c s.peer (·.post (.close f.handle))

def Endpoint.detach (e : Endpoint α) (j : Nat) : Option (Endpoint α) :=
  e.forwarders[j]?.map fun _ => { e with forwarders := e.forwarders.eraseIdx j }

/-- Handle the next argument of a message, or a close. A lookup that finds nothing ends the
handling of its message. -/
def Endpoint.process (hd : Handles) (e : Endpoint α) (i : Nat) : Option (Endpoint α) :=
  e.inbox[i]?.map fun m => match m with
    | .args [] => { e with inbox := e.inbox.eraseIdx i }
    | .args (.recover h obj :: items) =>
      let found := e.table.recoverObject h
      { e with
        recovered := e.recovered ++ [(obj, found)]
        inbox := if found.isSome then e.inbox.set i (.args items) else e.inbox.eraseIdx i }
    | .args (.forward h obj :: items) =>
      { e with
        forwarders := e.forwarders ++ [⟨h, obj⟩]
        inbox := e.inbox.set i (.args items) }
    | .close h =>
      { e with
        table := ((e.table.releaseHandle hd h).map Prod.snd).getD e.table
        inbox := e.inbox.eraseIdx i }

def Endpoint.abort (e : Endpoint α) (i : Nat) : Option (Endpoint α) :=
  e.inbox[i]?.bind fun m => match m with
    | .args _ => some { e with inbox := e.inbox.eraseIdx i }
    | .close _ => none

def Connection.atEnd (c : Connection α) (s : Side) (f : Endpoint α → Option (Endpoint α)) :
    Option (Connection α) :=
  (f (c s)).map fun e => modify c s fun _ => e

def step (hd : Handles) (primordial : Side → α) (c : Connection α) :
    Side × Action α → Option (Connection α)
  | (s, .send args target) => c.send hd s args target
  | (s, .release j) => c.release hd s j
  | (s, .detach j) => c.atEnd s (·.detach j)
  | (s, .derivePrimordial) => some (modify c s fun e =>
      { e with forwarders := e.forwarders ++ [⟨hd.primordial, primordial s.peer⟩] })
  | (s, .process i) => c.atEnd s (·.process hd i)
  | (s, .abort i) => c.atEnd s (·.abort i)

def Message.items : Message α → List (Item α)
  | .args items => items
  | .close _ => []

def Message.Recovers (m : Message α) (h : Nat) : Prop := ∃ obj, .recover h obj ∈ m.items

/-- Handles are safe if a close is handled only when no message received before it still has to look
up its handle. -/
def InOrder (c : Connection α) : Side × Action α → Prop
  | (s, .process i) => ∀ h, (c s).inbox[i]? = some (.close h) →
      ∀ m ∈ (c s).inbox.take i, ¬ m.Recovers h
  | _ => True

end MinkIpc.HandleTransfer
