import CppRaft.Machine.Trace
import CppRaft.Server.Handlers

/-!
# Runs of one server

Any sequence of handler calls and timer ticks. A call that throws keeps the
changes it has made and the run goes on; a call that indexes outside the log has
no defined successor and ends it.
-/

namespace CppRaft

open Machine

/-- A handler call. `answers` is the term of the RequestVote that a vote response answers;
the message does not carry it and the handler does not see it. -/
inductive Event (Node : Type) where
  | recvAppendentries (asResponce : Bool) (node : Node) (ae : MsgAppendEntries)
      (stack : Int × Int)
  | recvAppendentriesResponse (node : Node) (r : MsgAppendentriesResponse)
  | recvRequestvote (node : Node) (vr : MsgRequestvote)
  | recvRequestvoteResponse (node : Node) (r : MsgRequestvoteResponse) (answers : Int)
  | recvEntry (node : Node) (e : MsgEntry)
  | periodic (msec : Int) (rand : ℕ × ℕ)
  deriving DecidableEq, Repr

namespace RaftServer

variable {Node : Type} [DecidableEq Node]

/-- The call an event makes. -/
def handle : Event Node → RaftServer Node → Outcome (RaftServer Node) (Action Node) Int
  | .recvAppendentries asResponce node ae stack, s => recvAppendentries asResponce node ae stack s
  | .recvAppendentriesResponse node r, s => recvAppendentriesResponse node r s
  | .recvRequestvote node vr, s => (recvRequestvote node vr s).returning 0
  | .recvRequestvoteResponse node r _, s => (recvRequestvoteResponse node r s).returning 0
  | .recvEntry node e, s => recvEntry node e s
  | .periodic msec rand, s => periodic msec rand s

variable (Node) in
/-- A server as a machine. -/
def machine : Machine (RaftServer Node) (Event Node) (Action Node) where
  step := fun s event => (handle event s).effect?

/-- A step of a run: one handler call with the state around it. -/
abbrev Step (Node : Type) : Type :=
  Transition (RaftServer Node) (Event Node) (Action Node)

/-- A run of a server from its configured constructor state. -/
abbrev RunFrom (config : Config Node) (trace : List (Step Node)) (s : RaftServer Node) : Prop :=
  (machine Node).Run (init config) trace s

/-- The steps that a member of a cluster takes on a list of events. -/
abbrev traceOn {n : ℕ} (self : Fin n) (events : List (Event (Fin n))) : List (Step (Fin n)) :=
  traceOf (machine (Fin n)) (init (.member self)) events

/-- The state that a list of events leads a member of a cluster to. -/
abbrev stateOn {n : ℕ} (self : Fin n) (events : List (Event (Fin n))) : RaftServer (Fin n) :=
  stateOf (machine (Fin n)) (init (.member self)) events

/-- A server waits until it stands for election, and the voters answer it. -/
def candidacy {Node : Type} (msec : Int) (rand : ℕ × ℕ) (r : MsgRequestvoteResponse)
    (voters : List Node) : List (Event Node) :=
  .periodic msec rand :: voters.map fun voter => .recvRequestvoteResponse voter r 1

end RaftServer

end CppRaft
