import PipelineEditor.Inference.Propagation

/-!
# Sending requests when the graph is at rest

A dispatcher stands between the editor and the inference service.  It holds a request until a quiet
period has passed in which no newer one arrived, and then sends it.  Requests are sent even while
earlier ones are unanswered, so answers may come back in any order.

Time is a count of milliseconds that moves on in `Dispatcher.advance` and `Dispatcher.await`.  A
submitted request is received when time next passes; until then a newer one takes its place.

## Main definitions

* `Reply`, `Service` — what the service says to its calls, and when.
* `Dispatcher`, with the steps `submit`, `receive`, `send` and `deliver`.
* `Dispatcher.advance`, `Dispatcher.await` — the steps that fall due as time passes.
-/

namespace PipelineEditor

/-- What the inference service says to a call, and after how long. -/
structure Reply where
  delay : Nat
  result : Except EditError Response

/-- An inference service with the calls made to it so far. -/
structure Service where
  /-- The reply to the call of the given number. -/
  reply : Nat → Plan → Reply
  calls : List Plan

namespace Service

/-- A service that gives the listed replies in order, and then always the last resort. -/
def scripted (replies : List Reply) (lastResort : Reply) : Service :=
  { reply := fun number _ => replies.getD number lastResort
    calls := [] }

/-- A call to the service. -/
def call (service : Service) (plan : Plan) : Reply × Service :=
  (service.reply service.calls.length plan, { service with calls := service.calls ++ [plan] })

end Service

/-- A call that has not been answered. -/
structure PendingCall where
  request : Request
  /-- When the answer arrives. -/
  due : Nat
  result : Except EditError Response

/-- Requests on their way to the service, and answers on their way back. -/
structure Dispatcher where
  /-- How long there must be no newer request before one is sent. -/
  quietPeriod : Nat
  now : Nat
  /-- Submitted and not received yet. -/
  submitted : List Request
  /-- The request that waits out the quiet period, and when that ends. -/
  held : Option (Request × Nat)
  inFlight : List PendingCall
  /-- Answers not taken yet. -/
  outcomes : List Outcome

namespace Dispatcher

/-- A dispatcher without requests. -/
def start (quietPeriod : Nat) : Dispatcher :=
  { quietPeriod, now := 0, submitted := [], held := none, inFlight := [], outcomes := [] }

/-! ## Steps -/

/-- Hands a request in. -/
def submit (d : Dispatcher) (request : Request) : Dispatcher :=
  { d with submitted := d.submitted ++ [request] }

/-- Receives the first submitted request: it replaces the one held, and the quiet period begins
anew. -/
def receive (d : Dispatcher) : Dispatcher :=
  match d.submitted with
  | [] => d
  | request :: rest =>
    { d with submitted := rest, held := some (request, d.now + d.quietPeriod) }

/-- Sends the request held to the service. -/
def send (d : Dispatcher) (service : Service) : Dispatcher × Service :=
  match d.held with
  | none => (d, service)
  | some (request, _) =>
    let (reply, service) := service.call request.plan
    ({ d with
      held := none
      inFlight := d.inFlight ++ [⟨request, d.now + reply.delay, reply.result⟩] }, service)

/-- Delivers the answer to the call at a place among those in flight. -/
def deliver (d : Dispatcher) (place : Nat) : Dispatcher :=
  match d.inFlight[place]? with
  | none => d
  | some call =>
    { d with
      inFlight := d.inFlight.eraseIdx place
      outcomes := d.outcomes ++ [.ofReply call.request call.result] }

/-- Takes the first answer, if there is one. -/
def take? (d : Dispatcher) : Option (Outcome × Dispatcher) :=
  match d.outcomes with
  | [] => none
  | outcome :: rest => some (outcome, { d with outcomes := rest })

/-! ## Time -/

/-- The first of the calls in flight to be answered: its place, and when. -/
def firstDue? : List PendingCall → Option (Nat × Nat)
  | [] => none
  | call :: rest =>
    match firstDue? rest with
    | some (place, due) => if due < call.due then some (place + 1, due) else some (0, call.due)
    | none => some (0, call.due)

/-- Something that falls due. -/
inductive Timer where
  | quiet
  | answer (place : Nat)

/-- What falls due first, and when. -/
def nextTimer? (d : Dispatcher) : Option (Timer × Nat) :=
  match d.held, firstDue? d.inFlight with
  | some (_, quiet), some (place, due) =>
    -- At the same moment a request is sent before an answer is delivered.
    if quiet ≤ due then some (.quiet, quiet) else some (.answer place, due)
  | some (_, quiet), none => some (.quiet, quiet)
  | none, some (place, due) => some (.answer place, due)
  | none, none => none

/-- Carries out what falls due. -/
def fire (d : Dispatcher) (service : Service) : Timer → Dispatcher × Service
  | .quiet => d.send service
  | .answer place => (d.deliver place, service)

/-- Receives all submitted requests. -/
def receiveAll (d : Dispatcher) : Dispatcher := d.submitted.foldl (fun d _ => d.receive) d

/-- Lets time pass until the given moment, or until there is an answer if `untilAnswer` is set; at
most so many timers are fired. -/
def elapse (untilAnswer : Bool) (moment : Nat) : Nat → Dispatcher → Service → Dispatcher × Service
  | 0, d, service => ({ d with now := moment }, service)
  | timers + 1, d, service =>
    if untilAnswer && !d.outcomes.isEmpty then (d, service)
    else
      match d.nextTimer? with
      | none => ({ d with now := moment }, service)
      | some (timer, due) =>
        if due ≤ moment then
          -- A timer may have been due before now, but time does not go back.
          let (d, service) := { d with now := max d.now due }.fire service timer
          elapse untilAnswer moment timers d service
        else ({ d with now := moment }, service)

/-- One more than can be fired without a new request: the quiet period of the request held, its
answer, and the answers to the calls in flight. -/
def timerBound (d : Dispatcher) : Nat := d.inFlight.length + 3

/-- Lets so much time pass.  Where none passes, nothing is received and nothing falls due, even if
the quiet period has no length. -/
def advance (d : Dispatcher) (service : Service) (duration : Nat) : Dispatcher × Service :=
  if duration = 0 then (d, service)
  else
    let d := d.receiveAll
    d.elapse false (d.now + duration) d.timerBound service

/-- Waits for an answer, up to so long, and takes it.  If one is there already, no time passes. -/
def await (d : Dispatcher) (service : Service) (patience : Nat) :
    Option Outcome × Dispatcher × Service :=
  match d.take? with
  | some (outcome, d) => (some outcome, d, service)
  | none =>
    let d := d.receiveAll
    let (d, service) := d.elapse true (d.now + patience) d.timerBound service
    match d.take? with
    | some (outcome, d) => (some outcome, d, service)
    | none => (none, d, service)

end Dispatcher

end PipelineEditor
