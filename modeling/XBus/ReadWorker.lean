import XBus.Lib.Runs

/-!
# The dashboard's read worker

`WorkerReadExecutor` of `broker/dashboard/read-worker.ts`. The dashboard's queries run in a worker
thread. `run` hands a request to the worker and returns a promise; the worker's messages, its error,
its exit, the timer of a call and `close` settle promises, in whatever order they come.

A worker is named by the generation its handlers close over, and a promise by the number of the
`run` call that returned it: that number stands for the two functions of a `PendingCall`. The map of
pending calls is the list of its entries in insertion order. Whether `postMessage` throws is part of
the event.

The arguments of a request and the results of the worker are arbitrary values.
-/

set_option autoImplicit false

namespace XBus
namespace ReadWorker

/-- `ReadRequest['method']`. -/
inductive ReadMethod
  | sessions | session | ledger | auditStatus | threads | thread | health | collections
deriving DecidableEq, Repr

/-- `ReadRequest`. -/
structure ReadRequest (α : Type) where
  id : Nat
  method : ReadMethod
  args : Option α
deriving DecidableEq, Repr

/-- `ReadResponse`. -/
structure ReadResponse (ρ : Type) where
  id : Nat
  ok : Bool
  result : Option ρ := none
  error : Option String := none
deriving DecidableEq, Repr

/-- What a call is rejected with. -/
inductive ReadError
  | overloaded
  | error (message : String)
deriving DecidableEq, Repr

/-- `PendingCall`, with its key. -/
structure PendingCall where
  id : Nat
  call : Nat
  generation : Nat
deriving DecidableEq, Repr

/-- What becomes of a call. -/
abbrev Outcome (ρ : Type) := Except ReadError (Option ρ)

/-- What a step does to the outside: a promise is returned, a worker is spawned, a request is posted
    to a worker, promises are settled, a worker is terminated. -/
structure Effects (α ρ : Type) where
  returned : Option Nat := none
  spawned : Option Nat := none
  posted : Option (Nat × ReadRequest α) := none
  settled : List (Nat × Outcome ρ) := []
  terminated : Option Nat := none
deriving DecidableEq, Repr

/-- The fields of a `WorkerReadExecutor`. `calls` is the number of calls of `run` so far. -/
structure Executor where
  worker : Option Nat := none
  generation : Nat := 0
  seq : Nat := 0
  pending : List PendingCall := []
  closed : Bool := false
  calls : Nat := 0
deriving DecidableEq, Repr

/-- Whatever can happen to an executor. -/
inductive Event (α ρ : Type)
  /-- A call of `run`; `throws` is the text of what `postMessage` throws, if it does. -/
  | run (method : ReadMethod) (args : Option α) (throws : Option String)
  /-- What a worker emits, with the generation of its handlers. -/
  | message (g : Nat) (m : ReadResponse ρ)
  | error (g : Nat)
  | exit (g : Nat) (code : Int)
  /-- The timer of a call goes off. -/
  | timeout (id : Nat)
  | close
deriving DecidableEq, Repr

variable {α ρ : Type}

namespace Executor

/-- `Map.prototype.has`. -/
def has (x : Executor) (id : Nat) : Bool := x.pending.any fun p => p.id = id

/-- `Map.prototype.delete`. -/
def delete (x : Executor) (id : Nat) : Executor :=
  { x with pending := x.pending.filter fun p => p.id ≠ id }

/-- The loops that reject calls for one reason. -/
def rejectAll (ps : List PendingCall) (reason : String) : List (Nat × Outcome ρ) :=
  ps.map fun p => (p.call, .error (.error reason))

/-- `ensure`: the worker there is, or one of a new generation. -/
def ensure (x : Executor) : Executor :=
  match x.worker with
  | some _ => x
  | none => { x with generation := x.generation + 1, worker := some (x.generation + 1) }

/-- The generation of the worker that `ensure` spawns, if there is none. -/
def spawns (x : Executor) : Option Nat :=
  match x.worker with
  | some _ => none
  | none => some (x.generation + 1)

/-- `fail`, of the worker whose handlers close over `g`. -/
def fail (x : Executor) (g : Nat) (reason : String) : Effects α ρ × Executor :=
  if g ≠ x.generation then ({}, x)
  else
    ({ settled := rejectAll (x.pending.filter fun p => p.generation = g) reason },
      { x with pending := x.pending.filter fun p => p.generation ≠ g, worker := none })

/-- The handler of a worker's messages. -/
def onMessage (x : Executor) (g : Nat) (m : ReadResponse ρ) : Effects α ρ × Executor :=
  if g ≠ x.generation then ({}, x)
  else
    match x.pending.find? fun p => p.id = m.id with
    | none => ({}, x)
    | some p =>
      if p.generation ≠ g then ({}, x)
      else
        ({ settled := [(p.call, if m.ok then .ok m.result
            else .error (.error (m.error.getD "read failed")))] }, x.delete m.id)

/-- `replaceWorker`. -/
def replaceWorker (x : Executor) (reason : String) : Effects α ρ × Executor :=
  ({ settled := rejectAll x.pending reason, terminated := x.worker },
    { x with worker := none, generation := x.generation + 1, pending := [] })

/-- The callback of a call's timer. -/
def onTimeout (x : Executor) (id : Nat) : Effects α ρ × Executor :=
  if x.has id then x.replaceWorker "read timed out" else ({}, x)

/-- `run`. The call is the one with the number `x.calls`. -/
def run (maxInFlight : Nat) (x : Executor) (method : ReadMethod) (args : Option α)
    (throws : Option String) : Effects α ρ × Executor :=
  let call := x.calls
  let x := { x with calls := call + 1 }
  if x.closed then
    ({ returned := call, settled := [(call, .error (.error "read executor closed"))] }, x)
  else if maxInFlight ≤ x.pending.length then
    ({ returned := call, settled := [(call, .error .overloaded)] }, x)
  else
    let spawned := x.spawns
    let x := x.ensure
    let id := x.seq + 1
    let x := { x with seq := id, pending := x.pending ++
      [{ id, call, generation := x.generation }] }
    match throws with
    | none =>
      ({ returned := call, spawned, posted := x.worker.map fun w => (w, { id, method, args }) }, x)
    | some e =>
      ({ returned := call, spawned, settled := [(call, .error (.error e))] }, x.delete id)

/-- `close`. -/
def close (x : Executor) : Effects α ρ × Executor :=
  ({ settled := rejectAll x.pending "closing", terminated := x.worker },
    { x with closed := true, pending := [], worker := none, generation := x.generation + 1 })

/-- One event. -/
def step (maxInFlight : Nat) (x : Executor) : Event α ρ → Effects α ρ × Executor
  | .run method args throws => x.run maxInFlight method args throws
  | .message g m => x.onMessage g m
  | .error g => x.fail g "read worker crashed"
  | .exit g code => x.fail g ("read worker exited " ++ toString code)
  | .timeout id => x.onTimeout id
  | .close => x.close

end Executor

end ReadWorker
end XBus
