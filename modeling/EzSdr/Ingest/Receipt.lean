import EzSdr.Framework.BTreeMap
import EzSdr.Framework.BoundedQueue
import EzSdr.Ingest.Loop

/-! # Command Receipts

    A command travels from its requester through a bounded queue to the
    ingestion thread, and both sides share a receipt of it. The steps of the
    requesters, of the thread, of the drop of a queue entry and of the shutdown
    are atomic operations on the receipt, the queue, the reply channel and the
    published status; any order of them is a run. Time is left to the
    environment: a deadline may pass, or be seen to have passed, at any step. -/

namespace Ingest

/-! ## Section 1: Receipts -/

inductive CommandPhase where
  | queued
  | applying
  | applied
  | rejected
  | cancelled
  deriving DecidableEq

structure CommandReceipt where
  phase   : CommandPhase
  outcome : Option (Except String Unit)

namespace CommandReceipt

def new : CommandReceipt := ⟨.queued, none⟩

/-- `begin` succeeds on a queued command only. -/
def begin (r : CommandReceipt) : CommandReceipt :=
  if r.phase = .queued then { r with phase := .applying } else r

/-- `cancel_queued` succeeds on a queued command only. -/
def cancelQueued (r : CommandReceipt) : CommandReceipt :=
  if r.phase = .queued then { r with phase := .cancelled } else r

/-- The first half of `finish`. -/
def writeOutcome (r : CommandReceipt) (result : Except String Unit) : CommandReceipt :=
  { r with outcome := some result }

/-- The phase that `finish` stores. -/
def finalPhase : Except String Unit → CommandPhase
  | .ok _ => .applied
  | .error _ => .rejected

/-- The second half of `finish`. -/
def storePhase (r : CommandReceipt) (result : Except String Unit) : CommandReceipt :=
  { r with phase := finalPhase result }

end CommandReceipt

/-! ## Section 2: State -/

abbrev CommandId : Type := ℕ

/-- What a request returns. -/
inductive Response where
  | accepted
  | failed (message : String)
  /-- "hardware command cancelled before application" -/
  | cancelled
  /-- `PendingHardwareCommand` -/
  | pending
  /-- "hardware command queue unavailable" -/
  | unavailable
  deriving DecidableEq

/-- Where a requester is. -/
inductive RequesterAt where
  /-- In `recv_timeout` on the reply channel. -/
  | waiting
  /-- It got no reply: before `cancel_queued`. -/
  | timedOut
  /-- Before the phase is loaded. -/
  | cancelTried
  /-- The phase was final: before the outcome is read. -/
  | loaded
  | returned (response : Response)
  deriving DecidableEq

/-- One command: what its requester and the thread share, and the requester. -/
structure Request where
  command   : HardwareCommand
  receipt   : CommandReceipt
  /-- The content of the reply channel. -/
  reply     : Option (Except String Unit)
  requester : RequesterAt

/-- Where the ingestion thread is; the ids are of the command it holds. -/
inductive WorkerAt where
  | idle
  /-- Before the deadline is checked. -/
  | taken (c : CommandId)
  /-- Before `begin`. -/
  | checked (c : CommandId)
  /-- Before the call of the setter. -/
  | applying (c : CommandId)
  /-- The hardware calls are over: before the status is stored. -/
  | storing (c : CommandId) (result : Except String Unit)
  /-- Before the two halves of `finish`. -/
  | finishing (c : CommandId) (result : Except String Unit)
  | written (c : CommandId) (result : Except String Unit)
  /-- Before the reply is sent. -/
  | replying (c : CommandId) (result : Except String Unit)
  /-- In the drop of a queue entry: before `cancel_queued`, before the phase is
      loaded, and before the two halves of `finish`. -/
  | dropping (c : CommandId)
  | dropLoading (c : CommandId)
  | dropFinishing (c : CommandId)
  | dropWritten (c : CommandId)
  /-- The loop is over: the queue is emptied. -/
  | draining
  /-- Before the receiving end of the queue is dropped. -/
  | closing
  /-- The receiving end is gone: what is left in the queue is dropped. -/
  | discarding
  | ended

/-- The command the thread holds. -/
def WorkerAt.command : WorkerAt → Option CommandId
  | .taken c => some c
  | .checked c => some c
  | .applying c => some c
  | .storing c _ => some c
  | .finishing c _ => some c
  | .written c _ => some c
  | .replying c _ => some c
  | .dropping c => some c
  | .dropLoading c => some c
  | .dropFinishing c => some c
  | .dropWritten c => some c
  | _ => none

structure Protocol where
  /-- The local state of the thread. Its `status` is what it stores next. -/
  worker       : State
  location     : WorkerAt
  /-- The thread unwinds after a panic of the source. -/
  unwinding    : Bool
  published    : HardwareStatus
  running      : Bool
  queue        : BoundedQueue CommandId
  disconnected : Bool
  requests     : BTreeMap CommandId Request
  nextId       : ℕ

/-- `COMMAND_CAPACITY` -/
def commandCapacity : ℕ := 64

inductive Event where
  /-- `send_timeout`: it returns when there is room, or at the deadline. -/
  | send (command : HardwareCommand)
  /-- The requester receives the reply. -/
  | receive (c : CommandId)
  /-- The requester gets no reply in time. -/
  | timeOut (c : CommandId)
  /-- The requester goes on after it got no reply. -/
  | proceed (c : CommandId)
  /-- The running flag is cleared. -/
  | stop
  /-- The next atomic step of the thread. `expired` says whether a deadline it
      checks has passed, `calls` what the source answers. -/
  | advance (expired : Bool) (calls : CommandCalls)
  /-- The thread sees at the head of a loop that the flag is cleared. -/
  | leave
  /-- The thread reads from its source. -/
  | read (io : ReadIo)
  /-- The source panics. -/
  | panic

inductive Note where
  | silent
  /-- The setter of a command was called; whether the source accepted. -/
  | applied (c : CommandId) (accepted : Bool)
  deriving DecidableEq

namespace Protocol

/-- Change the receipt of a command. -/
def onReceipt (s : Protocol) (c : CommandId) (f : CommandReceipt → CommandReceipt) : Protocol :=
  { s with requests := s.requests.alter c fun q =>
      q.map fun q => { q with receipt := f q.receipt } }

def setRequester (s : Protocol) (c : CommandId) (r : RequesterAt) : Protocol :=
  { s with requests := s.requests.alter c fun q => q.map fun q => { q with requester := r } }

def sendReply (s : Protocol) (c : CommandId) (result : Except String Unit) : Protocol :=
  { s with requests := s.requests.alter c fun q => q.map fun q => { q with reply := some result } }

/-- The phase of a receipt, as a load sees it. -/
def phaseOf (s : Protocol) (c : CommandId) : Option CommandPhase :=
  (s.requests.get? c).map fun q => q.receipt.phase

/-! ## Section 3: Requesters -/

/-- `request_with_timeout` up to the wait. An entry that the queue refuses is
    dropped by the requester, which cancels its receipt. -/
def send (s : Protocol) (command : HardwareCommand) : Protocol :=
  let refused : Protocol := { s with
    nextId := s.nextId + 1
    requests := s.requests.insert s.nextId
      ⟨command, CommandReceipt.new.cancelQueued, none, .returned .unavailable⟩ }
  if s.disconnected then refused
  else match s.queue.trySend s.nextId with
    | none => refused
    | some queue => { s with
        nextId := s.nextId + 1
        queue := queue
        requests := s.requests.insert s.nextId ⟨command, CommandReceipt.new, none, .waiting⟩ }

/-- The result of the thread, as the requester returns it. -/
def responseOf : Except String Unit → Response
  | .ok _ => .accepted
  | .error message => .failed message

/-- What the requester returns after the phase it loaded, or its next step. -/
def afterLoad : CommandPhase → RequesterAt
  | .applied => .loaded
  | .rejected => .loaded
  | .cancelled => .returned .cancelled
  | _ => .returned .pending

def receive (s : Protocol) (c : CommandId) : Protocol :=
  match s.requests.get? c with
  | none => s
  | some q =>
    match q.requester, q.reply with
    | .waiting, some result => s.setRequester c (.returned (responseOf result))
    | _, _ => s

def timeOut (s : Protocol) (c : CommandId) : Protocol :=
  match s.requests.get? c with
  | none => s
  | some q => if q.requester = .waiting then s.setRequester c .timedOut else s

def proceed (s : Protocol) (c : CommandId) : Protocol :=
  match s.requests.get? c with
  | none => s
  | some q =>
    match q.requester with
    | .timedOut => (s.onReceipt c CommandReceipt.cancelQueued).setRequester c .cancelTried
    | .cancelTried => s.setRequester c (afterLoad q.receipt.phase)
    | .loaded =>
      match q.receipt.outcome with
      | some result => s.setRequester c (.returned (responseOf result))
      | none => s.setRequester c (.returned .pending)
    | _ => s

/-! ## Section 4: The thread -/

/-- The result of the hardware calls, as it is reported. -/
def resultOf : Outcome → Except String Unit
  | .applied => .ok ()
  | .recovered message => .error message
  | .recoveryFailed message => .error message
  | _ => .ok ()

/-- Where the thread is after it dropped an entry. -/
def afterDrop (s : Protocol) : WorkerAt :=
  if s.disconnected then .discarding
  else if s.unwinding then .closing
  else if s.worker.ended then .draining
  else .idle

/-- What the drop of a queue entry reports when the command was being applied. -/
def lostOutcome : Except String Unit :=
  .error "ingestion ended while applying: hardware outcome unknown"

/-- Take the next entry and go to `next`, or to `empty` if there is none. -/
def takeEntry (s : Protocol) (next : CommandId → WorkerAt) (empty : WorkerAt) : Protocol :=
  match s.queue.tryRecv with
  | none => { s with location := empty }
  | some (c, queue) => { s with queue := queue, location := next c }

/-- The hardware calls of a command: the setter, and a recovery if it fails. -/
def applyCommand (s : Protocol) (c : CommandId) (calls : CommandCalls) : Protocol × Note :=
  match s.requests.get? c with
  | none => (s, .silent)
  | some q =>
    match stepCommand s.worker q.command calls with
    | (worker, outcome) =>
      ({ s with worker := worker, location := .storing c (resultOf outcome) },
       .applied c (outcome = .applied))

/-- The next atomic step of the thread. -/
def advance (s : Protocol) (expired : Bool) (calls : CommandCalls) : Protocol × Note :=
  match s.location with
  | .idle => (s.takeEntry .taken .idle, .silent)
  | .taken c =>
    let s := { s with location := .checked c }
    (if s.running = false ∨ expired = true then s.onReceipt c CommandReceipt.cancelQueued else s,
      .silent)
  | .checked c =>
    if s.phaseOf c = some .queued then
      ({ s with location := .applying c }.onReceipt c CommandReceipt.begin, .silent)
    else ({ s with location := .dropping c }, .silent)
  | .applying c => s.applyCommand c calls
  | .storing c result =>
    ({ s with published := s.worker.status, location := .finishing c result }, .silent)
  | .finishing c result =>
    ({ s with location := .written c result }.onReceipt c fun r => r.writeOutcome result, .silent)
  | .written c result =>
    ({ s with location := .replying c result }.onReceipt c fun r => r.storePhase result, .silent)
  | .replying c result => ({ s with location := .dropping c }.sendReply c result, .silent)
  | .dropping c =>
    if s.phaseOf c = some .queued then
      ({ s with location := s.afterDrop }.onReceipt c CommandReceipt.cancelQueued, .silent)
    else ({ s with location := .dropLoading c }, .silent)
  | .dropLoading c =>
    if s.phaseOf c = some .applying then ({ s with location := .dropFinishing c }, .silent)
    else ({ s with location := s.afterDrop }, .silent)
  | .dropFinishing c =>
    ({ s with location := .dropWritten c }.onReceipt c fun r => r.writeOutcome lostOutcome,
      .silent)
  | .dropWritten c =>
    ({ s with location := s.afterDrop }.onReceipt c fun r => r.storePhase lostOutcome, .silent)
  | .draining =>
    -- the terminal status is stored when the queue is found empty
    match s.queue.tryRecv with
    | none => ({ s with published := s.worker.status, location := .closing }, .silent)
    | some (c, queue) => ({ s with queue := queue, location := .dropping c }, .silent)
  | .closing => ({ s with disconnected := true, location := .discarding }, .silent)
  | .discarding => (s.takeEntry .dropping .ended, .silent)
  | .ended => (s, .silent)

def leave (s : Protocol) : Protocol :=
  match s.location with
  | .idle =>
    if s.running then s
    else { s with worker := (Ingest.step s.worker .shutdown).1, location := .draining }
  | _ => s

/-- A read, with the status it stores; the loop is left when the source ends. -/
def read (s : Protocol) (io : ReadIo) : Protocol :=
  match s.location with
  | .idle =>
    let worker := (stepRead s.worker io s.running).1
    { s with
      worker := worker
      published := if s.running then worker.status else s.published
      location := if worker.ended then .draining else .idle }
  | _ => s

/-- A panic unwinds the thread: the entry it holds is dropped, then the queue. -/
def panic (s : Protocol) : Protocol :=
  match s.location with
  | .idle => { s with unwinding := true, location := .closing }
  | .applying c => { s with unwinding := true, location := .dropping c }
  | .storing c _ => { s with unwinding := true, location := .dropping c }
  | _ => s

/-! ## Section 5: The machine -/

def step (s : Protocol) : Event → Protocol × Note
  | .send command => (s.send command, .silent)
  | .receive c => (s.receive c, .silent)
  | .timeOut c => (s.timeOut c, .silent)
  | .proceed c => (s.proceed c, .silent)
  | .stop => ({ s with running := false }, .silent)
  | .advance expired calls => s.advance expired calls
  | .leave => (s.leave, .silent)
  | .read io => (s.read io, .silent)
  | .panic => (s.panic, .silent)

/-- The protocol after `spawn` returned `worker`. -/
def initialState (worker : State) : Protocol where
  worker := worker
  location := .idle
  unwinding := false
  published := worker.status
  running := true
  queue := BoundedQueue.empty commandCapacity (by decide)
  disconnected := false
  requests := BTreeMap.empty
  nextId := 0

def machine (worker : State) : Machine Protocol Event Note where
  init := initialState worker
  step s event := some (step s event)

end Protocol

end Ingest
