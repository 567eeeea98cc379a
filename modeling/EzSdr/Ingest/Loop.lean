import EzSdr.Ingest.Source

/-! # The Ingestion Thread

    `spawn` and `run` of the ingestion thread as a machine: an input is one
    command taken from the queue, one read from the source, or the shutdown
    seen at the head of the loop. Any order of inputs is allowed, which
    includes the order of the code (all queued commands, then one read). -/

namespace Ingest

/-! ## Section 1: State, inputs and outcomes -/

/-- Samples pulled per `read_iq` call. -/
def readChunk : ℕ := 8192

/-- A published block. The samples are counted, not carried. -/
structure SampleBlock where
  productSession : ℕ
  capture        : Option CaptureClock
  startSample    : ℕ
  sampleRateHz   : ℕ
  centerFreqHz   : ℕ
  sampleCount    : ℕ
  deriving DecidableEq

structure HardwareStatus where
  connected       : Bool
  sourceKind      : String
  frequencyHz     : ℕ
  sampleRateHz    : ℕ
  gainDb          : ℚ
  requestedGainDb : Option ℚ
  gainMode        : Option GainMode
  error           : Option String
  deriving DecidableEq

/-- `status_snapshot`. -/
def statusSnapshot (source : Source) (connected : Bool) (error : Option String) :
    HardwareStatus where
  connected := connected
  sourceKind := source.kind
  frequencyHz := source.settings.frequencyHz
  sampleRateHz := source.settings.sampleRateHz
  gainDb := source.settings.gainDb
  requestedGainDb := source.settings.requestedGainDb
  gainMode := source.settings.gainMode
  error := error

inductive HardwareCommand where
  | frequency (hz : ℕ)
  | sampleRate (hz : ℕ)
  | gain (db : ℚ)

/-- The local variables of `run`, the source it owns, the published status and
    the epoch counter of the process. -/
structure State where
  source               : Source
  nextEpoch            : ℕ
  sampleCounter        : ℕ
  captureEpoch         : ℕ
  productSession       : ℕ
  pendingDiscontinuity : Bool
  lastSourceEpoch      : Option ℕ
  status               : HardwareStatus
  ended                : Bool
  deriving DecidableEq

/-- The driver calls a command may lead to: the setter itself, and the three
    setters and the start of a recovery. -/
structure CommandCalls where
  setter        : DriverCall
  setFrequency  : DriverCall
  setSampleRate : DriverCall
  setGain       : DriverCall
  start         : DriverCall

inductive Input where
  /-- A command is taken from the queue; `begun` is false when it was cancelled first. -/
  | command (begun : Bool) (command : HardwareCommand) (calls : CommandCalls)
  /-- A read returns; `running` is the flag after it. -/
  | read (io : ReadIo) (running : Bool)
  /-- The running flag is seen cleared. -/
  | shutdown

inductive Outcome where
  | cancelled
  | applied
  | recovered (message : String)
  | recoveryFailed (message : String)
  | published (block : SampleBlock)
  | pending
  | finished
  deriving DecidableEq

/-! ## Section 2: Commands -/

/-- The setter a command stands for. -/
def HardwareCommand.apply (command : HardwareCommand) (source : Source) (c : DriverCall)
    (next : ℕ) : Option String × Source × ℕ :=
  match command with
  | .frequency hz => source.setFrequency hz c next
  | .sampleRate hz => source.setSampleRate hz c next
  | .gain db => source.setGain db c next

/-- Continue with the next fallible call, unless the last one failed. -/
def andThen (r : Option String × Source × ℕ)
    (f : Source → ℕ → Option String × Source × ℕ) : Option String × Source × ℕ :=
  match r with
  | (some error, source, next) => (some error, source, next)
  | (none, source, next) => f source next

/-- Reopen a stopped source at the settings `before`. -/
def recovery (before : Settings) (calls : CommandCalls) (source : Source) (next : ℕ) :
    Option String × Source × ℕ :=
  let requestedGain := before.requestedGainDb.getD before.gainDb
  andThen
    (andThen
      (andThen (source.setFrequency before.frequencyHz calls.setFrequency next)
        fun s n => s.setSampleRate before.sampleRateHz calls.setSampleRate n)
      fun s n => s.setGain requestedGain calls.setGain n)
    fun s n => s.start calls.start n

/-- `before` compares the frequency, the rate, the gain and the gain mode. -/
def Settings.observed (s : Settings) : ℕ × ℕ × ℚ × Option GainMode :=
  (s.frequencyHz, s.sampleRateHz, s.gainDb, s.gainMode)

/-- An accepted command. A new geometry retires the product session; any
    visible change retires the capture epoch. -/
def State.accept (s : State) (source : Source) (next : ℕ) : State :=
  let before := s.source.settings
  let after := source.settings
  let s := { s with source := source, nextEpoch := next }
  let s :=
    if before.observed ≠ after.observed then
      { s with captureEpoch := s.nextEpoch, nextEpoch := s.nextEpoch + 1,
               sampleCounter := 0, pendingDiscontinuity := true }
    else s
  let s :=
    if before.frequencyHz ≠ after.frequencyHz ∨ before.sampleRateHz ≠ after.sampleRateHz then
      { s with productSession := s.nextEpoch, nextEpoch := s.nextEpoch + 1 }
    else s
  { s with lastSourceEpoch := none, status := statusSnapshot source true none }

/-- A failed command whose recovery succeeded. -/
def State.restart (s : State) (source : Source) (next : ℕ) (message : String) : State :=
  { s with source := source, captureEpoch := next, nextEpoch := next + 1,
           sampleCounter := 0, lastSourceEpoch := none, pendingDiscontinuity := true,
           status := statusSnapshot source true (some message) }

/-- The thread ends with the status it last stored, disconnected. -/
def State.finish (s : State) (source : Source) (next : ℕ) (status : HardwareStatus) : State :=
  { s with source := source, nextEpoch := next, ended := true,
           status := { status with connected := false } }

/-- One command of the inner loop. -/
def stepCommand (s : State) (command : HardwareCommand) (calls : CommandCalls) :
    State × Outcome :=
  let before := s.source.settings
  match command.apply s.source calls.setter s.nextEpoch with
  | (none, source, next) => (s.accept source next, .applied)
  | (some message, source, next) =>
    match recovery before calls source.stop next with
    | (none, source, next) => (s.restart source next message, .recovered message)
    | (some recoveryError, source, next) =>
      let message := message ++ "; recovery failed: " ++ recoveryError
      (s.finish source next { s.status with connected := false, error := some message },
        .recoveryFailed message)

/-! ## Section 3: Reads -/

/-- Follow the clock of the source: an epoch other than the remembered one
    starts a new capture epoch, and a new product session if one was remembered. -/
def State.follow (s : State) (clock : CaptureClock) : State :=
  let s :=
    if s.lastSourceEpoch ≠ some clock.epoch then
      let s :=
        if s.lastSourceEpoch.isSome then
          { s with productSession := s.nextEpoch, nextEpoch := s.nextEpoch + 1 }
        else s
      { s with captureEpoch := s.nextEpoch, nextEpoch := s.nextEpoch + 1,
               pendingDiscontinuity := true, lastSourceEpoch := some clock.epoch }
    else s
  { s with sampleCounter := clock.sourceSampleIndex }

/-- The clock of a block: that of the source, or the count kept here. -/
def State.blockClock (s : State) (clock : Option CaptureClock) : CaptureClock :=
  let c := clock.getD
    (CaptureClock.new s.captureEpoch s.sampleCounter s.source.settings.sampleRateHz none)
  { c with epoch := s.captureEpoch, discontinuous := c.discontinuous || s.pendingDiscontinuity }

/-- The block of `n` samples published from state `s`. -/
def State.block (s : State) (clock : Option CaptureClock) (n : ℕ) : SampleBlock where
  productSession := s.productSession
  capture := some (s.blockClock clock)
  startSample := s.sampleCounter
  sampleRateHz := s.source.settings.sampleRateHz
  centerFreqHz := s.source.settings.frequencyHz
  sampleCount := n

/-- Publish `n` samples. -/
def State.publish (s : State) (n : ℕ) : State × SampleBlock :=
  let clock := s.source.captureClock
  let s := match clock with
    | some c => s.follow c
    | none => s
  ({ s with pendingDiscontinuity := false, sampleCounter := s.sampleCounter + n },
    s.block clock n)

/-- One read of the outer loop. -/
def stepRead (s : State) (io : ReadIo) (running : Bool) : State × Outcome :=
  match s.source.readIq io readChunk s.nextEpoch with
  | (read, source, next) =>
    if running = false then (s.finish source next s.status, .finished)
    else match read with
      | .ok 0 => (s.finish source next (statusSnapshot source false none), .finished)
      | .ok (n + 1) =>
        let p := { s with source := source, nextEpoch := next }.publish (n + 1)
        (p.1, .published p.2)
      | .error .timeout => ({ s with source := source, nextEpoch := next }, .pending)
      | .error .gap =>
        ({ s with source := source, captureEpoch := next, nextEpoch := next + 1,
                  sampleCounter := 0, lastSourceEpoch := none,
                  pendingDiscontinuity := true }, .pending)
      | .error (.failed e) =>
        (s.finish source next (statusSnapshot source false (some e)), .finished)

/-! ## Section 4: The machine -/

/-- `spawn`: the thread begins only if the source starts. -/
def spawn (source : Source) (call : DriverCall) (next : ℕ) : Except String State :=
  match source.start call next with
  | (some error, _, _) => .error error
  | (none, source, next) =>
    .ok { source := source, nextEpoch := next + 2, sampleCounter := 0, captureEpoch := next,
          productSession := next + 1, pendingDiscontinuity := true, lastSourceEpoch := none,
          status := statusSnapshot source true none, ended := false }

/-- One input; a thread that has ended does nothing more. -/
def step (s : State) (input : Input) : State × Outcome :=
  if s.ended then (s, .finished)
  else match input with
    | .command false _ _ => (s, .cancelled)
    | .command true command calls => stepCommand s command calls
    | .read io running => stepRead s io running
    | .shutdown => (s.finish s.source s.nextEpoch s.status, .finished)

/-- The ingestion thread after `spawn` returned `s`. -/
def machine (s : State) : Machine State Input Outcome where
  init := s
  step := fun s input => some (step s input)

end Ingest
