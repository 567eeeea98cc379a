import EzSdr.Framework.Machine

/-! # Sample Sources

    The trait `IqSource` as the ingestion thread sees it, with two kinds of
    implementation: the file replay, embedded in full, and a live driver,
    whose answers are chosen by the environment.

    Frequencies, rates and indices are naturals, gains are rationals.
    `new_capture_epoch` hands out the value of a process-wide counter that
    every function here threads through as `next`; it is taken not to wrap. -/

namespace Ingest

/-! ## Section 1: Clocks and settings -/

/-- Capture clock of a block of samples. -/
structure CaptureClock where
  epoch                : ℕ
  sourceSampleIndex    : ℕ
  sourceSampleRateHz   : ℕ
  sampleStride         : ℕ
  originUnixNs         : Option ℕ
  discontinuous        : Bool
  deriving DecidableEq

/-- `CaptureClock::new`. -/
def CaptureClock.new (epoch index rate : ℕ) (origin : Option ℕ) : CaptureClock where
  epoch := epoch
  sourceSampleIndex := index
  sourceSampleRateHz := rate
  sampleStride := 1
  originUnixNs := origin
  discontinuous := false

inductive GainMode where
  | automatic
  | manual
  deriving DecidableEq

/-- What the getters of a source report. -/
structure Settings where
  frequencyHz     : ℕ
  sampleRateHz    : ℕ
  gainDb          : ℚ
  requestedGainDb : Option ℚ
  gainMode        : Option GainMode
  deriving DecidableEq

/-- `ReadPending`, or the message of any other read error. -/
inductive ReadError where
  | timeout
  | gap
  | failed (message : String)
  deriving DecidableEq

/-! ## Section 2: What the environment decides -/

/-- What becomes of the sample pump of a driver during a call. -/
inductive PumpChange where
  | keep
  | reopen
  | close

/-- One call into a driver: its error, if any, what the getters say afterwards
    (a failing call may have changed the device) and what became of the pump.
    For a file only the error of the seek matters. -/
structure DriverCall where
  error    : Option String
  settings : Settings
  pump     : PumpChange

/-- The file system under one `read_iq`: the answer to `Read::read`, which may
    hand out fewer bytes than asked (`ok k` allows `k + 1`), for each state of
    the loop, and the answer to `seek`. -/
structure FileIo where
  read : Bool → ℕ → Except String ℕ
  seek : Option String

/-- One read from a driver: its answer, and the clock position it reports. -/
structure DriverRead where
  answer        : Except ReadError ℕ
  sampleIndex   : ℕ
  discontinuous : Bool

/-- Everything one `read_iq` depends on. -/
structure ReadIo where
  file   : FileIo
  driver : DriverRead

/-! ## Section 3: File replay -/

inductive ReplayFormat where
  | rawU8
  | cf32Le
  deriving DecidableEq

def ReplayFormat.bytesPerSample : ReplayFormat → ℕ
  | .rawU8 => 2
  | .cf32Le => 8

/-- `FileReplaySource`. The reader is the length of the file and the position in it. -/
structure FileReplaySource where
  fileLen              : ℕ
  position             : ℕ
  format               : ReplayFormat
  frequencyHz          : ℕ
  sampleRateHz         : ℕ
  gainDb               : ℚ
  looping              : Bool
  running              : Bool
  samplesEmitted       : ℕ
  captureEpoch         : ℕ
  captureIndex         : ℕ
  lastCapture          : Option CaptureClock
  pendingDiscontinuity : Bool
  deriving DecidableEq

namespace FileReplaySource

/-- `start`: every start reads the file from its beginning, in a new epoch. -/
def start (f : FileReplaySource) (seek : Option String) (next : ℕ) :
    Option String × FileReplaySource × ℕ :=
  match seek with
  | some error => (some error, f, next)
  | none =>
    (none, { f with position := 0, captureEpoch := next, captureIndex := 0,
                    lastCapture := none, pendingDiscontinuity := true,
                    running := true, samplesEmitted := 0 }, next + 1)

def stop (f : FileReplaySource) : FileReplaySource := { f with running := false }

def setFrequency (f : FileReplaySource) (hz : ℕ) : Option String × FileReplaySource :=
  (none, { f with frequencyHz := hz })

def setSampleRate (f : FileReplaySource) (hz : ℕ) : Option String × FileReplaySource :=
  if hz = 0 then (some "replay sample rate must be non-zero", f)
  else (none, { f with sampleRateHz := hz })

def setGain (f : FileReplaySource) (db : ℚ) : Option String × FileReplaySource :=
  (none, { f with gainDb := db })

/-- One `Read::read` into a buffer of `want` bytes; `ok 0` is the end of the file. -/
def read (f : FileReplaySource) (answer : Except String ℕ) (want : ℕ) : Except String ℕ :=
  match answer with
  | .error e => .error e
  | .ok limit => .ok (min (min want (f.fileLen - f.position)) (limit + 1))

def advance (f : FileReplaySource) (bytes : ℕ) : FileReplaySource :=
  { f with position := f.position + bytes }

/-- The rewind of a looping replay: back to the start of the file, in a new epoch. -/
def rewind (f : FileReplaySource) (next : ℕ) : FileReplaySource :=
  { f with position := 0, captureEpoch := next, captureIndex := 0,
           pendingDiscontinuity := true }

/-- The loop of `read_iq`, which fills the byte buffer. It stops short of the
    end of the file rather than mix both sides of a rewind in one block, and
    `stalled` keeps an empty file from being rewound for ever. -/
def readLoop (io : FileIo) (wantBytes : ℕ) (f : FileReplaySource) (filled : ℕ)
    (stalled : Bool) (next : ℕ) : Except String ℕ × FileReplaySource × ℕ :=
  if filled < wantBytes then
    match f.read (io.read stalled filled) (wantBytes - filled) with
    | .error e => (.error e, f, next)
    | .ok 0 =>
      if f.looping then
        if 0 < filled then (.ok filled, f, next)
        else if stalled then (.ok filled, f, next)
        else match io.seek with
          | some e => (.error e, f, next)
          | none => readLoop io wantBytes (f.rewind next) filled true (next + 1)
      else (.ok filled, f, next)
    | .ok (n + 1) =>
      readLoop io wantBytes (f.advance (n + 1)) (filled + (n + 1)) false next
  else (.ok filled, f, next)
termination_by (wantBytes - filled, if stalled then 0 else 1)
decreasing_by
  · simp_all [Prod.lex_def]
  · simp only [Prod.lex_def]; omega

/-- The clock of the next block. -/
def clock (f : FileReplaySource) : CaptureClock :=
  { CaptureClock.new f.captureEpoch f.captureIndex f.sampleRateHz none with
    discontinuous := f.pendingDiscontinuity }

/-- Hands out `n` samples under the current clock. -/
def emit (f : FileReplaySource) (n : ℕ) : FileReplaySource :=
  { f with lastCapture := some f.clock, pendingDiscontinuity := false,
           captureIndex := f.captureIndex + n, samplesEmitted := f.samplesEmitted + n }

/-- `read_iq` into a buffer of `len` samples: the number of samples read. -/
def readIq (f : FileReplaySource) (io : FileIo) (len next : ℕ) :
    Except ReadError ℕ × FileReplaySource × ℕ :=
  match readLoop io (len * f.format.bytesPerSample) f 0 false next with
  | (.error e, f', next') => (.error (.failed e), f', next')
  | (.ok filled, f', next') =>
    if filled = 0 then (.ok 0, f', next')
    else
      let n := min (filled / f.format.bytesPerSample) len
      (.ok n, f'.emit n, next')

/-- What the getters report; a replay has no gain mode and keeps no request. -/
def settings (f : FileReplaySource) : Settings where
  frequencyHz := f.frequencyHz
  sampleRateHz := f.sampleRateHz
  gainDb := f.gainDb
  requestedGainDb := none
  gainMode := none

end FileReplaySource

/-! ## Section 4: Live drivers -/

/-- The callback reader of a running driver: the epoch it counts samples in,
    and the clock of its last read. -/
structure Pump where
  epoch     : ℕ
  lastClock : Option CaptureClock
  deriving DecidableEq

/-- A driver. The drivers without a pump have no capture clock of their own. -/
structure LiveSource where
  kind      : String
  settings  : Settings
  pump      : Option Pump
  deriving DecidableEq

namespace LiveSource

/-- Any call that may fail: a setter or a start. A reopened pump counts its
    samples in a new epoch and has no clock before its first read. -/
def call (l : LiveSource) (c : DriverCall) (next : ℕ) : Option String × LiveSource × ℕ :=
  match c.pump with
  | .keep => (c.error, { l with settings := c.settings }, next)
  | .reopen =>
    (c.error, { l with settings := c.settings, pump := some ⟨next, none⟩ }, next + 1)
  | .close => (c.error, { l with settings := c.settings, pump := none }, next)

/-- `stop` closes the pump. -/
def stop (l : LiveSource) : LiveSource := { l with pump := none }

/-- The clock a pump reports for one read. -/
def clock (l : LiveSource) (epoch : ℕ) (r : DriverRead) : CaptureClock :=
  { CaptureClock.new epoch r.sampleIndex l.settings.sampleRateHz none with
    discontinuous := r.discontinuous }

/-- `read_iq`: a driver with a pump stamps the samples with the epoch of the pump. -/
def readIq (l : LiveSource) (r : DriverRead) : Except ReadError ℕ × LiveSource :=
  match r.answer with
  | .error e => (.error e, l)
  | .ok 0 => (.ok 0, l)
  | .ok (n + 1) =>
    match l.pump with
    | none => (.ok (n + 1), l)
    | some pump =>
      (.ok (n + 1), { l with pump := some { pump with lastClock := some (l.clock pump.epoch r) } })

end LiveSource

/-! ## Section 5: The trait -/

/-- A `Box<dyn IqSource>`. -/
inductive Source where
  | replay (f : FileReplaySource)
  | live (l : LiveSource)
  deriving DecidableEq

namespace Source

def settings : Source → Settings
  | replay f => f.settings
  | live l => l.settings

def kind : Source → String
  | replay _ => "replay"
  | live l => l.kind

def captureClock : Source → Option CaptureClock
  | replay f => f.lastCapture
  | live l => l.pump.bind Pump.lastClock

def start (s : Source) (c : DriverCall) (next : ℕ) : Option String × Source × ℕ :=
  match s with
  | replay f => let (r, f', next') := f.start c.error next; (r, replay f', next')
  | live l => let (r, l', next') := l.call c next; (r, live l', next')

def stop : Source → Source
  | replay f => replay f.stop
  | live l => live l.stop

def setFrequency (s : Source) (hz : ℕ) (c : DriverCall) (next : ℕ) :
    Option String × Source × ℕ :=
  match s with
  | replay f => let (r, f') := f.setFrequency hz; (r, replay f', next)
  | live l => let (r, l', next') := l.call c next; (r, live l', next')

def setSampleRate (s : Source) (hz : ℕ) (c : DriverCall) (next : ℕ) :
    Option String × Source × ℕ :=
  match s with
  | replay f => let (r, f') := f.setSampleRate hz; (r, replay f', next)
  | live l => let (r, l', next') := l.call c next; (r, live l', next')

def setGain (s : Source) (db : ℚ) (c : DriverCall) (next : ℕ) :
    Option String × Source × ℕ :=
  match s with
  | replay f => let (r, f') := f.setGain db; (r, replay f', next)
  | live l => let (r, l', next') := l.call c next; (r, live l', next')

def readIq (s : Source) (io : ReadIo) (len next : ℕ) : Except ReadError ℕ × Source × ℕ :=
  match s with
  | replay f => let (r, f', next') := f.readIq io.file len next; (r, replay f', next')
  | live l => let (r, l') := l.readIq io.driver; (r, live l', next)

/-- The epoch in which the source counts its samples, if it counts them. -/
def clockEpoch : Source → Option ℕ
  | replay f => some f.captureEpoch
  | live l => l.pump.map Pump.epoch

/-- The epoch of the current pass over a replay file. -/
def passEpoch : Source → Option ℕ
  | replay f => some f.captureEpoch
  | live _ => none

end Source

/-! ## Section 6: What a read does to the epoch -/

namespace FileReplaySource

/-- Once a byte has been read, or the file was found empty, the loop does not rewind. -/
theorem readLoop_noRewind (io : FileIo) (wantBytes : ℕ) (f : FileReplaySource) (filled : ℕ)
    (stalled : Bool) (next : ℕ) (h : 0 < filled ∨ stalled = true) :
    (readLoop io wantBytes f filled stalled next).2.1.captureEpoch = f.captureEpoch ∧
      (readLoop io wantBytes f filled stalled next).2.2 = next := by
  -- Follows the loop; the branch that rewinds contradicts `h`.
  fun_induction readLoop io wantBytes f filled stalled next with
  | case5 f filled stalled next hfilled hread hlooping hpos hstalled hseek ih =>
    cases h with
    | inl h => exact absurd h hpos
    | inr h => exact absurd h hstalled
  | case7 f filled stalled next hfilled n hread ih =>
    exact ih (Or.inl (Nat.succ_pos _))
  | _ => exact ⟨rfl, rfl⟩

/-- The file is at its end, and nothing keeps a looping replay from rewinding it. -/
def Rewinds (f : FileReplaySource) (io : FileIo) : Prop :=
  f.looping = true ∧ f.fileLen ≤ f.position ∧ (io.read false 0).isOk = true ∧ io.seek = none

/-- A read that returns nothing although bytes were wanted is at the end of the file. -/
theorem read_eq_zero {f : FileReplaySource} {answer : Except String ℕ} {want : ℕ}
    (h : f.read answer want = .ok 0) (hwant : 0 < want) :
    f.fileLen ≤ f.position ∧ answer.isOk = true := by
  unfold read at h
  cases answer with
  | error e => cases h
  | ok limit =>
    simp only [Except.ok.injEq] at h
    exact ⟨by omega, rfl⟩

/-- The loop rewinds at most once, at the end of the file, and into a new epoch. -/
theorem readLoop_epoch (io : FileIo) (wantBytes : ℕ) (f : FileReplaySource) (next : ℕ) :
    ((readLoop io wantBytes f 0 false next).2.1.captureEpoch = f.captureEpoch ∧
        (readLoop io wantBytes f 0 false next).2.2 = next) ∨
      (f.Rewinds io ∧ (readLoop io wantBytes f 0 false next).2.1.captureEpoch = next ∧
        (readLoop io wantBytes f 0 false next).2.2 = next + 1) := by
  unfold readLoop
  split
  · next hwant =>
    split
    · exact Or.inl ⟨rfl, rfl⟩
    · next hread =>
      split
      · next hlooping =>
        split
        · exact Or.inl ⟨rfl, rfl⟩
        · split
          · exact Or.inl ⟨rfl, rfl⟩
          · split
            · exact Or.inl ⟨rfl, rfl⟩
            · -- the first read found the end of the file: rewind, and read on
              next hseek =>
              obtain ⟨hend, hok⟩ := read_eq_zero hread (by omega)
              exact Or.inr ⟨⟨hlooping, hend, hok, hseek⟩,
                readLoop_noRewind io _ _ _ _ _ (Or.inr rfl)⟩
      · exact Or.inl ⟨rfl, rfl⟩
    · next n hread =>
      exact Or.inl (readLoop_noRewind io _ _ _ _ _ (Or.inl (by omega)))
  · exact Or.inl ⟨rfl, rfl⟩

/-- `readIq` leaves the epochs as its loop does. -/
theorem readIq_epochs (f : FileReplaySource) (io : FileIo) (len next : ℕ) :
    (f.readIq io len next).2.1.captureEpoch =
        (readLoop io (len * f.format.bytesPerSample) f 0 false next).2.1.captureEpoch ∧
      (f.readIq io len next).2.2 =
        (readLoop io (len * f.format.bytesPerSample) f 0 false next).2.2 := by
  unfold readIq
  split
  · next heq => simp [heq]
  · next heq =>
    split
    · simp [heq]
    · simp [heq, emit]

end FileReplaySource

end Ingest
