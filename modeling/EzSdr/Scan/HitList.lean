import Mathlib

/-! # The Hit List of the Frequency Scanner

    The scanner logs where it finds a signal. Four places of the code change
    the list: a range scan merges hits within half a step, a memory scan those
    of equal frequency, and a file of hits is read in either of two formats.

    Only the range scan drops the oldest hit when the list is full, and no
    place compares a frequency with all that is listed. **`hits_invariant`**
    says for which runs the list nevertheless stays short and without
    duplicates. -/

namespace Scan

/-! ## Section 1: The scanner -/

/-- A hit, with its strength in `δ` and the time in nanoseconds. -/
structure SignalHit (δ : Type) where
  freqHz     : ℕ
  strengthDb : δ
  timestamp  : ℕ
  hitCount   : ℕ
  deriving DecidableEq

/-- A hit in a file, with defaults for what the file leaves out. -/
structure SignalHitRecord (δ : Type) where
  freqHz     : ℕ
  strengthDb : δ
  hitCount   : ℕ

/-- The parser of files: a whole list, or one record. -/
structure HitFormat (δ : Type) where
  records : String → Option (List (SignalHitRecord δ))
  record  : String → Option (SignalHitRecord δ)

structure FrequencyScanner (δ : Type) where
  enabled           : Bool
  paused            : Bool
  resetOnStart      : Bool
  startHz           : ℕ
  stopHz            : ℕ
  stepHz            : ℕ
  dwellMs           : ℕ
  thresholdDb       : δ
  currentFreqHz     : ℕ
  lastStepTime      : Option ℕ
  hits              : List (SignalHit δ)
  maxHits           : ℕ
  tuneRequestHz     : Option ℕ
  modeRequest       : Option String
  autoTuneOnHit     : Bool
  totalHitsLogged   : ℕ
  hitFlash          : ℕ
  holdOnActive      : Bool
  holdResumeDelayMs : ℕ
  holding           : Bool
  holdLastActive    : Option ℕ
  memoryScan        : Bool
  memoryFreqs       : List (ℕ × String)
  memoryIdx         : ℕ
  excludeHz         : List ℕ

/-- `Iterator::find` on mutable elements: the first one is changed. -/
def updateFirst {α : Type} (p : α → Bool) (f : α → α) : List α → Option (List α)
  | [] => none
  | a :: rest => if p a then some (f a :: rest) else (updateFirst p f rest).map (a :: ·)

/-- The white space that `str::trim` removes. -/
def isWhitespace (c : Char) : Bool :=
  (0x9 ≤ c.toNat ∧ c.toNat ≤ 0xD) ∨ (0x2000 ≤ c.toNat ∧ c.toNat ≤ 0x200A) ∨
    c.toNat ∈ [0x20, 0x85, 0xA0, 0x1680, 0x2028, 0x2029, 0x202F, 0x205F, 0x3000]

/-- The lines of a text that are not blank, trimmed. -/
def trimmedLines (content : String) : List String :=
  ((content.toList.splitOn '\n').map fun line =>
    ((line.dropWhile isWhitespace).reverse.dropWhile isWhitespace).reverse).filterMap fun line =>
      if line.isEmpty then none else some (String.ofList line)

namespace FrequencyScanner

variable {δ : Type} (louder : δ → δ → Bool) (format : HitFormat δ)

/-- A new scanner, with its threshold of -60 dB. -/
def new (thresholdDb : δ) : FrequencyScanner δ where
  enabled := false
  paused := false
  resetOnStart := true
  startHz := 88000000
  stopHz := 108000000
  stepHz := 100000
  dwellMs := 500
  thresholdDb := thresholdDb
  currentFreqHz := 100000000
  lastStepTime := none
  hits := []
  maxHits := 200
  tuneRequestHz := none
  modeRequest := none
  autoTuneOnHit := false
  totalHitsLogged := 0
  hitFlash := 0
  holdOnActive := false
  holdResumeDelayMs := 1500
  holding := false
  holdLastActive := none
  memoryScan := false
  memoryFreqs := []
  memoryIdx := 0
  excludeHz := []

def milliseconds (n : ℕ) : ℕ := n * 1000000

/-- Time since the last step, which is long enough when there was none. -/
def elapsed (s : FrequencyScanner δ) (now : ℕ) : ℕ :=
  s.lastStepTime.elim (milliseconds s.dwellMs) (now - ·)

/-- Time since a held signal was last active. -/
def sinceSignal (s : FrequencyScanner δ) (now : ℕ) : ℕ :=
  s.holdLastActive.elim (milliseconds s.holdResumeDelayMs) (now - ·)

def newHit (s : FrequencyScanner δ) (peak : δ) (now : ℕ) : SignalHit δ :=
  ⟨s.currentFreqHz, peak, now, 1⟩

/-- A memory scan counts another hit at its own frequency. -/
def mergeMemory (peak : δ) (now : ℕ) (hit : SignalHit δ) : SignalHit δ :=
  let hit := { hit with hitCount := (hit.hitCount + 1) % 2 ^ 32 }
  if louder peak hit.strengthDb then { hit with strengthDb := peak, timestamp := now } else hit

/-- A range scan also moves a hit to where it is strongest. -/
def mergeRange (s : FrequencyScanner δ) (peak : δ) (now : ℕ) (hit : SignalHit δ) : SignalHit δ :=
  let hit := { hit with hitCount := (hit.hitCount + 1) % 2 ^ 32 }
  if louder peak hit.strengthDb then
    { hit with strengthDb := peak, freqHz := s.currentFreqHz, timestamp := now }
  else hit

/-- The part of `tick_memory` that logs a hit. -/
def logMemory (s : FrequencyScanner δ) (peak : δ) (now : ℕ) : FrequencyScanner δ :=
  match updateFirst (fun h => h.freqHz = s.currentFreqHz) (mergeMemory louder peak now) s.hits with
  | some hits => { s with hits := hits }
  | none => { s with
      hits := s.hits ++ [s.newHit peak now]
      totalHitsLogged := s.totalHitsLogged + 1
      hitFlash := 45 }

def near (s : FrequencyScanner δ) (freq : ℕ) : Bool :=
  (freq - s.currentFreqHz) + (s.currentFreqHz - freq) ≤ s.stepHz / 2

/-- The part of `tick_range` that logs a hit. -/
def logRange (s : FrequencyScanner δ) (peak : δ) (now : ℕ) : FrequencyScanner δ :=
  match updateFirst (fun h => s.near h.freqHz) (mergeRange louder s peak now) s.hits with
  | some hits => { s with hits := hits }
  | none =>
    let hits := s.hits ++ [s.newHit peak now]
    { s with
      tuneRequestHz := if s.autoTuneOnHit then some s.currentFreqHz else s.tuneRequestHz
      hits := if hits.length > s.maxHits then hits.tail else hits
      totalHitsLogged := s.totalHitsLogged + 1
      hitFlash := 45 }

def hold (s : FrequencyScanner δ) (now : ℕ) : FrequencyScanner δ :=
  { s with holdLastActive := some now, holding := true, lastStepTime := some now }

/-- The signal is gone for too short a time to move on. -/
def resting (s : FrequencyScanner δ) (now : ℕ) : Bool :=
  s.holding ∧ s.sinceSignal now < milliseconds s.holdResumeDelayMs

def release (s : FrequencyScanner δ) : FrequencyScanner δ :=
  if s.holding then { s with holding := false, holdLastActive := none } else s

def advanceMemory (s : FrequencyScanner δ) (now : ℕ) : FrequencyScanner δ :=
  let memoryIdx := (s.memoryIdx + 1) % s.memoryFreqs.length
  let (f, m) := s.memoryFreqs.getD memoryIdx (0, "")
  { s with
    memoryIdx := memoryIdx
    currentFreqHz := f
    tuneRequestHz := some f
    modeRequest := some m
    lastStepTime := some now }

def tickMemory (s : FrequencyScanner δ) (peak : δ) (now : ℕ) : FrequencyScanner δ :=
  if s.memoryFreqs.isEmpty then s
  else if s.elapsed now < milliseconds s.dwellMs then s
  else
    let signalActive := louder peak s.thresholdDb
    let s := if signalActive then s.logMemory louder peak now else s
    if signalActive ∧ s.holdOnActive then s.hold now
    else if s.resting now then { s with lastStepTime := some now }
    else s.release.advanceMemory now

/-- `saturating_add` on 64 bits, and back to the start after the stop. -/
def nextFreq (s : FrequencyScanner δ) : ℕ :=
  let next := min (s.currentFreqHz + s.stepHz) (2 ^ 64 - 1)
  if next > s.stopHz then s.startHz else next

def advanceRange (s : FrequencyScanner δ) (now : ℕ) : FrequencyScanner δ :=
  { s with
    currentFreqHz := s.nextFreq
    tuneRequestHz := some s.nextFreq
    lastStepTime := some now }

def tickRange (s : FrequencyScanner δ) (peak : δ) (now : ℕ) : FrequencyScanner δ :=
  if s.stepHz = 0 then s
  else if s.elapsed now < milliseconds s.dwellMs then s
  else if s.excludeHz.any fun ex => s.near ex then s.advanceRange now
  else
    let signalActive := louder peak s.thresholdDb && decide (s.startHz ≤ s.currentFreqHz) &&
      decide (s.currentFreqHz ≤ s.stopHz)
    let s := if signalActive then s.logRange louder peak now else s
    if signalActive ∧ s.holdOnActive then s.hold now
    else if s.resting now then { s with lastStepTime := some now }
    else s.release.advanceRange now

/-- The end of `tick_spectrum_at`, where a fresh measurement is used. -/
def tick (s : FrequencyScanner δ) (peak : δ) (now : ℕ) : FrequencyScanner δ :=
  if !s.enabled || s.paused then s
  else if s.memoryScan then s.tickMemory louder peak now
  else s.tickRange louder peak now

/-- One record of a file, compared with what was listed before the file. -/
def loadRecord (existing : List ℕ) (now : ℕ) (state : FrequencyScanner δ × ℕ)
    (rec : SignalHitRecord δ) : FrequencyScanner δ × ℕ :=
  if rec.freqHz ∈ existing then state
  else
    ({ state.1 with
        hits := state.1.hits ++ [⟨rec.freqHz, rec.strengthDb, now, rec.hitCount⟩] }, state.2 + 1)

/-- `parse_hits_json`, with the number of hits that were added. -/
def parseHitsJson (s : FrequencyScanner δ) (content : String) (now : ℕ) :
    FrequencyScanner δ × ℕ :=
  let existing := s.hits.map SignalHit.freqHz
  match format.records content with
  | some records => records.foldl (loadRecord existing now) (s, 0)
  | none => (trimmedLines content).foldl (fun state line =>
      match format.record line with
      | some rec => loadRecord existing now state rec
      | none => state) (s, 0)

def stop (s : FrequencyScanner δ) : FrequencyScanner δ :=
  { s with
    enabled := false
    paused := false
    holding := false
    holdLastActive := none
    tuneRequestHz := none
    modeRequest := none
    lastStepTime := none }

def start (s : FrequencyScanner δ) (now : ℕ) : FrequencyScanner δ :=
  if s.stepHz = 0 ∨ s.startHz > s.stopHz then s.stop
  else { s with
    memoryScan := false
    holding := false
    holdLastActive := none
    modeRequest := none
    enabled := true
    paused := false
    hits := if s.resetOnStart then [] else s.hits
    totalHitsLogged := if s.resetOnStart then 0 else s.totalHitsLogged
    currentFreqHz := s.startHz
    lastStepTime := some now
    tuneRequestHz := some s.startHz }

def startMemoryScan (s : FrequencyScanner δ) (freqs : List (ℕ × String)) (now : ℕ) :
    FrequencyScanner δ :=
  match freqs with
  | [] => s
  | (f, m) :: _ => { s with
      memoryScan := true
      memoryFreqs := freqs
      memoryIdx := 0
      enabled := true
      paused := false
      holding := false
      holdLastActive := none
      lastStepTime := some now
      tuneRequestHz := some f
      modeRequest := some m
      currentFreqHz := f }

end FrequencyScanner

/-- What happens to a scanner. -/
inductive Event (δ : Type) where
  | tick (peak : δ) (now : ℕ)
  | load (content : String) (now : ℕ)
  | setRange (startHz stopHz stepHz : ℕ)
  | setExcluded (freqs : List ℕ)
  | setOptions (dwellMs : ℕ) (thresholdDb : δ) (autoTune holdOnActive : Bool) (resumeMs : ℕ)
      (resetOnStart : Bool)
  /-- The observation begins anew, or the receiver is not there yet. -/
  | observe (lastStepTime : Option ℕ)
  | start (now : ℕ)
  | startMemoryScan (freqs : List (ℕ × String)) (now : ℕ)
  | stopMemoryScan
  | stop
  | pause
  | resume (now : ℕ)
  | clearHits
  | removeHit (freq : ℕ)

namespace FrequencyScanner

variable {δ : Type} (louder : δ → δ → Bool) (format : HitFormat δ)

def step (s : FrequencyScanner δ) : Event δ → FrequencyScanner δ
  | .tick peak now => s.tick louder peak now
  | .load content now => (s.parseHitsJson format content now).1
  | .setRange startHz stopHz stepHz =>
      { s with startHz := startHz, stopHz := stopHz, stepHz := stepHz }
  | .setExcluded freqs => { s with excludeHz := freqs }
  | .setOptions dwellMs thresholdDb autoTune holdOnActive resumeMs resetOnStart =>
      { s with
        dwellMs := dwellMs
        thresholdDb := thresholdDb
        autoTuneOnHit := autoTune
        holdOnActive := holdOnActive
        holdResumeDelayMs := resumeMs
        resetOnStart := resetOnStart }
  | .observe lastStepTime =>
      { s with holding := false, holdLastActive := none, lastStepTime := lastStepTime }
  | .start now => s.start now
  | .startMemoryScan freqs now => s.startMemoryScan freqs now
  | .stopMemoryScan => { s.stop with memoryScan := false }
  | .stop => s.stop
  | .pause => { s with paused := true }
  | .resume now => { s with paused := false, lastStepTime := some now }
  | .clearHits => { s with hits := [] }
  | .removeHit freq => { s with hits := s.hits.filter fun h => h.freqHz ≠ freq }

def run (s : FrequencyScanner δ) (events : List (Event δ)) : FrequencyScanner δ :=
  events.foldl (step louder format) s

/-! ## Section 2: What a step does to the list -/

/-- The list is short, and its frequencies are distinct. -/
def Tidy (s : FrequencyScanner δ) : Prop :=
  s.hits.length ≤ s.maxHits ∧ (s.hits.map SignalHit.freqHz).Nodup

/-- A memory scan logs a hit at this measurement. -/
def LogsMemory (s : FrequencyScanner δ) (peak : δ) (now : ℕ) : Prop :=
  s.memoryFreqs ≠ [] ∧ milliseconds s.dwellMs ≤ s.elapsed now ∧ louder peak s.thresholdDb = true

/-- A range scan logs a hit at this measurement. -/
def LogsRange (s : FrequencyScanner δ) (peak : δ) (now : ℕ) : Prop :=
  s.stepHz ≠ 0 ∧ milliseconds s.dwellMs ≤ s.elapsed now ∧
    (s.excludeHz.any fun ex => s.near ex) = false ∧ louder peak s.thresholdDb = true ∧
    s.startHz ≤ s.currentFreqHz ∧ s.currentFreqHz ≤ s.stopHz

/-- The records of a file, in either format. -/
def fileRecords (content : String) : List (SignalHitRecord δ) :=
  (format.records content).getD ((trimmedLines content).filterMap format.record)

/-- The records whose frequencies are not listed. -/
def newRecords (s : FrequencyScanner δ) (content : String) : List (SignalHitRecord δ) :=
  (fileRecords format content).filter fun rec => rec.freqHz ∉ s.hits.map SignalHit.freqHz

/-- **The condition**, on the scanner before the step: a memory scan logs a
    new frequency only while there is room, a file's new records are distinct
    and there is room for them, and a range scan moves a hit only to where no
    other one is. -/
def Meets (s : FrequencyScanner δ) : Event δ → Prop
  | .tick peak now =>
    s.enabled = true → s.paused = false →
      (s.memoryScan = true → s.LogsMemory louder peak now →
        (∃ h ∈ s.hits, h.freqHz = s.currentFreqHz) ∨ s.hits.length < s.maxHits) ∧
      (s.memoryScan = false → s.LogsRange louder peak now →
        ∀ hit, (s.hits.find? fun h => s.near h.freqHz) = some hit →
          louder peak hit.strengthDb = true →
          ∀ other ∈ s.hits, other.freqHz = s.currentFreqHz → hit.freqHz = s.currentFreqHz)
  | .load content _ =>
    ((s.newRecords format content).map SignalHitRecord.freqHz).Nodup ∧
      s.hits.length + (s.newRecords format content).length ≤ s.maxHits
  | _ => True

/-- The list and its limit are the same. -/
def SameList (s s' : FrequencyScanner δ) : Prop :=
  s'.hits = s.hits ∧ s'.maxHits = s.maxHits

theorem SameList.trans {s s' s'' : FrequencyScanner δ} (h : SameList s s')
    (h' : SameList s' s'') : SameList s s'' :=
  ⟨h'.1.trans h.1, h'.2.trans h.2⟩

theorem SameList.tidy {s s' : FrequencyScanner δ} (h : SameList s s') : s'.Tidy ↔ s.Tidy := by
  unfold Tidy
  rw [h.1, h.2]

theorem release_same (s : FrequencyScanner δ) : SameList s s.release := by
  unfold release
  split
  · exact ⟨rfl, rfl⟩
  · exact ⟨rfl, rfl⟩

/-- After the logging, a scanner holds, rests or moves on. -/
theorem settle_same (s moved : FrequencyScanner δ) (active : Bool) (now : ℕ)
    (hmoved : SameList s.release moved) :
    SameList s (if active ∧ s.holdOnActive then s.hold now
      else if s.resting now then { s with lastStepTime := some now }
      else moved) := by
  split
  · exact ⟨rfl, rfl⟩
  · split
    · exact ⟨rfl, rfl⟩
    · exact (release_same s).trans hmoved

/-- A memory scan changes the list only by logging. -/
theorem tickMemory_same (s : FrequencyScanner δ) (peak : δ) (now : ℕ) :
    (s.LogsMemory louder peak now →
      SameList (s.logMemory louder peak now) (s.tickMemory louder peak now)) ∧
    (¬ s.LogsMemory louder peak now → SameList s (s.tickMemory louder peak now)) := by
  unfold LogsMemory tickMemory
  by_cases hempty : s.memoryFreqs = []
  · rw [if_pos (List.isEmpty_iff.2 hempty)]
    exact ⟨fun h => absurd hempty h.1, fun _ => ⟨rfl, rfl⟩⟩
  rw [if_neg (mt List.isEmpty_iff.1 hempty)]
  by_cases hearly : s.elapsed now < milliseconds s.dwellMs
  · rw [if_pos hearly]
    exact ⟨fun h => absurd h.2.1 (not_le.2 hearly), fun _ => ⟨rfl, rfl⟩⟩
  rw [if_neg hearly]
  cases hactive : louder peak s.thresholdDb with
  | true =>
    constructor
    · intro _
      exact settle_same _ _ true now ⟨rfl, rfl⟩
    · intro hnot
      exact absurd ⟨hempty, not_lt.1 hearly, rfl⟩ hnot
  | false =>
    constructor
    · intro h
      exact absurd h.2.2 Bool.false_ne_true
    · intro _
      exact settle_same _ _ false now ⟨rfl, rfl⟩

/-- So does a range scan. -/
theorem tickRange_same (s : FrequencyScanner δ) (peak : δ) (now : ℕ) :
    (s.LogsRange louder peak now →
      SameList (s.logRange louder peak now) (s.tickRange louder peak now)) ∧
    (¬ s.LogsRange louder peak now → SameList s (s.tickRange louder peak now)) := by
  unfold LogsRange tickRange
  by_cases hstep : s.stepHz = 0
  · rw [if_pos hstep]
    exact ⟨fun h => absurd hstep h.1, fun _ => ⟨rfl, rfl⟩⟩
  rw [if_neg hstep]
  by_cases hearly : s.elapsed now < milliseconds s.dwellMs
  · rw [if_pos hearly]
    exact ⟨fun h => absurd h.2.1 (not_le.2 hearly), fun _ => ⟨rfl, rfl⟩⟩
  rw [if_neg hearly]
  cases hexcluded : s.excludeHz.any fun ex => s.near ex with
  | true => exact ⟨fun h => absurd h.2.2.1 Bool.true_eq_false.mp, fun _ => ⟨rfl, rfl⟩⟩
  | false =>
    rw [if_neg Bool.false_ne_true]
    by_cases hactive : louder peak s.thresholdDb = true ∧ s.startHz ≤ s.currentFreqHz ∧
        s.currentFreqHz ≤ s.stopHz
    · have htrue : (louder peak s.thresholdDb && decide (s.startHz ≤ s.currentFreqHz) &&
          decide (s.currentFreqHz ≤ s.stopHz)) = true := by
        simp [hactive]
      rw [htrue]
      constructor
      · intro _
        exact settle_same _ _ true now ⟨rfl, rfl⟩
      · intro hnot
        exact absurd ⟨hstep, not_lt.1 hearly, rfl, hactive⟩ hnot
    · have hfalse : (louder peak s.thresholdDb && decide (s.startHz ≤ s.currentFreqHz) &&
          decide (s.currentFreqHz ≤ s.stopHz)) = false := by
        rw [Bool.eq_false_iff]
        intro htrue
        simp only [Bool.and_eq_true, decide_eq_true_eq, and_assoc] at htrue
        exact hactive htrue
      rw [hfalse]
      constructor
      · intro h
        exact absurd h.2.2.2 hactive
      · intro _
        exact settle_same _ _ false now ⟨rfl, rfl⟩

/-! ## Section 3: What logging does to the list -/

theorem updateFirst_eq {α : Type} (p : α → Bool) (f : α → α) (l : List α) :
    (l.find? p = none ∧ updateFirst p f l = none) ∨
    ∃ before a after, l.find? p = some a ∧ l = before ++ a :: after ∧
      updateFirst p f l = some (before ++ f a :: after) := by
  induction l with
  | nil => exact .inl ⟨rfl, rfl⟩
  | cons a rest ih =>
    unfold updateFirst
    cases hp : p a with
    | true =>
      refine .inr ⟨[], a, rest, ?_, rfl, rfl⟩
      rw [List.find?_cons_of_pos hp]
    | false =>
      have hnot : ¬ p a = true := Bool.eq_false_iff.1 hp
      rw [if_neg Bool.false_ne_true, List.find?_cons_of_neg hnot]
      obtain ⟨hnone, hupdate⟩ | ⟨before, b, after, hfind, rfl, hupdate⟩ := ih
      · exact .inl ⟨hnone, by rw [hupdate]; rfl⟩
      · exact .inr ⟨a :: before, b, after, hfind, rfl, by rw [hupdate]; rfl⟩

/-- One more frequency at the end of a list of distinct ones. -/
theorem nodup_append_one {hits : List (SignalHit δ)} (h : (hits.map SignalHit.freqHz).Nodup)
    (hit : SignalHit δ) : ((hits ++ [hit]).map SignalHit.freqHz).Nodup ↔
      ∀ other ∈ hits, other.freqHz ≠ hit.freqHz := by
  rw [List.map_append, List.map_singleton, ← List.concat_eq_append, List.nodup_concat]
  constructor
  · intro hnew other hother heq
    exact hnew.1 (heq ▸ List.mem_map_of_mem hother)
  · intro hnew
    refine ⟨fun hmem => ?_, h⟩
    obtain ⟨other, hother, heq⟩ := List.mem_map.1 hmem
    exact hnew other hother heq

/-- A memory scan adds its own frequency if it is not listed. -/
theorem logMemory_tidy {s : FrequencyScanner δ} (h : s.Tidy) (peak : δ) (now : ℕ) :
    (s.logMemory louder peak now).Tidy ↔
      (∃ hit ∈ s.hits, hit.freqHz = s.currentFreqHz) ∨ s.hits.length < s.maxHits := by
  obtain ⟨hshort, hdistinct⟩ := h
  unfold logMemory
  obtain ⟨hnone, hupdate⟩ | ⟨before, a, after, hfind, hhits, hupdate⟩ :=
    updateFirst_eq (fun h : SignalHit δ => h.freqHz = s.currentFreqHz) (mergeMemory louder peak now)
      s.hits
  · rw [hupdate]
    have hnew : ∀ hit ∈ s.hits, hit.freqHz ≠ s.currentFreqHz := by
      intro hit hmem
      simpa using List.find?_eq_none.1 hnone hit hmem
    constructor
    · intro htidy
      have hlength : (s.hits ++ [s.newHit peak now]).length ≤ s.maxHits := htidy.1
      rw [List.length_append, List.length_singleton] at hlength
      exact .inr hlength
    · intro hroom
      obtain ⟨hit, hmem, heq⟩ | hroom := hroom
      · exact absurd heq (hnew hit hmem)
      · refine ⟨?_, (nodup_append_one hdistinct _).2 hnew⟩
        show (s.hits ++ [s.newHit peak now]).length ≤ s.maxHits
        rw [List.length_append, List.length_singleton]
        exact hroom
  · rw [hupdate]
    have hsame : (mergeMemory louder peak now a).freqHz = a.freqHz := by
      unfold mergeMemory
      dsimp only
      split
      · rfl
      · rfl
    have hmem : a ∈ s.hits := List.mem_of_find?_eq_some hfind
    have hequal : a.freqHz = s.currentFreqHz := by simpa using List.find?_some hfind
    constructor
    · intro _
      exact .inl ⟨a, hmem, hequal⟩
    · intro _
      -- the merged hit keeps its frequency
      rw [hhits] at hshort hdistinct
      refine ⟨?_, ?_⟩
      · show (before ++ _ :: after).length ≤ s.maxHits
        simpa using hshort
      · show ((before ++ _ :: after).map SignalHit.freqHz).Nodup
        rw [List.map_append, List.map_cons, hsame, ← List.map_cons, ← List.map_append]
        exact hdistinct

/-- The current frequency is near itself. -/
theorem near_self (s : FrequencyScanner δ) : s.near s.currentFreqHz = true := by
  unfold near
  rw [Nat.sub_self, decide_eq_true_eq]
  exact Nat.zero_le _

/-- A range scan adds its own frequency if none is near, and else moves the
    first one there is. -/
theorem logRange_tidy {s : FrequencyScanner δ} (h : s.Tidy) (peak : δ) (now : ℕ) :
    (s.logRange louder peak now).Tidy ↔
      ∀ hit, (s.hits.find? fun hit => s.near hit.freqHz) = some hit →
        louder peak hit.strengthDb = true →
        ∀ other ∈ s.hits, other.freqHz = s.currentFreqHz → hit.freqHz = s.currentFreqHz := by
  obtain ⟨hshort, hdistinct⟩ := h
  unfold logRange
  obtain ⟨hnone, hupdate⟩ | ⟨before, a, after, hfind, hhits, hupdate⟩ :=
    updateFirst_eq (fun h : SignalHit δ => s.near h.freqHz) (mergeRange louder s peak now) s.hits
  · rw [hupdate, hnone]
    refine iff_of_true ?_ (fun hit hhit => (by cases hhit))
    have hnew : ∀ hit ∈ s.hits, hit.freqHz ≠ s.currentFreqHz := by
      intro hit hmem heq
      refine List.find?_eq_none.1 hnone hit hmem ?_
      rw [heq]
      exact near_self s
    have hnodup : ((s.hits ++ [s.newHit peak now]).map SignalHit.freqHz).Nodup :=
      (nodup_append_one hdistinct _).2 hnew
    have hlength : (s.hits ++ [s.newHit peak now]).length = s.hits.length + 1 := by
      rw [List.length_append, List.length_singleton]
    show (if _ then _ else _ : List (SignalHit δ)).length ≤ s.maxHits ∧
      ((if _ then _ else _ : List (SignalHit δ)).map SignalHit.freqHz).Nodup
    split
    · -- the oldest hit goes
      refine ⟨?_, ?_⟩
      · rw [List.length_tail, hlength]
        exact hshort
      · rw [List.map_tail]
        exact hnodup.tail
    · next hroom => exact ⟨not_lt.1 hroom, hnodup⟩
  · rw [hupdate, hfind]
    rw [hhits] at hshort hdistinct ⊢
    have hlength : (before ++ mergeRange louder s peak now a :: after).length ≤ s.maxHits := by
      simpa using hshort
    rw [List.map_append, List.map_cons, List.nodup_middle, ← List.map_append] at hdistinct
    obtain ⟨hother, hrest⟩ := List.nodup_cons.1 hdistinct
    have htidy : ((before ++ mergeRange louder s peak now a :: after).map
        SignalHit.freqHz).Nodup ↔
          (mergeRange louder s peak now a).freqHz ∉ (before ++ after).map SignalHit.freqHz := by
      rw [List.map_append, List.map_cons, List.nodup_middle, ← List.map_append, List.nodup_cons]
      exact and_iff_left hrest
    show (_ ∧ _) ↔ _
    rw [and_iff_right hlength, htidy]
    cases hlouder : louder peak a.strengthDb with
    | false =>
      have hsame : (mergeRange louder s peak now a).freqHz = a.freqHz := by
        unfold mergeRange
        dsimp only
        rw [hlouder]
        rfl
      rw [hsame]
      refine ⟨fun _ hit hhit hloud => ?_, fun _ => hother⟩
      rw [← Option.some.inj hhit, hlouder] at hloud
      cases hloud
    | true =>
      have hmoved : (mergeRange louder s peak now a).freqHz = s.currentFreqHz := by
        unfold mergeRange
        dsimp only
        rw [hlouder]
        rfl
      rw [hmoved]
      constructor
      · intro hfree hit hhit _ other hmem heq
        obtain rfl := Option.some.inj hhit
        rw [List.mem_append, List.mem_cons, or_left_comm, ← List.mem_append] at hmem
        obtain rfl | hmem := hmem
        · exact heq
        · exact absurd (heq ▸ List.mem_map_of_mem hmem) hfree
      · intro hmeets htaken
        obtain ⟨other, hmem, heq⟩ := List.mem_map.1 htaken
        have hlisted : other ∈ before ++ a :: after := by
          rw [List.mem_append, List.mem_cons, or_left_comm, ← List.mem_append]
          exact .inr hmem
        -- the moved hit was at this frequency already, and so listed twice
        have hsame := hmeets a rfl hlouder other hlisted heq
        rw [hsame] at hother
        exact hother htaken

theorem foldl_loadRecord (existing : List ℕ) (now : ℕ) (records : List (SignalHitRecord δ))
    (state : FrequencyScanner δ × ℕ) :
    records.foldl (loadRecord existing now) state =
      ({ state.1 with
          hits := state.1.hits ++ (records.filter fun rec => rec.freqHz ∉ existing).map fun rec =>
            ⟨rec.freqHz, rec.strengthDb, now, rec.hitCount⟩ },
        state.2 + (records.filter fun rec => rec.freqHz ∉ existing).length) := by
  induction records generalizing state with
  | nil =>
    rw [List.filter_nil, List.map_nil, List.append_nil]
    rfl
  | cons rec records ih =>
    rw [List.foldl_cons, ih]
    unfold loadRecord
    by_cases hmem : rec.freqHz ∈ existing
    · rw [if_pos hmem, List.filter_cons_of_neg (by simpa using hmem)]
    · rw [if_neg hmem, List.filter_cons_of_pos (by simpa using hmem), List.map_cons,
        List.length_cons, List.append_assoc, Nat.add_assoc, Nat.add_comm 1]
      rfl

/-- A file adds its new records, as they come. -/
theorem parseHitsJson_eq (s : FrequencyScanner δ) (content : String) (now : ℕ) :
    s.parseHitsJson format content now = ({ s with
      hits := s.hits ++ (s.newRecords format content).map fun rec =>
        ⟨rec.freqHz, rec.strengthDb, now, rec.hitCount⟩ },
      (s.newRecords format content).length) := by
  unfold parseHitsJson newRecords fileRecords
  cases format.records content with
  | some records =>
    dsimp only
    rw [foldl_loadRecord, Nat.zero_add]
    rfl
  | none =>
    have hlines : ∀ (lines : List String) (state : FrequencyScanner δ × ℕ),
        lines.foldl (fun state line =>
          match format.record line with
          | some rec => loadRecord (s.hits.map SignalHit.freqHz) now state rec
          | none => state) state =
        (lines.filterMap format.record).foldl
          (loadRecord (s.hits.map SignalHit.freqHz) now) state := by
      intro lines
      induction lines with
      | nil => exact fun _ => rfl
      | cons line lines ih =>
        intro state
        rw [List.foldl_cons, ih, List.filterMap_cons]
        cases format.record line with
        | none => rfl
        | some rec => rfl
    dsimp only
    rw [hlines, foldl_loadRecord, Nat.zero_add]
    rfl

theorem load_tidy {s : FrequencyScanner δ} (h : s.Tidy) (content : String) (now : ℕ) :
    (s.parseHitsJson format content now).1.Tidy ↔
      ((s.newRecords format content).map SignalHitRecord.freqHz).Nodup ∧
        s.hits.length + (s.newRecords format content).length ≤ s.maxHits := by
  rw [parseHitsJson_eq]
  unfold Tidy
  dsimp only
  rw [List.length_append, List.length_map, List.map_append, List.map_map, and_comm]
  refine and_congr_left fun _ => ?_
  rw [List.nodup_append]
  constructor
  · intro hall
    exact hall.2.1
  · intro hnew
    refine ⟨h.2, hnew, ?_⟩
    intro a ha b hb
    obtain ⟨rec, hrec, rfl⟩ := List.mem_map.1 hb
    have hfree := of_decide_eq_true (List.mem_filter.1 hrec).2
    rintro rfl
    exact hfree ha

/-! ## Section 4: Runs -/

theorem tick_tidy {s : FrequencyScanner δ} (h : s.Tidy) (peak : δ) (now : ℕ) :
    (s.tick louder peak now).Tidy ↔ s.Meets louder format (.tick peak now) := by
  unfold tick Meets
  cases henabled : s.enabled with
  | false =>
    rw [Bool.not_false, Bool.true_or, if_pos rfl]
    exact iff_of_true h fun hon => absurd hon Bool.false_ne_true
  | true =>
    cases hpaused : s.paused with
    | true =>
      rw [Bool.or_true, if_pos rfl]
      exact iff_of_true h fun _ hoff => absurd hoff Bool.true_eq_false.mp
    | false =>
      rw [Bool.not_true, Bool.or_false, if_neg Bool.false_ne_true]
      cases hmemory : s.memoryScan with
      | true =>
        obtain ⟨hlogs, hquiet⟩ := tickMemory_same louder s peak now
        rw [if_pos rfl]
        by_cases hlog : s.LogsMemory louder peak now
        · rw [(hlogs hlog).tidy, logMemory_tidy louder h]
          simp [hlog]
        · rw [(hquiet hlog).tidy]
          exact iff_of_true h (by simp [hlog])
      | false =>
        obtain ⟨hlogs, hquiet⟩ := tickRange_same louder s peak now
        rw [if_neg Bool.false_ne_true]
        by_cases hlog : s.LogsRange louder peak now
        · rw [(hlogs hlog).tidy, logRange_tidy louder h]
          simp [hlog]
        · rw [(hquiet hlog).tidy]
          exact iff_of_true h (by simp [hlog])

/-- **The condition is exact**: from a tidy list a step leads to a tidy one
    just if it meets the condition. -/
theorem step_tidy {s : FrequencyScanner δ} (h : s.Tidy) (e : Event δ) :
    (s.step louder format e).Tidy ↔ s.Meets louder format e := by
  -- all but measurements and files leave the list, or only take hits away
  have hother : ∀ s' : FrequencyScanner δ, SameList s s' → (s'.Tidy ↔ True) := fun s' hsame =>
    hsame.tidy.trans (iff_true_intro h)
  have hcleared : ∀ s' : FrequencyScanner δ, s'.hits = [] → (s'.Tidy ↔ True) := by
    intro s' hempty
    unfold Tidy
    rw [hempty]
    exact iff_true_intro ⟨Nat.zero_le _, List.nodup_nil⟩
  cases e with
  | tick peak now => exact tick_tidy louder format h peak now
  | load content now => exact load_tidy format h content now
  | setRange startHz stopHz stepHz => exact hother _ ⟨rfl, rfl⟩
  | setExcluded freqs => exact hother _ ⟨rfl, rfl⟩
  | setOptions => exact hother _ ⟨rfl, rfl⟩
  | observe lastStepTime => exact hother _ ⟨rfl, rfl⟩
  | start now =>
    show (s.start now).Tidy ↔ True
    unfold start
    split
    · exact hother _ ⟨rfl, rfl⟩
    · cases hreset : s.resetOnStart with
      | true => exact hcleared _ rfl
      | false => exact hother _ ⟨rfl, rfl⟩
  | startMemoryScan freqs now =>
    cases freqs with
    | nil => exact hother _ ⟨rfl, rfl⟩
    | cons f freqs => exact hother _ ⟨rfl, rfl⟩
  | stopMemoryScan => exact hother _ ⟨rfl, rfl⟩
  | stop => exact hother _ ⟨rfl, rfl⟩
  | pause => exact hother _ ⟨rfl, rfl⟩
  | resume now => exact hother _ ⟨rfl, rfl⟩
  | clearHits => exact hcleared _ rfl
  | removeHit freq =>
    have hsub : (s.hits.filter fun h => decide (h.freqHz ≠ freq)).Sublist s.hits :=
      List.filter_sublist
    exact iff_true_intro ⟨hsub.length_le.trans h.1, h.2.sublist (hsub.map _)⟩

/-- **For which runs the hit list is tidy.** From an empty list, it is tidy in
    every state of a run just if every step meets the condition in the state
    before it. -/
theorem hits_invariant (s : FrequencyScanner δ) (events : List (Event δ)) :
    (∀ before, before <+: events →
      (run louder format { s with hits := [] } before).Tidy) ↔
    ∀ before e, before ++ [e] <+: events →
      (run louder format { s with hits := [] } before).Meets louder format e := by
  have hrun : ∀ before e, run louder format { s with hits := [] } (before ++ [e]) =
      (run louder format { s with hits := [] } before).step louder format e := by
    intro before e
    unfold run
    rw [List.foldl_append]
    rfl
  constructor
  · intro htidy before e hprefixed
    have hbefore := htidy before ((List.prefix_append before [e]).trans hprefixed)
    rw [← step_tidy louder format hbefore, ← hrun]
    exact htidy _ hprefixed
  · intro hmeets before
    -- by induction on the states reached, from the empty list on
    induction before using List.reverseRecOn with
    | nil => exact fun _ => ⟨Nat.zero_le _, List.nodup_nil⟩
    | append_singleton before e ih =>
      intro hprefixed
      have hbefore := ih ((List.prefix_append before [e]).trans hprefixed)
      rw [hrun, step_tidy louder format hbefore]
      exact hmeets before e hprefixed

/-- A file that lists one frequency twice. -/
def twice : String :=
  "[\x7b\"freq_hz\":100000000\x7d,\x7b\"freq_hz\":100000000\x7d]"

/-- What the parser makes of that file. -/
def twiceFormat : HitFormat ℤ where
  records _ := some [⟨100000000, -60, 1⟩, ⟨100000000, -60, 1⟩]
  record _ := none

/-- Loading this file lists the frequency twice; and a memory scan of two
    active bookmarks lists two hits where one is the limit. -/
theorem untidy_runs :
    ¬ (run (fun a b => decide (a > b)) twiceFormat (new (-60)) [.load twice 0]).Tidy ∧
    ¬ (run (fun a b => decide (a > b)) twiceFormat { new (-60) with maxHits := 1 }
      [.startMemoryScan [(100000000, "NFM"), (100025000, "NFM")] 0,
        .tick (-40) 1000000000, .tick (-40) 2000000000]).Tidy := by
  constructor
  · intro htidy
    exact absurd htidy.2 (by decide +kernel)
  · intro htidy
    exact absurd htidy.1 (by decide +kernel)

end FrequencyScanner

end Scan
