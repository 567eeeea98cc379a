import EzSdr.Framework.Fallible

/-! # Channelizer

    The registry of virtual channels: taps on the wideband stream, each tuned
    to an absolute frequency. The mixer and the filters of a tap are rebuilt
    from these fields and from the input blocks, and are not part of the
    registry. Frequencies are compared exactly, which is what the floating
    point arithmetic of the code does below 2^53 Hz. -/

namespace Daemon

/-- Errors are the messages of the code. -/
abbrev Fails (σ α : Type) : Type := Fallible String σ α

/-- The registry fields of a `VirtualChannel`. -/
structure VirtualChannel where
  id           : ℕ
  centerFreqHz : ℕ
  outputRateHz : ℕ
  decimation   : ℕ
  deriving DecidableEq

structure Channelizer where
  widebandCenterHz : ℕ
  widebandRateHz   : ℕ
  channels         : List VirtualChannel
  nextId           : ℕ
  deriving DecidableEq

namespace Channelizer

/-- `Channelizer::new`. -/
def new (widebandCenterHz widebandRateHz : ℕ) : Channelizer :=
  ⟨widebandCenterHz, widebandRateHz, [], 0⟩

/-- The tap is inside the captured span, up to half the rate from its centre. -/
def inSpan (c : Channelizer) (centerFreqHz : ℕ) : Prop :=
  2 * |(centerFreqHz : ℤ) - c.widebandCenterHz| ≤ c.widebandRateHz

instance (c : Channelizer) (centerFreqHz : ℕ) : Decidable (c.inSpan centerFreqHz) :=
  inferInstanceAs (Decidable (_ ≤ _))

/-- Half of `twice`, printed without decimals: ties go to the even integer. -/
def formatHalf (twice : ℤ) : String :=
  let rounded := if twice % 4 = 3 then twice / 2 + 1 else twice / 2
  if rounded = 0 ∧ twice < 0 then "-0" else toString rounded

def outsideSpan (c : Channelizer) (centerFreqHz : ℕ) : String :=
  "requested channel " ++ toString centerFreqHz ++ " Hz is outside the wideband capture's " ++
    formatHalf (2 * c.widebandCenterHz - c.widebandRateHz) ++ "-" ++
    formatHalf (2 * c.widebandCenterHz + c.widebandRateHz) ++ " Hz span"

def decimationFor (c : Channelizer) (minOutputRateHz : ℕ) : ℕ :=
  max (c.widebandRateHz / minOutputRateHz) 1

/-- The tap the code builds for a frequency and an output rate. -/
def tap (c : Channelizer) (id centerFreqHz minOutputRateHz : ℕ) : VirtualChannel where
  id := id
  centerFreqHz := centerFreqHz
  outputRateHz := c.widebandRateHz / c.decimationFor minOutputRateHz
  decimation := c.decimationFor minOutputRateHz

/-- `add_channel`: the id of the new tap. -/
def addChannel (centerFreqHz minOutputRateHz : ℕ) : Fails Channelizer ℕ := do
  let c ← Fallible.get
  Fallible.ensure (minOutputRateHz ≠ 0) "virtual channel output rate must be non-zero"
  Fallible.ensure (c.inSpan centerFreqHz) (c.outsideSpan centerFreqHz)
  Fallible.modify fun c =>
    { c with channels := c.channels ++ [c.tap c.nextId centerFreqHz minOutputRateHz],
             nextId := c.nextId + 1 }
  pure c.nextId

/-- `remove_channel`. -/
def removeChannel (c : Channelizer) (id : ℕ) : Channelizer :=
  { c with channels := c.channels.filter fun channel => channel.id ≠ id }

def find (c : Channelizer) (id : ℕ) : Option VirtualChannel :=
  c.channels.find? fun channel => channel.id = id

/-- Put `tap` in the place of the first tap of that id. -/
def replaceTap (id : ℕ) (tap : VirtualChannel) : List VirtualChannel → List VirtualChannel
  | [] => []
  | channel :: rest =>
    if channel.id = id then tap :: rest else channel :: replaceTap id tap rest

/-- `retune_channel`. -/
def retuneChannel (id centerFreqHz minOutputRateHz : ℕ) : Fails Channelizer Unit := do
  let c ← Fallible.get
  Fallible.ensure (minOutputRateHz ≠ 0) "virtual channel output rate must be non-zero"
  Fallible.ensure (c.inSpan centerFreqHz) (c.outsideSpan centerFreqHz)
  Fallible.ensure ((c.find id).isSome) ("unknown virtual channel " ++ toString id)
  Fallible.modify fun c =>
    { c with channels := replaceTap id (c.tap id centerFreqHz minOutputRateHz) c.channels }

/-- `set_wideband_rate_hz`. -/
def setWidebandRateHz (hz : ℕ) : Fails Channelizer Unit := do
  let c ← Fallible.get
  Fallible.ensure (hz ≠ 0) "wideband sample rate must be non-zero"
  Fallible.ensure (c.channels = [])
    "cannot change wideband sample rate while virtual channels are active"
  Fallible.modify fun c => { c with widebandRateHz := hz }

def channelOutputRateHz (c : Channelizer) (id : ℕ) : Option ℕ :=
  (c.find id).map VirtualChannel.outputRateHz

def channelCenterHz (c : Channelizer) (id : ℕ) : Option ℕ :=
  (c.find id).map VirtualChannel.centerFreqHz

/-- `retune`: the wideband capture moves, and every tap keeps its absolute frequency. -/
def retune (c : Channelizer) (newWidebandCenterHz : ℕ) : Channelizer :=
  { c with widebandCenterHz := newWidebandCenterHz }

/-! ## Lookups -/

theorem find_append (c : Channelizer) (tap : VirtualChannel) (next id : ℕ) :
    ({ c with channels := c.channels ++ [tap], nextId := next } : Channelizer).find id =
      (c.find id).or (if tap.id = id then some tap else none) := by
  unfold find
  rw [List.find?_append, List.find?_singleton]
  simp

theorem find_removeChannel_ne (c : Channelizer) {id j : ℕ} (h : j ≠ id) :
    (c.removeChannel id).find j = c.find j := by
  unfold find removeChannel
  rw [List.find?_filter]
  congr 1
  funext channel
  by_cases hj : channel.id = j
  · simp [hj, h]
  · simp [hj]

theorem find_replaceTap_self {id : ℕ} {tap : VirtualChannel} (htap : tap.id = id)
    {l : List VirtualChannel} (h : (l.find? fun channel => channel.id = id).isSome) :
    (replaceTap id tap l).find? (fun channel => channel.id = id) = some tap := by
  induction l with
  | nil => simp at h
  | cons channel rest ih =>
    by_cases hid : channel.id = id
    · simp [replaceTap, hid, htap]
    · simp only [List.find?_cons, hid, decide_false] at h
      simp [replaceTap, hid, ih h]

theorem find_replaceTap_ne {id j : ℕ} {tap : VirtualChannel} (htap : tap.id = id) (h : j ≠ id)
    (l : List VirtualChannel) :
    (replaceTap id tap l).find? (fun channel => channel.id = j) =
      l.find? fun channel => channel.id = j := by
  induction l with
  | nil => rfl
  | cons channel rest ih =>
    by_cases hid : channel.id = id
    · simp [replaceTap, hid, htap, h.symm]
    · simp [replaceTap, hid, List.find?_cons, ih]

/-! ## What each operation does -/

section Operations

open Fallible

/-- A new tap takes the next id and goes to the end of the registry. -/
theorem addChannel_spec (c₀ : Channelizer) (hz rate : ℕ) :
    Triple (fun c => c = c₀) (addChannel hz rate)
      (fun id c => id = c₀.nextId ∧
        c = { c₀ with channels := c₀.channels ++ [c₀.tap c₀.nextId hz rate],
                      nextId := c₀.nextId + 1 })
      (fun c => c = c₀) := by
  unfold addChannel
  apply Triple.bind (Q := fun c s => c = c₀ ∧ s = c₀)
  · exact Triple.get fun s hs => ⟨hs, hs⟩
  intro c
  apply Triple.bind (Q := fun _ s => c = c₀ ∧ s = c₀)
  · exact Triple.ensure (fun _ _ hs => hs) (fun _ hs => hs.2)
  intro _
  apply Triple.bind (Q := fun _ s => c = c₀ ∧ s = c₀)
  · exact Triple.ensure (fun _ _ hs => hs) (fun _ hs => hs.2)
  intro _
  apply Triple.bind (Q := fun _ s => c = c₀ ∧
    s = { c₀ with channels := c₀.channels ++ [c₀.tap c₀.nextId hz rate],
                  nextId := c₀.nextId + 1 })
  · exact Triple.modify fun s hs => ⟨hs.1, by rw [hs.2]⟩
  intro _
  exact Triple.ret fun s hs => ⟨by rw [hs.1], hs.2⟩

/-- A retune needs the tap, and replaces it. -/
theorem retuneChannel_spec (c₀ : Channelizer) (id hz rate : ℕ) :
    Triple (fun c => c = c₀) (retuneChannel id hz rate)
      (fun _ c => (c₀.find id).isSome = true ∧
        c = { c₀ with channels := replaceTap id (c₀.tap id hz rate) c₀.channels })
      (fun c => c = c₀) := by
  unfold retuneChannel
  apply Triple.bind (Q := fun c s => c = c₀ ∧ s = c₀)
  · exact Triple.get fun s hs => ⟨hs, hs⟩
  intro c
  apply Triple.bind (Q := fun _ s => c = c₀ ∧ s = c₀)
  · exact Triple.ensure (fun _ _ hs => hs) (fun _ hs => hs.2)
  intro _
  apply Triple.bind (Q := fun _ s => c = c₀ ∧ s = c₀)
  · exact Triple.ensure (fun _ _ hs => hs) (fun _ hs => hs.2)
  intro _
  apply Triple.bind (Q := fun _ s => (c₀.find id).isSome = true ∧ s = c₀)
  · exact Triple.ensure (fun hfind _ hs => ⟨by rw [← hs.1]; exact hfind, hs.2⟩)
      (fun _ hs => hs.2)
  intro _
  exact Triple.modify fun s hs => ⟨hs.1, by rw [hs.2]⟩

/-- The rate changes only in an empty registry. -/
theorem setWidebandRateHz_spec (c₀ : Channelizer) (hz : ℕ) :
    Triple (fun c => c = c₀) (setWidebandRateHz hz)
      (fun _ c => c₀.channels = [] ∧ c = { c₀ with widebandRateHz := hz })
      (fun c => c = c₀) := by
  unfold setWidebandRateHz
  apply Triple.bind (Q := fun c s => c = c₀ ∧ s = c₀)
  · exact Triple.get fun s hs => ⟨hs, hs⟩
  intro c
  apply Triple.bind (Q := fun _ s => c = c₀ ∧ s = c₀)
  · exact Triple.ensure (fun _ _ hs => hs) (fun _ hs => hs.2)
  intro _
  apply Triple.bind (Q := fun _ s => c₀.channels = [] ∧ s = c₀)
  · exact Triple.ensure (fun hempty _ hs => ⟨by rw [← hs.1]; exact hempty, hs.2⟩)
      (fun _ hs => hs.2)
  intro _
  exact Triple.modify fun s hs => ⟨hs.1, by rw [hs.2]⟩

end Operations

end Channelizer

end Daemon
