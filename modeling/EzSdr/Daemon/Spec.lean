import EzSdr.Daemon.Channelizer

/-! # Channel Specifications

    What a client asks for when it creates or retunes a channel, and the
    checks the daemon makes against the wideband geometry before it allocates
    anything. Rates are compared as rationals where the code uses floats. -/

namespace Daemon

abbrev ChannelId : Type := ℕ

inductive PipelineKind where
  | spectrum
  | audio
  | adsbPackets
  | lrptTelemetry
  deriving DecidableEq

inductive DemodMode where
  | raw
  | am
  | fm
  | wfm
  | lsb
  | usb
  | dsb
  | cw
  deriving DecidableEq

structure AudioParameters where
  rfBandwidthHz      : ℕ
  outputSampleRateHz : ℕ
  stereo             : Bool
  cwToneHz           : ℕ
  deriving DecidableEq

/-- `AudioParameters::for_mode`. -/
def AudioParameters.forMode (mode : DemodMode) : AudioParameters where
  rfBandwidthHz := match mode with
    | .raw => 0
    | .am => 15000
    | .fm => 25000
    | .wfm => 180000
    | .lsb | .usb => 3300
    | .dsb => 4600
    | .cw => 200
  outputSampleRateHz := 48000
  stereo := false
  cwToneHz := 800

inductive MeteorProfile where
  | oqpsk72
  | oqpsk80Interleaved
  deriving DecidableEq

namespace MeteorProfile

def symbolRateHz : MeteorProfile → ℕ
  | oqpsk72 => 72000
  | oqpsk80Interleaved => 80000

def occupiedBandwidthHz (profile : MeteorProfile) : ℕ := profile.symbolRateHz * 3 / 2

def label : MeteorProfile → String
  | oqpsk72 => "OQPSK 72k · NRZ-M"
  | oqpsk80Interleaved => "OQPSK 80k · interleaved NRZ-M"

/-- `validate_mission_sampling`: four samples per symbol. -/
def validateMissionSampling (sampleRate : ℕ) (profile : MeteorProfile) : Except String Unit :=
  let minimum := profile.symbolRateHz * 4
  if sampleRate < minimum then
    .error (profile.label ++ " requires at least " ++ toString minimum ++
      " samples/s (four samples per symbol); got " ++ toString sampleRate)
  else .ok ()

end MeteorProfile

structure ChannelSpec where
  id                  : ChannelId
  kind                : PipelineKind
  centerOffsetHz      : ℤ
  channelSampleRateHz : ℕ
  demodMode           : Option DemodMode
  audio               : Option AudioParameters
  meteorProfile       : Option MeteorProfile
  deriving DecidableEq

/-! ## Section 1: Audio parameters -/

/-- Longest RF selection filter. -/
def maxTaps : ℕ := 32769

/-- `RfSelector::validate`. -/
def validateRfSelector (sampleRateHz : ℚ) (bandwidthHz : ℕ) : Except String ℕ :=
  if ¬ (100 ≤ sampleRateHz ∧ sampleRateHz ≤ 20000000) ∨ bandwidthHz = 0 ∨
      8 / 10 * sampleRateHz < bandwidthHz then
    .error "RF passband must be positive and fit within 80% of the channel clock"
  else
    let taps := ⌈80 * sampleRateHz / bandwidthHz⌉₊ ||| 1
    if maxTaps < taps then
      .error "RF selection exceeds the filter storage limit; reduce the channel sample rate"
    else .ok taps

/-- `AudioPipeline::validate_parameters`. -/
def validateParameters (mode : DemodMode) (parameters : AudioParameters) (channelRateHz : ℚ) :
    Except String Unit :=
  if ¬ (100 ≤ channelRateHz ∧ channelRateHz ≤ 20000000) then
    .error "audio channel rate must be finite and between 100 Hz and 20 MHz"
  else if parameters.outputSampleRateHz ≠ 0 ∧
      ¬ (8000 ≤ parameters.outputSampleRateHz ∧ parameters.outputSampleRateHz ≤ 384000) then
    .error "audio output rate must be 8..384 kS/s or zero to follow the channel clock"
  else if mode = .lsb ∨ mode = .usb then
    if parameters.rfBandwidthHz = 0 ∨ 44 / 100 * channelRateHz < parameters.rfBandwidthHz then
      .error "SSB one-sided RF extent must fit within 44% of the channel clock"
    else .ok ()
  else if mode = .cw then
    if parameters.rfBandwidthHz = 0 ∨ 8 / 10 * channelRateHz < parameters.rfBandwidthHz then
      .error "CW RF bandwidth must be positive and fit within 80% of the channel clock"
    else .ok ()
  else if mode ≠ .raw ∨ parameters.rfBandwidthHz ≠ 0 then
    match validateRfSelector channelRateHz parameters.rfBandwidthHz with
    | .error e => .error e
    | .ok _ => .ok ()
  else .ok ()

namespace ChannelSpec

def mode (spec : ChannelSpec) : DemodMode := spec.demodMode.getD .raw

/-- `resolved_audio`: the given parameters, or the defaults of the mode. -/
def resolvedAudio (spec : ChannelSpec) : AudioParameters :=
  spec.audio.getD
    (let p := AudioParameters.forMode spec.mode
     let fitting :=
       if spec.mode = .usb ∨ spec.mode = .lsb then spec.channelSampleRateHz * 44 / 100
       else spec.channelSampleRateHz * 8 / 10
     { p with rfBandwidthHz := min p.rfBandwidthHz fitting, outputSampleRateHz := 0 })

/-! ## Section 2: Validation -/

/-- The checks that depend on the kind of the channel. -/
def validateKind (spec : ChannelSpec) (widebandRate : ℕ) : Except String Unit :=
  match spec.kind with
  | .adsbPackets =>
    let decimation := widebandRate / spec.channelSampleRateHz
    let expected := spec.channelSampleRateHz * decimation
    if widebandRate ≠ expected then
      .error ("ADS-B cannot produce an exact 2.4 MHz clock from source rate " ++
        toString widebandRate ++ " Hz with integer decimation " ++ toString decimation ++
        "; expected " ++ toString expected ++ " Hz")
    else .ok ()
  | _ => .ok ()

def validateAudio (spec : ChannelSpec) (widebandRate : ℕ) : Except String Unit :=
  if spec.kind = .audio then
    let decimation := max (widebandRate / spec.channelSampleRateHz) 1
    validateParameters spec.mode spec.resolvedAudio ((widebandRate : ℚ) / decimation)
  else if spec.audio.isSome then
    .error "audio parameters are only supported on audio channels"
  else .ok ()

def validateMeteor (spec : ChannelSpec) (widebandRate : ℕ) : Except String Unit :=
  if spec.kind = .lrptTelemetry then
    match spec.meteorProfile with
    | none => .error "LRPT requires an explicit meteor_profile"
    | some profile =>
      if spec.channelSampleRateHz < profile.occupiedBandwidthHz then
        .error ("LRPT " ++ profile.label ++ " occupies " ++
          toString profile.occupiedBandwidthHz ++ " Hz; channel bandwidth " ++
          toString spec.channelSampleRateHz ++ " is too narrow")
      else
        let decimation := max (widebandRate / spec.channelSampleRateHz) 1
        profile.validateMissionSampling (widebandRate / decimation)
  else if spec.meteorProfile.isSome then
    .error "meteor_profile is only supported on LRPT channels"
  else .ok ()

/-- The channel lies inside the captured span: `|offset| + bandwidth/2 ≤ rate/2`. -/
def InSpan (spec : ChannelSpec) (widebandRate : ℕ) : Prop :=
  |spec.centerOffsetHz| + (spec.channelSampleRateHz / 2 : ℕ) ≤ (widebandRate / 2 : ℕ)

/-- The code adds with saturation at `i64::MAX`, which is above any half rate. -/
def validateSpan (spec : ChannelSpec) (widebandRate : ℕ) : Except String Unit :=
  let half : ℤ := (widebandRate / 2 : ℕ)
  if half < |spec.centerOffsetHz| + (spec.channelSampleRateHz / 2 : ℕ) then
    .error ("channel " ++ toString spec.id ++ " offset " ++ toString spec.centerOffsetHz ++
      " and bandwidth " ++ toString spec.channelSampleRateHz ++ " outside wideband ±" ++
      toString half ++ " Hz")
  else .ok ()

/-- `validate_spec` against a wideband rate. -/
def validate (spec : ChannelSpec) (widebandRate : ℕ) : Except String Unit := do
  if spec.channelSampleRateHz = 0 then
    .error ("channel " ++ toString spec.id ++ " bandwidth must be non-zero")
  else if spec.kind = .adsbPackets ∧ spec.channelSampleRateHz ≠ 2400000 then
    .error "ADS-B requires exactly 2.4 MHz bandwidth"
  else if widebandRate = 0 then
    .error "wideband rate is zero; cannot create channels"
  else if widebandRate < spec.channelSampleRateHz then
    .error ("channel " ++ toString spec.id ++ " bandwidth " ++
      toString spec.channelSampleRateHz ++ " exceeds wideband rate " ++ toString widebandRate)
  else
    spec.validateKind widebandRate
    spec.validateAudio widebandRate
    spec.validateMeteor widebandRate
    spec.validateSpan widebandRate

/-! ## Section 3: What a valid specification satisfies -/

theorem validateSpan_ok {spec : ChannelSpec} {widebandRate : ℕ}
    (h : spec.validateSpan widebandRate = .ok ()) : spec.InSpan widebandRate := by
  unfold validateSpan at h
  dsimp only at h
  split at h
  · cases h
  · next hspan => exact not_lt.1 hspan

/-- A valid specification passed every one of the four groups of checks. -/
theorem validate_ok {spec : ChannelSpec} {widebandRate : ℕ}
    (h : spec.validate widebandRate = .ok ()) :
    spec.validateMeteor widebandRate = .ok () ∧ spec.validateSpan widebandRate = .ok () := by
  unfold validate at h
  split_ifs at h
  cases hkind : spec.validateKind widebandRate with
  | error e => simp [hkind, bind, Except.bind] at h
  | ok =>
    cases haudio : spec.validateAudio widebandRate with
    | error e => simp [hkind, haudio, bind, Except.bind] at h
    | ok =>
      cases hmeteor : spec.validateMeteor widebandRate with
      | error e => simp [hkind, haudio, hmeteor, bind, Except.bind] at h
      | ok => exact ⟨rfl, by simpa [hkind, haudio, hmeteor, bind, Except.bind] using h⟩

/-- A valid specification lies inside the captured span. -/
theorem validate_inSpan {spec : ChannelSpec} {widebandRate : ℕ}
    (h : spec.validate widebandRate = .ok ()) : spec.InSpan widebandRate :=
  validateSpan_ok (validate_ok h).2

/-- A valid telemetry channel has a profile, and its output rate can carry it. -/
theorem validate_sampling {spec : ChannelSpec} {widebandRate : ℕ}
    (hkind : spec.kind = .lrptTelemetry) (h : spec.validate widebandRate = .ok ()) :
    ∃ profile, spec.meteorProfile = some profile ∧
      profile.validateMissionSampling
        (widebandRate / max (widebandRate / spec.channelSampleRateHz) 1) = .ok () := by
  have hmeteor := (validate_ok h).1
  unfold validateMeteor at hmeteor
  rw [if_pos hkind] at hmeteor
  split at hmeteor
  · cases hmeteor
  · next profile hprofile =>
    split at hmeteor
    · cases hmeteor
    · exact ⟨profile, hprofile, hmeteor⟩

end ChannelSpec

end Daemon
