import EzSdr.Framework.Frames
import EzSdr.Framework.Machine

/-! # The Buffer in front of the Sound Card

    The audio callback takes the chunks that have arrived, drops what is older
    than the backlog allows, and plays one frame of input for every frame of
    the device.

    **`playback_alignment`**: what is played are frames of the input, cut from
    its very start, in order; only the oldest frames are dropped, whole and no
    more than necessary. -/

namespace AudioOutput

open List (wholeFrames)

/-! ## Section 1: The buffer -/

/-- The arithmetic on input samples `σ` and device samples `τ`. -/
structure OutputArithmetic (σ τ : Type*) where
  zero       : σ
  /-- Samples that are not finite become zero, all others are clipped. -/
  clean      : σ → σ
  /-- `(left + right) * 0.5`. -/
  mix        : σ → σ → σ
  fromSample : σ → τ

/-- The callback's buffer, and the chunks waiting in its receiver. -/
structure AudioBuffer (σ : Type*) where
  /-- Chunks in the receiver, oldest first. -/
  input         : List (List σ)
  /-- The receiver is shared, and may be locked by someone else. -/
  shared        : Bool
  samples       : List σ
  inputChannels : ℕ
  backlogLimit  : ℕ
  /-- The engine refuses all other channel counts. -/
  channels_ok   : inputChannels = 1 ∨ inputChannels = 2
  backlog_ok    : inputChannels ≤ backlogLimit

variable {σ τ : Type*}

theorem limit_ok (sampleRate inputChannels : ℕ) :
    inputChannels ≤ max (sampleRate / 5) 1 * inputChannels :=
  Nat.le_mul_of_pos_left _ (lt_of_lt_of_le Nat.zero_lt_one (le_max_right _ _))

/-- `AudioBuffer::new`: a fifth of a second is kept at most. -/
def AudioBuffer.new (shared : Bool) (inputChannels sampleRate : ℕ)
    (h : inputChannels = 1 ∨ inputChannels = 2) : AudioBuffer σ where
  input := []
  shared := shared
  samples := []
  inputChannels := inputChannels
  backlogLimit := max (sampleRate / 5) 1 * inputChannels
  channels_ok := h
  backlog_ok := limit_ok sampleRate inputChannels

/-- What must go from `length` samples: whole frames, down to the limit. -/
def discard (channels limit length : ℕ) : ℕ :=
  (length - limit + channels - 1) / channels * channels

/-- One chunk arrives. -/
def appendChunk (channels limit : ℕ) (samples chunk : List σ) : List σ :=
  let discard := discard channels limit (samples.length + chunk.length)
  let oldDiscard := min discard samples.length
  samples.drop oldDiscard ++ chunk.drop (discard - oldDiscard)

/-- At most this many chunks are taken by one callback. -/
def maxChunks : ℕ := 32

/-- The chunks taken now; a shared receiver that is locked gives none. -/
def AudioBuffer.taken (b : AudioBuffer σ) (locked : Bool) : List (List σ) :=
  if b.shared && locked then [] else b.input.take maxChunks

def AudioBuffer.takeInput (b : AudioBuffer σ) (locked : Bool) : AudioBuffer σ :=
  { b with
    input := b.input.drop (b.taken locked).length
    samples := (b.taken locked).foldl (appendChunk b.inputChannels b.backlogLimit) b.samples }

/-- `frames` frames of the device: each takes one frame of the input, or is silent when
    less than one frame is left. -/
def playFrames (channels : ℕ) : ℕ → List σ → List (Option (List σ)) × List σ
  | 0, samples => ([], samples)
  | frames + 1, samples =>
    if channels ≤ samples.length then
      let rest := playFrames channels frames (samples.drop channels)
      (some (samples.take channels) :: rest.1, rest.2)
    else
      -- a frame that is split stays until the next chunk
      let rest := playFrames channels frames samples
      (none :: rest.1, rest.2)

/-- Left and right of a frame. -/
def leftRight (A : OutputArithmetic σ τ) (inputChannels : ℕ) : Option (List σ) → σ × σ
  | none => (A.zero, A.zero)
  | some frame =>
    let left := A.clean (frame[0]?.getD A.zero)
    (left, if inputChannels = 2 then A.clean (frame[1]?.getD A.zero) else left)

/-- A frame as `width` samples of the device. -/
def render (A : OutputArithmetic σ τ) (inputChannels width : ℕ) (frame : Option (List σ)) :
    List τ :=
  let (left, right) := leftRight A inputChannels frame
  if inputChannels = 1 then List.replicate width (A.fromSample left)
  else if width = 1 then [A.fromSample (A.mix left right)]
  else A.fromSample left :: A.fromSample right ::
    List.replicate (width - 2) (A.fromSample A.zero)

/-- What a callback leaves behind: the device samples, and for the record the chunks it
    took and what each device frame played. -/
structure Filled (σ τ : Type*) where
  data   : List τ
  taken  : List (List σ)
  played : List (Option (List σ))

/-- `AudioBuffer::fill` of `length` device samples. -/
def AudioBuffer.fill (A : OutputArithmetic σ τ) (b : AudioBuffer σ) (length channels : ℕ)
    (locked : Bool) : AudioBuffer σ × Filled σ τ :=
  let width := max channels 1
  let after := b.takeInput locked
  let played := playFrames b.inputChannels (length / width) after.samples
  ({ after with samples := played.2 },
    { data := (played.1.map (render A b.inputChannels width)).flatten ++
        List.replicate (length % width) (A.fromSample A.zero)
      taken := b.taken locked
      played := played.1 })

/-! ## Section 2: Discarding -/

section Discard

variable {channels limit : ℕ}

/-- Dropping over the boundary of old and new is dropping from both together. -/
theorem appendChunk_eq (samples chunk : List σ) :
    appendChunk channels limit samples chunk =
      (samples ++ chunk).drop (discard channels limit (samples.length + chunk.length)) := by
  rw [appendChunk, List.drop_append]
  rcases Nat.le_total (discard channels limit (samples.length + chunk.length)) samples.length
    with h | h
  · rw [Nat.min_eq_left h]
    simp [Nat.sub_eq_zero_of_le h]
  · rw [Nat.min_eq_right h, List.drop_length, List.drop_eq_nil_of_le h]

theorem discard_dvd (length : ℕ) : channels ∣ discard channels limit length :=
  Nat.dvd_mul_left _ _

variable (hch : channels = 1 ∨ channels = 2) (hlimit : channels ≤ limit)

include hch in
theorem discard_enough (length : ℕ) : length - discard channels limit length ≤ limit := by
  unfold discard
  rcases hch with rfl | rfl <;> omega

include hch hlimit in
theorem discard_le (length : ℕ) : discard channels limit length ≤ length := by
  unfold discard
  rcases hch with rfl | rfl <;> omega

include hch in
/-- No more whole frames than needed. -/
theorem discard_least {length d : ℕ} (hd : channels ∣ d) (henough : length - d ≤ limit) :
    discard channels limit length ≤ d := by
  obtain ⟨k, rfl⟩ := hd
  unfold discard
  rcases hch with rfl | rfl <;> omega

include hch hlimit in
/-- What the chunks before had to push out is never too much for the chunks to come. -/
theorem discard_add (length more : ℕ) :
    discard channels limit length +
      discard channels limit (length - discard channels limit length + more) =
      discard channels limit (length + more) := by
  unfold discard
  rcases hch with rfl | rfl <;> omega

include hch hlimit in
/-- **Chunk after chunk, or all at once**: the same samples are left. -/
theorem foldl_appendChunk (chunks : List (List σ)) :
    ∀ all : List σ,
      chunks.foldl (appendChunk channels limit) (all.drop (discard channels limit all.length)) =
        (all ++ chunks.flatten).drop (discard channels limit (all ++ chunks.flatten).length) := by
  induction chunks with
  | nil =>
    intro all
    simp
  | cons chunk chunks ih =>
    intro all
    have hstep : appendChunk channels limit (all.drop (discard channels limit all.length)) chunk =
        (all ++ chunk).drop (discard channels limit (all ++ chunk).length) := by
      have hle := discard_le hch hlimit all.length
      rw [appendChunk_eq, List.length_drop, ← List.drop_append_of_le_length hle, List.drop_drop,
        discard_add hch hlimit, List.length_append]
    rw [List.foldl_cons, hstep, ih, List.append_assoc, List.flatten_cons]

include hch in
theorem discard_of_le {length : ℕ} (h : length ≤ limit) : discard channels limit length = 0 := by
  unfold discard
  rcases hch with rfl | rfl <;> omega

end Discard

theorem AudioBuffer.channels_pos (b : AudioBuffer σ) : 0 < b.inputChannels := by
  rcases b.channels_ok with h | h <;> omega

/-- The samples after taking input: old and new, less the oldest whole frames. -/
theorem takeInput_samples {b : AudioBuffer σ} (h : b.samples.length ≤ b.backlogLimit)
    (locked : Bool) :
    (b.takeInput locked).samples =
      (b.samples ++ (b.taken locked).flatten).drop (discard b.inputChannels b.backlogLimit
        (b.samples ++ (b.taken locked).flatten).length) := by
  have hfold := foldl_appendChunk b.channels_ok b.backlog_ok (b.taken locked) b.samples
  rwa [discard_of_le b.channels_ok h, List.drop_zero] at hfold

/-! ## Section 3: Playing -/

/-- **Every device frame takes the next frame of the input**, until none is left. -/
theorem playFrames_eq {channels : ℕ} (hch : 0 < channels) (frames : ℕ) :
    ∀ samples : List σ,
      playFrames channels frames samples =
        (((wholeFrames channels samples).take frames).map some ++
            List.replicate (frames - samples.length / channels) none,
          samples.drop (min frames (samples.length / channels) * channels)) := by
  induction frames with
  | zero =>
    intro samples
    simp [playFrames]
  | succ frames ih =>
    intro samples
    rw [playFrames]
    split
    next h =>
      have hfirst : (samples.take channels).length = channels := by
        rw [List.length_take]
        exact Nat.min_eq_left h
      have hframes : wholeFrames channels samples =
          samples.take channels :: wholeFrames channels (samples.drop channels) := by
        rw [← List.wholeFrames_cons hch hfirst, List.take_append_drop]
      have hcount : samples.length / channels = (samples.drop channels).length / channels + 1 := by
        rw [List.length_drop]
        exact Nat.div_eq_sub_div hch h
      rw [ih, hframes, hcount, List.take_succ_cons, List.map_cons, List.cons_append,
        Nat.add_sub_add_right, Nat.add_min_add_right, Nat.succ_mul, List.drop_drop,
        Nat.add_comm channels]
    next h =>
      -- less than one frame: silence from here on
      have hlt := Nat.lt_of_not_le h
      rw [ih, List.wholeFrames_of_lt hlt, Nat.div_eq_of_lt hlt]
      simp [List.replicate_succ]

/-! ## Section 4: Runs -/

inductive Input (σ : Type*) where
  /-- A chunk arrives in the receiver. -/
  | send (chunk : List σ)
  /-- The device asks for `length` samples for `channels` channels. -/
  | fill (length channels : ℕ) (locked : Bool)

/-- The buffer and its producer. -/
def machine (A : OutputArithmetic σ τ) (b : AudioBuffer σ) :
    Machine (AudioBuffer σ) (Input σ) (Option (Filled σ τ)) where
  init := b
  step b
    | .send chunk => some ({ b with input := b.input ++ [chunk] }, none)
    | .fill length channels locked =>
      let (b, filled) := b.fill A length channels locked
      some (b, some filled)

abbrev Event (σ τ : Type*) := Machine.Event (AudioBuffer σ) (Input σ) (Option (Filled σ τ))

/-- All chunks sent. -/
def sent (h : List (Event σ τ)) : List (List σ) :=
  h.filterMap fun e => match e.input with
    | .send chunk => some chunk
    | .fill _ _ _ => none

/-- All chunks taken from the receiver. -/
def takenIn (h : List (Event σ τ)) : List (List σ) :=
  h.flatMap fun e => (e.output.map Filled.taken).getD []

/-- All input frames played, silence left out. -/
def playedIn (h : List (Event σ τ)) : List (List σ) :=
  h.flatMap fun e => ((e.output.map Filled.played).getD []).reduceOption

/-- What one callback does to the buffer `b` for `length` samples of the device. -/
structure Aligned (A : OutputArithmetic σ τ) (b after : AudioBuffer σ) (length channels : ℕ)
    (locked : Bool) (filled : Filled σ τ) : Prop where
  /-- Taking input drops the oldest whole frames, and no more than needed. -/
  oldest : ∃ d, b.inputChannels ∣ d ∧
    (b.takeInput locked).samples = (b.samples ++ filled.taken.flatten).drop d ∧
    ∀ d', b.inputChannels ∣ d' →
      (b.samples ++ filled.taken.flatten).length - d' ≤ b.backlogLimit → d ≤ d'
  bounded : (b.takeInput locked).samples.length ≤ b.backlogLimit
  /-- Every device frame plays the next frame, until none is left. -/
  frames : filled.played =
    ((wholeFrames b.inputChannels (b.takeInput locked).samples).take
        (length / max channels 1)).map some ++
      List.replicate (length / max channels 1 -
        (b.takeInput locked).samples.length / b.inputChannels) none
  retained : after.samples = (b.takeInput locked).samples.drop
    (filled.played.reduceOption.length * b.inputChannels)
  silence : none ∈ filled.played → after.samples.length < b.inputChannels
  /-- The device frames, and the silent rest that makes no frame. -/
  data : filled.data =
    (filled.played.map (render A b.inputChannels (max channels 1))).flatten ++
      List.replicate (length % max channels 1) (A.fromSample A.zero)
  complete : filled.data.length = length

/-! ## Section 5: Alignment -/

theorem length_render (A : OutputArithmetic σ τ) (inputChannels : ℕ) {width : ℕ} (hw : 1 ≤ width)
    (frame : Option (List σ)) : (render A inputChannels width frame).length = width := by
  unfold render
  split
  split
  · rw [List.length_replicate]
  · split
    next h => rw [h, List.length_singleton]
    next h =>
      rw [List.length_cons, List.length_cons, List.length_replicate]
      omega

theorem length_flatten_render (A : OutputArithmetic σ τ) (inputChannels : ℕ) {width : ℕ}
    (hw : 1 ≤ width) (frames : List (Option (List σ))) :
    (frames.map (render A inputChannels width)).flatten.length = frames.length * width := by
  induction frames with
  | nil => simp
  | cons frame frames ih =>
    rw [List.map_cons, List.flatten_cons, List.length_append, length_render A _ hw, ih,
      List.length_cons, Nat.succ_mul, Nat.add_comm]

theorem reduceOption_some_append_none {α : Type*} (l : List α) (n : ℕ) :
    (l.map some ++ List.replicate n none).reduceOption = l := by
  rw [List.reduceOption_append, List.reduceOption_replicate_none, List.append_nil]
  induction l with
  | nil => rfl
  | cons a l ih => rw [List.map_cons, List.reduceOption_cons_of_some, ih]

/-- The frames one callback plays. -/
theorem fill_played (A : OutputArithmetic σ τ) (b : AudioBuffer σ) (length channels : ℕ)
    (locked : Bool) :
    (b.fill A length channels locked).2.played.reduceOption =
      (wholeFrames b.inputChannels (b.takeInput locked).samples).take
        (length / max channels 1) := by
  show (playFrames _ _ _).1.reduceOption = _
  rw [playFrames_eq b.channels_pos, reduceOption_some_append_none]

theorem fill_aligned (A : OutputArithmetic σ τ) {b : AudioBuffer σ}
    (h : b.samples.length ≤ b.backlogLimit) (length channels : ℕ) (locked : Bool) :
    Aligned A b (b.fill A length channels locked).1 length channels locked
      (b.fill A length channels locked).2 := by
  have hpos := b.channels_pos
  have hplay := playFrames_eq hpos (length / max channels 1) (b.takeInput locked).samples
  have hcount : (b.fill A length channels locked).2.played.reduceOption.length =
      min (length / max channels 1) ((b.takeInput locked).samples.length / b.inputChannels) := by
    rw [fill_played, List.length_take, List.length_wholeFrames]
  have hplayed : (b.fill A length channels locked).2.played =
      ((wholeFrames b.inputChannels (b.takeInput locked).samples).take
          (length / max channels 1)).map some ++
        List.replicate (length / max channels 1 -
          (b.takeInput locked).samples.length / b.inputChannels) none :=
    congrArg Prod.fst hplay
  have hafter : (b.fill A length channels locked).1.samples =
      (b.takeInput locked).samples.drop (min (length / max channels 1)
        ((b.takeInput locked).samples.length / b.inputChannels) * b.inputChannels) :=
    congrArg Prod.snd hplay
  constructor
  case oldest =>
    have hleast := fun d hd henough => @discard_least _ b.backlogLimit b.channels_ok
      (b.samples ++ (b.taken locked).flatten).length d hd henough
    exact ⟨_, discard_dvd _, takeInput_samples h locked, hleast⟩
  case bounded =>
    rw [takeInput_samples h locked, List.length_drop]
    exact discard_enough b.channels_ok _
  case frames => exact hplayed
  case retained => rw [hcount, hafter]
  case silence =>
    intro hnone
    rw [hplayed, List.mem_append] at hnone
    have hshort : (b.takeInput locked).samples.length / b.inputChannels <
        length / max channels 1 := by
      rcases hnone with hnone | hnone
      · obtain ⟨frame, -, hsome⟩ := List.mem_map.1 hnone
        cases hsome
      · have := (List.mem_replicate.1 hnone).1
        omega
    -- all whole frames are gone, so what is left is the remainder of the division
    rw [hafter, Nat.min_eq_right hshort.le, List.length_drop, Nat.mul_comm,
      ← Nat.mod_eq_sub_mul_div]
    exact Nat.mod_lt _ hpos
  case data => exact rfl
  case complete =>
    have hlen : (b.fill A length channels locked).2.played.length = length / max channels 1 := by
      rw [hplayed, List.length_append, List.length_map, List.length_take, List.length_replicate,
        List.length_wholeFrames]
      omega
    show (List.flatten _ ++ _).length = length
    rw [List.length_append, List.length_replicate,
      length_flatten_render A _ (le_max_right channels 1)]
    show (b.fill A length channels locked).2.played.length * _ + _ = length
    rw [hlen]
    exact Nat.div_add_mod' _ _

/-- The input taken so far is what was played or dropped, and what is buffered. -/
structure Cut (b₀ : AudioBuffer σ) (h : List (Event σ τ)) (b : AudioBuffer σ) : Prop where
  channels : b.inputChannels = b₀.inputChannels
  bounded  : b.samples.length ≤ b.backlogLimit
  received : takenIn h ++ b.input = sent h
  passed   : ∃ past, (takenIn h).flatten = past ++ b.samples ∧ b₀.inputChannels ∣ past.length ∧
    (playedIn h).Sublist (wholeFrames b₀.inputChannels past)

section Append

variable (h : List (Event σ τ)) (e : Event σ τ)

theorem takenIn_append :
    takenIn (h ++ [e]) = takenIn h ++ (e.output.map Filled.taken).getD [] := by
  simp [takenIn]

theorem playedIn_append :
    playedIn (h ++ [e]) =
      playedIn h ++ ((e.output.map Filled.played).getD []).reduceOption := by
  simp [playedIn]

theorem sent_append : sent (h ++ [e]) = sent h ++ sent [e] := List.filterMap_append

end Append

theorem cut_send {b₀ b : AudioBuffer σ} {h : List (Event σ τ)} (hcut : Cut b₀ h b)
    (chunk : List σ) :
    Cut b₀ (h ++ [⟨b, .send chunk, none, { b with input := b.input ++ [chunk] }⟩])
      { b with input := b.input ++ [chunk] } where
  channels := hcut.channels
  bounded := hcut.bounded
  received := by
    rw [takenIn_append, sent_append, ← hcut.received]
    simp [sent]
  passed := by
    obtain ⟨past, hpast, hdvd, hplayed⟩ := hcut.passed
    refine ⟨past, ?_, hdvd, ?_⟩
    · simpa [takenIn_append] using hpast
    · simpa [playedIn_append, List.reduceOption] using hplayed

theorem taken_append (b : AudioBuffer σ) (locked : Bool) :
    b.taken locked ++ (b.takeInput locked).input = b.input := by
  unfold AudioBuffer.takeInput AudioBuffer.taken
  split
  · rfl
  · rw [List.length_take]
    rcases Nat.le_total maxChunks b.input.length with h | h
    · rw [Nat.min_eq_left h, List.take_append_drop]
    · rw [Nat.min_eq_right h, List.drop_length, List.take_of_length_le h, List.append_nil]

/-- **One callback** goes on cutting where the last one stopped. -/
theorem cut_fill (A : OutputArithmetic σ τ) {b₀ b : AudioBuffer σ} {h : List (Event σ τ)}
    (hcut : Cut b₀ h b) (length channels : ℕ) (locked : Bool) :
    Cut b₀ (h ++ [⟨b, .fill length channels locked, some (b.fill A length channels locked).2,
        (b.fill A length channels locked).1⟩])
      (b.fill A length channels locked).1 := by
  have hpos := b.channels_pos
  have haligned := fill_aligned A hcut.bounded length channels locked
  obtain ⟨past, hpast, ⟨k, hk⟩, hplayed⟩ := hcut.passed
  -- what was buffered and taken: `dropped`, then `kept`
  have hkept := takeInput_samples hcut.bounded locked
  have hle := discard_le b.channels_ok b.backlog_ok
    (b.samples ++ (b.taken locked).flatten).length
  obtain ⟨j, hj⟩ := @discard_dvd b.inputChannels b.backlogLimit
    (b.samples ++ (b.taken locked).flatten).length
  rw [hj] at hkept hle
  have hsplit := List.take_append_drop (b.inputChannels * j)
    (b.samples ++ (b.taken locked).flatten)
  have hdropped := List.length_take_of_le hle
  rw [← hkept] at hsplit
  generalize List.take _ _ = dropped at hsplit hdropped
  set kept := (b.takeInput locked).samples
  -- of `kept`, the frames played and the rest
  have hframes := fill_played A b length channels locked
  have hcount : (b.fill A length channels locked).2.played.reduceOption.length *
      b.inputChannels ≤ kept.length := by
    rw [hframes, List.length_take, List.length_wholeFrames]
    exact (Nat.mul_le_mul_right _ (min_le_right _ _)).trans (Nat.div_mul_le_self _ _)
  have hcut' : (b.fill A length channels locked).2.played.reduceOption =
      wholeFrames b.inputChannels (kept.take
        ((b.fill A length channels locked).2.played.reduceOption.length * b.inputChannels)) := by
    rw [List.wholeFrames_take hpos _ _ hcount]
    conv_lhs => rw [hframes]
    rw [hframes, List.length_take, List.take_eq_take_iff]
    omega
  have hretained := haligned.retained
  have hlen := List.length_take_of_le hcount
  have hrest := List.take_append_drop
    ((b.fill A length channels locked).2.played.reduceOption.length * b.inputChannels) kept
  rw [← hretained] at hrest
  generalize kept.take _ = now at hcut' hlen hrest
  rw [← hcut.channels] at hk hplayed
  constructor
  case channels => exact hcut.channels
  case bounded =>
    rw [hretained, List.length_drop]
    exact (Nat.sub_le _ _).trans haligned.bounded
  case received =>
    rw [takenIn_append, sent_append, ← hcut.received]
    show takenIn h ++ b.taken locked ++ (b.takeInput locked).input = _
    rw [List.append_assoc, taken_append]
    simp [sent]
  case passed =>
    rw [← hcut.channels]
    refine ⟨past ++ (dropped ++ now), ?_, ?_, ?_⟩
    · rw [takenIn_append, List.flatten_append, hpast]
      show past ++ b.samples ++ (b.taken locked).flatten = _
      rw [List.append_assoc, List.append_assoc, List.append_assoc, hrest, hsplit]
    · rw [List.length_append, List.length_append, hk, hdropped, hlen]
      exact dvd_add (dvd_mul_right _ _) (dvd_add (dvd_mul_right _ _) (dvd_mul_left _ _))
    · have hpastFrames := List.wholeFrames_append hpos k (by rw [hk, Nat.mul_comm])
        (dropped ++ now)
      have hdroppedFrames := List.wholeFrames_append hpos j (by rw [hdropped, Nat.mul_comm]) now
      rw [playedIn_append, hpastFrames, hdroppedFrames]
      show (_ ++ (b.fill A length channels locked).2.played.reduceOption).Sublist _
      rw [hcut']
      -- frames that were dropped are missing, and that is all
      exact hplayed.append (List.sublist_append_right _ _)

/-! ## Section 6: The main theorem -/

/-- **Playback never loses its place.** Whatever chunks are sent and whatever the device
    asks for, the frames played are frames of the input cut from its very start, in order,
    and each callback is `Aligned`. -/
theorem playback_alignment (A : OutputArithmetic σ τ) (shared : Bool)
    (inputChannels sampleRate : ℕ) (hch : inputChannels = 1 ∨ inputChannels = 2)
    (is : List (Input σ)) :
    ∃ t h, (machine A (AudioBuffer.new shared inputChannels sampleRate hch)).run
        (AudioBuffer.new shared inputChannels sampleRate hch) is = some (t, h) ∧
      takenIn h ++ t.input = sent h ∧
      (playedIn h).Sublist (wholeFrames inputChannels (takenIn h).flatten) ∧
      ∀ e ∈ h, ∀ length channels locked, e.input = .fill length channels locked →
        ∃ filled, e.output = some filled ∧
          Aligned A e.before e.after length channels locked filled := by
  have hinit : Cut (AudioBuffer.new shared inputChannels sampleRate hch) ([] : List (Event σ τ))
      (AudioBuffer.new shared inputChannels sampleRate hch) :=
    ⟨rfl, Nat.zero_le _, rfl, [], rfl, dvd_zero _, List.nil_sublist _⟩
  obtain ⟨t, h, hrun, hcut, hsteps⟩ := (machine A (AudioBuffer.new shared inputChannels
    sampleRate hch)).run_safe_steps (I := fun _ => True)
    (Q := fun _ e => ∀ length channels locked, e.input = .fill length channels locked →
      ∃ filled, e.output = some filled ∧
        Aligned A e.before e.after length channels locked filled) hinit
    (by
      intro h b i hcut _
      cases i with
      | send chunk =>
        refine ⟨_, _, rfl, cut_send hcut chunk, ?_⟩
        intro length channels locked hinput
        cases hinput
      | fill length channels locked =>
        refine ⟨_, _, rfl, cut_fill A hcut length channels locked, ?_⟩
        intro length' channels' locked' hinput
        cases hinput
        exact ⟨_, rfl, fill_aligned A hcut.bounded length channels locked⟩)
    is (fun _ _ => trivial)
  refine ⟨t, h, hrun, hcut.received, ?_, fun e he => ?_⟩
  · obtain ⟨past, hpast, -, hplayed⟩ := hcut.passed
    rw [hpast]
    exact hplayed.trans (List.wholeFrames_prefix _ _ _).sublist
  · obtain ⟨past, later, heq⟩ := List.append_of_mem he
    exact hsteps past e later heq

/-- Samples as they are. -/
def plainArithmetic : OutputArithmetic ℤ ℤ := ⟨0, id, fun left right => (left + right) / 2, id⟩

/-- A stereo frame that is split by two chunks, on a device with two channels. -/
theorem playback_alignment_splitFrame :
    ∃ t h, (machine plainArithmetic (AudioBuffer.new false 2 10 (.inr rfl))).run
        (AudioBuffer.new false 2 10 (.inr rfl))
        [.send [1, 2, 3], .fill 4 2 false, .send [4, 5, 6], .fill 4 2 false] = some (t, h) ∧
      takenIn h ++ t.input = sent h ∧
      (playedIn h).Sublist (wholeFrames 2 (takenIn h).flatten) ∧
      ∀ e ∈ h, ∀ length channels locked, e.input = .fill length channels locked →
        ∃ filled, e.output = some filled ∧
          Aligned plainArithmetic e.before e.after length channels locked filled :=
  playback_alignment plainArithmetic false 2 10 (.inr rfl)
    [.send [1, 2, 3], .fill 4 2 false, .send [4, 5, 6], .fill 4 2 false]

/-- Three samples for a stereo device hold one frame. The third is silent, although a
    whole frame is still buffered. -/
theorem silence_while_buffered :
    ∃ t h, (machine plainArithmetic (AudioBuffer.new false 2 48000 (.inr rfl))).run
        (AudioBuffer.new false 2 48000 (.inr rfl))
        [.send [10, 20, 30, 40], .fill 3 2 false] = some (t, h) ∧
      h.map (fun e => e.output.map Filled.data) = [none, some [10, 20, 0]] ∧
      t.samples = [30, 40] ∧ t.inputChannels = 2 := by
  exact ⟨_, _, rfl, rfl, rfl, rfl⟩

end AudioOutput
