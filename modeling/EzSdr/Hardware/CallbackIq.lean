import EzSdr.Framework.BoundedQueue
import EzSdr.Framework.Machine
import EzSdr.Ingest.Source

/-! # The Callback Bridge

    A driver hands over interleaved bytes in callbacks of any size. The
    producer cuts them into whole sample pairs, numbers the pairs before it
    offers them to a bounded queue, and counts what the queue refuses. The
    reader returns parts of one transfer at a time, and compares the number of
    the first pair with the one it expects.

    **`run_integrity`**: in every run on fewer than 2^64 pairs, every read is a
    piece of the device stream at the index it reports, flagged unless it
    continues the read before it, and every pair is delivered, waiting or
    counted as dropped. -/

namespace CallbackIq

open Ingest (CaptureClock)

abbrev Byte : Type := BitVec 8

/-! ## Section 1: The bridge -/

structure Transfer where
  firstSample : ℕ
  bytes       : List Byte
  deriving DecidableEq

structure Acquisition where
  nextSample       : ℕ
  pendingComponent : Option Byte
  deriving DecidableEq

structure CallbackReader where
  current        : Option Transfer
  consumed       : ℕ
  expectedSample : Option ℕ
  epoch          : ℕ
  lastClock      : Option CaptureClock
  deriving DecidableEq

/-- Both ends and the channel between them. The channel ends with its reader. -/
structure State where
  acquisition    : Acquisition
  droppedSamples : ℕ
  queue          : BoundedQueue Transfer
  reader         : Option CallbackReader
  producing      : Bool

/-- `channel`. -/
def channel (capacity : ℕ) (pos : 0 < capacity) (epoch : ℕ) : State where
  acquisition := ⟨0, none⟩
  droppedSamples := 0
  queue := BoundedQueue.empty capacity pos
  reader := some ⟨none, 0, none, epoch, none⟩
  producing := true

/-- Signed components are offset by half their range. -/
def sign (signed : Bool) (bytes : List Byte) : List Byte :=
  if signed then bytes.map (· ^^^ 0x80#8) else bytes

/-- Whole pairs, and the component that has to wait for the next callback. -/
def wholePairs (data : List Byte) : List Byte × Option Byte :=
  if data.length % 2 = 0 then (data, none) else (data.dropLast, data.getLast?)

/-- `try_send`, and the count of what was refused. -/
def offer (s : State) (transfer : Transfer) (samples : ℕ) : State × Bool :=
  match s.reader with
  | none => ({ s with droppedSamples := s.droppedSamples + samples }, false)
  | some _ =>
    match s.queue.trySend transfer with
    | some queue => ({ s with queue := queue }, true)
    | none => ({ s with droppedSamples := s.droppedSamples + samples }, true)

/-- `push`. -/
def push (signed : Bool) (s : State) (bytes : List Byte) : State × Bool :=
  let (data, pending) := wholePairs (s.acquisition.pendingComponent.toList ++ bytes)
  let s := { s with acquisition := { s.acquisition with pendingComponent := pending } }
  if data = [] then (s, true)
  else
    let samples := data.length / 2
    let firstSample := s.acquisition.nextSample
    -- `checked_add`
    if 2 ^ 64 ≤ firstSample + samples then (s, false)
    else
      let s := { s with acquisition := { s.acquisition with nextSample := firstSample + samples } }
      offer s ⟨firstSample, sign signed data⟩ samples

inductive Output where
  | pushed (ok : Bool)
  | samples (clock : CaptureClock) (bytes : List Byte)
  | timeout
  | ended
  | closed
  /-- The end that would be called is gone. -/
  | noCall
  deriving DecidableEq

/-- The second part of `read_with`: some pairs of the current transfer. -/
def deliver (s : State) (r : CallbackReader) (current : Transfer) (capacity rate : ℕ) :
    State × Output :=
  let firstSample := current.firstSample + r.consumed / 2
  let count := min capacity ((current.bytes.length - r.consumed) / 2)
  let bytes := (current.bytes.drop r.consumed).take (count * 2)
  let clock := { CaptureClock.new r.epoch firstSample rate none with
    discontinuous := decide (r.expectedSample ≠ some firstSample) }
  let consumed := r.consumed + count * 2
  let r := { r with
    current := if consumed = current.bytes.length then none else some current
    consumed := consumed
    expectedSample := some (firstSample + count)
    lastClock := some clock }
  ({ s with reader := some r }, .samples clock bytes)

/-- `read_with`. -/
def readWith (s : State) (r : CallbackReader) (capacity rate : ℕ) : State × Output :=
  match r.current with
  | some current => deliver s r current capacity rate
  | none =>
    match s.queue.tryRecv with
    | some (transfer, queue) =>
      deliver { s with queue := queue } { r with current := some transfer, consumed := 0 }
        transfer capacity rate
    | none => (s, if s.producing then .timeout else .ended)

inductive Input where
  | push (bytes : List Byte)
  | read (capacity : ℕ) (pos : 0 < capacity) (rate : ℕ)
  | dropProducer
  | dropReader

def step (signed : Bool) (s : State) : Input → State × Output
  | .push bytes =>
    if s.producing then
      let (s, ok) := push signed s bytes
      (s, .pushed ok)
    else (s, .noCall)
  | .read capacity _ rate =>
    match s.reader with
    | some r => readWith s r capacity rate
    | none => (s, .noCall)
  | .dropProducer => ({ s with producing := false }, .closed)
  | .dropReader =>
    ({ s with reader := none, queue := BoundedQueue.empty s.queue.capacity s.queue.pos }, .closed)

/-- The bridge as a machine. -/
def machine (signed : Bool) (capacity : ℕ) (pos : 0 < capacity) (epoch : ℕ) :
    Machine State Input Output where
  init := channel capacity pos epoch
  step := fun s input => some (step signed s input)

abbrev Ev : Type := Machine.Event State Input Output

/-! ## Section 2: What a run has produced and delivered -/

/-- The bytes an input adds to the device stream. -/
def Input.bytes : Input → List Byte
  | .push bytes => bytes
  | _ => []

/-- The device stream: the bytes of all callbacks that were made. -/
def stream (h : List Ev) : List Byte :=
  h.flatMap fun e => if e.before.producing then e.input.bytes else []

/-- The first pair and the number of pairs of a read. -/
def Output.range : Output → Option (ℕ × ℕ)
  | .samples clock bytes => some (clock.sourceSampleIndex, bytes.length / 2)
  | _ => none

/-- The reads of a run. -/
def delivered (h : List Ev) : List (ℕ × ℕ) := h.filterMap fun e => e.output.range

def deliveredPairs (h : List Ev) : ℕ := ((delivered h).map Prod.snd).sum

/-- The index after the last delivered pair. -/
def lastEnd (h : List Ev) : Option ℕ := (delivered h).getLast?.map fun range => range.1 + range.2

def Transfer.pairs (t : Transfer) : ℕ := t.bytes.length / 2

/-- What is left of the current transfer. -/
def CallbackReader.rest (r : CallbackReader) : Option Transfer :=
  r.current.map fun t => ⟨t.firstSample + r.consumed / 2, t.bytes.drop r.consumed⟩

/-- What the reader will return: the rest of its transfer, then the queue. -/
def unread (r : CallbackReader) (queue : List Transfer) : List Transfer := r.rest.toList ++ queue

def pairsOf (transfers : List Transfer) : ℕ := (transfers.map Transfer.pairs).sum

/-- A read is right, given the device stream and the read before it. -/
structure TrueRead (received : List Byte) (previous : Option ℕ) (clock : CaptureClock)
    (bytes : List Byte) : Prop where
  /-- Whole pairs, and at least one. -/
  whole : bytes.length % 2 = 0 ∧ bytes ≠ []
  /-- Every pair is the one of its index, and none is left out. -/
  exact : bytes <+: received.drop (2 * clock.sourceSampleIndex)
  flagged : clock.discontinuous = true ↔ previous ≠ some clock.sourceSampleIndex
  /-- No pair is delivered twice. -/
  forward : ∀ k, previous = some k → k ≤ clock.sourceSampleIndex

/-! ## Section 3: The producer -/

/-- The index of the next pair counts the pairs so far, and one component may be left over. -/
structure Acquired (a : Acquisition) (bytes : List Byte) : Prop where
  length : bytes.length = 2 * a.nextSample + a.pendingComponent.toList.length
  pending : bytes.drop (2 * a.nextSample) = a.pendingComponent.toList

/-- Whole pairs of the stream, at the index of the transfer. -/
structure Genuine (received : List Byte) (t : Transfer) : Prop where
  whole : t.bytes.length % 2 = 0 ∧ t.bytes ≠ []
  exact : t.bytes <+: received.drop (2 * t.firstSample)

theorem sign_length (signed : Bool) (bytes : List Byte) :
    (sign signed bytes).length = bytes.length := by
  unfold sign
  split
  · exact List.length_map _
  · rfl

theorem sign_append (signed : Bool) (a b : List Byte) :
    sign signed (a ++ b) = sign signed a ++ sign signed b := by
  unfold sign
  split
  · exact List.map_append
  · rfl

theorem sign_drop (signed : Bool) (n : ℕ) (bytes : List Byte) :
    sign signed (bytes.drop n) = (sign signed bytes).drop n := by
  unfold sign
  split
  · exact List.map_drop
  · rfl

theorem Genuine.mono {received received' : List Byte} {t : Transfer} (h : Genuine received t)
    (hreceived : received <+: received') : Genuine received' t :=
  ⟨h.whole, h.exact.trans (hreceived.drop _)⟩

/-- Nothing is lost in the cut, and at most one component waits. -/
theorem wholePairs_spec (data : List Byte) :
    (wholePairs data).1 ++ (wholePairs data).2.toList = data ∧
      (wholePairs data).1.length % 2 = 0 := by
  unfold wholePairs
  split
  · next heven => exact ⟨List.append_nil _, heven⟩
  · next hodd =>
    have hne : data ≠ [] := by
      intro h
      rw [h] at hodd
      exact hodd rfl
    refine ⟨?_, ?_⟩
    · rw [List.getLast?_eq_some_getLast hne]
      exact List.dropLast_concat_getLast hne
    · rw [List.length_dropLast]
      omega

/-- A callback that completes a pair. -/
theorem push_of_pairs {signed : Bool} {s : State} {bytes data : List Byte} {rest : Option Byte}
    (hcut : wholePairs (s.acquisition.pendingComponent.toList ++ bytes) = (data, rest))
    (hne : data ≠ []) :
    push signed s bytes =
      if 2 ^ 64 ≤ s.acquisition.nextSample + data.length / 2 then
        ({ s with acquisition := ⟨s.acquisition.nextSample, rest⟩ }, false)
      else
        offer { s with acquisition := ⟨s.acquisition.nextSample + data.length / 2, rest⟩ }
          ⟨s.acquisition.nextSample, sign signed data⟩ (data.length / 2) := by
  unfold push
  rw [hcut]
  exact if_neg hne

/-- What a callback leaves behind: `n` pairs were refused, or one transfer was queued. -/
inductive Pushed (signed : Bool) (received : List Byte) (s s' : State) : Prop where
  | refused (n : ℕ) (hnext : s'.acquisition.nextSample = s.acquisition.nextSample + n)
      (hdropped : s'.droppedSamples = s.droppedSamples + n) (hqueue : s'.queue = s.queue)
  | queued (t : Transfer) (hfirst : t.firstSample = s.acquisition.nextSample)
      (hnext : s'.acquisition.nextSample = s.acquisition.nextSample + t.pairs)
      (hgenuine : Genuine (sign signed received) t)
      (hdropped : s'.droppedSamples = s.droppedSamples)
      (hqueue : s'.queue.items = s.queue.items ++ [t])

/-- Cutting off the next whole pairs of the stream. -/
theorem Acquired.cut {a : Acquisition} {received bytes data : List Byte} {rest : Option Byte}
    (ha : Acquired a received) (heven : data.length % 2 = 0)
    (hcut : data ++ rest.toList = a.pendingComponent.toList ++ bytes) :
    Acquired ⟨a.nextSample + data.length / 2, rest⟩ (received ++ bytes) ∧
      (received ++ bytes).drop (2 * a.nextSample) = data ++ rest.toList := by
  have hle : 2 * a.nextSample ≤ received.length := by
    have := ha.length
    omega
  have hdrop : (received ++ bytes).drop (2 * a.nextSample) = data ++ rest.toList := by
    rw [List.drop_append_of_le_length hle, ha.pending, hcut]
  refine ⟨⟨?_, ?_⟩, hdrop⟩
  · have hlength := congrArg List.length hcut
    rw [List.length_append, List.length_append] at hlength
    rw [List.length_append, ha.length]
    dsimp only
    omega
  · dsimp only
    rw [show 2 * (a.nextSample + data.length / 2) = 2 * a.nextSample + data.length by omega,
      ← List.drop_drop, hdrop]
    exact List.drop_left

theorem offer_spec {signed : Bool} {received : List Byte} {s : State} {t : Transfer} {n : ℕ}
    (hgenuine : Genuine (sign signed received) t) (hfirst : t.firstSample = n)
    (hnext : s.acquisition.nextSample = n + t.pairs) :
    (offer s t t.pairs).1.acquisition = s.acquisition ∧
      (offer s t t.pairs).1.reader = s.reader ∧
      ∀ s₀ : State, s₀.acquisition.nextSample = n → s₀.droppedSamples = s.droppedSamples →
        s₀.queue = s.queue → Pushed signed received s₀ (offer s t t.pairs).1 := by
  unfold offer
  cases hreader : s.reader with
  | none =>
    refine ⟨rfl, rfl, fun s₀ hacquired hdropped hqueue => ?_⟩
    apply Pushed.refused t.pairs
    · rw [hacquired]
      exact hnext
    · rw [hdropped]
    · exact hqueue.symm
  | some r =>
    cases hsend : s.queue.trySend t with
    | none =>
      refine ⟨rfl, rfl, fun s₀ hacquired hdropped hqueue => ?_⟩
      apply Pushed.refused t.pairs
      · rw [hacquired]
        exact hnext
      · rw [hdropped]
      · exact hqueue.symm
    | some queue =>
      refine ⟨rfl, rfl, fun s₀ hacquired hdropped hqueue => ?_⟩
      apply Pushed.queued t
      · rw [hacquired, hfirst]
      · rw [hacquired]
        exact hnext
      · exact hgenuine
      · exact hdropped.symm
      · rw [hqueue]
        exact (BoundedQueue.trySend_eq_some hsend).1

/-- A callback numbers its pairs before it offers them. -/
theorem push_spec (signed : Bool) {s : State} {received bytes : List Byte}
    (ha : Acquired s.acquisition received) (hfits : (received ++ bytes).length / 2 < 2 ^ 64) :
    Acquired (push signed s bytes).1.acquisition (received ++ bytes) ∧
      (push signed s bytes).1.reader = s.reader ∧
      Pushed signed (received ++ bytes) s (push signed s bytes).1 := by
  obtain ⟨hcut, heven⟩ := wholePairs_spec (s.acquisition.pendingComponent.toList ++ bytes)
  cases hwhole : wholePairs (s.acquisition.pendingComponent.toList ++ bytes) with
  | mk data rest =>
    rw [hwhole] at hcut heven
    obtain ⟨hacquired, hdrop⟩ := ha.cut heven hcut
    by_cases hempty : data = []
    · unfold push
      rw [hwhole]
      dsimp only at hacquired ⊢
      rw [if_pos hempty]
      rw [hempty] at hacquired
      exact ⟨hacquired, rfl, .refused 0 rfl rfl rfl⟩
    -- the index cannot overflow on so short a stream
    have hsmall : ¬ 2 ^ 64 ≤ s.acquisition.nextSample + data.length / 2 := by
      have := hacquired.length
      dsimp only at this hacquired
      omega
    rw [push_of_pairs hwhole hempty, if_neg hsmall]
    have hpairs : (⟨s.acquisition.nextSample, sign signed data⟩ : Transfer).pairs =
        data.length / 2 := by
      unfold Transfer.pairs
      rw [sign_length]
    have hgenuine : Genuine (sign signed (received ++ bytes))
        ⟨s.acquisition.nextSample, sign signed data⟩ := by
      refine ⟨⟨?_, ?_⟩, ?_⟩
      · rw [sign_length]
        exact heven
      · intro h
        apply hempty
        rw [← List.length_eq_zero_iff, ← sign_length signed, show sign signed data = [] from h]
        rfl
      · rw [← sign_drop, hdrop, sign_append]
        exact List.prefix_append _ _
    rw [← hpairs] at hacquired ⊢
    obtain ⟨hsame, hreader, hpushed⟩ := offer_spec
      (s := { s with acquisition := ⟨s.acquisition.nextSample +
        (⟨s.acquisition.nextSample, sign signed data⟩ : Transfer).pairs, rest⟩ }) hgenuine rfl rfl
    exact ⟨by rw [hsame]; exact hacquired, hreader, hpushed s rfl rfl rfl⟩

/-! ## Section 4: The reader -/

/-- The transfers come in the order of their pairs, between two indices. -/
def InOrder (n : ℕ) : List Transfer → ℕ → Prop
  | [], m => n ≤ m
  | t :: rest, m => n ≤ t.firstSample ∧ InOrder (t.firstSample + t.pairs) rest m

theorem InOrder.mono {n m m' : ℕ} {l : List Transfer} (h : InOrder n l m) (hle : m ≤ m') :
    InOrder n l m' := by
  induction l generalizing n with
  | nil => exact le_trans h hle
  | cons t rest ih => exact ⟨h.1, ih h.2⟩

theorem InOrder.snoc {n m : ℕ} {l : List Transfer} {t : Transfer} (h : InOrder n l m)
    (hfirst : t.firstSample = m) : InOrder n (l ++ [t]) (m + t.pairs) := by
  induction l generalizing n with
  | nil => exact ⟨hfirst ▸ h, by rw [hfirst]; exact le_refl _⟩
  | cons t' rest ih => exact ⟨h.1, ih h.2⟩

theorem pairsOf_append (l l' : List Transfer) : pairsOf (l ++ l') = pairsOf l + pairsOf l' := by
  unfold pairsOf
  rw [List.map_append, List.sum_append]

/-- What holds between the reads of a run and what is still to be read. `previous` is the index
    after the last delivered pair, `count` the number of delivered pairs. -/
structure Reading (received : List Byte) (previous : Option ℕ) (count : ℕ) (s : State)
    (r : CallbackReader) : Prop where
  genuine : ∀ t ∈ unread r s.queue.items, Genuine received t
  inOrder : InOrder (previous.getD 0) (unread r s.queue.items) s.acquisition.nextSample
  expected : r.expectedSample = previous
  within : ∀ t, r.current = some t → r.consumed % 2 = 0 ∧ r.consumed < t.bytes.length
  counted : s.acquisition.nextSample = count + pairsOf (unread r s.queue.items) + s.droppedSamples

/-- A callback leaves what waited before it in place. -/
theorem Reading.push {signed : Bool} {received received' : List Byte} {previous : Option ℕ}
    {count : ℕ} {s s' : State} {r : CallbackReader}
    (h : Reading (sign signed received) previous count s r) (hreceived : received <+: received')
    (hpushed : Pushed signed received' s s') :
    Reading (sign signed received') previous count s' r := by
  have hsigned : sign signed received <+: sign signed received' := by
    obtain ⟨more, rfl⟩ := hreceived
    rw [sign_append]
    exact List.prefix_append _ _
  cases hpushed with
  | refused n hnext hdropped hqueue =>
    refine ⟨?_, ?_, h.expected, h.within, ?_⟩
    · rw [hqueue]
      exact fun t ht => (h.genuine t ht).mono hsigned
    · rw [hqueue, hnext]
      exact h.inOrder.mono (Nat.le_add_right _ _)
    · rw [hqueue, hnext, hdropped, h.counted]
      omega
  | queued t hfirst hnext hgenuine hdropped hqueue =>
    have hunread : unread r s'.queue.items = unread r s.queue.items ++ [t] := by
      unfold unread
      rw [hqueue, List.append_assoc]
    refine ⟨?_, ?_, h.expected, h.within, ?_⟩
    · intro t' ht'
      rw [hunread] at ht'
      rcases List.mem_append.1 ht' with hold | hnew
      · exact (h.genuine t' hold).mono hsigned
      · rw [List.mem_singleton.1 hnew]
        exact hgenuine
    · rw [hunread, hnext]
      exact h.inOrder.snoc hfirst
    · rw [hunread, hnext, hdropped, h.counted, pairsOf_append]
      show _ = _ + (_ + (t.pairs + 0)) + _
      omega

theorem Genuine.pairs_pos {received : List Byte} {t : Transfer} (h : Genuine received t) :
    0 < t.pairs := by
  have := List.length_pos_iff.2 h.whole.2
  have := h.whole.1
  unfold Transfer.pairs
  omega

/-- The last pairs of a transfer. -/
def Transfer.skip (t : Transfer) (k : ℕ) : Transfer := ⟨t.firstSample + k, t.bytes.drop (2 * k)⟩

theorem Transfer.skip_pairs (t : Transfer) (k : ℕ) : (t.skip k).pairs = t.pairs - k := by
  unfold Transfer.pairs Transfer.skip
  rw [List.length_drop]
  omega

theorem Genuine.skip {received : List Byte} {t : Transfer} {k : ℕ} (h : Genuine received t)
    (hk : k < t.pairs) : Genuine received (t.skip k) := by
  have heven := h.whole.1
  unfold Transfer.pairs at hk
  refine ⟨⟨?_, ?_⟩, ?_⟩
  · show (t.bytes.drop (2 * k)).length % 2 = 0
    rw [List.length_drop]
    omega
  · intro hnil
    have := congrArg List.length (show t.bytes.drop (2 * k) = [] from hnil)
    rw [List.length_drop, List.length_nil] at this
    omega
  · show t.bytes.drop (2 * k) <+: received.drop (2 * (t.firstSample + k))
    rw [Nat.mul_add, ← List.drop_drop]
    exact h.exact.drop _

/-- A read of `k` pairs of the transfer at the front. -/
theorem Reading.take {received : List Byte} {previous : Option ℕ} {count : ℕ} {s s' : State}
    {r r' : CallbackReader} {t : Transfer} {queue : List Transfer} {k : ℕ}
    (h : Reading received previous count s r) (hunread : unread r s.queue.items = t :: queue)
    (hle : k ≤ t.pairs) (hacquisition : s'.acquisition = s.acquisition)
    (hdropped : s'.droppedSamples = s.droppedSamples) (hqueue : s'.queue.items = queue)
    (hexpected : r'.expectedSample = some (t.firstSample + k))
    (hwithin : ∀ u, r'.current = some u → r'.consumed % 2 = 0 ∧ r'.consumed < u.bytes.length)
    (hrest : r'.rest = if k = t.pairs then none else some (t.skip k)) :
    Reading received (some (t.firstSample + k)) (count + k) s' r' := by
  have hgenuine := h.genuine
  have horder := h.inOrder
  have hcounted := h.counted
  rw [hunread] at hgenuine horder hcounted
  have ht := hgenuine t List.mem_cons_self
  have hsum : pairsOf (t :: queue) = t.pairs + pairsOf queue := by
    unfold pairsOf
    rw [List.map_cons, List.sum_cons]
  have hunread' : unread r' s'.queue.items =
      (if k = t.pairs then none else some (t.skip k)).toList ++ queue := by
    unfold unread
    rw [hqueue, hrest]
  -- the transfer is read to its end, or what is left of it stays the current one
  by_cases hall : k = t.pairs
  · rw [if_pos hall] at hunread'
    refine ⟨?_, ?_, hexpected, hwithin, ?_⟩
    · rw [hunread']
      exact fun u hu => hgenuine u (List.mem_cons_of_mem _ hu)
    · rw [hunread', hacquisition, hall]
      exact horder.2
    · rw [hunread', hacquisition, hdropped, hcounted, hsum, hall]
      show _ = _ + pairsOf queue + _
      omega
  · rw [if_neg hall] at hunread'
    have hlt : k < t.pairs := by omega
    refine ⟨?_, ?_, hexpected, hwithin, ?_⟩
    · intro u hu
      rw [hunread'] at hu
      rcases List.mem_cons.1 hu with rfl | hu
      · exact ht.skip hlt
      · exact hgenuine u (List.mem_cons_of_mem _ hu)
    · rw [hunread', hacquisition]
      refine ⟨le_refl _, ?_⟩
      have hend : (t.skip k).firstSample + (t.skip k).pairs = t.firstSample + t.pairs := by
        rw [Transfer.skip_pairs]
        show t.firstSample + k + _ = _
        omega
      rw [hend]
      exact horder.2
    · rw [hunread', hacquisition, hdropped, hcounted, hsum]
      show _ = _ + ((t.skip k :: queue).map Transfer.pairs).sum + _
      rw [List.map_cons, List.sum_cons, Transfer.skip_pairs]
      show _ = _ + (_ + pairsOf queue) + _
      omega

/-- One read of a transfer is right, and leaves the rest right. -/
theorem deliver_spec {received : List Byte} {previous : Option ℕ} {count : ℕ} {s : State}
    {r : CallbackReader} {t : Transfer} {capacity rate : ℕ}
    (h : Reading received previous count s r) (hcurrent : r.current = some t)
    (hpos : 0 < capacity) :
    ∃ clock bytes r', (deliver s r t capacity rate).2 = .samples clock bytes ∧
      TrueRead received previous clock bytes ∧
      (deliver s r t capacity rate).1.reader = some r' ∧
      (deliver s r t capacity rate).1.acquisition = s.acquisition ∧
      Reading received (some (clock.sourceSampleIndex + bytes.length / 2))
        (count + bytes.length / 2) (deliver s r t capacity rate).1 r' := by
  obtain ⟨heven, hlt⟩ := h.within t hcurrent
  -- the rest of the transfer is at the front
  set front : Transfer := ⟨t.firstSample + r.consumed / 2, t.bytes.drop r.consumed⟩ with hfront
  have hunread : unread r s.queue.items = front :: s.queue.items := by
    unfold unread CallbackReader.rest
    rw [hcurrent]
    rfl
  have hgenuine := h.genuine front (hunread ▸ List.mem_cons_self)
  have hlength : front.bytes.length = t.bytes.length - r.consumed := List.length_drop
  have hwhole := hgenuine.whole.1
  set k := min capacity ((t.bytes.length - r.consumed) / 2) with hk
  have hpairs : front.pairs = (t.bytes.length - r.consumed) / 2 := by
    unfold Transfer.pairs
    rw [hlength]
  have hkpos : 0 < k := by
    have := hgenuine.pairs_pos
    omega
  have hkle : k ≤ front.pairs := by omega
  have htaken : ((t.bytes.drop r.consumed).take (k * 2)).length = k * 2 := by
    rw [List.length_take, List.length_drop]
    omega
  have hhalf : ((t.bytes.drop r.consumed).take (k * 2)).length / 2 = k := by omega
  refine ⟨_, _, _, rfl, ⟨⟨?_, ?_⟩, ?_, ?_, ?_⟩, rfl, rfl, ?_⟩
  · rw [htaken]
    omega
  · intro hnil
    have := congrArg List.length hnil
    rw [htaken, List.length_nil] at this
    omega
  · exact (List.take_prefix _ _).trans hgenuine.exact
  · rw [h.expected]
    exact decide_eq_true_iff
  · intro j hj
    have horder := h.inOrder
    rw [hunread, hj] at horder
    exact horder.1
  · rw [hhalf]
    show Reading received (some (front.firstSample + k)) (count + k)
      (deliver s r t capacity rate).1 _
    apply h.take hunread hkle
    · rfl
    · rfl
    · rfl
    · rfl
    · intro u hu
      dsimp only at hu ⊢
      by_cases hend : r.consumed + k * 2 = t.bytes.length
      · rw [if_pos hend] at hu
        cases hu
      · rw [if_neg hend, Option.some.injEq] at hu
        subst hu
        omega
    · unfold CallbackReader.rest
      dsimp only
      by_cases hend : r.consumed + k * 2 = t.bytes.length
      · rw [if_pos hend, if_pos (by omega)]
        rfl
      · rw [if_neg hend, if_neg (by omega)]
        show some _ = some _
        congr 1
        unfold Transfer.skip
        rw [hfront]
        dsimp only
        rw [List.drop_drop]
        congr 1
        · omega
        · congr 1
          omega

/-- Taking the next transfer from the queue changes nothing that is still to be read. -/
theorem Reading.next {received : List Byte} {previous : Option ℕ} {count : ℕ} {s : State}
    {r : CallbackReader} {t : Transfer} {queue : BoundedQueue Transfer}
    (h : Reading received previous count s r) (hcurrent : r.current = none)
    (hrecv : s.queue.tryRecv = some (t, queue)) :
    Reading received previous count { s with queue := queue }
      { r with current := some t, consumed := 0 } := by
  obtain ⟨hitems, -⟩ := BoundedQueue.tryRecv_eq_some hrecv
  have hfront : unread r s.queue.items = t :: queue.items := by
    unfold unread CallbackReader.rest
    rw [hcurrent, hitems]
    rfl
  have hunread : unread { r with current := some t, consumed := 0 } queue.items =
      unread r s.queue.items := by
    rw [hfront]
    unfold unread CallbackReader.rest
    simp only [Option.map_some, Option.toList_some, Nat.zero_div, Nat.add_zero, List.drop_zero,
      List.singleton_append]
  have hgenuine : Genuine received t := by
    apply h.genuine t
    rw [hfront]
    exact List.mem_cons_self
  refine ⟨?_, ?_, h.expected, ?_, ?_⟩
  · show ∀ u ∈ unread _ queue.items, _
    rw [hunread]
    exact h.genuine
  · show InOrder _ (unread _ queue.items) _
    rw [hunread]
    exact h.inOrder
  · intro u hu
    cases hu
    exact ⟨rfl, List.length_pos_iff.2 hgenuine.whole.2⟩
  · show _ = _ + pairsOf (unread _ queue.items) + _
    rw [hunread]
    exact h.counted

/-- A read returns a right piece, or nothing. -/
theorem readWith_spec {received : List Byte} {previous : Option ℕ} {count : ℕ} {s : State}
    {r : CallbackReader} {capacity : ℕ} (rate : ℕ) (h : Reading received previous count s r)
    (hpos : 0 < capacity) :
    ((readWith s r capacity rate).1 = s ∧ (readWith s r capacity rate).2.range = none) ∨
    ∃ clock bytes r', (readWith s r capacity rate).2 = .samples clock bytes ∧
      TrueRead received previous clock bytes ∧
      (readWith s r capacity rate).1.reader = some r' ∧
      (readWith s r capacity rate).1.acquisition = s.acquisition ∧
      Reading received (some (clock.sourceSampleIndex + bytes.length / 2))
        (count + bytes.length / 2) (readWith s r capacity rate).1 r' := by
  unfold readWith
  cases hcurrent : r.current with
  | some t => exact .inr (deliver_spec h hcurrent hpos)
  | none =>
    cases hrecv : s.queue.tryRecv with
    | none =>
      refine .inl ⟨rfl, ?_⟩
      dsimp only
      split
      · rfl
      · rfl
    | some next => exact .inr (deliver_spec (h.next hcurrent hrecv) rfl hpos)

/-! ## Section 5: Every run -/

/-- What every step keeps, given the run so far. -/
structure Inv (signed : Bool) (h : List Ev) (s : State) : Prop where
  acquired : Acquired s.acquisition (stream h)
  reading : ∀ r, s.reader = some r →
    Reading (sign signed (stream h)) (lastEnd h) (deliveredPairs h) s r

/-- The device stream of a run so far is no longer than that of the whole run. -/
theorem stream_fits {h l : List Ev} (hfits : (stream (h ++ l)).length / 2 < 2 ^ 64) :
    (stream h).length / 2 < 2 ^ 64 := by
  unfold stream at hfits ⊢
  rw [List.flatMap_append, List.length_append] at hfits
  omega

theorem stream_append (h : List Ev) (e : Ev) :
    stream (h ++ [e]) = stream h ++ if e.before.producing then e.input.bytes else [] := by
  unfold stream
  rw [List.flatMap_append, List.flatMap_singleton]

/-- A step that reads nothing. -/
theorem delivered_append_none {h : List Ev} {e : Ev} (he : e.output.range = none) :
    delivered (h ++ [e]) = delivered h := by
  unfold delivered
  rw [List.filterMap_append]
  simp only [List.filterMap_cons, he, List.filterMap_nil, List.append_nil]

theorem delivered_append_some {h : List Ev} {e : Ev} {range : ℕ × ℕ}
    (he : e.output.range = some range) : delivered (h ++ [e]) = delivered h ++ [range] := by
  unfold delivered
  rw [List.filterMap_append]
  simp only [List.filterMap_cons, he, List.filterMap_nil]

/-- A step that neither produces nor reads, and leaves the bridge to its reader. -/
theorem Inv.idle {signed : Bool} {h : List Ev} {s s' : State} {e : Ev} (hinv : Inv signed h s)
    (hbytes : (if e.before.producing then e.input.bytes else []) = [])
    (hrange : e.output.range = none) (hacquisition : s'.acquisition = s.acquisition)
    (hreader : ∀ r, s'.reader = some r → s.reader = some r ∧ s'.queue = s.queue ∧
      s'.droppedSamples = s.droppedSamples) : Inv signed (h ++ [e]) s' := by
  have hstream : stream (h ++ [e]) = stream h := by
    rw [stream_append, hbytes, List.append_nil]
  refine ⟨by rw [hstream, hacquisition]; exact hinv.acquired, fun r hr => ?_⟩
  obtain ⟨hold, hqueue, hdropped⟩ := hreader r hr
  unfold lastEnd deliveredPairs
  rw [hstream, delivered_append_none hrange]
  obtain ⟨hgenuine, horder, hexpected, hwithin, hcounted⟩ := hinv.reading r hold
  refine ⟨?_, ?_, hexpected, hwithin, ?_⟩
  · rw [hqueue]
    exact hgenuine
  · rw [hqueue, hacquisition]
    exact horder
  · rw [hqueue, hacquisition, hdropped]
    exact hcounted

/-- A callback. -/
theorem Inv.push {signed : Bool} {h : List Ev} {s : State} {e : Ev} {bytes : List Byte}
    (hinv : Inv signed h s) (hbytes : (if e.before.producing then e.input.bytes else []) = bytes)
    (hrange : e.output.range = none) (hfits : (stream (h ++ [e])).length / 2 < 2 ^ 64) :
    Inv signed (h ++ [e]) (push signed s bytes).1 := by
  rw [stream_append, hbytes] at hfits
  obtain ⟨hacquired, hreader, hpushed⟩ := push_spec signed hinv.acquired hfits
  refine ⟨by rw [stream_append, hbytes]; exact hacquired, fun r hr => ?_⟩
  rw [hreader] at hr
  unfold lastEnd deliveredPairs
  rw [delivered_append_none hrange, stream_append, hbytes]
  exact (hinv.reading r hr).push (List.prefix_append _ _) hpushed

/-- A read. -/
theorem Inv.read {signed : Bool} {h : List Ev} {s : State} {r : CallbackReader} {e : Ev}
    {capacity rate : ℕ} (hinv : Inv signed h s) (hreader : s.reader = some r) (hpos : 0 < capacity)
    (hbytes : (if e.before.producing then e.input.bytes else []) = [])
    (houtput : e.output = (readWith s r capacity rate).2) :
    Inv signed (h ++ [e]) (readWith s r capacity rate).1 ∧
      ∀ clock bytes, e.output = .samples clock bytes →
        TrueRead (sign signed (stream h)) (lastEnd h) clock bytes := by
  obtain ⟨hsame, hnothing⟩ | ⟨clock, bytes, r', hsome, htrue, hr', hacquisition, hreading⟩ :=
    readWith_spec rate (hinv.reading r hreader) hpos
  · rw [← houtput] at hnothing
    rw [hsame]
    refine ⟨hinv.idle hbytes hnothing rfl fun r hr => ⟨hr, rfl, rfl⟩, ?_⟩
    intro clock bytes hout
    rw [hout] at hnothing
    cases hnothing
  · rw [hsome] at houtput
    refine ⟨⟨?_, ?_⟩, ?_⟩
    · rw [stream_append, hbytes, List.append_nil, hacquisition]
      exact hinv.acquired
    · intro r'' hr''
      obtain rfl : r' = r'' := Option.some.inj (hr'.symm.trans hr'')
      have hrange : e.output.range = some (clock.sourceSampleIndex, bytes.length / 2) := by
        rw [houtput]
        rfl
      unfold lastEnd deliveredPairs
      rw [stream_append, hbytes, List.append_nil, delivered_append_some hrange,
        List.getLast?_concat, List.map_append, List.sum_append]
      exact hreading
    · intro clock' bytes' hout
      rw [houtput] at hout
      cases hout
      exact htrue

/-- The step lemma. -/
theorem step_inv {signed : Bool} {h : List Ev} {s : State} (input : Input)
    (hinv : Inv signed h s)
    (hfits : (stream (h ++ [⟨s, input, (step signed s input).2, (step signed s input).1⟩])).length
      / 2 < 2 ^ 64) :
    Inv signed (h ++ [⟨s, input, (step signed s input).2, (step signed s input).1⟩])
        (step signed s input).1 ∧
      ∀ clock bytes, (step signed s input).2 = .samples clock bytes →
        TrueRead (sign signed (stream h)) (lastEnd h) clock bytes := by
  cases input with
  | push bytes =>
    unfold step at hfits ⊢
    cases hproducing : s.producing with
    | true =>
      simp only [hproducing, if_true] at hfits ⊢
      refine ⟨hinv.push ?_ rfl hfits, fun clock bytes hout => by cases hout⟩
      exact if_pos hproducing
    | false =>
      simp only [Bool.false_eq_true, if_false]
      refine ⟨hinv.idle ?_ rfl rfl fun r hr => ⟨hr, rfl, rfl⟩, fun clock bytes hout => by cases hout⟩
      exact if_neg (by rw [hproducing]; exact Bool.false_ne_true)
  | read capacity pos rate =>
    unfold step
    cases hreader : s.reader with
    | some r => exact hinv.read hreader pos (ite_self _) rfl
    | none =>
      exact ⟨hinv.idle (ite_self _) rfl rfl fun r hr => ⟨hr, rfl, rfl⟩,
        fun clock bytes hout => by cases hout⟩
  | dropProducer =>
    exact ⟨hinv.idle (ite_self _) rfl rfl fun r hr => ⟨hr, rfl, rfl⟩,
      fun clock bytes hout => by cases hout⟩
  | dropReader =>
    refine ⟨hinv.idle (ite_self _) rfl rfl fun r hr => ?_, fun clock bytes hout => by cases hout⟩
    cases hr

theorem channel_inv (signed : Bool) (capacity : ℕ) (pos : 0 < capacity) (epoch : ℕ) :
    Inv signed [] (channel capacity pos epoch) := by
  refine ⟨⟨rfl, rfl⟩, ?_⟩
  intro r hr
  cases hr
  refine ⟨?_, le_refl 0, rfl, ?_, rfl⟩
  · intro t ht
    cases ht
  · intro t ht
    cases ht

/-- **Queue integrity.** In every run on fewer than 2^64 pairs, every read is right, and as long
    as there is a reader every pair is delivered, waiting or counted as dropped. -/
theorem run_integrity {signed : Bool} {capacity : ℕ} {pos : 0 < capacity} {epoch : ℕ}
    {inputs : List Input} {h : List Ev} {t : State}
    (hrun : (machine signed capacity pos epoch).run (channel capacity pos epoch) inputs =
      some (t, h)) (hfits : (stream h).length / 2 < 2 ^ 64) :
    (∀ past e later, h = past ++ e :: later → ∀ clock bytes, e.output = .samples clock bytes →
      TrueRead (sign signed (stream past)) (lastEnd past) clock bytes) ∧
    ∀ r, t.reader = some r →
      (stream h).length / 2 = deliveredPairs h + pairsOf (unread r t.queue.items) +
        t.droppedSamples := by
  have hinv := (machine signed capacity pos epoch).run_safe_steps (I := fun _ => True)
    (P := fun h s => (stream h).length / 2 < 2 ^ 64 → Inv signed h s)
    (Q := fun past e => (stream (past ++ [e])).length / 2 < 2 ^ 64 →
      ∀ clock bytes, e.output = .samples clock bytes →
        TrueRead (sign signed (stream past)) (lastEnd past) clock bytes)
    (fun _ => channel_inv signed capacity pos epoch) ?_ inputs (fun _ _ => trivial)
  · obtain ⟨t', h', hrun', hlast, hlaw⟩ := hinv
    obtain ⟨rfl, rfl⟩ := Prod.mk.inj (Option.some.inj (hrun'.symm.trans hrun))
    refine ⟨?_, ?_⟩
    · intro past e later hsplit clock bytes hout
      rw [hsplit, List.append_cons] at hfits
      exact hlaw past e later hsplit (stream_fits hfits) clock bytes hout
    · intro r hr
      have hend := hlast hfits
      have hlength := hend.acquired.length
      -- at most one component is left over
      have hpending : t'.acquisition.pendingComponent.toList.length ≤ 1 := by
        cases t'.acquisition.pendingComponent with
        | none => exact Nat.zero_le _
        | some b => exact le_refl _
      rw [← (hend.reading r hr).counted]
      omega
  · intro h s input hP _
    refine ⟨(step signed s input).1, (step signed s input).2, rfl, ?_, ?_⟩
    · exact fun hfits => (step_inv input (hP (stream_fits hfits)) hfits).1
    · exact fun hfits => (step_inv input (hP (stream_fits hfits)) hfits).2

/-- Odd callbacks, a full queue and a read across two transfers. -/
def oddCallbacks : List Input :=
  [.push [1#8, 2#8, 3#8], .push [4#8, 5#8, 6#8], .read 1 (by decide) 48000, .push [7#8, 8#8],
    .read 4 (by decide) 48000]

theorem run_integrity_odd : ∃ h t,
    (machine true 1 (by decide) 7).run (channel 1 (by decide) 7) oddCallbacks = some (t, h) ∧
    delivered h = [(0, 1), (3, 1)] ∧ t.droppedSamples = 2 ∧
    ∀ past e later, h = past ++ e :: later → ∀ clock bytes, e.output = .samples clock bytes →
      TrueRead (sign true (stream past)) (lastEnd past) clock bytes := by
  refine ⟨_, _, rfl, rfl, rfl, ?_⟩
  exact (@run_integrity true 1 (by decide) 7 oddCallbacks _ _ rfl (by decide)).1

/-! ## Section 6: The end of the index -/

/-- The queue holds the first transfer, and later ones are refused. -/
def behind (next dropped : ℕ) : State where
  acquisition := ⟨next, none⟩
  droppedSamples := dropped
  queue := ⟨1, [⟨0, [0#8, 0#8]⟩], by decide, by decide⟩
  reader := some ⟨none, 0, none, 0, none⟩
  producing := true

theorem behind_push {next dropped : ℕ} (hnext : next + 1 < 2 ^ 64) :
    push false (behind next dropped) [0#8, 0#8] = (behind (next + 1) (dropped + 1), true) := by
  have hcut : wholePairs ((behind next dropped).acquisition.pendingComponent.toList ++ [0#8, 0#8]) =
      ([0#8, 0#8], none) := by
    show wholePairs [0#8, 0#8] = _
    decide
  rw [push_of_pairs hcut (by decide), if_neg]
  · rfl
  · show ¬ 2 ^ 64 ≤ next + 1
    omega

/-- As long as the index does not overflow, refused pairs are counted. -/
theorem behind_run {n next dropped : ℕ} (hnext : next + n < 2 ^ 64) :
    ∃ h, (machine false 1 (by decide) 0).run (behind next dropped)
        (List.replicate n (.push [0#8, 0#8])) = some (behind (next + n) (dropped + n), h) ∧
      stream h = List.replicate (2 * n) 0#8 := by
  induction n generalizing next dropped with
  | zero => exact ⟨[], rfl, rfl⟩
  | succ n ih =>
    have hnext' : next + 1 + n < 2 ^ 64 := by omega
    obtain ⟨h, hrun, hstream⟩ := @ih (next + 1) (dropped + 1) hnext'
    have hstep : (machine false 1 (by decide) 0).step (behind next dropped) (.push [0#8, 0#8]) =
        some (behind (next + 1) (dropped + 1), .pushed true) := by
      show some ((push false (behind next dropped) [0#8, 0#8]).1,
        Output.pushed (push false (behind next dropped) [0#8, 0#8]).2) = _
      rw [behind_push (by omega)]
    refine ⟨⟨behind next dropped, .push [0#8, 0#8], .pushed true,
      behind (next + 1) (dropped + 1)⟩ :: h, ?_, ?_⟩
    · rw [List.replicate_succ, Machine.run_cons_eq_some]
      refine ⟨_, _, h, hstep, ?_, rfl⟩
      rw [hrun, show next + 1 + n = next + (n + 1) by omega,
        show dropped + 1 + n = dropped + (n + 1) by omega]
    · show [0#8, 0#8] ++ stream h = _
      rw [hstream, show 2 * (n + 1) = 2 * n + 1 + 1 by omega, List.replicate_succ,
        List.replicate_succ]
      rfl

/-- The last calls: the reader makes room, a callback does not fit into the index, and a
    shorter one does. -/
def atTheEnd : List Input :=
  [.read 1 (by decide) 0, .push [1#8, 1#8, 1#8, 1#8], .push [2#8, 2#8], .read 1 (by decide) 0]

theorem atTheEnd_run {n dropped : ℕ} (hn : n + 2 = 2 ^ 64) :
    ∃ h e t clock, (machine false 1 (by decide) 0).run (behind n dropped) atTheEnd =
        some (t, h ++ [e]) ∧
      stream h = [1#8, 1#8, 1#8, 1#8, 2#8, 2#8] ∧ e.output = .samples clock [2#8, 2#8] ∧
      clock.sourceSampleIndex = n := by
  -- the first transfer is read
  let u : State :=
    { acquisition := ⟨n, none⟩
      droppedSamples := dropped
      queue := ⟨1, [], by decide, by decide⟩
      reader := some ⟨none, 2, some 1, 0, some ⟨0, 0, 0, 1, none, true⟩⟩
      producing := true }
  have hrefused : push false u [1#8, 1#8, 1#8, 1#8] = (u, false) := by
    have hcut : wholePairs (u.acquisition.pendingComponent.toList ++ [1#8, 1#8, 1#8, 1#8]) =
        ([1#8, 1#8, 1#8, 1#8], none) := by
      show wholePairs [1#8, 1#8, 1#8, 1#8] = _
      decide
    rw [push_of_pairs hcut (by decide), if_pos]
    show 2 ^ 64 ≤ n + 2
    omega
  let v : State :=
    { u with acquisition := ⟨n + 1, none⟩
             queue := ⟨1, [⟨n, [2#8, 2#8]⟩], by decide, le_refl 1⟩ }
  have hqueued : push false u [2#8, 2#8] = (v, true) := by
    have hcut : wholePairs (u.acquisition.pendingComponent.toList ++ [2#8, 2#8]) =
        ([2#8, 2#8], none) := by
      show wholePairs [2#8, 2#8] = _
      decide
    rw [push_of_pairs hcut (by decide), if_neg]
    · rfl
    · show ¬ 2 ^ 64 ≤ n + 1
      omega
  let last : CaptureClock := ⟨0, n, 0, 1, none, decide (some 1 ≠ some n)⟩
  let w : State :=
    { v with queue := ⟨1, [], by decide, by decide⟩
             reader := some ⟨none, 2, some (n + 1), 0, some last⟩ }
  refine ⟨[⟨behind n dropped, .read 1 (by decide) 0,
      .samples ⟨0, 0, 0, 1, none, true⟩ [0#8, 0#8], u⟩,
    ⟨u, .push [1#8, 1#8, 1#8, 1#8], .pushed false, u⟩, ⟨u, .push [2#8, 2#8], .pushed true, v⟩],
    ⟨v, .read 1 (by decide) 0, .samples last [2#8, 2#8], w⟩, w, last, ?_, rfl, rfl, rfl⟩
  unfold atTheEnd
  rw [Machine.run_cons_eq_some]
  refine ⟨u, _, _, rfl, ?_, rfl⟩
  rw [Machine.run_cons_eq_some]
  refine ⟨u, .pushed false, _, ?_, ?_, rfl⟩
  · show some ((push false u _).1, Output.pushed (push false u _).2) = _
    rw [hrefused]
  rw [Machine.run_cons_eq_some]
  refine ⟨v, .pushed true, _, ?_, ?_, rfl⟩
  · show some ((push false u _).1, Output.pushed (push false u _).2) = _
    rw [hqueued]
  rw [Machine.run_cons_eq_some]
  refine ⟨w, .samples last [2#8, 2#8], [], ?_, rfl, rfl⟩
  simp [machine, step, readWith, deliver, u, v, w, last, BoundedQueue.tryRecv, CaptureClock.new]

/-- A reader far behind, and callbacks up to the end of the index. -/
def endless : List Input :=
  .push [0#8, 0#8] :: (List.replicate (2 ^ 64 - 3) (.push [0#8, 0#8]) ++ atTheEnd)

/-- The pairs of a callback that does not fit are neither numbered nor counted, and the next
    callback gets their index. -/
theorem overflow_shifts_index :
    ∃ h t, (machine false 1 (by decide) 0).run (channel 1 (by decide) 0) endless = some (t, h) ∧
      ∃ past e clock bytes, h = past ++ [e] ∧ e.output = .samples clock bytes ∧
        ¬ TrueRead (sign false (stream past)) (lastEnd past) clock bytes := by
  -- abstract the length, so that nothing is evaluated
  have hlarge : ∃ n, n = 2 ^ 64 - 3 ∧ n + 3 = 2 ^ 64 := ⟨_, rfl, by norm_num⟩
  obtain ⟨n, hn, hsum⟩ := hlarge
  unfold endless
  rw [← hn]
  obtain ⟨h₁, hrun₁, hstream₁⟩ := @behind_run n 1 0 (by omega)
  obtain ⟨h₂, e, t, clock, hrun₂, hstream₂, hout, hindex⟩ :=
    @atTheEnd_run (1 + n) (0 + n) (by omega)
  let e₀ : Ev := ⟨channel 1 (by decide) 0, .push [0#8, 0#8], .pushed true, behind 1 0⟩
  refine ⟨e₀ :: (h₁ ++ (h₂ ++ [e])), t, ?_, e₀ :: (h₁ ++ h₂), e, clock, _, ?_, hout, ?_⟩
  · rw [Machine.run_cons_eq_some]
    refine ⟨behind 1 0, .pushed true, _, rfl, ?_, rfl⟩
    rw [Machine.run_append]
    exact ⟨_, _, _, hrun₁, hrun₂, rfl⟩
  · rw [List.cons_append, List.append_assoc]
  · intro htrue
    have hexact := htrue.exact
    have hstream : stream (e₀ :: (h₁ ++ h₂)) =
        List.replicate (2 * (1 + n)) 0#8 ++ [1#8, 1#8, 1#8, 1#8, 2#8, 2#8] := by
      show [0#8, 0#8] ++ stream (h₁ ++ h₂) = _
      unfold stream at hstream₁ hstream₂ ⊢
      rw [List.flatMap_append, hstream₁, hstream₂, show 2 * (1 + n) = 2 * n + 1 + 1 by omega,
        List.replicate_succ, List.replicate_succ]
      rfl
    have hdrop : (sign false (stream (e₀ :: (h₁ ++ h₂)))).drop (2 * (1 + n)) =
        [1#8, 1#8, 1#8, 1#8, 2#8, 2#8] := by
      rw [hstream]
      exact List.drop_left' (List.length_replicate)
    rw [hindex, hdrop] at hexact
    revert hexact
    decide

end CallbackIq
