import EzSdr.Framework.Scanner

/-! # Frame Synchronisation

    `FrameSync` buffers recovered bits, looks for the 32-bit attached sync
    marker and cuts out candidates of one channel access data unit each. A
    candidate that its caller validates is skipped as a whole; after one that
    is refused the search goes on at the next bit.

    `greedy` is what the synchroniser is for: a scan over the whole stream,
    with no buffer and no chunks. **`pushAll_greedy`** says that the code
    delivers exactly the frames of that scan, however the stream is cut, and
    never keeps a whole frame buffered.
-/

namespace Lrpt

/-! ## Model -/

def SYNC_MARKER : UInt32 := 0x1ACFFC1D
def SYNC_MARKER_BITS : Nat := 32
def CADU_LEN_BYTES : Nat := 1024
def MAX_MARKER_ERRORS : Nat := 2
def CADU_BITS : Nat := CADU_LEN_BYTES * 8

def bitsToU32 (bits : List UInt8) : UInt32 :=
  bits.foldl (fun v b => (v <<< 1) ||| (b &&& 1).toUInt32) 0

/-- Pack bits into bytes, the first bit on top. -/
def bitsToBytesMsb (bits : List UInt8) : List UInt8 :=
  (List.range (bits.length / 8)).map fun k =>
    ((bits.drop (8 * k)).take 8).foldl (fun byte b => (byte <<< 1) ||| (b &&& 1)) 0

def countOnes (v : UInt32) : Nat :=
  ((List.range 32).filter fun i => v.toBitVec.getLsbD i).length

structure SyncMatch where
  bitOffset : Nat
  errors : Nat
deriving DecidableEq, Repr

/-- The earliest admissible marker. -/
def findSync (bits : List UInt8) : Option SyncMatch :=
  if bits.length < SYNC_MARKER_BITS then none
  else (List.range (bits.length - SYNC_MARKER_BITS + 1)).findSome? fun offset =>
    let window := bitsToU32 ((bits.drop offset).take SYNC_MARKER_BITS)
    let errors := countOnes (window ^^^ SYNC_MARKER)
    if errors ≤ MAX_MARKER_ERRORS then some ⟨offset, errors⟩ else none

/-- A candidate and the bit of the recovered stream it ends before. -/
structure LocatedFrame where
  endBit : Nat
  bytes : List UInt8
deriving DecidableEq, Repr

structure FrameSync where
  bitBuffer : List UInt8
  locked : Bool
  bitsReceived : Nat

namespace FrameSync

def new : FrameSync := ⟨[], false, 0⟩

/-- A lock is dropped when the next marker is not where it should be. -/
def checkLock (s : FrameSync) : FrameSync :=
  if s.locked then
    let marker := bitsToU32 (s.bitBuffer.take SYNC_MARKER_BITS)
    if countOnes (marker ^^^ SYNC_MARKER) > MAX_MARKER_ERRORS then { s with locked := false } else s
  else s

/-- Without a lock, drop the bits before the next marker; `none` when there
    is no complete marker. -/
def align (s : FrameSync) : Option FrameSync :=
  if s.locked then some s
  else (findSync s.bitBuffer).map fun found =>
    { s with bitBuffer := s.bitBuffer.drop found.bitOffset }

theorem align_length_le {s t : FrameSync} (h : s.align = some t) :
    t.bitBuffer.length ≤ s.bitBuffer.length := by
  unfold align at h
  split at h
  · cases h
    exact le_rfl
  · obtain ⟨found, _, rfl⟩ := Option.map_eq_some_iff.mp h
    show (s.bitBuffer.drop found.bitOffset).length ≤ _
    rw [List.length_drop]
    omega

@[simp] theorem checkLock_bitBuffer (s : FrameSync) : s.checkLock.bitBuffer = s.bitBuffer := by
  unfold checkLock
  dsimp only
  split <;> [split; skip] <;> rfl

@[simp] theorem checkLock_bitsReceived (s : FrameSync) :
    s.checkLock.bitsReceived = s.bitsReceived := by
  unfold checkLock
  dsimp only
  split <;> [split; skip] <;> rfl

/-- The loop of `push_bits_located`. -/
def loop (validate : List UInt8 → Bool) (s : FrameSync) : FrameSync × List LocatedFrame :=
  if s.bitBuffer.length < SYNC_MARKER_BITS then (s, [])
  else
    let s₁ := s.checkLock
    match _h : s₁.align with
    | none =>
      -- no complete marker: retain only its possible split suffix
      let drop := s₁.bitBuffer.length - (SYNC_MARKER_BITS - 1)
      ({ s₁ with bitBuffer := s₁.bitBuffer.drop drop }, [])
    | some s₂ =>
      if _hlen : s₂.bitBuffer.length < CADU_BITS then (s₂, [])
      else
        let candidate := bitsToBytesMsb (s₂.bitBuffer.take CADU_BITS)
        let locked := validate candidate
        let frame : LocatedFrame := ⟨s₂.bitsReceived - s₂.bitBuffer.length + CADU_BITS, candidate⟩
        let consumed := if locked then CADU_BITS else 1
        let (last, frames) :=
          loop validate { s₂ with locked := locked, bitBuffer := s₂.bitBuffer.drop consumed }
        (last, frame :: frames)
termination_by s.bitBuffer.length
decreasing_by
  have hle := align_length_le ‹_›
  rw [checkLock_bitBuffer] at hle
  have hcadu : CADU_BITS = 8192 := rfl
  simp only [List.length_drop]
  split <;> omega

def pushBitsLocated (validate : List UInt8 → Bool) (s : FrameSync) (bits : List UInt8) :
    FrameSync × List LocatedFrame :=
  loop validate { s with
    bitsReceived := s.bitsReceived + bits.length, bitBuffer := s.bitBuffer ++ bits }

/-- Push chunks in order; the state after them and the frames of all. -/
def pushAll (validate : List UInt8 → Bool) (s : FrameSync) :
    List (List UInt8) → FrameSync × List LocatedFrame
  | [] => (s, [])
  | bits :: chunks =>
    let (t, frames) := s.pushBitsLocated validate bits
    let (last, more) := pushAll validate t chunks
    (last, frames ++ more)

end FrameSync

/-! ## The greedy scan -/

/-- Bit `i` of the marker in the order of transmission. -/
def markerBit (i : Nat) : UInt8 :=
  ((SYNC_MARKER >>> UInt32.ofNat (31 - i)) &&& 1).toUInt8

/-- In how many of its first 32 bits a stream differs from the marker. -/
def bitErrors (stream : List UInt8) : Nat :=
  ((List.range 32).filter fun i => stream.getD i 0 &&& 1 ≠ markerBit i).length

/-- A marker with at most two bit errors stands at the front. -/
def HasMarker (stream : List UInt8) : Prop :=
  32 ≤ stream.length ∧ bitErrors stream ≤ 2

instance (stream : List UInt8) : Decidable (HasMarker stream) :=
  inferInstanceAs (Decidable (_ ∧ _))

/-- The position of the earliest marker. -/
def firstMarker (stream : List UInt8) : Option Nat :=
  (List.range stream.length).find? fun k => HasMarker (stream.drop k)

/-- Scan the rest of a stream from bit `position` on: deliver the frame at the
    earliest marker, then skip it if it is valid and else go on one bit after
    its start. Refused frames are delivered too, for the caller's error
    accounting. A frame that the stream does not complete ends the scan. -/
def greedy (validate : List UInt8 → Bool) (position : Nat) (stream : List UInt8) :
    List LocatedFrame :=
  match firstMarker stream with
  | none => []
  | some k =>
    if _h : k + 8192 ≤ stream.length then
      let frame := bitsToBytesMsb ((stream.drop k).take 8192)
      let skip := if validate frame then 8192 else 1
      ⟨position + k + 8192, frame⟩ :: greedy validate (position + k + skip) (stream.drop (k + skip))
    else []
termination_by stream.length
decreasing_by
  simp only [List.length_drop]
  split <;> omega

/-! ## The marker test counts bit errors -/

theorem getLsbD_bitsToU32 (bits : List UInt8) (i : Nat) (hi : i < 32) :
    (bitsToU32 bits).toBitVec.getLsbD i = (bits.reverse.getD i 0).toBitVec.getLsbD 0 := by
  -- the last bit of the list is the lowest bit of the word
  induction bits using List.reverseRecOn generalizing i with
  | nil => simp [bitsToU32]
  | append_singleton bits b ih =>
    have hfold : bitsToU32 (bits ++ [b]) = (bitsToU32 bits <<< 1) ||| (b &&& 1).toUInt32 := by
      simp [bitsToU32]
    rw [hfold, List.reverse_append, List.reverse_singleton, List.singleton_append]
    match i with
    | 0 => simp
    | i + 1 =>
      have hrest := ih i (by omega)
      rw [BitVec.getLsbD_eq_getElem (by omega)] at hrest
      simpa [hi] using hrest

theorem and_one_eq (b : UInt8) : b &&& 1 = if b.toBitVec.getLsbD 0 then 1 else 0 := by
  apply UInt8.toNat_inj.mp
  have hmod : b.toNat % 2 < 2 := Nat.mod_lt _ (by decide)
  split
  · next h =>
    rw [BitVec.getLsbD, UInt8.toNat_toBitVec, Nat.testBit_zero, decide_eq_true_eq] at h
    rw [UInt8.toNat_and]
    exact (Nat.and_one_is_mod _).trans h
  · next h =>
    rw [BitVec.getLsbD, UInt8.toNat_toBitVec, Nat.testBit_zero, decide_eq_true_eq] at h
    rw [UInt8.toNat_and]
    have hzero : b.toNat % 2 = 0 := by omega
    exact (Nat.and_one_is_mod _).trans hzero

theorem markerBit_eq : ∀ i < 32,
    markerBit i = if SYNC_MARKER.toBitVec.getLsbD (31 - i) then 1 else 0 := by
  decide

/-- The code's marker test counts the bit errors at the front. -/
theorem countOnes_eq_bitErrors {stream : List UInt8} (h : 32 ≤ stream.length) :
    countOnes (bitsToU32 (stream.take 32) ^^^ SYNC_MARKER) = bitErrors stream := by
  have hperm : ((List.range 32).map fun i => 31 - i).Perm (List.range 32) := by decide
  have hlength : (stream.take 32).length = 32 := by
    rw [List.length_take]
    omega
  unfold countOnes bitErrors
  -- bit `i` of the word is bit `31 - i` of the stream
  rw [← List.countP_eq_length_filter, ← List.countP_eq_length_filter, ← hperm.countP_eq,
    List.countP_map]
  apply List.countP_congr
  intro i hi
  have hi32 : i < 32 := List.mem_range.mp hi
  have hbit : (stream.take 32).reverse.getD (31 - i) 0 = stream.getD i 0 := by
    rw [List.getD_eq_getElem _ _ (by rw [List.length_reverse, hlength]; omega),
      List.getElem_reverse, List.getElem_take, List.getD_eq_getElem _ _ (by omega)]
    congr 1
    omega
  have hword : (bitsToU32 (stream.take 32) ^^^ SYNC_MARKER).toBitVec.getLsbD (31 - i) =
      ((stream.getD i 0).toBitVec.getLsbD 0 ^^ SYNC_MARKER.toBitVec.getLsbD (31 - i)) := by
    rw [UInt32.toBitVec_xor, BitVec.getLsbD_xor, getLsbD_bitsToU32 _ _ (by omega), hbit]
  rw [Function.comp_apply, hword, and_one_eq, markerBit_eq i hi32]
  match (stream.getD i 0).toBitVec.getLsbD 0, SYNC_MARKER.toBitVec.getLsbD (31 - i) with
  | false, false => decide
  | false, true => decide
  | true, false => decide
  | true, true => decide

/-! ## Finding a marker -/

/-- A marker at the front is the earliest one. -/
theorem firstMarker_front {stream : List UInt8} (h : HasMarker stream) :
    firstMarker stream = some 0 := by
  match stream with
  | [] => exact absurd h.1 (by decide)
  | b :: rest =>
    unfold firstMarker
    rw [List.length_cons, List.range_succ_eq_map, List.find?_cons_of_pos]
    exact decide_eq_true h

/-- Without one the search goes on at the next bit. -/
theorem firstMarker_next {b : UInt8} {rest : List UInt8} (h : ¬ HasMarker (b :: rest)) :
    firstMarker (b :: rest) = (firstMarker rest).map (· + 1) := by
  unfold firstMarker
  rw [List.length_cons, List.range_succ_eq_map, List.find?_cons_of_neg, List.find?_map]
  · rfl
  · simpa using h

theorem firstMarker_short {stream : List UInt8} (h : stream.length < 32) :
    firstMarker stream = none := by
  unfold firstMarker
  rw [List.find?_eq_none]
  intro k _
  rw [decide_eq_true_eq]
  intro hmarker
  have := hmarker.1
  rw [List.length_drop] at this
  omega

theorem firstMarker_hasMarker {stream : List UInt8} {k : Nat} (h : firstMarker stream = some k) :
    HasMarker (stream.drop k) := by
  have := List.find?_some h
  exact of_decide_eq_true this

/-- The code's search returns the earliest marker. -/
theorem findSync_eq (bits : List UInt8) :
    (findSync bits).map (·.bitOffset) = firstMarker bits := by
  unfold findSync
  split
  · next h => rw [firstMarker_short h, Option.map_none]
  next hlength =>
  have hbits : SYNC_MARKER_BITS = 32 := rfl
  rw [hbits] at hlength ⊢
  -- beyond the last full window there is no marker
  have hsplit : List.range bits.length =
      List.range (bits.length - 32 + 1) ++
        (List.range 31).map (bits.length - 32 + 1 + ·) := by
    rw [← List.range_add]
    congr 1
    omega
  have hbeyond : ((List.range 31).map (bits.length - 32 + 1 + ·)).find?
      (fun k => decide (HasMarker (bits.drop k))) = none := by
    rw [List.find?_eq_none]
    intro k hk
    obtain ⟨i, _, rfl⟩ := List.mem_map.mp hk
    rw [decide_eq_true_eq]
    intro hmarker
    have := hmarker.1
    rw [List.length_drop] at this
    omega
  unfold firstMarker
  rw [hsplit, List.find?_append, hbeyond, Option.or_none]
  have hall : ∀ k ∈ List.range (bits.length - 32 + 1), k + 32 ≤ bits.length := by
    intro k hk
    have := List.mem_range.mp hk
    omega
  -- both searches make the same test at every full window
  revert hall
  generalize List.range (bits.length - 32 + 1) = ks
  intro hall
  induction ks with
  | nil => rfl
  | cons k ks ih =>
    have hk := hall k List.mem_cons_self
    have hdrop : 32 ≤ (bits.drop k).length := by
      rw [List.length_drop]
      omega
    have hrest := ih fun j hj => hall j (List.mem_cons_of_mem _ hj)
    have hmax : MAX_MARKER_ERRORS = 2 := rfl
    rw [List.findSome?_cons]
    dsimp only
    rw [countOnes_eq_bitErrors hdrop, hmax]
    by_cases hgood : bitErrors (bits.drop k) ≤ 2
    · have hmarker : HasMarker (bits.drop k) := ⟨hdrop, hgood⟩
      rw [if_pos hgood, List.find?_cons_of_pos (by simpa using hmarker)]
      rfl
    · have hmarker : ¬ HasMarker (bits.drop k) := fun h => hgood h.2
      rw [if_neg hgood, List.find?_cons_of_neg (by simpa using hmarker)]
      exact hrest

section

variable {validate : List UInt8 → Bool} {position k : Nat} {stream : List UInt8}

theorem greedy_none (h : firstMarker stream = none) : greedy validate position stream = [] := by
  rw [greedy]
  split
  · rfl
  · next hsome => rw [h] at hsome; cases hsome

theorem greedy_incomplete (h : firstMarker stream = some k) (hlength : stream.length < k + 8192) :
    greedy validate position stream = [] := by
  rw [greedy]
  split
  · rfl
  · next hsome =>
    rw [h] at hsome
    cases hsome
    rw [dif_neg (Nat.not_le.mpr hlength)]

theorem greedy_frame (h : firstMarker stream = some k) (hlength : k + 8192 ≤ stream.length) :
    greedy validate position stream =
      ⟨position + k + 8192, bitsToBytesMsb ((stream.drop k).take 8192)⟩ ::
        greedy validate
          (position + k + if validate (bitsToBytesMsb ((stream.drop k).take 8192)) then 8192 else 1)
          (stream.drop
            (k + if validate (bitsToBytesMsb ((stream.drop k).take 8192)) then 8192 else 1)) := by
  rw [greedy]
  split
  · next hnone => rw [h] at hnone; cases hnone
  · next hsome =>
    rw [h] at hsome
    cases hsome
    rw [dif_pos hlength]

/-- Bits without a marker at the front do not matter to the scan. -/
theorem greedy_next {b : UInt8} (h : ¬ HasMarker (b :: stream)) :
    greedy validate position (b :: stream) = greedy validate (position + 1) stream := by
  have hnext := firstMarker_next h
  match hfirst : firstMarker stream with
  | none =>
    rw [hfirst] at hnext
    rw [greedy_none hnext, greedy_none hfirst]
  | some k =>
    rw [hfirst] at hnext
    by_cases hlength : k + 8192 ≤ stream.length
    · have hcons : k + 1 + 8192 ≤ (b :: stream).length := by
        rw [List.length_cons]
        omega
      rw [greedy_frame hnext hcons, greedy_frame hfirst hlength]
      have hdrop : ∀ n, (b :: stream).drop (k + 1 + n) = stream.drop (k + n) := by
        intro n
        rw [Nat.add_right_comm, List.drop_succ_cons]
      have hposition : ∀ n, position + (k + 1) + n = position + 1 + k + n := by
        intro n
        omega
      simp only [hposition, hdrop, List.drop_succ_cons]
    · have hcons : (b :: stream).length < k + 1 + 8192 := by
        rw [List.length_cons]
        omega
      rw [greedy_incomplete hnext hcons, greedy_incomplete hfirst (Nat.not_le.mp hlength)]

end

/-! ## The synchroniser as a scanner

    The loop of the code drops all bits before a marker at once. The scanner
    drops them one at a time, so that its decisions depend on the front of
    the buffer only and later input does not change them. -/

/-- The lock and the number of bits gone from the buffer. -/
structure Search where
  locked : Bool
  position : Nat

/-- One bit or one candidate of the search. -/
def Search.scan (validate : List UInt8 → Bool) (s : Search) (buffer : List UInt8) :
    Option (Scanned Search LocatedFrame) :=
  if buffer.length < 32 then none
  else if HasMarker buffer then
    if buffer.length < 8192 then none
    else
      let candidate := bitsToBytesMsb (buffer.take 8192)
      let skip := if validate candidate then 8192 else 1
      some ⟨⟨validate candidate, s.position + skip⟩, [⟨s.position + 8192, candidate⟩], skip⟩
  else some ⟨⟨false, s.position + 1⟩, [], 1⟩

namespace Search

variable {validate : List UInt8 → Bool}

theorem scan_short {s : Search} {buffer : List UInt8} (h : buffer.length < 32) :
    s.scan validate buffer = none := by
  rw [scan, if_pos h]

theorem scan_skip {s : Search} {buffer : List UInt8} (hlength : 32 ≤ buffer.length)
    (h : ¬ HasMarker buffer) :
    s.scan validate buffer = some ⟨⟨false, s.position + 1⟩, [], 1⟩ := by
  rw [scan, if_neg (Nat.not_lt.mpr hlength), if_neg h]

theorem scan_incomplete {s : Search} {buffer : List UInt8} (h : HasMarker buffer)
    (hlength : buffer.length < 8192) : s.scan validate buffer = none := by
  rw [scan, if_neg (Nat.not_lt.mpr h.1), if_pos h, if_pos hlength]

theorem scan_candidate {s : Search} {buffer : List UInt8} (h : HasMarker buffer)
    (hlength : 8192 ≤ buffer.length) {candidate : List UInt8}
    (hcandidate : bitsToBytesMsb (buffer.take 8192) = candidate) :
    s.scan validate buffer = some ⟨⟨validate candidate,
        s.position + if validate candidate then 8192 else 1⟩,
      [⟨s.position + 8192, candidate⟩], if validate candidate then 8192 else 1⟩ := by
  rw [scan, if_neg (Nat.not_lt.mpr h.1), if_pos h, if_neg (Nat.not_lt.mpr hlength), hcandidate]

/-- What an iteration of the scanner can do. -/
theorem scan_cases {s : Search} {buffer : List UInt8} {r : Scanned Search LocatedFrame}
    (h : s.scan validate buffer = some r) :
    (32 ≤ buffer.length ∧ ¬ HasMarker buffer ∧ r.consumed = 1) ∨
    (HasMarker buffer ∧ 8192 ≤ buffer.length ∧ 0 < r.consumed ∧ r.consumed ≤ 8192) := by
  by_cases hshort : buffer.length < 32
  · rw [scan_short hshort] at h
    cases h
  by_cases hmarker : HasMarker buffer
  · right
    by_cases hlength : buffer.length < 8192
    · rw [scan_incomplete hmarker hlength] at h
      cases h
    · rw [scan_candidate hmarker (Nat.not_lt.mp hlength) rfl] at h
      cases h
      refine ⟨hmarker, Nat.not_lt.mp hlength, ?_⟩
      dsimp only
      split <;> omega
  · left
    rw [scan_skip (Nat.not_lt.mp hshort) hmarker] at h
    cases h
    exact ⟨Nat.not_lt.mp hshort, hmarker, rfl⟩

theorem hasMarker_append {buffer : List UInt8} (more : List UInt8) (h : 32 ≤ buffer.length) :
    HasMarker (buffer ++ more) ↔ HasMarker buffer := by
  have herrors : bitErrors (buffer ++ more) = bitErrors buffer := by
    unfold bitErrors
    congr 1
    apply List.filter_congr
    intro i hi
    rw [List.getD_append _ _ _ _ (by have := List.mem_range.mp hi; omega)]
  unfold HasMarker
  rw [herrors, List.length_append]
  constructor
  · intro ⟨_, hgood⟩
    exact ⟨h, hgood⟩
  · intro ⟨_, hgood⟩
    exact ⟨by omega, hgood⟩

theorem scan_append {s : Search} {buffer : List UInt8} {r : Scanned Search LocatedFrame}
    (more : List UInt8) (h : s.scan validate buffer = some r) :
    s.scan validate (buffer ++ more) = some r := by
  have hlength : buffer.length ≤ (buffer ++ more).length := by simp
  obtain ⟨h32, hno, _⟩ | ⟨hmarker, h8192, _⟩ := scan_cases h
  · rw [scan_skip h32 hno] at h
    rw [scan_skip (by omega) (mt (hasMarker_append more h32).mp hno)]
    exact h
  · rw [scan_candidate hmarker h8192 rfl] at h
    rw [scan_candidate ((hasMarker_append more hmarker.1).mpr hmarker) (by omega)
      (congrArg bitsToBytesMsb (List.take_append_of_le_length h8192))]
    exact h

def scanner (validate : List UInt8 → Bool) : Scanner Search UInt8 LocatedFrame where
  scan := scan validate
  progress := by
    intro s buffer r h
    obtain ⟨h32, _, hone⟩ | ⟨_, h8192, hpos, hle⟩ := scan_cases h
    · omega
    · omega
  stable := scan_append

/-- The scanner is the greedy scan. -/
theorem drain_greedy (s : Search) (stream : List UInt8) :
    ((scanner validate).drain s stream).output = greedy validate s.position stream := by
  induction s, stream using (scanner validate).drain_rec with
  | wait s stream h =>
    rw [(scanner validate).drain_wait h]
    have hscan : s.scan validate stream = none := h
    -- the scanner only waits at a marker that is at the front
    by_cases hshort : stream.length < 32
    · exact (greedy_none (firstMarker_short hshort)).symm
    by_cases hmarker : HasMarker stream
    · by_cases hlength : stream.length < 8192
      · exact (greedy_incomplete (firstMarker_front hmarker) (by omega)).symm
      · rw [scan_candidate hmarker (Nat.not_lt.mp hlength) rfl] at hscan
        cases hscan
    · rw [scan_skip (Nat.not_lt.mp hshort) hmarker] at hscan
      cases hscan
  | step s stream r h ih =>
    rw [(scanner validate).drain_step h]
    dsimp only
    rw [ih]
    have hscan : s.scan validate stream = some r := h
    obtain ⟨h32, hno, _⟩ | ⟨hmarker, h8192, _⟩ := scan_cases hscan
    · rw [scan_skip h32 hno] at hscan
      cases hscan
      match stream with
      | [] => exact absurd h32 (by decide)
      | b :: rest => exact (greedy_next hno).symm
    · rw [scan_candidate hmarker h8192 rfl] at hscan
      cases hscan
      rw [greedy_frame (firstMarker_front hmarker) (by omega)]
      simp only [Nat.zero_add, Nat.add_zero, List.drop_zero]
      rfl

/-- The position counts the bits consumed. -/
theorem drain_position (s : Search) (buffer : List UInt8) :
    ((scanner validate).drain s buffer).state.position +
      ((scanner validate).drain s buffer).rest.length = s.position + buffer.length := by
  induction s, buffer using (scanner validate).drain_rec with
  | wait s buffer h => rw [(scanner validate).drain_wait h]
  | step s buffer r h ih =>
    have hscan : s.scan validate buffer = some r := h
    have hconsumed : r.consumed ≤ buffer.length := ((scanner validate).progress h).2
    have hposition : r.state.position = s.position + r.consumed := by
      obtain ⟨h32, hno, _⟩ | ⟨hmarker, h8192, _⟩ := scan_cases hscan
      · rw [scan_skip h32 hno] at hscan
        cases hscan
        rfl
      · rw [scan_candidate hmarker h8192 rfl] at hscan
        cases hscan
        rfl
    rw [(scanner validate).drain_step h]
    show _ + _ = _
    rw [ih, List.length_drop, hposition]
    omega

end Search

/-! ## The code runs the scanner -/

namespace FrameSync

variable {validate : List UInt8 → Bool}

/-- The part of the state the scanner keeps. -/
def search (s : FrameSync) : Search :=
  ⟨s.locked, s.bitsReceived - s.bitBuffer.length⟩

/-- Where the scanner's loop leaves the code's state. -/
def rested (s : FrameSync) (d : Drained Search UInt8 LocatedFrame) : FrameSync :=
  ⟨d.rest, d.state.locked, s.bitsReceived⟩

/-- A marker at the front keeps a lock and a missing one drops it. -/
theorem checkLock_eq {s : FrameSync} (h : 32 ≤ s.bitBuffer.length) :
    s.checkLock = { s with locked := s.locked && decide (HasMarker s.bitBuffer) } := by
  have herrors : countOnes (bitsToU32 (s.bitBuffer.take SYNC_MARKER_BITS) ^^^ SYNC_MARKER) =
      bitErrors s.bitBuffer := countOnes_eq_bitErrors h
  unfold checkLock
  match hlocked : s.locked with
  | false => simp [← hlocked]
  | true =>
    dsimp only
    rw [if_pos rfl, herrors]
    by_cases hgood : bitErrors s.bitBuffer ≤ 2
    · have hmarker : HasMarker s.bitBuffer := ⟨h, hgood⟩
      have hfew : ¬ bitErrors s.bitBuffer > MAX_MARKER_ERRORS := Nat.not_lt.mpr hgood
      rw [if_neg hfew, decide_eq_true hmarker, Bool.and_true, ← hlocked]
    · have hmarker : ¬ HasMarker s.bitBuffer := fun hm => hgood hm.2
      have hmany : bitErrors s.bitBuffer > MAX_MARKER_ERRORS := Nat.not_le.mp hgood
      rw [if_pos hmany, decide_eq_false hmarker]
      rfl

/-- Skipping the bits before the next marker, as the scanner does it. -/
theorem drain_skip {position k : Nat} {buffer : List UInt8} (hfirst : firstMarker buffer = some k) :
    (Search.scanner validate).drain ⟨false, position⟩ buffer =
      (Search.scanner validate).drain ⟨false, position + k⟩ (buffer.drop k) := by
  induction buffer generalizing position k with
  | nil => cases hfirst
  | cons b rest ih =>
    by_cases hmarker : HasMarker (b :: rest)
    · rw [firstMarker_front hmarker] at hfirst
      cases hfirst
      rfl
    · have hlength : 32 ≤ (b :: rest).length := by
        by_contra hshort
        rw [firstMarker_short (Nat.not_le.mp hshort)] at hfirst
        cases hfirst
      rw [firstMarker_next hmarker] at hfirst
      obtain ⟨j, hj, rfl⟩ := Option.map_eq_some_iff.mp hfirst
      have hstep := (Search.scanner validate).drain_step
        (@Search.scan_skip validate ⟨false, position⟩ _ hlength hmarker)
      rw [hstep]
      show Drained.mk _ ([] ++ _) _ = _
      rw [List.nil_append, List.drop_succ_cons, ← Nat.add_assoc, Nat.add_right_comm]
      exact ih hj

/-- With no marker in sight, a possible split marker is kept. -/
theorem drain_none {position : Nat} {buffer : List UInt8} (hlength : 31 ≤ buffer.length)
    (hfirst : firstMarker buffer = none) :
    ∃ t, (Search.scanner validate).drain ⟨false, position⟩ buffer =
      ⟨⟨false, t⟩, [], buffer.drop (buffer.length - 31)⟩ := by
  induction buffer generalizing position with
  | nil => exact absurd hlength (by decide)
  | cons b rest ih =>
    by_cases hshort : (b :: rest).length < 32
    · have hzero : (b :: rest).length - 31 = 0 := by omega
      rw [(Search.scanner validate).drain_wait (Search.scan_short hshort), hzero]
      exact ⟨position, rfl⟩
    · have hmarker : ¬ HasMarker (b :: rest) := by
        intro hmarker
        rw [firstMarker_front hmarker] at hfirst
        cases hfirst
      rw [firstMarker_next hmarker, Option.map_eq_none_iff] at hfirst
      have hrest : 31 ≤ rest.length := by
        rw [List.length_cons] at hshort
        omega
      obtain ⟨t, ht⟩ := @ih (position + 1) hrest hfirst
      have hstep := (Search.scanner validate).drain_step
        (@Search.scan_skip validate ⟨false, position⟩ _
          (Nat.not_lt.mp hshort) hmarker)
      have hdrop : (b :: rest).length - 31 = rest.length - 31 + 1 := by
        rw [List.length_cons]
        omega
      rw [hstep, hdrop, List.drop_succ_cons]
      refine ⟨t, ?_⟩
      show Drained.mk ((Search.scanner validate).drain ⟨false, position + 1⟩ rest).state
        ([] ++ ((Search.scanner validate).drain ⟨false, position + 1⟩ rest).output)
        ((Search.scanner validate).drain ⟨false, position + 1⟩ rest).rest = _
      rw [ht]
      rfl

/-- A lock does not matter where there is no marker. -/
theorem drain_unlocked {locked : Bool} {position : Nat} {buffer : List UInt8}
    (hlength : 32 ≤ buffer.length) (hmarker : ¬ HasMarker buffer) :
    (Search.scanner validate).drain ⟨locked, position⟩ buffer =
      (Search.scanner validate).drain ⟨false, position⟩ buffer := by
  rw [(Search.scanner validate).drain_step (Search.scan_skip (s := ⟨locked, position⟩) hlength hmarker),
    (Search.scanner validate).drain_step (Search.scan_skip (s := ⟨false, position⟩) hlength hmarker)]

theorem loop_none {s : FrameSync} (hlength : 32 ≤ s.bitBuffer.length)
    (h : s.checkLock.align = none) :
    s.loop validate = ({ s.checkLock with
      bitBuffer := s.bitBuffer.drop (s.bitBuffer.length - 31) }, []) := by
  have hshort : ¬ s.bitBuffer.length < SYNC_MARKER_BITS := Nat.not_lt.mpr hlength
  rw [loop, if_neg hshort]
  dsimp only
  split
  · rw [checkLock_bitBuffer]
    rfl
  · next hsome => rw [h] at hsome; cases hsome

theorem loop_some {s t : FrameSync} (hlength : 32 ≤ s.bitBuffer.length)
    (h : s.checkLock.align = some t) :
    s.loop validate =
      if t.bitBuffer.length < 8192 then (t, [])
      else
        let candidate := bitsToBytesMsb (t.bitBuffer.take 8192)
        let skip := if validate candidate then 8192 else 1
        let later := loop validate
          { t with locked := validate candidate, bitBuffer := t.bitBuffer.drop skip }
        (later.1, ⟨t.bitsReceived - t.bitBuffer.length + 8192, candidate⟩ :: later.2) := by
  have hshort : ¬ s.bitBuffer.length < SYNC_MARKER_BITS := Nat.not_lt.mpr hlength
  rw [loop, if_neg hshort]
  dsimp only
  split
  · next hnone => rw [h] at hnone; cases hnone
  · next hsome =>
    rw [h] at hsome
    cases hsome
    rfl

/-- Aligning the buffer is what the scanner does until it is at a marker. -/
theorem align_search {s t : FrameSync} (hlength : 32 ≤ s.bitBuffer.length)
    (hreceived : s.bitBuffer.length ≤ s.bitsReceived) (h : s.checkLock.align = some t) :
    HasMarker t.bitBuffer ∧ t.bitsReceived = s.bitsReceived ∧
      t.bitBuffer.length ≤ s.bitBuffer.length ∧
      (Search.scanner validate).drain s.search s.bitBuffer =
        (Search.scanner validate).drain t.search t.bitBuffer := by
  rw [checkLock_eq hlength] at h
  unfold align at h
  split at h
  · next hlocked =>
    -- the marker is where the lock expects it
    obtain ⟨hlock, hmarker⟩ := Bool.and_eq_true_iff.mp hlocked
    rw [hmarker, Bool.and_true] at h
    cases h
    exact ⟨of_decide_eq_true hmarker, rfl, le_rfl, rfl⟩
  next hlocked =>
  obtain ⟨found, hfound, rfl⟩ := Option.map_eq_some_iff.mp h
  have hfirst : firstMarker s.bitBuffer = some found.bitOffset := by
    rw [← findSync_eq]
    exact congrArg (Option.map (·.bitOffset)) hfound
  have hat := firstMarker_hasMarker hfirst
  have hin := hat.1
  rw [List.length_drop] at hin
  refine ⟨hat, rfl, ?_, ?_⟩
  · show (s.bitBuffer.drop found.bitOffset).length ≤ _
    rw [List.length_drop]
    omega
  have hfalse : (s.locked && decide (HasMarker s.bitBuffer)) = false := by simpa using hlocked
  have hposition : s.bitsReceived - (s.bitBuffer.drop found.bitOffset).length =
      s.bitsReceived - s.bitBuffer.length + found.bitOffset := by
    rw [List.length_drop]
    omega
  show (Search.scanner validate).drain ⟨s.locked, s.bitsReceived - s.bitBuffer.length⟩ _ =
    (Search.scanner validate).drain ⟨s.locked && decide (HasMarker s.bitBuffer),
      s.bitsReceived - (s.bitBuffer.drop found.bitOffset).length⟩ (s.bitBuffer.drop found.bitOffset)
  rw [hfalse, hposition, ← drain_skip hfirst]
  by_cases hmarker : HasMarker s.bitBuffer
  · rw [decide_eq_true hmarker, Bool.and_true] at hfalse
    rw [hfalse]
  · exact drain_unlocked hlength hmarker

theorem align_none {s : FrameSync} (h : s.checkLock.align = none) :
    s.checkLock.locked = false ∧ firstMarker s.bitBuffer = none := by
  have hbuffer := checkLock_bitBuffer s
  unfold align at h
  split at h
  · cases h
  · next hlocked =>
    rw [Option.map_eq_none_iff, hbuffer] at h
    refine ⟨by simpa using hlocked, ?_⟩
    rw [← findSync_eq, h]
    rfl

/-- The loop of the code is the loop of the scanner. -/
theorem loop_eq_drain (s : FrameSync) (hreceived : s.bitBuffer.length ≤ s.bitsReceived) :
    s.loop validate =
      (s.rested ((Search.scanner validate).drain s.search s.bitBuffer),
        ((Search.scanner validate).drain s.search s.bitBuffer).output) := by
  -- every frame leaves a shorter buffer
  induction hn : s.bitBuffer.length using Nat.strong_induction_on generalizing s with
  | _ n ih =>
  by_cases hshort : s.bitBuffer.length < 32
  · rw [(Search.scanner validate).drain_wait (Search.scan_short hshort), loop]
    exact if_pos hshort
  have hlength := Nat.not_lt.mp hshort
  match halign : s.checkLock.align with
  | none =>
    obtain ⟨hlocked, hfirst⟩ := align_none halign
    have hmarker : ¬ HasMarker s.bitBuffer := by
      intro hmarker
      rw [firstMarker_front hmarker] at hfirst
      cases hfirst
    obtain ⟨t, ht⟩ := @drain_none validate (s.bitsReceived - s.bitBuffer.length) _
      (by omega) hfirst
    rw [loop_none hlength halign, search, drain_unlocked hlength hmarker, ht]
    dsimp only [rested]
    rw [hlocked, checkLock_bitsReceived]
  | some t =>
    obtain ⟨hmarker, hsame, hle, hdrain⟩ := @align_search validate _ _ hlength hreceived halign
    have hrested : s.rested = t.rested := by
      funext d
      rw [rested, rested, hsame]
    rw [loop_some hlength halign, hdrain, hrested]
    by_cases hincomplete : t.bitBuffer.length < 8192
    · rw [if_pos hincomplete,
        (Search.scanner validate).drain_wait (Search.scan_incomplete hmarker hincomplete)]
      rfl
    have hcomplete := Nat.not_lt.mp hincomplete
    rw [if_neg hincomplete, (Search.scanner validate).drain_step
      (Search.scan_candidate hmarker hcomplete rfl)]
    dsimp only
    generalize bitsToBytesMsb (t.bitBuffer.take 8192) = candidate
    generalize hskip : (if validate candidate then 8192 else 1) = skip
    have hskip' : 0 < skip ∧ skip ≤ 8192 := by
      rw [← hskip]
      split <;> omega
    have hdrop : (t.bitBuffer.drop skip).length = t.bitBuffer.length - skip := List.length_drop
    have hrec := ih (t.bitBuffer.drop skip).length (by omega)
      { t with locked := validate candidate, bitBuffer := t.bitBuffer.drop skip }
      (by show (t.bitBuffer.drop skip).length ≤ t.bitsReceived; omega) rfl
    have hposition : t.bitsReceived - (t.bitBuffer.drop skip).length =
        t.bitsReceived - t.bitBuffer.length + skip := by omega
    rw [hrec]
    show (rested t ((Search.scanner validate).drain ⟨_, t.bitsReceived -
      (t.bitBuffer.drop skip).length⟩ (t.bitBuffer.drop skip)), _ ::
      ((Search.scanner validate).drain ⟨_, t.bitsReceived -
        (t.bitBuffer.drop skip).length⟩ (t.bitBuffer.drop skip)).output) = _
    rw [hposition]
    rfl

/-! ## Runs -/

/-- The state between calls: at rest, and the buffer is what the scanner has
    not consumed of the bits received. -/
structure Between (validate : List UInt8 → Bool) (s : FrameSync) : Prop where
  rest : s.search.scan validate s.bitBuffer = none
  received : s.bitBuffer.length ≤ s.bitsReceived

theorem between_new : Between validate new := ⟨rfl, le_rfl⟩

/-- A scanner at rest has less than a frame in its buffer. -/
theorem Between.length_lt {s : FrameSync} (h : Between validate s) :
    s.bitBuffer.length < 8192 := by
  by_contra hlong
  have hrest := h.rest
  by_cases hmarker : HasMarker s.bitBuffer
  · rw [Search.scan_candidate hmarker (Nat.not_lt.mp hlong) rfl] at hrest
    cases hrest
  · rw [Search.scan_skip (by omega) hmarker] at hrest
    cases hrest

/-- One call drains what was kept and what it is given. -/
theorem Between.push {s : FrameSync} (h : Between validate s) (bits : List UInt8) :
    (s.pushBitsLocated validate bits).2 =
        ((Search.scanner validate).drain s.search (s.bitBuffer ++ bits)).output ∧
      (s.pushBitsLocated validate bits).1.bitBuffer =
        ((Search.scanner validate).drain s.search (s.bitBuffer ++ bits)).rest ∧
      (s.pushBitsLocated validate bits).1.search =
        ((Search.scanner validate).drain s.search (s.bitBuffer ++ bits)).state ∧
      Between validate (s.pushBitsLocated validate bits).1 := by
  have hkept := h.received
  have hlength : (s.bitBuffer ++ bits).length = s.bitBuffer.length + bits.length :=
    List.length_append
  have hreceived : (s.bitBuffer ++ bits).length ≤ s.bitsReceived + bits.length := by omega
  have hposition : s.bitsReceived + bits.length - (s.bitBuffer ++ bits).length =
      s.bitsReceived - s.bitBuffer.length := by omega
  have hloop := @loop_eq_drain validate
    ⟨s.bitBuffer ++ bits, s.locked, s.bitsReceived + bits.length⟩ hreceived
  have hsearch : search ⟨s.bitBuffer ++ bits, s.locked, s.bitsReceived + bits.length⟩ =
      s.search := congrArg (Search.mk s.locked) hposition
  rw [hsearch] at hloop
  have hcall : s.pushBitsLocated validate bits = _ := hloop
  have hend := @Search.drain_position validate s.search (s.bitBuffer ++ bits)
  have hstop := (Search.scanner validate).scan_drain s.search (s.bitBuffer ++ bits)
  rw [hcall]
  generalize (Search.scanner validate).drain s.search (s.bitBuffer ++ bits) = d at hend hstop
  have hstart : s.search.position = s.bitsReceived - s.bitBuffer.length := rfl
  have hstate : search ⟨d.rest, d.state.locked, s.bitsReceived + bits.length⟩ = d.state := by
    have : s.bitsReceived + bits.length - d.rest.length = d.state.position := by omega
    exact congrArg (Search.mk d.state.locked) this
  refine ⟨rfl, rfl, hstate, ⟨?_, ?_⟩⟩
  · show (search ⟨d.rest, d.state.locked, s.bitsReceived + bits.length⟩).scan validate d.rest = none
    rw [hstate]
    exact hstop
  · show d.rest.length ≤ s.bitsReceived + bits.length
    omega

/-- Calls feed the scanner chunk by chunk. -/
theorem Between.pushAll {s : FrameSync} (h : Between validate s) (chunks : List (List UInt8)) :
    (s.pushAll validate chunks).2 =
        ((Search.scanner validate).feed s.search s.bitBuffer chunks).output ∧
      Between validate (s.pushAll validate chunks).1 := by
  induction chunks generalizing s with
  | nil => exact ⟨rfl, h⟩
  | cons bits chunks ih =>
    obtain ⟨hout, hbuffer, hsearch, hnext⟩ := h.push bits
    obtain ⟨hrest, hlast⟩ := ih hnext
    refine ⟨?_, hlast⟩
    show (s.pushBitsLocated validate bits).2 ++
      ((s.pushBitsLocated validate bits).1.pushAll validate chunks).2 = _
    rw [hrest, hout, hbuffer, hsearch]
    rfl

end FrameSync

/-- **Refinement.** For every validator and every way of cutting a stream into
    calls, empty ones and single bits included, the synchroniser delivers the
    frames of the greedy scan of the whole stream, with their bytes and end
    positions, and less than a frame stays buffered. -/
theorem pushAll_greedy (validate : List UInt8 → Bool) (chunks : List (List UInt8)) :
    (FrameSync.new.pushAll validate chunks).2 = greedy validate 0 chunks.flatten ∧
      (FrameSync.new.pushAll validate chunks).1.bitBuffer.length < CADU_BITS := by
  have h : FrameSync.Between validate FrameSync.new := FrameSync.between_new
  obtain ⟨hout, hbetween⟩ := h.pushAll chunks
  have hrest : (Search.scanner validate).scan FrameSync.new.search FrameSync.new.bitBuffer = none :=
    h.rest
  refine ⟨?_, hbetween.length_lt⟩
  rw [hout, (Search.scanner validate).feed_eq_drain chunks hrest, Search.drain_greedy]
  rfl

end Lrpt
