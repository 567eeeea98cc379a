import EzSdr.Framework.Scanner
import EzSdr.Framework.Commutator

/-! # The Meteor 80k Deinterleaver

    The coded stream carries an eight-bit marker every 80 bits; the 72 data
    bits between markers went through a 36-branch convolutional interleaver.
    `MeteorDeinterleaver` finds the marker phase, strips the markers and deals
    the data bits to its 36 delay lines. Three bad markers in a row drop the
    lock, and every lock starts from empty history.

    **`pushBits_law`**: whatever the stream and its cuts, the output is that
    of a list of locks, each of which reads its data bits from the stream
    after everything the locks before it have read, and puts out bit `k` as
    its data bit `k - 36 * 2048 * (35 - k mod 36)` or an erasure.
-/

namespace Lrpt

/-! ## Model -/

def BRANCHES : Nat := 36
def DELAY_STEP : Nat := 2048
def MARKER : UInt8 := 0x27
def WIRE_BITS : Nat := 80
def DATA_BITS : Nat := 72
def ACQUIRE_BITS : Nat := 2 * WIRE_BITS + 8
def MAX_BAD_MARKERS : Nat := 3

structure ChannelBit where
  value : UInt8
  valid : Bool
deriving DecidableEq, Repr

def ChannelBit.ERASURE : ChannelBit := ⟨0, false⟩

structure TransportBlock where
  generation : Nat
  /-- First data bit of this marker acquisition, counted in wire bits. -/
  firstWireBit : Nat
  bits : List ChannelBit
deriving DecidableEq, Repr

/-- The deinterleaver without the bits it still has to look at. -/
structure Receiver where
  frontWireBit : Nat
  generation : Nat
  locked : Bool
  badMarkers : Nat
  firstWireBit : Nat
  branches : Commutator 36 ChannelBit

structure MeteorDeinterleaver where
  pending : List ChannelBit
  receiver : Receiver

def MeteorDeinterleaver.new : MeteorDeinterleaver where
  pending := []
  receiver := ⟨0, 0, false, 0, 0, ⟨fun _ => [], 0⟩⟩

def markerErrors (pending : List ChannelBit) (offset : Nat) : Nat :=
  ((List.range 8).filter fun bit =>
    let received := pending.getD (offset + bit) .ERASURE
    !received.valid || received.value != (MARKER >>> UInt8.ofNat (7 - bit)) &&& 1).length

namespace Receiver

def discard (s : Receiver) (count : Nat) : Receiver :=
  { s with frontWireBit := s.frontWireBit + count }

/-- The delay of a branch, in visits. -/
def branchDelay (branch : Fin 36) : Nat :=
  (BRANCHES - 1 - branch) * DELAY_STEP

def acquire (s : Receiver) : Receiver :=
  { s with
    generation := s.generation + 1
    locked := true
    badMarkers := 0
    firstWireBit := s.frontWireBit + 8
    branches := Commutator.fresh branchDelay .ERASURE }

/-- The part of the loop that runs under a lock. -/
def readBlock (s : Receiver) (pending : List ChannelBit) :
    Option (Scanned Receiver TransportBlock) :=
  if pending.length < WIRE_BITS then none
  else
    let badMarkers := if markerErrors pending 0 > 2 then s.badMarkers + 1 else 0
    if badMarkers ≥ MAX_BAD_MARKERS then
      -- search again from inside the current window
      some ⟨{ s with badMarkers := badMarkers, locked := false }.discard 1, [], 1⟩
    else
      let (bits, branches) := s.branches.feed ((pending.drop 8).take DATA_BITS)
      some ⟨{ s with badMarkers := badMarkers, branches := branches }.discard WIRE_BITS,
        [⟨s.generation, s.firstWireBit, bits⟩], WIRE_BITS⟩

/-- One iteration of the loop of `push_bits`. -/
def scan (s : Receiver) (pending : List ChannelBit) : Option (Scanned Receiver TransportBlock) :=
  if s.locked then s.readBlock pending
  else if pending.length < ACQUIRE_BITS then none
  else if [0, WIRE_BITS, 2 * WIRE_BITS].any fun offset => markerErrors pending offset != 0 then
    some ⟨s.discard 1, [], 1⟩
  else s.acquire.readBlock pending

end Receiver

/-! ## The loop is a scanner -/

theorem markerErrors_append {xs : List ChannelBit} {offset : Nat} (ys : List ChannelBit)
    (h : offset + 8 ≤ xs.length) : markerErrors (xs ++ ys) offset = markerErrors xs offset := by
  unfold markerErrors
  congr 1
  apply List.filter_congr
  intro bit hbit
  have hlt : offset + bit < xs.length := by
    have := List.mem_range.mp hbit
    omega
  rw [List.getD_append _ _ _ _ hlt]

namespace Receiver

/-- What an iteration under a lock can do. -/
theorem readBlock_cases {s : Receiver} {xs : List ChannelBit} {r : Scanned Receiver TransportBlock}
    (h : s.readBlock xs = some r) : WIRE_BITS ≤ xs.length ∧
      ((∃ bad, r = ⟨{ s with badMarkers := bad, locked := false }.discard 1, [], 1⟩) ∨
       (∃ bad, r = ⟨{ s with
            badMarkers := bad
            branches := (s.branches.feed ((xs.drop 8).take DATA_BITS)).2 }.discard WIRE_BITS,
          [⟨s.generation, s.firstWireBit, (s.branches.feed ((xs.drop 8).take DATA_BITS)).1⟩],
          WIRE_BITS⟩)) := by
  unfold readBlock at h
  split at h
  · cases h
  · next hlength =>
    refine ⟨Nat.le_of_not_lt hlength, ?_⟩
    dsimp only at h
    generalize (if markerErrors xs 0 > 2 then s.badMarkers + 1 else 0) = bad at h
    split at h
    · exact .inl ⟨_, (Option.some.inj h).symm⟩
    · exact .inr ⟨_, (Option.some.inj h).symm⟩

theorem readBlock_append {s : Receiver} {xs : List ChannelBit} (ys : List ChannelBit)
    (h : WIRE_BITS ≤ xs.length) : s.readBlock (xs ++ ys) = s.readBlock xs := by
  have hwire : WIRE_BITS = 80 := rfl
  have hdata : DATA_BITS = 72 := rfl
  have htake : ((xs ++ ys).drop 8).take DATA_BITS = (xs.drop 8).take DATA_BITS := by
    rw [List.drop_append_of_le_length (by omega), List.take_append_of_le_length]
    rw [List.length_drop]
    omega
  have hshort : ¬ xs.length < WIRE_BITS := Nat.not_lt.mpr h
  have hlong : ¬ (xs ++ ys).length < WIRE_BITS := by
    rw [List.length_append]
    omega
  unfold readBlock
  rw [if_neg hshort, if_neg hlong, htake, markerErrors_append ys (by omega)]

theorem readBlock_progress {s : Receiver} {xs : List ChannelBit}
    {r : Scanned Receiver TransportBlock} (h : s.readBlock xs = some r) :
    0 < r.consumed ∧ r.consumed ≤ xs.length := by
  obtain ⟨hlength, ⟨bad, rfl⟩ | ⟨bad, rfl⟩⟩ := readBlock_cases h
  · have hwire : 1 ≤ WIRE_BITS := by decide
    exact ⟨Nat.one_pos, hwire.trans hlength⟩
  · have hwire : 0 < WIRE_BITS := by decide
    exact ⟨hwire, hlength⟩

/-- What an iteration can do: skip a bit while searching, or read a block
    under the lock it has or has just acquired. -/
theorem scan_cases {s : Receiver} {xs : List ChannelBit} {r : Scanned Receiver TransportBlock}
    (h : s.scan xs = some r) :
    (s.locked = true ∧ s.readBlock xs = some r) ∨
    (s.locked = false ∧ ACQUIRE_BITS ≤ xs.length ∧
      (r = ⟨s.discard 1, [], 1⟩ ∨ s.acquire.readBlock xs = some r)) := by
  unfold scan at h
  split at h
  · next hlocked => exact .inl ⟨hlocked, h⟩
  · next hlocked =>
    right
    refine ⟨by simpa using hlocked, ?_⟩
    split at h
    · cases h
    · next hlength =>
      refine ⟨Nat.le_of_not_lt hlength, ?_⟩
      split at h
      · exact .inl (Option.some.inj h).symm
      · exact .inr h

theorem scan_progress {s : Receiver} {xs : List ChannelBit} {r : Scanned Receiver TransportBlock}
    (h : s.scan xs = some r) : 0 < r.consumed ∧ r.consumed ≤ xs.length := by
  obtain ⟨_, hread⟩ | ⟨_, hlength, rfl | hread⟩ := scan_cases h
  · exact readBlock_progress hread
  · have hacquire : 1 ≤ ACQUIRE_BITS := by decide
    exact ⟨Nat.one_pos, hacquire.trans hlength⟩
  · exact readBlock_progress hread

theorem scan_append {s : Receiver} {xs : List ChannelBit} {r : Scanned Receiver TransportBlock}
    (ys : List ChannelBit) (h : s.scan xs = some r) : s.scan (xs ++ ys) = some r := by
  have hwire : WIRE_BITS = 80 := rfl
  have hacquire : ACQUIRE_BITS = 168 := rfl
  have hcases := scan_cases h
  unfold scan at h ⊢
  match hlocked : s.locked with
  | true =>
    rw [hlocked] at h
    simp only [if_true] at h ⊢
    rw [readBlock_append ys (readBlock_cases h).1]
    exact h
  | false =>
    have hlength : ACQUIRE_BITS ≤ xs.length := by
      obtain ⟨htrue, _⟩ | ⟨_, hlength, _⟩ := hcases
      · rw [hlocked] at htrue
        cases htrue
      · exact hlength
    have hmarkers : ([0, WIRE_BITS, 2 * WIRE_BITS].any fun offset =>
          markerErrors (xs ++ ys) offset != 0) =
        [0, WIRE_BITS, 2 * WIRE_BITS].any fun offset => markerErrors xs offset != 0 := by
      simp only [List.any_cons, List.any_nil]
      rw [markerErrors_append ys (by omega), markerErrors_append ys (by omega),
        markerErrors_append ys (by omega)]
    have hlong : ¬ (xs ++ ys).length < ACQUIRE_BITS := by
      rw [List.length_append]
      omega
    rw [hlocked, if_neg (Nat.not_lt.mpr hlength)] at h
    rw [if_neg hlong, hmarkers, readBlock_append (s := s.acquire) ys (by omega)]
    exact h

/-- The loop of `push_bits`. -/
def scanner : Scanner Receiver ChannelBit TransportBlock where
  scan := scan
  progress := scan_progress
  stable := scan_append

end Receiver

namespace MeteorDeinterleaver

def pushBits (s : MeteorDeinterleaver) (bits : List ChannelBit) :
    MeteorDeinterleaver × List TransportBlock :=
  let r := Receiver.scanner.drain s.receiver (s.pending ++ bits)
  (⟨r.rest, r.state⟩, r.output)

/-- Push chunks in order and collect what they put out. -/
def pushAll (s : MeteorDeinterleaver) : List (List ChannelBit) → List TransportBlock
  | [] => []
  | bits :: chunks => (s.pushBits bits).2 ++ pushAll (s.pushBits bits).1 chunks

theorem pushAll_eq_feed (s : MeteorDeinterleaver) (chunks : List (List ChannelBit)) :
    s.pushAll chunks = (Receiver.scanner.feed s.receiver s.pending chunks).output := by
  induction chunks generalizing s with
  | nil => rfl
  | cons bits chunks ih =>
    show (s.pushBits bits).2 ++ pushAll (s.pushBits bits).1 chunks = _
    rw [ih]
    rfl

/-- The cuts between pushes do not matter. -/
theorem pushAll_eq_pushBits (chunks : List (List ChannelBit)) :
    new.pushAll chunks = (new.pushBits chunks.flatten).2 := by
  rw [pushAll_eq_feed, Receiver.scanner.feed_eq_drain chunks rfl]
  rfl

end MeteorDeinterleaver

/-! ## Locks

    What a run puts out is described by its locks. A lock names the wire bit
    of its first data bit and the number of blocks read under it. -/

structure Lock where
  firstWireBit : Nat
  blocks : Nat

namespace Lock

/-- The wire bit of data bit `k`: a marker stands before every 72 data bits. -/
def wireBit (l : Lock) (k : Nat) : Nat :=
  l.firstWireBit + k / DATA_BITS * WIRE_BITS + k % DATA_BITS

/-- The wire bits after the last block of the lock. -/
def wireEnd (l : Lock) : Nat :=
  l.firstWireBit + WIRE_BITS * l.blocks

/-- Data bit `k` received under the lock. -/
def input (l : Lock) (wire : List ChannelBit) (k : Nat) : ChannelBit :=
  wire.getD (l.wireBit k) .ERASURE

/-- The interleaver's delay of data bit `k`, in data bits. -/
def delay (k : Nat) : Nat :=
  36 * 2048 * (35 - k % 36)

/-- Data bit `k` put out under the lock. -/
def output (l : Lock) (wire : List ChannelBit) (k : Nat) : ChannelBit :=
  if k < delay k then .ERASURE else l.input wire (k - delay k)

/-- Block `j` of the lock as it is put out. -/
def block (l : Lock) (wire : List ChannelBit) (generation j : Nat) : TransportBlock :=
  ⟨generation, l.firstWireBit, (List.range DATA_BITS).map fun i => l.output wire (DATA_BITS * j + i)⟩

end Lock

/-- The blocks of a list of locks, the first of which is generation 1. -/
def transport (wire : List ChannelBit) (locks : List Lock) : List TransportBlock :=
  (locks.zipIdx 1).flatMap fun (l, generation) =>
    (List.range l.blocks).map (l.block wire generation)

theorem transport_append (wire : List ChannelBit) (locks : List Lock) (l : Lock) :
    transport wire (locks ++ [l]) =
      transport wire locks ++ (List.range l.blocks).map (l.block wire (locks.length + 1)) := by
  simp [transport, List.zipIdx_append, Nat.add_comm]

namespace Lock

/-- A block of the lock reads no further than the lock goes. -/
theorem wireBit_lt {l : Lock} {k : Nat} (h : k < DATA_BITS * l.blocks) :
    l.wireBit k + 8 < l.wireEnd := by
  have hdata : DATA_BITS = 72 := rfl
  have hwire : WIRE_BITS = 80 := rfl
  unfold wireBit wireEnd
  have hdiv : k / DATA_BITS < l.blocks := Nat.div_lt_of_lt_mul h
  have hmod : k % DATA_BITS < 72 := Nat.mod_lt k (by decide)
  rw [hwire]
  omega

theorem input_append {l : Lock} {wire : List ChannelBit} (more : List ChannelBit) {k : Nat}
    (hk : k < DATA_BITS * l.blocks) (hl : l.wireEnd ≤ wire.length + 8) :
    l.input (wire ++ more) k = l.input wire k := by
  have := wireBit_lt hk
  exact List.getD_append _ _ _ _ (by omega)

theorem block_append {l : Lock} {wire : List ChannelBit} (more : List ChannelBit)
    {generation j : Nat} (hj : j < l.blocks) (hl : l.wireEnd ≤ wire.length + 8) :
    l.block (wire ++ more) generation j = l.block wire generation j := by
  unfold block
  congr 1
  apply List.map_congr_left
  intro i hi
  have hlt : DATA_BITS * j + i < DATA_BITS * l.blocks := by
    have hi' := List.mem_range.mp hi
    have : DATA_BITS * (j + 1) ≤ DATA_BITS * l.blocks := Nat.mul_le_mul_left _ hj
    rw [Nat.mul_succ] at this
    omega
  unfold output
  split
  · rfl
  · exact input_append more (by omega) hl

end Lock

/-- Blocks already put out do not depend on the bits still to come. -/
theorem transport_stable {wire : List ChannelBit} (more : List ChannelBit) {locks : List Lock}
    (h : ∀ l ∈ locks, l.wireEnd ≤ wire.length + 8) :
    transport (wire ++ more) locks = transport wire locks := by
  unfold transport
  apply List.flatMap_congr
  intro x hx
  have hmem : x.1 ∈ locks := List.fst_mem_of_mem_zipIdx hx
  apply List.map_congr_left
  intro j hj
  exact Lock.block_append more (List.mem_range.mp hj) (h x.1 hmem)

/-! ## The history of a receiver -/

/-- The state under a lock: the next block follows the last one, and the
    delay lines have been dealt the data bits of the lock from empty. -/
structure Receiver.Under (s : Receiver) (wire : List ChannelBit) (l : Lock) : Prop where
  first : l.firstWireBit = s.firstWireBit
  next : l.wireEnd = wire.length + 8
  lines : s.branches = ((Commutator.fresh Receiver.branchDelay .ERASURE).feed
    ((List.range (DATA_BITS * l.blocks)).map (l.input wire))).2

/-- What is known after consuming the bits `wire` and emitting `out`. -/
structure Receiver.History (s : Receiver) (wire : List ChannelBit) (out : List TransportBlock)
    (locks : List Lock) : Prop where
  front : s.frontWireBit = wire.length
  generation : s.generation = locks.length
  emitted : out = transport wire locks
  /-- A lock starts after everything read under the locks before it. -/
  ordered : locks.Pairwise fun a b => a.wireEnd ≤ b.firstWireBit
  within : ∀ l ∈ locks, l.wireEnd ≤ wire.length + 8
  current : s.locked = true → ∃ older l, locks = older ++ [l] ∧ s.Under wire l

namespace Receiver

theorem history_new : History MeteorDeinterleaver.new.receiver [] [] [] where
  front := rfl
  generation := rfl
  emitted := rfl
  ordered := .nil
  within := by intro l hl; cases hl
  current := by intro h; cases h

/-- Going back to the search, at any later bit. -/
theorem History.search {s : Receiver} {wire : List ChannelBit} {out : List TransportBlock}
    {locks : List Lock} (h : s.History wire out locks) {xs : List ChannelBit} (hxs : 1 ≤ xs.length)
    {t : Receiver} (hfront : t.frontWireBit = s.frontWireBit + 1)
    (hgeneration : t.generation = s.generation) (hlocked : t.locked = false) :
    t.History (wire ++ xs.take 1) out locks := by
  have htake : (xs.take 1).length = 1 := by
    rw [List.length_take]
    omega
  refine ⟨?_, hgeneration.trans h.generation, ?_, h.ordered, ?_, ?_⟩
  · rw [hfront, h.front, List.length_append, htake]
  · rw [h.emitted, transport_stable _ h.within]
  · intro l hl
    have := h.within l hl
    rw [List.length_append]
    omega
  · intro hcontra
    rw [hlocked] at hcontra
    cases hcontra

/-- A new lock starts with no block and empty delay lines. -/
theorem History.acquire {s : Receiver} {wire : List ChannelBit} {out : List TransportBlock}
    {locks : List Lock} (h : s.History wire out locks) :
    s.acquire.History wire out (locks ++ [⟨wire.length + 8, 0⟩]) := by
  have hend : (⟨wire.length + 8, 0⟩ : Lock).wireEnd = wire.length + 8 := rfl
  refine ⟨h.front, ?_, ?_, ?_, ?_, ?_⟩
  · show s.generation + 1 = _
    rw [h.generation, List.length_append, List.length_singleton]
  · rw [transport_append, h.emitted]
    exact (List.append_nil _).symm
  · rw [List.pairwise_append]
    refine ⟨h.ordered, List.pairwise_singleton _ _, ?_⟩
    intro a ha b hb
    rw [List.mem_singleton.mp hb]
    exact h.within a ha
  · intro l hl
    obtain hold | hnew := List.mem_append.mp hl
    · exact h.within l hold
    · rw [List.mem_singleton.mp hnew, hend]
  · intro _
    refine ⟨locks, _, rfl, ⟨?_, hend, rfl⟩⟩
    show wire.length + 8 = s.frontWireBit + 8
    rw [h.front]

/-- The 72 data bits of a block are the next ones of its lock. -/
theorem input_block {l : Lock} {wire xs : List ChannelBit} (hxs : WIRE_BITS ≤ xs.length)
    (hnext : l.wireEnd = wire.length + 8) :
    (xs.drop 8).take DATA_BITS = (List.range DATA_BITS).map fun i =>
      l.input (wire ++ xs.take WIRE_BITS) (DATA_BITS * l.blocks + i) := by
  have hdata : DATA_BITS = 72 := rfl
  have hwire : WIRE_BITS = 80 := rfl
  apply List.ext_getElem?
  intro i
  by_cases hi : i < DATA_BITS
  · have hbit : l.wireBit (DATA_BITS * l.blocks + i) = wire.length + (8 + i) := by
      unfold Lock.wireBit
      unfold Lock.wireEnd at hnext
      rw [Nat.mul_add_div (by decide), Nat.mul_add_mod, Nat.div_eq_of_lt hi, Nat.mod_eq_of_lt hi,
        Nat.add_zero, Nat.mul_comm l.blocks]
      omega
    have hin : 8 + i < (xs.take WIRE_BITS).length := by
      rw [List.length_take]
      omega
    rw [List.getElem?_take_of_lt hi, List.getElem?_drop, List.getElem?_map,
      List.getElem?_range hi, Option.map_some]
    unfold Lock.input
    rw [hbit, List.getD_append_right _ _ _ _ (Nat.le_add_right _ _), Nat.add_sub_cancel_left,
      List.getD_eq_getElem _ _ hin, List.getElem_take]
    exact List.getElem?_eq_getElem (by omega)
  · rw [List.getElem?_eq_none, List.getElem?_eq_none]
    · rw [List.length_map, List.length_range]
      omega
    · rw [List.length_take]
      omega

theorem delay_eq (k : Nat) :
    36 * branchDelay (Fin.ofNat 36 k) = Lock.delay k := by
  show 36 * ((35 - k % 36) * 2048) = 36 * 2048 * (35 - k % 36)
  omega

/-- The law of the delay lines at one lock. -/
theorem output_eq_delayed (l : Lock) (wire : List ChannelBit) (k : Nat) :
    Commutator.delayed branchDelay .ERASURE (l.input wire) k = l.output wire k := by
  unfold Commutator.delayed Lock.output
  rw [delay_eq]

/-- Reading a block under a lock adds it to the lock. -/
theorem History.block {s : Receiver} {wire : List ChannelBit} {out : List TransportBlock}
    {older : List Lock} {l : Lock} (h : s.History wire out (older ++ [l])) (hu : s.Under wire l)
    {xs : List ChannelBit} (hxs : WIRE_BITS ≤ xs.length) (bad : Nat) :
    History ({ s with
          badMarkers := bad
          branches := (s.branches.feed ((xs.drop 8).take DATA_BITS)).2 }.discard WIRE_BITS)
      (wire ++ xs.take WIRE_BITS)
      (out ++ [⟨s.generation, s.firstWireBit, (s.branches.feed ((xs.drop 8).take DATA_BITS)).1⟩])
      (older ++ [⟨l.firstWireBit, l.blocks + 1⟩]) := by
  have hwire : WIRE_BITS = 80 := rfl
  have htake : (xs.take WIRE_BITS).length = WIRE_BITS := by
    rw [List.length_take]
    omega
  have hlength : (wire ++ xs.take WIRE_BITS).length = wire.length + WIRE_BITS := by
    rw [List.length_append, htake]
  have hend : (⟨l.firstWireBit, l.blocks + 1⟩ : Lock).wireEnd = l.wireEnd + WIRE_BITS := by
    show l.firstWireBit + WIRE_BITS * (l.blocks + 1) = l.firstWireBit + WIRE_BITS * l.blocks + _
    rw [Nat.mul_succ, Nat.add_assoc]
  -- the lines after the block have been dealt the data bits of all its blocks
  have hpast : (List.range (DATA_BITS * l.blocks)).map (l.input wire) =
      (List.range (DATA_BITS * l.blocks)).map (l.input (wire ++ xs.take WIRE_BITS)) := by
    apply List.map_congr_left
    intro k hk
    exact (Lock.input_append _ (List.mem_range.mp hk) hu.next.le).symm
  have hdealt : (List.range (DATA_BITS * (l.blocks + 1))).map (l.input (wire ++ xs.take WIRE_BITS)) =
      (List.range (DATA_BITS * l.blocks)).map (l.input wire) ++ (xs.drop 8).take DATA_BITS := by
    rw [input_block hxs hu.next, hpast, Nat.mul_succ, List.range_add, List.map_append, List.map_map]
    rfl
  have hfeed := Commutator.feed_append (Commutator.fresh branchDelay ChannelBit.ERASURE)
    ((List.range (DATA_BITS * l.blocks)).map (l.input wire)) ((xs.drop 8).take DATA_BITS)
  rw [← hdealt, ← hu.lines] at hfeed
  have hout := congrArg Prod.fst hfeed
  have hlines := congrArg Prod.snd hfeed
  -- and what the lines put out for it follows the law
  have hbits : (s.branches.feed ((xs.drop 8).take DATA_BITS)).1 =
      (List.range DATA_BITS).map fun i =>
        l.output (wire ++ xs.take WIRE_BITS) (DATA_BITS * l.blocks + i) := by
    rw [Commutator.feed_fresh, hpast, Commutator.feed_fresh, Nat.mul_succ, List.range_add,
      List.map_append, List.map_map] at hout
    rw [← List.append_cancel_left hout]
    apply List.map_congr_left
    intro i _
    exact output_eq_delayed l _ _
  refine ⟨?_, ?_, ?_, ?_, ?_, ?_⟩
  · show s.frontWireBit + WIRE_BITS = _
    rw [h.front, hlength]
  · show s.generation = _
    rw [h.generation, List.length_append, List.length_append]
    rfl
  · rw [h.emitted, ← transport_stable (xs.take WIRE_BITS) h.within, transport_append,
      transport_append, List.range_succ, List.map_append, ← List.append_assoc, hbits,
      h.generation, List.length_append, ← hu.first]
    rfl
  · have hordered := h.ordered
    rw [List.pairwise_append] at hordered ⊢
    refine ⟨hordered.1, List.pairwise_singleton _ _, ?_⟩
    intro a ha b hb
    rw [List.mem_singleton.mp hb]
    exact hordered.2.2 a ha l List.mem_cons_self
  · intro a ha
    rw [hlength]
    obtain hold | hnew := List.mem_append.mp ha
    · have := h.within a (List.mem_append_left _ hold)
      omega
    · rw [List.mem_singleton.mp hnew, hend, hu.next]
      omega
  · intro _
    refine ⟨older, _, rfl, ⟨hu.first, ?_, hlines.symm⟩⟩
    rw [hend, hu.next, hlength]
    omega

theorem History.readBlock {s : Receiver} {wire : List ChannelBit} {out : List TransportBlock}
    {locks : List Lock} (h : s.History wire out locks) (hlocked : s.locked = true)
    {xs : List ChannelBit} {r : Scanned Receiver TransportBlock} (hr : s.readBlock xs = some r) :
    ∃ locks', r.state.History (wire ++ xs.take r.consumed) (out ++ r.output) locks' := by
  obtain ⟨hlength, ⟨bad, rfl⟩ | ⟨bad, rfl⟩⟩ := readBlock_cases hr
  · have hwire : 1 ≤ WIRE_BITS := by decide
    rw [List.append_nil]
    exact ⟨locks, h.search (hwire.trans hlength) rfl rfl rfl⟩
  · obtain ⟨older, l, hlocks, hu⟩ := h.current hlocked
    subst hlocks
    exact ⟨_, h.block hu hlength bad⟩

/-- One iteration of the loop. -/
theorem History.scan {s : Receiver} {wire : List ChannelBit} {out : List TransportBlock}
    {locks : List Lock} (h : s.History wire out locks)
    {xs : List ChannelBit} {r : Scanned Receiver TransportBlock} (hr : s.scan xs = some r) :
    ∃ locks', r.state.History (wire ++ xs.take r.consumed) (out ++ r.output) locks' := by
  obtain ⟨hlocked, hread⟩ | ⟨hunlocked, hlength, rfl | hread⟩ := scan_cases hr
  · exact h.readBlock hlocked hread
  · have hacquire : 1 ≤ ACQUIRE_BITS := by decide
    rw [List.append_nil]
    exact ⟨locks, h.search (hacquire.trans hlength) rfl rfl hunlocked⟩
  · exact h.acquire.readBlock rfl hread

end Receiver

/-- **The law of the deinterleaver**, for every stream and every way of
    cutting it into pushes. The output is that of a list of locks: lock
    number `g` is generation `g`, its blocks carry output bit `k` as its input
    bit `k - 36 * 2048 * (35 - k mod 36)` with its validity flag, or as an
    erasure when there is none, and its input bits all stand on the wire at
    `firstWireBit` or later, which is after the last bit of every older lock. -/
theorem pushBits_law (chunks : List (List ChannelBit)) :
    MeteorDeinterleaver.new.pushAll chunks =
        (MeteorDeinterleaver.new.pushBits chunks.flatten).2 ∧
      ∃ locks : List Lock,
        MeteorDeinterleaver.new.pushAll chunks = transport chunks.flatten locks ∧
        (locks.Pairwise fun a b => a.wireEnd ≤ b.firstWireBit) ∧
        ∀ l ∈ locks, l.wireEnd ≤ chunks.flatten.length + 8 := by
  refine ⟨MeteorDeinterleaver.pushAll_eq_pushBits chunks, ?_⟩
  rw [MeteorDeinterleaver.pushAll_eq_pushBits]
  obtain ⟨used, hused, locks, h⟩ := @Scanner.drain_induct _ _ _ Receiver.scanner
    (fun s wire out => ∃ locks, Receiver.History s wire out locks)
    (fun ⟨_, h⟩ hr => h.scan hr) MeteorDeinterleaver.new.receiver
    (MeteorDeinterleaver.new.pending ++ chunks.flatten) [] [] ⟨[], Receiver.history_new⟩
  rw [List.nil_append, List.nil_append] at h
  -- the bits not consumed yet are not in any block
  have hwire : chunks.flatten = used ++ (Receiver.scanner.drain
      MeteorDeinterleaver.new.receiver (MeteorDeinterleaver.new.pending ++ chunks.flatten)).rest :=
    hused
  refine ⟨locks, ?_, h.ordered, ?_⟩
  · rw [hwire, transport_stable _ h.within, ← hwire]
    exact h.emitted
  · intro l hl
    have := h.within l hl
    rw [hwire, List.length_append]
    omega

/-! ## A stream with its markers -/

/-- A block as it is on the wire: the marker, then the data bits. -/
structure Marked (block : List ChannelBit) : Prop where
  length : block.length = WIRE_BITS
  marker : markerErrors block 0 = 0

theorem markerErrors_past (xs ys : List ChannelBit) (offset : Nat) :
    markerErrors (xs ++ ys) (xs.length + offset) = markerErrors ys offset := by
  unfold markerErrors
  congr 1
  apply List.filter_congr
  intro bit _
  rw [List.getD_append_right _ _ _ _ (by omega), Nat.add_assoc, Nat.add_sub_cancel_left]

theorem Marked.errors {block : List ChannelBit} (h : Marked block) (rest : List ChannelBit) :
    markerErrors (block ++ rest) 0 = 0 := by
  have hlength := h.length
  have hwire : WIRE_BITS = 80 := rfl
  rw [markerErrors_append rest (by omega), h.marker]

namespace Receiver

/-- A marked block is read, whatever came before it. -/
theorem readBlock_marked (s : Receiver) {block : List ChannelBit} (h : Marked block)
    (rest : List ChannelBit) : s.readBlock (block ++ rest) =
      some ⟨{ s with
          badMarkers := 0
          branches := (s.branches.feed (((block ++ rest).drop 8).take DATA_BITS)).2 }.discard WIRE_BITS,
        [⟨s.generation, s.firstWireBit,
          (s.branches.feed (((block ++ rest).drop 8).take DATA_BITS)).1⟩], WIRE_BITS⟩ := by
  have hlong : ¬ (block ++ rest).length < WIRE_BITS := by
    rw [List.length_append, h.length]
    omega
  unfold readBlock
  rw [if_neg hlong, h.errors rest]
  rfl

theorem scan_locked {s : Receiver} (h : s.locked = true) (xs : List ChannelBit) :
    scanner.scan s xs = s.readBlock xs :=
  if_pos h

theorem scan_found {s : Receiver} (h : s.locked = false) {xs : List ChannelBit}
    (hlong : ACQUIRE_BITS ≤ xs.length)
    (hmarkers : ∀ offset ∈ [0, WIRE_BITS, 2 * WIRE_BITS], markerErrors xs offset = 0) :
    scanner.scan s xs = s.acquire.readBlock xs := by
  have hfound : [0, WIRE_BITS, 2 * WIRE_BITS].any (fun offset => markerErrors xs offset != 0) =
      false := by
    rw [List.any_eq_false]
    intro offset hoffset
    rw [hmarkers offset hoffset]
    exact Bool.false_ne_true
  have hopen : ¬ s.locked = true := Bool.eq_false_iff.1 h
  have hscan : scanner.scan s xs = s.scan xs := rfl
  rw [hscan, scan, if_neg hopen, if_neg (Nat.not_lt.2 hlong), hfound, if_neg Bool.false_ne_true]

/-- Under a lock all marked blocks are read. -/
theorem drain_marked {s : Receiver} (hlocked : s.locked = true) {wire : List ChannelBit}
    {out : List TransportBlock} {older : List Lock} {l : Lock} (h : s.History wire out (older ++ [l]))
    {blocks : List (List ChannelBit)} (hblocks : ∀ block ∈ blocks, Marked block) :
    out ++ (scanner.drain s blocks.flatten).output = transport (wire ++ blocks.flatten)
      (older ++ [⟨l.firstWireBit, l.blocks + blocks.length⟩]) := by
  induction blocks generalizing s wire out l with
  | nil =>
    have hwait : scanner.scan s [] = none := if_pos hlocked
    rw [List.flatten_nil, scanner.drain_wait hwait, List.append_nil, List.append_nil]
    exact h.emitted
  | cons block blocks ih =>
    obtain ⟨hblock, hrest⟩ := List.forall_mem_cons.1 hblocks
    obtain ⟨older', l', hlocks, hu⟩ := h.current hlocked
    obtain ⟨rfl, hsame⟩ := List.append_inj' hlocks rfl
    obtain rfl := List.head_eq_of_cons_eq hsame
    have hscan := (scan_locked hlocked _).trans (s.readBlock_marked hblock blocks.flatten)
    have hlong : WIRE_BITS ≤ (block ++ blocks.flatten).length := by
      rw [List.length_append, hblock.length]
      exact Nat.le_add_right _ _
    have hnext := h.block hu hlong 0
    have hlater := ih (by exact hlocked) hnext hrest
    rw [List.take_left' hblock.length, List.append_assoc, List.append_assoc, Nat.add_assoc,
      Nat.add_comm 1] at hlater
    rw [List.flatten_cons, scanner.drain_step hscan]
    dsimp only
    rw [List.drop_left' hblock.length, List.length_cons]
    exact hlater

end Receiver

/-- A stream in which every block is marked is read under one lock. -/
theorem pushAll_marked {blocks : List (List ChannelBit)} (hblocks : ∀ block ∈ blocks, Marked block)
    (hlong : 3 ≤ blocks.length) {chunks : List (List ChannelBit)}
    (hchunks : chunks.flatten = blocks.flatten) :
    MeteorDeinterleaver.new.pushAll chunks = transport chunks.flatten [⟨8, blocks.length⟩] := by
  match blocks, hlong with
  | first :: second :: third :: rest, _ =>
    have hmarked (block : List ChannelBit) (hblock : block ∈ [first, second, third]) : Marked block :=
      hblocks block ((List.sublist_append_left [first, second, third] rest).subset hblock)
    have hfirst := hmarked first (by simp)
    have hsecond := hmarked second (by simp)
    have hthird := hmarked third (by simp)
    have hwire : WIRE_BITS = 80 := rfl
    generalize hxs : first ++ (second ++ (third ++ rest.flatten)) = xs
    have hflatten : (first :: second :: third :: rest).flatten = xs := hxs
    -- the three markers that a lock takes are there
    have hlength : ACQUIRE_BITS ≤ xs.length := by
      have hacquire : ACQUIRE_BITS = 168 := rfl
      rw [← hxs, List.length_append, List.length_append, List.length_append, hfirst.length,
        hsecond.length, hthird.length]
      omega
    have hone : markerErrors xs WIRE_BITS = 0 := by
      rw [← hxs, ← Nat.add_zero WIRE_BITS, ← hfirst.length, markerErrors_past, hsecond.errors]
    have htwo : markerErrors xs (2 * WIRE_BITS) = 0 := by
      rw [← hxs, Nat.two_mul]
      nth_rewrite 1 [← hfirst.length]
      rw [markerErrors_past, ← Nat.add_zero WIRE_BITS, ← hsecond.length, markerErrors_past,
        hthird.errors]
    have hzero : markerErrors xs 0 = 0 := hxs ▸ hfirst.errors _
    have hread := MeteorDeinterleaver.new.receiver.acquire.readBlock_marked hfirst
      (second ++ (third ++ rest.flatten))
    rw [hxs] at hread
    have hsearch := (Receiver.scan_found (s := MeteorDeinterleaver.new.receiver) rfl hlength
      (by simp [hzero, hone, htwo])).trans hread
    have hunder := (Receiver.scan_locked rfl xs).trans hread
    have hall := Receiver.drain_marked rfl Receiver.history_new.acquire hblocks
    rw [hflatten, Receiver.scanner.drain_step hunder, ← Receiver.scanner.drain_step hsearch] at hall
    simp only [List.nil_append, List.length_nil, Nat.zero_add] at hall
    rw [MeteorDeinterleaver.pushAll_eq_pushBits, hchunks, hflatten]
    exact hall

end Lrpt
