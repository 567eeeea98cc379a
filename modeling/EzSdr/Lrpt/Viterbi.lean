import EzSdr.Framework.Trellis

/-! # Viterbi Decoder

    A streaming hard-decision decoder of the rate-1/2 code of constraint
    length 7. It keeps one metric a state, the decisions of the last steps and
    half a symbol between calls, and emits a bit as soon as 64 decisions are
    there to trace it back through.
-/

namespace Lrpt.Viterbi

/-! ## Model -/

abbrev STATES : Nat := 64
def TRACEBACK : Nat := 64
def G1 : UInt8 := 0o171
def G2 : UInt8 := 0o133
def INF : Nat := 1000000

def countOnes (v : UInt8) : Nat := ((List.range 8).filter fun i => v.toBitVec.getLsbD i).length

def parity (v : UInt8) : UInt8 := (countOnes v).toUInt8 &&& 1

/-- The shift register: the new bit above the state. -/
def register (state : Fin STATES) (input : UInt8) : UInt8 :=
  ((input <<< 6) ||| state.val.toUInt8) &&& 0x7f

def expected (state : Fin STATES) (input : UInt8) : UInt8 × UInt8 :=
  (parity (register state input &&& G1) ^^^ 1, parity (register state input &&& G2) ^^^ 1)

/-- In how many of its two bits a symbol differs from another. -/
def mismatches (x y : UInt8 × UInt8) : Nat :=
  (if x.1 ≠ y.1 then 1 else 0) + (if x.2 ≠ y.2 then 1 else 0)

def branchCost (state : Fin STATES) (input : UInt8) (received : UInt8 × UInt8) : Nat :=
  mismatches (expected state input) received

def nextState (state : Fin STATES) (input : UInt8) : Fin STATES :=
  ⟨((input.toNat <<< 5) ||| (state.val >>> 1)) &&& (STATES - 1),
    Nat.lt_of_le_of_lt Nat.and_le_right (by decide)⟩

/-- `metrics` are below `INF` exactly for the states reached so far; the
    oldest decision comes first. -/
structure ViterbiDecoder where
  metrics : Vector Nat STATES
  decisions : List (Vector (Fin STATES) STATES)
  pendingBit : Option UInt8
deriving DecidableEq

/-- The tables one step fills: the metric of every next state and the state it
    was reached from. -/
structure Tables where
  next : Vector Nat STATES
  predecessor : Vector (Fin STATES) STATES

/-- One branch of the add-compare-select step. -/
def Tables.relax (metrics : Vector Nat STATES) (received : UInt8 × UInt8) (state : Fin STATES)
    (tables : Tables) (input : UInt8) : Tables :=
  let target := nextState state input
  let cost := metrics.get state + branchCost state input received
  if cost < tables.next.get target then
    ⟨tables.next.set target cost, tables.predecessor.set target state⟩
  else tables

def addCompareSelect (metrics : Vector Nat STATES) (received : UInt8 × UInt8) : Tables :=
  (List.finRange STATES).foldl
    (fun tables state =>
      if metrics.get state ≥ INF then tables
      else [0, 1].foldl (Tables.relax metrics received state) tables)
    ⟨Vector.replicate STATES INF, Vector.replicate STATES 0⟩

/-- The first state of least metric. -/
def bestState (metrics : Vector Nat STATES) : Fin STATES :=
  (List.finRange STATES).foldl
    (fun best state => if metrics.get state < metrics.get best then state else best) 0

/-- Subtract the common minimum from the metrics of the reached states. -/
def normalize (metrics : Vector Nat STATES) : Vector Nat STATES :=
  let minimum := metrics.toList.min?.getD 0
  metrics.map fun metric => if metric < INF then metric - minimum else metric

def stateBit (state : Fin STATES) : UInt8 := ((state.val >>> 5) &&& 1).toUInt8

/-- The bits on the way back from `state`, oldest first; the newest decision
    is the first of the list. -/
def traceback : List (Vector (Fin STATES) STATES) → Fin STATES → List UInt8
  | [], _ => []
  | decision :: older, state => traceback older (decision.get state) ++ [stateBit state]

namespace ViterbiDecoder

def new : ViterbiDecoder := ⟨(Vector.replicate STATES INF).set 0 0, [], none⟩

/-- One trellis step. -/
def step (decoder : ViterbiDecoder) (received : UInt8 × UInt8) : ViterbiDecoder × List UInt8 :=
  let tables := addCompareSelect decoder.metrics received
  let metrics := normalize tables.next
  let decisions := decoder.decisions ++ [tables.predecessor]
  if decisions.length ≥ TRACEBACK then
    ({ decoder with metrics := metrics, decisions := decisions.tail },
      [(traceback decisions.reverse (bestState metrics)).headD 0])
  else ({ decoder with metrics := metrics, decisions := decisions }, [])

/-- The loop of `pushBits` over the coded bits left. -/
def steps (decoder : ViterbiDecoder) : List UInt8 → ViterbiDecoder × List UInt8
  | [] => (decoder, [])
  | [first] => ({ decoder with pendingBit := some first }, [])
  | first :: second :: coded =>
    let (decoder', out) := decoder.step (first &&& 1, second &&& 1)
    let (decoder'', out') := steps decoder' coded
    (decoder'', out ++ out')

def pushBits (decoder : ViterbiDecoder) (bits : List UInt8) : ViterbiDecoder × List UInt8 :=
  steps { decoder with pendingBit := none } (decoder.pendingBit.toList ++ bits)

/-- A stream handed over in pieces. -/
def pushAll (decoder : ViterbiDecoder) : List (List UInt8) → ViterbiDecoder × List UInt8
  | [] => (decoder, [])
  | bits :: later =>
    let (decoder', out) := decoder.pushBits bits
    let (decoder'', out') := pushAll decoder' later
    (decoder'', out ++ out')

end ViterbiDecoder

/-- The state the encoder starts in. -/
abbrev zeroState : Fin STATES := 0

/-- The state of the encoder the decoder is tested against. -/
def encoderNext (state : Fin STATES) (bit : UInt8) : Fin STATES :=
  ⟨((register state (bit &&& 1) >>> 1) &&& 0x3f).toNat, by
    rw [UInt8.toNat_and]
    exact Nat.lt_of_le_of_lt Nat.and_le_right (by decide)⟩

def encodeFrom (state : Fin STATES) : List UInt8 → List UInt8
  | [] => []
  | bit :: bits =>
    (expected state (bit &&& 1)).1 :: (expected state (bit &&& 1)).2 ::
      encodeFrom (encoderNext state bit) bits

def encode (bits : List UInt8) : List UInt8 := encodeFrom zeroState bits

end Lrpt.Viterbi
