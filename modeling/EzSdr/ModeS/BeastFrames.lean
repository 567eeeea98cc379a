import EzSdr.Framework.Stuffing
import EzSdr.ModeS.Crc

/-! # Beast Frames

    The network output in Beast format: a marker, a type, a time stamp of 48
    bits, a signal level and the message, with every marker byte after the
    first doubled. A client has to find the frames in the byte stream again.

    **`beast_uniquely_decodable`**: it can, and no other place in the stream
    looks like the start of a frame. -/

namespace ModeS

open Stuffing

/-! ## Section 1: Encoding -/

/-- `u64::to_be_bytes`. -/
def toBeBytes (value : BitVec 64) : List Byte :=
  [7, 6, 5, 4, 3, 2, 1, 0].map fun k => (value >>> (8 * k)).setWidth 8

/-- Type of a message by its length: Mode-AC, Mode S short, Mode S long. -/
def beastIndicator (length : ℕ) : Byte :=
  match length with
  | 2 => 0x31#8
  | 7 => 0x32#8
  | _ => 0x33#8

def encodeBeastFrame (timestamp : BitVec 64) (signal : Byte) (msg : List Byte) : List Byte :=
  let payload := beastIndicator msg.length :: ((toBeBytes timestamp).drop 2 ++ signal :: msg)
  0x1a#8 :: payload.flatMap fun b => if b = 0x1a#8 then [b, 0x1a#8] else [b]

/-- What a frame is made from. Messages have one of three lengths. -/
structure BeastFrame where
  timestamp  : BitVec 64
  signal     : Byte
  msg        : List Byte
  length_msg : msg.length = 2 ∨ msg.length = 7 ∨ msg.length = 14

def BeastFrame.encode (f : BeastFrame) : List Byte := encodeBeastFrame f.timestamp f.signal f.msg

/-- What is sent to a client. -/
def beastStream (fs : List BeastFrame) : List Byte := fs.flatMap BeastFrame.encode

/-! ## Section 2: Decoding -/

/-- What a client learns from a frame. -/
structure BeastMessage where
  indicator : Byte
  /-- The time stamp modulo `2 ^ 48`. -/
  timestamp : ℕ
  signal    : Byte
  msg       : List Byte
  deriving DecidableEq

def BeastFrame.message (f : BeastFrame) : BeastMessage where
  indicator := beastIndicator f.msg.length
  timestamp := f.timestamp.toNat % 2 ^ 48
  signal := f.signal
  msg := f.msg

/-- Length of a payload with a type: type, time stamp, signal and message. -/
def beastSize (indicator : Byte) : Option ℕ :=
  if indicator = 0x31#8 then some 10
  else if indicator = 0x32#8 then some 15
  else if indicator = 0x33#8 then some 22
  else none

/-- A big-endian number. -/
def beValue (bytes : List Byte) : ℕ := bytes.foldl (fun n b => n * 256 + b.toNat) 0

def parsePayload : List Byte → Option BeastMessage
  | indicator :: a :: b :: c :: d :: e :: f :: signal :: msg =>
    some ⟨indicator, beValue [a, b, c, d, e, f], signal, msg⟩
  | _ => none

/-- A client that reads a stream from its start to the end of a frame. -/
def parseBeast (stream : List Byte) : Option (List BeastMessage) :=
  match read 0x1a#8 beastSize (.between []) stream with
  | .between payloads => payloads.mapM parsePayload
  | _ => none

/-! ## Section 3: Frames and payloads -/

theorem beastSizes : Sizes 0x1a#8 beastSize where
  mark := by decide
  more := by
    intro a n h
    unfold beastSize at h
    split_ifs at h <;> cases h <;> omega

namespace BeastFrame

/-- The payload of a frame. -/
def payload (f : BeastFrame) : List Byte :=
  beastIndicator f.msg.length :: ((toBeBytes f.timestamp).drop 2 ++ f.signal :: f.msg)

theorem encode_eq (f : BeastFrame) : f.encode = frame 0x1a#8 f.payload := by
  have hstuff : (fun b : Byte => if b = 0x1a#8 then [b, 0x1a#8] else [b]) =
      fun b => if b = 0x1a#8 then [0x1a#8, 0x1a#8] else [b] := by
    funext b
    by_cases hb : b = 0x1a#8
    · rw [if_pos hb, if_pos hb, hb]
    · rw [if_neg hb, if_neg hb]
  show 0x1a#8 :: f.payload.flatMap _ = _
  rw [hstuff]
  rfl

/-- The type tells the length. -/
theorem wellFormed (f : BeastFrame) : WellFormed beastSize f.payload := by
  refine ⟨_, _, rfl, ?_⟩
  have hlength : f.payload.length = f.msg.length + 8 := by
    simp [payload, toBeBytes]
  rw [hlength]
  obtain h | h | h := f.length_msg
  · rw [h]
    decide
  · rw [h]
    decide
  · rw [h]
    decide

/-- Six bytes of the time stamp are sent. -/
theorem beValue_timestamp (value : BitVec 64) :
    beValue ((toBeBytes value).drop 2) = value.toNat % 2 ^ 48 := by
  have hlt := value.isLt
  simp only [toBeBytes, List.map_cons, List.map_nil, List.drop_succ_cons, List.drop_zero, beValue,
    List.foldl_cons, List.foldl_nil, BitVec.toNat_setWidth, BitVec.toNat_ushiftRight,
    Nat.shiftRight_eq_div_pow]
  omega

theorem parsePayload_payload (f : BeastFrame) : parsePayload f.payload = some f.message := by
  rw [message, ← beValue_timestamp]
  rfl

end BeastFrame

theorem beastStream_eq (fs : List BeastFrame) :
    beastStream fs = frames 0x1a#8 (fs.map BeastFrame.payload) := by
  unfold beastStream frames
  rw [List.flatMap_map]
  exact List.flatMap_congr fun f _ => f.encode_eq

theorem wellFormed_payloads {fs : List BeastFrame} :
    ∀ p ∈ fs.map BeastFrame.payload, WellFormed beastSize p := by
  intro p hp
  obtain ⟨f, -, rfl⟩ := List.mem_map.1 hp
  exact f.wellFormed

theorem mapM_parsePayload (fs : List BeastFrame) :
    (fs.map BeastFrame.payload).mapM parsePayload = some (fs.map BeastFrame.message) := by
  induction fs with
  | nil => rfl
  | cons f fs ih =>
    rw [List.map_cons, List.mapM_cons, ih, f.parsePayload_payload]
    rfl

/-- A stream of frames is parsed back. -/
theorem parseBeast_stream (fs : List BeastFrame) :
    parseBeast (beastStream fs) = some (fs.map BeastFrame.message) := by
  unfold parseBeast
  rw [beastStream_eq, read_frames beastSizes [] wellFormed_payloads]
  exact mapM_parsePayload fs

/-! ## Section 4: Unique decoding -/

/-- The part of a stream that is a stream of frames itself: some of the first frames. -/
theorem front_of_parsed {fs : List BeastFrame} {before after : List Byte}
    {ms : List BeastMessage} (hstream : beastStream fs = before ++ after)
    (h : parseBeast before = some ms) :
    ∃ first rest, fs = first ++ rest ∧ before = beastStream first ∧ after = beastStream rest := by
  have hwhole := read_frames beastSizes [] (@wellFormed_payloads fs)
  have hread := read_sound beastSizes before
  rw [← beastStream_eq, hstream, read_append] at hwhole
  unfold parseBeast at h
  cases hr : read 0x1a#8 beastSize (.between []) before with
  | between done =>
    rw [hr] at hread hwhole
    have hfront : (Reader.between done).Extends done := List.prefix_refl done
    have hlater := extends_read 0x1a#8 beastSize hfront after
    rw [hwhole] at hlater
    obtain ⟨more, hmore⟩ : done <+: fs.map BeastFrame.payload := hlater
    obtain ⟨first, rest, rfl, rfl, rfl⟩ := List.map_eq_append_iff.1 hmore.symm
    have hbefore : before = beastStream first := hread.1.trans (beastStream_eq first).symm
    refine ⟨first, rest, rfl, hbefore, ?_⟩
    rw [hbefore, show beastStream (first ++ rest) = beastStream first ++ beastStream rest from
      List.flatMap_append] at hstream
    exact (List.append_cancel_left hstream).symm
  | _ =>
    rw [hr] at h
    cases h

/-- **Beast streams are uniquely decodable**: a stream of frames is parsed back to types, time
    stamps modulo `2 ^ 48`, signals and messages; a part of it from its start is complete frames
    only where a frame ends; and only frames look like the start of one. -/
theorem beast_uniquely_decodable (fs : List BeastFrame) :
    parseBeast (beastStream fs) = some (fs.map BeastFrame.message) ∧
    (∀ before after, beastStream fs = before ++ after →
      ((parseBeast before).isSome = true ↔
        ∃ first rest, fs = first ++ rest ∧ before = beastStream first ∧
          after = beastStream rest)) ∧
    ∀ before after, beastStream fs = before ++ after →
      (LooksLikeStart 0x1a#8 before after ↔
        ∃ first rest, fs = first ++ rest ∧ rest ≠ [] ∧ before = beastStream first ∧
          after = beastStream rest) := by
  refine ⟨parseBeast_stream fs, fun before after hstream => ?_, fun before after hstream => ?_⟩
  · constructor
    · intro h
      obtain ⟨ms, hms⟩ := Option.isSome_iff_exists.1 h
      exact front_of_parsed hstream hms
    · intro h
      obtain ⟨first, rest, -, rfl, -⟩ := h
      rw [parseBeast_stream]
      rfl
  · rw [beastStream_eq] at hstream
    rw [start_iff beastSizes wellFormed_payloads hstream]
    constructor
    · intro h
      obtain ⟨first, rest, hsplit, hne, rfl, rfl⟩ := h
      obtain ⟨first, rest, rfl, rfl, rfl⟩ := List.map_eq_append_iff.1 hsplit
      refine ⟨first, rest, rfl, ?_, (beastStream_eq first).symm, (beastStream_eq rest).symm⟩
      intro hnil
      exact hne (by rw [hnil]; rfl)
    · intro h
      obtain ⟨first, rest, rfl, hne, rfl, rfl⟩ := h
      exact ⟨_, _, List.map_append, by simpa using hne, beastStream_eq first, beastStream_eq rest⟩

/-- Signal and message may hold the marker, and the message a type after it. -/
theorem beast_uniquely_decodable_marker :
    parseBeast [0x1a#8, 0x31#8, 0#8, 0#8, 0#8, 0#8, 0#8, 5#8, 0x1a#8, 0x1a#8, 0x1a#8, 0x1a#8, 0x31#8] =
        some [⟨0x31#8, 5, 0x1a#8, [0x1a#8, 0x31#8]⟩] ∧
      ¬ LooksLikeStart 0x1a#8
        [0x1a#8, 0x31#8, 0#8, 0#8, 0#8, 0#8, 0#8, 5#8, 0x1a#8, 0x1a#8, 0x1a#8] [0x1a#8, 0x31#8] := by
  let f : BeastFrame := ⟨5#64, 0x1a#8, [0x1a#8, 0x31#8], .inl rfl⟩
  obtain ⟨hparse, -, hstart⟩ := beast_uniquely_decodable [f]
  have hstream : beastStream [f] = [0x1a#8, 0x31#8, 0#8, 0#8, 0#8, 0#8, 0#8, 5#8, 0x1a#8, 0x1a#8,
      0x1a#8, 0x1a#8, 0x31#8] := by
    decide
  have hmessage : [f].map BeastFrame.message = [⟨0x31#8, 5, 0x1a#8, [0x1a#8, 0x31#8]⟩] := by
    decide
  rw [hstream, hmessage] at hparse
  refine ⟨hparse, fun hlooks => ?_⟩
  obtain ⟨first, rest, hsplit, hne, hbefore, -⟩ := (hstart _ _ (by decide)).1 hlooks
  cases first with
  | nil => cases hbefore
  | cons g first =>
    -- the only frame would have to come twice
    cases rest with
    | nil => exact hne rfl
    | cons g' rest =>
      have hlength := congrArg List.length hsplit
      simp at hlength

end ModeS
