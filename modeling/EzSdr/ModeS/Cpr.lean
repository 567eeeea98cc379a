import EzSdr.Framework.BTreeMap
import EzSdr.Framework.Machine
import EzSdr.ModeS.IcaoFilter

/-! # CPR Pairing

    Compact position reports come as even and odd frames; a position is
    computed from one of each, or from one frame and a recent position. The
    decoder keeps the last frames of at most 2048 addresses.

    The floating-point decoding is a parameter (`Decoding`), and so is the
    order in which the hash map is walked (`Iteration`).
-/

namespace ModeS

/-! ## Model -/

inductive CprType where
  | surface | airborne | coarse
deriving DecidableEq, Repr

structure CprFrame where
  cprType : CprType
  odd     : Bool
  lat     : UInt32
  lon     : UInt32
deriving DecidableEq, Repr

/-- A processing instant, or a duration since the start of an acquisition
    epoch, in nanoseconds. -/
inductive CprTimestamp where
  | processing (now : ℕ)
  | capture (epoch : UInt64) (elapsed : ℕ)
deriving DecidableEq, Repr

def checkedSub (later earlier : ℕ) : Option ℕ :=
  if earlier ≤ later then some (later - earlier) else none

namespace CprTimestamp

def sameDomain : CprTimestamp → CprTimestamp → Bool
  | processing _, processing _ => true
  | capture a _, capture b _ => a == b
  | _, _ => false

def checkedDurationSince : CprTimestamp → CprTimestamp → Option ℕ
  | processing now, processing seen => checkedSub now seen
  | capture a now, capture b seen => if a = b then checkedSub now seen else none
  | _, _ => none

def distance (t other : CprTimestamp) : Option ℕ :=
  (t.checkedDurationSince other).or (other.checkedDurationSince t)

/-- The derived order of an optional time stamp: absent ones first, then
    processing instants, then captures by epoch and duration. -/
def rank : Option CprTimestamp → ℕ ×ₗ ℕ ×ₗ ℕ
  | none => toLex (0, toLex (0, 0))
  | some (processing now) => toLex (1, toLex (0, now))
  | some (capture epoch elapsed) => toLex (2, toLex (epoch.toNat, elapsed))

end CprTimestamp

structure TimedCprFrame where
  frame : CprFrame
  time  : CprTimestamp
deriving DecidableEq, Repr

/-- The floating-point side of the decoder. -/
structure Decoding where
  /-- Latitude and longitude in degrees. -/
  Position        : Type
  /-- Even latitude and longitude, odd ones, whether the odd frame is the newer one. -/
  decodeAirborne  : UInt32 → UInt32 → UInt32 → UInt32 → Bool → Option Position
  decodeSurface   : Position → UInt32 → UInt32 → UInt32 → UInt32 → Bool → Option Position
  decodeRelative  : Position → UInt32 → UInt32 → Bool → Bool → Option Position
  /-- Finite and within the ranges of a latitude and a longitude. -/
  isReference     : Position → Bool

structure CprCacheEntry (π : Type) where
  even             : Option TimedCprFrame
  odd              : Option TimedCprFrame
  lastSeen         : Option CprTimestamp
  lastPosition     : Option π
  lastPositionTime : Option CprTimestamp

def REFERENCE_TTL : ℕ := 60 * 1000000000
def MAX_CPR_CACHE_ENTRIES : ℕ := 2048
/-- Ten seconds; as a floating-point number of seconds the bound is exact. -/
def CPR_PAIR_TIMEOUT : ℕ := 10 * 1000000000

namespace CprCacheEntry

variable {π : Type}

def default : CprCacheEntry π := ⟨none, none, none, none, none⟩

/-- A change of the clock domain starts afresh. -/
def enterDomain (entry : CprCacheEntry π) (now : CprTimestamp) : CprCacheEntry π :=
  if entry.lastSeen.any fun seen => !now.sameDomain seen then default else entry

/-- Airborne and surface frames use different grids and never pair. -/
def enterType (entry : CprCacheEntry π) (frame : CprFrame) : CprCacheEntry π :=
  if (entry.even.or entry.odd).any fun cached => cached.frame.cprType ≠ frame.cprType then
    { entry with even := none, odd := none, lastPosition := none, lastPositionTime := none }
  else entry

def expirePosition (entry : CprCacheEntry π) (now : CprTimestamp) : CprCacheEntry π :=
  if !(entry.lastPositionTime.any fun seen =>
      (now.checkedDurationSince seen).any fun age => age ≤ REFERENCE_TTL) then
    { entry with lastPosition := none, lastPositionTime := none }
  else entry

def prepare (entry : CprCacheEntry π) (frame : CprFrame) (now : CprTimestamp) : CprCacheEntry π :=
  { ((entry.enterDomain now).enterType frame).expirePosition now with lastSeen := some now }

/-- Store the frame in its half. -/
def store (entry : CprCacheEntry π) (timed : TimedCprFrame) : CprCacheEntry π :=
  if timed.frame.odd then { entry with odd := some timed } else { entry with even := some timed }

/-- Remember a decoded position. -/
def locate (entry : CprCacheEntry π) (decoded : Option π) (now : CprTimestamp) : CprCacheEntry π :=
  match decoded with
  | some position => { entry with lastPosition := some position, lastPositionTime := some now }
  | none => entry

/-- The stored half that the frame pairs with, if it is recent enough. -/
def partner (entry : CprCacheEntry π) (frame : CprFrame) (now : CprTimestamp) :
    Option CprFrame :=
  (if frame.odd then entry.even else entry.odd).bind fun other =>
    (now.distance other.time).bind fun dt =>
      if dt ≤ CPR_PAIR_TIMEOUT then some other.frame else none

end CprCacheEntry

section Decoder

variable (D : Decoding)

abbrev Cache (D : Decoding) : Type := BTreeMap Address (CprCacheEntry D.Position)

/-- The order in which the hash map is walked: any order of its entries. -/
structure Iteration (D : Decoding) where
  order    : Cache D → List (Address × CprCacheEntry D.Position)
  complete : ∀ cache e, e ∈ order cache ↔ e ∈ cache.entries

structure CprDecoder (D : Decoding) where
  cache : Cache D

variable {D}

namespace CprDecoder

def new : CprDecoder D := ⟨BTreeMap.empty⟩

def pruneOlderThanAt (decoder : CprDecoder D) (maxAge : ℕ) (now : CprTimestamp) : CprDecoder D :=
  ⟨decoder.cache.filter fun _ entry =>
    (entry.lastSeen.bind now.distance).any fun age => age ≤ maxAge⟩

def oldest (walk : Iteration D) (cache : Cache D) : Option Address :=
  ((walk.order cache).minOn? fun e => CprTimestamp.rank e.2.lastSeen).map Prod.fst

theorem oldest_mem {walk : Iteration D} {cache : Cache D} {icao : Address}
    (h : oldest walk cache = some icao) : ∃ entry, cache.get? icao = some entry := by
  obtain ⟨⟨key, entry⟩, hmin, rfl⟩ := Option.map_eq_some_iff.mp h
  have hmem := List.minOn?_mem hmin
  exact ⟨entry, cache.mem_entries.mp ((walk.complete _ _).mp hmem)⟩

theorem size_erase_lt {cache : Cache D} {icao : Address} {entry : CprCacheEntry D.Position}
    (h : cache.get? icao = some entry) : (cache.erase icao).size < cache.size := by
  have htotal := cache.total_erase (fun _ _ => 1) icao
  rw [h, BTreeMap.share_some, ← BTreeMap.size_eq_total, ← BTreeMap.size_eq_total] at htotal
  omega

/-- Remove the entries seen longest ago until at most `maxAllowed` are left. -/
def evictDown (walk : Iteration D) (maxAllowed : ℕ) (cache : Cache D) : Cache D :=
  if cache.size > maxAllowed then
    match _h : oldest walk cache with
    | some icao => evictDown walk maxAllowed (cache.erase icao)
    | none => cache
  else cache
termination_by cache.size
decreasing_by
  obtain ⟨entry, hentry⟩ := oldest_mem ‹_›
  exact size_erase_lt hentry

def evictOldestIfFull (walk : Iteration D) (decoder : CprDecoder D) (icao : Address)
    (now : CprTimestamp) : CprDecoder D :=
  if decoder.cache.size ≥ MAX_CPR_CACHE_ENTRIES then
    let pruned := decoder.pruneOlderThanAt (60 * 1000000000) now
    let maxAllowed :=
      if pruned.cache.contains icao then MAX_CPR_CACHE_ENTRIES else MAX_CPR_CACHE_ENTRIES - 1
    ⟨evictDown walk maxAllowed pruned.cache⟩
  else decoder

def entryOf (decoder : CprDecoder D) (icao : Address) : CprCacheEntry D.Position :=
  (decoder.cache.get? icao).getD CprCacheEntry.default

/-- Latitude and longitude are 17-bit numbers. -/
def inRange (frame : CprFrame) : Bool := frame.lat < 131072 && frame.lon < 131072

/-- The global decoding of an airborne pair. -/
def airbornePair (D : Decoding) (frame other : CprFrame) : Option D.Position :=
  if frame.odd then D.decodeAirborne other.lat other.lon frame.lat frame.lon true
  else D.decodeAirborne frame.lat frame.lon other.lat other.lon false

/-- The global decoding of a surface pair near a reference. -/
def surfacePair (D : Decoding) (reference : D.Position) (frame other : CprFrame) :
    Option D.Position :=
  if frame.odd then D.decodeSurface reference other.lat other.lon frame.lat frame.lon true
  else D.decodeSurface reference frame.lat frame.lon other.lat other.lon false

def submitWithTimestamp (walk : Iteration D) (decoder : CprDecoder D) (icao : Address)
    (frame : CprFrame) (now : CprTimestamp) : CprDecoder D × Option D.Position :=
  if !inRange frame then (decoder, none)
  else
    let room := decoder.evictOldestIfFull walk icao now
    let entry := ((room.entryOf icao).prepare frame now).store ⟨frame, now⟩
    match frame.cprType with
    | .airborne =>
      let global := (entry.partner frame now).bind (airbornePair D frame)
      let decoded := global.or (entry.lastPosition.bind fun position =>
        D.decodeRelative position frame.lat frame.lon frame.odd false)
      (⟨room.cache.insert icao (entry.locate decoded now)⟩, decoded)
    | .surface => (⟨room.cache.insert icao entry⟩, none)
    | .coarse => (⟨room.cache.insert icao entry⟩, none)

def submitSurfaceWithTimestamp (walk : Iteration D) (decoder : CprDecoder D) (icao : Address)
    (frame : CprFrame) (reference : D.Position) (now : CprTimestamp) :
    CprDecoder D × Option D.Position :=
  if frame.cprType ≠ .surface || !inRange frame || !D.isReference reference then (decoder, none)
  else
    let room := decoder.evictOldestIfFull walk icao now
    let entry := ((room.entryOf icao).prepare frame now).store ⟨frame, now⟩
    let result := (entry.partner frame now).bind (surfacePair D reference frame)
    (⟨room.cache.insert icao (entry.locate result now)⟩, result)

end CprDecoder

end Decoder

end ModeS
