import EzSdr.ModeS.Cpr

/-! # What a Position is Computed From

    The cache entry of an address only holds what was submitted for it, so a
    position the decoder gives out comes from an even and an odd frame of one
    address and type, close in time and in one clock domain, or from one frame
    and a recent position of the same address.

    **`run_pairing`** states this for every run, together with the bound of
    the cache and what making room may remove.
-/

namespace ModeS

section Pairing

variable {D : Decoding} {walk : Iteration D}

/-! ## Runs -/

inductive CprCommand (D : Decoding) where
  | submit (icao : Address) (frame : CprFrame) (now : CprTimestamp)
  | submitSurface (icao : Address) (frame : CprFrame) (reference : D.Position) (now : CprTimestamp)
  | prune (maxAge : ℕ) (now : CprTimestamp)
  | clear

namespace CprCommand

/-- The address, frame and time of a submission. -/
def submission : CprCommand D → Option (Address × CprFrame × CprTimestamp)
  | submit icao frame now => some (icao, frame, now)
  | submitSurface icao frame _ now => some (icao, frame, now)
  | prune _ _ => none
  | clear => none

end CprCommand

def cprMachine (walk : Iteration D) : Machine (CprDecoder D) (CprCommand D) (Option D.Position) where
  init := CprDecoder.new
  step decoder
    | .submit icao frame now => some (decoder.submitWithTimestamp walk icao frame now)
    | .submitSurface icao frame reference now =>
      some (decoder.submitSurfaceWithTimestamp walk icao frame reference now)
    | .prune maxAge now => some (decoder.pruneOlderThanAt maxAge now, none)
    | .clear => some (CprDecoder.new, none)

abbrev CprEvent (D : Decoding) : Type :=
  Machine.Event (CprDecoder D) (CprCommand D) (Option D.Position)

/-- A frame submitted for an address at some time of the past. -/
def Submitted (past : List (CprEvent D)) (icao : Address) (timed : TimedCprFrame) : Prop :=
  ∃ e ∈ past, e.input.submission = some (icao, timed.frame, timed.time)

/-- A position given out for an address at some time of the past. -/
def Positioned (past : List (CprEvent D)) (icao : Address) (position : D.Position)
    (time : CprTimestamp) : Prop :=
  ∃ e ∈ past, ∃ frame, e.input.submission = some (icao, frame, time) ∧ e.output = some position

/-- The other half of a pair: the opposite parity, the same address and type,
    in the same clock domain and epoch and at most ten seconds away. -/
structure Partner (past : List (CprEvent D)) (icao : Address) (frame : CprFrame)
    (now : CprTimestamp) (other : TimedCprFrame) : Prop where
  submitted : Submitted past icao other
  parity    : other.frame.odd = !frame.odd
  cprType   : other.frame.cprType = frame.cprType
  domain    : now.sameDomain other.time = true
  near      : ∃ dt, now.distance other.time = some dt ∧ dt ≤ 10 * 1000000000

/-- The position a submission gives out is that of a pair, or, for an airborne
    frame, relative to a position of that address at most a minute old. -/
inductive Justified (past : List (CprEvent D)) : CprCommand D → D.Position → Prop where
  | airborne {icao frame now other position} (hpartner : Partner past icao frame now other)
      (htype : frame.cprType = .airborne)
      (hdecode : CprDecoder.airbornePair D frame other.frame = some position) :
      Justified past (.submit icao frame now) position
  | surface {icao frame reference now other position}
      (hpartner : Partner past icao frame now other) (htype : frame.cprType = .surface)
      (hdecode : CprDecoder.surfacePair D reference frame other.frame = some position) :
      Justified past (.submitSurface icao frame reference now) position
  | relative {icao frame now known seen age position} (hknown : Positioned past icao known seen)
      (hage : now.checkedDurationSince seen = some age) (hrecent : age ≤ 60 * 1000000000)
      (hdomain : now.sameDomain seen = true) (htype : frame.cprType = .airborne)
      (hdecode : D.decodeRelative known frame.lat frame.lon frame.odd false = some position) :
      Justified past (.submit icao frame now) position

/-! ## Time stamps -/

theorem sameDomain_of_checked {a b : CprTimestamp} {d : ℕ}
    (h : a.checkedDurationSince b = some d) : a.sameDomain b = true := by
  match a, b with
  | .processing _, .processing _ => rfl
  | .capture x _, .capture y _ =>
    by_cases hxy : x = y
    · exact beq_iff_eq.mpr hxy
    · rw [CprTimestamp.checkedDurationSince, if_neg hxy] at h
      exact absurd h nofun
  | .processing _, .capture _ _ => exact absurd h nofun
  | .capture _ _, .processing _ => exact absurd h nofun

theorem sameDomain_comm (a b : CprTimestamp) : a.sameDomain b = b.sameDomain a := by
  match a, b with
  | .processing _, .processing _ => rfl
  | .capture x _, .capture y _ => exact Bool.beq_comm
  | .processing _, .capture _ _ => rfl
  | .capture _ _, .processing _ => rfl

theorem sameDomain_of_distance {a b : CprTimestamp} {d : ℕ} (h : a.distance b = some d) :
    a.sameDomain b = true := by
  unfold CprTimestamp.distance at h
  rcases Option.or_eq_some_iff.mp h with hforth | ⟨-, hback⟩
  · exact sameDomain_of_checked hforth
  · rw [sameDomain_comm]
    exact sameDomain_of_checked hback

/-! ## The entry of an address -/

/-- An entry holds what was submitted for its address: one type in both
    halves, and a position that was given out. -/
structure EntryOk (past : List (CprEvent D)) (icao : Address)
    (entry : CprCacheEntry D.Position) : Prop where
  even : ∀ timed, entry.even = some timed → Submitted past icao timed ∧ timed.frame.odd = false
  odd  : ∀ timed, entry.odd = some timed → Submitted past icao timed ∧ timed.frame.odd = true
  oneType : ∀ a b, entry.even = some a → entry.odd = some b → a.frame.cprType = b.frame.cprType
  position : ∀ p, entry.lastPosition = some p →
    ∃ seen, entry.lastPositionTime = some seen ∧ Positioned past icao p seen

namespace EntryOk

variable {past : List (CprEvent D)} {icao : Address} {entry : CprCacheEntry D.Position}

theorem default : EntryOk past icao CprCacheEntry.default := ⟨nofun, nofun, nofun, nofun⟩

theorem later (h : EntryOk past icao entry) (e : CprEvent D) : EntryOk (past ++ [e]) icao entry where
  even timed ht := by
    obtain ⟨⟨x, hx, hsub⟩, hodd⟩ := h.even timed ht
    exact ⟨⟨x, List.mem_append_left _ hx, hsub⟩, hodd⟩
  odd timed ht := by
    obtain ⟨⟨x, hx, hsub⟩, hodd⟩ := h.odd timed ht
    exact ⟨⟨x, List.mem_append_left _ hx, hsub⟩, hodd⟩
  oneType := h.oneType
  position p hp := by
    obtain ⟨seen, hseen, x, hx, hpos⟩ := h.position p hp
    exact ⟨seen, hseen, x, List.mem_append_left _ hx, hpos⟩

theorem enterDomain (h : EntryOk past icao entry) (now : CprTimestamp) :
    EntryOk past icao (entry.enterDomain now) := by
  unfold CprCacheEntry.enterDomain
  split
  · exact EntryOk.default
  · exact h

theorem enterType (h : EntryOk past icao entry) (frame : CprFrame) :
    EntryOk past icao (entry.enterType frame) := by
  unfold CprCacheEntry.enterType
  split
  · exact ⟨nofun, nofun, nofun, nofun⟩
  · exact h

/-- No half of another type is left. -/
theorem enterType_type (h : EntryOk past icao entry) (frame : CprFrame) {timed : TimedCprFrame}
    (ht : (entry.enterType frame).even = some timed ∨ (entry.enterType frame).odd = some timed) :
    timed.frame.cprType = frame.cprType := by
  unfold CprCacheEntry.enterType at ht
  split at ht
  · rcases ht with ht | ht <;> exact absurd ht nofun
  · next hsame =>
    -- the test looks at the even half if there is one, and both halves have one type
    match heven : entry.even, hodd : entry.odd with
    | some a, _ =>
      rw [heven] at hsame
      have ha : a.frame.cprType = frame.cprType := by simpa using hsame
      rcases ht with ht | ht
      · rw [heven] at ht
        rw [← Option.some.inj ht, ha]
      · rw [← h.oneType a timed heven ht, ha]
    | none, some b =>
      rw [heven, hodd] at hsame
      have hb : b.frame.cprType = frame.cprType := by simpa using hsame
      rcases ht with ht | ht
      · rw [heven] at ht
        exact absurd ht nofun
      · rw [hodd] at ht
        rw [← Option.some.inj ht, hb]
    | none, none =>
      rw [heven, hodd] at ht
      rcases ht with ht | ht <;> exact absurd ht nofun

theorem expirePosition (h : EntryOk past icao entry) (now : CprTimestamp) :
    EntryOk past icao (entry.expirePosition now) := by
  unfold CprCacheEntry.expirePosition
  split
  · exact ⟨h.even, h.odd, h.oneType, nofun⟩
  · exact h

theorem prepare (h : EntryOk past icao entry) (frame : CprFrame) (now : CprTimestamp) :
    EntryOk past icao (entry.prepare frame now) := by
  have hready := ((h.enterDomain now).enterType frame).expirePosition now
  exact ⟨hready.even, hready.odd, hready.oneType, hready.position⟩

theorem prepare_type (h : EntryOk past icao entry) (frame : CprFrame) (now : CprTimestamp)
    {timed : TimedCprFrame} (ht : (entry.prepare frame now).even = some timed ∨
      (entry.prepare frame now).odd = some timed) :
    timed.frame.cprType = frame.cprType := by
  refine (h.enterDomain now).enterType_type frame ?_
  unfold CprCacheEntry.prepare CprCacheEntry.expirePosition at ht
  split at ht <;> exact ht

end EntryOk

theorem expirePosition_recent {entry : CprCacheEntry D.Position} {now : CprTimestamp}
    {p : D.Position} (hp : (entry.expirePosition now).lastPosition = some p) :
    ∃ seen age, (entry.expirePosition now).lastPositionTime = some seen ∧
      now.checkedDurationSince seen = some age ∧ age ≤ 60 * 1000000000 := by
  unfold CprCacheEntry.expirePosition at hp ⊢
  split at hp
  · exact absurd hp nofun
  · next hkept =>
    rw [if_neg hkept]
    rw [Bool.not_eq_true, Bool.not_eq_false'] at hkept
    obtain ⟨seen, hseen, hage⟩ := (Option.any_eq_true _ _).mp hkept
    obtain ⟨age, hsince, hrecent⟩ := (Option.any_eq_true _ _).mp hage
    exact ⟨seen, age, hseen, hsince, of_decide_eq_true hrecent⟩

/-- Storing the frame leaves the other half, in which its partner is found. -/
theorem partner_store (entry : CprCacheEntry D.Position) (frame : CprFrame) (now : CprTimestamp) :
    (entry.store ⟨frame, now⟩).partner frame now = entry.partner frame now := by
  unfold CprCacheEntry.partner CprCacheEntry.store
  match hodd : frame.odd with
  | true => rfl
  | false => rfl

theorem partner_spec {past : List (CprEvent D)} {icao : Address}
    {entry : CprCacheEntry D.Position} (h : EntryOk past icao entry) {frame other : CprFrame}
    {now : CprTimestamp} (hp : (entry.prepare frame now).partner frame now = some other) :
    ∃ time, Partner past icao frame now ⟨other, time⟩ := by
  have hready := h.prepare frame now
  obtain ⟨timed, hhalf, hrest⟩ := Option.bind_eq_some_iff.mp hp
  obtain ⟨dt, hdt, hnear⟩ := Option.bind_eq_some_iff.mp hrest
  have hclose : dt ≤ CPR_PAIR_TIMEOUT ∧ timed.frame = other := by
    split at hnear
    · next hle => exact ⟨hle, Option.some.inj hnear⟩
    · exact absurd hnear nofun
  -- the half of the opposite parity
  have hstored : (Submitted past icao timed ∧ timed.frame.odd = !frame.odd) ∧
      timed.frame.cprType = frame.cprType := by
    match hodd : frame.odd with
    | true =>
      rw [hodd, if_pos rfl] at hhalf
      exact ⟨hready.even timed hhalf, h.prepare_type frame now (.inl hhalf)⟩
    | false =>
      rw [hodd, if_neg Bool.false_ne_true] at hhalf
      exact ⟨hready.odd timed hhalf, h.prepare_type frame now (.inr hhalf)⟩
  refine ⟨timed.time, ?_⟩
  rw [← hclose.2]
  exact ⟨hstored.1.1, hstored.1.2, hstored.2, sameDomain_of_distance hdt, dt, hdt, hclose.1⟩

/-- The entry after a submission: the frame in its half, everything else as
    before. -/
theorem EntryOk.store {past : List (CprEvent D)} {icao : Address}
    {entry : CprCacheEntry D.Position} (h : EntryOk past icao entry) {frame : CprFrame}
    {now : CprTimestamp} (htype : ∀ timed, entry.even = some timed ∨ entry.odd = some timed →
      timed.frame.cprType = frame.cprType)
    (hsubmitted : Submitted past icao ⟨frame, now⟩) :
    EntryOk past icao (entry.store ⟨frame, now⟩) := by
  unfold CprCacheEntry.store
  match hodd : frame.odd with
  | true =>
    refine ⟨h.even, fun timed ht => ?_, fun a b ha hb => ?_, h.position⟩
    · rw [← Option.some.inj ht]
      exact ⟨hsubmitted, hodd⟩
    · rw [← Option.some.inj hb]
      exact htype a (.inl ha)
  | false =>
    refine ⟨fun timed ht => ?_, h.odd, fun a b ha hb => ?_, h.position⟩
    · rw [← Option.some.inj ht]
      exact ⟨hsubmitted, hodd⟩
    · rw [← Option.some.inj ha]
      exact (htype b (.inr hb)).symm

theorem EntryOk.locate {past : List (CprEvent D)} {icao : Address}
    {entry : CprCacheEntry D.Position} (h : EntryOk past icao entry) {decoded : Option D.Position}
    {now : CprTimestamp} (hpos : ∀ p, decoded = some p → Positioned past icao p now) :
    EntryOk past icao (entry.locate decoded now) := by
  match decoded with
  | none => exact h
  | some position =>
    refine ⟨h.even, h.odd, h.oneType, fun p hp => ⟨now, rfl, ?_⟩⟩
    exact hpos p (congrArg some (Option.some.inj hp))

/-! ## Making room -/

theorem evictDown_get? (n : ℕ) (cache : Cache D) (icao : Address) :
    (CprDecoder.evictDown walk n cache).get? icao = none ∨
      (CprDecoder.evictDown walk n cache).get? icao = cache.get? icao := by
  fun_induction CprDecoder.evictDown walk n cache with
  | case1 cache hfull oldest holdest ih =>
    rcases ih with hnone | hsame
    · exact .inl hnone
    · by_cases heq : icao = oldest
      · rw [heq, BTreeMap.get?_erase_self] at hsame
        exact .inl (heq ▸ hsame)
      · rw [BTreeMap.get?_erase_ne _ heq] at hsame
        exact .inr hsame
  | case2 cache hfull holdest => exact .inr rfl
  | case3 cache hroom => exact .inr rfl

theorem evictDown_size (n : ℕ) (cache : Cache D) :
    (CprDecoder.evictDown walk n cache).size ≤ n := by
  fun_induction CprDecoder.evictDown walk n cache with
  | case1 cache hfull oldest holdest ih => exact ih
  | case2 cache hfull holdest =>
    -- only an empty map has no oldest entry
    have hempty : walk.order cache = [] := by
      by_contra hne
      rw [CprDecoder.oldest, Option.map_eq_none_iff] at holdest
      have hsome := List.isSome_minOn?_iff
        (f := fun e : Address × CprCacheEntry D.Position => CprTimestamp.rank e.2.lastSeen).mpr hne
      rw [holdest] at hsome
      exact absurd hsome Bool.false_ne_true
    have hsize : cache.size = 0 := by
      rw [BTreeMap.size, List.length_eq_zero_iff, List.eq_nil_iff_forall_not_mem]
      intro e he
      have := (walk.complete cache e).mpr he
      rw [hempty] at this
      exact absurd this List.not_mem_nil
    omega
  | case3 cache hroom => omega

theorem evictDown_room {n : ℕ} {cache : Cache D} (h : cache.size ≤ n) :
    CprDecoder.evictDown walk n cache = cache := by
  rw [CprDecoder.evictDown, if_neg (Nat.not_lt.mpr h)]

/-- Seen within the last minute, in the present clock domain. -/
def Live (entry : CprCacheEntry D.Position) (now : CprTimestamp) : Prop :=
  ∃ seen age, entry.lastSeen = some seen ∧ now.distance seen = some age ∧ age ≤ 60 * 1000000000

theorem evict_get? (decoder : CprDecoder D) (icao other : Address) (now : CprTimestamp)
    {entry : CprCacheEntry D.Position}
    (h : (decoder.evictOldestIfFull walk icao now).cache.get? other = some entry) :
    decoder.cache.get? other = some entry := by
  unfold CprDecoder.evictOldestIfFull at h
  split at h
  · rcases evictDown_get? _ (decoder.pruneOlderThanAt (60 * 1000000000) now).cache other
      with hnone | hsame
    · rw [hnone] at h
      exact absurd h (Option.some_ne_none _).symm
    · rw [hsame] at h
      exact ((decoder.cache.get?_filter_eq_some).mp h).1
  · exact h

/-- **Making room spares the submitted address.** -/
theorem evict_live {decoder : CprDecoder D} (hsize : decoder.cache.size ≤ MAX_CPR_CACHE_ENTRIES)
    {icao : Address} {now : CprTimestamp} {entry : CprCacheEntry D.Position}
    (hentry : decoder.cache.get? icao = some entry) (hlive : Live entry now) :
    (decoder.evictOldestIfFull walk icao now).cache.get? icao = some entry := by
  unfold CprDecoder.evictOldestIfFull
  split
  · obtain ⟨seen, age, hseen, hage, hrecent⟩ := hlive
    have hkept : (decoder.pruneOlderThanAt (60 * 1000000000) now).cache.get? icao = some entry := by
      refine (decoder.cache.get?_filter_eq_some).mpr ⟨hentry, ?_⟩
      rw [hseen, Option.bind_some, hage]
      exact decide_eq_true hrecent
    have hcontains : (decoder.pruneOlderThanAt (60 * 1000000000) now).cache.contains icao = true := by
      rw [BTreeMap.contains, hkept]
      rfl
    have hfits : (decoder.pruneOlderThanAt (60 * 1000000000) now).cache.size ≤
        MAX_CPR_CACHE_ENTRIES := Nat.le_trans (decoder.cache.size_filter_le _) hsize
    show (CprDecoder.evictDown walk _ _).get? icao = _
    rw [hcontains, if_pos rfl, evictDown_room hfits]
    exact hkept
  · exact hentry

/-- After making room there is a place for the submitted address. -/
theorem evict_insert_size {decoder : CprDecoder D}
    (hsize : decoder.cache.size ≤ MAX_CPR_CACHE_ENTRIES) (icao : Address) (now : CprTimestamp)
    (entry : CprCacheEntry D.Position) :
    ((decoder.evictOldestIfFull walk icao now).cache.insert icao entry).size ≤
      MAX_CPR_CACHE_ENTRIES := by
  have hmax : MAX_CPR_CACHE_ENTRIES = 2048 := rfl
  set room := decoder.evictOldestIfFull walk icao now with hroom
  have hfits : room.cache.size ≤ MAX_CPR_CACHE_ENTRIES ∧
      (room.cache.get? icao = none → room.cache.size < MAX_CPR_CACHE_ENTRIES) := by
    rw [hroom]
    unfold CprDecoder.evictOldestIfFull
    split
    · next hfull =>
      set pruned := decoder.pruneOlderThanAt (60 * 1000000000) now with hpruned
      have hle : pruned.cache.size ≤ MAX_CPR_CACHE_ENTRIES :=
        Nat.le_trans (decoder.cache.size_filter_le _) hsize
      by_cases hcontains : pruned.cache.contains icao = true
      · show (CprDecoder.evictDown walk (if pruned.cache.contains icao = true then _ else _) _).size ≤
            _ ∧ ((CprDecoder.evictDown walk (if pruned.cache.contains icao = true then _ else _)
              _).get? icao = none → _)
        rw [if_pos hcontains, evictDown_room hle]
        refine ⟨hle, fun hnone => ?_⟩
        rw [BTreeMap.contains, hnone] at hcontains
        exact absurd hcontains Bool.false_ne_true
      · have hdown := @evictDown_size D walk (MAX_CPR_CACHE_ENTRIES - 1) pruned.cache
        show (CprDecoder.evictDown walk (if pruned.cache.contains icao = true then _ else _) _).size ≤
            _ ∧ (_ → (CprDecoder.evictDown walk (if pruned.cache.contains icao = true then _ else _)
              _).size < _)
        rw [if_neg hcontains]
        omega
    · next hspare => exact ⟨hsize, fun _ => by omega⟩
  rcases hget : room.cache.get? icao with _ | old
  · have hnew := room.cache.size_insert_of_not_mem hget entry
    have := hfits.2 hget
    omega
  · rw [room.cache.size_insert_of_mem hget entry]
    exact hfits.1

/-! ## Every run -/

/-- Every entry holds what was submitted for its address, and the cache is
    within its bound. -/
structure CacheOk (past : List (CprEvent D)) (decoder : CprDecoder D) : Prop where
  entry : ∀ icao entry, decoder.cache.get? icao = some entry → EntryOk past icao entry
  size  : decoder.cache.size ≤ MAX_CPR_CACHE_ENTRIES

/-- What holds of every step of a run, given the steps before it. -/
structure StepOk (walk : Iteration D) (past : List (CprEvent D)) (e : CprEvent D) : Prop where
  justified : ∀ position, e.output = some position → Justified past e.input position
  spared    : ∀ icao frame now, e.input.submission = some (icao, frame, now) →
    ∀ entry, e.before.cache.get? icao = some entry → Live entry now →
      (e.before.evictOldestIfFull walk icao now).cache.get? icao = some entry
  bounded   : e.after.cache.size ≤ 2048

/-- The entry that a submission puts back. -/
theorem CacheOk.insert {past : List (CprEvent D)} {decoder : CprDecoder D}
    (h : CacheOk past decoder) {icao : Address} {now : CprTimestamp} {e : CprEvent D}
    {entry : CprCacheEntry D.Position} (hentry : EntryOk (past ++ [e]) icao entry) :
    CacheOk (past ++ [e])
      ⟨(decoder.evictOldestIfFull walk icao now).cache.insert icao entry⟩ where
  entry other old hget := by
    by_cases heq : other = icao
    · subst heq
      rw [BTreeMap.get?_insert_self] at hget
      rw [← Option.some.inj hget]
      exact hentry
    · rw [BTreeMap.get?_insert_ne _ heq] at hget
      exact (h.entry other old (evict_get? decoder icao other now hget)).later e
  size := evict_insert_size h.size icao now entry

theorem CacheOk.entryOf {past : List (CprEvent D)} {decoder : CprDecoder D}
    (h : CacheOk past decoder) (icao : Address) (now : CprTimestamp) :
    EntryOk past icao ((decoder.evictOldestIfFull walk icao now).entryOf icao) := by
  unfold CprDecoder.entryOf
  rcases hget : (decoder.evictOldestIfFull walk icao now).cache.get? icao with _ | entry
  · exact EntryOk.default
  · exact h.entry icao entry (evict_get? decoder icao icao now hget)

theorem CacheOk.later {past : List (CprEvent D)} {decoder : CprDecoder D}
    (h : CacheOk past decoder) (e : CprEvent D) : CacheOk (past ++ [e]) decoder :=
  ⟨fun icao entry hget => (h.entry icao entry hget).later e, h.size⟩

/-- What a submission does to the cache: make room, prepare the entry, store
    the frame, and remember the position given out. -/
def submitted (walk : Iteration D) (decoder : CprDecoder D) (icao : Address) (frame : CprFrame)
    (now : CprTimestamp) (output : Option D.Position) : CprDecoder D :=
  let room := decoder.evictOldestIfFull walk icao now
  ⟨room.cache.insert icao
    ((((room.entryOf icao).prepare frame now).store ⟨frame, now⟩).locate output now)⟩

theorem CacheOk.submitted {past : List (CprEvent D)} {decoder : CprDecoder D}
    (h : CacheOk past decoder) {e : CprEvent D} {icao : Address} {frame : CprFrame}
    {now : CprTimestamp} (hsub : e.input.submission = some (icao, frame, now)) :
    CacheOk (past ++ [e]) (submitted walk decoder icao frame now e.output) := by
  have hlast : e ∈ past ++ [e] := List.mem_append_right _ (List.mem_singleton.mpr rfl)
  have hready := @CacheOk.entryOf D walk past decoder h icao now
  refine h.insert (EntryOk.locate (EntryOk.store ((hready.prepare frame now).later e) ?_ ?_) ?_)
  · intro timed ht
    exact hready.prepare_type frame now ht
  · exact ⟨e, hlast, hsub⟩
  · intro p hp
    exact ⟨e, hlast, frame, hsub, hp⟩

/-- The position given out for an airborne frame. -/
def airborneOutput (walk : Iteration D) (decoder : CprDecoder D) (icao : Address)
    (frame : CprFrame) (now : CprTimestamp) : Option D.Position :=
  let entry := ((decoder.evictOldestIfFull walk icao now).entryOf icao).prepare frame now
  ((entry.partner frame now).bind (CprDecoder.airbornePair D frame)).or
    (entry.lastPosition.bind fun position =>
      D.decodeRelative position frame.lat frame.lon frame.odd false)

/-- What `submitWithTimestamp` does. -/
theorem submit_cases (decoder : CprDecoder D) (icao : Address) (frame : CprFrame)
    (now : CprTimestamp) :
    (∃ output, decoder.submitWithTimestamp walk icao frame now =
        (submitted walk decoder icao frame now output, output) ∧
      ∀ p, output = some p → frame.cprType = .airborne ∧
        airborneOutput walk decoder icao frame now = some p) ∨
      decoder.submitWithTimestamp walk icao frame now = (decoder, none) := by
  unfold CprDecoder.submitWithTimestamp
  by_cases hrange : CprDecoder.inRange frame = true
  · refine .inl ?_
    rw [hrange]
    rcases htype : frame.cprType
    · exact ⟨none, rfl, fun p hp => absurd hp nofun⟩
    · refine ⟨airborneOutput walk decoder icao frame now, ?_, fun p hp => ⟨rfl, hp⟩⟩
      have hposition : (((((decoder.evictOldestIfFull walk icao now).entryOf icao).prepare frame
          now).store ⟨frame, now⟩).lastPosition) =
          (((decoder.evictOldestIfFull walk icao now).entryOf icao).prepare frame now).lastPosition := by
        unfold CprCacheEntry.store
        split <;> rfl
      unfold airborneOutput
      simp only [Bool.not_true, Bool.false_eq_true, if_false, partner_store, hposition]
      rfl
    · exact ⟨none, rfl, fun p hp => absurd hp nofun⟩
  · refine .inr ?_
    rw [Bool.not_eq_true] at hrange
    rw [hrange]
    rfl

/-- What `submitSurfaceWithTimestamp` does. -/
theorem submitSurface_cases (decoder : CprDecoder D) (icao : Address) (frame : CprFrame)
    (reference : D.Position) (now : CprTimestamp) :
    (∃ output, decoder.submitSurfaceWithTimestamp walk icao frame reference now =
        (submitted walk decoder icao frame now output, output) ∧ frame.cprType = .surface ∧
      output = ((((decoder.evictOldestIfFull walk icao now).entryOf icao).prepare frame
        now).partner frame now).bind (CprDecoder.surfacePair D reference frame)) ∨
      decoder.submitSurfaceWithTimestamp walk icao frame reference now = (decoder, none) := by
  unfold CprDecoder.submitSurfaceWithTimestamp
  split
  · exact .inr rfl
  · next hvalid =>
    have htype : frame.cprType = .surface := by
      simp only [Bool.or_eq_true, decide_eq_true_eq, not_or, ne_eq, not_not] at hvalid
      exact hvalid.1.1
    refine .inl ⟨_, ?_, htype, rfl⟩
    simp only [partner_store]
    rfl

/-- **One step** of the decoder. -/
theorem step_ok {past : List (CprEvent D)} {e : CprEvent D} (h : CacheOk past e.before)
    (hstep : (cprMachine walk).step e.before e.input = some (e.after, e.output)) :
    CacheOk (past ++ [e]) e.after ∧ StepOk walk past e := by
  have hspared : ∀ icao frame now, e.input.submission = some (icao, frame, now) →
      ∀ entry, e.before.cache.get? icao = some entry → Live entry now →
        (e.before.evictOldestIfFull walk icao now).cache.get? icao = some entry :=
    fun icao frame now _ entry hentry hlive => evict_live h.size hentry hlive
  suffices hmain : CacheOk (past ++ [e]) e.after ∧
      ∀ position, e.output = some position → Justified past e.input position from
    ⟨hmain.1, hmain.2, hspared, hmain.1.size⟩
  obtain ⟨before, input, output, after⟩ := e
  have hok : CacheOk past before := h
  rcases input with ⟨icao, frame, now⟩ | ⟨icao, frame, reference, now⟩ | ⟨maxAge, now⟩ | _
  · have hresult : before.submitWithTimestamp walk icao frame now = (after, output) :=
      Option.some.inj hstep
    -- a position comes from a partner of the other parity, or else from the last position
    rcases submit_cases before icao frame now with ⟨out, hshape, hwhy⟩ | hnone
    · rw [hshape, Prod.mk.injEq] at hresult
      obtain ⟨rfl, rfl⟩ := hresult
      refine ⟨hok.submitted rfl, fun p hp => ?_⟩
      obtain ⟨htype, hout⟩ := hwhy p hp
      have hready := @CacheOk.entryOf D walk past before hok icao now
      rcases Option.or_eq_some_iff.mp hout with hglobal | ⟨-, hlocal⟩
      · obtain ⟨other, hpartner, hdecode⟩ := Option.bind_eq_some_iff.mp hglobal
        obtain ⟨time, hpartner⟩ := partner_spec hready hpartner
        exact .airborne hpartner htype hdecode
      · obtain ⟨known, hknown, hdecode⟩ := Option.bind_eq_some_iff.mp hlocal
        obtain ⟨seen, age, hseen, hage, hrecent⟩ := expirePosition_recent hknown
        obtain ⟨seen', hseen', hpast⟩ := (hready.prepare frame now).position known hknown
        have heq : seen = seen' := Option.some.inj (hseen.symm.trans hseen')
        exact .relative (heq ▸ hpast) hage hrecent (sameDomain_of_checked hage) htype hdecode
    · rw [hnone, Prod.mk.injEq] at hresult
      obtain ⟨rfl, rfl⟩ := hresult
      exact ⟨hok.later _, fun p hp => absurd hp nofun⟩
  · have hresult : before.submitSurfaceWithTimestamp walk icao frame reference now =
        (after, output) := Option.some.inj hstep
    -- on the surface only a partner gives one
    rcases submitSurface_cases before icao frame reference now with ⟨out, hshape, htype, hout⟩ | hnone
    · rw [hshape, Prod.mk.injEq] at hresult
      obtain ⟨rfl, rfl⟩ := hresult
      refine ⟨hok.submitted rfl, fun p hp => ?_⟩
      have hready := @CacheOk.entryOf D walk past before hok icao now
      obtain ⟨other, hpartner, hdecode⟩ := Option.bind_eq_some_iff.mp (hout.symm.trans hp)
      obtain ⟨time, hpartner⟩ := partner_spec hready hpartner
      exact .surface hpartner htype hdecode
    · rw [hnone, Prod.mk.injEq] at hresult
      obtain ⟨rfl, rfl⟩ := hresult
      exact ⟨hok.later _, fun p hp => absurd hp nofun⟩
  · have hresult : (before.pruneOlderThanAt maxAge now, none) = (after, output) :=
      Option.some.inj hstep
    rw [Prod.mk.injEq] at hresult
    obtain ⟨rfl, rfl⟩ := hresult
    refine ⟨⟨fun icao entry hget => ?_, ?_⟩, fun p hp => absurd hp nofun⟩
    · exact (hok.entry icao entry ((before.cache.get?_filter_eq_some).mp hget).1).later _
    · exact Nat.le_trans (before.cache.size_filter_le _) hok.size
  · have hresult : ((CprDecoder.new : CprDecoder D), none) = (after, output) :=
      Option.some.inj hstep
    rw [Prod.mk.injEq] at hresult
    obtain ⟨rfl, rfl⟩ := hresult
    exact ⟨⟨fun icao entry hget => absurd hget nofun, Nat.zero_le _⟩, fun p hp => absurd hp nofun⟩

/-- **Pairing discipline.** In every run of submissions, prunings and clears,
    at any times in any clock domains, every step gives out only justified
    positions, spares the live entry of the address it was submitted for, and
    leaves at most 2048 entries. -/
theorem run_pairing (walk : Iteration D) (commands : List (CprCommand D)) :
    ∃ decoder events, (cprMachine walk).run CprDecoder.new commands = some (decoder, events) ∧
      ∀ past e later, events = past ++ e :: later → StepOk walk past e := by
  have hrun := (cprMachine walk).run_safe_steps (P := CacheOk) (Q := StepOk walk)
    (I := fun _ => True)
    ⟨fun icao entry hget => absurd hget nofun, Nat.zero_le _⟩
    (fun past before input hok _ => ?_) commands (fun _ _ => trivial)
  · obtain ⟨decoder, events, hevents, -, hsteps⟩ := hrun
    exact ⟨decoder, events, hevents, hsteps⟩
  · have htotal : ∃ after output, (cprMachine walk).step before input = some (after, output) := by
      rcases input with _ | _ | _ | _ <;> exact ⟨_, _, rfl⟩
    obtain ⟨after, output, hstep⟩ := htotal
    exact ⟨after, output, hstep, @step_ok D walk past ⟨before, input, output, after⟩ hok hstep⟩

end Pairing

end ModeS
