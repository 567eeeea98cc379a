import EzSdr.Uat.Receiver

/-! # Chunk Independence of the UAT Receiver

    The decoding loop is a scanner that looks only at the front of the
    samples: it skips one that starts no sync word, waits for a frame that is
    not complete, and takes or steps into one that is.

    **`pushAll_partition`**: the messages do not depend on how a stream is cut.
-/

namespace Uat

variable {N : Numerics}

/-! ## Looking at the front -/

theorem bitDelta_append {samples : List N.Sample} {start bit : Nat} (more : List N.Sample)
    (h : start + bit * 2 + 1 < samples.length) :
    bitDelta (samples ++ more) start bit = bitDelta samples start bit := by
  unfold bitDelta
  rw [List.getElem?_append_left (by omega), List.getElem?_append_left h]

theorem bitDelta_drop (samples : List N.Sample) (start bit : Nat) :
    bitDelta (samples.drop start) 0 bit = bitDelta samples start bit := by
  unfold bitDelta
  rw [List.getElem?_drop, List.getElem?_drop]
  simp only [Nat.zero_add, Nat.add_assoc]

theorem mapM_congr {α β : Type} {f g : α → Option β} {xs : List α} (h : ∀ x ∈ xs, f x = g x) :
    xs.mapM f = xs.mapM g := by
  induction xs with
  | nil => rfl
  | cons x xs ih =>
    rw [List.mapM_cons, List.mapM_cons, h x List.mem_cons_self,
      ih fun y hy => h y (List.mem_cons_of_mem x hy)]

theorem matchSync_append {samples : List N.Sample} (more : List N.Sample) (word : Nat)
    (h : 72 ≤ samples.length) : matchSync (samples ++ more) 0 word = matchSync samples 0 word := by
  have hdeltas : (List.range SYNC_BITS).mapM (bitDelta (samples ++ more) 0) =
      (List.range SYNC_BITS).mapM (bitDelta samples 0) := by
    refine mapM_congr fun bit hbit => bitDelta_append more ?_
    have hSYNC : SYNC_BITS = 36 := rfl
    have := List.mem_range.mp hbit
    omega
  unfold matchSync
  rw [hdeltas]

theorem matchSync_drop (samples : List N.Sample) (start word : Nat) :
    matchSync (samples.drop start) 0 word = matchSync samples start word := by
  have hdeltas : bitDelta (samples.drop start) 0 = bitDelta samples start :=
    funext (bitDelta_drop samples start)
  unfold matchSync
  rw [hdeltas]

theorem syncAt_append {samples : List N.Sample} (more : List N.Sample)
    (h : 72 ≤ samples.length) : syncAt (samples ++ more) 0 = syncAt samples 0 := by
  unfold syncAt
  simp only [matchSync_append more _ h]

theorem syncAt_drop (samples : List N.Sample) (start : Nat) :
    syncAt (samples.drop start) 0 = syncAt samples start := by
  unfold syncAt
  simp only [matchSync_drop]

theorem demodBytes_append {samples : List N.Sample} {start count : Nat} (more : List N.Sample)
    (threshold : N.Float) (h : start + count * 16 ≤ samples.length) :
    demodBytes (samples ++ more) start count threshold =
      demodBytes samples start count threshold := by
  unfold demodBytes
  refine List.map_congr_left fun byteIndex hbyte => ?_
  have hcount := List.mem_range.mp hbyte
  have hbits : ∀ bits : List Nat, (∀ b ∈ bits, b < 8) → ∀ byte : UInt8,
      bits.foldl (fun (byte : UInt8) bitIndex =>
        (byte <<< 1) ||| (N.lt threshold ((bitDelta (samples ++ more) start
          (byteIndex * 8 + bitIndex)).getD (N.minusOne threshold))).toUInt8) byte =
      bits.foldl (fun (byte : UInt8) bitIndex =>
        (byte <<< 1) ||| (N.lt threshold ((bitDelta samples start
          (byteIndex * 8 + bitIndex)).getD (N.minusOne threshold))).toUInt8) byte := by
    intro bits
    induction bits with
    | nil => exact fun _ _ => rfl
    | cons b bits ih =>
      intro hlt byte
      have hb := hlt b List.mem_cons_self
      rw [List.foldl_cons, List.foldl_cons, bitDelta_append more (by omega)]
      exact ih (fun c hc => hlt c (List.mem_cons_of_mem b hc)) _
  exact hbits (List.range 8) (fun b hb => List.mem_range.mp hb) 0

theorem frameKind_append {samples : List N.Sample} {kind kind' : MessageKind}
    {threshold : N.Float} (more : List N.Sample) (h : frameKind samples kind threshold = some kind') :
    frameKind (samples ++ more) kind threshold = some kind' := by
  unfold frameKind at h ⊢
  split at h
  · next hshort =>
    rw [if_pos hshort]
    split at h
    · exact absurd h nofun
    · next hlong =>
      have hSYNC : SYNC_BITS = 36 := rfl
      rw [if_neg (by rw [List.length_append]; omega), demodBytes_append more threshold (by omega)]
      exact h
  · next hlong =>
    rw [if_neg hlong]
    exact h

theorem required_eq (kind : MessageKind) : required kind = 72 + payloadBytes kind * 16 := by
  cases kind <;> rfl

theorem readFrame_append {samples : List N.Sample} {kind : MessageKind} (more : List N.Sample)
    (threshold : N.Float) (frameStart : Nat) (h : required kind ≤ samples.length) :
    readFrame (samples ++ more) kind threshold frameStart =
      readFrame samples kind threshold frameStart := by
  have hSYNC : SYNC_BITS = 36 := rfl
  have hrequired := required_eq kind
  unfold readFrame
  rw [demodBytes_append more threshold (by omega), List.take_append_of_le_length h]

/-! ## The loop as a scanner -/

/-- One iteration at the front of the samples; the state is the index of the
    first of them. -/
def scanFront (base : Nat) (samples : List N.Sample) : Option (Scanned Nat (UatMessage N)) :=
  if samples.length < 72 then none
  else
    match syncAt samples 0 with
    | none => some ⟨saturatingAdd base 1, [], 1⟩
    | some (kind, threshold) =>
      (frameKind samples kind threshold).bind fun kind =>
        if samples.length < required kind then none
        else
          match readFrame samples kind threshold base with
          | none => some ⟨saturatingAdd base 1, [], 1⟩
          | some message => some ⟨saturatingAdd base (required kind), [message], required kind⟩

theorem scanFront_short {base : Nat} {samples : List N.Sample} (h : samples.length < 72) :
    scanFront base samples = none := if_pos h

theorem scanFront_skip {base : Nat} {samples : List N.Sample} (hlong : 72 ≤ samples.length)
    (h : syncAt samples 0 = none) : scanFront base samples = some ⟨saturatingAdd base 1, [], 1⟩ := by
  rw [scanFront, if_neg (Nat.not_lt.mpr hlong), h]

theorem scanFront_sync {base : Nat} {samples : List N.Sample} (hlong : 72 ≤ samples.length)
    {kind : MessageKind} {threshold : N.Float} (h : syncAt samples 0 = some (kind, threshold)) :
    scanFront base samples = (frameKind samples kind threshold).bind fun kind =>
      if samples.length < required kind then none
      else
        match readFrame samples kind threshold base with
        | none => some ⟨saturatingAdd base 1, [], 1⟩
        | some message => some ⟨saturatingAdd base (required kind), [message], required kind⟩ := by
  rw [scanFront, if_neg (Nat.not_lt.mpr hlong), h]

/-- What an iteration that does something is. -/
theorem scanFront_cases {base : Nat} {samples : List N.Sample} {r : Scanned Nat (UatMessage N)}
    (h : scanFront base samples = some r) :
    72 ≤ samples.length ∧
      (r = ⟨saturatingAdd base 1, [], 1⟩ ∧ syncAt samples 0 = none ∨
        ∃ kind kind' threshold, syncAt samples 0 = some (kind, threshold) ∧
          frameKind samples kind threshold = some kind' ∧ required kind' ≤ samples.length ∧
          (r = ⟨saturatingAdd base 1, [], 1⟩ ∧ readFrame samples kind' threshold base = none ∨
            ∃ message, readFrame samples kind' threshold base = some message ∧
              r = ⟨saturatingAdd base (required kind'), [message], required kind'⟩)) := by
  by_cases hshort : samples.length < 72
  · rw [scanFront_short hshort] at h
    exact absurd h nofun
  have hlong := Nat.not_lt.mp hshort
  refine ⟨hlong, ?_⟩
  rcases hsync : syncAt samples 0 with _ | ⟨kind, threshold⟩
  · rw [scanFront_skip hlong hsync] at h
    exact .inl ⟨(Option.some.inj h).symm, rfl⟩
  · rw [scanFront_sync hlong hsync] at h
    obtain ⟨kind', hkind, hrest⟩ := Option.bind_eq_some_iff.mp h
    refine .inr ⟨kind, kind', threshold, rfl, hkind, ?_⟩
    split at hrest
    · exact absurd hrest nofun
    next henough =>
    refine ⟨Nat.not_lt.mp henough, ?_⟩
    rcases hframe : readFrame samples kind' threshold base with _ | message
    · rw [hframe] at hrest
      exact .inl ⟨(Option.some.inj hrest).symm, rfl⟩
    · rw [hframe] at hrest
      exact .inr ⟨message, rfl, (Option.some.inj hrest).symm⟩

def scanner (N : Numerics) : Scanner Nat N.Sample (UatMessage N) where
  scan := scanFront
  progress := by
    intro base samples r h
    obtain ⟨hlong, ⟨rfl, -⟩ | ⟨_, kind', _, -, -, henough, ⟨rfl, -⟩ | ⟨_, -, rfl⟩⟩⟩ := scanFront_cases h
    · exact ⟨Nat.one_pos, by show 1 ≤ _; omega⟩
    · exact ⟨Nat.one_pos, by show 1 ≤ _; omega⟩
    · exact ⟨Nat.lt_trans (by decide) (UatDecoder.required_pos kind'), henough⟩
  stable := by
    intro base samples r more h
    obtain ⟨hlong, hcase⟩ := scanFront_cases h
    have hlong' : 72 ≤ (samples ++ more).length := by
      rw [List.length_append]
      omega
    rcases hcase with ⟨rfl, hsync⟩ | ⟨kind, kind', threshold, hsync, hkind, henough, hframe⟩
    · exact scanFront_skip hlong' (by rw [syncAt_append more hlong, hsync])
    · have henough' : ¬ (samples ++ more).length < required kind' := by
        rw [List.length_append]
        omega
      rw [scanFront_sync hlong' (by rw [syncAt_append more hlong, hsync]),
        frameKind_append more hkind, Option.bind_some, if_neg henough',
        readFrame_append more threshold base henough]
      rcases hframe with ⟨rfl, hnone⟩ | ⟨message, hsome, rfl⟩
      · rw [hnone]
      · rw [hsome]

/-! ## Skipping to a sync word -/

theorem saturatingAdd_add (base a b : Nat) :
    saturatingAdd (saturatingAdd base a) b = saturatingAdd base (a + b) := by
  unfold saturatingAdd
  omega

theorem saturatingAdd_zero {a : Nat} (h : a < 2 ^ 64) : saturatingAdd a 0 = a := by
  unfold saturatingAdd
  omega

/-- Samples that start no sync word are skipped one by one. -/
theorem drain_skip (base : Nat) {samples : List N.Sample} {k : Nat}
    (hlong : k + 71 ≤ samples.length) (h : ∀ i < k, syncAt samples i = none) (hk : 0 < k) :
    (scanner N).drain base samples =
      (scanner N).drain (saturatingAdd base k) (samples.drop k) := by
  induction k generalizing base samples with
  | zero => exact absurd hk (Nat.lt_irrefl 0)
  | succ k ih =>
    have hfront : syncAt samples 0 = none := h 0 (Nat.succ_pos k)
    have hone : (scanner N).drain base samples =
        (scanner N).drain (saturatingAdd base 1) (samples.drop 1) :=
      (scanner N).drain_step (scanFront_skip (by omega) hfront)
    rw [hone]
    match k with
    | 0 => rfl
    | k + 1 =>
      have hrest := @ih (saturatingAdd base 1) (samples.drop 1)
        (by rw [List.length_drop]; omega)
        (fun i hi => by
          rw [← syncAt_drop, List.drop_drop, syncAt_drop]
          exact h (1 + i) (by omega)) (Nat.succ_pos k)
      rw [hrest, List.drop_drop, saturatingAdd_add, Nat.add_comm 1]

theorem findSync_none {samples : List N.Sample} (h : findSync samples = none) :
    ∀ i < samples.length - 72 + 1, syncAt samples i = none := by
  intro i hi
  have hall := List.findSome?_eq_none_iff.mp h i (List.mem_range.mpr hi)
  exact Option.map_eq_none_iff.mp hall

theorem findSome?_range {α : Type} {f : Nat → Option α} {n : Nat} {a : α}
    (h : (List.range n).findSome? f = some a) : ∃ i < n, f i = some a ∧ ∀ j < i, f j = none := by
  induction n with
  | zero => exact absurd h nofun
  | succ n ih =>
    rw [List.range_succ, List.findSome?_append] at h
    rcases Option.or_eq_some_iff.mp h with hfront | ⟨hnone, hlast⟩
    · obtain ⟨i, hi, hrest⟩ := ih hfront
      exact ⟨i, Nat.lt_succ_of_lt hi, hrest⟩
    · refine ⟨n, Nat.lt_succ_self n, ?_, fun j hj => ?_⟩
      · simpa using hlast
      · exact List.findSome?_eq_none_iff.mp hnone j (List.mem_range.mpr hj)

/-- The first sync word found is at its place, and there is none before it. -/
theorem findSync_some {samples : List N.Sample} {start : Nat} {kind : MessageKind}
    {threshold : N.Float} (h : findSync samples = some (start, kind, threshold)) :
    syncAt samples start = some (kind, threshold) ∧ start < samples.length - 72 + 1 ∧
      ∀ i < start, syncAt samples i = none := by
  obtain ⟨place, hplace, hfound, hbefore⟩ := findSome?_range h
  obtain ⟨found, hsync, hpair⟩ := Option.map_eq_some_iff.mp hfound
  rw [Prod.mk.injEq] at hpair
  obtain ⟨rfl, rfl⟩ := hpair
  exact ⟨hsync, hplace, fun i hi => Option.map_eq_none_iff.mp (hbefore i hi)⟩

/-! ## The loop of the code -/

/-- The decoder with the loop at rest. -/
def rested (decoder : UatDecoder N) (d : Drained Nat N.Sample (UatMessage N)) : UatDecoder N :=
  ⟨d.rest, d.state, decoder.nextSample⟩

theorem decodeReady_stop {decoder rest : UatDecoder N} (h : decoder.pass = .stop rest) :
    decoder.decodeReady = (rest, []) := by
  rw [UatDecoder.decodeReady]
  split
  · next rest' hstop =>
    rw [h, UatDecoder.Pass.stop.injEq] at hstop
    rw [hstop]
  · next rest' message hgo =>
    rw [h] at hgo
    cases hgo

theorem decodeReady_go {decoder rest : UatDecoder N} {message : Option (UatMessage N)}
    (h : decoder.pass = .go rest message) :
    decoder.decodeReady = (rest.decodeReady.1, message.toList ++ rest.decodeReady.2) := by
  rw [UatDecoder.decodeReady]
  split
  · next rest' hstop =>
    rw [h] at hstop
    cases hstop
  · next rest' message' hgo =>
    rw [h, UatDecoder.Pass.go.injEq] at hgo
    rw [hgo.1, hgo.2]

/-- What the loop does once the sync word is at the front. -/
theorem pass_sync {decoder : UatDecoder N} (hlong : 72 ≤ decoder.samples.length)
    {start : Nat} {kind : MessageKind} {threshold : N.Float}
    (hfound : findSync decoder.samples = some (start, kind, threshold)) :
    ∃ front : UatDecoder N, front.nextSample = decoder.nextSample ∧
      front.samples.length ≤ decoder.samples.length ∧ 72 ≤ front.samples.length ∧
      syncAt front.samples 0 = some (kind, threshold) ∧
      (scanner N).drain decoder.baseSample decoder.samples =
        (scanner N).drain front.baseSample front.samples ∧
      decoder.pass = match frameKind front.samples kind threshold with
        | none => .stop front
        | some kind =>
          if front.samples.length < required kind then .stop front
          else
            match readFrame front.samples kind threshold front.baseSample with
            | none => .go (front.discardFront 1) none
            | some message => .go (front.discardFront (required kind)) (some message) := by
  obtain ⟨hsync, hstart, hbefore⟩ := findSync_some hfound
  have hSYNC : SYNC_BITS * 2 = 72 := rfl
  -- `front` is the decoder without what stands before the sync word
  refine ⟨if start > 0 then decoder.discardFront start else decoder, ?_, ?_, ?_, ?_, ?_, ?_⟩
  · split <;> rfl
  · split
    · rw [UatDecoder.discardFront_length]
      omega
    · exact Nat.le_refl _
  · split
    · rw [UatDecoder.discardFront_length]
      omega
    · exact hlong
  · split
    · exact (syncAt_drop _ _).trans hsync
    · next hzero =>
      rw [← hsync, Nat.le_zero.mp (Nat.not_lt.mp hzero)]
  · split
    · next hpos =>
      rw [drain_skip decoder.baseSample (by omega) hbefore hpos]
      show _ = (scanner N).drain (saturatingAdd _ (min start decoder.samples.length)) _
      rw [Nat.min_eq_left (by omega)]
      rfl
    · rfl
  · unfold UatDecoder.pass
    rw [if_neg (by omega)]
    generalize findSync decoder.samples = found at hfound
    subst hfound
    rfl

/-- **The loop drains the scanner.** -/
theorem decodeReady_drain (decoder : UatDecoder N) :
    decoder.decodeReady =
      (rested decoder ((scanner N).drain decoder.baseSample decoder.samples),
        ((scanner N).drain decoder.baseSample decoder.samples).output) := by
  -- every pass that goes on leaves fewer samples
  induction hn : decoder.samples.length using Nat.strong_induction_on generalizing decoder with
  | _ n ih =>
  have hSYNC : SYNC_BITS * 2 = 72 := rfl
  by_cases hshort : decoder.samples.length < 72
  · have hpass : decoder.pass = .stop decoder := if_pos (by omega)
    have hwait := (scanner N).drain_wait (s := decoder.baseSample) (scanFront_short hshort)
    rw [decodeReady_stop hpass, hwait]
    rfl
  have hlong := Nat.not_lt.mp hshort
  rcases hfound : findSync decoder.samples with _ | ⟨start, kind, threshold⟩
  · -- no sync word in sight
    have hpass : decoder.pass = .stop (decoder.discardFront (decoder.samples.length - 71)) := by
      rw [UatDecoder.pass, if_neg (by omega), hfound]
      rfl
    have hnone := findSync_none hfound
    have hskip := drain_skip decoder.baseSample (k := decoder.samples.length - 71) (by omega)
      (fun i hi => hnone i (by omega)) (by omega)
    have hrest : (decoder.samples.drop (decoder.samples.length - 71)).length < 72 := by
      rw [List.length_drop]
      omega
    have hwait := (scanner N).drain_wait (scanFront_short hrest)
      (s := saturatingAdd decoder.baseSample (decoder.samples.length - 71))
    rw [decodeReady_stop hpass, hskip, hwait]
    show (UatDecoder.mk _ (saturatingAdd _ (min _ _)) _, _) = _
    rw [Nat.min_eq_left (by omega)]
    rfl
  · obtain ⟨front, hnext, hle, hfront, hsync, hdrain, hpass⟩ := pass_sync hlong hfound
    have hscan := @scanFront_sync N front.baseSample _ hfront _ _ hsync
    have hkeep : rested decoder = rested front := by
      funext d
      rw [rested, rested, hnext]
    rw [hdrain, hkeep]
    rcases hkind : frameKind front.samples kind threshold with _ | kind'
    · -- the header is not there yet
      rw [hkind] at hpass
      rw [hkind, Option.bind_none] at hscan
      rw [decodeReady_stop hpass, (scanner N).drain_wait hscan]
      rfl
    rw [hkind] at hpass
    rw [hkind, Option.bind_some] at hscan
    dsimp only at hpass
    by_cases hpart : front.samples.length < required kind'
    · rw [if_pos hpart] at hpass hscan
      rw [decodeReady_stop hpass, (scanner N).drain_wait hscan]
      rfl
    have hpos := UatDecoder.required_pos kind'
    rw [if_neg hpart] at hpass hscan
    rcases hframe : readFrame front.samples kind' threshold front.baseSample with _ | message
    · -- a plausible sync word before noise: one sample on
      rw [hframe] at hpass hscan
      have hbase : (front.discardFront 1).baseSample = saturatingAdd front.baseSample 1 :=
        congrArg (saturatingAdd front.baseSample) (Nat.min_eq_left (by omega))
      have hrest := ih (front.discardFront 1).samples.length
        (by rw [UatDecoder.discardFront_length]; omega) (front.discardFront 1) rfl
      rw [decodeReady_go hpass, hrest, (scanner N).drain_step hscan, hbase]
      rfl
    · rw [hframe] at hpass hscan
      have hbase : (front.discardFront (required kind')).baseSample =
          saturatingAdd front.baseSample (required kind') :=
        congrArg (saturatingAdd front.baseSample) (Nat.min_eq_left (by omega))
      have hrest := ih (front.discardFront (required kind')).samples.length
        (by rw [UatDecoder.discardFront_length]; omega) (front.discardFront (required kind')) rfl
      rw [decodeReady_go hpass, hrest, (scanner N).drain_step hscan, hbase]
      rfl

/-! ## Streams -/

/-- Between calls the loop is at rest; the sample counter is a 64-bit number. -/
structure AtRest (decoder : UatDecoder N) : Prop where
  waiting : (scanner N).scan decoder.baseSample decoder.samples = none
  counter : decoder.nextSample < 2 ^ 64

theorem atRest_new : AtRest (UatDecoder.new : UatDecoder N) :=
  ⟨@scanFront_short N 0 [] (Nat.zero_lt_succ 71), Nat.two_pow_pos 64⟩

/-- A call drains the scanner over what waits and what comes. -/
theorem push_drain {decoder : UatDecoder N} (h : AtRest decoder) (input : List N.Sample) :
    decoder.push input =
      (⟨((scanner N).drain decoder.baseSample (decoder.samples ++ input)).rest,
        ((scanner N).drain decoder.baseSample (decoder.samples ++ input)).state,
        saturatingAdd decoder.nextSample input.length⟩,
      ((scanner N).drain decoder.baseSample (decoder.samples ++ input)).output) := by
  have hgap : ¬ decoder.nextSample ≠ decoder.nextSample := fun hne => hne rfl
  rw [UatDecoder.push, UatDecoder.pushAt, if_neg hgap]
  match input with
  | [] =>
    show (decoder, []) = _
    rw [List.append_nil, (scanner N).drain_wait h.waiting, List.length_nil,
      saturatingAdd_zero h.counter]
  | sample :: more =>
    show ((UatDecoder.decodeReady _).1, (UatDecoder.decodeReady _).2) = _
    rw [decodeReady_drain]
    rfl

theorem AtRest.push {decoder : UatDecoder N} (h : AtRest decoder) (input : List N.Sample) :
    AtRest (decoder.push input).1 := by
  rw [push_drain h]
  refine ⟨(scanner N).scan_drain _ _, ?_⟩
  show saturatingAdd decoder.nextSample input.length < 2 ^ 64
  unfold saturatingAdd
  omega

/-- **Chunk independence.** A decoder that is fed a stream in chunks ends in
    the same state, with the same messages in the same order, as one that is
    given the whole stream at once. -/
theorem pushAll_eq_push (chunks : List (List N.Sample)) :
    ∀ {decoder : UatDecoder N}, AtRest decoder →
      decoder.pushAll chunks = decoder.push chunks.flatten := by
  induction chunks with
  | nil =>
    intro decoder h
    rw [List.flatten_nil, push_drain h, List.append_nil, (scanner N).drain_wait h.waiting]
    rw [List.length_nil, saturatingAdd_zero h.counter]
    rfl
  | cons chunk chunks ih =>
    intro decoder h
    show (((decoder.push chunk).1.pushAll chunks).1,
      (decoder.push chunk).2 ++ ((decoder.push chunk).1.pushAll chunks).2) = _
    rw [ih (h.push chunk), push_drain (h.push chunk), push_drain h chunk, push_drain h,
      List.flatten_cons, ← List.append_assoc,
      (scanner N).drain_append decoder.baseSample (decoder.samples ++ chunk) chunks.flatten,
      List.length_append, ← saturatingAdd_add]

/-- **Any two partitions** of a gap-free stream give the same messages. -/
theorem pushAll_partition (N : Numerics) (chunks chunks' : List (List N.Sample))
    (h : chunks.flatten = chunks'.flatten) :
    (UatDecoder.new : UatDecoder N).pushAll chunks = UatDecoder.new.pushAll chunks' := by
  rw [pushAll_eq_push chunks atRest_new, pushAll_eq_push chunks' atRest_new, h]

/-- Whole-number arithmetic, with phases in place of samples. -/
def wholeNumerics : Numerics where
  Sample := Int
  Float := Int
  Report := Unit
  phaseDelta a b := some (b - a)
  zero := 0
  add := (· + ·)
  divNat a n := a / n
  half a := a / 2
  minusOne a := a - 1
  lt a b := a < b
  rssiDbfs _ := 0
  decodeAdsb _ := none

/-- An empty short frame behind its sync word. -/
def emptyFrame : List Int :=
  ((List.range 36).map (wordBit DOWNLINK_SYNC) ++ List.replicate 240 false).flatMap
    fun bit => if bit then [0, 2] else [2, 0]

theorem pushAll_partition_frame :
    (UatDecoder.new : UatDecoder wholeNumerics).pushAll
        ([[1], emptyFrame.take 71, emptyFrame.drop 71] : List (List Int)) =
      UatDecoder.new.pushAll ([1 :: emptyFrame] : List (List Int)) ∧
    ((UatDecoder.new : UatDecoder wholeNumerics).pushAll
      ([1 :: emptyFrame] : List (List Int))).2.map
        (fun message => (message.firstSample, message.kind, message.payload.length)) =
      [(1, .downlinkShort, 18)] := by
  refine ⟨pushAll_partition wholeNumerics _ _ ?_, ?_⟩
  · show (1 :: (emptyFrame.take 71 ++ (emptyFrame.drop 71 ++ []))) = 1 :: (emptyFrame ++ [])
    rw [List.append_nil, List.take_append_drop, List.append_nil]
  · decide +kernel

end Uat
