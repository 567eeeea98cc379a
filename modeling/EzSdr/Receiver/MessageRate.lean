import Mathlib

/-! # The Rate of Received Messages

    The receivers report a running total. `MessageRateWindow` keeps its
    increases of the last five seconds in buckets of 100 ms.

    Expired buckets are removed from the front only, and a bucket is continued
    only if it is the last one.

    **`message_rate_spec`**: as long as no observation is of an earlier tick
    than the one before it, there are at most fifty buckets, and they give the
    rate of the last fifty ticks. -/

namespace Receiver

/-! ## Section 1: The window -/

/-- An instant, in nanoseconds. -/
abbrev Instant : Type := ℕ

def BUCKET_MS : ℕ := 100

def BUCKETS : ℕ := 50

/-- Ticks of 100 ms from one instant to another. -/
def tickOf (origin now : Instant) : ℕ := (now - origin) / 1000000 / BUCKET_MS

structure MessageRateWindow where
  origin    : Instant
  lastTotal : ℕ
  /-- Ticks since the origin, and the increases observed in them. -/
  buckets   : List (ℕ × ℕ)

/-- A total is of 64 bits. -/
structure Observation where
  total : ℕ
  now   : Instant
  bound : total < 2 ^ 64

/-- `u64::saturating_add`. -/
def saturatingAdd (a b : ℕ) : ℕ := min (a + b) (2 ^ 64 - 1)

namespace MessageRateWindow

def new (origin : Instant) : MessageRateWindow := ⟨origin, 0, []⟩

/-- An increase goes to the last bucket if that is of the same tick. -/
def record (buckets : List (ℕ × ℕ)) (tick count : ℕ) : List (ℕ × ℕ) :=
  match buckets.getLast? with
  | some (last, n) =>
    if last = tick then buckets.dropLast ++ [(last, saturatingAdd n count)]
    else buckets ++ [(tick, count)]
  | none => buckets ++ [(tick, count)]

def observeTotal (w : MessageRateWindow) (total : ℕ) (now : Instant) : MessageRateWindow :=
  let w := if total < w.lastTotal ∨ now < w.origin then new now else w
  let tick := tickOf w.origin now
  let buckets := w.buckets.dropWhile fun bucket => tick - bucket.1 ≥ BUCKETS
  let count := total - w.lastTotal
  { w with
    lastTotal := total
    buckets := if count = 0 then buckets else record buckets tick count }

/-- Messages a second. -/
def rateAt (w : MessageRateWindow) (now : Instant) : ℚ :=
  if now < w.origin then 0
  else
    let tick := tickOf w.origin now
    ((w.buckets.filter fun bucket => tick - bucket.1 < BUCKETS).map Prod.snd).sum / 5

def run (origin : Instant) (observations : List Observation) : MessageRateWindow :=
  observations.foldl (fun w o => w.observeTotal o.total o.now) (new origin)

end MessageRateWindow

/-! ## Section 2: The increases -/

/-- What was observed since the last reset of the counter: an observation
    below the total, or one from before the count began. -/
structure Count where
  origin    : Instant
  total     : ℕ
  /-- The instant of the last observation. -/
  latest    : Instant
  increases : List (Instant × ℕ)

namespace Count

def new (origin : Instant) : Count := ⟨origin, 0, origin, []⟩

/-- The count begins anew with this observation. -/
def Resets (c : Count) (o : Observation) : Prop := o.total < c.total ∨ o.now < c.origin

instance (c : Count) (o : Observation) : Decidable (c.Resets o) :=
  inferInstanceAs (Decidable (_ ∨ _))

def observe (c : Count) (o : Observation) : Count :=
  let c := if c.Resets o then new o.now else c
  { c with
    total := o.total
    latest := o.now
    increases := c.increases ++ [(o.now, o.total - c.total)] }

def run (origin : Instant) (observations : List Observation) : Count :=
  observations.foldl observe (new origin)

/-- The increases in the fifty ticks that end with the tick of this instant. -/
def lately (c : Count) (now : Instant) : ℕ :=
  ((c.increases.filter fun increase =>
    tickOf c.origin increase.1 ≤ tickOf c.origin now ∧
      tickOf c.origin now < tickOf c.origin increase.1 + BUCKETS).map Prod.snd).sum

/-- The observation resets the counter, or is of no earlier tick than the last one. -/
def Steady (c : Count) (o : Observation) : Prop :=
  c.Resets o ∨ tickOf c.origin c.latest ≤ tickOf c.origin o.now

/-- All of these observations are. -/
def AllSteady (c : Count) : List Observation → Prop
  | [] => True
  | o :: observations => c.Steady o ∧ (c.observe o).AllSteady observations

end Count

/-! ## Section 3: Sums over a window -/

/-- What is in the fifty ticks that end with a tick, if nothing is later. -/
def windowSum (tick : ℕ) (buckets : List (ℕ × ℕ)) : ℕ :=
  ((buckets.filter fun bucket => tick - bucket.1 < BUCKETS).map Prod.snd).sum

theorem windowSum_append (tick : ℕ) (a b : List (ℕ × ℕ)) :
    windowSum tick (a ++ b) = windowSum tick a + windowSum tick b := by
  unfold windowSum
  rw [List.filter_append, List.map_append, List.sum_append]

theorem windowSum_singleton (tick : ℕ) (bucket : ℕ × ℕ) :
    windowSum tick [bucket] = if tick - bucket.1 < BUCKETS then bucket.2 else 0 := by
  by_cases h : tick - bucket.1 < BUCKETS
  · simp [windowSum, h]
  · simp [windowSum, h]

/-- Only what has expired is removed. -/
theorem windowSum_dropWhile {tick later : ℕ} (h : tick ≤ later) (buckets : List (ℕ × ℕ)) :
    windowSum later (buckets.dropWhile fun bucket => tick - bucket.1 ≥ BUCKETS) =
      windowSum later buckets := by
  induction buckets with
  | nil => rfl
  | cons bucket buckets ih =>
    by_cases hexpired : tick - bucket.1 ≥ BUCKETS
    · rw [List.dropWhile_cons_of_pos (by simpa using hexpired), ih]
      rw [← List.singleton_append, windowSum_append, windowSum_singleton, if_neg (by omega),
        Nat.zero_add]
    · rw [List.dropWhile_cons_of_neg (by simpa using hexpired)]

theorem saturatingAdd_eq {a b : ℕ} (h : a + b < 2 ^ 64) : saturatingAdd a b = a + b := by
  unfold saturatingAdd
  omega

/-- An increase goes to the bucket of its tick, or opens one. -/
theorem record_cases (buckets : List (ℕ × ℕ)) (tick count : ℕ) :
    (∃ front n, buckets = front ++ [(tick, n)] ∧
      MessageRateWindow.record buckets tick count = front ++ [(tick, saturatingAdd n count)]) ∨
    ((∀ bucket, buckets.getLast? = some bucket → bucket.1 ≠ tick) ∧
      MessageRateWindow.record buckets tick count = buckets ++ [(tick, count)]) := by
  unfold MessageRateWindow.record
  split
  · next last n hlast =>
    obtain ⟨front, hfront⟩ := List.getLast?_eq_some_iff.1 hlast
    by_cases hsame : last = tick
    · subst hsame
      rw [if_pos rfl, hfront, List.dropLast_concat]
      exact .inl ⟨front, n, rfl, rfl⟩
    · rw [if_neg hsame]
      refine .inr ⟨fun bucket hbucket => ?_, rfl⟩
      rw [hlast] at hbucket
      rw [← Option.some.inj hbucket]
      exact hsame
  · next hnone =>
    refine .inr ⟨fun bucket hbucket => ?_, rfl⟩
    rw [hnone] at hbucket
    cases hbucket

/-! ## Section 4: Steady observations -/

/-- The ticks of the increases. -/
def Count.ticked (c : Count) : List (ℕ × ℕ) :=
  c.increases.map fun increase => (tickOf c.origin increase.1, increase.2)

/-- The last tick. -/
def Count.tick (c : Count) : ℕ := tickOf c.origin c.latest

/-- The window stands for the increases. -/
structure Agrees (w : MessageRateWindow) (c : Count) : Prop where
  origin  : w.origin = c.origin
  total   : w.lastTotal = c.total
  started : c.origin ≤ c.latest
  sorted  : (w.buckets.map Prod.fst).Pairwise (· < ·)
  recent  : ∀ bucket ∈ w.buckets, bucket.1 ≤ c.tick ∧ c.tick < bucket.1 + BUCKETS
  past    : ∀ increase ∈ c.ticked, increase.1 ≤ c.tick
  sum     : (w.buckets.map Prod.snd).sum ≤ w.lastTotal
  window  : ∀ tick, c.tick ≤ tick → windowSum tick w.buckets = windowSum tick c.ticked

theorem agrees_new (origin : Instant) : Agrees (.new origin) (.new origin) where
  origin := rfl
  total := rfl
  started := le_rfl
  sorted := .nil
  recent := fun _ hbucket => by cases hbucket
  past := fun _ hincrease => by cases hincrease
  sum := le_rfl
  window := fun _ _ => rfl

theorem tickOf_mono {origin a b : Instant} (h : a ≤ b) : tickOf origin a ≤ tickOf origin b := by
  unfold tickOf
  exact Nat.div_le_div_right (Nat.div_le_div_right (Nat.sub_le_sub_right h origin))

/-- **Fifty ticks have at most fifty buckets.** -/
theorem Agrees.length_le {w : MessageRateWindow} {c : Count} (h : Agrees w c) :
    w.buckets.length ≤ BUCKETS := by
  have hsubset : w.buckets.map Prod.fst ⊆ List.range' (c.tick + 1 - BUCKETS) BUCKETS := by
    intro tick htick
    obtain ⟨bucket, hbucket, rfl⟩ := List.mem_map.1 htick
    have hrecent := h.recent bucket hbucket
    rw [List.mem_range'_1]
    omega
  have hnodup : (w.buckets.map Prod.fst).Nodup := h.sorted.imp Nat.ne_of_lt
  have hle := (hnodup.subperm hsubset).length_le
  rwa [List.length_map, List.length_range'] at hle

/-- In the order of their ticks, what remains has not expired. -/
theorem dropWhile_recent {tick : ℕ} {buckets : List (ℕ × ℕ)}
    (hsorted : (buckets.map Prod.fst).Pairwise (· < ·)) :
    ∀ bucket ∈ buckets.dropWhile (fun bucket => tick - bucket.1 ≥ BUCKETS),
      tick < bucket.1 + BUCKETS := by
  induction buckets with
  | nil =>
    intro bucket hbucket
    cases hbucket
  | cons first buckets ih =>
    rw [List.map_cons, List.pairwise_cons] at hsorted
    intro bucket hbucket
    by_cases hexpired : tick - first.1 ≥ BUCKETS
    · rw [List.dropWhile_cons_of_pos (by simpa using hexpired)] at hbucket
      exact ih hsorted.2 bucket hbucket
    · rw [List.dropWhile_cons_of_neg (by simpa using hexpired)] at hbucket
      have hpos : 0 < BUCKETS := by decide
      obtain rfl | hlater := List.mem_cons.1 hbucket
      · omega
      · have hlt := hsorted.1 bucket.1 (List.mem_map_of_mem hlater)
        omega

/-- The buckets after an increase, when none is later and none has expired. -/
theorem record_spec {buckets : List (ℕ × ℕ)} {tick count : ℕ}
    (hsorted : (buckets.map Prod.fst).Pairwise (· < ·))
    (hrecent : ∀ bucket ∈ buckets, bucket.1 ≤ tick ∧ tick < bucket.1 + BUCKETS)
    (hsum : (buckets.map Prod.snd).sum + count < 2 ^ 64) :
    ((MessageRateWindow.record buckets tick count).map Prod.fst).Pairwise (· < ·) ∧
      (∀ bucket ∈ MessageRateWindow.record buckets tick count,
        bucket.1 ≤ tick ∧ tick < bucket.1 + BUCKETS) ∧
      ((MessageRateWindow.record buckets tick count).map Prod.snd).sum =
        (buckets.map Prod.snd).sum + count ∧
      ∀ later, windowSum later (MessageRateWindow.record buckets tick count) =
        windowSum later (buckets ++ [(tick, count)]) := by
  have hpos : 0 < BUCKETS := by decide
  obtain ⟨front, n, rfl, hrecord⟩ | ⟨hlast, hrecord⟩ := record_cases buckets tick count
  · rw [List.map_append, List.sum_append, List.map_singleton, List.sum_singleton] at hsum
    have hadd : saturatingAdd n count = n + count := saturatingAdd_eq (by omega)
    rw [hrecord, hadd]
    refine ⟨?_, ?_, ?_, fun later => ?_⟩
    · -- the ticks are the same
      rw [List.map_append, List.map_singleton] at hsorted ⊢
      exact hsorted
    · intro bucket hbucket
      obtain hfront | hnew := List.mem_append.1 hbucket
      · exact hrecent bucket (List.mem_append_left _ hfront)
      · rw [List.mem_singleton.1 hnew]
        exact ⟨le_rfl, Nat.lt_add_of_pos_right hpos⟩
    · simp [Nat.add_assoc]
    · simp only [windowSum_append, windowSum_singleton]
      split
      · rw [Nat.add_assoc]
      · rfl
  · rw [hrecord]
    refine ⟨?_, ?_, by simp, fun later => rfl⟩
    · rw [List.map_append, List.map_singleton, List.pairwise_append]
      refine ⟨hsorted, List.pairwise_singleton _ _, fun old hold new hnew => ?_⟩
      rw [List.mem_singleton.1 hnew]
      obtain ⟨bucket, hbucket, rfl⟩ := List.mem_map.1 hold
      -- the last bucket is of an earlier tick, and the others are before it
      obtain ⟨front, last, rfl⟩ : ∃ front last, buckets = front ++ [last] := by
        obtain hnil | hlast := List.eq_nil_or_concat' buckets
        · rw [hnil] at hbucket
          cases hbucket
        · exact hlast
      have hne := hlast last List.getLast?_concat
      have hle := (hrecent last (List.mem_append_right _ (List.mem_singleton_self _))).1
      obtain hfront | hself := List.mem_append.1 hbucket
      · rw [List.map_append, List.pairwise_append] at hsorted
        have hlt := hsorted.2.2 bucket.1 (List.mem_map_of_mem hfront) last.1
          (List.mem_map_of_mem (List.mem_singleton_self _))
        omega
      · rw [List.mem_singleton.1 hself]
        omega
    · intro bucket hbucket
      obtain hold | hnew := List.mem_append.1 hbucket
      · exact hrecent bucket hold
      · rw [List.mem_singleton.1 hnew]
        exact ⟨le_rfl, Nat.lt_add_of_pos_right hpos⟩

/-- **An observation of no earlier tick.** -/
theorem Agrees.observe {w : MessageRateWindow} {c : Count} (h : Agrees w c) {o : Observation}
    (hkept : ¬ c.Resets o) (hlater : c.tick ≤ tickOf c.origin o.now) :
    Agrees (w.observeTotal o.total o.now) (c.observe o) := by
  have hnot := not_or.1 hkept
  have htotal : c.total ≤ o.total := not_lt.1 hnot.1
  have hnow : c.origin ≤ o.now := not_lt.1 hnot.2
  have hcount : c.observe o = ⟨c.origin, o.total, o.now,
      c.increases ++ [(o.now, o.total - c.total)]⟩ := by
    unfold Count.observe
    rw [if_neg hkept]
  have hticked : (c.observe o).ticked =
      c.ticked ++ [(tickOf c.origin o.now, o.total - c.total)] := by
    rw [hcount]
    simp [Count.ticked]
  have htick : (c.observe o).tick = tickOf c.origin o.now := by
    rw [hcount]
    rfl
  -- the buckets that have not expired
  obtain ⟨kept, hkept'⟩ : ∃ kept, kept = w.buckets.dropWhile fun bucket =>
    tickOf c.origin o.now - bucket.1 ≥ BUCKETS := ⟨_, rfl⟩
  have hsublist : kept.Sublist w.buckets := by
    rw [hkept']
    exact List.dropWhile_sublist _
  have hsorted : (kept.map Prod.fst).Pairwise (· < ·) := h.sorted.sublist (hsublist.map _)
  have hrecent : ∀ bucket ∈ kept, bucket.1 ≤ tickOf c.origin o.now ∧
      tickOf c.origin o.now < bucket.1 + BUCKETS := by
    intro bucket hbucket
    refine ⟨(h.recent bucket (hsublist.subset hbucket)).1.trans hlater, ?_⟩
    rw [hkept'] at hbucket
    exact dropWhile_recent h.sorted bucket hbucket
  have hsum : (kept.map Prod.snd).sum ≤ c.total := by
    rw [← h.total]
    exact (hsublist.map Prod.snd).sum_le_sum (fun _ _ => Nat.zero_le _) |>.trans h.sum
  have hwindow : ∀ tick, tickOf c.origin o.now ≤ tick →
      windowSum tick kept = windowSum tick c.ticked := by
    intro tick hle
    rw [hkept', windowSum_dropWhile hle]
    exact h.window tick (hlater.trans hle)
  have hpast : ∀ increase ∈ (c.observe o).ticked, increase.1 ≤ (c.observe o).tick := by
    rw [hticked, htick]
    intro increase hincrease
    obtain hold | hnew := List.mem_append.1 hincrease
    · exact (h.past increase hold).trans hlater
    · rw [List.mem_singleton.1 hnew]
  have hobserve : w.observeTotal o.total o.now = ⟨c.origin, o.total,
      if o.total - c.total = 0 then kept
      else MessageRateWindow.record kept (tickOf c.origin o.now) (o.total - c.total)⟩ := by
    unfold MessageRateWindow.observeTotal
    rw [if_neg (by rw [h.total, h.origin]; exact hkept)]
    dsimp only
    rw [h.total, h.origin, hkept']
  rw [hobserve]
  have hbound := o.bound
  by_cases hzero : o.total - c.total = 0
  · rw [if_pos hzero]
    refine ⟨by rw [hcount], by rw [hcount], by rw [hcount]; exact hnow, hsorted, ?_, hpast,
      hsum.trans htotal, fun tick hle => ?_⟩
    · rw [htick]
      exact hrecent
    · rw [htick] at hle
      rw [hticked, windowSum_append, windowSum_singleton, hzero, ite_self, Nat.add_zero]
      exact hwindow tick hle
  · rw [if_neg hzero]
    obtain ⟨hsorted', hrecent', hsum', hwindow'⟩ :=
      @record_spec kept _ (o.total - c.total) hsorted hrecent (by omega)
    refine ⟨by rw [hcount], by rw [hcount], by rw [hcount]; exact hnow, hsorted', ?_, hpast,
      ?_, fun tick hle => ?_⟩
    · rw [htick]
      exact hrecent'
    · rw [hsum']
      show _ ≤ o.total
      omega
    · rw [htick] at hle
      rw [hwindow', hticked, windowSum_append, windowSum_append, hwindow tick hle]

/-- **A reset** leaves only the observation itself. -/
theorem Agrees.restart {w : MessageRateWindow} {c : Count} (h : Agrees w c) {o : Observation}
    (hresets : c.Resets o) : Agrees (w.observeTotal o.total o.now) (c.observe o) := by
  have hnew : ¬ (Count.new o.now).Resets o := by
    unfold Count.Resets Count.new
    simp
  have hagrees := (agrees_new o.now).observe hnew (tickOf_mono le_rfl)
  have hsame : c.observe o = (Count.new o.now).observe o := by
    unfold Count.observe
    rw [if_pos hresets, if_neg hnew]
  have hsame' : w.observeTotal o.total o.now =
      (MessageRateWindow.new o.now).observeTotal o.total o.now := by
    unfold MessageRateWindow.observeTotal
    rw [if_pos (by rw [h.total, h.origin]; exact hresets), ite_self]
  rw [hsame, hsame']
  exact hagrees

/-- **Every run of steady observations.** -/
theorem Agrees.run {w : MessageRateWindow} {c : Count} {observations : List Observation}
    (h : Agrees w c) (hsteady : c.AllSteady observations) :
    Agrees (observations.foldl (fun w o => w.observeTotal o.total o.now) w)
      (observations.foldl Count.observe c) := by
  induction observations generalizing w c with
  | nil => exact h
  | cons o observations ih =>
    obtain ⟨hfirst, hrest⟩ := hsteady
    rw [List.foldl_cons, List.foldl_cons]
    by_cases hresets : c.Resets o
    · exact ih (h.restart hresets) hrest
    · exact ih (h.observe hresets (hfirst.resolve_left hresets)) hrest

/-- **The rate of received messages.** When every observation resets the counter
    or is of no earlier tick than the one before it, at most fifty buckets are
    kept, and the rate from the last observation on is a fifth of the increases
    since the last reset in the fifty ticks up to that instant. -/
theorem message_rate_spec (origin : Instant) (observations : List Observation)
    (h : (Count.new origin).AllSteady observations) :
    (MessageRateWindow.run origin observations).buckets.length ≤ BUCKETS ∧
      ∀ now, (Count.run origin observations).latest ≤ now →
        (MessageRateWindow.run origin observations).rateAt now =
          ((Count.run origin observations).lately now : ℚ) / 5 := by
  have hagrees : Agrees (MessageRateWindow.run origin observations)
    (Count.run origin observations) := (agrees_new origin).run h
  refine ⟨hagrees.length_le, fun now hnow => ?_⟩
  obtain ⟨c, hc⟩ : ∃ c, c = Count.run origin observations := ⟨_, rfl⟩
  rw [← hc] at hagrees hnow ⊢
  have hstarted := hagrees.started.trans hnow
  have hwindow := hagrees.window (tickOf c.origin now) (tickOf_mono hnow)
  unfold MessageRateWindow.rateAt
  rw [hagrees.origin, if_neg (not_lt.2 hstarted)]
  show ((windowSum (tickOf c.origin now) _ : ℕ) : ℚ) / 5 = _
  rw [hwindow]
  -- no increase is later than now
  have hlately : windowSum (tickOf c.origin now) c.ticked = c.lately now := by
    unfold windowSum Count.ticked Count.lately
    rw [List.filter_map, List.map_map]
    have hpos : 0 < BUCKETS := by decide
    refine congrArg (fun l => (List.map Prod.snd l).sum) (List.filter_congr fun i hi => ?_)
    have hpast : tickOf c.origin i.1 ≤ tickOf c.origin now :=
      (hagrees.past _ (List.mem_map_of_mem hi)).trans (tickOf_mono hnow)
    simp only [Function.comp_apply, decide_eq_decide]
    omega
  rw [hlately]

/-- Four observations of a steady clock. The third one resets the counter. -/
def resetCounter : List Observation :=
  [⟨10, 0, by decide⟩, ⟨40, 300000000, by decide⟩, ⟨5, 1000000000, by decide⟩,
    ⟨25, 1200000000, by decide⟩]

theorem message_rate_steady :
    (MessageRateWindow.run 0 resetCounter).buckets.length ≤ BUCKETS ∧
      (∀ now, (Count.run 0 resetCounter).latest ≤ now →
        (MessageRateWindow.run 0 resetCounter).rateAt now =
          ((Count.run 0 resetCounter).lately now : ℚ) / 5) ∧
      (Count.run 0 resetCounter).origin = 1000000000 ∧
      (Count.run 0 resetCounter).lately 1200000000 = 25 := by
  have hsteady : (Count.new 0).AllSteady resetCounter :=
    ⟨.inr (by decide), .inr (by decide), .inl (by decide), .inr (by decide), trivial⟩
  obtain ⟨hlength, hrate⟩ := message_rate_spec 0 resetCounter hsteady
  exact ⟨hlength, hrate, by decide, by decide⟩

/-- A total that grows by one with every observation. -/
def ascending (instants : List Instant) : List Observation :=
  (List.range instants.length).zipWith (fun n now => ⟨n % 2 ^ 63 + 1, now, by omega⟩) instants

/-- When the clock goes back by a tick with every other observation, there is a
    bucket for each; and what was observed in a later tick than now is counted. -/
theorem message_rate_unsteady :
    BUCKETS < (MessageRateWindow.run 0
      (ascending ((List.range 51).map fun n => n % 2 * 100000000))).buckets.length ∧
    (MessageRateWindow.run 0 (ascending [100000000, 0])).rateAt 0 ≠
      ((Count.run 0 (ascending [100000000, 0])).lately 0 : ℚ) / 5 := by
  constructor
  · decide +kernel
  · have hlately : (Count.run 0 (ascending [100000000, 0])).lately 0 = 1 := by decide
    have hrate : (MessageRateWindow.run 0 (ascending [100000000, 0])).rateAt 0 =
        ((2 : ℕ) : ℚ) / 5 := by
      have hsum : (((MessageRateWindow.run 0 (ascending [100000000, 0])).buckets.filter
          fun bucket => tickOf 0 0 - bucket.1 < BUCKETS).map Prod.snd).sum = 2 := by decide
      rw [← hsum]
      rfl
    rw [hlately, hrate]
    norm_num

end Receiver
