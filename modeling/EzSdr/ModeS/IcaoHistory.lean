import EzSdr.ModeS.IcaoFilter

/-! # The Filter over Its History

    Entries of the filter expire without being removed, and at capacity an
    entry is evicted before its time if it is among the oldest. Here the
    filter is compared with the history of its operations: an address is in
    the filter if it was added within the time to live.

    This holds as long as not too many addresses are added at a time. That the
    filter stays within its size holds for any history. -/

namespace ModeS

/-! ## Section 1: Histories -/

/-- An operation with its clock readings. -/
inductive FilterOp where
  /-- An address is added; the clock is read again for its time stamp. -/
  | add (addr : Address) (started inserted : Instant)
  | maintain (now : Instant)
  | contains (addr : Address) (now : Instant)
  | clear

namespace FilterOp

def readings : FilterOp → List Instant
  | add _ started inserted => [started, inserted]
  | maintain now => [now]
  | contains _ now => [now]
  | clear => []

/-- The address that the operation adds, if it does so within the time to live before `now`. -/
def recent (now : Instant) : FilterOp → Option Address
  | add addr _ inserted => if inserted ≤ now ∧ now - inserted < FILTER_TTL then some addr else none
  | _ => none

end FilterOp

/-- The addresses added within the time to live before `now`. -/
def recentAddresses (ops : List FilterOp) (now : Instant) : Finset Address :=
  (ops.filterMap (FilterOp.recent now)).toFinset

namespace IcaoFilter

/-- No entry is older than that of `key`. -/
def IsOldest (f : IcaoFilter) (key : Address) : Prop :=
  ∃ seen, f.addresses.get? key = some seen ∧
    ∀ addr other, f.addresses.get? addr = some other → seen ≤ other

/-- `add`, whichever of the oldest entries is evicted. -/
inductive Adds (f : IcaoFilter) (addr : Address) (started inserted : Instant) :
    IcaoFilter → Prop
  /-- The address is known, or there is room. -/
  | room (h : f.addresses.contains addr = true ∨ f.addresses.size < FILTER_SIZE) :
      Adds f addr started inserted { f with addresses := f.addresses.insert addr inserted }
  /-- Maintenance makes room. -/
  | maintained (hnew : f.addresses.contains addr = false)
      (hroom : (f.maintain started).addresses.size < FILTER_SIZE) :
      Adds f addr started inserted
        { f.maintain started with
          addresses := (f.maintain started).addresses.insert addr inserted }
  | evicted (key : Address) (hnew : f.addresses.contains addr = false)
      (hfull : FILTER_SIZE ≤ (f.maintain started).addresses.size)
      (holdest : (f.maintain started).IsOldest key) :
      Adds f addr started inserted
        { f.maintain started with
          addresses := ((f.maintain started).addresses.erase key).insert addr inserted }

/-- One operation. -/
inductive Step : IcaoFilter → FilterOp → IcaoFilter → Prop
  | add {f f' : IcaoFilter} {addr : Address} {started inserted : Instant}
      (h : f.Adds addr started inserted f') : Step f (.add addr started inserted) f'
  | maintain (f : IcaoFilter) (now : Instant) : Step f (.maintain now) (f.maintain now)
  | contains (f : IcaoFilter) (addr : Address) (now : Instant) : Step f (.contains addr now) f
  | clear (f : IcaoFilter) : Step f .clear { f with addresses := BTreeMap.empty }

/-- What becomes of a new filter. -/
inductive Run (start : Instant) : List FilterOp → IcaoFilter → Prop
  | new : Run start [] (IcaoFilter.new start)
  | step {ops : List FilterOp} {f f' : IcaoFilter} {op : FilterOp} (h : Run start ops f)
      (hstep : Step f op f') : Run start (ops ++ [op]) f'

/-- All clock readings of a history. -/
def readings (start : Instant) (ops : List FilterOp) : List Instant :=
  start :: ops.flatMap FilterOp.readings

/-- A monotone clock, no `clear`, and never more addresses in the time to live than the filter
    has room for. -/
structure Orderly (start : Instant) (ops : List FilterOp) : Prop where
  clock : (readings start ops).Pairwise (· ≤ ·)
  kept  : .clear ∉ ops
  few   : ∀ now, (recentAddresses ops now).card ≤ FILTER_SIZE

/-! ## Section 2: One operation -/

/-- The oldest entry of a full filter exists, and it is the one that the code takes. -/
theorem isOldest_of_oldest {f : IcaoFilter} {key : Address} (h : f.oldest = some key) :
    f.IsOldest key := by
  unfold oldest at h
  obtain ⟨⟨k, seen⟩, hmin, rfl⟩ := Option.map_eq_some_iff.1 h
  refine ⟨seen, f.addresses.mem_entries.1 (List.minOn?_mem hmin), fun addr other hother => ?_⟩
  have hle := List.apply_get_minOn?_le_of_mem (f := Prod.snd) (f.addresses.mem_entries.2 hother)
  rwa [Option.get_of_eq_some _ hmin] at hle

/-- The filter's own `add` is one of the steps, with a single clock reading. -/
theorem adds_add (f : IcaoFilter) (addr : Address) (now : Instant) :
    f.Adds addr now now (f.add addr now) := by
  unfold add
  by_cases hcapacity : (!f.addresses.contains addr && f.addresses.size ≥ FILTER_SIZE) = true
  · rw [if_pos hcapacity]
    rw [Bool.and_eq_true, Bool.not_eq_true', decide_eq_true_eq] at hcapacity
    by_cases hfull : (f.maintain now).addresses.size ≥ FILTER_SIZE
    · simp only [if_pos hfull]
      cases hold : (f.maintain now).oldest with
      | none =>
        -- a full filter has entries
        exfalso
        have hsome : ((f.maintain now).addresses.entries.minOn? Prod.snd).isSome :=
          List.isSome_minOn?_iff.2 fun hnil => by
            unfold BTreeMap.size at hfull
            rw [hnil] at hfull
            exact absurd hfull (by decide)
        rw [oldest, Option.map_eq_none_iff] at hold
        rw [hold] at hsome
        cases hsome
      | some key => exact .evicted key hcapacity.1 hfull (isOldest_of_oldest hold)
    · simp only [if_neg hfull]
      exact .maintained hcapacity.1 (not_le.1 hfull)
  · rw [if_neg hcapacity]
    refine .room ?_
    by_contra hnone
    rw [not_or, Bool.not_eq_true, not_lt] at hnone
    exact hcapacity (by simp [hnone.1, hnone.2])

theorem size_maintain_le (f : IcaoFilter) (now : Instant) :
    (f.maintain now).addresses.size ≤ f.addresses.size := by
  unfold maintain
  split
  · exact le_rfl
  · exact BTreeMap.size_filter_le _ _

/-- Maintenance keeps what has not expired. -/
theorem get?_maintain_of_recent {f : IcaoFilter} {now seen : Instant} {addr : Address}
    (h : f.addresses.get? addr = some seen) (hrecent : now - seen < FILTER_TTL) :
    (f.maintain now).addresses.get? addr = some seen := by
  unfold maintain
  split
  · exact h
  · exact f.addresses.get?_filter_eq_some.2 ⟨h, by simpa using hrecent⟩

/-- Maintenance brings no address in. -/
theorem get?_maintain_eq_none {f : IcaoFilter} {now : Instant} {addr : Address}
    (h : f.addresses.contains addr = false) : (f.maintain now).addresses.get? addr = none := by
  cases hget : (f.maintain now).addresses.get? addr with
  | none => rfl
  | some seen =>
    rw [BTreeMap.contains, get?_maintain hget] at h
    cases h

/-- An address in the filter after an addition was added now or was there before. -/
theorem Adds.get? {f f' : IcaoFilter} {key addr : Address} {started inserted seen : Instant}
    (h : f.Adds key started inserted f') (hget : f'.addresses.get? addr = some seen) :
    (addr = key ∧ seen = inserted) ∨ (addr ≠ key ∧ f.addresses.get? addr = some seen) := by
  by_cases hkey : addr = key
  · subst hkey
    cases h <;> (rw [BTreeMap.get?_insert_self] at hget; exact .inl ⟨rfl, (Option.some.inj hget).symm⟩)
  · refine .inr ⟨hkey, ?_⟩
    cases h with
    | room h => rwa [BTreeMap.get?_insert_ne _ hkey] at hget
    | maintained hnew hroom =>
      rw [BTreeMap.get?_insert_ne _ hkey] at hget
      exact get?_maintain hget
    | evicted oldest hnew hfull holdest =>
      rw [BTreeMap.get?_insert_ne _ hkey] at hget
      by_cases hold : addr = oldest
      · rw [hold, BTreeMap.get?_erase_self] at hget
        cases hget
      · rw [BTreeMap.get?_erase_ne _ hold] at hget
        exact get?_maintain hget

/-- The filter stays within its size. -/
theorem Adds.size_le {f f' : IcaoFilter} {addr : Address} {started inserted : Instant}
    (h : f.Adds addr started inserted f') (hsize : f.addresses.size ≤ FILTER_SIZE) :
    f'.addresses.size ≤ FILTER_SIZE := by
  have hmaintained := (f.size_maintain_le started).trans hsize
  cases h with
  | room h =>
    show (f.addresses.insert addr inserted).size ≤ FILTER_SIZE
    cases hget : f.addresses.get? addr with
    | some seen =>
      rw [BTreeMap.size_insert_of_mem _ hget]
      exact hsize
    | none =>
      rw [BTreeMap.size_insert_of_not_mem _ hget]
      obtain hknown | hroom := h
      · rw [BTreeMap.contains, hget] at hknown
        cases hknown
      · exact hroom
  | maintained hnew hroom =>
    show ((f.maintain started).addresses.insert addr inserted).size ≤ FILTER_SIZE
    rw [BTreeMap.size_insert_of_not_mem _ (get?_maintain_eq_none hnew)]
    exact hroom
  | evicted key hnew hfull holdest =>
    show (((f.maintain started).addresses.erase key).insert addr inserted).size ≤ FILTER_SIZE
    obtain ⟨seen, hseen, -⟩ := holdest
    have hnone : (f.maintain started).addresses.get? addr = none := get?_maintain_eq_none hnew
    have hne : addr ≠ key := by
      intro heq
      rw [heq, hseen] at hnone
      cases hnone
    rw [BTreeMap.size_insert_of_not_mem _ (by rw [BTreeMap.get?_erase_ne _ hne]; exact hnone),
      BTreeMap.size_erase_of_mem _ hseen]
    exact hmaintained

/-- **The filter stays within its size**, whatever its history. -/
theorem Run.size_le {start : Instant} {ops : List FilterOp} {f : IcaoFilter}
    (h : Run start ops f) : f.addresses.size ≤ FILTER_SIZE := by
  induction h with
  | new => exact Nat.zero_le _
  | step _ hstep ih =>
    cases hstep with
    | add hadds => exact hadds.size_le ih
    | maintain now => exact (size_maintain_le _ now).trans ih
    | contains => exact ih
    | clear => exact Nat.zero_le _

/-! ## Section 3: The history -/

theorem mem_recentAddresses {ops : List FilterOp} {now : Instant} {addr : Address} :
    addr ∈ recentAddresses ops now ↔ ∃ started inserted, .add addr started inserted ∈ ops ∧
      inserted ≤ now ∧ now - inserted < FILTER_TTL := by
  unfold recentAddresses
  rw [List.mem_toFinset, List.mem_filterMap]
  constructor
  · intro h
    obtain ⟨op, hop, hrecent⟩ := h
    cases op with
    | add key started inserted =>
      obtain ⟨hwithin, hkey⟩ := Option.ite_none_right_eq_some.1 hrecent
      obtain rfl : key = addr := Option.some.inj hkey
      exact ⟨started, inserted, hop, hwithin⟩
    | _ => cases hrecent
  · intro h
    obtain ⟨started, inserted, hop, hwithin⟩ := h
    exact ⟨_, hop, if_pos hwithin⟩

theorem Orderly.front {start : Instant} {ops : List FilterOp} {op : FilterOp}
    (h : Orderly start (ops ++ [op])) : Orderly start ops where
  clock := by
    have hclock := h.clock
    unfold readings at hclock ⊢
    rw [List.flatMap_append, ← List.cons_append] at hclock
    exact (List.pairwise_append.1 hclock).1
  kept := fun hclear => h.kept (List.mem_append_left _ hclear)
  few := fun now => by
    refine le_trans (Finset.card_le_card fun addr haddr => ?_) (h.few now)
    obtain ⟨started, inserted, hop, hwithin⟩ := mem_recentAddresses.1 haddr
    exact mem_recentAddresses.2 ⟨started, inserted, List.mem_append_left _ hop, hwithin⟩

/-- The readings of an operation come after those before it. -/
theorem Orderly.reading_le {start : Instant} {ops : List FilterOp} {op : FilterOp}
    (h : Orderly start (ops ++ [op])) {past now : Instant} (hpast : past ∈ readings start ops)
    (hnow : now ∈ op.readings) : past ≤ now := by
  have hclock := h.clock
  unfold readings at hclock
  rw [List.flatMap_append, ← List.cons_append] at hclock
  refine (List.pairwise_append.1 hclock).2.2 past hpast now ?_
  simpa using hnow

/-- What the entries of the filter say about the history, and the history about the entries. -/
structure Remembers (start : Instant) (ops : List FilterOp) (f : IcaoFilter) : Prop where
  /-- A time stamp is that of an addition. -/
  added : ∀ addr seen, f.addresses.get? addr = some seen → ∃ started,
    .add addr started seen ∈ ops
  /-- Whatever was added within the time to live is there. -/
  kept  : ∀ addr started inserted, .add addr started inserted ∈ ops → ∀ now,
    (∀ past ∈ readings start ops, past ≤ now) → now - inserted < FILTER_TTL →
    ∃ seen, f.addresses.get? addr = some seen ∧ inserted ≤ seen

theorem mem_readings {start : Instant} {ops : List FilterOp} {addr : Address}
    {started inserted : Instant} (h : .add addr started inserted ∈ ops) :
    inserted ∈ readings start ops :=
  List.mem_cons_of_mem _ (List.mem_flatMap.2 ⟨_, h, by simp [FilterOp.readings]⟩)

/-- The heart of the argument: what is evicted has expired, or the addresses in the filter
    and the new one would be too many. -/
theorem Remembers.evicted {start started inserted : Instant} {ops : List FilterOp}
    {f : IcaoFilter} {addr key : Address} {seen : Instant} (h : Remembers start ops f)
    (horder : Orderly start (ops ++ [.add addr started inserted]))
    (hnew : f.addresses.contains addr = false)
    (hfull : FILTER_SIZE ≤ (f.maintain started).addresses.size)
    (holdest : (f.maintain started).IsOldest key)
    (hkey : (f.maintain started).addresses.get? key = some seen) :
    FILTER_TTL ≤ inserted - seen := by
  by_contra hyoung
  rw [not_le] at hyoung
  obtain ⟨oldest, hold, hleast⟩ := holdest
  obtain rfl : oldest = seen := Option.some.inj (hold.symm.trans hkey)
  have hpast : ∀ past ∈ readings start ops, past ≤ inserted := fun past hpast =>
    horder.reading_le hpast (by simp [FilterOp.readings])
  let all := ops ++ [FilterOp.add addr started inserted]
  -- every stored address was added within the time to live
  have hstored : ∀ a ∈ (f.maintain started).addresses.keys, a ∈ recentAddresses all inserted := by
    intro a ha
    obtain ⟨other, hother⟩ := (f.maintain started).addresses.mem_keys.1 ha
    obtain ⟨before, hop⟩ := h.added a other (get?_maintain hother)
    exact mem_recentAddresses.2 ⟨before, other, List.mem_append_left _ hop,
      hpast other (mem_readings hop),
      (tsub_le_tsub_left (hleast a other hother) inserted).trans_lt hyoung⟩
  have hlast : addr ∈ recentAddresses all inserted :=
    mem_recentAddresses.2 ⟨started, inserted, by simp [all], le_rfl, by simp [FILTER_TTL]⟩
  have hfresh : addr ∉ (f.maintain started).addresses.keys := by
    intro ha
    obtain ⟨other, hother⟩ := (f.maintain started).addresses.mem_keys.1 ha
    rw [get?_maintain_eq_none hnew] at hother
    cases hother
  have hcard : (addr :: (f.maintain started).addresses.keys).toFinset.card ≤
      (recentAddresses all inserted).card :=
    Finset.card_le_card fun a ha => by
      obtain rfl | ha := List.mem_cons.1 (List.mem_toFinset.1 ha)
      · exact hlast
      · exact hstored a ha
  rw [List.toFinset_card_of_nodup (List.nodup_cons.2 ⟨hfresh, BTreeMap.nodup_keys _⟩),
    List.length_cons] at hcard
  have hkeys : (f.maintain started).addresses.keys.length = (f.maintain started).addresses.size :=
    List.length_map _
  have hfew : (recentAddresses all inserted).card ≤ FILTER_SIZE := horder.few inserted
  omega

/-- An addition. -/
theorem Remembers.add {start started inserted : Instant} {ops : List FilterOp}
    {f f' : IcaoFilter} {addr : Address} (h : Remembers start ops f)
    (horder : Orderly start (ops ++ [.add addr started inserted]))
    (hadds : f.Adds addr started inserted f') :
    Remembers start (ops ++ [.add addr started inserted]) f' where
  added := fun a seen hget => by
    obtain ⟨rfl, rfl⟩ | ⟨-, hold⟩ := hadds.get? hget
    · exact ⟨started, by simp⟩
    · obtain ⟨before, hop⟩ := h.added a seen hold
      exact ⟨before, List.mem_append_left _ hop⟩
  kept := fun a before stamp hop now hnow hrecent => by
    have hreadings : ∀ past ∈ readings start ops, past ≤ now := fun past hpast => by
      refine hnow past ?_
      unfold readings at hpast ⊢
      rw [List.flatMap_append, ← List.cons_append]
      exact List.mem_append_left _ hpast
    have hstarted := hnow started (by simp [readings, FilterOp.readings])
    have hinserted := hnow inserted (by simp [readings, FilterOp.readings])
    by_cases hself : a = addr
    · -- the new entry is the latest
      subst hself
      have hstamp : stamp ≤ inserted := by
        obtain hold | hlast := List.mem_append.1 hop
        · exact horder.reading_le (mem_readings hold) (by simp [FilterOp.readings])
        · obtain ⟨-, -, rfl⟩ := FilterOp.add.inj (List.mem_singleton.1 hlast)
          exact le_rfl
      refine ⟨inserted, ?_, hstamp⟩
      cases hadds <;> exact BTreeMap.get?_insert_self _ _ _
    · have hold : .add a before stamp ∈ ops := by
        obtain hold | hlast := List.mem_append.1 hop
        · exact hold
        · obtain ⟨rfl, -⟩ := FilterOp.add.inj (List.mem_singleton.1 hlast)
          exact absurd rfl hself
      obtain ⟨seen, hseen, hle⟩ := h.kept a before stamp hold now hreadings hrecent
      refine ⟨seen, ?_, hle⟩
      have hyoung := (tsub_le_tsub hstarted hle).trans_lt hrecent
      cases hadds with
      | room hroom =>
        rw [BTreeMap.get?_insert_ne _ hself]
        exact hseen
      | maintained hnew hroom =>
        rw [BTreeMap.get?_insert_ne _ hself]
        exact get?_maintain_of_recent hseen hyoung
      | evicted key hnew hfull holdest =>
        have hkept := get?_maintain_of_recent hseen hyoung
        rw [BTreeMap.get?_insert_ne _ hself]
        -- the evicted entry has expired, so it is another one
        have hne : a ≠ key := by
          intro heq
          subst heq
          have hexpired := h.evicted horder hnew hfull holdest hkept
          exact absurd ((tsub_le_tsub hinserted hle).trans_lt hrecent) (not_lt.2 hexpired)
        rw [BTreeMap.get?_erase_ne _ hne]
        exact hkept

/-- An operation that adds nothing and expires only what is too old. -/
theorem Remembers.other {start : Instant} {ops : List FilterOp} {f f' : IcaoFilter}
    {op : FilterOp} (h : Remembers start ops f)
    (hop : ∀ addr started inserted, op ≠ .add addr started inserted)
    (hback : ∀ addr seen, f'.addresses.get? addr = some seen → f.addresses.get? addr = some seen)
    (hkeep : ∀ addr seen now, f.addresses.get? addr = some seen →
      (∀ past ∈ op.readings, past ≤ now) → now - seen < FILTER_TTL →
      f'.addresses.get? addr = some seen) :
    Remembers start (ops ++ [op]) f' where
  added := fun addr seen hget => by
    obtain ⟨before, hold⟩ := h.added addr seen (hback addr seen hget)
    exact ⟨before, List.mem_append_left _ hold⟩
  kept := fun addr before stamp hmem now hnow hrecent => by
    have hold : .add addr before stamp ∈ ops := by
      obtain hold | hlast := List.mem_append.1 hmem
      · exact hold
      · exact absurd (List.mem_singleton.1 hlast).symm (hop _ _ _)
    have hreadings : readings start (ops ++ [op]) = readings start ops ++ op.readings := by
      simp [readings]
    obtain ⟨seen, hseen, hle⟩ := h.kept addr before stamp hold now
      (fun past hpast => hnow past (hreadings ▸ List.mem_append_left _ hpast)) hrecent
    exact ⟨seen, hkeep addr seen now hseen
      (fun past hpast => hnow past (hreadings ▸ List.mem_append_right _ hpast))
      ((tsub_le_tsub_left hle now).trans_lt hrecent), hle⟩

/-- The filter remembers its history in every orderly run. -/
theorem Run.remembers {start : Instant} {ops : List FilterOp} {f : IcaoFilter}
    (h : Run start ops f) (horder : Orderly start ops) : Remembers start ops f := by
  induction h with
  | new =>
    refine ⟨fun addr seen hget => ?_, fun addr started inserted hop => ?_⟩
    · cases hget
    · cases hop
  | step _ hstep ih =>
    have hfront := ih horder.front
    cases hstep with
    | add hadds => exact hfront.add horder hadds
    | maintain now =>
      refine hfront.other (by intro _ _ _ heq; cases heq) (fun _ _ => get?_maintain)
        fun addr seen later hget hlater hrecent => get?_maintain_of_recent hget ?_
      have hle := hlater now (by simp [FilterOp.readings])
      exact (tsub_le_tsub_right hle seen).trans_lt hrecent
    | contains addr now =>
      exact hfront.other (by intro _ _ _ heq; cases heq) (fun _ _ => id)
        fun _ _ _ hget _ _ => hget
    | clear => exact absurd (by simp) horder.kept

/-- **What the filter holds**: it never outgrows its size; and while no more addresses are added
    than it has room for, an address is in it just if it was added within the time to live. -/
theorem filter_semantics {start : Instant} {ops : List FilterOp} {f : IcaoFilter}
    (hrun : Run start ops f) :
    f.addresses.size ≤ FILTER_SIZE ∧
    (Orderly start ops → ∀ addr now, (∀ past ∈ readings start ops, past ≤ now) →
      (f.contains addr now = true ↔
        ∃ started inserted, .add addr started inserted ∈ ops ∧ now - inserted < FILTER_TTL)) := by
  refine ⟨hrun.size_le, fun horder addr now hnow => ?_⟩
  have hremembers := hrun.remembers horder
  rw [contains_eq_true]
  constructor
  · intro h
    obtain ⟨seen, hget, hrecent⟩ := h
    obtain ⟨started, hop⟩ := hremembers.added addr seen hget
    exact ⟨started, seen, hop, hrecent⟩
  · intro h
    obtain ⟨started, inserted, hop, hrecent⟩ := h
    obtain ⟨seen, hget, hle⟩ := hremembers.kept addr started inserted hop now hnow hrecent
    exact ⟨seen, hget, (tsub_le_tsub_left hle now).trans_lt hrecent⟩

/-- An address added 5 ns after the start is still there after a minute, and gone 5 ns later. -/
theorem filter_semantics_expiry :
    ((new 0).add 7 5).contains 7 60000000004 = true ∧
      ((new 0).add 7 5).contains 7 60000000005 = false := by
  have hrun : Run 0 [.add 7 5 5] ((new 0).add 7 5) := .step .new (.add (adds_add _ _ _))
  have horder : Orderly 0 [.add 7 5 5] := by
    refine ⟨by decide, by simp, fun now => ?_⟩
    refine (Finset.card_le_card (t := {7}) fun addr haddr => ?_).trans (by decide)
    obtain ⟨started, inserted, hop, -⟩ := mem_recentAddresses.1 haddr
    obtain ⟨rfl, -⟩ := FilterOp.add.inj (List.mem_singleton.1 hop)
    exact Finset.mem_singleton_self _
  constructor
  · exact ((filter_semantics hrun).2 horder 7 60000000004 (by decide)).2 ⟨5, 5, by simp, by decide⟩
  · rw [← Bool.not_eq_true, (filter_semantics hrun).2 horder 7 60000000005 (by decide)]
    intro h
    obtain ⟨started, inserted, hop, hrecent⟩ := h
    obtain ⟨-, -, rfl⟩ := FilterOp.add.inj (List.mem_singleton.1 hop)
    exact absurd hrecent (by decide)

end IcaoFilter

end ModeS
