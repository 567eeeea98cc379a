import EzSdr.Framework.BTreeMap
import EzSdr.ModeS.Crc

/-! # ICAO Filter

    Bounded membership of recently observed transmitter addresses. Every
    operation reads the clock; here the reading is an argument. -/

namespace ModeS

/-- Monotone clock readings in nanoseconds. -/
abbrev Instant : Type := ℕ

/-- Full address keys, including namespace bits. -/
abbrev Address : Type := Fin (2 ^ 32)

def FILTER_SIZE : ℕ := 4096
def FILTER_TTL : ℕ := 60 * 1000000000

structure IcaoFilter where
  /-- When each address was last observed. -/
  addresses       : BTreeMap Address Instant
  lastMaintenance : Instant

namespace IcaoFilter

/-- Create a new, empty filter. -/
def new (now : Instant) : IcaoFilter := ⟨BTreeMap.empty, now⟩

/-- Expire learned addresses, at most once a second. Durations are zero when
    the clock reading lies in the future. -/
def maintain (f : IcaoFilter) (now : Instant) : IcaoFilter :=
  if now - f.lastMaintenance < 1000000000 then f
  else ⟨f.addresses.filter fun _ seen => now - seen < FILTER_TTL, now⟩

/-- The address observed longest ago. Among equal observation times the code
    takes any one; here it is the least address. -/
def oldest (f : IcaoFilter) : Option Address := (f.addresses.entries.minOn? Prod.snd).map Prod.fst

/-- Refresh one address, evicting the oldest one at capacity. -/
def add (f : IcaoFilter) (addr : Address) (now : Instant) : IcaoFilter :=
  let f' :=
    if !f.addresses.contains addr && f.addresses.size ≥ FILTER_SIZE then
      let maintained := f.maintain now
      if maintained.addresses.size ≥ FILTER_SIZE then
        match maintained.oldest with
        | some key => { maintained with addresses := maintained.addresses.erase key }
        | none => maintained
      else maintained
    else f
  { f' with addresses := f'.addresses.insert addr now }

/-- Has `addr` been added within the time to live? -/
def contains (f : IcaoFilter) (addr : Address) (now : Instant) : Bool :=
  (f.addresses.get? addr).any fun seen => now - seen < FILTER_TTL

/-! ## Lookups -/

theorem get?_maintain {f : IcaoFilter} {now seen : Instant} {addr : Address}
    (h : (f.maintain now).addresses.get? addr = some seen) :
    f.addresses.get? addr = some seen := by
  unfold maintain at h
  split at h
  · exact h
  · exact ((f.addresses.get?_filter_eq_some).1 h).1

/-- An address in the filter after `add` was added now or was there before. -/
theorem get?_add {f : IcaoFilter} {now seen : Instant} {key addr : Address}
    (h : (f.add key now).addresses.get? addr = some seen) :
    (addr = key ∧ seen = now) ∨ f.addresses.get? addr = some seen := by
  by_cases hkey : addr = key
  · subst hkey
    simp only [add, BTreeMap.get?_insert_self, Option.some.injEq] at h
    exact .inl ⟨rfl, h.symm⟩
  · right
    simp only [add, BTreeMap.get?_insert_ne _ hkey] at h
    split at h
    · -- at capacity, the filter was maintained and perhaps an address evicted
      split at h
      · split at h
        · next oldest _ =>
          by_cases hold : addr = oldest
          · simp [hold] at h
          · exact get?_maintain (by simpa [BTreeMap.get?_erase_ne _ hold] using h)
        · exact get?_maintain h
      · exact get?_maintain h
    · exact h

theorem contains_eq_true {f : IcaoFilter} {now : Instant} {addr : Address} :
    f.contains addr now = true ↔
      ∃ seen, f.addresses.get? addr = some seen ∧ now - seen < FILTER_TTL := by
  simp [contains, Option.any_eq_true]

end IcaoFilter

end ModeS
