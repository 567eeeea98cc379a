import Mathlib

/-! # Ordered Maps

    A map from linearly ordered keys to values, kept as the list of its
    entries in increasing key order. The order is a field of the structure,
    so an ill-formed map cannot be built. Iteration is in key order, as for
    a balanced-tree map.

    All updates go through `alter`; its three laws (`get?_alter_self`,
    `get?_alter_ne` and `total_alter`) are what users rely on.
-/

/-- A finite map with its entries in strictly increasing key order. -/
structure BTreeMap (κ ν : Type*) [LinearOrder κ] where
  /-- The entries, least key first. -/
  entries : List (κ × ν)
  /-- Keys strictly increase. -/
  sorted : entries.Pairwise (fun a b => a.1 < b.1)

namespace BTreeMap

variable {κ ν : Type*} [LinearOrder κ]

/-! ## Entry lists -/

/-- The entry for `k`, when there is a value. -/
def entryFor (k : κ) : Option ν → List (κ × ν)
  | none => []
  | some v => [(k, v)]

/-- Replace what a sorted entry list holds at `k`. -/
def alterEntries (k : κ) (f : Option ν → Option ν) : List (κ × ν) → List (κ × ν)
  | [] => entryFor k (f none)
  | (k', v') :: rest =>
    if k < k' then entryFor k (f none) ++ (k', v') :: rest
    else if k = k' then entryFor k (f (some v')) ++ rest
    else (k', v') :: alterEntries k f rest

/-- First value stored under `k`. -/
def lookupEntries (k : κ) : List (κ × ν) → Option ν
  | [] => none
  | (k', v') :: rest => if k = k' then some v' else lookupEntries k rest

omit [LinearOrder κ] in
theorem mem_entryFor {k : κ} {o : Option ν} {e : κ × ν} (h : e ∈ entryFor k o) : e.1 = k := by
  cases o with
  | none => simp [entryFor] at h
  | some v => simp [entryFor] at h; simp [h]

theorem mem_alterEntries {k : κ} {f : Option ν → Option ν} {l : List (κ × ν)} {e : κ × ν}
    (h : e ∈ alterEntries k f l) : e.1 = k ∨ e ∈ l := by
  induction l with
  | nil => exact .inl (mem_entryFor h)
  | cons hd rest ih =>
    simp only [alterEntries] at h
    split at h
    · rcases List.mem_append.1 h with h | h
      · exact .inl (mem_entryFor h)
      · exact .inr h
    · split at h
      · rcases List.mem_append.1 h with h | h
        · exact .inl (mem_entryFor h)
        · exact .inr (List.mem_cons_of_mem _ h)
      · rcases List.mem_cons.1 h with h | h
        · exact .inr (by simp [h])
        · exact (ih h).imp id (List.mem_cons_of_mem _)

theorem pairwise_entryFor (k : κ) (o : Option ν) :
    (entryFor k o).Pairwise (fun a b => a.1 < b.1) := by
  cases o <;> simp [entryFor]

theorem sorted_alterEntries (k : κ) (f : Option ν → Option ν) {l : List (κ × ν)}
    (hl : l.Pairwise (fun a b => a.1 < b.1)) :
    (alterEntries k f l).Pairwise (fun a b => a.1 < b.1) := by
  induction l with
  | nil => exact pairwise_entryFor k _
  | cons hd rest ih =>
    obtain ⟨hlt, hrest⟩ := List.pairwise_cons.1 hl
    simp only [alterEntries]
    split
    · next hk =>
      refine List.pairwise_append.2 ⟨pairwise_entryFor k _, hl, ?_⟩
      intro a ha b hb
      rw [mem_entryFor ha]
      rcases List.mem_cons.1 hb with rfl | hb
      · exact hk
      · exact hk.trans (hlt b hb)
    · next hk =>
      split
      · next heq =>
        refine List.pairwise_append.2 ⟨pairwise_entryFor k _, hrest, ?_⟩
        intro a ha b hb
        rw [mem_entryFor ha, heq]
        exact hlt b hb
      · next hne =>
        refine List.pairwise_cons.2 ⟨?_, ih hrest⟩
        intro b hb
        rcases mem_alterEntries hb with h | h
        · rw [h]; exact lt_of_le_of_ne (not_lt.1 hk) (Ne.symm hne)
        · exact hlt b h

theorem lookupEntries_eq_none {k : κ} {l : List (κ × ν)} (h : ∀ e ∈ l, k < e.1) :
    lookupEntries k l = none := by
  induction l with
  | nil => rfl
  | cons hd rest ih =>
    have hne : k ≠ hd.1 := ne_of_lt (h hd (by simp))
    simp [lookupEntries, hne, ih (fun e he => h e (by simp [he]))]

theorem lookupEntries_entryFor_append (k : κ) (o : Option ν) {l : List (κ × ν)}
    (h : ∀ e ∈ l, k < e.1) : lookupEntries k (entryFor k o ++ l) = o := by
  cases o with
  | none => simpa [entryFor] using lookupEntries_eq_none h
  | some v => simp [entryFor, lookupEntries]

theorem lookupEntries_entryFor_append_ne {j k : κ} (hjk : j ≠ k) (o : Option ν)
    (l : List (κ × ν)) : lookupEntries j (entryFor k o ++ l) = lookupEntries j l := by
  cases o <;> simp [entryFor, lookupEntries, hjk]

theorem lookupEntries_alter_self (k : κ) (f : Option ν → Option ν) {l : List (κ × ν)}
    (hl : l.Pairwise (fun a b => a.1 < b.1)) :
    lookupEntries k (alterEntries k f l) = f (lookupEntries k l) := by
  induction l with
  | nil => simpa [alterEntries, lookupEntries] using
      lookupEntries_entryFor_append k (f none) (l := []) (by simp)
  | cons hd rest ih =>
    obtain ⟨hlt, hrest⟩ := List.pairwise_cons.1 hl
    simp only [alterEntries]
    split
    · next hk =>
      have hall : ∀ e ∈ hd :: rest, k < e.1 := by
        intro e he
        rcases List.mem_cons.1 he with rfl | he
        · exact hk
        · exact hk.trans (hlt e he)
      rw [lookupEntries_entryFor_append k _ hall, lookupEntries_eq_none hall]
    · split
      · next heq =>
        rw [lookupEntries_entryFor_append k _ (by rw [heq]; exact hlt)]
        simp [lookupEntries, heq]
      · next hne => simp [lookupEntries, hne, ih hrest]

theorem lookupEntries_alter_ne {j k : κ} (hjk : j ≠ k) (f : Option ν → Option ν)
    (l : List (κ × ν)) : lookupEntries j (alterEntries k f l) = lookupEntries j l := by
  induction l with
  | nil => simpa [alterEntries] using lookupEntries_entryFor_append_ne hjk (f none) []
  | cons hd rest ih =>
    simp only [alterEntries]
    split
    · rw [lookupEntries_entryFor_append_ne hjk]
    · split
      · next heq =>
        have hne : j ≠ hd.1 := by rw [← heq]; exact hjk
        simp [lookupEntries_entryFor_append_ne hjk, lookupEntries, hne]
      · simp [lookupEntries, ih]

theorem mem_iff_lookupEntries {k : κ} {v : ν} {l : List (κ × ν)}
    (hl : l.Pairwise (fun a b => a.1 < b.1)) :
    (k, v) ∈ l ↔ lookupEntries k l = some v := by
  induction l with
  | nil => simp [lookupEntries]
  | cons hd rest ih =>
    obtain ⟨hlt, hrest⟩ := List.pairwise_cons.1 hl
    by_cases hk : k = hd.1
    · have hnot : (k, v) ∉ rest := fun hmem => absurd (hlt _ hmem) (by simp [hk])
      obtain ⟨k', v'⟩ := hd
      simp only at hk
      simp [lookupEntries, hk, List.mem_cons, Prod.ext_iff, eq_comm, hk ▸ hnot]
    · have hne : (k, v) ≠ hd := fun h => hk (by rw [← h])
      simp [lookupEntries, hk, List.mem_cons, hne, ih hrest]

/-! ## Maps -/

/-- The empty map. -/
def empty : BTreeMap κ ν := ⟨[], List.Pairwise.nil⟩

instance : Inhabited (BTreeMap κ ν) := ⟨empty⟩

/-- The value stored under `k`. -/
def get? (m : BTreeMap κ ν) (k : κ) : Option ν := lookupEntries k m.entries

/-- Does the map hold a value under `k`? -/
def contains (m : BTreeMap κ ν) (k : κ) : Bool := (m.get? k).isSome

/-- Replace what the map holds at `k`. -/
def alter (m : BTreeMap κ ν) (k : κ) (f : Option ν → Option ν) : BTreeMap κ ν :=
  ⟨alterEntries k f m.entries, sorted_alterEntries k f m.sorted⟩

/-- Store `v` under `k`. -/
def insert (m : BTreeMap κ ν) (k : κ) (v : ν) : BTreeMap κ ν := m.alter k (fun _ => some v)

/-- Remove the entry of `k`. -/
def erase (m : BTreeMap κ ν) (k : κ) : BTreeMap κ ν := m.alter k (fun _ => none)

/-- Keep the entries that satisfy `p`. -/
def filter (m : BTreeMap κ ν) (p : κ → ν → Bool) : BTreeMap κ ν :=
  ⟨m.entries.filter fun e => p e.1 e.2, m.sorted.filter _⟩

/-- The keys in increasing order. -/
def keys (m : BTreeMap κ ν) : List κ := m.entries.map Prod.fst

/-- Number of entries. -/
def size (m : BTreeMap κ ν) : ℕ := m.entries.length

@[simp] theorem get?_empty (k : κ) : (empty : BTreeMap κ ν).get? k = none := rfl

@[simp] theorem get?_alter_self (m : BTreeMap κ ν) (k : κ) (f : Option ν → Option ν) :
    (m.alter k f).get? k = f (m.get? k) :=
  lookupEntries_alter_self k f m.sorted

theorem get?_alter_ne (m : BTreeMap κ ν) {j k : κ} (h : j ≠ k) (f : Option ν → Option ν) :
    (m.alter k f).get? j = m.get? j :=
  lookupEntries_alter_ne h f m.entries

@[simp] theorem get?_insert_self (m : BTreeMap κ ν) (k : κ) (v : ν) :
    (m.insert k v).get? k = some v := by simp [insert]

theorem get?_insert_ne (m : BTreeMap κ ν) {j k : κ} (h : j ≠ k) (v : ν) :
    (m.insert k v).get? j = m.get? j := m.get?_alter_ne h _

@[simp] theorem get?_erase_self (m : BTreeMap κ ν) (k : κ) : (m.erase k).get? k = none := by
  simp [erase]

theorem get?_erase_ne (m : BTreeMap κ ν) {j k : κ} (h : j ≠ k) :
    (m.erase k).get? j = m.get? j := m.get?_alter_ne h _

theorem get?_insert (m : BTreeMap κ ν) (k : κ) (v : ν) :
    (m.insert k v).get? = Function.update m.get? k (some v) := by
  funext j
  by_cases h : j = k
  · rw [h, get?_insert_self, Function.update_self]
  · rw [get?_insert_ne m h, Function.update_of_ne h]

theorem get?_erase (m : BTreeMap κ ν) (k : κ) :
    (m.erase k).get? = Function.update m.get? k none := by
  funext j
  by_cases h : j = k
  · rw [h, get?_erase_self, Function.update_self]
  · rw [get?_erase_ne m h, Function.update_of_ne h]

theorem mem_entries (m : BTreeMap κ ν) {k : κ} {v : ν} :
    (k, v) ∈ m.entries ↔ m.get? k = some v := mem_iff_lookupEntries m.sorted

/-- Filtering keeps the entries that satisfy the test. -/
theorem get?_filter_eq_some (m : BTreeMap κ ν) {p : κ → ν → Bool} {k : κ} {v : ν} :
    (m.filter p).get? k = some v ↔ m.get? k = some v ∧ p k v = true := by
  rw [← mem_entries, ← mem_entries]
  exact List.mem_filter

theorem size_filter_le (m : BTreeMap κ ν) (p : κ → ν → Bool) : (m.filter p).size ≤ m.size :=
  List.length_filter_le _ _

theorem mem_keys (m : BTreeMap κ ν) {k : κ} : k ∈ m.keys ↔ ∃ v, m.get? k = some v := by
  simp [keys, ← mem_entries]

theorem alterEntries_of_lookup {k : κ} {v : ν} {l : List (κ × ν)}
    (hl : l.Pairwise (fun a b => a.1 < b.1)) (h : lookupEntries k l = some v) :
    alterEntries k (fun _ => some v) l = l := by
  induction l with
  | nil => cases h
  | cons hd rest ih =>
    obtain ⟨hlt, hrest⟩ := List.pairwise_cons.1 hl
    obtain ⟨k', v'⟩ := hd
    unfold lookupEntries at h
    unfold alterEntries
    by_cases heq : k = k'
    · rw [if_pos heq] at h
      rw [if_neg (by simp [heq]), if_pos heq, heq, Option.some.inj h]
      rfl
    · rw [if_neg heq] at h
      -- `k` is stored further on, so it is not less than this key
      have hless : ¬ k < k' := fun hk => by
        rw [lookupEntries_eq_none fun e he => hk.trans (hlt e he)] at h
        cases h
      rw [if_neg hless, if_neg heq, ih hrest h]

/-- Storing a value again changes nothing. -/
theorem insert_of_get? {m : BTreeMap κ ν} {k : κ} {v : ν} (h : m.get? k = some v) :
    m.insert k v = m := by
  obtain ⟨entries, sorted⟩ := m
  have heq := alterEntries_of_lookup sorted h
  unfold insert alter
  simp only [heq]

/-! ## Ends

    The least and the greatest entry. -/

/-- The entry with the least key. -/
def first? (m : BTreeMap κ ν) : Option (κ × ν) := m.entries.head?

/-- The entry with the greatest key. -/
def last? (m : BTreeMap κ ν) : Option (κ × ν) := m.entries.getLast?

/-- The entry with the greatest key up to `k`. -/
def lastUpTo? (m : BTreeMap κ ν) (k : κ) : Option (κ × ν) :=
  (m.entries.filter fun e => decide (e.1 ≤ k)).getLast?

/-- The entry with the least key from `k` on. -/
def firstFrom? (m : BTreeMap κ ν) (k : κ) : Option (κ × ν) :=
  m.entries.find? fun e => decide (k ≤ e.1)

theorem first?_eq_some {m : BTreeMap κ ν} {k : κ} {v : ν} (h : m.first? = some (k, v)) :
    m.get? k = some v ∧ ∀ j w, m.get? j = some w → k ≤ j := by
  obtain ⟨rest, hrest⟩ := List.head?_eq_some_iff.mp h
  refine ⟨m.mem_entries.mp (by rw [hrest]; exact List.mem_cons_self), ?_⟩
  intro j w hj
  have hmem := m.mem_entries.mpr hj
  have hsorted := m.sorted
  rw [hrest] at hmem hsorted
  obtain heq | hlater := List.mem_cons.mp hmem
  · exact (congrArg Prod.fst heq).ge
  · exact ((List.pairwise_cons.mp hsorted).1 _ hlater).le

theorem last?_eq_some {m : BTreeMap κ ν} {k : κ} {v : ν} (h : m.last? = some (k, v)) :
    m.get? k = some v ∧ ∀ j w, m.get? j = some w → j ≤ k := by
  obtain ⟨early, hearly⟩ := List.getLast?_eq_some_iff.mp h
  refine ⟨m.mem_entries.mp (by rw [hearly]; simp), ?_⟩
  intro j w hj
  have hmem := m.mem_entries.mpr hj
  have hsorted := m.sorted
  rw [hearly] at hmem hsorted
  obtain hbefore | heq := List.mem_append.mp hmem
  · exact ((List.pairwise_append.mp hsorted).2.2 _ hbefore _ (List.mem_singleton.mpr rfl)).le
  · exact (congrArg Prod.fst (List.mem_singleton.mp heq)).le

theorem first?_isSome {m : BTreeMap κ ν} {k : κ} {v : ν} (h : m.get? k = some v) :
    ∃ j w, m.first? = some (j, w) := by
  have hmem := m.mem_entries.mpr h
  match hentries : m.entries with
  | [] =>
    rw [hentries] at hmem
    cases hmem
  | (j, w) :: rest => exact ⟨j, w, by rw [first?, hentries]; rfl⟩

theorem last?_isSome {m : BTreeMap κ ν} {k : κ} {v : ν} (h : m.get? k = some v) :
    ∃ j w, m.last? = some (j, w) := by
  have hmem := m.mem_entries.mpr h
  have hne : m.entries ≠ [] := List.ne_nil_of_mem hmem
  exact ⟨_, _, List.getLast?_eq_some_getLast hne⟩

/-- A key that is present is the greatest one up to itself. -/
theorem lastUpTo?_of_get? {m : BTreeMap κ ν} {k : κ} {v : ν} (h : m.get? k = some v) :
    m.lastUpTo? k = some (k, v) := by
  have hmem : (k, v) ∈ m.entries.filter fun e => decide (e.1 ≤ k) :=
    List.mem_filter.mpr ⟨m.mem_entries.mpr h, decide_eq_true le_rfl⟩
  have hsorted := m.sorted.filter fun e => decide (e.1 ≤ k)
  unfold lastUpTo?
  match hlast : (m.entries.filter fun e => decide (e.1 ≤ k)).getLast? with
  | none =>
    rw [List.getLast?_eq_none_iff.mp hlast] at hmem
    cases hmem
  | some e =>
    obtain ⟨early, hearly⟩ := List.getLast?_eq_some_iff.mp hlast
    have hle : e.1 ≤ k := by
      have he : e ∈ m.entries.filter fun e => decide (e.1 ≤ k) := by
        rw [hearly]
        simp
      exact of_decide_eq_true (List.mem_filter.mp he).2
    rw [hearly] at hmem hsorted
    obtain hbefore | heq := List.mem_append.mp hmem
    · -- an earlier entry would have a key below `e.1 ≤ k`
      have hlt := (List.pairwise_append.mp hsorted).2.2 _ hbefore e (List.mem_singleton.mpr rfl)
      exact absurd hle (not_le.mpr hlt)
    · rw [List.mem_singleton.mp heq]
      exact hlast

/-! ## Round robin

    The keys taken in turn, from the least one again after the greatest. -/

/-- The least key after `last`, or the least of all. -/
def nextKey (m : BTreeMap κ ν) (last : Option κ) : Option κ :=
  (m.keys.find? fun k => last.all (· < k)).or m.keys.head?

theorem sorted_keys (m : BTreeMap κ ν) : m.keys.Pairwise (· < ·) :=
  List.pairwise_map.mpr m.sorted

theorem nodup_keys (m : BTreeMap κ ν) : m.keys.Nodup :=
  m.sorted_keys.imp fun h => h.ne

/-- No key between `last` and the next one is passed over. -/
theorem nextKey_le {m : BTreeMap κ ν} {last c b : κ} {v : ν}
    (h : m.nextKey (some last) = some c) (hb : m.get? b = some v) :
    (last < b → last < c ∧ c ≤ b) ∧ (b ≤ last → last < c ∨ c ≤ b) := by
  have hmem : b ∈ m.keys := m.mem_keys.mpr ⟨v, hb⟩
  have hsorted := m.sorted_keys
  unfold nextKey at h
  rw [Option.or_eq_some_iff] at h
  obtain hfind | ⟨hnone, hhead⟩ := h
  · obtain ⟨hlt, early, late, hkeys, hearly⟩ := List.find?_eq_some_iff_append.mp hfind
    have hlt : last < c := by simpa using hlt
    refine ⟨fun hb => ⟨hlt, ?_⟩, fun _ => .inl hlt⟩
    rw [hkeys] at hmem hsorted
    obtain hbefore | hafter := List.mem_append.mp hmem
    · have hnot := hearly b hbefore
      simp [hb] at hnot
    · obtain rfl | hlate := List.mem_cons.mp hafter
      · exact le_rfl
      · exact ((List.pairwise_cons.mp (List.pairwise_append.mp hsorted).2.1).1 b hlate).le
  · refine ⟨fun hb => ?_, fun _ => .inr ?_⟩
    · have hnot := List.find?_eq_none.mp hnone b hmem
      simp [hb] at hnot
    · obtain ⟨rest, hkeys⟩ := List.head?_eq_some_iff.mp hhead
      rw [hkeys] at hmem hsorted
      obtain rfl | hrest := List.mem_cons.mp hmem
      · exact le_rfl
      · exact ((List.pairwise_cons.mp hsorted).1 b hrest).le

/-- On the way from `a` to `b`, in turn. -/
def Between (a b : κ) (last : Option κ) : Prop :=
  ∃ l, last = some l ∧ (a < b → a ≤ l ∧ l < b) ∧ (b < a → a ≤ l ∨ l < b)

theorem Between.start {a b : κ} : Between a b (some a) :=
  ⟨a, rfl, fun h => ⟨le_rfl, h⟩, fun _ => .inl le_rfl⟩

/-- **One turn**: `b`, if it is there, comes before `a`. -/
theorem Between.next {m : BTreeMap κ ν} {a b c : κ} {last : Option κ} {v : ν}
    (h : Between a b last) (hne : a ≠ b) (hb : m.get? b = some v) (hc : m.nextKey last = some c) :
    c = b ∨ c ≠ a ∧ Between a b (some c) := by
  obtain ⟨l, rfl, hless, hmore⟩ := h
  obtain ⟨hahead, hbehind⟩ := nextKey_le hc hb
  by_cases heq : c = b
  · exact .inl heq
  right
  obtain hab | hba := lt_or_gt_of_ne hne
  · obtain ⟨hal, hlb⟩ := hless hab
    obtain ⟨hlc, hcb⟩ := hahead hlb
    have hac : a < c := lt_of_le_of_lt hal hlc
    exact ⟨hac.ne', c, rfl, fun _ => ⟨hac.le, lt_of_le_of_ne hcb heq⟩,
      fun h => absurd h hab.not_gt⟩
  · have hcase : a < c ∨ c < b := by
      obtain hal | hlb := hmore hba
      · obtain hlc | hcb := hbehind (hba.le.trans hal)
        · exact .inl (lt_of_le_of_lt hal hlc)
        · exact .inr (lt_of_le_of_ne hcb heq)
      · exact .inr (lt_of_le_of_ne (hahead hlb).2 heq)
    refine ⟨?_, c, rfl, fun h => absurd h hba.not_gt, fun _ => hcase.imp le_of_lt id⟩
    obtain hac | hcb := hcase
    · exact hac.ne'
    · exact (hcb.trans hba).ne

/-! ## Totals

    A quantity summed over the entries changes under `alter` only by what
    happens at the altered key. -/

/-- Sum of `g` over the entries of the map. -/
def total (m : BTreeMap κ ν) (g : κ → ν → ℕ) : ℕ :=
  (m.entries.map (fun e => g e.1 e.2)).sum

/-- Contribution of one optional value to a total. -/
def share (g : κ → ν → ℕ) (k : κ) : Option ν → ℕ
  | none => 0
  | some v => g k v

omit [LinearOrder κ] in
@[simp] theorem share_none (g : κ → ν → ℕ) (k : κ) : share g k none = 0 := rfl
omit [LinearOrder κ] in
@[simp] theorem share_some (g : κ → ν → ℕ) (k : κ) (v : ν) : share g k (some v) = g k v := rfl

omit [LinearOrder κ] in
theorem sum_entryFor (g : κ → ν → ℕ) (k : κ) (o : Option ν) :
    ((entryFor k o).map (fun e => g e.1 e.2)).sum = share g k o := by
  cases o <;> simp [entryFor]

theorem sum_alterEntries (g : κ → ν → ℕ) (k : κ) (f : Option ν → Option ν)
    {l : List (κ × ν)} (hl : l.Pairwise (fun a b => a.1 < b.1)) :
    ((alterEntries k f l).map (fun e => g e.1 e.2)).sum + share g k (lookupEntries k l) =
      (l.map (fun e => g e.1 e.2)).sum + share g k (f (lookupEntries k l)) := by
  induction l with
  | nil => simp [alterEntries, lookupEntries, sum_entryFor]
  | cons hd rest ih =>
    obtain ⟨hlt, hrest⟩ := List.pairwise_cons.1 hl
    simp only [alterEntries]
    split
    · next hk =>
      have hall : ∀ e ∈ hd :: rest, k < e.1 := by
        intro e he
        rcases List.mem_cons.1 he with rfl | he
        · exact hk
        · exact hk.trans (hlt e he)
      rw [lookupEntries_eq_none hall]
      simp [sum_entryFor]
      omega
    · split
      · next heq =>
        simp [sum_entryFor, lookupEntries, heq]
        omega
      · next hne =>
        have := ih hrest
        simp [lookupEntries, hne]
        omega

/-- The total after `alter` differs by the shares at the altered key. -/
theorem total_alter (m : BTreeMap κ ν) (g : κ → ν → ℕ) (k : κ) (f : Option ν → Option ν) :
    (m.alter k f).total g + share g k (m.get? k) = m.total g + share g k (f (m.get? k)) :=
  sum_alterEntries g k f m.sorted

theorem total_insert (m : BTreeMap κ ν) (g : κ → ν → ℕ) (k : κ) (v : ν) :
    (m.insert k v).total g + share g k (m.get? k) = m.total g + g k v :=
  m.total_alter g k _

theorem total_erase (m : BTreeMap κ ν) (g : κ → ν → ℕ) (k : κ) :
    (m.erase k).total g + share g k (m.get? k) = m.total g := by
  simpa [erase] using m.total_alter g k (fun _ => none)

@[simp] theorem total_empty (g : κ → ν → ℕ) : (empty : BTreeMap κ ν).total g = 0 := rfl

theorem size_eq_total (m : BTreeMap κ ν) : m.size = m.total (fun _ _ => 1) := by
  simp [size, total]

/-- The share of a stored value is at most the total. -/
theorem share_le_total (m : BTreeMap κ ν) (g : κ → ν → ℕ) (k : κ) :
    share g k (m.get? k) ≤ m.total g := by
  have := m.total_erase g k
  omega

theorem size_insert_of_mem (m : BTreeMap κ ν) {k : κ} {v : ν} (hk : m.get? k = some v)
    (v' : ν) : (m.insert k v').size = m.size := by
  have := m.total_insert (fun _ _ => 1) k v'
  simp only [hk, share_some] at this
  rw [size_eq_total, size_eq_total]
  omega

theorem size_insert_of_not_mem (m : BTreeMap κ ν) {k : κ} (hk : m.get? k = none)
    (v' : ν) : (m.insert k v').size = m.size + 1 := by
  have := m.total_insert (fun _ _ => 1) k v'
  simp only [hk, share_none] at this
  rw [size_eq_total, size_eq_total]
  omega

theorem size_erase_of_mem (m : BTreeMap κ ν) {k : κ} {v : ν} (hk : m.get? k = some v) :
    (m.erase k).size + 1 = m.size := by
  have := m.total_erase (fun _ _ => 1) k
  simp only [hk, share_some] at this
  rw [size_eq_total, size_eq_total]
  omega

theorem size_erase_le (m : BTreeMap κ ν) (k : κ) : (m.erase k).size ≤ m.size := by
  have := m.total_erase (fun _ _ => 1) k
  rw [size_eq_total, size_eq_total]
  omega

/-! ## Changing values, and maps over the keys of another -/

/-- Change every value, and no key. -/
def mapValues (m : BTreeMap κ ν) (f : κ → ν → ν) : BTreeMap κ ν where
  entries := m.entries.map fun e => (e.1, f e.1 e.2)
  sorted := List.pairwise_map.2 m.sorted

section KeysIn

variable {μ : Type*} {m : BTreeMap κ ν} {t : BTreeMap κ μ}

theorem contains_iff {k : κ} : m.contains k = true ↔ ∃ v, m.get? k = some v :=
  Option.isSome_iff_exists

theorem contains_mapValues (f : κ → ν → ν) (k : κ) :
    (m.mapValues f).contains k = m.contains k := by
  rw [Bool.eq_iff_iff, contains_iff, contains_iff, ← mem_keys, ← mem_keys]
  have hkeys : (m.mapValues f).keys = m.keys := List.map_map
  rw [hkeys]

theorem contains_insert {j k : κ} {v : ν} :
    (m.insert k v).contains j = true ↔ j = k ∨ m.contains j = true := by
  by_cases h : j = k
  · subst h
    simp [contains]
  · simp [contains, get?_insert_ne m h, h]

theorem contains_erase {j k : κ} :
    (m.erase k).contains j = true ↔ j ≠ k ∧ m.contains j = true := by
  by_cases h : j = k
  · subst h
    simp [contains]
  · simp [contains, get?_erase_ne m h, h]

theorem contains_filter {p : κ → ν → Bool} {k : κ} :
    (m.filter p).contains k = true ↔ ∃ v, m.get? k = some v ∧ p k v = true := by
  rw [contains_iff]
  exact exists_congr fun v => get?_filter_eq_some m

/-- Every key of `m` is a key of `t`. -/
def KeysIn (m : BTreeMap κ ν) (t : BTreeMap κ μ) : Prop :=
  ∀ k, m.contains k = true → t.contains k = true

theorem keysIn_empty : KeysIn (empty : BTreeMap κ ν) t := fun _ h => absurd h Bool.false_ne_true

theorem KeysIn.insert (h : KeysIn m t) {k : κ} (hk : t.contains k = true) (v : ν) :
    KeysIn (m.insert k v) t := by
  intro j hj
  rcases contains_insert.1 hj with rfl | hj
  · exact hk
  · exact h j hj

/-- More keys in `t` do no harm. -/
theorem KeysIn.insert_right (h : KeysIn m t) (k : κ) (v : μ) : KeysIn m (t.insert k v) :=
  fun j hj => contains_insert.2 (.inr (h j hj))

theorem KeysIn.erase (h : KeysIn m t) (k : κ) : KeysIn (m.erase k) t :=
  fun j hj => h j (contains_erase.1 hj).2

/-- A key that goes from both. -/
theorem KeysIn.erase_both (h : KeysIn m t) (k : κ) : KeysIn (m.erase k) (t.erase k) := by
  intro j hj
  obtain ⟨hne, hj⟩ := contains_erase.1 hj
  exact contains_erase.2 ⟨hne, h j hj⟩

theorem KeysIn.mapValues (h : KeysIn m t) (f : κ → ν → ν) : KeysIn (m.mapValues f) t := by
  intro j hj
  rw [contains_mapValues] at hj
  exact h j hj

/-- Keeping the keys of `t` only. -/
theorem keysIn_filter (m : BTreeMap κ ν) (t : BTreeMap κ μ) :
    KeysIn (m.filter fun k _ => t.contains k) t := by
  intro j hj
  obtain ⟨-, -, hmem⟩ := contains_filter.1 hj
  exact hmem

end KeysIn

end BTreeMap
