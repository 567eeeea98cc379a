import EzSdr.Framework.Machine

/-! # The RDS Block Synchroniser

    `BlockSync` reads one bit at a time. A group is four blocks of 26 bits, each
    a payload and a check word that also tells which block it is. Without a
    group to follow the synchroniser looks for block A at every bit; with one it
    looks at every 26th bit for the block that is due.

    **`run_groups`**: whatever the stream, a group that is returned consists of
    the payloads of the last four windows, no two returned groups overlap, and
    a valid group right after a returned one is returned as well.
-/

namespace Rds

/-! ## Section 1: Blocks and groups -/

/-- Syndromes of the blocks A, B, C, D and C'. -/
def OFFSETS : List (BitVec 16) := [0x0fc, 0x198, 0x168, 0x1b4, 0x350]

/-- Division by the generator, from the highest bit on. -/
def divide (word : BitVec 26) (bit : ℕ) : BitVec 26 :=
  if word.getLsbD bit then word ^^^ (0x5b9#26 <<< (bit - 10)) else word

def syndrome (word : BitVec 26) : BitVec 16 :=
  ((List.range' 10 16).reverse.foldl divide word).extractLsb' 0 16

def payloadOf (word : BitVec 26) : BitVec 16 := word.extractLsb' 10 16

structure Group where
  a : BitVec 16
  b : BitVec 16
  c : BitVec 16
  d : BitVec 16
  deriving DecidableEq

namespace Group

def new : Group := ⟨0, 0, 0, 0⟩

/-- `group[i]`. -/
def get? (g : Group) : ℕ → Option (BitVec 16)
  | 0 => some g.a
  | 1 => some g.b
  | 2 => some g.c
  | 3 => some g.d
  | _ => none

/-- `group[i] = payload`; there is no fifth payload. -/
def store (g : Group) (payload : BitVec 16) : ℕ → Option Group
  | 0 => some { g with a := payload }
  | 1 => some { g with b := payload }
  | 2 => some { g with c := payload }
  | 3 => some { g with d := payload }
  | _ => none

/-- Version B groups have another block C, which repeats block A. -/
def versionB (g : Group) : Bool := g.b &&& 0x0800 ≠ 0

end Group

/-! ## Section 2: The synchroniser -/

structure BlockSync where
  shift      : BitVec 26
  bits       : ℕ
  untilBlock : ℕ
  nextBlock  : ℕ
  group      : Group
  acquired   : Bool
  crcErrors  : ℕ

namespace BlockSync

def new : BlockSync := ⟨0, 0, 0, 0, .new, false, 0⟩

/-- A block is due every 26 bits. -/
def tracking (s : BlockSync) : Bool := s.nextBlock ≠ 0 || s.acquired

/-- The look for block A. -/
def search (s : BlockSync) : BlockSync :=
  if some (syndrome s.shift) = OFFSETS[0]? then
    { s with
      group := { s.group with a := payloadOf s.shift }
      nextBlock := 1
      untilBlock := 26 }
  else s

/-- Block C of a version B group is due. -/
def duePrime (s : BlockSync) : Bool := s.nextBlock = 2 && s.group.versionB

/-- The window is the block that is due. -/
def dueArrived (s : BlockSync) : Bool :=
  some (syndrome s.shift) = OFFSETS[if s.duePrime then 4 else s.nextBlock]? &&
    (!s.duePrime || payloadOf s.shift = s.group.a)

/-- What follows a block that is due but not there. -/
def lost (s : BlockSync) : BlockSync :=
  { s with
    crcErrors := if s.acquired then min (s.crcErrors + 1) (2 ^ 64 - 1) else s.crcErrors
    nextBlock := 0
    acquired := false }

/-- A block is stored, and the next one is due. -/
def stored (s : BlockSync) (group : Group) : BlockSync :=
  { s with group := group, nextBlock := s.nextBlock + 1, untilBlock := 26 }

/-- The group is complete, and the next one is due. -/
def completed (s : BlockSync) : BlockSync := { s with nextBlock := 0, acquired := true }

/-- What follows a block that is due and there. -/
def advance (s : BlockSync) : Option (BlockSync × Option Group) := do
  let group ← s.group.store (payloadOf s.shift) s.nextBlock
  let s := s.stored group
  if s.nextBlock = 4 then return (s.completed, some s.group)
  else return (s, none)

/-- The bit in the register. -/
def shifted (s : BlockSync) (bit : Bool) : BlockSync :=
  { s with shift := s.shift.shiftConcat bit, bits := min (s.bits + 1) 26 }

/-- One bit nearer to the block that is due. -/
def countdown (s : BlockSync) : BlockSync := { s with untilBlock := s.untilBlock - 1 }

/-- `push`; `none` is a panic. -/
def push (s : BlockSync) (bit : Bool) : Option (BlockSync × Option Group) :=
  let s := s.shifted bit
  if s.bits < 26 then some (s, none)
  else if s.tracking then
    if s.untilBlock = 0 then none
    else
      let s := s.countdown
      if s.untilBlock ≠ 0 then some (s, none)
      else if s.dueArrived then s.advance
      else some (s.lost.search, none)
  else some (s.search, none)

end BlockSync

def machine : Machine BlockSync Bool (Option Group) where
  init := .new
  step := BlockSync.push

/-! ## Section 3: Windows of a stream -/

/-- The shift register after these bits. -/
def register (bits : List Bool) : BitVec 26 := bits.foldl (fun word bit => word.shiftConcat bit) 0

/-- The last 26 bits, the earliest first. -/
def window (bits : List Bool) : BitVec 26 := register (bits.drop (bits.length - 26))

/-- The register holds the last bits, and above them what it held before. -/
theorem getLsbD_foldl_shiftConcat (bits : List Bool) (word : BitVec 26) {i : ℕ} (hi : i < 26) :
    (bits.foldl (fun word bit => word.shiftConcat bit) word).getLsbD i =
      if i < bits.length then bits.getD (bits.length - 1 - i) false
      else word.getLsbD (i - bits.length) := by
  induction bits generalizing word with
  | nil => simp
  | cons b bits ih =>
    rw [List.foldl_cons, ih, BitVec.getLsbD_shiftConcat, List.length_cons]
    by_cases hlt : i < bits.length
    · have hindex : bits.length + 1 - 1 - i = bits.length - 1 - i + 1 := by omega
      rw [if_pos hlt, if_pos (by omega), hindex, List.getD_cons_succ]
    · by_cases heq : i = bits.length
      · subst heq
        simp
      · have hsub : i - bits.length ≠ 0 := by omega
        have hsub' : i - bits.length - 1 = i - (bits.length + 1) := by omega
        rw [if_neg hlt, if_neg (show ¬i < bits.length + 1 by omega)]
        simp [hsub, hsub']
        omega

/-- 26 bits on, nothing is left of what was in the register before. -/
theorem register_eq_window {bits : List Bool} (h : 26 ≤ bits.length) :
    register bits = window bits := by
  unfold window register
  apply BitVec.eq_of_getLsbD_eq
  intro i hi
  have hlen : (bits.drop (bits.length - 26)).length = 26 := by
    rw [List.length_drop]
    omega
  have hindex : bits.length - 26 + (26 - 1 - i) = bits.length - 1 - i := by omega
  rw [getLsbD_foldl_shiftConcat bits _ hi, getLsbD_foldl_shiftConcat _ _ hi, hlen, if_pos hi,
    if_pos (by omega), List.getD_eq_getElem?_getD, List.getD_eq_getElem?_getD,
    List.getElem?_drop, hindex]

/-- The window is block `i` of the group. -/
@[mk_iff] structure BlockAt (g : Group) (i : ℕ) (word : BitVec 26) : Prop where
  syndrome : some (Rds.syndrome word) = OFFSETS[if i = 2 ∧ g.versionB then 4 else i]?
  payload  : some (payloadOf word) = g.get? i
  repeated : i = 2 → g.versionB → g.c = g.a

/-- The last four windows are the blocks of the group. -/
def GroupAt (bits : List Bool) (g : Group) : Prop :=
  104 ≤ bits.length ∧ ∀ i < 4, BlockAt g i (window (bits.take (bits.length - 104 + 26 * (i + 1))))

/-! ## Section 4: One bit -/

namespace BlockSync

/-- Bits since the group that is followed began; without one, since the earliest
    place where one can still begin. -/
def spent (s : BlockSync) : ℕ :=
  if s.tracking then 26 * s.nextBlock + (26 - s.untilBlock) else 26

/-- A later payload leaves the blocks before it alone. -/
theorem blockAt_store {g g' : Group} {payload : BitVec 16} {i j : ℕ} {word : BitVec 26}
    (h : g.store payload j = some g') (hlt : i < j) : BlockAt g' i word ↔ BlockAt g i word := by
  rw [blockAt_iff, blockAt_iff]
  rcases j with _ | _ | _ | _ | j
  · omega
  · obtain rfl : i = 0 := by omega
    obtain rfl : _ = g' := Option.some.inj h
    simp [Group.get?]
  · obtain rfl | rfl : i = 0 ∨ i = 1 := by omega
    all_goals
      obtain rfl : _ = g' := Option.some.inj h
      simp [Group.get?]
  · obtain rfl | rfl | rfl : i = 0 ∨ i = 1 ∨ i = 2 := by omega
    all_goals
      obtain rfl : _ = g' := Option.some.inj h
      simp [Group.get?, Group.versionB]
  · cases h

/-- The block that is due and there. -/
theorem blockAt_of_dueArrived {s : BlockSync} (h : s.dueArrived = true) {g : Group}
    (hg : s.group.store (payloadOf s.shift) s.nextBlock = some g) :
    BlockAt g s.nextBlock s.shift := by
  simp only [dueArrived, duePrime, Bool.and_eq_true, Bool.or_eq_true, Bool.not_eq_true',
    decide_eq_true_eq] at h
  obtain ⟨hsyndrome, hrepeated⟩ := h
  generalize s.nextBlock = j at *
  rw [blockAt_iff]
  rcases j with _ | _ | _ | _ | j
  · obtain rfl : _ = g := Option.some.inj hg
    exact ⟨by simpa using hsyndrome, rfl, by simp⟩
  · obtain rfl : _ = g := Option.some.inj hg
    exact ⟨by simpa using hsyndrome, rfl, by simp⟩
  · obtain rfl : _ = g := Option.some.inj hg
    refine ⟨by simpa [Group.versionB] using hsyndrome, rfl, fun _ hb => ?_⟩
    have hversion : s.group.versionB = true := hb
    simpa [hversion] using hrepeated
  · obtain rfl : _ = g := Option.some.inj hg
    exact ⟨by simpa using hsyndrome, rfl, by simp⟩
  · cases hg

/-- What is known of the synchroniser after these bits. -/
structure Tracks (past : List Bool) (s : BlockSync) : Prop where
  shift  : s.shift = register past
  bits   : s.bits = min past.length 26
  next   : s.nextBlock < 4
  due    : s.tracking = true → 1 ≤ s.untilBlock ∧ s.untilBlock ≤ 26 ∧ 26 ≤ past.length ∧
    s.spent ≤ past.length
  blocks : s.tracking = true → ∀ i < s.nextBlock,
    BlockAt s.group i (window (past.take (past.length - s.spent + 26 * (i + 1))))

/-- What one bit does. -/
structure Stepped (past : List Bool) (s : BlockSync) (bit : Bool) (s' : BlockSync)
    (output : Option Group) : Prop where
  tracks : Tracks (past ++ [bit]) s'
  spent  : s'.spent ≤ s.spent + 1
  group  : ∀ g, output = some g → GroupAt (past ++ [bit]) g ∧ s.spent = 103 ∧ s'.spent = 0

theorem Tracks.new : Tracks [] .new :=
  ⟨rfl, rfl, by decide, fun h => (by cases h), fun h => (by cases h)⟩

/-- The search after the bit, in a synchroniser that follows no group. -/
theorem search_tracks {past : List Bool} {s : BlockSync} (hshift : s.shift = register past)
    (hbits : s.bits = min past.length 26) (hlen : 26 ≤ past.length) (hnext : s.nextBlock = 0)
    (hacquired : s.acquired = false) : Tracks past s.search ∧ s.search.spent = 26 := by
  have hidle : s.tracking = false := by simp [tracking, hnext, hacquired]
  unfold search
  split
  · next hfound =>
    refine ⟨⟨hshift, hbits, by simp, fun _ => ?_, fun _ i hi => ?_⟩, rfl⟩
    · exact ⟨by simp, le_rfl, hlen, hlen⟩
    · obtain rfl : i = 0 := by simpa using hi
      have hall : past.take (past.length - 26 + 26 * (0 + 1)) = past :=
        List.take_of_length_le (by omega)
      show BlockAt { s.group with a := payloadOf s.shift } 0
        (window (past.take (past.length - 26 + 26 * (0 + 1))))
      rw [hall, ← register_eq_window hlen, ← hshift]
      exact ⟨by simpa using hfound, rfl, by simp⟩
  · refine ⟨⟨hshift, hbits, by omega, fun h => ?_, fun h => ?_⟩, by simp [spent, hidle]⟩
    · rw [hidle] at h
      cases h
    · rw [hidle] at h
      cases h

/-- There are four places in a group. -/
theorem exists_store (g : Group) (payload : BitVec 16) {j : ℕ} (h : j < 4) :
    ∃ g', g.store payload j = some g' := by
  obtain rfl | rfl | rfl | rfl : j = 0 ∨ j = 1 ∨ j = 2 ∨ j = 3 := by omega
  all_goals exact ⟨_, rfl⟩

section

variable {past : List Bool} {s : BlockSync} {bit : Bool}

theorem Tracks.spent_eq (h : s.tracking = true) :
    s.spent = 26 * s.nextBlock + (26 - s.untilBlock) := if_pos h

theorem Tracks.shift_shifted (h : Tracks past s) (bit : Bool) :
    (s.shifted bit).shift = register (past ++ [bit]) := by
  simp [shifted, h.shift, register]

theorem Tracks.bits_shifted (h : Tracks past s) (bit : Bool) :
    (s.shifted bit).bits = min (past ++ [bit]).length 26 := by
  show min (s.bits + 1) 26 = _
  rw [h.bits, List.length_append, List.length_singleton]
  omega

/-- The blocks stored so far stay where they are in the longer stream. -/
theorem Tracks.blocks_append (h : Tracks past s) (htracking : s.tracking = true) {n i : ℕ}
    (hn : past.length - s.spent = n) (hi : i < s.nextBlock) :
    BlockAt s.group i (window ((past ++ [bit]).take (n + 26 * (i + 1)))) := by
  obtain ⟨hpos, hle, -, hspent⟩ := h.due htracking
  have hspent_eq := Tracks.spent_eq htracking
  subst hn
  rw [List.take_append_of_le_length (by omega)]
  exact h.blocks htracking i hi

/-- The last block completes the group. -/
theorem advance_eq {g : Group} (hg : s.group.store (payloadOf s.shift) s.nextBlock = some g) :
    s.advance =
      if s.nextBlock + 1 = 4 then some ((s.stored g).completed, some g)
      else some (s.stored g, none) := by
  simp only [advance, hg, Option.bind_eq_bind, Option.bind_some]
  rfl

/-- One bit while a block is due. -/
theorem push_tracking (hbits : 25 ≤ s.bits) (htracking : s.tracking = true)
    (hpos : 1 ≤ s.untilBlock) (bit : Bool) :
    s.push bit =
      let t := (s.shifted bit).countdown
      if t.untilBlock ≠ 0 then some (t, none)
      else if t.dueArrived then t.advance else some (t.lost.search, none) := by
  have hfull : ¬(s.shifted bit).bits < 26 := by
    show ¬min (s.bits + 1) 26 < 26
    omega
  unfold push
  dsimp only
  rw [if_neg hfull, if_pos (show (s.shifted bit).tracking = true from htracking),
    if_neg (show (s.shifted bit).untilBlock ≠ 0 from Nat.one_le_iff_ne_zero.1 hpos)]

/-- One bit while no block is due. -/
theorem push_idle (hbits : 25 ≤ s.bits) (hidle : s.tracking = false) (bit : Bool) :
    s.push bit = some ((s.shifted bit).search, none) := by
  have hfull : ¬(s.shifted bit).bits < 26 := by
    show ¬min (s.bits + 1) 26 < 26
    omega
  have hidle' : ¬(s.shifted bit).tracking = true := by
    show ¬s.tracking = true
    rw [hidle]
    simp
  unfold push
  dsimp only
  rw [if_neg hfull, if_neg hidle']

/-- One bit while the register is not full. -/
theorem push_warm (hbits : s.bits < 25) (bit : Bool) :
    s.push bit = some (s.shifted bit, none) := by
  have hwarm : (s.shifted bit).bits < 26 := by
    show min (s.bits + 1) 26 < 26
    omega
  unfold push
  dsimp only
  rw [if_pos hwarm]

/-- A bit before the block that is due. -/
theorem wait_stepped (h : Tracks past s) (htracking : s.tracking = true)
    (hwait : 2 ≤ s.untilBlock) (bit : Bool) :
    Stepped past s bit (s.shifted bit).countdown none := by
  obtain ⟨hpos, hle, hlen, hspent⟩ := h.due htracking
  have hspent_eq := Tracks.spent_eq htracking
  have hspent' : (s.shifted bit).countdown.spent = s.spent + 1 := by
    have heq : (s.shifted bit).countdown.spent =
        26 * s.nextBlock + (26 - (s.untilBlock - 1)) := if_pos htracking
    omega
  refine ⟨⟨h.shift_shifted bit, h.bits_shifted bit, h.next, fun _ => ?_, fun _ i hi => ?_⟩, ?_,
    by simp⟩
  · rw [hspent', List.length_append, List.length_singleton]
    exact ⟨by show 1 ≤ s.untilBlock - 1; omega, by show s.untilBlock - 1 ≤ 26; omega, by omega,
      by omega⟩
  · rw [hspent']
    exact h.blocks_append htracking (by simp) hi
  · exact hspent'.le

/-- The block that is due, and there. -/
theorem advance_stepped (h : Tracks past s) (htracking : s.tracking = true)
    (hdue : s.untilBlock = 1) (harrived : (s.shifted bit).countdown.dueArrived = true) :
    ∃ s' output, (s.shifted bit).countdown.advance = some (s', output) ∧
      Stepped past s bit s' output := by
  obtain ⟨hpos, hle, hlen, hspent⟩ := h.due htracking
  have hspent_eq := Tracks.spent_eq htracking
  have hnext := h.next
  have hfull : 26 ≤ (past ++ [bit]).length := by simp; omega
  obtain ⟨g, hg⟩ := exists_store s.group (payloadOf (s.shifted bit).shift) h.next
  -- the windows of the group with the new one
  have hblocks : ∀ i < s.nextBlock + 1,
      BlockAt g i (window ((past ++ [bit]).take (past.length - s.spent + 26 * (i + 1)))) := by
    intro i hi
    by_cases hlast : i = s.nextBlock
    · subst hlast
      have hall : (past ++ [bit]).take (past.length - s.spent + 26 * (s.nextBlock + 1)) =
          past ++ [bit] := List.take_of_length_le (by simp; omega)
      rw [hall, ← register_eq_window hfull, ← h.shift_shifted bit]
      exact blockAt_of_dueArrived harrived hg
    · rw [blockAt_store hg (by omega)]
      exact h.blocks_append htracking rfl (by omega)
  rw [advance_eq (s := (s.shifted bit).countdown) hg]
  show ∃ s' output, (if s.nextBlock + 1 = 4 then _ else _) = some (s', output) ∧ _
  generalize ht : (s.shifted bit).countdown = t
  have hshift : t.shift = register (past ++ [bit]) := ht ▸ h.shift_shifted bit
  have hbits : t.bits = min (past ++ [bit]).length 26 := ht ▸ h.bits_shifted bit
  have htnext : t.nextBlock = s.nextBlock := ht ▸ rfl
  by_cases hcomplete : s.nextBlock + 1 = 4
  · rw [if_pos hcomplete]
    have hspent' : (t.stored g).completed.spent = 0 := rfl
    refine ⟨_, _, rfl, ⟨hshift, hbits, by simp [completed], fun _ => ?_, fun _ i hi => ?_⟩, ?_, ?_⟩
    · exact ⟨by simp [completed, stored], le_rfl, hfull, by rw [hspent']; exact Nat.zero_le _⟩
    · simp [completed] at hi
    · rw [hspent']
      exact Nat.zero_le _
    · intro g' hg'
      obtain rfl : g = g' := Option.some.inj hg'
      refine ⟨⟨by simp; omega, fun i hi => ?_⟩, by omega, hspent'⟩
      have hstart : (past ++ [bit]).length - 104 = past.length - s.spent := by simp; omega
      rw [hstart]
      exact hblocks i (by omega)
  · rw [if_neg hcomplete]
    have hspent' : (t.stored g).spent = s.spent + 1 := by
      have heq : (t.stored g).spent = 26 * (t.nextBlock + 1) + (26 - 26) :=
        if_pos (by simp [tracking, stored])
      rw [heq, htnext, hspent_eq, hdue]
      omega
    refine ⟨_, _, rfl, ⟨hshift, hbits, ?_, fun _ => ?_, fun _ i hi => ?_⟩, hspent'.le, by simp⟩
    · show t.nextBlock + 1 < 4
      omega
    · rw [hspent']
      exact ⟨by simp [stored], le_rfl, hfull, by simp; omega⟩
    · have hi' : i < s.nextBlock + 1 := htnext ▸ hi
      have hstart : (past ++ [bit]).length - (s.spent + 1) = past.length - s.spent := by simp
      rw [hspent', hstart]
      exact hblocks i hi'

end

theorem tracking_eq_false {s : BlockSync} (h : ¬s.tracking = true) :
    s.nextBlock = 0 ∧ s.acquired = false := by
  simpa [tracking] using h

theorem push_stepped {past : List Bool} {s : BlockSync} (h : Tracks past s) (bit : Bool) :
    ∃ s' output, s.push bit = some (s', output) ∧ Stepped past s bit s' output := by
  have hbits := h.bits
  have hlen : (past ++ [bit]).length = past.length + 1 := by simp
  by_cases htracking : s.tracking = true
  · obtain ⟨hpos, hle, hlen26, hspent⟩ := h.due htracking
    have hspent_eq := Tracks.spent_eq htracking
    rw [push_tracking (by omega) htracking hpos]
    dsimp only
    by_cases hwait : 2 ≤ s.untilBlock
    · rw [if_pos (show (s.shifted bit).countdown.untilBlock ≠ 0 by
        show s.untilBlock - 1 ≠ 0
        omega)]
      exact ⟨_, _, rfl, wait_stepped h htracking hwait bit⟩
    · have hdue : s.untilBlock = 1 := by omega
      rw [if_neg (show ¬(s.shifted bit).countdown.untilBlock ≠ 0 by
        show ¬s.untilBlock - 1 ≠ 0
        omega)]
      by_cases harrived : (s.shifted bit).countdown.dueArrived = true
      · rw [if_pos harrived]
        exact advance_stepped h htracking hdue harrived
      · -- the group is lost, and the same window is searched
        rw [if_neg harrived]
        obtain ⟨htracks, hspent'⟩ := search_tracks (s := (s.shifted bit).countdown.lost)
          (h.shift_shifted bit) (h.bits_shifted bit) (by omega) rfl rfl
        exact ⟨_, _, rfl, htracks, by omega, by simp⟩
  · obtain ⟨hnext, hacquired⟩ := tracking_eq_false htracking
    have hidle : s.spent = 26 := if_neg htracking
    by_cases hwarm : s.bits < 25
    · rw [push_warm hwarm]
      refine ⟨_, _, rfl, ⟨h.shift_shifted bit, h.bits_shifted bit, h.next,
        fun ht => absurd ht htracking, fun ht => absurd ht htracking⟩, Nat.le_succ _, by simp⟩
    · rw [push_idle (by omega) (by simpa using htracking)]
      obtain ⟨htracks, hspent⟩ := search_tracks (s := s.shifted bit) (h.shift_shifted bit)
        (h.bits_shifted bit) (by omega) hnext hacquired
      exact ⟨_, _, rfl, htracks, by omega, by simp⟩

/-! ## Section 5: Following a group -/

/-- The synchroniser has `k` bits of the group behind it. -/
structure Follows (g : Group) (k : ℕ) (s : BlockSync) : Prop where
  lt       : k < 104
  bits     : s.bits = 26
  tracking : s.tracking = true
  next     : s.nextBlock = k / 26
  due      : s.untilBlock = 26 - k % 26
  stored   : ∀ i < k / 26, s.group.get? i = g.get? i

/-- The payload stored last, and those before it. -/
theorem get?_store {g g' : Group} {payload : BitVec 16} {j : ℕ}
    (h : g.store payload j = some g') :
    g'.get? j = some payload ∧ ∀ i, i ≠ j → g'.get? i = g.get? i := by
  rcases j with _ | _ | _ | _ | j
  · obtain rfl : _ = g' := Option.some.inj h
    refine ⟨rfl, fun i hi => ?_⟩
    rcases i with _ | _ | _ | _ | i <;> simp_all [Group.get?]
  · obtain rfl : _ = g' := Option.some.inj h
    refine ⟨rfl, fun i hi => ?_⟩
    rcases i with _ | _ | _ | _ | i <;> simp_all [Group.get?]
  · obtain rfl : _ = g' := Option.some.inj h
    refine ⟨rfl, fun i hi => ?_⟩
    rcases i with _ | _ | _ | _ | i <;> simp_all [Group.get?]
  · obtain rfl : _ = g' := Option.some.inj h
    refine ⟨rfl, fun i hi => ?_⟩
    rcases i with _ | _ | _ | _ | i <;> simp_all [Group.get?]
  · cases h

theorem ext_get? {g g' : Group} (h : ∀ i < 4, g.get? i = g'.get? i) : g = g' := by
  obtain ⟨a, b, c, d⟩ := g
  obtain ⟨a', b', c', d'⟩ := g'
  have ha := h 0 (by omega)
  have hb := h 1 (by omega)
  have hc := h 2 (by omega)
  have hd := h 3 (by omega)
  simp only [Group.get?, Option.some.injEq] at ha hb hc hd
  subst ha hb hc hd
  rfl

/-- A block of the group that is followed is accepted where it is due. -/
theorem dueArrived_of_blockAt {s : BlockSync} {g : Group}
    (hstored : ∀ i < s.nextBlock, s.group.get? i = g.get? i)
    (hblock : BlockAt g s.nextBlock s.shift) : s.dueArrived = true := by
  have hversion : s.nextBlock = 2 → s.group.versionB = g.versionB ∧ s.group.a = g.a := by
    intro htwo
    have ha := hstored 0 (by omega)
    have hb := hstored 1 (by omega)
    simp only [Group.get?, Option.some.injEq] at ha hb
    exact ⟨by simp only [Group.versionB, hb], ha⟩
  have hpayload := hblock.payload
  have hsyndrome := hblock.syndrome
  simp only [dueArrived, duePrime, Bool.and_eq_true, Bool.or_eq_true, Bool.not_eq_true',
    decide_eq_true_eq]
  by_cases htwo : s.nextBlock = 2
  · obtain ⟨hb, ha⟩ := hversion htwo
    rw [htwo] at hsyndrome hpayload ⊢
    simp only [decide_true, Bool.true_and, hb, ha]
    refine ⟨by simpa using hsyndrome, ?_⟩
    cases hprime : g.versionB with
    | false => exact .inl rfl
    | true =>
      right
      rw [← hblock.repeated htwo hprime]
      exact Option.some.inj hpayload
  · simp only [htwo, decide_false, Bool.false_and, false_and, if_false] at hsyndrome ⊢
    exact ⟨by simpa using hsyndrome, .inl trivial⟩

/-- One bit of the group that is followed. -/
theorem follows_push {g : Group} {k : ℕ} {s : BlockSync} (h : Follows g k s) (bit : Bool)
    (hblock : (k + 1) % 26 = 0 → BlockAt g (k / 26) (s.shifted bit).shift) :
    ∃ s', s.push bit = some (s', if k + 1 = 104 then some g else none) ∧
      (k + 1 < 104 → Follows g (k + 1) s') ∧ (k + 1 = 104 → ∀ g', Follows g' 0 s') := by
  have hlt := h.lt
  have hnext := h.next
  have hdue := h.due
  have hbits : (s.shifted bit).bits = 26 := by
    show min (s.bits + 1) 26 = 26
    rw [h.bits]
    rfl
  rw [push_tracking (by rw [h.bits]; omega) h.tracking (by omega)]
  dsimp only
  generalize ht : (s.shifted bit).countdown = t
  have htbits : t.bits = 26 := ht ▸ hbits
  have htdue : t.untilBlock = s.untilBlock - 1 := ht ▸ rfl
  have htnext : t.nextBlock = s.nextBlock := ht ▸ rfl
  have httracking : t.tracking = true := ht ▸ h.tracking
  have htstored : ∀ i < k / 26, t.group.get? i = g.get? i := ht ▸ h.stored
  -- a block is complete, or one more of its bits is awaited
  by_cases hwait : (k + 1) % 26 = 0
  · have hblock' : BlockAt g t.nextBlock t.shift := by
      rw [htnext, hnext, ← ht]
      exact hblock hwait
    have harrived : t.dueArrived = true :=
      dueArrived_of_blockAt (fun i hi => htstored i (by omega)) hblock'
    rw [if_neg (by omega), if_pos harrived]
    obtain ⟨g', hg'⟩ := exists_store t.group (payloadOf t.shift) (show t.nextBlock < 4 by omega)
    obtain ⟨hself, hother⟩ := get?_store hg'
    have hstored : ∀ i < t.nextBlock + 1, g'.get? i = g.get? i := by
      intro i hi
      by_cases hlast : i = t.nextBlock
      · rw [hlast, hself]
        exact hblock'.payload
      · rw [hother i hlast]
        exact htstored i (by omega)
    rw [advance_eq hg']
    -- with the fourth block the group is handed over, and the next one may be followed
    by_cases hcomplete : k + 1 = 104
    · rw [if_pos hcomplete, if_pos (by omega)]
      obtain rfl : g' = g := ext_get? fun i hi => hstored i (by omega)
      refine ⟨_, rfl, fun hlt' => by omega, fun _ g'' => ?_⟩
      exact ⟨by omega, htbits, by simp [BlockSync.tracking, completed], rfl, rfl,
        fun i hi => by omega⟩
    · rw [if_neg hcomplete, if_neg (by omega)]
      have hdiv : (k + 1) / 26 = t.nextBlock + 1 := by omega
      refine ⟨_, rfl, fun hlt' => ?_, fun heq => absurd heq hcomplete⟩
      refine ⟨hlt', htbits, by simp [BlockSync.tracking, BlockSync.stored], hdiv.symm, ?_, ?_⟩
      · show 26 = 26 - (k + 1) % 26
        omega
      · rw [hdiv]
        exact hstored
  · rw [if_pos (by omega), if_neg (by omega)]
    have hdiv : (k + 1) / 26 = k / 26 := by omega
    refine ⟨_, rfl, fun hlt' => ?_, fun heq => by omega⟩
    refine ⟨hlt', htbits, httracking, by omega, by omega, ?_⟩
    rw [hdiv]
    exact htstored

end BlockSync

/-! ## Section 6: Any stream -/

open BlockSync

/-- The synchroniser after these bits. -/
def After (past : List Bool) (s : BlockSync) : Prop :=
  ∃ h, machine.run machine.init past = some (s, h)

/-- The last of these bits returns the group. -/
def Returned (past : List Bool) (g : Group) : Prop :=
  ∃ front bit s s', past = front ++ [bit] ∧ After front s ∧ s.push bit = some (s', some g)

theorem After.unique {past : List Bool} {s s' : BlockSync} (h : After past s)
    (h' : After past s') : s = s' := by
  obtain ⟨e, he⟩ := h
  obtain ⟨e', he'⟩ := h'
  exact congrArg Prod.fst (Option.some.inj (he.symm.trans he'))

theorem After.append {past : List Bool} {s s' : BlockSync} {bit : Bool} {output : Option Group}
    (h : After past s) (hpush : s.push bit = some (s', output)) : After (past ++ [bit]) s' := by
  obtain ⟨e, he⟩ := h
  refine ⟨e ++ [⟨s, bit, output, s'⟩], machine.run_append.2 ⟨s, e, _, he, ?_, rfl⟩⟩
  exact machine.run_cons_eq_some.2 ⟨s', output, [], hpush, rfl, rfl⟩

/-- **Every bit is read**: no run panics. -/
theorem exists_after (past : List Bool) : ∃ s, After past s ∧ Tracks past s := by
  induction past using List.reverseRecOn with
  | nil => exact ⟨.new, ⟨[], rfl⟩, Tracks.new⟩
  | append_singleton past bit ih =>
    obtain ⟨s, hafter, htracks⟩ := ih
    obtain ⟨s', output, hpush, hstep⟩ := push_stepped htracks bit
    exact ⟨s', hafter.append hpush, hstep.tracks⟩

theorem After.tracks {past : List Bool} {s : BlockSync} (h : After past s) : Tracks past s := by
  obtain ⟨s', hafter, htracks⟩ := exists_after past
  rwa [h.unique hafter]

/-- What is known where a group is returned. -/
theorem Returned.stepped {past : List Bool} {g : Group} (h : Returned past g) :
    ∃ front bit s s', past = front ++ [bit] ∧ After front s ∧ After past s' ∧
      Stepped front s bit s' (some g) := by
  obtain ⟨front, bit, s, s', rfl, hafter, hpush⟩ := h
  obtain ⟨t, output, hpush', hstep⟩ := push_stepped hafter.tracks bit
  obtain ⟨rfl, rfl⟩ : s' = t ∧ some g = output := by
    simpa using hpush.symm.trans hpush'
  exact ⟨front, bit, s, s', rfl, hafter, hafter.append hpush, hstep⟩

theorem Returned.groupAt {past : List Bool} {g : Group} (h : Returned past g) :
    GroupAt past g := by
  obtain ⟨front, bit, s, s', rfl, -, -, hstep⟩ := h.stepped
  exact (hstep.group g rfl).1

/-- The group that is followed begins no earlier than the last returned one ends. -/
theorem Returned.spent_le {past more : List Bool} {g : Group} (h : Returned past g) {s : BlockSync}
    (hs : After (past ++ more) s) : past.length + s.spent ≤ (past ++ more).length := by
  induction more using List.reverseRecOn generalizing s with
  | nil =>
    obtain ⟨front, bit, s', t, rfl, -, hafter, hstep⟩ := h.stepped
    rw [List.append_nil] at hs ⊢
    rw [hs.unique hafter, (hstep.group g rfl).2.2]
    exact le_rfl
  | append_singleton more bit ih =>
    obtain ⟨t, hafter, htracks⟩ := exists_after (past ++ more)
    obtain ⟨t', output, hpush, hstep⟩ := push_stepped htracks bit
    have hle := ih hafter
    rw [← List.append_assoc] at hs ⊢
    have hspent := hstep.spent
    rw [hs.unique (hafter.append hpush), List.length_append, List.length_singleton]
    omega

/-- Two returned groups share no bit. -/
theorem Returned.disjoint {past more : List Bool} {g g' : Group} (h : Returned past g)
    (hne : more ≠ []) (h' : Returned (past ++ more) g') : 104 ≤ more.length := by
  obtain ⟨front, bit, s, s', heq, hafter, -, hstep⟩ := h'.stepped
  obtain ⟨init, last, rfl⟩ := (List.eq_nil_or_concat' more).resolve_left hne
  rw [← List.append_assoc] at heq
  obtain ⟨rfl, -⟩ := List.append_inj' heq rfl
  have hle := h.spent_le hafter
  have hspent := (hstep.group g' rfl).2.1
  rw [List.length_append] at hle
  rw [List.length_append, List.length_singleton]
  omega

/-- A window of the stream, where the register is full. -/
theorem After.window {past : List Bool} {s : BlockSync} (h : After past s) {bit : Bool}
    (hfull : 26 ≤ past.length + 1) : (s.shifted bit).shift = Rds.window (past ++ [bit]) := by
  rw [h.tracks.shift_shifted bit, register_eq_window (by simpa using hfull)]

/-- **A group that is followed is returned**, if it is valid to its end. -/
theorem BlockSync.Follows.returned {past bits : List Bool} {g : Group} {k : ℕ} {s : BlockSync}
    (hafter : After past s) (h : Follows g k s) (hlen : bits.length + k = 104)
    (hk : k ≤ past.length) (hgroup : GroupAt (past ++ bits) g) : Returned (past ++ bits) g := by
  induction bits generalizing past k s with
  | nil =>
    have hlt := h.lt
    rw [List.length_nil] at hlen
    omega
  | cons bit bits ih =>
    rw [List.length_cons] at hlen
    have hbits := hafter.tracks.bits
    rw [h.bits] at hbits
    obtain ⟨s', hpush, hnext, hlast⟩ := follows_push h bit fun hwindow => by
      have hblock := hgroup.2 (k / 26) (by omega)
      have hend : (past ++ bit :: bits).length - 104 + 26 * (k / 26 + 1) =
          (past ++ [bit]).length := by
        simp only [List.length_append, List.length_cons, List.length_nil]
        omega
      have htake : (past ++ bit :: bits).take (past ++ [bit]).length = past ++ [bit] := by
        have hcons : past ++ bit :: bits = past ++ [bit] ++ bits := List.append_cons past bit bits
        rw [hcons]
        exact List.take_left
      rw [hend, htake] at hblock
      rw [hafter.window (by omega)]
      exact hblock
    have hcons : past ++ bit :: bits = past ++ [bit] ++ bits := List.append_cons past bit bits
    by_cases hcomplete : k + 1 = 104
    · have hnil : bits = [] := List.eq_nil_of_length_eq_zero (by omega)
      subst hnil
      rw [if_pos hcomplete] at hpush
      exact ⟨past, bit, s, s', rfl, hafter, hpush⟩
    · have hlt := h.lt
      rw [hcons] at hgroup ⊢
      exact ih (hafter.append hpush) (hnext (by omega)) (by omega) (by simp; omega) hgroup

/-- After a returned group the synchroniser follows whatever comes next. -/
theorem Returned.follows {past : List Bool} {g : Group} (h : Returned past g) :
    ∃ s, After past s ∧ ∀ g', Follows g' 0 s := by
  obtain ⟨front, bit, s, s', rfl, -, hafter, hstep⟩ := h.stepped
  refine ⟨s', hafter, fun g' => ?_⟩
  obtain ⟨hgroup, -, hspent⟩ := hstep.group g rfl
  have htracking : s'.tracking = true := by
    by_contra hidle
    have hidle' : s'.spent = 26 := if_neg hidle
    omega
  obtain ⟨hpos, hle, hlen, -⟩ := hafter.tracks.due htracking
  have hspent_eq := Tracks.spent_eq htracking
  have hbits := hafter.tracks.bits
  refine ⟨by omega, by omega, htracking, by omega, by omega, fun i hi => ?_⟩
  omega

/-- **The next group**, right after a returned one. -/
theorem Returned.next {past bits : List Bool} {g g' : Group} (h : Returned past g)
    (hlen : bits.length = 104) (hgroup : GroupAt (past ++ bits) g') :
    Returned (past ++ bits) g' := by
  obtain ⟨s, hafter, hfollows⟩ := h.follows
  exact (hfollows g').returned hafter (by omega) (Nat.zero_le _) hgroup

/-- A window that is full in the last bits does not see what comes before them. -/
theorem window_append {xs ys : List Bool} (h : 26 ≤ ys.length) :
    window (xs ++ ys) = window ys := by
  have hstart : (xs ++ ys).length - 26 = xs.length + (ys.length - 26) := by
    rw [List.length_append]
    omega
  unfold window
  rw [hstart, List.drop_length_add_append]

/-- Whether the last bits are a group does not depend on what comes before them. -/
theorem groupAt_append {past bits : List Bool} {g : Group} (hlen : bits.length = 104) :
    GroupAt (past ++ bits) g ↔ GroupAt bits g := by
  have hwindow (i : ℕ) (hi : i < 4) :
      window ((past ++ bits).take ((past ++ bits).length - 104 + 26 * (i + 1))) =
        window (bits.take (bits.length - 104 + 26 * (i + 1))) := by
    have hstart : (past ++ bits).length - 104 + 26 * (i + 1) =
        past.length + (bits.length - 104 + 26 * (i + 1)) := by
      rw [List.length_append]
      omega
    rw [hstart, List.take_length_add_append]
    apply window_append
    rw [List.length_take]
    omega
  have hlength : 104 ≤ (past ++ bits).length ↔ 104 ≤ bits.length := by
    rw [List.length_append]
    omega
  unfold GroupAt
  rw [hlength]
  refine and_congr_right fun _ => forall_congr' fun i => forall_congr' fun hi => ?_
  rw [hwindow i hi]

/-- **What the synchroniser returns.** Whatever the stream: no bit is refused; a
    returned group is that of the last four windows; returned groups share no
    bit; and after a returned group every valid group is returned, up to the
    first block that fails. -/
theorem run_groups (past : List Bool) :
    (∃ s, After past s) ∧
    ∀ g, Returned past g →
      GroupAt past g ∧
      (∀ more g', more ≠ [] → Returned (past ++ more) g' → 104 ≤ more.length) ∧
      ∀ (valid : List (List Bool)) (bits : List Bool) (g' : Group),
        (∀ b ∈ valid ++ [bits], b.length = 104) → (∀ b ∈ valid, ∃ g'', GroupAt b g'') →
        GroupAt bits g' → Returned (past ++ valid.flatten ++ bits) g' := by
  obtain ⟨s, hafter, -⟩ := exists_after past
  refine ⟨⟨s, hafter⟩, fun g h => ⟨h.groupAt, fun more g' hne h' => h.disjoint hne h', ?_⟩⟩
  intro valid bits g' hlen hvalid hgroup
  induction valid generalizing past g s with
  | nil =>
    have hbits := hlen bits (by simp)
    rw [List.flatten_nil, List.append_nil]
    exact h.next hbits ((groupAt_append hbits).2 hgroup)
  | cons first valid ih =>
    obtain ⟨g'', hfirst⟩ := hvalid first List.mem_cons_self
    have hlen' := hlen first (by simp)
    have hnext := h.next hlen' ((groupAt_append hlen').2 hfirst)
    obtain ⟨t, hafter', -⟩ := exists_after (past ++ first)
    rw [List.flatten_cons, ← List.append_assoc]
    exact ih (past ++ first) t hafter' g'' hnext
      (fun b hb => hlen b (List.mem_cons_of_mem first hb))
      fun b hb => hvalid b (List.mem_cons_of_mem first hb)

end Rds
