import EzSdr.Rds.BlockSync

/-! # Resynchronisation

    Without a group to follow, the synchroniser looks for block A at every bit,
    and a window that happens to be one blocks the look for 26 bits. If the
    true block A falls in that time, it is missed, and a group that is sent
    again and again can be missed again and again.

    **`resynchronises_iff`**: the third of three valid groups is returned if and
    only if, in one of the three, no window that ends in the first 25 bits is
    taken for a block.
-/

namespace Rds

open BlockSync

/-! ## Section 1: Windows taken for a block -/

namespace BlockSync

/-- The window is a block A. -/
def isBlockA (s : BlockSync) : Bool := some (syndrome s.shift) = OFFSETS[0]?

/-- This bit completes a window that is taken for a block. -/
def takes (s : BlockSync) (bit : Bool) : Bool :=
  let s := s.shifted bit
  26 ≤ s.bits &&
    if s.tracking then s.untilBlock = 1 && (s.dueArrived || s.isBlockA) else s.isBlockA

theorem search_eq (s : BlockSync) :
    s.search =
      if s.isBlockA then
        { s with
          group := { s.group with a := payloadOf s.shift }
          nextBlock := 1
          untilBlock := 26 }
      else s := by
  simp [search, isBlockA]

theorem search_found {s : BlockSync} (h : s.isBlockA = true) :
    s.search.tracking = true ∧ s.search.untilBlock = 26 ∧ s.search.spent = 26 := by
  rw [search_eq, if_pos h]
  exact ⟨rfl, rfl, rfl⟩

theorem search_missed {s : BlockSync} (h : s.isBlockA = false) : s.search = s := by
  simp [search_eq, h]

/-- What one bit does to the countdown. -/
structure Counted (s : BlockSync) (bit : Bool) (s' : BlockSync) : Prop where
  idle  : s.takes bit = false → s'.tracking = true → s.tracking = true ∧
    s'.untilBlock + 1 = s.untilBlock ∧ s'.nextBlock = s.nextBlock
  taken : s.takes bit = true → s'.tracking = true ∧ s'.untilBlock = 26
  spent : s'.spent = s.spent + 1 ∨ s'.spent ≤ 26

section

variable {past : List Bool} {s : BlockSync} {bit : Bool}

/-- Without a group to follow the count of bits does not matter. -/
theorem spent_idle (h : s.tracking = false) : s.spent = 26 := by simp [spent, h]

/-- A bit while no block is due. -/
theorem idle_counted (hbits : 25 ≤ s.bits) (hidle : s.tracking = false) :
    Counted s bit (s.shifted bit).search := by
  have hfull : 26 ≤ (s.shifted bit).bits := by
    show 26 ≤ min (s.bits + 1) 26
    omega
  have hidle' : (s.shifted bit).tracking = false := hidle
  have htakes : s.takes bit = (s.shifted bit).isBlockA := by
    simp [takes, hfull, hidle']
  cases hfound : (s.shifted bit).isBlockA with
  | true =>
    obtain ⟨htracking, huntil, hspent⟩ := search_found hfound
    rw [hfound] at htakes
    refine ⟨fun h => ?_, fun _ => ⟨htracking, huntil⟩, .inr hspent.le⟩
    rw [htakes] at h
    cases h
  | false =>
    rw [search_missed hfound]
    rw [hfound] at htakes
    refine ⟨fun _ h => ?_, fun h => ?_, .inr (spent_idle hidle').le⟩
    · rw [hidle'] at h
      cases h
    · rw [htakes] at h
      cases h

/-- A bit before the block that is due. -/
theorem wait_counted (hwait : 2 ≤ s.untilBlock) (hle : s.untilBlock ≤ 26)
    (htracking : s.tracking = true) : Counted s bit (s.shifted bit).countdown := by
  have hone : ¬(s.shifted bit).untilBlock = 1 := by
    show ¬s.untilBlock = 1
    omega
  have htracking' : (s.shifted bit).tracking = true := htracking
  have htakes : s.takes bit = false := by simp [takes, hone, htracking']
  have hspent : (s.shifted bit).countdown.spent =
      26 * s.nextBlock + (26 - (s.untilBlock - 1)) := if_pos htracking
  refine ⟨fun _ _ => ⟨htracking, ?_, rfl⟩, fun h => ?_, .inl ?_⟩
  · show s.untilBlock - 1 + 1 = s.untilBlock
    omega
  · rw [htakes] at h
    cases h
  · rw [hspent, Tracks.spent_eq htracking]
    omega

/-- A block that is due, and there. -/
theorem arrived_counted (h : Tracks past s) (htracking : s.tracking = true)
    (hone : s.untilBlock = 1) (harrived : (s.shifted bit).countdown.dueArrived = true) :
    ∃ s' output, (s.shifted bit).countdown.advance = some (s', output) ∧ Counted s bit s' := by
  obtain ⟨-, -, hlen, -⟩ := h.due htracking
  have hbits := h.bits_shifted bit
  rw [List.length_append, List.length_singleton] at hbits
  have hone' : (s.shifted bit).untilBlock = 1 := hone
  have htracking' : (s.shifted bit).tracking = true := htracking
  have harrived' : (s.shifted bit).dueArrived = true := harrived
  have htakes : s.takes bit = true := by
    simp [takes, hone', htracking', harrived', show 26 ≤ (s.shifted bit).bits by omega]
  have hspent := Tracks.spent_eq htracking
  generalize ht : (s.shifted bit).countdown = t
  have hnext : t.nextBlock = s.nextBlock := ht ▸ rfl
  have hlt := h.next
  obtain ⟨g, hg⟩ := exists_store t.group (payloadOf t.shift) (show t.nextBlock < 4 by omega)
  rw [advance_eq hg]
  split
  · refine ⟨_, _, rfl, fun hno => ?_, fun _ => ⟨by simp [BlockSync.tracking, completed], rfl⟩, ?_⟩
    · rw [htakes] at hno
      cases hno
    · have hzero : (t.stored g).completed.spent = 26 * 0 + (26 - 26) :=
        if_pos (by simp [BlockSync.tracking, completed])
      exact .inr (by omega)
  · have hstored : (t.stored g).tracking = true := by
      simp [BlockSync.tracking, BlockSync.stored]
    refine ⟨_, _, rfl, fun hno => ?_, fun _ => ⟨hstored, rfl⟩, .inl ?_⟩
    · rw [htakes] at hno
      cases hno
    · have hmore : (t.stored g).spent = 26 * (t.nextBlock + 1) + (26 - 26) := if_pos hstored
      omega

/-- A block that is due, and not there. -/
theorem lost_counted (h : Tracks past s) (htracking : s.tracking = true)
    (hone : s.untilBlock = 1) (harrived : (s.shifted bit).countdown.dueArrived = false) :
    Counted s bit (s.shifted bit).countdown.lost.search := by
  obtain ⟨-, -, hlen, -⟩ := h.due htracking
  have hbits := h.bits_shifted bit
  rw [List.length_append, List.length_singleton] at hbits
  have hone' : (s.shifted bit).untilBlock = 1 := hone
  have htracking' : (s.shifted bit).tracking = true := htracking
  have harrived' : (s.shifted bit).dueArrived = false := harrived
  have htakes : s.takes bit = (s.shifted bit).isBlockA := by
    simp [takes, hone', htracking', harrived', show 26 ≤ (s.shifted bit).bits by omega]
  have hblockA : (s.shifted bit).countdown.lost.isBlockA = (s.shifted bit).isBlockA := rfl
  have hidle : (s.shifted bit).countdown.lost.tracking = false := by
    simp [BlockSync.tracking, lost]
  cases hfound : (s.shifted bit).isBlockA with
  | true =>
    rw [hfound] at htakes hblockA
    obtain ⟨hafter, huntil, hspent⟩ := search_found hblockA
    refine ⟨fun hno => ?_, fun _ => ⟨hafter, huntil⟩, .inr hspent.le⟩
    rw [htakes] at hno
    cases hno
  | false =>
    rw [hfound] at htakes hblockA
    rw [search_missed hblockA]
    refine ⟨fun _ h => ?_, fun h => ?_, .inr (spent_idle hidle).le⟩
    · rw [hidle] at h
      cases h
    · rw [htakes] at h
      cases h

/-- A bit while the register is not full. -/
theorem warm_counted (hbits : s.bits < 25) (hidle : s.tracking = false) :
    Counted s bit (s.shifted bit) := by
  have hidle' : (s.shifted bit).tracking = false := hidle
  have hwarm : ¬26 ≤ (s.shifted bit).bits := by
    show ¬26 ≤ min (s.bits + 1) 26
    omega
  have htakes : s.takes bit = false := by simp [takes, hwarm]
  refine ⟨fun _ h => ?_, fun h => ?_, .inr (spent_idle hidle').le⟩
  · rw [hidle'] at h
    cases h
  · rw [htakes] at h
    cases h

/-- **What one bit does**, where it is and is not taken for the end of a block. -/
theorem push_counted (h : Tracks past s) (bit : Bool) :
    ∃ s' output, s.push bit = some (s', output) ∧ Counted s bit s' := by
  have hbits := h.bits
  by_cases htracking : s.tracking = true
  · obtain ⟨hpos, hle, hlen, -⟩ := h.due htracking
    rw [push_tracking (by omega) htracking hpos]
    dsimp only
    by_cases hone : s.untilBlock = 1
    · rw [if_neg (show ¬(s.shifted bit).countdown.untilBlock ≠ 0 from fun hne =>
        hne (show s.untilBlock - 1 = 0 by omega))]
      cases harrived : (s.shifted bit).countdown.dueArrived with
      | true =>
        rw [if_pos rfl]
        exact arrived_counted h htracking hone harrived
      | false =>
        rw [if_neg (by simp)]
        exact ⟨_, _, rfl, lost_counted h htracking hone harrived⟩
    · rw [if_pos (show (s.shifted bit).countdown.untilBlock ≠ 0 from
        show s.untilBlock - 1 ≠ 0 by omega)]
      exact ⟨_, _, rfl, wait_counted (by omega) hle htracking⟩
  · have hidle : s.tracking = false := by simpa using htracking
    by_cases hwarm : s.bits < 25
    · rw [push_warm hwarm]
      exact ⟨_, _, rfl, warm_counted hwarm hidle⟩
    · rw [push_idle (by omega) hidle]
      exact ⟨_, _, rfl, idle_counted (by omega) hidle⟩

/-- Only block A has the syndrome of block A. -/
theorem next_of_blockA (hnext : s.nextBlock < 4) (harrived : s.dueArrived = true)
    (hA : s.isBlockA = true) : s.nextBlock = 0 := by
  simp only [dueArrived, duePrime, isBlockA, Bool.and_eq_true, decide_eq_true_eq] at harrived hA
  have hsyndrome := hA.symm.trans harrived.1
  obtain hj | hj | hj | hj :
      s.nextBlock = 0 ∨ s.nextBlock = 1 ∨ s.nextBlock = 2 ∨ s.nextBlock = 3 := by omega
  · exact hj
  · rw [hj] at hsyndrome
    simp [OFFSETS] at hsyndrome
  · rw [hj] at hsyndrome
    cases hversion : s.group.versionB <;> simp [OFFSETS, hversion] at hsyndrome
  · rw [hj] at hsyndrome
    simp [OFFSETS] at hsyndrome

/-- A group is followed from its first block on, if that is looked for. -/
theorem follows_of_blockA {g : Group} (h : Tracks past s) (hlen : 25 ≤ past.length)
    (hready : s.tracking = true → s.untilBlock = 1)
    (hblock : BlockAt g 0 (s.shifted bit).shift) :
    ∃ s', s.push bit = some (s', none) ∧ Follows g 26 s' := by
  have hbits := h.bits
  have hA : (s.shifted bit).isBlockA = true := by
    have hsyndrome := hblock.syndrome
    simpa [isBlockA] using hsyndrome
  have hpayload : some (payloadOf (s.shifted bit).shift) = some g.a := hblock.payload
  have hfull : (s.shifted bit).bits = 26 := by
    show min (s.bits + 1) 26 = 26
    omega
  have hstored {group : Group} (ha : some group.a = some g.a) :
      ∀ i < 26 / 26, group.get? i = g.get? i := by
    intro i hi
    obtain rfl : i = 0 := by omega
    exact ha
  by_cases htracking : s.tracking = true
  · have hone := hready htracking
    rw [push_tracking (by omega) htracking (by omega)]
    dsimp only
    rw [if_neg (show ¬(s.shifted bit).countdown.untilBlock ≠ 0 from fun hne =>
      hne (show s.untilBlock - 1 = 0 by omega))]
    generalize ht : (s.shifted bit).countdown = t
    have htA : t.isBlockA = true := ht ▸ hA
    have htbits : t.bits = 26 := ht ▸ hfull
    have htpayload : some (payloadOf t.shift) = some g.a := ht ▸ hpayload
    -- a block was due; it is this one, or the group is given up and the search finds it
    cases harrived : t.dueArrived with
    | true =>
      have hnext : t.nextBlock = 0 := next_of_blockA (ht ▸ h.next) harrived htA
      have hg : t.group.store (payloadOf t.shift) t.nextBlock =
          some { t.group with a := payloadOf t.shift } := by
        rw [hnext]
        rfl
      rw [if_pos rfl, advance_eq hg, if_neg (by omega)]
      refine ⟨_, rfl, by decide, htbits, by simp [BlockSync.tracking, BlockSync.stored], ?_, rfl,
        hstored htpayload⟩
      show t.nextBlock + 1 = 26 / 26
      omega
    | false =>
      have hlost : t.lost.isBlockA = true := htA
      rw [if_neg (by simp), search_eq, if_pos hlost]
      exact ⟨_, rfl, by decide, htbits, rfl, rfl, rfl, hstored htpayload⟩
  · rw [push_idle (by omega) (by simpa using htracking), search_eq, if_pos hA]
    exact ⟨_, rfl, by decide, hfull, rfl, rfl, rfl, hstored hpayload⟩

end

end BlockSync

/-! ## Section 2: One group -/

/-- No window that ends in the first 25 of these bits is taken for a block. -/
def Clear (past bits : List Bool) : Prop :=
  ∀ front bit rest, bits = front ++ bit :: rest → front.length < 25 →
    ∀ s, After (past ++ front) s → s.takes bit = false

section

variable {past bits : List Bool} {g : Group}

/-- While nothing is taken, a block that is due comes nearer with every bit. -/
theorem Clear.due (hclear : Clear past bits) {front rest : List Bool}
    (hbits : bits = front ++ rest) (hle : front.length ≤ 25) {s : BlockSync}
    (hafter : After (past ++ front) s) (htracking : s.tracking = true) :
    s.untilBlock + front.length ≤ 26 := by
  induction front using List.reverseRecOn generalizing rest s with
  | nil =>
    obtain ⟨-, hdue, -⟩ := hafter.tracks.due htracking
    simpa using hdue
  | append_singleton front bit ih =>
    rw [List.length_append, List.length_singleton] at hle ⊢
    obtain ⟨t, hbefore, htracks⟩ := exists_after (past ++ front)
    obtain ⟨t', output, hpush, hcounted⟩ := push_counted htracks bit
    rw [← List.append_assoc] at hafter
    obtain rfl := hafter.unique (hbefore.append hpush)
    have hcons : bits = front ++ bit :: rest := by
      rw [hbits, List.append_assoc, List.singleton_append]
    obtain ⟨hdue, hcount, -⟩ :=
      hcounted.idle (hclear front bit rest hcons (by omega) t hbefore) htracking
    have hprev := ih hcons (by omega) hbefore hdue
    omega

/-- The true block A is not missed. -/
theorem returned_of_clear (hlen : bits.length = 104) (hgroup : GroupAt bits g)
    (hclear : Clear past bits) : Returned (past ++ bits) g := by
  obtain ⟨front, bit, rest, hbits, hfront, hrest⟩ :
      ∃ front bit rest, bits = front ++ bit :: rest ∧ front.length = 25 ∧ rest.length = 78 := by
    refine ⟨bits.take 25, bits.get ⟨25, by omega⟩, bits.drop 26, ?_, ?_, ?_⟩
    · rw [List.get_eq_getElem, ← List.drop_eq_getElem_cons, List.take_append_drop]
    · rw [List.length_take]
      omega
    · rw [List.length_drop]
      omega
  obtain ⟨s, hafter, htracks⟩ := exists_after (past ++ front)
  have hready : s.tracking = true → s.untilBlock = 1 := by
    intro htracking
    have hdue := hclear.due hbits hfront.le hafter htracking
    obtain ⟨hpos, -, -⟩ := htracks.due htracking
    omega
  have hblock : BlockAt g 0 (s.shifted bit).shift := by
    have hfirst := hgroup.2 0 (by omega)
    have htake : bits.take (bits.length - 104 + 26 * (0 + 1)) = front ++ [bit] := by
      have hcons : bits = front ++ [bit] ++ rest := by
        rw [hbits, List.append_assoc, List.singleton_append]
      have hcount : bits.length - 104 + 26 * (0 + 1) = (front ++ [bit]).length := by
        rw [List.length_append, List.length_singleton]
        omega
      rw [hcount, hcons]
      exact List.take_left
    rw [htake] at hfirst
    rw [hafter.window (by rw [List.length_append]; omega), List.append_assoc,
      window_append (by rw [List.length_append, List.length_singleton]; omega)]
    exact hfirst
  obtain ⟨s', hpush, hfollows⟩ :=
    follows_of_blockA htracks (by rw [List.length_append]; omega) hready hblock
  have hstream : past ++ bits = past ++ front ++ [bit] ++ rest := by
    rw [hbits]
    simp
  have hgroup' : GroupAt (past ++ bits) g := (groupAt_append hlen).2 hgroup
  rw [hstream] at hgroup' ⊢
  refine hfollows.returned (hafter.append hpush) (by omega) ?_ hgroup'
  simp only [List.length_append, List.length_singleton]
  omega

/-- Nothing is taken between two blocks of the group that is followed. -/
theorem After.wait {s t : BlockSync} {more : List Bool} (hafter : After past s)
    (htracking : s.tracking = true) (hlt : more.length < s.untilBlock)
    (hafter' : After (past ++ more) t) :
    t.tracking = true ∧ t.untilBlock + more.length = s.untilBlock ∧ t.nextBlock = s.nextBlock := by
  induction more using List.reverseRecOn generalizing t with
  | nil =>
    rw [List.append_nil] at hafter'
    obtain rfl := hafter'.unique hafter
    exact ⟨htracking, rfl, rfl⟩
  | append_singleton more bit ih =>
    rw [List.length_append, List.length_singleton] at hlt ⊢
    obtain ⟨u, hbefore, htracks⟩ := exists_after (past ++ more)
    obtain ⟨hu, huntil, hnext⟩ := ih (by omega) hbefore
    obtain ⟨hpos, hle, hlen, -⟩ := htracks.due hu
    have hbits := htracks.bits
    have hpush := push_tracking (by omega) hu hpos bit
    dsimp only at hpush
    rw [if_pos (show (u.shifted bit).countdown.untilBlock ≠ 0 from
      show u.untilBlock - 1 ≠ 0 by omega)] at hpush
    rw [← List.append_assoc] at hafter'
    obtain rfl := hafter'.unique (hbefore.append hpush)
    refine ⟨hu, ?_, hnext⟩
    show u.untilBlock - 1 + (more.length + 1) = s.untilBlock
    omega

/-- Where a group is returned, all of it but its first block was followed. -/
theorem Returned.spent_eq (hlen : bits.length = 104) (h : Returned (past ++ bits) g) {n : ℕ}
    (hn : n ≤ 77) {s : BlockSync} (hafter : After (past ++ bits.take (103 - n)) s) :
    s.spent = 103 - n := by
  induction n generalizing s with
  | zero =>
    obtain ⟨front, bit, t, t', heq, hbefore, -, hstep⟩ := h.stepped
    have hfront : past ++ bits.take 103 = front := by
      have hsplit := congrArg (List.take (past.length + 103)) heq
      have hlength := congrArg List.length heq
      rw [List.length_append, List.length_append, List.length_singleton] at hlength
      have hcount : past.length + 103 = front.length := by omega
      rwa [List.take_length_add_append, hcount, List.take_left] at hsplit
    rw [← hfront] at hbefore
    rw [hafter.unique hbefore]
    exact (hstep.group g rfl).2.1
  | succ n ih =>
    have hsucc : 103 - n = 103 - (n + 1) + 1 := by omega
    have htake : bits.take (103 - n) =
        bits.take (103 - (n + 1)) ++ [bits.get ⟨103 - (n + 1), by omega⟩] := by
      rw [hsucc, List.get_eq_getElem, List.take_append_getElem]
    obtain ⟨t, output, hpush, hcounted⟩ :=
      push_counted hafter.tracks (bits.get ⟨103 - (n + 1), by omega⟩)
    have hnext := hafter.append hpush
    rw [List.append_assoc, ← htake] at hnext
    have hspent := ih (by omega) hnext
    obtain hmore | hless := hcounted.spent
    · omega
    · omega

/-- A group is returned only if its block A was not missed. -/
theorem clear_of_returned (hlen : bits.length = 104) (h : Returned (past ++ bits) g) :
    Clear past bits := by
  intro front bit rest hbits hlt s hafter
  by_contra htakes
  obtain ⟨t, output, hpush, hcounted⟩ := push_counted hafter.tracks bit
  obtain ⟨htracking, huntil⟩ := hcounted.taken (by simpa using htakes)
  have hnext := hafter.append hpush
  -- the rest of the first 26 bits passes before the next block is due
  obtain ⟨u, hu, -⟩ := exists_after (past ++ front ++ [bit] ++ rest.take (25 - front.length))
  have hrest : rest.length = 103 - front.length := by
    have hlength := congrArg List.length hbits
    rw [List.length_append, List.length_cons] at hlength
    omega
  have hmore : (rest.take (25 - front.length)).length = 25 - front.length := by
    rw [List.length_take]
    omega
  obtain ⟨hdue, hcount, -⟩ := hnext.wait htracking (by omega) hu
  have htake : bits.take (103 - 77) = front ++ [bit] ++ rest.take (25 - front.length) := by
    have hcons : bits = front ++ [bit] ++ rest := by
      rw [hbits, List.append_assoc, List.singleton_append]
    have hsum : 103 - 77 = (front ++ [bit]).length + (25 - front.length) := by
      rw [List.length_append, List.length_singleton]
      omega
    rw [hsum, hcons, List.take_length_add_append]
  have hstream : past ++ front ++ [bit] ++ rest.take (25 - front.length) =
      past ++ bits.take (103 - 77) := by
    rw [htake]
    simp
  rw [hstream] at hu
  have hspent := h.spent_eq hlen le_rfl hu
  have hspent_eq := Tracks.spent_eq hdue
  omega

/-- **One group.** A valid group is returned if and only if no window that ends in its
    first 25 bits is taken for a block. -/
theorem returned_iff_clear (hlen : bits.length = 104) (hgroup : GroupAt bits g) :
    Returned (past ++ bits) g ↔ Clear past bits :=
  ⟨clear_of_returned hlen, returned_of_clear hlen hgroup⟩

end

/-! ## Section 3: A stream of groups -/

/-- What is received in place of a group. -/
abbrev Received := Vector Bool 104

/-- No block is corrupted. -/
def Received.Valid (bits : Received) : Prop := ∃ g, GroupAt bits.toList g

/-- The stream up to the `i`-th group. -/
def upTo (first : List Bool) (received : List Received) (i : ℕ) : List Bool :=
  first ++ ((received.take i).map Vector.toList).flatten

/-- The third of three valid groups, and with it every valid one that follows,
    is returned. -/
def Resynchronises (first : List Bool) (received : List Received) : Prop :=
  ∀ k u v w g, received[k]? = some u → received[k + 1]? = some v → received[k + 2]? = some w →
    u.Valid → v.Valid → GroupAt w.toList g → Returned (upTo first received (k + 3)) g

theorem upTo_succ {first : List Bool} {received : List Received} {i : ℕ} {bits : Received}
    (h : received[i]? = some bits) :
    upTo first received (i + 1) = upTo first received i ++ bits.toList := by
  simp [upTo, List.take_add_one, h]

/-- After a returned group, the next valid one is returned. -/
theorem Returned.upTo_succ {first : List Bool} {received : List Received} {i : ℕ} {g g' : Group}
    {bits : Received} (h : Returned (upTo first received i) g) (hi : received[i]? = some bits)
    (hgroup : GroupAt bits.toList g') : Returned (upTo first received (i + 1)) g' := by
  rw [Rds.upTo_succ hi]
  exact h.next bits.length_toList ((groupAt_append bits.length_toList).2 hgroup)

/-- **Resynchronisation.** Whatever bits come first and whichever groups are corrupted: the
    third of three valid groups is always returned if and only if, of every three valid groups
    in a row, one has no window that ends in its first 25 bits and is taken for a block. -/
theorem resynchronises_iff (first : List Bool) (received : List Received) :
    Resynchronises first received ↔
      ∀ k u v w, received[k]? = some u → received[k + 1]? = some v → received[k + 2]? = some w →
        u.Valid → v.Valid → w.Valid →
        Clear (upTo first received k) u.toList ∨ Clear (upTo first received (k + 1)) v.toList ∨
          Clear (upTo first received (k + 2)) w.toList := by
  constructor
  · intro h k u v w hu hv hw huvalid hvvalid hwvalid
    obtain ⟨g, hgroup⟩ := hwvalid
    have hreturned := h k u v w g hu hv hw huvalid hvvalid hgroup
    rw [upTo_succ hw] at hreturned
    exact .inr (.inr ((returned_iff_clear w.length_toList hgroup).1 hreturned))
  · intro h k u v w g hu hv hw huvalid hvvalid hgroup
    obtain ⟨gu, hgu⟩ := huvalid
    obtain ⟨gv, hgv⟩ := hvvalid
    have hthird (hsecond : Returned (upTo first received (k + 2)) gv) :
        Returned (upTo first received (k + 3)) g := hsecond.upTo_succ hw hgroup
    obtain hclear | hclear | hclear := h k u v w hu hv hw ⟨gu, hgu⟩ ⟨gv, hgv⟩ ⟨g, hgroup⟩
    · have hfirst := (returned_iff_clear u.length_toList hgu).2 hclear
      rw [← upTo_succ hu] at hfirst
      exact hthird (hfirst.upTo_succ hv hgv)
    · have hsecond := (returned_iff_clear v.length_toList hgv).2 hclear
      rw [← upTo_succ hv] at hsecond
      exact hthird hsecond
    · have hlast := (returned_iff_clear w.length_toList hgroup).2 hclear
      rw [← upTo_succ hw] at hlast
      exact hlast

/-! ## Section 4: A group that is missed -/

instance (g : Group) (i : ℕ) (word : BitVec 26) : Decidable (BlockAt g i word) :=
  decidable_of_iff _ (blockAt_iff g i word).symm

instance (bits : List Bool) (g : Group) : Decidable (GroupAt bits g) := by
  unfold GroupAt
  infer_instance

/-- The answer to the last bit. -/
def lastOutput (bits : List Bool) : Option Group :=
  (machine.run machine.init bits).bind fun r => r.2.getLast?.bind Machine.Event.output

theorem Returned.lastOutput_eq {bits : List Bool} {g : Group} (h : Returned bits g) :
    lastOutput bits = some g := by
  obtain ⟨front, bit, s, s', rfl, ⟨e, hrun⟩, hpush⟩ := h
  have hlast : machine.run s [bit] = some (s', [⟨s, bit, some g, s'⟩]) :=
    machine.run_cons_eq_some.2 ⟨s', some g, [], hpush, rfl, rfl⟩
  have hall := machine.run_append.2 ⟨s, e, _, hrun, hlast, rfl⟩
  simp [lastOutput, hall]

/-- A group with the syndrome of block A in a window that ends soon after its end. -/
def missedGroup : Group := ⟨0, 0, 0, 0x1d⟩

/-- The group as it is sent. -/
def missedBits : Received := Vector.ofFn fun i => (0x3f000019800005a00077ec#104).getMsbD i

/-- The reception begins in the middle of block D. -/
theorem missed_again_and_again :
    ¬Resynchronises (missedBits.toList.drop 79) [missedBits, missedBits, missedBits] := by
  intro h
  have hgroup : GroupAt missedBits.toList missedGroup := by decide +kernel
  have hreturned := h 0 missedBits missedBits missedBits missedGroup rfl rfl rfl
    ⟨missedGroup, hgroup⟩ ⟨missedGroup, hgroup⟩ hgroup
  have hlast := hreturned.lastOutput_eq
  revert hlast
  decide +kernel

end Rds
