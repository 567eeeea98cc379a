import EzSdr.Framework.Machine
import EzSdr.ModeS.Parity

/-! # Who Authorises an Address

    A receiver decides one message candidate after another and keeps one filter
    of recently observed addresses. An address/parity message is believed if
    its recovered address is in the filter. The result of this module links it
    to the message that put the address there.

    Layout:

    1. The receiver as a machine with a monotone clock
    2. What the filter learns from one accepted message
    3. What acceptance asks of an address/parity message
    4. Runs -/

namespace ModeS

/-! ## Section 1: The receiver -/

structure Receiver where
  filter : IcaoFilter
  /-- The latest clock reading. -/
  now    : Instant

/-- The clock moves on by the given delays. -/
inductive ReceiverInput where
  /-- A candidate is scored after `wait` and decoded another `delay` later. -/
  | candidate (input : Message) (enableDf24 : Bool) (maxErrors : ℕ) (wait delay : ℕ)
  /-- A new buffer: the filter is maintained. -/
  | maintain (wait : ℕ)

/-- The decision on a candidate, with the clock readings it was made at. -/
structure Verdict where
  input     : Message
  maxErrors : ℕ
  result    : Except ℤ ModesMessage
  scoredAt  : Instant
  decodedAt : Instant

/-- One candidate or one maintenance. -/
def Receiver.step (r : Receiver) : ReceiverInput → Receiver × Option Verdict
  | .candidate input enableDf24 maxErrors wait delay =>
    let scoredAt := r.now + wait
    let decodedAt := scoredAt + delay
    let (result, filter) :=
      acceptCandidate input r.filter scoredAt decodedAt enableDf24 maxErrors
    (⟨filter, decodedAt⟩, some ⟨input, maxErrors, result, scoredAt, decodedAt⟩)
  | .maintain wait => (⟨r.filter.maintain (r.now + wait), r.now + wait⟩, none)

/-- A receiver that starts with an empty filter. -/
def receiver (start : Instant) : Machine Receiver ReceiverInput (Option Verdict) where
  init := ⟨IcaoFilter.new start, start⟩
  step := fun r input => some (r.step input)

/-- One step of a receiver. -/
abbrev ReceiverEvent : Type := Machine.Event Receiver ReceiverInput (Option Verdict)

/-! ## Section 2: Learning -/

/-- Address/parity formats. -/
def IsAddressParity (msgtype : Byte) : Prop :=
  let df := msgtype.toNat
  df = 0 ∨ df = 4 ∨ df = 5 ∨ df = 16 ∨ df = 20 ∨ df = 21 ∨ 24 ≤ df

/-- Messages that authorise their address: all-call replies with interrogator
    identifier zero and extended squitters, received without any correction. -/
structure Verdict.Teaches (v : Verdict) (mm : ModesMessage) : Prop where
  accepted    : v.result = .ok mm
  uncorrected : (correctMessage v.input v.maxErrors).1 = 0 ∧ mm.correctedbits = 0
  format      : (mm.msgtype.toNat = 11 ∧ mm.crc = 0#32) ∨ mm.msgtype.toNat = 17

/-- A key of the DF18 namespace. -/
def IsDf18Key (addr : Address) : Prop := ∃ wire : Word, addr = (wire ||| 0x01000000#32).toFin

/-- No address recovered from a parity field is a DF18 key. -/
theorem not_isDf18Key (syndrome : Word) : ¬ IsDf18Key (syndrome &&& 0xFFFFFF#32).toFin := by
  intro ⟨wire, hwire⟩
  have heq : syndrome &&& 0xFFFFFF#32 = wire ||| 0x01000000#32 :=
    BitVec.eq_of_toFin_eq hwire
  -- they differ in bit 24
  have hbit := congrArg (·.getLsbD 24) heq
  simp at hbit

/-- The filter after the fields of a message are decoded. -/
theorem decodeFields_learns {msg : Message} {correctedbits : ℕ} {f after : IcaoFilter}
    {now : Instant} {addr crc : Word}
    (h : decodeFields msg correctedbits f now = .ok (addr, crc, after)) :
    after = f ∨
    (correctedbits = 0 ∧ (((dfOf msg).toNat = 11 ∧ crc = 0#32) ∨ (dfOf msg).toNat = 17) ∧
      after = f.add addr.toFin now) ∨
    ∃ key, IsDf18Key key ∧ after = f.add key now := by
  unfold decodeFields at h
  dsimp only at h
  split at h
  · next h11 =>
    simp only [Except.ok.injEq, Prod.mk.injEq] at h
    obtain ⟨rfl, rfl, rfl⟩ := h
    by_cases hc : correctedbits = 0 ∧ crc24Parity (shortBytes msg) = 0#32
    · exact .inr (.inl ⟨hc.1, .inl ⟨h11, hc.2⟩, if_pos hc⟩)
    · exact .inl (if_neg hc)
  · split at h
    · next h17 =>
      simp only [Except.ok.injEq, Prod.mk.injEq] at h
      obtain ⟨rfl, rfl, rfl⟩ := h
      by_cases hc : correctedbits = 0
      · exact .inr (.inl ⟨hc, .inr h17, if_pos hc⟩)
      · exact .inl (if_neg hc)
    · split at h
      · split at h
        · cases h
        · simp only [Except.ok.injEq, Prod.mk.injEq] at h
          obtain ⟨-, -, rfl⟩ := h
          by_cases hc : correctedbits = 0
          · exact .inr (.inr ⟨_, ⟨addressOf msg, rfl⟩, if_pos hc⟩)
          · exact .inl (if_neg hc)
      · simp only [Except.ok.injEq, Prod.mk.injEq] at h
        exact .inl h.2.2.symm

/-- Address/parity messages carry their address in the parity field. -/
theorem decodeFields_addressParity {msg : Message} {correctedbits : ℕ} {f after : IcaoFilter}
    {now : Instant} {addr crc : Word} (hap : IsAddressParity (dfOf msg))
    (h : decodeFields msg correctedbits f now = .ok (addr, crc, after)) :
    crc = (if modeSMessageLenByType (dfOf msg) = MODES_LONG_MSG_BITS then crc24Parity msg
      else crc24Parity (shortBytes msg)) ∧ addr = crc &&& 0xFFFFFF#32 := by
  unfold IsAddressParity at hap
  unfold decodeFields at h
  dsimp only at h hap
  rw [if_neg (by omega), if_neg (by omega), if_neg (by omega)] at h
  simp only [Except.ok.injEq, Prod.mk.injEq] at h
  obtain ⟨rfl, rfl, -⟩ := h
  exact ⟨rfl, rfl⟩

/-! ## Section 3: Acceptance -/

/-- The score under which a candidate is accepted. -/
theorem scoreCorrected_of_accepted {input : Message} {f after : IcaoFilter}
    {scoredAt decodedAt : Instant} {enableDf24 : Bool} {maxErrors : ℕ} {mm : ModesMessage}
    (h : acceptCandidate input f scoredAt decodedAt enableDf24 maxErrors = (.ok mm, after)) :
    ¬ scoreCorrected f scoredAt enableDf24 (correctMessage input maxErrors) < .acceptThreshold := by
  intro hlow
  have hset := scoreModeSMessage_ne_notSet input f scoredAt enableDf24 maxErrors
  have hrejected : scoreModeSMessage input f scoredAt enableDf24 maxErrors < .acceptThreshold := by
    unfold scoreModeSMessage
    split
    · decide
    · exact hlow
  unfold acceptCandidate decodeModeSMessage at h
  simp only [if_neg hset, if_pos hrejected] at h
  split at h <;> cases h

/-- A rejected candidate leaves the maintained filter. -/
theorem filter_of_rejected {input : Message} {f after : IcaoFilter}
    {scoredAt decodedAt : Instant} {enableDf24 : Bool} {maxErrors : ℕ} {e : ℤ}
    (h : acceptCandidate input f scoredAt decodedAt enableDf24 maxErrors = (.error e, after)) :
    after = f.maintain decodedAt := by
  have hset := scoreModeSMessage_ne_notSet input f scoredAt enableDf24 maxErrors
  unfold acceptCandidate decodeModeSMessage at h
  simp only [if_neg hset] at h
  split at h
  · exact (Prod.mk.inj h).2.symm
  · split at h
    · exact (Prod.mk.inj h).2.symm
    · split at h
      · exact (Prod.mk.inj h).2.symm
      · cases (Prod.mk.inj h).1

/-- The recovered address of an accepted address/parity message is in the filter. -/
theorem contains_of_addressParity {f : IcaoFilter} {now : Instant} {enableDf24 : Bool}
    {corrected : ℤ × Message} (hap : IsAddressParity (dfOf corrected.2))
    (h : ¬ scoreCorrected f now enableDf24 corrected < .acceptThreshold) :
    f.contains ((if modeSMessageLenByType (dfOf corrected.2) = MODES_LONG_MSG_BITS
      then crc24Parity corrected.2 else crc24Parity (shortBytes corrected.2)) &&&
        0xFFFFFF#32).toFin now = true := by
  obtain ⟨k, msg⟩ := corrected
  have hlt := dfOf_lt msg
  have hlength : modeSMessageLenByType (dfOf msg) = MODES_LONG_MSG_BITS ↔
      16 ≤ (dfOf msg).toNat := by
    rw [msgbits_eq_long, isLong_eq, decide_eq_true_eq]
  unfold IsAddressParity at hap
  unfold scoreCorrected at h
  dsimp only at h hap ⊢
  by_cases hlong : 16 ≤ (dfOf msg).toNat
  · rw [if_pos (hlength.2 hlong)]
    rw [if_neg (by omega)] at h
    split at h
    · exact scoreAddressParity_accepted h
    · rw [if_pos (by omega)] at h
      split at h
      · exact absurd (by decide) h
      · exact scoreAddressParity_accepted h
  · rw [if_neg (fun hl => hlong (hlength.1 hl))]
    rw [if_pos (by omega)] at h
    exact scoreAddressParity_accepted h

/-- An accepted all-call reply was corrected. -/
theorem corrections_of_allCall {f : IcaoFilter} {now : Instant} {enableDf24 : Bool}
    {corrected : ℤ × Message} (h11 : (dfOf corrected.2).toNat = 11)
    (h : ¬ scoreCorrected f now enableDf24 corrected < .acceptThreshold) : 0 ≤ corrected.1 := by
  obtain ⟨k, msg⟩ := corrected
  dsimp only at h11
  unfold scoreCorrected at h
  simp only [h11] at h
  change ¬ scoreDf11 f now k msg < .acceptThreshold at h
  unfold scoreDf11 at h
  simp only at h
  split at h
  · exact absurd (by decide) h
  · split at h
    · exact le_rfl
    · exact zero_le_one
    · exact absurd (by decide) h

/-- What an accepted candidate leaves in the filter is what was there, its own
    address if it authorises it, or a DF18 key. -/
theorem acceptCandidate_learns {input : Message} {f after : IcaoFilter}
    {scoredAt decodedAt : Instant} {enableDf24 : Bool} {maxErrors : ℕ} {mm : ModesMessage}
    (h : acceptCandidate input f scoredAt decodedAt enableDf24 maxErrors = (.ok mm, after))
    {addr : Address} {seen : Instant} (hseen : after.addresses.get? addr = some seen) :
    f.addresses.get? addr = some seen ∨ IsDf18Key addr ∧ seen = decodedAt ∨
      (addr = mm.addr.toFin ∧ seen = decodedAt ∧
        Verdict.Teaches ⟨input, maxErrors, .ok mm, scoredAt, decodedAt⟩ mm) := by
  obtain ⟨haccepted, hmsg, htype, -, hbits, hfields⟩ := acceptCandidate_ok h
  have hscore := scoreCorrected_of_accepted h
  rcases decodeFields_learns hfields with rfl | ⟨hzero, hformat, rfl⟩ | ⟨key, hkey, rfl⟩
  · exact .inl (IcaoFilter.get?_maintain hseen)
  · rcases IcaoFilter.get?_add hseen with ⟨rfl, rfl⟩ | hold
    · right; right
      refine ⟨rfl, rfl, rfl, ⟨?_, hzero⟩, by rwa [htype]⟩
      -- squitters and all-call replies are not accepted uncorrectable
      have hpos : 0 ≤ (correctMessage input maxErrors).1 := by
        rw [hmsg] at hformat
        rcases hformat with ⟨h11, -⟩ | h17
        · exact corrections_of_allCall h11 hscore
        · exact haccepted.squitter (.inl h17)
      show (correctMessage input maxErrors).1 = 0
      omega
    · exact .inl (IcaoFilter.get?_maintain hold)
  · rcases IcaoFilter.get?_add hseen with ⟨rfl, rfl⟩ | hold
    · exact .inr (.inl ⟨hkey, rfl⟩)
    · exact .inl (IcaoFilter.get?_maintain hold)

/-! ## Section 4: Runs -/

/-- Where the address of a filter entry comes from. -/
def Taught (h : List ReceiverEvent) (addr : Address) (seen : Instant) : Prop :=
  ∃ e ∈ h, ∃ v mm, e.output = some v ∧ v.Teaches mm ∧ mm.addr.toFin = addr ∧ v.decodedAt = seen

theorem Taught.append {h : List ReceiverEvent} {addr : Address} {seen : Instant}
    (ht : Taught h addr seen) (later : List ReceiverEvent) : Taught (h ++ later) addr seen := by
  obtain ⟨e, he, hrest⟩ := ht
  exact ⟨e, List.mem_append_left _ he, hrest⟩

/-- Every address in the filter was seen in the past, and is a DF18 key or was
    taught by a message of the run. -/
def Learned (h : List ReceiverEvent) (r : Receiver) : Prop :=
  ∀ addr seen, r.filter.addresses.get? addr = some seen →
    seen ≤ r.now ∧ (IsDf18Key addr ∨ Taught h addr seen)

/-- What an accepted address/parity message rests on. -/
def Authorised (past : List ReceiverEvent) (e : ReceiverEvent) : Prop :=
  ∀ v mm, e.output = some v → v.result = .ok mm → IsAddressParity mm.msgtype →
    mm.addr = mm.crc &&& 0xFFFFFF#32 ∧
    mm.crc = (if mm.msgbits = MODES_LONG_MSG_BITS then crc24Parity mm.msg
      else crc24Parity (shortBytes mm.msg)) ∧
    ∃ e' ∈ past, ∃ v' mm', e'.output = some v' ∧ v'.Teaches mm' ∧ mm'.addr = mm.addr ∧
      v'.decodedAt ≤ v.scoredAt ∧ v.scoredAt - v'.decodedAt < FILTER_TTL

theorem step_learned {h : List ReceiverEvent} {r : Receiver} (hr : Learned h r)
    (input : ReceiverInput) :
    Learned (h ++ [⟨r, input, (r.step input).2, (r.step input).1⟩]) (r.step input).1 := by
  intro addr seen hseen
  -- an entry that was there before
  have hold : ∀ now, r.now ≤ now → r.filter.addresses.get? addr = some seen →
      seen ≤ now ∧ (IsDf18Key addr ∨
        Taught (h ++ [⟨r, input, (r.step input).2, (r.step input).1⟩]) addr seen) := by
    intro now hnow hget
    obtain ⟨hle, hsource⟩ := hr addr seen hget
    exact ⟨hle.trans hnow, hsource.imp_right fun ht => ht.append _⟩
  cases input with
  | maintain wait => exact hold _ (Nat.le_add_right _ _) (IcaoFilter.get?_maintain hseen)
  | candidate input enableDf24 maxErrors wait delay =>
    have hle : r.now ≤ r.now + wait + delay :=
      (Nat.le_add_right _ _).trans (Nat.le_add_right _ _)
    cases hresult : acceptCandidate input r.filter (r.now + wait) (r.now + wait + delay)
        enableDf24 maxErrors with
    | mk result after =>
      simp only [Receiver.step, hresult] at hseen hold ⊢
      cases result with
      | error e =>
        obtain rfl := filter_of_rejected hresult
        exact hold _ hle (IcaoFilter.get?_maintain hseen)
      | ok mm =>
        rcases acceptCandidate_learns hresult hseen with hget | ⟨hkey, rfl⟩ | ⟨rfl, rfl, hteach⟩
        · exact hold _ hle hget
        · exact ⟨le_rfl, .inl hkey⟩
        · exact ⟨le_rfl, .inr ⟨_, List.mem_append_right _ (List.mem_singleton_self _), _, mm,
            rfl, hteach, rfl, rfl⟩⟩

theorem step_authorised {h : List ReceiverEvent} {r : Receiver} (hr : Learned h r)
    (input : ReceiverInput) :
    Authorised h ⟨r, input, (r.step input).2, (r.step input).1⟩ := by
  intro v mm hv hok hap
  cases input with
  | maintain wait => cases hv
  | candidate input enableDf24 maxErrors wait delay =>
    cases hresult : acceptCandidate input r.filter (r.now + wait) (r.now + wait + delay)
        enableDf24 maxErrors with
    | mk result after =>
      simp only [Receiver.step, hresult, Option.some.injEq] at hv
      subst hv
      obtain rfl : result = .ok mm := hok
      obtain ⟨-, hmsg, htype, hbits, -, hfields⟩ := acceptCandidate_ok hresult
      rw [htype] at hap
      obtain ⟨hcrc, haddr⟩ := decodeFields_addressParity hap hfields
      rw [hmsg] at hap hcrc
      have hcontains := contains_of_addressParity hap (scoreCorrected_of_accepted hresult)
      rw [← hcrc, ← haddr] at hcontains
      obtain ⟨seen, hget, hrecent⟩ := IcaoFilter.contains_eq_true.1 hcontains
      obtain ⟨hle, hsource⟩ := hr _ seen hget
      refine ⟨haddr, by rw [hbits, hmsg]; exact hcrc, ?_⟩
      rcases hsource with hkey | ⟨e', he', v', mm', hv', hteach, heq, rfl⟩
      · rw [haddr] at hkey
        exact absurd hkey (not_isDf18Key _)
      · exact ⟨e', he', v', mm', hv', hteach, BitVec.eq_of_toFin_eq heq,
          hle.trans (Nat.le_add_right _ _), hrecent⟩

/-- **Authorisation.** In every run of a receiver, each accepted address/parity
    message recovers its address from its parity, and less than a minute before
    it was scored a message of the run with the same address was accepted: an
    all-call reply with interrogator identifier zero or an extended squitter
    (DF17), without any correction. DF18 messages never take that role. -/
theorem run_authorised (start : Instant) (inputs : List ReceiverInput) :
    ∃ t h, (receiver start).run ⟨IcaoFilter.new start, start⟩ inputs = some (t, h) ∧
      ∀ past e later, h = past ++ e :: later → Authorised past e := by
  have hinit : Learned [] ⟨IcaoFilter.new start, start⟩ := by
    intro addr seen hseen
    simp [IcaoFilter.new] at hseen
  have hrun := (receiver start).run_safe_steps (P := Learned) (Q := Authorised)
    (I := fun _ => True) hinit ?_ inputs (by simp)
  · obtain ⟨t, h, hrun, -, hsteps⟩ := hrun
    exact ⟨t, h, hrun, hsteps⟩
  · intro h r input hr _
    exact ⟨_, _, rfl, step_learned hr input, step_authorised hr input⟩

end ModeS
