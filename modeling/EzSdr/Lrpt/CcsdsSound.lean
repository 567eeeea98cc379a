import EzSdr.Lrpt.Ccsds

/-! # Soundness and Isolation of the Demultiplexer

    Whatever the frames are (any counters, pointers and zone contents), an
    emitted packet is a piece of the packet zones of frames of one channel
    whose counters follow each other, and the frames of other channels do not
    matter to it.

    The invariant is about the history of one channel: the bytes of a pending
    packet end the zones of the last frames received, and these frames have
    consecutive counters.
-/

namespace Lrpt

/-! ## Histories of a channel -/

/-- The packet bytes of a frame; an idle zone has none. -/
def Frame.zone (f : Frame) : List UInt8 :=
  if f.firstHeaderPointer = IDLE_ONLY then [] else f.payload

/-- No frame is missing between `a` and `b`. -/
def Frame.Next (a b : Frame) : Prop :=
  b.frameCounter.toNat = (a.frameCounter.toNat + 1) % 2 ^ 24

/-- Frames with consecutive counters modulo `2 ^ 24`. -/
def Unbroken (fs : List Frame) : Prop :=
  fs.IsChain Frame.Next

/-- The bytes of `q` are a piece of the zones of the last frames of `fs`, and
    no frame is missing among these. -/
def FromRun (fs : List Frame) (q : List UInt8) : Prop :=
  ∃ older run, fs = older ++ run ∧ Unbroken run ∧ q <:+: run.flatMap Frame.zone

theorem counter_next (c : UInt32) : ((c + 1) &&& 0xFFFFFF).toNat = (c.toNat + 1) % 2 ^ 24 := by
  rw [UInt32.toNat_and, UInt32.toNat_add]
  show (c.toNat + 1) % 2 ^ 32 &&& (2 ^ 24 - 1) = _
  rw [Nat.and_two_pow_sub_one_eq_mod]
  omega

/-- What a channel's context knows after the frames `fs`. -/
structure VcidContext.History (fs : List Frame) (c : VcidContext) : Prop where
  expected : c.expectedFrameCounter = fs.getLast?.map fun f => (f.frameCounter + 1) &&& 0xFFFFFF
  pending : ∀ b, c.pending = some b → b.Ok ∧ ∃ older run, fs = older ++ run ∧
    Unbroken run ∧ b.bytes <:+ run.flatMap Frame.zone

namespace VcidContext

theorem history_new : History [] .new where
  expected := rfl
  pending := by intro b h; cases h

/-! ## Reading zones -/

/-- Packets read from a zone are pieces of it, and what stays pending is its
    end. -/
theorem readPackets_sound (bytes : List UInt8) :
    (∀ b, (readPackets bytes).1 = some b → b.Ok ∧ b.bytes <:+ bytes) ∧
      ∀ p ∈ (readPackets bytes).2, ∃ q, SpacePacket.ofBytes q = some p ∧ q <:+: bytes := by
  -- every packet leaves a shorter rest
  induction hn : bytes.length using Nat.strong_induction_on generalizing bytes with
  | _ n ih =>
  rw [readPackets]
  split
  · exact ⟨by simp, by simp⟩
  split
  · exact ⟨by simp, by simp⟩
  next r hr =>
  have htook := PacketBuffer.append_took PacketBuffer.ok_empty hr
  have hheld : r.buffer.bytes = bytes.take r.consumed := htook.held
  split
  · next hnone =>
    refine ⟨?_, by simp⟩
    intro b hb
    cases hb
    obtain ⟨hall, hok⟩ := htook.unfinished hnone
    rw [hheld, hall, List.take_length]
    exact ⟨hok, List.suffix_refl bytes⟩
  · next packet hpacket =>
    have hprogress := PacketBuffer.append_empty_consumed hr hpacket
    have hpos := List.length_pos_of_ne_nil hprogress.2
    obtain ⟨hpending, hpackets⟩ := ih (bytes.drop r.consumed).length
      (by rw [List.length_drop]; omega) (bytes.drop r.consumed) rfl
    have hsuffix : bytes.drop r.consumed <:+ bytes := List.drop_suffix _ _
    constructor
    · intro b hb
      exact ⟨(hpending b hb).1, (hpending b hb).2.trans hsuffix⟩
    · intro p hp
      obtain hfirst | hlater := List.mem_cons.mp hp
      · subst hfirst
        refine ⟨_, htook.finished p hpacket, ?_⟩
        rw [hheld]
        exact (List.take_prefix _ _).isInfix
      · obtain ⟨q, hq, hin⟩ := hpackets p hlater
        exact ⟨q, hq, hin.trans hsuffix.isInfix⟩

/-- Continuing a pending packet that ends `past` with `bytes`. -/
theorem continuePending_sound {pending : Option PacketBuffer} {past bytes : List UInt8}
    (h : ∀ b, pending = some b → b.Ok ∧ b.bytes <:+ past) :
    (∀ b, (continuePending pending bytes).1 = some b → b.Ok ∧ b.bytes <:+ past ++ bytes) ∧
      ∀ p ∈ (continuePending pending bytes).2,
        ∃ q, SpacePacket.ofBytes q = some p ∧ q <:+: past ++ bytes := by
  match pending with
  | none => exact ⟨nofun, nofun⟩
  | some b =>
    obtain ⟨hok, hsuffix⟩ := h b rfl
    simp only [continuePending]
    split
    · exact ⟨nofun, nofun⟩
    next r hr =>
    have htook := PacketBuffer.append_took hok hr
    obtain ⟨before, hbefore⟩ := hsuffix
    split
    · next packet hpacket =>
      refine ⟨nofun, ?_⟩
      intro p hp
      rw [List.mem_singleton.mp hp]
      refine ⟨_, htook.finished packet hpacket, before, bytes.drop r.consumed, ?_⟩
      rw [htook.held, ← hbefore, List.append_assoc, List.append_assoc, List.append_assoc,
        List.take_append_drop]
    · next hnone =>
      refine ⟨?_, nofun⟩
      intro b' hb'
      cases hb'
      obtain ⟨hall, hok'⟩ := htook.unfinished hnone
      refine ⟨hok', before, ?_⟩
      rw [htook.held, hall, List.take_length, ← hbefore, List.append_assoc]

/-! ## One frame -/

/-- After the counter check, a pending packet continues into the frame. -/
theorem History.checked {fs : List Frame} {c : VcidContext} (h : History fs c) (f : Frame) :
    ∀ b, (if c.expectedFrameCounter.any (· != f.frameCounter) then none else c.pending) = some b →
      b.Ok ∧ ∃ older run, fs = older ++ run ∧ Unbroken (run ++ [f]) ∧
        b.bytes <:+ run.flatMap Frame.zone := by
  intro b hb
  split at hb
  · cases hb
  next hmatch =>
  obtain ⟨hok, older, run, hsplit, hrun, hsuffix⟩ := h.pending b hb
  refine ⟨hok, older, run, hsplit, ?_, hsuffix⟩
  refine List.IsChain.append hrun (.singleton f) ?_
  intro a ha g hg
  cases hg
  -- the last frame of the run is the last frame received
  have hlast : fs.getLast? = some a := by
    rw [hsplit, List.getLast?_append, Option.mem_def.mp ha]
    rfl
  have hexpected := h.expected
  rw [hlast] at hexpected
  rw [hexpected] at hmatch
  have heq : (a.frameCounter + 1) &&& 0xFFFFFF = f.frameCounter := by simpa using hmatch
  show f.frameCounter.toNat = _
  rw [← heq, counter_next]

/-- **One frame** keeps the invariant, and the packets it completes are from
    an unbroken run of frames that it ends. -/
theorem History.receive {fs : List Frame} {c : VcidContext} (h : History fs c) (f : Frame) :
    History (fs ++ [f]) (c.receive f.payload f.firstHeaderPointer f.frameCounter).1 ∧
      ∀ p ∈ (c.receive f.payload f.firstHeaderPointer f.frameCounter).2,
        ∃ q, SpacePacket.ofBytes q = some p ∧ FromRun (fs ++ [f]) q := by
  have hchecked := h.checked f
  have hexpected : some ((f.frameCounter + 1) &&& 0xFFFFFF) =
      (fs ++ [f]).getLast?.map fun f => (f.frameCounter + 1) &&& 0xFFFFFF := by
    rw [List.getLast?_append]
    rfl
  unfold VcidContext.receive
  generalize (if c.expectedFrameCounter.any (· != f.frameCounter) then none else c.pending) =
    pending at hchecked
  dsimp only
  -- a run that goes on into this frame
  have hrun : ∀ {older run : List Frame}, fs = older ++ run →
      fs ++ [f] = older ++ (run ++ [f]) := by
    intro older run hsplit
    rw [hsplit, List.append_assoc]
  split
  · next hidle =>
    have hzone : f.zone = [] := if_pos hidle
    refine ⟨⟨hexpected, ?_⟩, nofun⟩
    intro b hb
    obtain ⟨hok, older, run, hsplit, hunbroken, hsuffix⟩ := hchecked b hb
    refine ⟨hok, older, run ++ [f], hrun hsplit, hunbroken, ?_⟩
    rw [List.flatMap_append, List.flatMap_singleton, hzone, List.append_nil]
    exact hsuffix
  next hidle =>
  have hzone : f.zone = f.payload := if_neg hidle
  split
  · match pending with
    | none => exact ⟨⟨hexpected, nofun⟩, nofun⟩
    | some b₀ =>
      obtain ⟨hok, older, run, hsplit, hunbroken, hsuffix⟩ := hchecked b₀ rfl
      obtain ⟨hpending, hpackets⟩ := @continuePending_sound (some b₀) _ f.payload
        fun b hb => by cases hb; exact ⟨hok, hsuffix⟩
      have hzones : (run ++ [f]).flatMap Frame.zone = run.flatMap Frame.zone ++ f.payload := by
        rw [List.flatMap_append, List.flatMap_singleton, hzone]
      refine ⟨⟨hexpected, ?_⟩, ?_⟩
      · intro b hb
        refine ⟨(hpending b hb).1, older, run ++ [f], hrun hsplit, hunbroken, ?_⟩
        rw [hzones]
        exact (hpending b hb).2
      · intro p hp
        obtain ⟨q, hq, hin⟩ := hpackets p hp
        refine ⟨q, hq, older, run ++ [f], hrun hsplit, hunbroken, ?_⟩
        rw [hzones]
        exact hin
  next hstart =>
  split
  · exact ⟨⟨hexpected, nofun⟩, nofun⟩
  next hpointer =>
  have hsuffix : f.payload.drop f.firstHeaderPointer.toNat <:+ [f].flatMap Frame.zone := by
    rw [List.flatMap_singleton, hzone]
    exact List.drop_suffix _ _
  obtain ⟨hpending, hpackets⟩ := readPackets_sound (f.payload.drop f.firstHeaderPointer.toNat)
  refine ⟨⟨hexpected, ?_⟩, ?_⟩
  · intro b hb
    -- a packet that starts in this frame
    exact ⟨(hpending b hb).1, fs, [f], rfl, .singleton f, (hpending b hb).2.trans hsuffix⟩
  · intro p hp
    obtain hfinished | hnew := List.mem_append.mp hp
    · match pending with
      | none => cases hfinished
      | some b₀ =>
        obtain ⟨hok, older, run, hsplit, hunbroken, hpast⟩ := hchecked b₀ rfl
        obtain ⟨-, hfrom⟩ := @continuePending_sound (some b₀) _
          (f.payload.take f.firstHeaderPointer.toNat)
          fun b hb => by cases hb; exact ⟨hok, hpast⟩
        obtain ⟨q, hq, hin⟩ := hfrom p hfinished
        refine ⟨q, hq, older, run ++ [f], hrun hsplit, hunbroken, hin.trans ?_⟩
        rw [List.flatMap_append, List.flatMap_singleton, hzone]
        exact (List.prefix_append_right_inj _ |>.mpr (List.take_prefix _ _)).isInfix
    · obtain ⟨q, hq, hin⟩ := hpackets p hnew
      exact ⟨q, hq, fs, [f], rfl, .singleton f, hin.trans hsuffix.isInfix⟩

end VcidContext

/-! ## Runs -/

/-- The frames of a channel among the calls. -/
def framesOf (v : Nat) (calls : List Call) : List Frame :=
  calls.filterMap fun
    | .push f => if f.vcid = v then some f else none
    | .drain => none

/-- A call that is not about another channel. -/
def Call.concerns (v : Nat) : Call → Bool
  | .push f => f.vcid = v
  | .drain => true

namespace PacketReassembler

/-- After any run every channel's context satisfies the invariant. -/
theorem run_history (calls : List Call) {v : Nat} (hv : v < MAX_VIRTUAL_CHANNELS) :
    ∀ {s : PacketReassembler} {fs : List Frame}, (s.context v).History fs →
      ((s.run calls).1.context v).History (fs ++ framesOf v calls) := by
  induction calls with
  | nil =>
    intro s fs h
    rw [show framesOf v [] = [] from rfl, List.append_nil]
    exact h
  | cons call calls ih =>
    intro s fs h
    match call with
    | .drain => exact ih h
    | .push f =>
      show (((s.pushMpduPayload f).run calls).1.context v).History _
      have hcontext := context_push s f v
      by_cases hf : f.vcid = v
      · rw [if_pos ⟨hf, hv⟩] at hcontext
        have hframes : framesOf v (.push f :: calls) = f :: framesOf v calls :=
          List.filterMap_cons_some (if_pos hf)
        rw [hframes, List.append_cons]
        apply ih
        rw [hcontext]
        exact (h.receive f).1
      · rw [if_neg fun h => hf h.1] at hcontext
        have hframes : framesOf v (.push f :: calls) = framesOf v calls :=
          List.filterMap_cons_none (if_neg hf)
        rw [hframes]
        apply ih
        rw [hcontext]
        exact h

/-- What a run emits for a channel depends on its context and its calls. -/
theorem emissions_isolated (v : Nat) (calls : List Call) :
    ∀ {s t : PacketReassembler}, s.context v = t.context v →
      (s.emissions calls).filter (fun e => e.1 = v) =
        t.emissions (calls.filter (Call.concerns v)) := by
  induction calls with
  | nil =>
    intro s t h
    rfl
  | cons call calls ih =>
    intro s t h
    match call with
    | .drain => exact ih h
    | .push f =>
      have hs := context_push s f v
      show ((s.emitted f).map (f.vcid, ·) ++ (s.pushMpduPayload f).emissions calls).filter _ = _
      rw [List.filter_append]
      by_cases hf : f.vcid = v
      · have ht := context_push t f v
        have hkeep : (Call.push f :: calls).filter (Call.concerns v) =
            .push f :: calls.filter (Call.concerns v) :=
          List.filter_cons_of_pos (decide_eq_true hf)
        have hemitted : s.emitted f = t.emitted f := by
          unfold emitted
          rw [hf, h]
        rw [hkeep, ih (t := t.pushMpduPayload f) (by rw [hs, ht, h]), hemitted,
          List.filter_eq_self.mpr]
        · rfl
        · intro e he
          obtain ⟨p, -, rfl⟩ := List.mem_map.mp he
          exact decide_eq_true hf
      · have hdrop : (Call.push f :: calls).filter (Call.concerns v) =
            calls.filter (Call.concerns v) :=
          List.filter_cons_of_neg (by simpa [Call.concerns] using hf)
        rw [if_neg fun h => hf h.1] at hs
        rw [hdrop, ih (hs.trans h), List.filter_eq_nil_iff.mpr, List.nil_append]
        intro e he
        obtain ⟨p, -, rfl⟩ := List.mem_map.mp he
        simpa using hf

end PacketReassembler

/-- **Soundness and isolation.** In every run, whatever the frames are:

    * a packet emitted by a frame is a piece of the zones of an unbroken run
      of frames of the same channel, which ends with that frame;
    * what the frames of a channel emit is what they emit when the frames of
      all other channels are left out;
    * the queue holds what was emitted, the oldest packets dropped beyond its
      limit. -/
theorem demultiplexer_sound (calls : List Call) (f : Frame) :
    (∀ p ∈ (PacketReassembler.new.run calls).1.emitted f,
        ∃ q, SpacePacket.ofBytes q = some p ∧ FromRun (framesOf f.vcid calls ++ [f]) q) ∧
      (∀ v, (PacketReassembler.new.emissions calls).filter (fun e => e.1 = v) =
        PacketReassembler.new.emissions (calls.filter (Call.concerns v))) ∧
      ((PacketReassembler.new.run calls).1.pushMpduPayload f).completed =
        ((PacketReassembler.new.run calls).1.completed ++
          (PacketReassembler.new.run calls).1.emitted f).rtake MAX_COMPLETED_PACKETS := by
  refine ⟨?_, ?_, ?_⟩
  · intro p hp
    unfold PacketReassembler.emitted at hp
    split at hp
    · cases hp
    · next hsmall =>
      have h := PacketReassembler.run_history calls (Nat.not_le.mp hsmall)
        (s := .new) VcidContext.history_new
      exact (h.receive f).2 p (List.mem_of_mem_filter hp)
  · intro v
    exact PacketReassembler.emissions_isolated v calls rfl
  · exact PacketReassembler.completed_push
      (PacketReassembler.run_completed_length calls (Nat.zero_le _)) f

end Lrpt
