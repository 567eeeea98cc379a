import EzSdr.Rds.BlockSync

/-! # Reassembly of RDS Texts

    Groups of type 2 carry a radio text in sixteen segments of four or two
    bytes. `Metadata` collects them; a change of the programme, of the A/B flag
    or of the version begins a new text.

    **`radio_text_spec`**: without the incremental display the text is shown
    from the moment on when its last segment is there, and what is shown is
    always read off segments of one text. -/

namespace Rds

/-! ## Section 1: The metadata -/

inductive RdsRegion where
  | europe | northAmerica
  deriving DecidableEq

/-- What is shown, without the symbols of the constellation. -/
structure RdsSnapshot where
  synchronized   : Bool
  pi             : Option (BitVec 16)
  pty            : Option ℕ
  tp             : Option Bool
  ta             : Option Bool
  music          : Option Bool
  programService : Option String
  radioText      : Option String
  validGroups    : ℕ
  crcErrors      : ℕ
  region         : RdsRegion
  deriving DecidableEq

structure Metadata where
  snapshot    : RdsSnapshot
  ps          : List UInt8
  psMask      : BitVec 8
  rt          : List UInt8
  rtMask      : BitVec 16
  rtAb        : Option Bool
  rtVersionB  : Bool
  incremental : Bool

/-- A character of the display. -/
def glyph (b : UInt8) : Char :=
  if 0x20 ≤ b ∧ b ≤ 0x7E then Char.ofNat b.toNat
  else if b ≤ 0x1F then ' '
  else Char.ofNat 0xFFFD

/-- The bytes as text. Blanks are the only white space there is to trim. -/
def text (bytes : List UInt8) : String :=
  String.ofList ((bytes.map glyph).reverse.dropWhile (· = ' ')).reverse

/-- The two bytes of a block, the higher one first. -/
def toBeBytes (word : BitVec 16) : List UInt8 :=
  [UInt8.ofBitVec (word.extractLsb' 8 8), UInt8.ofBitVec (word.extractLsb' 0 8)]

namespace Group

def abFlag (g : Group) : Bool := g.b &&& 0x10 ≠ 0

/-- The upper four bits of block B. -/
def type (g : Group) : ℕ := (g.b >>> 12).toNat

/-- The address of a segment of a radio text. -/
def segment (g : Group) : ℕ := (g.b &&& 15).toNat

/-- The bytes of a segment: both last blocks, or one in version B. -/
def segmentBytes (g : Group) : List UInt8 :=
  (if g.versionB then [] else toBeBytes g.c) ++ toBeBytes g.d

end Group

/-- `copy_from_slice` at an offset. -/
def overwrite (buffer : List UInt8) (start : ℕ) : List UInt8 → List UInt8
  | [] => buffer
  | b :: bytes => overwrite (buffer.set start b) (start + 1) bytes

def width (versionB : Bool) : ℕ := if versionB then 2 else 4

/-- The first carriage return of the text, or its greatest length. -/
def textEnd (versionB : Bool) (rt : List UInt8) : ℕ :=
  ((rt.take (width versionB * 16)).findIdx? (· = 0x0D)).getD (width versionB * 16)

/-- The number of segments up to the one with the carriage return. -/
def requiredSegments (versionB : Bool) (rt : List UInt8) : ℕ :=
  if textEnd versionB rt = width versionB * 16 then 16
  else textEnd versionB rt / width versionB + 1

/-- The lowest `segments` bits. -/
def requiredMask (segments : ℕ) : BitVec 16 := BitVec.ofNat 16 (2 ^ segments - 1)

namespace Metadata

def default : Metadata where
  snapshot := ⟨false, none, none, none, none, none, none, none, 0, 0, .europe⟩
  ps := List.replicate 8 0x20
  psMask := 0
  rt := List.replicate 64 0x20
  rtMask := 0
  rtAb := none
  rtVersionB := false
  incremental := true

/-- Another programme: all but the statistics and the settings begins anew. -/
def newProgramme (m : Metadata) : Metadata :=
  { default with
    snapshot := { default.snapshot with
      region := m.snapshot.region
      validGroups := m.snapshot.validGroups
      crcErrors := m.snapshot.crcErrors }
    incremental := m.incremental }

/-- What every group carries. -/
def acceptHeader (m : Metadata) (g : Group) : Metadata :=
  let m := if m.snapshot.pi ≠ some g.a then m.newProgramme else m
  { m with snapshot := { m.snapshot with
      pi := some g.a
      pty := some ((g.b >>> 5) &&& 31).toNat
      tp := some (g.b &&& 0x0400 ≠ 0)
      validGroups := min (m.snapshot.validGroups + 1) (2 ^ 64 - 1)
      synchronized := true } }

/-- Groups of type 0: the name of the programme. -/
def acceptProgramService (m : Metadata) (g : Group) : Metadata :=
  let m := { m with snapshot := { m.snapshot with
      ta := some (g.b &&& 0x10 ≠ 0)
      music := some (g.b &&& 0x08 ≠ 0) } }
  let segment := (g.b &&& 3).toNat
  let pair := toBeBytes g.d
  let m := if m.psMask.getLsbD segment ∧ (m.ps.drop (2 * segment)).take 2 ≠ pair then
      { m with
        ps := List.replicate 8 0x20
        psMask := 0
        snapshot := { m.snapshot with programService := none } }
    else m
  let m := { m with
    ps := overwrite m.ps (2 * segment) pair
    psMask := m.psMask ||| (1#8 <<< segment) }
  if m.incremental ∨ m.psMask = 15 then
    { m with snapshot := { m.snapshot with programService := some (text m.ps) } }
  else m

/-- Another radio text begins. -/
def clearText (m : Metadata) (g : Group) : Metadata :=
  { m with
    rt := List.replicate 64 0x20
    rtMask := 0
    rtAb := some g.abFlag
    rtVersionB := g.versionB
    snapshot := { m.snapshot with radioText := none } }

/-- All segments up to the end of the text are there. -/
def textComplete (m : Metadata) : Bool :=
  m.rtMask &&& requiredMask (requiredSegments m.rtVersionB m.rt) =
    requiredMask (requiredSegments m.rtVersionB m.rt)

/-- The text in the buffer, up to its end. -/
def bufferedText (m : Metadata) : String := text (m.rt.take (textEnd m.rtVersionB m.rt))

/-- A segment is put into its place of the buffer. -/
def storeSegment (m : Metadata) (g : Group) : Metadata :=
  { m with
    rt := overwrite m.rt (g.segment * width g.versionB) g.segmentBytes
    rtMask := m.rtMask ||| (1#16 <<< g.segment) }

def publishText (m : Metadata) : Metadata :=
  if m.incremental ∨ m.textComplete then
    { m with snapshot := { m.snapshot with radioText := some m.bufferedText } }
  else m

/-- Groups of type 2: a segment of the radio text. -/
def acceptRadioText (m : Metadata) (g : Group) : Metadata :=
  let m := if m.rtAb ≠ some g.abFlag ∨ g.versionB ≠ m.rtVersionB then m.clearText g else m
  (m.storeSegment g).publishText

def accept (m : Metadata) (g : Group) : Metadata :=
  let m := m.acceptHeader g
  match g.type with
  | 0 => m.acceptProgramService g
  | 2 => m.acceptRadioText g
  | _ => m

def setIncremental (m : Metadata) (incremental : Bool) : Metadata :=
  let m := { m with incremental := incremental }
  if incremental then m
  else
    let m := if m.psMask ≠ 15 then
        { m with snapshot := { m.snapshot with programService := none } }
      else m
    if m.textComplete then m
    else { m with snapshot := { m.snapshot with radioText := none } }

def setRegion (m : Metadata) (region : RdsRegion) : Metadata :=
  { m with snapshot := { m.snapshot with region := region } }

def reset (m : Metadata) : Metadata :=
  (default.setIncremental m.incremental).setRegion m.snapshot.region

/-- `push_baseband`: blocks that did not pass the check. -/
def addErrors (m : Metadata) (errors : ℕ) : Metadata :=
  { m with snapshot := { m.snapshot with
      crcErrors := min (m.snapshot.crcErrors + errors) (2 ^ 64 - 1) } }

end Metadata

/-- What happens to the decoder of the groups. -/
inductive MetadataEvent where
  | accept (g : Group)
  | setIncremental (incremental : Bool)
  | setRegion (region : RdsRegion)
  | addErrors (errors : ℕ)
  | reset

def Metadata.step (m : Metadata) : MetadataEvent → Metadata
  | .accept g => m.accept g
  | .setIncremental incremental => m.setIncremental incremental
  | .setRegion region => m.setRegion region
  | .addErrors errors => m.addErrors errors
  | .reset => m.reset

def Metadata.run (events : List MetadataEvent) : Metadata :=
  events.foldl Metadata.step Metadata.default

/-! ## Section 2: What has arrived -/

/-- The groups since the decoder has been reset. -/
def received (events : List MetadataEvent) : List Group :=
  events.foldl (fun groups event =>
    match event with
    | .accept g => groups ++ [g]
    | .reset => []
    | _ => groups) []

/-- The latest groups of a list that agree with the very last one, in reverse. -/
def latestAlike {κ : Type} [DecidableEq κ] (key : Group → κ) (reversed : List Group) : List Group :=
  match reversed with
  | [] => []
  | last :: _ => reversed.takeWhile fun g => key g = key last

/-- The segments of the radio text since the last change of the programme, of
    the A/B flag or of the version. -/
def segmentsSince (groups : List Group) : List Group :=
  (latestAlike (fun g => (g.abFlag, g.versionB))
    ((latestAlike Group.a groups.reverse).filter fun g => g.type = 2)).reverse

/-- The buffer with these segments, received in this order. -/
def buffer (segments : List Group) : List UInt8 :=
  segments.foldl (fun rt g => overwrite rt (g.segment * width g.versionB) g.segmentBytes)
    (List.replicate 64 0x20)

/-- Every segment up to the first carriage return received, or each of the
    sixteen, is there. -/
def Complete (versionB : Bool) (segments : List Group) : Prop :=
  ∀ k < requiredSegments versionB (buffer segments), ∃ g ∈ segments, g.segment = k

/-- The text that these segments show. -/
def shown (versionB : Bool) (segments : List Group) : String :=
  text ((buffer segments).take (textEnd versionB (buffer segments)))

/-- A radio text: at most sixteen segments long, without a carriage return. -/
structure IsText (versionB : Bool) (bytes : List UInt8) : Prop where
  length : bytes.length ≤ width versionB * 16
  plain  : 0x0D ∉ bytes

/-- The segment is one of this text, which ends with a carriage return when it
    is shorter. What comes after that is not the text's. -/
def Group.Carries (g : Group) (versionB : Bool) (bytes : List UInt8) : Prop :=
  g.versionB = versionB ∧ ∀ j < width versionB,
    (∀ b, bytes[g.segment * width versionB + j]? = some b → g.segmentBytes[j]? = some b) ∧
    (g.segment * width versionB + j = bytes.length → g.segmentBytes[j]? = some 0x0D)

/-- The number of segments that a text takes. -/
def segmentsOf (versionB : Bool) (bytes : List UInt8) : ℕ :=
  if bytes.length = width versionB * 16 then 16 else bytes.length / width versionB + 1

/-! ## Section 3: The buffer -/

theorem length_overwrite (bytes : List UInt8) (rt : List UInt8) (start : ℕ) :
    (overwrite rt start bytes).length = rt.length := by
  induction bytes generalizing rt start with
  | nil => rfl
  | cons b bytes ih => rw [overwrite, ih, List.length_set]

theorem getElem?_overwrite (bytes : List UInt8) (rt : List UInt8) (start i : ℕ)
    (h : start + bytes.length ≤ rt.length) :
    (overwrite rt start bytes)[i]? =
      if start ≤ i ∧ i < start + bytes.length then bytes[i - start]? else rt[i]? := by
  induction bytes generalizing rt start with
  | nil => rw [overwrite, if_neg (by simp)]
  | cons b bytes ih =>
    rw [List.length_cons] at h ⊢
    rw [overwrite, ih _ _ (by rw [List.length_set]; omega), List.getElem?_set]
    by_cases hfirst : i = start
    · subst hfirst
      rw [if_neg (by omega), if_pos rfl, if_pos (by omega), if_pos (by omega), Nat.sub_self]
      rfl
    · rw [if_neg (Ne.symm hfirst)]
      by_cases hlater : start + 1 ≤ i ∧ i < start + 1 + bytes.length
      · rw [if_pos hlater, if_pos (by omega)]
        have hindex : i - start = (i - (start + 1)) + 1 := by omega
        rw [hindex, List.getElem?_cons_succ]
      · rw [if_neg hlater, if_neg (by omega)]

theorem Group.segment_lt (g : Group) : g.segment < 16 := by
  have hle : (g.b &&& 15).toNat ≤ 15 := by
    rw [BitVec.toNat_and]
    exact Nat.and_le_right
  unfold segment
  omega

theorem Group.length_segmentBytes (g : Group) : g.segmentBytes.length = width g.versionB := by
  unfold segmentBytes width
  cases g.versionB with
  | true => rfl
  | false => rfl

theorem width_pos (versionB : Bool) : 0 < width versionB := by
  cases versionB with
  | true => decide
  | false => decide

theorem width_le (versionB : Bool) : width versionB * 16 ≤ 64 := by
  cases versionB with
  | true => decide
  | false => decide

theorem buffer_append (segments : List Group) (g : Group) :
    buffer (segments ++ [g]) =
      overwrite (buffer segments) (g.segment * width g.versionB) g.segmentBytes := by
  unfold buffer
  rw [List.foldl_append]
  rfl

theorem length_buffer (segments : List Group) : (buffer segments).length = 64 := by
  induction segments using List.reverseRecOn with
  | nil => rfl
  | append_singleton segments g ih => rw [buffer_append, length_overwrite, ih]

/-- A segment replaces its own bytes. -/
theorem getElem?_buffer_append (segments : List Group) (g : Group) (i : ℕ) :
    (buffer (segments ++ [g]))[i]? =
      if i / width g.versionB = g.segment then g.segmentBytes[i % width g.versionB]?
      else (buffer segments)[i]? := by
  have hsegment := g.segment_lt
  have hpos := width_pos g.versionB
  have hwidth := width_le g.versionB
  have hfits : g.segment * width g.versionB + width g.versionB ≤ 64 := by
    rw [← Nat.succ_mul, Nat.mul_comm]
    exact (Nat.mul_le_mul_left _ hsegment).trans hwidth
  rw [buffer_append, getElem?_overwrite _ _ _ _ (by
    rw [g.length_segmentBytes, length_buffer]
    exact hfits), g.length_segmentBytes]
  have hdiv := Nat.div_add_mod i (width g.versionB)
  have hmod := Nat.mod_lt i hpos
  rw [Nat.mul_comm] at hdiv
  by_cases hmine : i / width g.versionB = g.segment
  · rw [hmine] at hdiv
    rw [if_pos (by omega), if_pos hmine]
    have hindex : i - g.segment * width g.versionB = i % width g.versionB := by omega
    rw [hindex]
  · rw [if_neg hmine, if_neg]
    intro hwithin
    refine hmine (Nat.div_eq_of_lt_le hwithin.1 ?_)
    rw [Nat.succ_mul]
    exact hwithin.2

/-- A segment that carries the text has arrived for this number. -/
def Arrived (segments : List Group) (k : ℕ) : Prop := ∃ g ∈ segments, g.segment = k

/-- **What the buffer holds** when all segments carry one text: its bytes and
    its end where they have arrived, and blanks elsewhere. -/
theorem buffer_of_carries {versionB : Bool} {bytes : List UInt8} {segments : List Group}
    (h : ∀ g ∈ segments, g.Carries versionB bytes) (i : ℕ) (hi : i < 64) :
    (Arrived segments (i / width versionB) ∧
      (∀ b, bytes[i]? = some b → (buffer segments)[i]? = some b) ∧
      (i = bytes.length → (buffer segments)[i]? = some 0x0D)) ∨
    (¬ Arrived segments (i / width versionB) ∧ (buffer segments)[i]? = some 0x20) := by
  induction segments using List.reverseRecOn with
  | nil =>
    refine .inr ⟨fun hnone => ?_, ?_⟩
    · obtain ⟨g, hg, -⟩ := hnone
      cases hg
    · show (List.replicate 64 (0x20 : UInt8))[i]? = _
      rw [List.getElem?_replicate, if_pos hi]
  | append_singleton segments g ih =>
    have hold := ih fun g' hg' => h g' (List.mem_append_left _ hg')
    obtain ⟨hversion, hcarries⟩ := h g (List.mem_append_right _ (List.mem_singleton_self g))
    have harrived : Arrived (segments ++ [g]) (i / width versionB) ↔
        Arrived segments (i / width versionB) ∨ g.segment = i / width versionB := by
      unfold Arrived
      simp only [List.mem_append, List.mem_singleton, or_and_right, exists_or, exists_eq_left]
    rw [harrived, getElem?_buffer_append, hversion]
    by_cases hmine : i / width versionB = g.segment
    · rw [if_pos hmine]
      have hdiv := Nat.div_add_mod i (width versionB)
      rw [hmine, Nat.mul_comm] at hdiv
      obtain ⟨hbytes, hend⟩ := hcarries _ (Nat.mod_lt i (width_pos versionB))
      rw [hdiv] at hbytes hend
      exact .inl ⟨.inr hmine.symm, hbytes, hend⟩
    · rw [if_neg hmine]
      obtain ⟨hthere, hsame⟩ | ⟨hmissing, hblank⟩ := hold
      · exact .inl ⟨.inl hthere, hsame⟩
      · exact .inr ⟨not_or.2 ⟨hmissing, Ne.symm hmine⟩, hblank⟩

/-! ## Section 4: The end of the text -/

theorem textEnd_spec (versionB : Bool) (rt : List UInt8) :
    textEnd versionB rt ≤ width versionB * 16 ∧
      (∀ i < textEnd versionB rt, rt[i]? ≠ some 0x0D) ∧
      (textEnd versionB rt < width versionB * 16 → rt[textEnd versionB rt]? = some 0x0D) := by
  unfold textEnd
  cases hfind : (rt.take (width versionB * 16)).findIdx? (· = 0x0D) with
  | none =>
    rw [Option.getD_none]
    refine ⟨le_rfl, fun i hi hreturn => ?_, fun hlt => absurd hlt (lt_irrefl _)⟩
    rw [← List.getElem?_take_of_lt hi] at hreturn
    have hnot := List.findIdx?_eq_none_iff.1 hfind _ (List.mem_of_getElem? hreturn)
    exact absurd hnot (by decide)
  | some e =>
    rw [Option.getD_some]
    obtain ⟨hlt, hreturn, hbefore⟩ := List.findIdx?_eq_some_iff_getElem.1 hfind
    have hmax : e < width versionB * 16 := by
      rw [List.length_take] at hlt
      omega
    refine ⟨hmax.le, fun i hi hreturn' => ?_, fun _ => ?_⟩
    · rw [← List.getElem?_take_of_lt (hi.trans hmax)] at hreturn'
      obtain ⟨hi', heq⟩ := List.getElem?_eq_some_iff.1 hreturn'
      refine hbefore i hi ?_
      rw [heq]
      decide
    · rw [← List.getElem?_take_of_lt hmax, List.getElem?_eq_getElem hlt, of_decide_eq_true hreturn]

/-- The end is where the first carriage return is, if there is one. -/
theorem textEnd_eq {versionB : Bool} {rt : List UInt8} {n : ℕ} (hle : n ≤ width versionB * 16)
    (hplain : ∀ i < n, rt[i]? ≠ some 0x0D)
    (hend : n < width versionB * 16 → rt[n]? = some 0x0D) : textEnd versionB rt = n := by
  obtain ⟨hbound, hbefore, hreturn⟩ := textEnd_spec versionB rt
  obtain hlt | heq | hgt := lt_trichotomy (textEnd versionB rt) n
  · exact absurd (hreturn (hlt.trans_le hle)) (hplain _ hlt)
  · exact heq
  · exact absurd (hend (hgt.trans_le hbound)) (hbefore n hgt)

theorem requiredSegments_pos (versionB : Bool) (rt : List UInt8) :
    0 < requiredSegments versionB rt := by
  unfold requiredSegments
  split
  · decide
  · exact Nat.succ_pos _

theorem requiredSegments_le (versionB : Bool) (rt : List UInt8) :
    requiredSegments versionB rt ≤ 16 := by
  have hbound := (textEnd_spec versionB rt).1
  unfold requiredSegments
  split
  · exact le_rfl
  · next hne =>
    have hlt : textEnd versionB rt < 16 * width versionB := by
      rw [Nat.mul_comm]
      exact lt_of_le_of_ne hbound hne
    exact Nat.div_lt_of_lt_mul (by rw [Nat.mul_comm]; exact hlt)

/-- No byte of the buffer within the text is a carriage return. -/
theorem plain_of_carries {versionB : Bool} {bytes : List UInt8} {segments : List Group}
    (htext : IsText versionB bytes) (h : ∀ g ∈ segments, g.Carries versionB bytes) :
    ∀ i < bytes.length, (buffer segments)[i]? ≠ some 0x0D := by
  intro i hi hreturn
  have hi64 := (hi.trans_le htext.length).trans_le (width_le versionB)
  obtain ⟨-, hsame, -⟩ | ⟨-, hblank⟩ := buffer_of_carries h i hi64
  · rw [hsame bytes[i] (List.getElem?_eq_getElem hi)] at hreturn
    exact htext.plain (Option.some.inj hreturn ▸ List.getElem_mem hi)
  · rw [hblank] at hreturn
    exact absurd (Option.some.inj hreturn) (by decide)

/-- Segments that look complete hold the whole text. -/
theorem arrived_of_complete {versionB : Bool} {bytes : List UInt8} {segments : List Group}
    (htext : IsText versionB bytes) (h : ∀ g ∈ segments, g.Carries versionB bytes)
    (hcomplete : Complete versionB segments) :
    ∀ k < segmentsOf versionB bytes, Arrived segments k := by
  have hplain := plain_of_carries htext h
  obtain ⟨hbound, -, hreturn⟩ := textEnd_spec versionB (buffer segments)
  -- the end that is seen is not before the end of the text
  have hle : bytes.length ≤ textEnd versionB (buffer segments) := by
    by_contra hshort
    have hlt := not_le.1 hshort
    exact hplain _ hlt (hreturn (hlt.trans_le htext.length))
  have hrequired : segmentsOf versionB bytes ≤ requiredSegments versionB (buffer segments) := by
    have hlength := htext.length
    unfold segmentsOf requiredSegments
    by_cases hfull : textEnd versionB (buffer segments) = width versionB * 16
    · rw [if_pos hfull]
      split
      · exact le_rfl
      · exact Nat.div_lt_of_lt_mul (by omega)
    · rw [if_neg hfull, if_neg (by omega)]
      exact Nat.succ_le_succ (Nat.div_le_div_right hle)
  intro k hk
  exact hcomplete k (hk.trans_le hrequired)

/-- When the whole text has arrived, it is complete, and it is what is shown. -/
theorem complete_of_arrived {versionB : Bool} {bytes : List UInt8} {segments : List Group}
    (htext : IsText versionB bytes) (h : ∀ g ∈ segments, g.Carries versionB bytes)
    (hall : ∀ k < segmentsOf versionB bytes, Arrived segments k) :
    Complete versionB segments ∧ shown versionB segments = text bytes := by
  have hwidth := width_pos versionB
  have hlength := htext.length
  have hmax := width_le versionB
  have hpart : ∀ i ≤ bytes.length, i < width versionB * 16 →
      Arrived segments (i / width versionB) := by
    intro i hi hlt
    apply hall
    unfold segmentsOf
    split
    · exact Nat.div_lt_of_lt_mul hlt
    · exact Nat.lt_succ_of_le (Nat.div_le_div_right hi)
  have hend : textEnd versionB (buffer segments) = bytes.length := by
    refine textEnd_eq hlength (plain_of_carries htext h) fun hlt => ?_
    obtain ⟨-, -, hreturn⟩ | ⟨hmissing, -⟩ := buffer_of_carries h bytes.length (by omega)
    · exact hreturn rfl
    · exact absurd (hpart _ le_rfl hlt) hmissing
  constructor
  · intro k hk
    apply hall
    unfold requiredSegments at hk
    rw [hend] at hk
    exact hk
  · unfold shown
    rw [hend]
    refine congrArg text (List.ext_getElem? fun i => ?_)
    by_cases hi : i < bytes.length
    · rw [List.getElem?_take_of_lt hi]
      obtain ⟨-, hsame, -⟩ | ⟨hmissing, -⟩ := buffer_of_carries h i (by omega)
      · rw [hsame bytes[i] (List.getElem?_eq_getElem hi), List.getElem?_eq_getElem hi]
      · exact absurd (hpart i hi.le (by omega)) hmissing
    · rw [List.getElem?_eq_none (not_lt.1 hi), List.getElem?_eq_none]
      rw [List.length_take, length_buffer]
      omega

/-! ## Section 5: The segments since a change -/

theorem latestAlike_cons {κ : Type} [DecidableEq κ] (key : Group → κ) (g : Group)
    (rest : List Group) : latestAlike key (g :: rest) =
      g :: if rest.head?.map key = some (key g) then latestAlike key rest else [] := by
  have hfirst : latestAlike key (g :: rest) =
      g :: rest.takeWhile (fun h => decide (key h = key g)) := by
    unfold latestAlike
    simp only [List.takeWhile_cons, decide_true, if_true]
  rw [hfirst]
  cases rest with
  | nil => rfl
  | cons h rest =>
    rw [List.head?_cons, Option.map_some]
    by_cases hsame : key h = key g
    · rw [if_pos (congrArg some hsame)]
      show _ = g :: (h :: rest).takeWhile (fun h' => decide (key h' = key h))
      rw [hsame]
    · rw [if_neg (fun heq => hsame (Option.some.inj heq)),
        List.takeWhile_cons_of_neg (by simpa using hsame)]

theorem head?_latestAlike {κ : Type} [DecidableEq κ] (key : Group → κ) (l : List Group) :
    (latestAlike key l).head? = l.head? := by
  cases l with
  | nil => rfl
  | cons g rest => rw [latestAlike_cons, List.head?_cons, List.head?_cons]

/-- The A/B flag and the version. -/
def Group.textKey (g : Group) : Bool × Bool := (g.abFlag, g.versionB)

/-- One more radio text group, after those since a change. -/
def appendSegment (segments : List Group) (g : Group) : List Group :=
  if segments.getLast?.map Group.textKey = some g.textKey then segments ++ [g] else [g]

/-- One more group of the same or of another programme. -/
def nextSegments (pi : Option (BitVec 16)) (segments : List Group) (g : Group) : List Group :=
  if g.type = 2 then appendSegment (if pi = some g.a then segments else []) g
  else if pi = some g.a then segments else []

/-- **What a group does to the segments since the last change.** -/
theorem segmentsSince_append (groups : List Group) (g : Group) :
    segmentsSince (groups ++ [g]) =
      nextSegments (groups.getLast?.map Group.a) (segmentsSince groups) g := by
  have hlast : groups.reverse.head? = groups.getLast? := List.head?_reverse
  unfold segmentsSince nextSegments
  rw [List.reverse_append, List.reverse_singleton, List.singleton_append, latestAlike_cons, hlast]
  -- the groups of this programme, in reverse
  obtain ⟨alike, halike⟩ : ∃ alike, alike =
    (if groups.getLast?.map Group.a = some g.a then latestAlike Group.a groups.reverse else []) :=
    ⟨_, rfl⟩
  have hold : (if groups.getLast?.map Group.a = some g.a then
      (latestAlike Group.textKey ((latestAlike Group.a groups.reverse).filter
        fun g => g.type = 2)).reverse else []) =
      (latestAlike Group.textKey (alike.filter fun g => g.type = 2)).reverse := by
    rw [halike]
    split
    · rfl
    · rfl
  show (latestAlike Group.textKey _).reverse = _
  rw [← halike]
  by_cases htype : g.type = 2
  · rw [List.filter_cons_of_pos (by simpa using htype), latestAlike_cons, if_pos htype]
    show _ = appendSegment (if _ then (latestAlike Group.textKey _).reverse else []) g
    rw [hold]
    unfold appendSegment
    rw [List.getLast?_reverse, head?_latestAlike, List.reverse_cons]
    split
    · rfl
    · rfl
  · rw [List.filter_cons_of_neg (by simpa using htype), if_neg htype]
    exact hold.symm

/-! ## Section 6: The mask -/

theorem getLsbD_requiredMask {n k : ℕ} (hk : k < 16) :
    (requiredMask n).getLsbD k = decide (k < n) := by
  unfold requiredMask
  rw [BitVec.getLsbD_ofNat, Nat.testBit_two_pow_sub_one, decide_eq_true hk, Bool.true_and]

/-- The mask covers the lowest bits. -/
theorem covers_iff {mask : BitVec 16} {n : ℕ} (hn : n ≤ 16) :
    mask &&& requiredMask n = requiredMask n ↔ ∀ k < n, mask.getLsbD k = true := by
  constructor
  · intro heq k hk
    have hbit := congrArg (fun word : BitVec 16 => word.getLsbD k) heq
    simp only [BitVec.getLsbD_and, getLsbD_requiredMask (hk.trans_le hn), hk, decide_true,
      Bool.and_true] at hbit
    exact hbit
  · intro hall
    apply BitVec.eq_of_getLsbD_eq
    intro k hk
    rw [BitVec.getLsbD_and, getLsbD_requiredMask hk]
    by_cases hkn : k < n
    · rw [hall k hkn, decide_eq_true hkn]
      rfl
    · rw [decide_eq_false hkn, Bool.and_false]

theorem getLsbD_setBit {mask : BitVec 16} {i k : ℕ} (hi : i < 16) :
    (mask ||| (1#16 <<< i)).getLsbD k = true ↔ mask.getLsbD k = true ∨ k = i := by
  rw [BitVec.getLsbD_or, BitVec.getLsbD_shiftLeft, BitVec.getLsbD_one, Bool.or_eq_true]
  refine or_congr_right ?_
  simp
  omega

/-! ## Section 7: What is shown -/

/-- What the buffer holds of the segments since the last change. -/
structure Keeps (segments : List Group) (m : Metadata) : Prop where
  rt   : m.rt = buffer segments
  mask : ∀ k, m.rtMask.getLsbD k = true ↔ Arrived segments k
  key  : ∀ g ∈ segments, m.rtAb = some g.abFlag ∧ m.rtVersionB = g.versionB

/-- What is shown of them. -/
structure Holds (segments : List Group) (m : Metadata) : Prop extends Keeps segments m where
  /-- What is shown was read off segments of this text, and off a complete
      text if incomplete ones are not shown. -/
  text  : ∀ s, m.snapshot.radioText = some s → ∃ part, part <+: segments ∧ part ≠ [] ∧
    s = shown m.rtVersionB part ∧ (m.incremental = false → Complete m.rtVersionB part)
  /-- A complete text is shown. -/
  whole : Complete m.rtVersionB segments →
    m.snapshot.radioText = some (shown m.rtVersionB segments)

/-- The programme is known, and without a segment no flag is. -/
structure Tracks (pi : Option (BitVec 16)) (segments : List Group) (m : Metadata) : Prop
    extends Holds segments m where
  pi   : m.snapshot.pi = pi
  idle : segments = [] → m.rtAb = none

/-- Nothing has arrived. -/
theorem not_complete_nil (versionB : Bool) : ¬ Complete versionB [] := by
  intro hcomplete
  obtain ⟨g, hg, -⟩ := hcomplete 0 (requiredSegments_pos _ _)
  cases hg

theorem arrived_append {segments : List Group} {g : Group} {k : ℕ} :
    Arrived (segments ++ [g]) k ↔ Arrived segments k ∨ k = g.segment := by
  unfold Arrived
  simp only [List.mem_append, List.mem_singleton, or_and_right, exists_or, exists_eq_left]
  rw [@eq_comm _ k]

section Segments

variable {pi : Option (BitVec 16)} {segments : List Group} {m m' : Metadata} {g : Group}

theorem Keeps.bufferedText (h : Keeps segments m) :
    m.bufferedText = shown m.rtVersionB segments := by
  unfold Metadata.bufferedText shown
  rw [h.rt]

theorem Keeps.textComplete (h : Keeps segments m) :
    m.textComplete = true ↔ Complete m.rtVersionB segments := by
  unfold Metadata.textComplete Complete
  rw [decide_eq_true_iff, covers_iff (requiredSegments_le _ _), h.rt]
  exact forall₂_congr fun k _ => h.mask k

/-- A segment of the text that is being received. -/
theorem Keeps.storeSegment (h : Keeps segments m) (hab : m.rtAb = some g.abFlag)
    (hversion : m.rtVersionB = g.versionB) : Keeps (segments ++ [g]) (m.storeSegment g) where
  rt := by
    rw [buffer_append, ← h.rt]
    rfl
  mask := by
    intro k
    rw [arrived_append, ← h.mask k]
    exact getLsbD_setBit g.segment_lt
  key := by
    intro g' hg'
    obtain hold | hnew := List.mem_append.1 hg'
    · exact h.key g' hold
    · rw [List.mem_singleton.1 hnew]
      exact ⟨hab, hversion⟩

/-- After a segment the text is shown, or what was shown before remains. -/
theorem Holds.acceptSegment (h : Holds segments m) (hab : m.rtAb = some g.abFlag)
    (hversion : m.rtVersionB = g.versionB) :
    Holds (segments ++ [g]) (m.storeSegment g).publishText := by
  have hkeeps := h.toKeeps.storeSegment hab hversion
  unfold Metadata.publishText
  by_cases hshow : (m.storeSegment g).incremental ∨ (m.storeSegment g).textComplete
  · rw [if_pos hshow]
    have hshown := hkeeps.bufferedText
    refine { rt := hkeeps.rt, mask := hkeeps.mask, key := hkeeps.key, text := ?_, whole := ?_ }
    · intro s hs
      refine ⟨segments ++ [g], List.prefix_rfl, List.append_ne_nil_of_right_ne_nil _
        (List.cons_ne_nil _ _), ?_, ?_⟩
      · exact (Option.some.inj hs).symm.trans hshown
      · intro hwhole
        obtain hincremental | hcomplete := hshow
        · exact absurd (hwhole.symm.trans hincremental) Bool.false_ne_true
        · exact hkeeps.textComplete.1 hcomplete
    · intro _
      exact congrArg some hshown
  · rw [if_neg hshow]
    refine { rt := hkeeps.rt, mask := hkeeps.mask, key := hkeeps.key, text := ?_, whole := ?_ }
    · intro s hs
      obtain ⟨part, hpart, hne, heq, hwhole⟩ := h.text s hs
      exact ⟨part, hpart.trans (List.prefix_append _ _), hne, heq, hwhole⟩
    · intro hcomplete
      exact absurd (.inr (hkeeps.textComplete.2 hcomplete)) hshow

/-- The other fields do not matter. -/
theorem Holds.congr (h : Holds segments m) (hrt : m'.rt = m.rt) (hmask : m'.rtMask = m.rtMask)
    (hab : m'.rtAb = m.rtAb) (hversion : m'.rtVersionB = m.rtVersionB)
    (htext : m'.snapshot.radioText = m.snapshot.radioText)
    (hincremental : m'.incremental = m.incremental) : Holds segments m' where
  rt := hrt.trans h.rt
  mask := by
    rw [hmask]
    exact h.mask
  key := by
    rw [hab, hversion]
    exact h.key
  text := by
    rw [htext, hversion, hincremental]
    exact h.text
  whole := by
    rw [htext, hversion]
    exact h.whole

theorem holds_nil (hrt : m.rt = List.replicate 64 0x20) (hmask : m.rtMask = 0)
    (htext : m.snapshot.radioText = none) : Holds [] m where
  rt := hrt
  mask := by
    intro k
    rw [hmask, BitVec.ofNat_eq_ofNat, BitVec.getLsbD_zero]
    refine iff_of_false Bool.false_ne_true fun harrived => ?_
    obtain ⟨g, hg, -⟩ := harrived
    cases hg
  key := fun g hg => by cases hg
  text := by
    intro s hs
    rw [htext] at hs
    cases hs
  whole := fun hcomplete => absurd hcomplete (not_complete_nil _)

/-- A text begins with a segment of another A/B flag or version. -/
theorem Holds.acceptRadioText (h : Holds segments m) (hidle : segments = [] → m.rtAb = none) :
    Holds (appendSegment segments g) (m.acceptRadioText g) := by
  show Holds _ ((if _ then _ else _ : Metadata).storeSegment g).publishText
  unfold appendSegment
  have hlast : segments.getLast?.map Group.textKey = some g.textKey ↔
      ¬ (m.rtAb ≠ some g.abFlag ∨ g.versionB ≠ m.rtVersionB) := by
    cases hsegments : segments.getLast? with
    | none =>
      rw [hidle (List.getLast?_eq_none_iff.1 hsegments)]
      refine iff_of_false (fun hnone => by cases hnone) fun hsame => hsame (.inl fun hnone => ?_)
      cases hnone
    | some last =>
      obtain ⟨hab, hversion⟩ := h.key last (List.mem_of_getLast? hsegments)
      rw [hab, hversion, Option.map_some, Option.some_inj, not_or, not_not, not_not,
        Option.some_inj, @eq_comm _ g.versionB]
      exact Prod.mk_inj
  by_cases hsame : segments.getLast?.map Group.textKey = some g.textKey
  · have hkey := hlast.1 hsame
    rw [if_pos hsame, if_neg hkey]
    rw [not_or, not_not, not_not] at hkey
    exact h.acceptSegment hkey.1 hkey.2.symm
  · rw [if_neg hsame, if_pos (not_not.1 fun hkey => hsame (hlast.2 hkey))]
    exact (holds_nil rfl rfl rfl : Holds [] (m.clearText g)).acceptSegment rfl rfl

/-- Complete segments belong to a text, and its version is the one kept. -/
theorem Keeps.version (h : Keeps segments m) {versionB : Bool} (hne : segments ≠ [])
    (hversion : ∀ g ∈ segments, g.versionB = versionB) : m.rtVersionB = versionB := by
  obtain ⟨g, hg⟩ := List.exists_mem_of_ne_nil _ hne
  exact (h.key g hg).2.trans (hversion g hg)

end Segments

/-! ## Section 8: Steps -/

section Steps

variable {pi : Option (BitVec 16)} {segments : List Group} {m : Metadata}

theorem Tracks.acceptHeader (h : Tracks pi segments m) (g : Group) :
    Tracks (some g.a) (if pi = some g.a then segments else []) (m.acceptHeader g) := by
  have hpi := h.pi
  unfold Metadata.acceptHeader
  by_cases hsame : pi = some g.a
  · rw [if_pos hsame, if_neg (by rw [hpi]; exact not_not.2 hsame)]
    exact { h.toHolds.congr rfl rfl rfl rfl rfl rfl with pi := rfl, idle := h.idle }
  · rw [if_neg hsame, if_pos (by rw [hpi]; exact hsame)]
    exact { holds_nil rfl rfl rfl with pi := rfl, idle := fun _ => rfl }

theorem Tracks.acceptProgramService (h : Tracks pi segments m) (g : Group) :
    Tracks pi segments (m.acceptProgramService g) := by
  -- nothing of the radio text is touched in any of the branches
  have hframe : (m.acceptProgramService g).rt = m.rt ∧
      (m.acceptProgramService g).rtMask = m.rtMask ∧
      (m.acceptProgramService g).rtAb = m.rtAb ∧
      (m.acceptProgramService g).rtVersionB = m.rtVersionB ∧
      (m.acceptProgramService g).snapshot.radioText = m.snapshot.radioText ∧
      (m.acceptProgramService g).incremental = m.incremental ∧
      (m.acceptProgramService g).snapshot.pi = m.snapshot.pi := by
    unfold Metadata.acceptProgramService
    dsimp only
    split
    · split
      · exact ⟨rfl, rfl, rfl, rfl, rfl, rfl, rfl⟩
      · exact ⟨rfl, rfl, rfl, rfl, rfl, rfl, rfl⟩
    · split
      · exact ⟨rfl, rfl, rfl, rfl, rfl, rfl, rfl⟩
      · exact ⟨rfl, rfl, rfl, rfl, rfl, rfl, rfl⟩
  obtain ⟨hrt, hmask, hab, hversion, htext, hincremental, hpi⟩ := hframe
  exact { h.toHolds.congr hrt hmask hab hversion htext hincremental with
    pi := hpi.trans h.pi
    idle := fun hnone => hab.trans (h.idle hnone) }

theorem appendSegment_ne_nil (segments : List Group) (g : Group) :
    appendSegment segments g ≠ [] := by
  unfold appendSegment
  split
  · exact List.append_ne_nil_of_right_ne_nil _ (List.cons_ne_nil _ _)
  · exact List.cons_ne_nil _ _

theorem acceptRadioText_pi (m : Metadata) (g : Group) :
    (m.acceptRadioText g).snapshot.pi = m.snapshot.pi := by
  unfold Metadata.acceptRadioText Metadata.publishText
  dsimp only
  split
  · split
    · rfl
    · rfl
  · split
    · rfl
    · rfl

theorem Tracks.acceptRadioText (h : Tracks pi segments m) (g : Group) :
    Tracks pi (appendSegment segments g) (m.acceptRadioText g) :=
  { h.toHolds.acceptRadioText h.idle with
    pi := (acceptRadioText_pi m g).trans h.pi
    idle := fun hnone => absurd hnone (appendSegment_ne_nil _ _) }

theorem Tracks.accept (h : Tracks pi segments m) (g : Group) :
    Tracks (some g.a) (nextSegments pi segments g) (m.accept g) := by
  have hheader := h.acceptHeader g
  unfold nextSegments
  by_cases htext : g.type = 2
  · rw [if_pos htext]
    have haccept : m.accept g = (m.acceptHeader g).acceptRadioText g := by
      unfold Metadata.accept
      rw [htext]
      rfl
    rw [haccept]
    exact hheader.acceptRadioText g
  · rw [if_neg htext]
    have haccept : m.accept g = (m.acceptHeader g).acceptProgramService g ∨
        m.accept g = m.acceptHeader g := by
      unfold Metadata.accept
      dsimp only
      split
      · exact .inl rfl
      · next htwo => exact absurd htwo htext
      · exact .inr rfl
    obtain hname | hother := haccept
    · rw [hname]
      exact hheader.acceptProgramService g
    · rw [hother]
      exact hheader

/-- **Switching the incremental display off** hides what is not complete. -/
theorem Tracks.hide (h : Tracks pi segments m) :
    Tracks pi segments (m.setIncremental false) ∧
      (Complete m.rtVersionB segments →
        (m.setIncremental false).snapshot.radioText = m.snapshot.radioText) ∧
      (¬ Complete m.rtVersionB segments →
        (m.setIncremental false).snapshot.radioText = none) := by
  -- the name of the programme is hidden on its own account
  obtain ⟨m', hm', hkeeps', hversion, hpi, hab, htext'⟩ : ∃ m' : Metadata,
      m.setIncremental false =
        (if m'.textComplete then m'
          else { m' with snapshot := { m'.snapshot with radioText := none } }) ∧
      Keeps segments m' ∧ m'.rtVersionB = m.rtVersionB ∧ m'.snapshot.pi = m.snapshot.pi ∧
      m'.rtAb = m.rtAb ∧ m'.snapshot.radioText = m.snapshot.radioText ∧
      m'.incremental = false := by
    by_cases hmask : m.psMask ≠ 15
    · refine ⟨{ m with incremental := false, snapshot := { m.snapshot with
        programService := none } }, ?_, ⟨h.rt, h.mask, h.key⟩, rfl, rfl, rfl, rfl, rfl⟩
      unfold Metadata.setIncremental
      dsimp only
      rw [if_neg Bool.false_ne_true, if_pos hmask]
    · refine ⟨{ m with incremental := false }, ?_, ⟨h.rt, h.mask, h.key⟩, rfl, rfl, rfl, rfl, rfl⟩
      unfold Metadata.setIncremental
      dsimp only
      rw [if_neg Bool.false_ne_true, if_neg hmask]
  have hcomplete := hkeeps'.textComplete
  rw [hversion] at hcomplete
  rw [hm']
  by_cases hwhole : m'.textComplete = true
  · rw [if_pos hwhole]
    have hshown := h.whole (hcomplete.1 hwhole)
    refine ⟨{ toKeeps := hkeeps', text := ?_, whole := ?_, pi := hpi.trans h.pi, idle := ?_ },
      fun _ => htext'.1, fun hnot => absurd (hcomplete.1 hwhole) hnot⟩
    · intro s hs
      rw [htext'.1, hshown] at hs
      rw [hversion]
      refine ⟨segments, List.prefix_rfl, fun hnone => ?_, (Option.some.inj hs).symm,
        fun _ => hcomplete.1 hwhole⟩
      exact not_complete_nil _ (hnone ▸ hcomplete.1 hwhole)
    · intro _
      rw [htext'.1, hversion]
      exact hshown
    · intro hnone
      rw [hab]
      exact h.idle hnone
  · rw [if_neg hwhole]
    have hhidden : Keeps segments
        { m' with snapshot := { m'.snapshot with radioText := none } } :=
      ⟨hkeeps'.rt, hkeeps'.mask, hkeeps'.key⟩
    refine ⟨{ toKeeps := hhidden, text := ?_, whole := ?_, pi := hpi.trans h.pi, idle := ?_ },
      fun hall => absurd (hcomplete.2 hall) hwhole, fun _ => rfl⟩
    · intro s hs
      cases hs
    · intro hall
      exact absurd (hcomplete.2 (hversion ▸ hall)) hwhole
    · intro hnone
      exact hab.trans (h.idle hnone)

theorem Tracks.setIncremental (h : Tracks pi segments m) (incremental : Bool) :
    Tracks pi segments (m.setIncremental incremental) := by
  cases incremental with
  | false => exact h.hide.1
  | true =>
    have hkeeps : Keeps segments (m.setIncremental true) := ⟨h.rt, h.mask, h.key⟩
    refine { toKeeps := hkeeps, text := ?_, whole := h.whole, pi := h.pi, idle := h.idle }
    intro s hs
    obtain ⟨part, hpart, hne, heq, -⟩ := h.text s hs
    exact ⟨part, hpart, hne, heq, fun hoff => absurd hoff.symm Bool.false_ne_true⟩

theorem tracks_default : Tracks none [] Metadata.default :=
  { holds_nil rfl rfl rfl with pi := rfl, idle := fun _ => rfl }

/-! ## Section 9: Runs -/

/-- **After any events** the metadata stand for the segments since the last
    change. -/
theorem tracks_run (events : List MetadataEvent) :
    Tracks ((received events).getLast?.map Group.a) (segmentsSince (received events))
      (Metadata.run events) := by
  induction events using List.reverseRecOn with
  | nil => exact tracks_default
  | append_singleton events event ih =>
    have hrun : Metadata.run (events ++ [event]) = (Metadata.run events).step event := by
      unfold Metadata.run
      rw [List.foldl_append]
      rfl
    unfold received at ih ⊢
    rw [hrun, List.foldl_append, List.foldl_cons, List.foldl_nil]
    cases event with
    | accept g =>
      dsimp only
      rw [List.getLast?_concat, segmentsSince_append]
      exact ih.accept g
    | setIncremental incremental => exact ih.setIncremental incremental
    | setRegion region =>
      exact { ih.toHolds.congr rfl rfl rfl rfl rfl rfl with pi := ih.pi, idle := ih.idle }
    | addErrors errors =>
      exact { ih.toHolds.congr rfl rfl rfl rfl rfl rfl with pi := ih.pi, idle := ih.idle }
    | reset =>
      have hreset := tracks_default.setIncremental (Metadata.run events).incremental
      exact { hreset.toHolds.congr rfl rfl rfl rfl rfl rfl with
        pi := hreset.pi, idle := hreset.idle }

end Steps

/-- **The radio text**, after any events. Let the segments be those since the
    last change of the programme, of the A/B flag or of the version.

    Without the incremental display, a text that they carry is shown, without
    its trailing blanks, when all of its segments are there, and nothing is
    shown before.

    What is shown has always been read off those segments, in the order in
    which they came. Switching the incremental display off hides it unless the
    segments are complete, and what remains is all that they show. -/
theorem radio_text_spec (events : List MetadataEvent) :
    let segments := segmentsSince (received events)
    let m := Metadata.run events
    (∀ versionB bytes, IsText versionB bytes → (∀ g ∈ segments, g.Carries versionB bytes) →
      m.incremental = false →
        ((∀ k < segmentsOf versionB bytes, Arrived segments k) →
          m.snapshot.radioText = some (text bytes)) ∧
        (¬ (∀ k < segmentsOf versionB bytes, Arrived segments k) →
          m.snapshot.radioText = none)) ∧
    (∀ s, m.snapshot.radioText = some s → ∃ part, part <+: segments ∧ part ≠ [] ∧
      s = shown m.rtVersionB part ∧ (m.incremental = false → Complete m.rtVersionB part)) ∧
    (Complete m.rtVersionB segments →
      m.snapshot.radioText = some (shown m.rtVersionB segments) ∧
      (m.setIncremental false).snapshot.radioText = m.snapshot.radioText) ∧
    (¬ Complete m.rtVersionB segments →
      (m.setIncremental false).snapshot.radioText = none) := by
  intro segments m
  have htracks : Tracks _ segments m := tracks_run events
  obtain ⟨-, hkept, hhidden⟩ := htracks.hide
  refine ⟨?_, htracks.text, fun hcomplete => ⟨htracks.whole hcomplete, hkept hcomplete⟩, hhidden⟩
  intro versionB bytes htext hcarries hoff
  constructor
  · intro hall
    obtain ⟨hcomplete, hshown⟩ := complete_of_arrived htext hcarries hall
    have hne : segments ≠ [] := fun hnone => not_complete_nil _ (hnone ▸ hcomplete)
    have hversion := htracks.version hne fun g hg => (hcarries g hg).1
    rw [← hversion] at hcomplete hshown
    rw [htracks.whole hcomplete, hshown]
  · intro hmissing
    -- what is shown would be complete, and more segments only keep it so
    by_contra hshows
    obtain ⟨s, hs⟩ := Option.ne_none_iff_exists'.1 hshows
    obtain ⟨part, hpart, hne, -, hcomplete⟩ := htracks.text s hs
    have hmem : ∀ g ∈ part, g ∈ segments := fun g hg => hpart.subset hg
    have hversion := htracks.version (fun hnone => hne (List.prefix_nil.1 (hnone ▸ hpart)))
      fun g hg => (hcarries g hg).1
    rw [hversion] at hcomplete
    refine hmissing fun k hk => ?_
    obtain ⟨g, hg, hsegment⟩ := arrived_of_complete htext
      (fun g hg => hcarries g (hmem g hg)) (hcomplete hoff) k hk
    exact ⟨g, hmem g hg, hsegment⟩

/-- One segment with the text `A` and a blank, and its end. -/
def blankAtEnd : List MetadataEvent :=
  [.setIncremental false, .accept ⟨0x1234, 0x2000, 0x4120, 0x0D20⟩]

/-- The blank is not shown. -/
theorem blank_not_shown : ∃ bytes, IsText false bytes ∧
    (∀ g ∈ segmentsSince (received blankAtEnd), g.Carries false bytes) ∧
    (∀ k < segmentsOf false bytes, Arrived (segmentsSince (received blankAtEnd)) k) ∧
    (Metadata.run blankAtEnd).incremental = false ∧
    (Metadata.run blankAtEnd).snapshot.radioText ≠ some (String.ofList (bytes.map glyph)) := by
  have hsegments : segmentsSince (received blankAtEnd) = [⟨0x1234, 0x2000, 0x4120, 0x0D20⟩] := by
    decide
  rw [hsegments]
  refine ⟨[0x41, 0x20], ⟨by decide, by decide⟩, ?_, ?_, by decide, by decide⟩
  · intro g hg
    rw [List.mem_singleton.1 hg]
    refine ⟨by decide, fun j hj => ?_⟩
    -- two bytes of the text, its end, and one byte more
    obtain h0 | h1 | h2 | h3 : j = 0 ∨ j = 1 ∨ j = 2 ∨ j = 3 := by
      have hwidth : width false = 4 := rfl
      omega
    · rw [h0]
      exact ⟨fun b hb => hb, by decide⟩
    · rw [h1]
      exact ⟨fun b hb => hb, by decide⟩
    · rw [h2]
      exact ⟨fun b hb => absurd hb.symm (Option.some_ne_none b), by decide⟩
    · rw [h3]
      exact ⟨fun b hb => absurd hb.symm (Option.some_ne_none b), by decide⟩
  · intro k hk
    have hone : segmentsOf false [0x41, 0x20] = 1 := by decide
    refine ⟨_, List.mem_singleton_self _, ?_⟩
    rw [hone] at hk
    rw [Nat.lt_one_iff.1 hk]
    decide

end Rds
