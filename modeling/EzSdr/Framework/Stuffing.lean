import Mathlib

/-! # Frames with a Stuffed Marker

    A frame is a marker and a payload in which every marker symbol is doubled.
    The first symbol of a payload, which is no marker, tells its length. A
    reader goes through a stream symbol by symbol.

    * **`read_frames`**: the reader recovers the payloads of a stream of frames.
    * **`read_sound`**: what the reader accepts is a stream of frames.
    * **`start_iff`**: where a frame starts can be seen from the symbols around
      that place: an even number of markers before it, a single one after it. -/

namespace Stuffing

variable {α : Type*} [DecidableEq α] (mark : α)

/-! ## Frames -/

/-- Double every marker. -/
def stuff (payload : List α) : List α :=
  payload.flatMap fun a => if a = mark then [mark, mark] else [a]

def frame (payload : List α) : List α := mark :: stuff mark payload

/-- A stream of frames. -/
def frames (payloads : List (List α)) : List α := payloads.flatMap (frame mark)

theorem stuff_append (a b : List α) : stuff mark (a ++ b) = stuff mark a ++ stuff mark b :=
  List.flatMap_append

theorem frames_append (a b : List (List α)) :
    frames mark (a ++ b) = frames mark a ++ frames mark b :=
  List.flatMap_append

/-- The length of a payload, marker not counted, is told by its first symbol. -/
def WellFormed (size : α → Option ℕ) (payload : List α) : Prop :=
  ∃ first rest, payload = first :: rest ∧ size first = some payload.length

/-- Symbols that tell a length: no marker does, and no length is that of the symbol alone. -/
structure Sizes (size : α → Option ℕ) : Prop where
  mark : size mark = none
  more : ∀ a n, size a = some n → 1 < n

/-! ## The reader -/

/-- Where in a frame the reader is, with the payloads that are complete. -/
inductive Reader (α : Type*) where
  | between (done : List (List α))
  | opened (done : List (List α))
  | payload (done : List (List α)) (got : List α) (size : ℕ)
  /-- A marker within the payload: another one has to follow. -/
  | escape (done : List (List α)) (got : List α) (size : ℕ)
  | invalid

namespace Reader

/-- One more symbol of the payload. -/
def collect (done : List (List α)) (got : List α) (size : ℕ) : Reader α :=
  if got.length = size then between (done ++ [got]) else payload done got size

/-- One symbol. -/
def step (size : α → Option ℕ) (r : Reader α) (a : α) : Reader α :=
  match r with
  | between done => if a = mark then opened done else invalid
  | opened done =>
    match size a with
    | some n => payload done [a] n
    | none => invalid
  | payload done got n => if a = mark then escape done got n else collect done (got ++ [a]) n
  | escape done got n => if a = mark then collect done (got ++ [a]) n else invalid
  | invalid => invalid

end Reader

/-- Read a stream from its start. -/
def read (size : α → Option ℕ) (r : Reader α) (stream : List α) : Reader α :=
  stream.foldl (Reader.step mark size) r

section

variable {mark} {size : α → Option ℕ}

theorem read_append (r : Reader α) (a b : List α) :
    read mark size r (a ++ b) = read mark size (read mark size r a) b :=
  List.foldl_append

theorem read_concat (r : Reader α) (a : List α) (x : α) :
    read mark size r (a ++ [x]) = (read mark size r a).step mark size x :=
  List.foldl_concat ..

theorem read_invalid (stream : List α) : read mark size .invalid stream = .invalid := by
  induction stream with
  | nil => rfl
  | cons a stream ih => exact ih

/-! ## Reading frames -/

/-- A payload symbol, stuffed. -/
theorem read_symbol (done : List (List α)) (got : List α) (n : ℕ) (a : α) :
    read mark size (.payload done got n) (if a = mark then [mark, mark] else [a]) =
      .collect done (got ++ [a]) n := by
  by_cases ha : a = mark
  · subst ha
    simp [read, Reader.step]
  · simp [read, Reader.step, ha]

/-- The rest of a payload. -/
theorem read_stuff (done : List (List α)) {got rest : List α} {n : ℕ} (hrest : rest ≠ [])
    (hlength : got.length + rest.length = n) :
    read mark size (.payload done got n) (stuff mark rest) = .between (done ++ [got ++ rest]) := by
  induction rest generalizing got with
  | nil => exact absurd rfl hrest
  | cons a rest ih =>
    rw [List.length_cons] at hlength
    show read mark size _ ((if a = mark then [mark, mark] else [a]) ++ stuff mark rest) = _
    rw [read_append, read_symbol, Reader.collect, List.length_append, List.length_singleton]
    by_cases hlast : rest = []
    · subst hlast
      rw [if_pos (by simpa using hlength)]
      rfl
    · have hpos := List.length_pos_of_ne_nil hlast
      rw [if_neg (by omega), ih hlast (by rw [List.length_append, List.length_singleton]; omega),
        List.append_assoc]
      rfl

/-- One frame. -/
theorem read_frame (hsizes : Sizes mark size) (done : List (List α)) {payload : List α}
    (h : WellFormed size payload) :
    read mark size (.between done) (frame mark payload) = .between (done ++ [payload]) := by
  obtain ⟨first, rest, rfl, hsize⟩ := h
  have hfirst : first ≠ mark := by
    intro heq
    rw [heq, hsizes.mark] at hsize
    cases hsize
  have hmore := hsizes.more first _ hsize
  rw [List.length_cons] at hmore hsize
  have hopen : read mark size (.between done) [mark, first] =
      .payload done [first] (rest.length + 1) := by
    simp [read, Reader.step, hsize]
  have hstuff : frame mark (first :: rest) = [mark, first] ++ stuff mark rest := by
    simp [frame, stuff, hfirst]
  rw [hstuff, read_append, hopen, read_stuff done (List.length_pos_iff.1 (by omega)) (by
    rw [List.length_singleton]; omega)]
  rfl

/-- **The reader recovers the payloads** of a stream of frames. -/
theorem read_frames (hsizes : Sizes mark size) (done : List (List α)) {payloads : List (List α)}
    (h : ∀ payload ∈ payloads, WellFormed size payload) :
    read mark size (.between done) (frames mark payloads) = .between (done ++ payloads) := by
  induction payloads generalizing done with
  | nil => simp [frames, read]
  | cons payload payloads ih =>
    rw [show frames mark (payload :: payloads) = frame mark payload ++ frames mark payloads from
      List.flatMap_cons, read_append, read_frame hsizes done (h payload List.mem_cons_self),
      ih _ fun p hp => h p (List.mem_cons_of_mem _ hp), List.append_assoc]
    rfl

/-! ## What has been read -/

/-- The number of markers at the end of a list. -/
def trailing (mark : α) (stream : List α) : ℕ := (stream.reverse.takeWhile (· = mark)).length

theorem trailing_mark (stream : List α) :
    trailing mark (stream ++ [mark]) = trailing mark stream + 1 := by
  simp [trailing]

theorem trailing_other (stream : List α) {a : α} (h : a ≠ mark) :
    trailing mark (stream ++ [a]) = 0 := by
  simp [trailing, h]

/-- The stream that leads to a state of the reader, and how many markers it ends with. -/
def Reader.Read (mark : α) (size : α → Option ℕ) (stream : List α) : Reader α → Prop
  | between done => stream = frames mark done ∧ (∀ p ∈ done, WellFormed size p) ∧
      Even (trailing mark stream)
  | opened done => stream = frames mark done ++ [mark] ∧ (∀ p ∈ done, WellFormed size p) ∧
      Odd (trailing mark stream)
  | payload done got n => stream = frames mark done ++ frame mark got ∧
      (∀ p ∈ done, WellFormed size p) ∧
      (∃ first rest, got = first :: rest ∧ size first = some n) ∧ Even (trailing mark stream)
  | escape done got n => stream = frames mark done ++ frame mark got ++ [mark] ∧
      (∀ p ∈ done, WellFormed size p) ∧
      (∃ first rest, got = first :: rest ∧ size first = some n) ∧ Odd (trailing mark stream)
  | invalid => True

/-- One more payload symbol, whichever way it was written. -/
theorem Reader.Read.collect {stream : List α} {done : List (List α)} {got : List α} {n : ℕ}
    {first : α} {rest : List α} (hstream : stream = frames mark done ++ frame mark got)
    (hdone : ∀ p ∈ done, WellFormed size p) (hgot : got = first :: rest)
    (hsize : size first = some n) (heven : Even (trailing mark stream)) :
    (Reader.collect done got n).Read mark size stream := by
  unfold Reader.collect
  by_cases hlength : got.length = n
  · rw [if_pos hlength]
    refine ⟨?_, fun p hp => ?_, heven⟩
    · rw [frames_append, hstream]
      simp [frames]
    · obtain hold | hlast := List.mem_append.1 hp
      · exact hdone p hold
      · obtain rfl := List.mem_singleton.1 hlast
        exact ⟨first, rest, hgot, by rw [hsize, hlength]⟩
  · rw [if_neg hlength]
    exact ⟨hstream, hdone, ⟨first, rest, hgot, hsize⟩, heven⟩

/-- One symbol. -/
theorem Reader.Read.step (hsizes : Sizes mark size) {stream : List α} {r : Reader α}
    (h : r.Read mark size stream) (a : α) : (r.step mark size a).Read mark size (stream ++ [a]) := by
  have hframe (got : List α) : frame mark (got ++ [a]) =
      frame mark got ++ (if a = mark then [mark, mark] else [a]) := by
    unfold frame
    rw [stuff_append, List.cons_append]
    simp [stuff]
  cases r with
  -- only a mark may follow a whole frame
  | between done =>
    obtain ⟨rfl, hdone, heven⟩ := h
    unfold Reader.step
    by_cases ha : a = mark
    · subst ha
      simp only [if_true]
      refine ⟨rfl, hdone, ?_⟩
      rw [trailing_mark]
      exact heven.add_one
    · simp only [if_neg ha]
      trivial
  | opened done =>
    obtain ⟨rfl, hdone, hodd⟩ := h
    unfold Reader.step
    cases hsize : size a with
    | none => trivial
    | some n =>
      have ha : a ≠ mark := by
        intro heq
        rw [heq, hsizes.mark] at hsize
        cases hsize
      refine ⟨?_, hdone, ⟨a, [], rfl, hsize⟩, ?_⟩
      · simp [frame, stuff, ha]
      · rw [trailing_other _ ha]
        exact Even.zero
  | payload done got n =>
    obtain ⟨rfl, hdone, ⟨first, rest, hgot, hsize⟩, heven⟩ := h
    unfold Reader.step
    by_cases ha : a = mark
    · subst ha
      simp only [if_true]
      refine ⟨rfl, hdone, ⟨first, rest, hgot, hsize⟩, ?_⟩
      rw [trailing_mark]
      exact heven.add_one
    · simp only [if_neg ha]
      have hgrown : got ++ [a] = first :: (rest ++ [a]) := by rw [hgot, List.cons_append]
      refine Reader.Read.collect ?_ hdone hgrown hsize ?_
      · rw [hframe, if_neg ha, List.append_assoc]
      · rw [trailing_other _ ha]
        exact Even.zero
  -- a mark inside a frame stands for itself if it comes twice
  | escape done got n =>
    obtain ⟨rfl, hdone, ⟨first, rest, hgot, hsize⟩, hodd⟩ := h
    unfold Reader.step
    by_cases ha : a = mark
    · subst ha
      simp only [if_true]
      have hgrown : got ++ [a] = first :: (rest ++ [a]) := by rw [hgot, List.cons_append]
      refine Reader.Read.collect ?_ hdone hgrown hsize ?_
      · rw [hframe, if_pos rfl]
        simp
      · rw [trailing_mark]
        exact hodd.add_one
    · simp only [if_neg ha]
      trivial
  | invalid => trivial

/-- **What the reader accepts is a stream of frames**, and it knows where in it it is. -/
theorem read_sound (hsizes : Sizes mark size) (stream : List α) :
    (read mark size (.between []) stream).Read mark size stream := by
  induction stream using List.reverseRecOn with
  | nil => exact ⟨rfl, by simp, Even.zero⟩
  | append_singleton stream a ih =>
    rw [read_concat]
    exact ih.step hsizes a

/-- Complete payloads stay. -/
def Reader.Extends (front : List (List α)) : Reader α → Prop
  | between done => front <+: done
  | opened done => front <+: done
  | payload done _ _ => front <+: done
  | escape done _ _ => front <+: done
  | invalid => True

theorem Reader.Extends.step {front : List (List α)} {r : Reader α} (h : r.Extends front) (a : α) :
    (r.step mark size a).Extends front := by
  have hcollect (done : List (List α)) (got : List α) (n : ℕ) (hd : front <+: done) :
      (Reader.collect done got n).Extends front := by
    unfold Reader.collect
    split
    · exact hd.trans (List.prefix_append _ _)
    · exact hd
  cases r with
  | between done =>
    unfold Reader.step
    dsimp only
    split
    · exact h
    · trivial
  | opened done =>
    unfold Reader.step
    dsimp only
    split
    · exact h
    · trivial
  | payload done got n =>
    unfold Reader.step
    dsimp only
    split
    · exact h
    · exact hcollect _ _ _ h
  | escape done got n =>
    unfold Reader.step
    dsimp only
    split
    · exact hcollect _ _ _ h
    · trivial
  | invalid => trivial

theorem extends_read (mark : α) (size : α → Option ℕ) {front : List (List α)} {r : Reader α}
    (h : r.Extends front) (stream : List α) : (read mark size r stream).Extends front := by
  induction stream generalizing r with
  | nil => exact h
  | cons a stream ih => exact ih (h.step a)

/-! ## Where frames start -/

/-- A place that looks like the start of a frame: a marker follows that is not doubled, and the
    markers before it pair up. -/
def LooksLikeStart (mark : α) (before after : List α) : Prop :=
  Even (trailing mark before) ∧ ∃ a rest, after = mark :: a :: rest ∧ a ≠ mark

/-- **Only frames look like the start of a frame.** -/
theorem start_iff (hsizes : Sizes mark size) {payloads : List (List α)}
    (h : ∀ payload ∈ payloads, WellFormed size payload) {before after : List α}
    (hstream : frames mark payloads = before ++ after) :
    LooksLikeStart mark before after ↔
      ∃ first rest, payloads = first ++ rest ∧ rest ≠ [] ∧ before = frames mark first ∧
        after = frames mark rest := by
  constructor
  · intro hlooks
    obtain ⟨heven, a, rest, rfl, ha⟩ := hlooks
    have hread := read_sound hsizes before
    have hwhole := read_frames hsizes [] h
    rw [hstream, read_append] at hwhole
    -- from any state within a frame the two symbols after this place are refused
    cases hr : read mark size (.between []) before with
    | between done =>
      rw [hr] at hread hwhole
      obtain ⟨hbefore, hdone, -⟩ := hread
      have hfront : (Reader.between done).Extends done := List.prefix_refl done
      have hlater := extends_read mark size hfront (mark :: a :: rest)
      rw [hwhole] at hlater
      obtain ⟨more, hmore⟩ : done <+: payloads := hlater
      rw [← hmore, frames_append, hbefore] at hstream
      have hafter := List.append_cancel_left hstream
      refine ⟨done, more, hmore.symm, ?_, hbefore, hafter.symm⟩
      intro hnil
      rw [hnil] at hafter
      cases hafter
    | opened done =>
      rw [hr] at hread
      exact absurd heven (Nat.not_even_iff_odd.2 hread.2.2)
    | payload done got n =>
      rw [hr] at hwhole
      have hbad : read mark size (.payload done got n) (mark :: a :: rest) = .invalid := by
        show read mark size (Reader.step mark size (Reader.step mark size _ mark) a) rest = _
        simp only [Reader.step, if_true, if_neg ha]
        exact read_invalid rest
      rw [hbad] at hwhole
      cases hwhole
    | escape done got n =>
      rw [hr] at hread
      exact absurd heven (Nat.not_even_iff_odd.2 hread.2.2.2)
    | invalid =>
      rw [hr, read_invalid] at hwhole
      cases hwhole
  · intro hstart
    obtain ⟨first, rest, rfl, hrest, rfl, rfl⟩ := hstart
    have hread := read_sound hsizes (frames mark first)
    rw [read_frames hsizes [] fun p hp => h p (List.mem_append_left _ hp)] at hread
    refine ⟨hread.2.2, ?_⟩
    cases rest with
    | nil => exact absurd rfl hrest
    | cons p rest =>
      obtain ⟨a, tail, rfl, hsize⟩ := h p (List.mem_append_right _ List.mem_cons_self)
      have ha : a ≠ mark := by
        intro heq
        rw [heq, hsizes.mark] at hsize
        cases hsize
      refine ⟨a, stuff mark tail ++ frames mark rest, ?_, ha⟩
      simp [frames, frame, stuff, ha]

end

end Stuffing
