import EzSdr.Framework.Machine
import EzSdr.Framework.Runs

/-! # The Control Queue of the Client

    Control events wait here until the user interface takes them. A recording
    status replaces the one before it of its channel while the phase of the
    recording is the same, and a hardware status replaces the one before it.

    **`control_queue_spec`**: what was taken out together with what still waits
    is what was pushed, but for the statuses that a later one replaced. -/

namespace Client

/-! ## Section 1: The queue -/

structure RecordingStatus where
  stopReason   : Option String
  channelId    : ℕ
  active       : Bool
  path         : Option String
  bytesWritten : ℕ
  /-- A 64-bit float pattern. -/
  durationSec  : BitVec 64
  deriving DecidableEq

/-- What tells one phase of a recording from the next. -/
def RecordingStatus.phase (status : RecordingStatus) : Bool × Option String :=
  (status.active, status.path)

/-- Server events. The queue treats all others alike. -/
inductive ServerEvent (η ω : Type) where
  | recording (status : RecordingStatus)
  | hardware (status : η)
  | other (event : ω)
  deriving DecidableEq

variable {η ω : Type}

namespace ServerEvent

def recording? : ServerEvent η ω → Option RecordingStatus
  | .recording status => some status
  | _ => none

def hardware? : ServerEvent η ω → Option η
  | .hardware status => some status
  | _ => none

def other? : ServerEvent η ω → Option ω
  | .other event => some event
  | _ => none

/-- The status of a recording of this channel. -/
def recordingOf? (channel : ℕ) (event : ServerEvent η ω) : Option RecordingStatus :=
  event.recording?.filter (·.channelId = channel)

end ServerEvent

/-- `Iterator::rposition`. -/
def rposition {α : Type} (p : α → Bool) : List α → Option ℕ
  | [] => none
  | a :: l =>
    match rposition p l with
    | some i => some (i + 1)
    | none => if p a then some 0 else none

structure ControlQueue (η ω : Type) where
  events : List (ServerEvent η ω)

namespace ControlQueue

def default : ControlQueue η ω := ⟨[]⟩

/-- The last status of the channel is removed if it is of the same phase. -/
def coalesce (q : ControlQueue η ω) (next : RecordingStatus) : ControlQueue η ω :=
  match rposition (fun previous => (previous.recordingOf? next.channelId).isSome) q.events with
  | none => q
  | some index =>
    if (q.events[index]?.bind ServerEvent.recording?).map RecordingStatus.phase =
        some next.phase then
      ⟨q.events.eraseIdx index⟩
    else q

/-- The queue, and whether it took the event. -/
def push (q : ControlQueue η ω) (event : ServerEvent η ω) : ControlQueue η ω × Bool :=
  let q := match event with
    | .recording next => q.coalesce next
    | _ => q
  let q := ControlQueue.mk (q.events.filter fun previous =>
    !(event.hardware?.isSome && previous.hardware?.isSome))
  if q.events.length ≥ 64 then (q, false) else (⟨q.events ++ [event]⟩, true)

def popFront (q : ControlQueue η ω) : ControlQueue η ω × Option (ServerEvent η ω) :=
  (⟨q.events.tail⟩, q.events.head?)

end ControlQueue

inductive Input (η ω : Type) where
  | push (event : ServerEvent η ω)
  | pop

inductive Output (η ω : Type) where
  | pushed (event : ServerEvent η ω)
  | refused (event : ServerEvent η ω)
  | popped (event : Option (ServerEvent η ω))

/-- The connection pushes, the user interface pops. -/
def machine (η ω : Type) : Machine (ControlQueue η ω) (Input η ω) (Output η ω) where
  init := .default
  step := fun q input => match input with
    | .push event =>
      let (q, taken) := q.push event
      some (q, if taken then .pushed event else .refused event)
    | .pop =>
      let (q, event) := q.popFront
      some (q, .popped event)

abbrev Event (η ω : Type) : Type :=
  Machine.Event (ControlQueue η ω) (Input η ω) (Output η ω)

/-! ## Section 2: Histories -/

/-- Events that the queue took. -/
def pushed (h : List (Event η ω)) : List (ServerEvent η ω) :=
  h.filterMap fun e => match e.output with
    | .pushed event => some event
    | _ => none

def delivered (h : List (Event η ω)) : List (ServerEvent η ω) :=
  h.filterMap fun e => match e.output with
    | .popped event => event
    | _ => none

/-- How the events that are left represent the ones that were pushed. -/
structure Represents (left all : List (ServerEvent η ω)) : Prop where
  /-- No other event is lost, repeated or moved. -/
  others   : left.filterMap ServerEvent.other? = all.filterMap ServerEvent.other?
  /-- Every phase of a recording is represented by its latest status. -/
  phases   : ∀ channel,
    (left.filterMap (ServerEvent.recordingOf? channel)).latest RecordingStatus.phase =
      (all.filterMap (ServerEvent.recordingOf? channel)).latest RecordingStatus.phase
  /-- No hardware status is moved, -/
  hardware : (left.filterMap ServerEvent.hardware?).Sublist (all.filterMap ServerEvent.hardware?)
  /-- and the last one stays. -/
  last     : (left.filterMap ServerEvent.hardware?).getLast? =
    (all.filterMap ServerEvent.hardware?).getLast?

/-- What is left of the queue before the event goes to its end. -/
inductive Replaced (event : ServerEvent η ω) :
    List (ServerEvent η ω) → List (ServerEvent η ω) → Prop
  | nothing (events) : Replaced event events events
  | hardware (events) (h : event.hardware?.isSome = true) :
    Replaced event events (events.filter (·.hardware?.isNone))
  /-- The last status of the channel is of the same phase. -/
  | recording (front back) {next previous : RecordingStatus} (hevent : event = .recording next)
      (hchannel : previous.channelId = next.channelId) (hphase : previous.phase = next.phase)
      (hlast : ∀ b ∈ back, b.recordingOf? next.channelId = none) :
    Replaced event (front ++ .recording previous :: back) (front ++ back)

/-- The law of one step. -/
structure Lawful (e : Event η ω) : Prop where
  /-- An event goes to the end, and may take the place of an earlier one. It is refused only when
      64 events wait that it can take no place of. -/
  push : ∀ event, e.input = .push event →
    (e.output = .pushed event ∧
      ∃ left, Replaced event e.before.events left ∧ e.after.events = left ++ [event]) ∨
    (e.output = .refused event ∧ e.after = e.before ∧
      ∀ left, Replaced event e.before.events left → left.length = 64)
  /-- The oldest event is delivered. -/
  pop  : e.input = .pop →
    e.output = .popped e.before.events.head? ∧ e.after.events = e.before.events.tail

/-! ## Section 3: What a push does -/

theorem rposition_eq_some {α : Type} {p : α → Bool} {l : List α} {i : ℕ}
    (h : rposition p l = some i) :
    ∃ front a back, l = front ++ a :: back ∧ front.length = i ∧ p a = true ∧
      ∀ b ∈ back, p b = false := by
  have hnone : ∀ l : List α, rposition p l = none → ∀ b ∈ l, p b = false := by
    intro l
    induction l with
    | nil =>
      intro _ b hb
      cases hb
    | cons a l ih =>
      intro hnone b hb
      unfold rposition at hnone
      split at hnone
      · cases hnone
      · next hrest =>
        split at hnone
        · cases hnone
        · next ha =>
          obtain rfl | hb := List.mem_cons.1 hb
          · exact Bool.eq_false_iff.2 ha
          · exact ih hrest b hb
  induction l generalizing i with
  | nil => cases h
  | cons a l ih =>
    unfold rposition at h
    split at h
    · next j hj =>
      obtain ⟨front, b, back, rfl, rfl, hb, hback⟩ := ih hj
      exact ⟨a :: front, b, back, rfl, Option.some.inj h, hb, hback⟩
    · next hrest =>
      split at h
      · next ha => exact ⟨[], a, l, rfl, Option.some.inj h, ha, hnone l hrest⟩
      · cases h

theorem rposition_append {α : Type} {p : α → Bool} (front : List α) {a : α} {back : List α}
    (ha : p a = true) (hback : ∀ b ∈ back, p b = false) :
    rposition p (front ++ a :: back) = some front.length := by
  have hnone : rposition p back = none := by
    cases h : rposition p back with
    | none => rfl
    | some i =>
      obtain ⟨front, b, later, rfl, -, hb, -⟩ := rposition_eq_some h
      have hnot := hback b (by simp)
      rw [hb] at hnot
      cases hnot
  induction front with
  | nil =>
    rw [List.nil_append, rposition, hnone]
    exact if_pos ha
  | cons x front ih => rw [List.cons_append, rposition, ih, List.length_cons]

@[simp] theorem recordingOf?_recording (channel : ℕ) (status : RecordingStatus) :
    (ServerEvent.recording status : ServerEvent η ω).recordingOf? channel =
      if status.channelId = channel then some status else none := by
  simp [ServerEvent.recordingOf?, ServerEvent.recording?, Option.filter]

theorem Replaced.length_le {event : ServerEvent η ω} {events left : List (ServerEvent η ω)}
    (h : Replaced event events left) : left.length ≤ events.length := by
  cases h with
  | nothing => exact le_rfl
  | hardware => exact List.length_filter_le _ _
  | recording => simp

namespace ControlQueue

theorem coalesce_replaced (q : ControlQueue η ω) (next : RecordingStatus) :
    Replaced (.recording next) q.events (q.coalesce next).events := by
  unfold coalesce
  split
  · exact .nothing _
  · next index hindex =>
    split
    · next hphase =>
      obtain ⟨front, a, back, hevents, hlength, ha, hback⟩ := rposition_eq_some hindex
      have hget : q.events[index]? = some a := by
        rw [hevents, ← hlength, List.getElem?_append_right le_rfl, Nat.sub_self]
        rfl
      rw [hget] at hphase
      cases a with
      | hardware => cases ha
      | other => cases ha
      | recording previous =>
        have hchannel : previous.channelId = next.channelId := by
          by_contra hne
          rw [recordingOf?_recording, if_neg hne] at ha
          cases ha
        show Replaced _ q.events (q.events.eraseIdx index)
        rw [hevents, ← hlength, List.eraseIdx_append_of_length_le le_rfl, Nat.sub_self]
        exact .recording front back rfl hchannel (Option.some.inj hphase) fun b hb =>
          Option.not_isSome_iff_eq_none.1 (Bool.eq_false_iff.1 (hback b hb))
    · exact .nothing _

/-- The last status of the channel goes, if the phase is the same. -/
theorem coalesce_last (front : List (ServerEvent η ω)) {back : List (ServerEvent η ω)}
    {next previous : RecordingStatus} (hchannel : previous.channelId = next.channelId)
    (hphase : previous.phase = next.phase)
    (hlast : ∀ b ∈ back, b.recordingOf? next.channelId = none) :
    (coalesce ⟨front ++ .recording previous :: back⟩ next).events = front ++ back := by
  have hindex : rposition
      (fun e : ServerEvent η ω => (e.recordingOf? next.channelId).isSome)
      (front ++ .recording previous :: back) = some front.length := by
    apply rposition_append
    · rw [recordingOf?_recording, if_pos hchannel]
      rfl
    · intro b hb
      rw [hlast b hb]
      rfl
  have hget : (front ++ ServerEvent.recording previous :: back)[front.length]? =
      some (.recording previous) := by
    rw [List.getElem?_append_right le_rfl, Nat.sub_self]
    rfl
  unfold coalesce
  rw [hindex]
  dsimp only
  have hsame : ((some (ServerEvent.recording previous : ServerEvent η ω)).bind
      ServerEvent.recording?).map RecordingStatus.phase = some next.phase := congrArg some hphase
  rw [hget, if_pos hsame, List.eraseIdx_append_of_length_le le_rfl, Nat.sub_self]
  rfl

/-- What is left when a push looks for room. -/
def cleared (q : ControlQueue η ω) (event : ServerEvent η ω) : List (ServerEvent η ω) :=
  match event with
  | .recording next => (q.coalesce next).events
  | .hardware _ => q.events.filter (·.hardware?.isNone)
  | .other _ => q.events

theorem push_eq (q : ControlQueue η ω) (event : ServerEvent η ω) :
    q.push event = if (q.cleared event).length ≥ 64 then (⟨q.cleared event⟩, false)
      else (⟨q.cleared event ++ [event]⟩, true) := by
  cases event with
  | recording next => simp [push, cleared, ServerEvent.hardware?]
  | hardware status => simp [push, cleared, ServerEvent.hardware?]
  | other event => simp [push, cleared, ServerEvent.hardware?]

theorem cleared_replaced (q : ControlQueue η ω) (event : ServerEvent η ω) :
    Replaced event q.events (q.cleared event) := by
  cases event with
  | recording next => exact q.coalesce_replaced next
  | hardware status => exact .hardware q.events rfl
  | other event => exact .nothing q.events

/-- Nothing else could be cleared. -/
theorem length_cleared_le {q : ControlQueue η ω} {event : ServerEvent η ω}
    {left : List (ServerEvent η ω)} (h : Replaced event q.events left) :
    (q.cleared event).length ≤ left.length := by
  obtain ⟨events⟩ := q
  cases h with
  | nothing => exact (cleared_replaced ⟨events⟩ event).length_le
  | hardware _ hevent =>
    cases event with
    | hardware status => exact le_rfl
    | recording => cases hevent
    | other => cases hevent
  | recording front back hevent hchannel hphase hlast =>
    subst hevent
    exact (congrArg List.length (coalesce_last front hchannel hphase hlast)).le

/-- **What a push does**: a full queue refuses and stays as it is; otherwise the
    event goes to the end, and may take the place of an earlier one. -/
theorem push_cases (q : ControlQueue η ω) (event : ServerEvent η ω) (hle : q.events.length ≤ 64) :
    (q.push event = (q, false) ∧ ∀ left, Replaced event q.events left → left.length = 64) ∨
      ∃ left, Replaced event q.events left ∧ left.length < 64 ∧
        q.push event = (⟨left ++ [event]⟩, true) := by
  have hleft := q.cleared_replaced event
  have hpush := q.push_eq event
  by_cases hfull : (q.cleared event).length ≥ 64
  · rw [if_pos hfull] at hpush
    refine .inl ⟨?_, fun left h => ?_⟩
    -- a replacement would have made room
    · have hsame : q.cleared event = q.events := by
        generalize q.cleared event = left, q.events = events at hleft hle hfull
        cases hleft with
        | nothing => rfl
        | hardware => exact List.filter_sublist.eq_of_length_le (hle.trans hfull)
        | recording front back =>
          simp only [List.length_append, List.length_cons] at hle hfull
          omega
      rw [hpush, hsame]
    · have hle' := h.length_le
      have hleast := length_cleared_le h
      omega
  · rw [if_neg hfull] at hpush
    exact .inr ⟨_, hleft, not_le.1 hfull, hpush⟩

end ControlQueue

/-! ## Section 4: What the events left represent -/

/-- **One more event** is represented, and so is what it replaced. -/
theorem Represents.push {gone events left all : List (ServerEvent η ω)} {event : ServerEvent η ω}
    (h : Represents (gone ++ events) all) (hleft : Replaced event events left) :
    Represents (gone ++ (left ++ [event])) (all ++ [event]) := by
  obtain ⟨hothers, hphases, hhardware, hlast⟩ := h
  cases hleft with
  | nothing =>
    rw [← List.append_assoc]
    generalize gone ++ events = old at hothers hphases hhardware hlast
    refine ⟨?_, fun channel => ?_, ?_, ?_⟩
    · rw [List.filterMap_append, List.filterMap_append, hothers]
    · rw [List.filterMap_append, List.filterMap_append]
      exact List.latest_append (hphases channel) _
    · rw [List.filterMap_append, List.filterMap_append]
      exact hhardware.append (List.Sublist.refl _)
    · rw [List.filterMap_append, List.filterMap_append, List.getLast?_append,
        List.getLast?_append, hlast]
  | hardware _ hevent =>
    obtain ⟨status, hstatus⟩ : ∃ status, event = .hardware status := by
      cases event with
      | hardware status => exact ⟨status, rfl⟩
      | recording => cases hevent
      | other => cases hevent
    -- only hardware statuses are missing
    have hkept {β : Type} (f : ServerEvent η ω → Option β)
        (hf : ∀ status, f (.hardware status) = none) :
        (events.filter (·.hardware?.isNone)).filterMap f = events.filterMap f := by
      rw [List.filterMap_filter]
      refine List.filterMap_congr fun e _ => ?_
      cases e with
      | hardware status => exact (hf status).symm
      | recording => rfl
      | other => rfl
    have hnone : (events.filter (·.hardware?.isNone)).filterMap ServerEvent.hardware? = [] := by
      rw [List.filterMap_filter, List.filterMap_eq_nil_iff]
      intro e _
      cases e with
      | hardware => rfl
      | recording => rfl
      | other => rfl
    subst hstatus
    simp only [List.filterMap_append] at hothers hphases hhardware
    refine ⟨?_, fun channel => ?_, ?_, ?_⟩
    · simp only [List.filterMap_append, hkept ServerEvent.other? fun _ => rfl, ← hothers]
      simp [ServerEvent.other?]
    · simp only [List.filterMap_append, hkept (ServerEvent.recordingOf? channel) fun _ => rfl,
        ← List.append_assoc]
      exact List.latest_append (hphases channel) _
    · simp only [List.filterMap_append, hnone, List.nil_append]
      exact ((List.sublist_append_left _ _).trans hhardware).append (List.Sublist.refl _)
    · simp [ServerEvent.hardware?]
  | @recording front back next previous hevent hchannel hphase hback =>
    subst hevent
    -- nothing else sees the two statuses
    have hold {β : Type} (f : ServerEvent η ω → Option β)
        (hf : ∀ status, f (.recording status) = none) :
        (gone ++ (front ++ .recording previous :: back)).filterMap f =
          (gone ++ (front ++ back ++ [ServerEvent.recording next])).filterMap f := by
      simp only [List.filterMap_append, List.filterMap_cons_none (hf previous),
        List.filterMap_cons_none (hf next), List.filterMap_nil, List.append_nil]
    have hnew {β : Type} (f : ServerEvent η ω → Option β)
        (hf : ∀ status, f (.recording status) = none) :
        (all ++ [ServerEvent.recording next]).filterMap f = all.filterMap f := by
      rw [List.filterMap_append, List.filterMap_cons_none (hf next), List.filterMap_nil,
        List.append_nil]
    rw [hold ServerEvent.other? fun _ => rfl] at hothers
    rw [hold ServerEvent.hardware? fun _ => rfl] at hhardware hlast
    refine ⟨?_, fun channel => ?_, ?_, ?_⟩
    · rw [hothers, hnew ServerEvent.other? fun _ => rfl]
    · simp only [List.filterMap_append] at hphases
      have hold := hphases channel
      simp only [List.filterMap_append, List.filterMap_cons, List.filterMap_nil,
        recordingOf?_recording] at hold ⊢
      by_cases hmine : next.channelId = channel
      · subst hmine
        have hnone : back.filterMap (ServerEvent.recordingOf? next.channelId) = [] :=
          List.filterMap_eq_nil_iff.2 hback
        rw [hnone] at hold ⊢
        rw [hchannel, if_pos rfl] at hold
        rw [if_pos rfl, List.append_nil, ← List.append_assoc,
          ← List.latest_append hold [next], ← List.append_assoc]
        exact (List.latest_replace hphase _).symm
      · rw [hchannel, if_neg hmine] at hold
        rw [if_neg hmine, List.append_nil, List.append_nil]
        exact hold
    · rw [hnew ServerEvent.hardware? fun _ => rfl]
      exact hhardware
    · rw [hnew ServerEvent.hardware? fun _ => rfl]
      exact hlast

/-- What is taken out is not lost. -/
theorem delivered_append (h : List (Event η ω)) (e : Event η ω) :
    delivered (h ++ [e]) = delivered h ++ delivered [e] := List.filterMap_append ..

theorem pushed_append (h : List (Event η ω)) (e : Event η ω) :
    pushed (h ++ [e]) = pushed h ++ pushed [e] := List.filterMap_append ..

theorem lawful_step {q q' : ControlQueue η ω} {i : Input η ω} {o : Output η ω}
    (hle : q.events.length ≤ 64) (hstep : (machine η ω).step q i = some (q', o)) :
    Lawful ⟨q, i, o, q'⟩ := by
  cases i with
  | push event =>
    refine ⟨fun event' hinput => ?_, fun hinput => by cases hinput⟩
    obtain rfl := Input.push.inj hinput
    obtain ⟨hfull, hstuck⟩ | ⟨left, hleft, -, hpush⟩ := q.push_cases event hle
    · obtain ⟨rfl, rfl⟩ : q = q' ∧ Output.refused event = o := by simpa [machine, hfull] using hstep
      exact .inr ⟨rfl, rfl, hstuck⟩
    · obtain ⟨rfl, rfl⟩ : ControlQueue.mk (left ++ [event]) = q' ∧ Output.pushed event = o := by
        simpa [machine, hpush] using hstep
      exact .inl ⟨rfl, left, hleft, rfl⟩
  | pop =>
    refine ⟨fun event hinput => (by cases hinput), fun _ => ?_⟩
    obtain ⟨rfl, rfl⟩ : ControlQueue.mk q.events.tail = q' ∧ Output.popped q.events.head? = o := by
      simpa [machine, ControlQueue.popFront] using hstep
    exact ⟨rfl, rfl⟩

/-- A refused push leaves the queue as it was. -/
theorem Lawful.refused {e : Event η ω} (h : Lawful e) {event : ServerEvent η ω}
    (hrefused : e.output = .refused event) : e.after = e.before := by
  cases hinput : e.input with
  | push event' =>
    obtain ⟨hpushed, -⟩ | ⟨-, hsame, -⟩ := h.push event' hinput
    · rw [hpushed] at hrefused
      cases hrefused
    · exact hsame
  | pop =>
    rw [(h.pop hinput).1] at hrefused
    cases hrefused

/-- A step keeps the bound, and what was pushed stays represented: a push through what it
    replaces, a pop because the event only changes sides. -/
theorem represents_step {h : List (Event η ω)} {q q' : ControlQueue η ω} {i : Input η ω}
    {o : Output η ω} (hle : q.events.length ≤ 64)
    (hrepresents : Represents (delivered h ++ q.events) (pushed h))
    (hstep : (machine η ω).step q i = some (q', o)) :
    q'.events.length ≤ 64 ∧
      Represents (delivered (h ++ [⟨q, i, o, q'⟩]) ++ q'.events) (pushed (h ++ [⟨q, i, o, q'⟩])) := by
  rw [delivered_append, pushed_append]
  cases i with
  | push event =>
    obtain ⟨hfull, -⟩ | ⟨left, hleft, hlength, hpush⟩ := q.push_cases event hle
    · obtain ⟨rfl, rfl⟩ : q = q' ∧ Output.refused event = o := by
        simpa [machine, hfull] using hstep
      exact ⟨hle, by simpa [delivered, pushed] using hrepresents⟩
    · obtain ⟨rfl, rfl⟩ : ControlQueue.mk (left ++ [event]) = q' ∧ Output.pushed event = o := by
        simpa [machine, hpush] using hstep
      have hnext := hrepresents.push hleft
      refine ⟨?_, by simpa [delivered, pushed] using hnext⟩
      rw [List.length_append, List.length_singleton]
      omega
  | pop =>
    obtain ⟨rfl, rfl⟩ : ControlQueue.mk q.events.tail = q' ∧ Output.popped q.events.head? = o := by
      simpa [machine, ControlQueue.popFront] using hstep
    refine ⟨?_, ?_⟩
    · show q.events.tail.length ≤ 64
      rw [List.length_tail]
      omega
    · cases hevents : q.events with
      | nil =>
        rw [hevents] at hrepresents
        simpa [delivered, pushed] using hrepresents
      | cons event events =>
        rw [hevents] at hrepresents
        simpa [delivered, pushed] using hrepresents

/-- What holds after any pushes and pops. -/
theorem run_represents {is : List (Input η ω)} {h : List (Event η ω)} {q : ControlQueue η ω}
    (hrun : (machine η ω).run (machine η ω).init is = some (q, h)) :
    q.events.length ≤ 64 ∧ Represents (delivered h ++ q.events) (pushed h) ∧
      ∀ e ∈ h, Lawful e := by
  refine (machine η ω).run_inv (P := fun h q => q.events.length ≤ 64 ∧
    Represents (delivered h ++ q.events) (pushed h) ∧ ∀ e ∈ h, Lawful e)
    (I := fun _ => True) ?_ ?_ (fun _ _ => trivial) hrun
  · exact ⟨Nat.zero_le _, ⟨rfl, fun _ => rfl, List.Sublist.refl _, rfl⟩, nofun⟩
  · intro h q i q' o hP _ hstep
    obtain ⟨hle, hrepresents, hlawful⟩ := hP
    obtain ⟨hle', hrepresents'⟩ := represents_step hle hrepresents hstep
    refine ⟨hle', hrepresents', fun e he => ?_⟩
    obtain hold | hnew := List.mem_append.1 he
    · exact hlawful e hold
    · rw [List.mem_singleton.1 hnew]
      exact lawful_step hle hstep

/-- As many pops as there are events deliver all of them. -/
theorem run_drain (events : List (ServerEvent η ω)) : ∃ h,
    (machine η ω).run ⟨events⟩ (List.replicate events.length .pop) = some (⟨[]⟩, h) ∧
      delivered h = events := by
  induction events with
  | nil => exact ⟨[], rfl, rfl⟩
  | cons event events ih =>
    obtain ⟨h, hrun, hdelivered⟩ := ih
    refine ⟨⟨⟨event :: events⟩, .pop, .popped (some event), ⟨events⟩⟩ :: h,
      (machine η ω).run_cons_eq_some.2 ⟨⟨events⟩, .popped (some event), h, rfl, hrun, rfl⟩, ?_⟩
    show event :: delivered h = _
    rw [hdelivered]

/-- **The control queue**, after any pushes and pops: it is bounded, a push is refused only when
    64 events wait that it cannot replace, and leaves the queue as it was, a pop delivers the
    oldest event, and what was delivered and what still waits represent what was pushed. What
    waits is delivered by as many pops. -/
theorem control_queue_spec {is : List (Input η ω)} {h : List (Event η ω)} {q : ControlQueue η ω}
    (hrun : (machine η ω).run (machine η ω).init is = some (q, h)) :
    q.events.length ≤ 64 ∧
      (∀ e ∈ h, Lawful e) ∧
      (∀ e ∈ h, ∀ event, e.output = .refused event → e.after = e.before) ∧
      Represents (delivered h ++ q.events) (pushed h) ∧
      (∀ channel,
        (((delivered h ++ q.events).filterMap (ServerEvent.recordingOf? channel)).map
            RecordingStatus.phase).destutter (· ≠ ·) =
          (((pushed h).filterMap (ServerEvent.recordingOf? channel)).map
            RecordingStatus.phase).destutter (· ≠ ·)) ∧
      ∃ h', (machine η ω).run q (List.replicate q.events.length .pop) = some (⟨[]⟩, h') ∧
        delivered h' = q.events := by
  obtain ⟨hle, hrepresents, hlawful⟩ := run_represents hrun
  refine ⟨hle, hlawful, fun e he event => (hlawful e he).refused, hrepresents, fun channel => ?_,
    run_drain q.events⟩
  rw [← List.map_latest, ← List.map_latest, hrepresents.phases channel]

/-- A recording starts, reports its progress and stops; then the client looks. -/
def startStop : List (Input ℕ ℕ) :=
  [.push (.recording ⟨none, 1, true, some "a", 0, 0⟩),
    .push (.recording ⟨none, 1, true, some "a", 8, 0⟩), .push (.hardware 0), .push (.other 5),
    .push (.recording ⟨none, 1, false, some "a", 16, 0⟩), .push (.hardware 1), .pop]

/-- One recording status and one hardware status are replaced, one event is delivered. -/
theorem control_queue_startStop : ∃ q h,
    (machine ℕ ℕ).run (machine ℕ ℕ).init startStop = some (q, h) ∧
      (delivered h).length = 1 ∧ q.events.length = 3 ∧ (pushed h).length = 6 ∧
      (∀ e ∈ h, Lawful e) ∧ Represents (delivered h ++ q.events) (pushed h) := by
  have hsummary : ((machine ℕ ℕ).run (machine ℕ ℕ).init startStop).map
      (fun r => ((delivered r.2).length, r.1.events.length, (pushed r.2).length)) =
        some (1, 3, 6) := by decide
  obtain ⟨⟨q, h⟩, hrun, hvalue⟩ := Option.map_eq_some_iff.1 hsummary
  have hspec := control_queue_spec hrun
  exact ⟨q, h, hrun, congrArg (·.1) hvalue, congrArg (·.2.1) hvalue, congrArg (·.2.2) hvalue,
    hspec.2.1, hspec.2.2.2.1⟩

end Client
