import EzSdr.Framework.Machine
import EzSdr.Framework.Retain

/-! # Publications that Wait for the Broker

    The worker keeps what it has to publish in a map, a queue of the map's keys
    and a count of the events among them. The latest state, signal, passes and
    aircraft replace older ones in their place; events are numbered and never
    replaced.

    **`pending_spec`**: map, queue and count always agree, and as long as the
    numbers do not start again every event is dropped, expires, waits or has
    left, in the order in which the events came. -/

namespace Mqtt

/-! ## Section 1: Map, queue and count -/

/-- In nanoseconds. -/
def MAX_PENDING_AGE : ℕ := 10 * 10 ^ 9

def MAX_AIRCRAFT : ℕ := 4096

def MAX_EVENTS : ℕ := 64

/-- An aircraft; what is published of it besides its address is in `rest`. -/
structure AircraftEntry (δ : Type*) where
  icao : ℕ
  rest : δ

/-- The publisher sends no more than `MAX_AIRCRAFT` entries. -/
structure AircraftSet (δ : Type*) where
  aircraft : List (AircraftEntry δ)
  bound    : aircraft.length ≤ MAX_AIRCRAFT

/-- What is published; the contents `δ` are not looked at. -/
inductive Payload (δ : Type*) where
  | state (data : δ)
  | signal (data : δ)
  | aircraft (entry : AircraftEntry δ)
  | aircraftSet (entries : AircraftSet δ)
  | passes (data : δ)
  | scanner (data : δ)
  | raw (data : δ)

structure Update (δ : Type*) where
  epoch   : ℕ
  /-- First part of the topic. -/
  topic   : String
  created : ℕ
  payload : Payload δ

inductive Key where
  | state
  | signal
  | passes
  | aircraft (icao : ℕ)
  | event (number : ℕ)
  deriving DecidableEq

def Key.isAircraft : Key → Bool
  | .aircraft _ => true
  | _ => false

def Key.isEvent : Key → Bool
  | .event _ => true
  | _ => false

section

variable (number icao : ℕ)

@[simp] theorem Key.isAircraft_aircraft : (Key.aircraft icao).isAircraft = true := rfl
@[simp] theorem Key.isAircraft_event : (Key.event number).isAircraft = false := rfl
@[simp] theorem Key.isAircraft_state : Key.state.isAircraft = false := rfl
@[simp] theorem Key.isAircraft_signal : Key.signal.isAircraft = false := rfl
@[simp] theorem Key.isAircraft_passes : Key.passes.isAircraft = false := rfl
@[simp] theorem Key.isEvent_aircraft : (Key.aircraft icao).isEvent = false := rfl
@[simp] theorem Key.isEvent_event : (Key.event number).isEvent = true := rfl
@[simp] theorem Key.isEvent_state : Key.state.isEvent = false := rfl
@[simp] theorem Key.isEvent_signal : Key.signal.isEvent = false := rfl
@[simp] theorem Key.isEvent_passes : Key.passes.isEvent = false := rfl

end

variable {δ : Type*}

structure Pending (δ : Type*) where
  values     : AList fun _ : Key => Update δ
  order      : List Key
  nextEvent  : ℕ
  eventCount : ℕ

structure Counters where
  coalesced     : ℕ
  droppedEvents : ℕ
  expired       : ℕ

namespace Pending

def default : Pending δ := ⟨∅, [], 0, 0⟩

def insert (p : Pending δ) (c : Counters) (key : Key) (update : Update δ) :
    Pending δ × Counters :=
  if key ∈ p.values then
    ({ p with values := p.values.insert key update }, { c with coalesced := c.coalesced + 1 })
  else ({ p with values := p.values.insert key update, order := p.order ++ [key] }, c)

/-- One aircraft of a set. -/
def insertAircraft (update : Update δ) (s : Pending δ × Counters) (ac : AircraftEntry δ) :
    Pending δ × Counters :=
  s.1.insert s.2 (.aircraft ac.icao) { update with payload := .aircraft ac }

/-- Aircraft that are not in the set go, from the map and then from the queue. -/
def retainAircraft (p : Pending δ) (aircraft : List (AircraftEntry δ)) : Pending δ :=
  let keys := aircraft.map fun ac => Key.aircraft ac.icao
  let values := p.values.retain fun key _ => !key.isAircraft || decide (key ∈ keys)
  { p with values := values, order := p.order.filter (· ∈ values) }

def acceptAircraft (p : Pending δ) (c : Counters) (update : Update δ)
    (aircraft : List (AircraftEntry δ)) : Pending δ × Counters :=
  aircraft.foldl (insertAircraft update) (p.retainAircraft aircraft, c)

/-- The next number is taken, with `wrapping_add`. -/
def takeNumber (p : Pending δ) : Pending δ :=
  { p with nextEvent := (p.nextEvent + 1) % 2 ^ 64, eventCount := p.eventCount + 1 }

/-- An event gets the next number, unless too many wait already. -/
def acceptEvent (p : Pending δ) (c : Counters) (update : Update δ) : Pending δ × Counters :=
  if MAX_EVENTS ≤ p.eventCount then (p, { c with droppedEvents := c.droppedEvents + 1 })
  else p.takeNumber.insert c (.event p.takeNumber.nextEvent) update

def accept (p : Pending δ) (c : Counters) (update : Update δ) : Pending δ × Counters :=
  match update.payload with
  | .aircraftSet entries => p.acceptAircraft c update entries.aircraft
  | .state _ => p.insert c .state update
  | .signal _ => p.insert c .signal update
  | .passes _ => p.insert c .passes update
  | .aircraft _ => p.acceptEvent c update
  | .scanner _ => p.acceptEvent c update
  | .raw _ => p.acceptEvent c update

/-- `none` is an underflow of the count. -/
def remove (p : Pending δ) (key : Key) : Option (Pending δ) :=
  if key.isEvent then
    if p.eventCount = 0 then none
    else some { p with
      values := p.values.erase key
      order := p.order.tail
      eventCount := p.eventCount - 1 }
  else some { p with values := p.values.erase key, order := p.order.tail }

/-- Only fresh updates of the current configuration are kept. -/
def keep (now epoch : ℕ) (_key : Key) (value : Update δ) : Bool :=
  value.epoch = epoch && decide (now - value.created ≤ MAX_PENDING_AGE)

def expire (p : Pending δ) (c : Counters) (now epoch : ℕ) : Pending δ × Counters :=
  let values := p.values.retain (keep now epoch)
  ({ p with
      values := values
      order := p.order.filter (· ∈ values)
      eventCount := values.keys.countP Key.isEvent },
    { c with expired :=
        c.expired + p.values.entries.countP fun e => !keep now epoch e.1 e.2 })

/-- What waits, in line. -/
def line (p : Pending δ) : List (Key × Update δ) := p.values.line p.order

/-- The events that wait, in line. -/
def events (p : Pending δ) : List (Key × Update δ) := p.line.filter (·.1.isEvent)

end Pending

/-! ## Section 2: Runs -/

inductive Input (δ : Type*) where
  | accept (update : Update δ)
  | expire (now epoch : ℕ)
  | removeFront

/-- What a step did to the updates, for the record. -/
structure Outcome (δ : Type*) where
  /-- Events that got a number. -/
  accepted : List (Key × Update δ)
  dropped  : List (Update δ)
  expired  : List (Key × Update δ)
  removed  : List (Key × Update δ)

def Outcome.nothing : Outcome δ := ⟨[], [], [], []⟩

def Payload.isEvent : Payload δ → Bool
  | .aircraft _ => true
  | .scanner _ => true
  | .raw _ => true
  | _ => false

def acceptOutcome (p : Pending δ) (update : Update δ) : Outcome δ :=
  if update.payload.isEvent then
    if MAX_EVENTS ≤ p.eventCount then { Outcome.nothing with dropped := [update] }
    else { Outcome.nothing with
      accepted := [(.event p.takeNumber.nextEvent, update)] }
  else Outcome.nothing

/-- The worker takes the first key of the queue and looks its value up. -/
def removeFront (p : Pending δ) : Option (Pending δ × Outcome δ) :=
  match p.order with
  | [] => some (p, Outcome.nothing)
  | key :: _ =>
    match p.values.lookup key with
    | none => none
    | some update =>
      (p.remove key).map fun p => (p, { Outcome.nothing with removed := [(key, update)] })

def step (s : Pending δ × Counters) : Input δ → Option ((Pending δ × Counters) × Outcome δ)
  | .accept update => some (s.1.accept s.2 update, acceptOutcome s.1 update)
  | .expire now epoch =>
    some (s.1.expire s.2 now epoch,
      { Outcome.nothing with
        expired := s.1.line.filter fun e => !Pending.keep now epoch e.1 e.2 })
  | .removeFront => (removeFront s.1).map fun r => ((r.1, s.2), r.2)

def machine : Machine (Pending δ × Counters) (Input δ) (Outcome δ) where
  init := (Pending.default, ⟨0, 0, 0⟩)
  step := step

abbrev Event (δ : Type*) := Machine.Event (Pending δ × Counters) (Input δ) (Outcome δ)

def acceptedIn (h : List (Event δ)) : List (Key × Update δ) := h.flatMap (·.output.accepted)

def droppedIn (h : List (Event δ)) : List (Update δ) := h.flatMap (·.output.dropped)

def expiredIn (h : List (Event δ)) : List (Key × Update δ) := h.flatMap (·.output.expired)

def removedIn (h : List (Event δ)) : List (Key × Update δ) := h.flatMap (·.output.removed)

/-- All events offered, in order. -/
def offeredIn (h : List (Event δ)) : List (Update δ) :=
  h.filterMap fun e => match e.input with
    | .accept update => if update.payload.isEvent then some update else none
    | _ => none

/-- What one update leaves as the last one accepted under each key. -/
def Update.latest (update : Update δ) (last : Key → Option (Update δ)) :
    Key → Option (Update δ) :=
  match update.payload with
  | .aircraftSet entries => fun key =>
    match key with
    | .aircraft icao =>
      (entries.aircraft.reverse.find? (·.icao = icao)).map
        fun ac => { update with payload := .aircraft ac }
    | key => last key
  | .state _ => Function.update last .state (some update)
  | .signal _ => Function.update last .signal (some update)
  | .passes _ => Function.update last .passes (some update)
  | _ => last

/-- The update last accepted under a key; none for aircraft that the last set left out. -/
def lastAccepted (h : List (Event δ)) : Key → Option (Update δ) :=
  h.foldl (fun last e => match e.input with
    | .accept update => update.latest last
    | _ => last) fun _ => none

/-! ## Section 3: Map and queue in step -/

/-- The queue lists every key of the map once, and the count covers the events. -/
structure Held (p : Pending δ) : Prop where
  lined    : AList.Lined p.values p.order
  counted  : p.order.countP Key.isEvent ≤ p.eventCount
  bound    : p.eventCount ≤ MAX_EVENTS
  aircraft : p.order.countP Key.isAircraft ≤ MAX_AIRCRAFT

theorem Held.default : Held (Pending.default : Pending δ) where
  lined := AList.lined_empty
  counted := Nat.zero_le _
  bound := Nat.zero_le _
  aircraft := Nat.zero_le _

/-- Keys that are neither aircraft nor events are three. -/
theorem length_le_of_counts {order : List Key} (h : order.Nodup) :
    order.length ≤ 3 + order.countP Key.isAircraft + order.countP Key.isEvent := by
  have hothers : (order.filter fun k => !k.isAircraft && !k.isEvent).length ≤ 3 := by
    have hsub : (order.filter fun k => !k.isAircraft && !k.isEvent) ⊆
        [Key.state, Key.signal, Key.passes] := by
      intro k hk
      have hkind := (List.mem_filter.1 hk).2
      cases k <;> simp at hkind ⊢
    exact ((h.filter _).subperm hsub).length_le
  have hcount : ∀ l : List Key, l.length =
      (l.filter fun k => !k.isAircraft && !k.isEvent).length + l.countP Key.isAircraft +
        l.countP Key.isEvent := by
    intro l
    induction l with
    | nil => rfl
    | cons k l ih =>
      cases k <;> simp [List.countP_cons] at ih ⊢ <;> omega
  have := hcount order
  omega

theorem countP_order {p : Pending δ} (h : AList.Lined p.values p.order) :
    p.order.countP Key.isEvent = p.events.length := by
  conv_lhs => rw [← h.map_fst]
  rw [List.countP_map, List.countP_eq_length_filter]
  rfl

theorem Held.length_le {p : Pending δ} (h : Held p) :
    p.values.keys.length ≤ 3 + MAX_AIRCRAFT + MAX_EVENTS := by
  rw [← h.lined.perm_keys.length_eq]
  have hall := length_le_of_counts h.lined.nodup
  have hcounted := h.counted
  have hbound := h.bound
  have haircraft := h.aircraft
  omega

/-- What accepting does to the queue and to the values that are no events. -/
structure Placed (p p' : Pending δ) (new : List Key) : Prop where
  lined  : AList.Lined p'.values p'.order
  order  : p'.order = p.order.filter (· ∈ p'.values) ++ new
  fresh  : ∀ k ∈ new, k ∉ p.values

section Insert

variable {p : Pending δ} {c : Counters} {key : Key} {update : Update δ}

theorem insert_old (h : AList.Lined p.values p.order) (hk : key ∈ p.values) :
    Placed p (p.insert c key update).1 [] ∧
      (p.insert c key update).1.order = p.order ∧
      (p.insert c key update).1.line =
        p.line.map fun e => if e.1 = key then (key, update) else e := by
  obtain ⟨hlined, hline⟩ := AList.lined_insert_old h hk update
  unfold Pending.insert
  rw [if_pos hk]
  refine ⟨⟨hlined, ?_, fun k hnew => absurd hnew List.not_mem_nil⟩, rfl, hline⟩
  rw [List.append_nil]
  exact (List.filter_eq_self.2 fun k hk => decide_eq_true ((hlined.mem k).1 hk)).symm

theorem insert_new (h : AList.Lined p.values p.order) (hk : key ∉ p.values) :
    Placed p (p.insert c key update).1 [key] ∧
      (p.insert c key update).1.order = p.order ++ [key] ∧
      (p.insert c key update).1.line = p.line ++ [(key, update)] := by
  obtain ⟨hlined, hline⟩ := AList.lined_insert_new h hk update
  unfold Pending.insert
  rw [if_neg hk]
  refine ⟨⟨hlined, ?_, fun k hnew => ?_⟩, rfl, hline⟩
  · have hkept : p.order.filter (· ∈ p.values.insert key update) = p.order :=
      List.filter_eq_self.2 fun k hmem =>
        decide_eq_true ((AList.mem_insert _).2 (.inr ((h.mem k).1 hmem)))
    show p.order ++ [key] = p.order.filter (· ∈ p.values.insert key update) ++ [key]
    rw [hkept]
  · rw [List.mem_singleton.1 hnew]
    exact hk

theorem insert_lined (h : AList.Lined p.values p.order) :
    AList.Lined (p.insert c key update).1.values (p.insert c key update).1.order := by
  by_cases hk : key ∈ p.values
  · exact (insert_old h hk).1.lined
  · exact (insert_new h hk).1.lined

theorem insert_values :
    (p.insert c key update).1.values = p.values.insert key update := by
  unfold Pending.insert
  split <;> rfl

theorem insert_numbers :
    (p.insert c key update).1.nextEvent = p.nextEvent ∧
      (p.insert c key update).1.eventCount = p.eventCount := by
  unfold Pending.insert
  split <;> exact ⟨rfl, rfl⟩

theorem insert_counters :
    (p.insert c key update).2.droppedEvents = c.droppedEvents ∧
      (p.insert c key update).2.expired = c.expired := by
  unfold Pending.insert
  split <;> exact ⟨rfl, rfl⟩

/-- Inserting under a key that is no event leaves the events alone. -/
theorem insert_events (h : AList.Lined p.values p.order) (hkey : key.isEvent = false) :
    (p.insert c key update).1.events = p.events := by
  unfold Pending.events
  by_cases hk : key ∈ p.values
  · obtain ⟨-, -, hline⟩ := @insert_old _ p c key update h hk
    rw [hline, List.filter_map]
    have hsame : ∀ e : Key × Update δ,
        (if e.1 = key then (key, update) else e).1.isEvent = e.1.isEvent := by
      intro e
      split
      next heq => rw [heq]
      next => rfl
    have hfilter : ((fun e : Key × Update δ => e.1.isEvent) ∘
        fun e => if e.1 = key then (key, update) else e) = fun e => e.1.isEvent :=
      funext hsame
    rw [hfilter]
    -- no entry that passes is the one replaced
    have hnot : ∀ e ∈ p.line.filter (·.1.isEvent), (if e.1 = key then (key, update) else e) = e := by
      intro e he
      have hevent := (List.mem_filter.1 he).2
      refine if_neg fun heq => ?_
      rw [heq, hkey] at hevent
      exact Bool.false_ne_true hevent
    rw [List.map_congr_left hnot, List.map_id']
  · obtain ⟨-, -, hline⟩ := @insert_new _ p c key update h hk
    rw [hline, List.filter_append]
    simp [hkey]

end Insert

/-! ## Section 4: Sets of aircraft -/

/-- Nothing that concerns events has changed. -/
structure SameEvents (p p' : Pending δ) : Prop where
  events     : p'.events = p.events
  nextEvent  : p'.nextEvent = p.nextEvent
  eventCount : p'.eventCount = p.eventCount

theorem SameEvents.refl (p : Pending δ) : SameEvents p p := ⟨rfl, rfl, rfl⟩

theorem SameEvents.trans {p p' p'' : Pending δ} (h : SameEvents p p') (h' : SameEvents p' p'') :
    SameEvents p p'' :=
  ⟨h'.events.trans h.events, h'.nextEvent.trans h.nextEvent, h'.eventCount.trans h.eventCount⟩

theorem insert_sameEvents {p : Pending δ} {c : Counters} {key : Key} {update : Update δ}
    (h : AList.Lined p.values p.order) (hkey : key.isEvent = false) :
    SameEvents p (p.insert c key update).1 := by
  obtain ⟨hnext, heventCount⟩ := @insert_numbers _ p c key update
  exact ⟨insert_events h hkey, hnext, heventCount⟩

/-- Counters that accepting a set does not touch. -/
def SameCounts (c c' : Counters) : Prop :=
  c'.droppedEvents = c.droppedEvents ∧ c'.expired = c.expired

/-- The last entry for an address. -/
def lastEntry (update : Update δ) (aircraft : List (AircraftEntry δ)) (icao : ℕ) :
    Option (Update δ) :=
  (aircraft.reverse.find? (·.icao = icao)).map fun ac => { update with payload := .aircraft ac }

theorem lastEntry_cons (update : Update δ) (ac : AircraftEntry δ)
    (aircraft : List (AircraftEntry δ)) (icao : ℕ) :
    lastEntry update (ac :: aircraft) icao =
      (lastEntry update aircraft icao).or
        (if ac.icao = icao then some { update with payload := .aircraft ac } else none) := by
  unfold lastEntry
  rw [List.reverse_cons, List.find?_append, List.find?_singleton]
  cases List.find? _ aircraft.reverse with
  | some ac' => rfl
  | none =>
    simp only [decide_eq_true_eq]
    split <;> rfl

/-- Inserting the entries of a set, one by one. -/
structure FoldLaw (update : Update δ) (aircraft : List (AircraftEntry δ)) (p : Pending δ)
    (c : Counters) (s : Pending δ × Counters) : Prop where
  lined    : AList.Lined s.1.values s.1.order
  same     : SameEvents p s.1
  counters : SameCounts c s.2
  order    : ∃ new, s.1.order = p.order ++ new ∧
    ∀ k ∈ new, k ∉ p.values ∧ ∃ ac ∈ aircraft, k = .aircraft ac.icao
  listed   : ∀ icao, s.1.values.lookup (.aircraft icao) =
    (lastEntry update aircraft icao).or (p.values.lookup (.aircraft icao))
  others   : ∀ k : Key, k.isAircraft = false → s.1.values.lookup k = p.values.lookup k

theorem foldl_insertAircraft (update : Update δ) (aircraft : List (AircraftEntry δ)) :
    ∀ (p : Pending δ) (c : Counters), AList.Lined p.values p.order →
      FoldLaw update aircraft p c (aircraft.foldl (Pending.insertAircraft update) (p, c)) := by
  induction aircraft with
  | nil =>
    intro p c h
    exact ⟨h, .refl p, ⟨rfl, rfl⟩, ⟨[], (List.append_nil _).symm, by simp⟩, fun _ => rfl,
      fun _ _ => rfl⟩
  | cons ac aircraft ih =>
    intro p c h
    set first := Pending.insertAircraft update (p, c) ac with hfirst
    have hlined : AList.Lined first.1.values first.1.order := insert_lined h
    have hvalues : first.1.values = p.values.insert (.aircraft ac.icao)
        { update with payload := .aircraft ac } := insert_values
    have hrest := ih first.1 first.2 hlined
    have hsame : SameEvents p first.1 := insert_sameEvents h rfl
    have hcounts : SameCounts c first.2 := insert_counters
    rw [List.foldl_cons, ← hfirst]
    constructor
    case lined => exact hrest.lined
    case same => exact hsame.trans hrest.same
    case counters =>
      obtain ⟨hdropped, hexpired⟩ := hrest.counters
      exact ⟨hdropped.trans hcounts.1, hexpired.trans hcounts.2⟩
    case order =>
      obtain ⟨new, hnew, hfresh⟩ := hrest.order
      -- a key that is new later was no key before
      have hfresh' : ∀ k ∈ new, k ∉ p.values ∧ ∃ ac' ∈ ac :: aircraft, k = .aircraft ac'.icao := by
        intro k hk
        obtain ⟨hnot, ac', hac', heq⟩ := hfresh k hk
        refine ⟨fun hmem => hnot ?_, ac', List.mem_cons_of_mem _ hac', heq⟩
        rw [hvalues]
        exact (AList.mem_insert _).2 (.inr hmem)
      by_cases hk : Key.aircraft ac.icao ∈ p.values
      · have horder : first.1.order = p.order := (insert_old h hk).2.1
        exact ⟨new, by rw [hnew, horder], hfresh'⟩
      · have horder : first.1.order = p.order ++ [.aircraft ac.icao] := (insert_new h hk).2.1
        refine ⟨.aircraft ac.icao :: new, by rw [hnew, horder, List.append_assoc]; rfl, ?_⟩
        intro k hmem
        rcases List.mem_cons.1 hmem with rfl | hmem
        · exact ⟨hk, ac, List.mem_cons_self, rfl⟩
        · exact hfresh' k hmem
    case listed =>
      intro icao
      rw [hrest.listed, hvalues, lastEntry_cons, Option.or_assoc]
      congr 1
      split
      next heq =>
        rw [heq, AList.lookup_insert]
        rfl
      next hne =>
        have hkey : Key.aircraft icao ≠ .aircraft ac.icao := fun heq => hne (Key.aircraft.inj heq).symm
        rw [AList.lookup_insert_ne hkey]
        rfl
    case others =>
      intro k hk
      have hkey : k ≠ .aircraft ac.icao := by
        intro heq
        rw [heq] at hk
        exact Bool.false_ne_true hk.symm
      rw [hrest.others k hk, hvalues, AList.lookup_insert_ne hkey]

theorem retainAircraft_lined {p : Pending δ} (h : AList.Lined p.values p.order)
    (aircraft : List (AircraftEntry δ)) :
    AList.Lined (p.retainAircraft aircraft).values (p.retainAircraft aircraft).order ∧
      SameEvents p (p.retainAircraft aircraft) := by
  obtain ⟨hlined, hline⟩ := AList.lined_retain (fun key _ => !key.isAircraft ||
    decide (key ∈ aircraft.map fun ac => Key.aircraft ac.icao)) h
  have hevents : (p.retainAircraft aircraft).events = p.events := by
    unfold Pending.events
    show (AList.line _ _).filter _ = _
    rw [show AList.line (p.retainAircraft aircraft).values (p.retainAircraft aircraft).order = _
      from hline, List.filter_filter]
    apply List.filter_congr
    intro e _
    cases e.1 <;> simp
  exact ⟨hlined, hevents, rfl, rfl⟩

/-- Addresses of a set. -/
def addresses (aircraft : List (AircraftEntry δ)) : List Key :=
  aircraft.map fun ac => .aircraft ac.icao

theorem lookup_retainAircraft (p : Pending δ) (aircraft : List (AircraftEntry δ)) (k : Key) :
    (p.retainAircraft aircraft).values.lookup k =
      (p.values.lookup k).filter fun _ => !k.isAircraft || decide (k ∈ addresses aircraft) :=
  AList.lookup_retain _ _ _

theorem lastEntry_isSome {update : Update δ} {aircraft : List (AircraftEntry δ)} {icao : ℕ} :
    (lastEntry update aircraft icao).isSome ↔ Key.aircraft icao ∈ addresses aircraft := by
  simp [lastEntry, addresses]

/-- **A set of aircraft**: afterwards the last entry of each address waits, and no other
    aircraft. -/
structure SetLaw (update : Update δ) (aircraft : List (AircraftEntry δ)) (p : Pending δ)
    (c : Counters) (s : Pending δ × Counters) : Prop where
  placed   : ∃ new, Placed p s.1 new
  same     : SameEvents p s.1
  counters : SameCounts c s.2
  listed   : ∀ icao, s.1.values.lookup (.aircraft icao) = lastEntry update aircraft icao
  others   : ∀ k : Key, k.isAircraft = false → s.1.values.lookup k = p.values.lookup k

theorem acceptAircraft_law {p : Pending δ} (h : AList.Lined p.values p.order) (c : Counters)
    (update : Update δ) (aircraft : List (AircraftEntry δ)) :
    SetLaw update aircraft p c (p.acceptAircraft c update aircraft) := by
  obtain ⟨hlined, hsame⟩ := retainAircraft_lined h aircraft
  have hfold := foldl_insertAircraft update aircraft (p.retainAircraft aircraft) c hlined
  have hlisted : ∀ icao, (p.acceptAircraft c update aircraft).1.values.lookup (.aircraft icao) =
      lastEntry update aircraft icao := by
    intro icao
    have hboth : (p.acceptAircraft c update aircraft).1.values.lookup (.aircraft icao) = _ :=
      hfold.listed icao
    rw [hboth, lookup_retainAircraft]
    -- what is in the set has been replaced, what is not has gone
    cases hentry : lastEntry update aircraft icao with
    | some value => rfl
    | none =>
      have hnot : Key.aircraft icao ∉ addresses aircraft := by
        rw [← @lastEntry_isSome _ update, hentry]
        exact Bool.false_ne_true
      cases p.values.lookup (.aircraft icao) <;> simp [hnot]
  have hothers : ∀ k : Key, k.isAircraft = false →
      (p.acceptAircraft c update aircraft).1.values.lookup k = p.values.lookup k := by
    intro k hk
    have hboth : (p.acceptAircraft c update aircraft).1.values.lookup k = _ := hfold.others k hk
    rw [hboth, lookup_retainAircraft, hk]
    cases p.values.lookup k <;> rfl
  refine ⟨?_, hsame.trans hfold.same, hfold.counters, hlisted, hothers⟩
  obtain ⟨new, hnew, hfresh⟩ := hfold.order
  have hmem : ∀ k ∈ p.order, k ∈ (p.retainAircraft aircraft).values ↔
      k ∈ (p.acceptAircraft c update aircraft).1.values := by
    intro k hk
    obtain ⟨value, hvalue⟩ :=
      Option.isSome_iff_exists.1 (AList.lookup_isSome.2 ((h.mem k).1 hk))
    rw [← AList.lookup_isSome, ← AList.lookup_isSome, lookup_retainAircraft, hvalue]
    by_cases hkind : k.isAircraft = true
    · cases k with
      | aircraft icao =>
        rw [hlisted, lastEntry_isSome, Option.filter_some]
        simp
      | _ => exact absurd hkind Bool.false_ne_true
    · rw [Bool.not_eq_true] at hkind
      rw [hothers k hkind, hvalue, hkind]
      rfl
  refine ⟨new, hfold.lined, ?_, ?_⟩
  · have horder : (p.acceptAircraft c update aircraft).1.order = _ := hnew
    rw [horder]
    congr 1
    apply List.filter_congr
    intro k hk
    exact decide_eq_decide.2 (hmem k hk)
  · intro k hk hold
    obtain ⟨hnot, ac, hac, rfl⟩ := hfresh k hk
    obtain ⟨value, hvalue⟩ := Option.isSome_iff_exists.1 (AList.lookup_isSome.2 hold)
    refine hnot (AList.mem_retain.2 ⟨value, hvalue, ?_⟩)
    have hin : Key.aircraft ac.icao ∈ aircraft.map fun ac => Key.aircraft ac.icao :=
      List.mem_map.2 ⟨ac, hac, rfl⟩
    rw [decide_eq_true hin, Bool.or_true]

/-! ## Section 5: One step -/

/-- The kinds of updates. -/
theorem accept_cases (p : Pending δ) (c : Counters) (update : Update δ) :
    (∃ entries, update.payload = .aircraftSet entries ∧ update.payload.isEvent = false ∧
      p.accept c update = p.acceptAircraft c update entries.aircraft) ∨
    (∃ key : Key, key.isEvent = false ∧ key.isAircraft = false ∧
      (∀ last, update.latest last = Function.update last key (some update)) ∧
      update.payload.isEvent = false ∧ p.accept c update = p.insert c key update) ∨
    (update.payload.isEvent = true ∧ (∀ last, update.latest last = last) ∧
      p.accept c update = p.acceptEvent c update) := by
  unfold Pending.accept Update.latest
  cases hpayload : update.payload with
  | aircraftSet entries => exact .inl ⟨entries, rfl, rfl, rfl⟩
  | state data => exact .inr (.inl ⟨.state, rfl, rfl, fun _ => rfl, rfl, rfl⟩)
  | signal data => exact .inr (.inl ⟨.signal, rfl, rfl, fun _ => rfl, rfl, rfl⟩)
  | passes data => exact .inr (.inl ⟨.passes, rfl, rfl, fun _ => rfl, rfl, rfl⟩)
  | aircraft entry => exact .inr (.inr ⟨rfl, fun _ => rfl, rfl⟩)
  | scanner data => exact .inr (.inr ⟨rfl, fun _ => rfl, rfl⟩)
  | raw data => exact .inr (.inr ⟨rfl, fun _ => rfl, rfl⟩)

theorem Held.of_same {p p' : Pending δ} (h : Held p) (hlined : AList.Lined p'.values p'.order)
    (hsame : SameEvents p p') (haircraft : p'.order.countP Key.isAircraft ≤ MAX_AIRCRAFT) :
    Held p' where
  lined := hlined
  counted := by
    rw [countP_order hlined, hsame.events, ← countP_order h.lined, hsame.eventCount]
    exact h.counted
  bound := by
    rw [hsame.eventCount]
    exact h.bound
  aircraft := haircraft

/-- Inserting under a key that is no aircraft leaves the number of aircraft alone. -/
theorem insert_countP_aircraft {p : Pending δ} {c : Counters} {key : Key} {update : Update δ}
    (h : AList.Lined p.values p.order) (hkey : key.isAircraft = false) :
    (p.insert c key update).1.order.countP Key.isAircraft = p.order.countP Key.isAircraft := by
  by_cases hk : key ∈ p.values
  · rw [(insert_old h hk).2.1]
  · rw [(insert_new h hk).2.1, List.countP_append]
    simp [hkey]

theorem insert_placed {p : Pending δ} {c : Counters} {key : Key} {update : Update δ}
    (h : AList.Lined p.values p.order) : ∃ new, Placed p (p.insert c key update).1 new := by
  by_cases hk : key ∈ p.values
  · exact ⟨[], (insert_old h hk).1⟩
  · exact ⟨[key], (insert_new h hk).1⟩

/-- An event that is not dropped. -/
theorem acceptEvent_number {p : Pending δ} (h : Held p) (c : Counters) (update : Update δ)
    (hroom : p.eventCount < MAX_EVENTS) :
    Held (p.acceptEvent c update).1 ∧
      (∃ new, Placed p (p.acceptEvent c update).1 new) ∧
      (p.acceptEvent c update).1.nextEvent = p.takeNumber.nextEvent ∧
      (p.acceptEvent c update).1.eventCount = p.eventCount + 1 ∧
      (p.acceptEvent c update).1.values =
        p.values.insert (.event p.takeNumber.nextEvent) update ∧
      SameCounts c (p.acceptEvent c update).2 := by
  have hlined : AList.Lined p.takeNumber.values p.takeNumber.order := h.lined
  have heq : p.acceptEvent c update =
      p.takeNumber.insert c (.event p.takeNumber.nextEvent) update :=
    if_neg (Nat.not_le_of_lt hroom)
  obtain ⟨hnext, hcount⟩ := 
    @insert_numbers _ p.takeNumber c (.event p.takeNumber.nextEvent) update
  obtain ⟨new, hnew⟩ :=
    @insert_placed _ p.takeNumber c (.event p.takeNumber.nextEvent) update hlined
  rw [heq]
  refine ⟨⟨insert_lined hlined, ?_, ?_, ?_⟩, ⟨new, hnew.lined, hnew.order, hnew.fresh⟩, hnext,
    hcount, insert_values, insert_counters⟩
  · rw [hcount]
    have hcounted := h.counted
    by_cases hk : Key.event p.takeNumber.nextEvent ∈ p.takeNumber.values
    · rw [(insert_old hlined hk).2.1]
      exact hcounted.trans (Nat.le_succ _)
    · rw [(insert_new hlined hk).2.1, List.countP_append]
      exact Nat.add_le_add hcounted (by simp)
  · rw [hcount]
    exact hroom
  · rw [insert_countP_aircraft hlined rfl]
    exact h.aircraft

/-- The updates that wait are the last ones accepted. -/
def Fresh (p : Pending δ) (last : Key → Option (Update δ)) : Prop :=
  ∀ (k : Key) (u : Update δ), k.isEvent = false → p.values.lookup k = some u → last k = some u

/-- **Accepting** keeps map, queue and count together and puts what is new last in line. -/
theorem accept_held {p : Pending δ} (h : Held p) (c : Counters) (update : Update δ)
    {last : Key → Option (Update δ)} (hfresh : Fresh p last) :
    Held (p.accept c update).1 ∧ (∃ new, Placed p (p.accept c update).1 new) ∧
      Fresh (p.accept c update).1 (update.latest last) := by
  rcases accept_cases p c update with ⟨entries, hpayload, -, heq⟩ |
    ⟨key, hevent, haircraft, hlatest, -, heq⟩ | ⟨-, hlatest, heq⟩
  · have hlaw := acceptAircraft_law h.lined c update entries.aircraft
    rw [← heq] at hlaw
    obtain ⟨new, hplaced⟩ := hlaw.placed
    refine ⟨h.of_same hplaced.lined hlaw.same ?_, ⟨new, hplaced⟩, ?_⟩
    · -- every aircraft that waits is in the set
      have hsub : ((p.accept c update).1.order.filter Key.isAircraft) ⊆
          addresses entries.aircraft := by
        intro k hk
        obtain ⟨hmem, hkind⟩ := List.mem_filter.1 hk
        have hvalue := AList.lookup_isSome.2 ((hplaced.lined.mem k).1 hmem)
        cases k with
        | aircraft icao =>
          rw [hlaw.listed] at hvalue
          exact lastEntry_isSome.1 hvalue
        | _ => exact absurd hkind Bool.false_ne_true
      have hle := ((hplaced.lined.nodup.filter _).subperm hsub).length_le
      rw [addresses, List.length_map] at hle
      rw [List.countP_eq_length_filter]
      exact hle.trans entries.bound
    · intro k u hk hu
      unfold Update.latest
      rw [hpayload]
      cases k with
      | aircraft icao => rw [← hu, hlaw.listed]; rfl
      | _ =>
        rw [hlaw.others _ rfl] at hu
        exact hfresh _ u hk hu
  · rw [heq]
    have hlined := @insert_lined _ p c key update h.lined
    refine ⟨h.of_same hlined (insert_sameEvents h.lined hevent) ?_, insert_placed h.lined, ?_⟩
    · rw [insert_countP_aircraft h.lined haircraft]
      exact h.aircraft
    · intro k u hk hu
      rw [insert_values] at hu
      rw [hlatest]
      by_cases hkey : k = key
      · subst hkey
        rw [AList.lookup_insert] at hu
        rw [Function.update_self, hu]
      · rw [AList.lookup_insert_ne hkey] at hu
        rw [Function.update_of_ne hkey]
        exact hfresh k u hk hu
  · rw [heq, hlatest]
    by_cases hroom : p.eventCount < MAX_EVENTS
    · obtain ⟨hheld, hplaced, -, -, hvalues, -⟩ := acceptEvent_number h c update hroom
      refine ⟨hheld, hplaced, fun k u hk hu => ?_⟩
      have hkey : k ≠ .event p.takeNumber.nextEvent := by
        intro hkey
        rw [hkey] at hk
        exact Bool.false_ne_true hk.symm
      rw [hvalues, AList.lookup_insert_ne hkey] at hu
      exact hfresh k u hk hu
    · have hdrop : p.acceptEvent c update =
          (p, { c with droppedEvents := c.droppedEvents + 1 }) :=
        if_pos (Nat.le_of_not_lt hroom)
      rw [hdrop]
      refine ⟨h, ⟨[], h.lined, ?_, by simp⟩, hfresh⟩
      rw [List.append_nil]
      exact (List.filter_eq_self.2 fun k hk => decide_eq_true ((h.lined.mem k).1 hk)).symm

/-- **Expiry** thins out map and queue alike, and counts again. -/
theorem expire_held {p : Pending δ} (h : Held p) (c : Counters) (now epoch : ℕ)
    {last : Key → Option (Update δ)} (hfresh : Fresh p last) :
    Held (p.expire c now epoch).1 ∧ Fresh (p.expire c now epoch).1 last ∧
      (p.expire c now epoch).1.line = p.line.filter (fun e => Pending.keep now epoch e.1 e.2) ∧
      (p.expire c now epoch).1.eventCount = (p.expire c now epoch).1.events.length := by
  obtain ⟨hlined, hline⟩ := AList.lined_retain (Pending.keep now epoch) h.lined
  have hcount : (p.expire c now epoch).1.eventCount =
      (p.expire c now epoch).1.order.countP Key.isEvent := (hlined.perm_keys.countP_eq _).symm
  have hsub : (p.expire c now epoch).1.order.Sublist p.order := List.filter_sublist
  refine ⟨⟨hlined, hcount.ge, ?_, ?_⟩, fun k u hk hu => ?_, hline, ?_⟩
  · rw [hcount]
    exact (hsub.countP_le).trans (h.counted.trans h.bound)
  · exact hsub.countP_le.trans h.aircraft
  · have hlookup : (p.values.lookup k).filter (Pending.keep now epoch k) = some u := by
      rw [← AList.lookup_retain]
      exact hu
    exact hfresh k u hk (Option.filter_eq_some_iff.1 hlookup).1
  · rw [hcount, countP_order hlined]

theorem remove_eq {p : Pending δ} {key : Key} (h : key.isEvent = true → 0 < p.eventCount) :
    ∃ p', p.remove key = some p' ∧ p'.values = p.values.erase key ∧ p'.order = p.order.tail ∧
      p'.nextEvent = p.nextEvent ∧
      p'.eventCount + (if key.isEvent = true then 1 else 0) = p.eventCount := by
  unfold Pending.remove
  by_cases hevent : key.isEvent = true
  · have hpos := h hevent
    simp only [if_pos hevent, if_neg (Nat.ne_of_gt hpos)]
    exact ⟨_, rfl, rfl, rfl, rfl, Nat.sub_add_cancel hpos⟩
  · simp only [if_neg hevent]
    exact ⟨_, rfl, rfl, rfl, rfl, rfl⟩

/-- **The front key leaves**; its lookup never fails, and the count does not underflow. -/
theorem removeFront_held {p : Pending δ} (h : Held p) {last : Key → Option (Update δ)}
    (hfresh : Fresh p last) :
    ∃ p' o, removeFront p = some (p', o) ∧ Held p' ∧ Fresh p' last ∧
      p.line = o.removed ++ p'.line ∧ p'.nextEvent = p.nextEvent ∧
      p'.eventCount + (o.removed.filter (·.1.isEvent)).length = p.eventCount ∧
      o.accepted = [] ∧ o.dropped = [] ∧ o.expired = [] := by
  cases horder : p.order with
  | nil =>
    refine ⟨p, Outcome.nothing, ?_, h, hfresh, rfl, rfl, rfl, rfl, rfl, rfl⟩
    unfold removeFront
    rw [horder]
  | cons key rest =>
    have hfront : AList.Lined p.values (key :: rest) := by
      rw [← horder]
      exact h.lined
    -- the order lists exactly the keys that have a value, so the front key has one
    obtain ⟨hlined, value, hvalue, hline⟩ := AList.lined_erase_head hfront
    have hcounted := h.counted
    have haircraft := h.aircraft
    rw [horder, List.countP_cons] at hcounted haircraft
    obtain ⟨p', hremove, hvalues, htail, hnext, hcount⟩ :=
      @remove_eq _ p key fun hevent => by
        rw [if_pos hevent] at hcounted
        omega
    rw [horder] at htail
    have hline' : p.line = [(key, value)] ++ p'.line := by
      rw [Pending.line, Pending.line, horder, hline, hvalues, htail]
      rfl
    refine ⟨p', { Outcome.nothing with removed := [(key, value)] }, ?_, ⟨?_, ?_, ?_, ?_⟩, ?_,
      hline', hnext, ?_, rfl, rfl, rfl⟩
    · unfold removeFront
      rw [horder]
      dsimp only
      rw [hvalue, hremove]
      rfl
    · rw [hvalues, htail]
      exact hlined
    · rw [htail]
      show rest.countP Key.isEvent ≤ _
      omega
    · exact (Nat.le.intro hcount).trans h.bound
    · rw [htail]
      exact (Nat.le_add_right _ _).trans haircraft
    · intro k u hk hu
      rw [hvalues] at hu
      by_cases hkey : k = key
      · rw [hkey, AList.lookup_erase] at hu
        cases hu
      · rw [AList.lookup_erase_ne hkey] at hu
        exact hfresh k u hk hu
    · rw [← hcount]
      congr 1
      rw [List.filter_singleton]
      cases key.isEvent <;> rfl

/-! ## Section 6: Accounting for the events -/

/-- The events among some updates. -/
def eventsOf (l : List (Key × Update δ)) : List (Key × Update δ) := l.filter (·.1.isEvent)

/-- Every event is where it should be, once, and in order. -/
structure Exact (h : List (Event δ)) (p : Pending δ) : Prop where
  count : p.eventCount = p.events.length
  /-- Events left in the order they came, and wait in that order. -/
  fifo  : (eventsOf (removedIn h) ++ p.events).Sublist (acceptedIn h)
  once  : (acceptedIn h).Perm (eventsOf (expiredIn h) ++ (eventsOf (removedIn h) ++ p.events))

/-- Numbers and counters. -/
structure Numbered (h : List (Event δ)) (s : Pending δ × Counters) : Prop where
  next    : s.1.nextEvent = (acceptedIn h).length % 2 ^ 64
  keys    : (acceptedIn h).map Prod.fst =
    (List.range (acceptedIn h).length).map fun i => Key.event ((i + 1) % 2 ^ 64)
  offered : (offeredIn h).Perm ((acceptedIn h).map Prod.snd ++ droppedIn h)
  dropped : s.2.droppedEvents = (droppedIn h).length
  expired : s.2.expired = (expiredIn h).length
  exact   : (acceptedIn h).length ≤ 2 ^ 64 → Exact h s.1

section Append

variable (h : List (Event δ)) (e : Event δ)

theorem acceptedIn_append : acceptedIn (h ++ [e]) = acceptedIn h ++ e.output.accepted := by
  simp [acceptedIn]

theorem droppedIn_append : droppedIn (h ++ [e]) = droppedIn h ++ e.output.dropped := by
  simp [droppedIn]

theorem expiredIn_append : expiredIn (h ++ [e]) = expiredIn h ++ e.output.expired := by
  simp [expiredIn]

theorem removedIn_append : removedIn (h ++ [e]) = removedIn h ++ e.output.removed := by
  simp [removedIn]

theorem offeredIn_append : offeredIn (h ++ [e]) = offeredIn h ++ offeredIn [e] :=
  List.filterMap_append

theorem lastAccepted_append : lastAccepted (h ++ [e]) =
    match e.input with
    | .accept update => update.latest (lastAccepted h)
    | _ => lastAccepted h := by
  rw [lastAccepted, List.foldl_append]
  rfl

end Append

theorem eventsOf_append (l m : List (Key × Update δ)) :
    eventsOf (l ++ m) = eventsOf l ++ eventsOf m := List.filter_append ..

/-- Updates that are no events leave the events and the counters of events alone. -/
theorem accept_other {p : Pending δ} (h : Held p) (c : Counters) {update : Update δ}
    (hevent : update.payload.isEvent = false) :
    SameEvents p (p.accept c update).1 ∧ SameCounts c (p.accept c update).2 := by
  rcases accept_cases p c update with ⟨entries, -, -, heq⟩ | ⟨key, hkey, -, -, -, heq⟩ |
    ⟨hevent', -, -⟩
  · have hlaw := acceptAircraft_law h.lined c update entries.aircraft
    rw [heq]
    exact ⟨hlaw.same, hlaw.counters⟩
  · rw [heq]
    exact ⟨insert_sameEvents h.lined hkey, insert_counters⟩
  · rw [hevent] at hevent'
    cases hevent'

/-- A step that neither accepts nor moves events. -/
theorem Numbered.quiet {h : List (Event δ)} {s s' : Pending δ × Counters} {i : Input δ}
    {o : Outcome δ} (hn : Numbered h s) (hsame : SameEvents s.1 s'.1)
    (hcounts : SameCounts s.2 s'.2) (ho : o = Outcome.nothing)
    (hoffered : offeredIn [(⟨s, i, o, s'⟩ : Event δ)] = []) :
    Numbered (h ++ [⟨s, i, o, s'⟩]) s' := by
  subst ho
  obtain ⟨hnext, hkeys, hoff, hdropped, hexpired, hexact⟩ := hn
  constructor
  case next => simpa [acceptedIn_append, Outcome.nothing, hsame.nextEvent] using hnext
  case keys => simpa [acceptedIn_append, Outcome.nothing] using hkeys
  case offered =>
    rw [offeredIn_append, hoffered]
    simpa [acceptedIn_append, droppedIn_append, Outcome.nothing] using hoff
  case dropped => simpa [droppedIn_append, Outcome.nothing, hcounts.1] using hdropped
  case expired => simpa [expiredIn_append, Outcome.nothing, hcounts.2] using hexpired
  case exact =>
    intro hle
    obtain ⟨hcount, hfifo, honce⟩ := hexact
      (by simpa [acceptedIn_append, Outcome.nothing] using hle)
    constructor
    · rw [hsame.eventCount, hsame.events, hcount]
    · simpa [acceptedIn_append, removedIn_append, Outcome.nothing, hsame.events] using hfifo
    · simpa [acceptedIn_append, removedIn_append, expiredIn_append, Outcome.nothing,
        hsame.events] using honce

/-- The next number is not one that waits, until all numbers have been used. -/
theorem Numbered.fresh {h : List (Event δ)} {s : Pending δ × Counters} (hn : Numbered h s)
    (hheld : Held s.1) (hle : (acceptedIn h).length < 2 ^ 64) :
    Key.event s.1.takeNumber.nextEvent ∉ s.1.values := by
  intro hmem
  obtain ⟨value, hvalue⟩ := Option.isSome_iff_exists.1 (AList.lookup_isSome.2 hmem)
  have hline : (Key.event s.1.takeNumber.nextEvent, value) ∈ s.1.events :=
    List.mem_filter.2 ⟨AList.mem_line.2 ⟨(hheld.lined.mem _).2 hmem, hvalue⟩, rfl⟩
  have haccepted := (hn.exact hle.le).fifo.subset (List.mem_append_right _ hline)
  have hkey : Key.event s.1.takeNumber.nextEvent ∈ (acceptedIn h).map Prod.fst :=
    List.mem_map.2 ⟨_, haccepted, rfl⟩
  rw [hn.keys] at hkey
  obtain ⟨i, hi, heq⟩ := List.mem_map.1 hkey
  have hnumber : (i + 1) % 2 ^ 64 = (s.1.nextEvent + 1) % 2 ^ 64 := Key.event.inj heq
  have hlt := List.mem_range.1 hi
  rw [hn.next] at hnumber
  omega

/-- **An event is accepted** under the next number. -/
theorem Numbered.number {h : List (Event δ)} {s : Pending δ × Counters} (hn : Numbered h s)
    (hheld : Held s.1) {update : Update δ} (hevent : update.payload.isEvent = true)
    (hroom : s.1.eventCount < MAX_EVENTS) :
    Numbered (h ++ [⟨s, .accept update, acceptOutcome s.1 update, s.1.acceptEvent s.2 update⟩])
      (s.1.acceptEvent s.2 update) := by
  obtain ⟨-, -, hnext, hcount, -, hcounts⟩ := acceptEvent_number hheld s.2 update hroom
  have houtcome : acceptOutcome s.1 update =
      { Outcome.nothing with accepted := [(.event s.1.takeNumber.nextEvent, update)] } := by
    unfold acceptOutcome
    rw [if_pos hevent, if_neg (Nat.not_le_of_lt hroom)]
  have hfresh := hn.fresh hheld
  obtain ⟨hnext', hkeys, hoff, hdropped, hexpired, hexact⟩ := hn
  have hnumber : s.1.takeNumber.nextEvent = ((acceptedIn h).length + 1) % 2 ^ 64 := by
    show (s.1.nextEvent + 1) % 2 ^ 64 = _
    rw [hnext', Nat.mod_add_mod]
  rw [houtcome]
  constructor
  case next =>
    rw [hnext, hnumber, acceptedIn_append, List.length_append]
    rfl
  case keys =>
    rw [acceptedIn_append, List.map_append, hkeys, List.length_append]
    show _ ++ [Key.event s.1.takeNumber.nextEvent] = _
    rw [List.length_singleton, List.range_succ, List.map_append, hnumber]
    rfl
  case offered =>
    have hone : offeredIn [(⟨s, .accept update,
        { Outcome.nothing with accepted := [(.event s.1.takeNumber.nextEvent, update)] },
        s.1.acceptEvent s.2 update⟩ : Event δ)] = [update] := by
      simp [offeredIn, hevent]
    rw [offeredIn_append, hone, acceptedIn_append, droppedIn_append, List.map_append]
    show (offeredIn h ++ [update]).Perm (_ ++ [update] ++ (droppedIn h ++ []))
    rw [List.append_nil, List.append_assoc]
    exact (hoff.append_right _).trans (by
      rw [List.append_assoc]
      exact List.perm_append_comm.append_left _)
  case dropped => simpa [droppedIn_append, Outcome.nothing, hcounts.1] using hdropped
  case expired => simpa [expiredIn_append, Outcome.nothing, hcounts.2] using hexpired
  -- up to 2^64 events no number comes twice, so the key is new and the event goes to the end
  case exact =>
    intro hle
    rw [acceptedIn_append, List.length_append] at hle
    have hlt : (acceptedIn h).length < 2 ^ 64 := hle
    obtain ⟨hcount', hfifo, honce⟩ := hexact hlt.le
    have hevents : (s.1.acceptEvent s.2 update).1.events =
        s.1.events ++ [(.event s.1.takeNumber.nextEvent, update)] := by
      have hline := (@insert_new _ s.1.takeNumber s.2 _ update hheld.lined
        (hfresh hlt)).2.2
      have heq : s.1.acceptEvent s.2 update =
          s.1.takeNumber.insert s.2 (.event s.1.takeNumber.nextEvent) update :=
        if_neg (Nat.not_le_of_lt hroom)
      unfold Pending.events
      rw [heq, hline, List.filter_append]
      rfl
    constructor
    · rw [hcount, hevents, List.length_append, hcount']
      rfl
    · rw [hevents, acceptedIn_append, removedIn_append]
      simpa [Outcome.nothing] using
        hfifo.append (.refl [(Key.event s.1.takeNumber.nextEvent, update)])
    · rw [hevents, acceptedIn_append, removedIn_append, expiredIn_append]
      simpa [Outcome.nothing] using
        honce.append_right [(Key.event s.1.takeNumber.nextEvent, update)]

/-- **An event is dropped.** -/
theorem Numbered.drop {h : List (Event δ)} {s : Pending δ × Counters} (hn : Numbered h s)
    {update : Update δ} (hevent : update.payload.isEvent = true)
    (hfull : MAX_EVENTS ≤ s.1.eventCount) :
    Numbered (h ++ [⟨s, .accept update, acceptOutcome s.1 update, s.1.acceptEvent s.2 update⟩])
      (s.1.acceptEvent s.2 update) := by
  have houtcome : acceptOutcome s.1 update = { Outcome.nothing with dropped := [update] } := by
    unfold acceptOutcome
    rw [if_pos hevent, if_pos hfull]
  have hdrop : s.1.acceptEvent s.2 update =
      (s.1, { s.2 with droppedEvents := s.2.droppedEvents + 1 }) := if_pos hfull
  obtain ⟨hnext, hkeys, hoff, hdropped, hexpired, hexact⟩ := hn
  rw [houtcome, hdrop]
  constructor
  case next => simpa [acceptedIn_append, Outcome.nothing] using hnext
  case keys => simpa [acceptedIn_append, Outcome.nothing] using hkeys
  case offered =>
    have hone : offeredIn [(⟨s, .accept update, { Outcome.nothing with dropped := [update] },
        (s.1, { s.2 with droppedEvents := s.2.droppedEvents + 1 })⟩ : Event δ)] = [update] := by
      simp [offeredIn, hevent]
    rw [offeredIn_append, hone]
    simpa [acceptedIn_append, droppedIn_append, Outcome.nothing] using hoff.append_right [update]
  case dropped => simp [droppedIn_append, hdropped]
  case expired => simpa [expiredIn_append, Outcome.nothing] using hexpired
  case exact =>
    intro hle
    obtain ⟨hcount, hfifo, honce⟩ := hexact
      (by simpa [acceptedIn_append, Outcome.nothing] using hle)
    constructor
    · exact hcount
    · simpa [acceptedIn_append, removedIn_append, Outcome.nothing] using hfifo
    · simpa [acceptedIn_append, removedIn_append, expiredIn_append, Outcome.nothing] using honce

/-- **Expiry** takes events out of the line, each into the account of the expired. -/
theorem Numbered.expire {h : List (Event δ)} {s : Pending δ × Counters} (hn : Numbered h s)
    (hheld : Held s.1) (now epoch : ℕ) :
    Numbered (h ++ [⟨s, .expire now epoch, { Outcome.nothing with
        expired := s.1.line.filter fun e => !Pending.keep now epoch e.1 e.2 },
        s.1.expire s.2 now epoch⟩]) (s.1.expire s.2 now epoch) := by
  obtain ⟨-, -, hline, hcount'⟩ := @expire_held _ _ hheld s.2 now epoch s.1.values.lookup
    (fun _ _ _ hu => hu)
  obtain ⟨hnext, hkeys, hoff, hdropped, hexpired, hexact⟩ := hn
  constructor
  case next => simpa [acceptedIn_append, Outcome.nothing, Pending.expire] using hnext
  case keys => simpa [acceptedIn_append, Outcome.nothing] using hkeys
  case offered =>
    rw [offeredIn_append]
    simpa [acceptedIn_append, droppedIn_append, Outcome.nothing, offeredIn] using hoff
  case dropped => simpa [droppedIn_append, Outcome.nothing, Pending.expire] using hdropped
  case expired =>
    have hentries : (s.1.values.entries.countP fun e => !Pending.keep now epoch e.1 e.2) =
        (s.1.line.filter fun e => !Pending.keep now epoch e.1 e.2).length := by
      unfold Pending.line
      rw [← List.countP_eq_length_filter, hheld.lined.perm_entries.countP_eq, List.countP_map]
      rfl
    rw [expiredIn_append, List.length_append, ← hexpired]
    exact congrArg (s.2.expired + ·) hentries
  case exact =>
    intro hle
    obtain ⟨-, hfifo, honce⟩ := hexact
      (by simpa [acceptedIn_append, Outcome.nothing] using hle)
    have hevents : (s.1.expire s.2 now epoch).1.events =
        s.1.events.filter fun e => Pending.keep now epoch e.1 e.2 := by
      unfold Pending.events
      rw [hline, List.filter_filter, List.filter_filter]
      exact List.filter_congr fun e _ => Bool.and_comm _ _
    have hgone : eventsOf (s.1.line.filter fun e => !Pending.keep now epoch e.1 e.2) =
        s.1.events.filter fun e => !Pending.keep now epoch e.1 e.2 := by
      unfold Pending.events eventsOf
      rw [List.filter_filter, List.filter_filter]
      exact List.filter_congr fun e _ => Bool.and_comm _ _
    constructor
    · exact hcount'
    · rw [acceptedIn_append, removedIn_append, hevents]
      have hsub : (eventsOf (removedIn h) ++ s.1.events.filter fun e =>
          Pending.keep now epoch e.1 e.2).Sublist (acceptedIn h) :=
        (List.filter_sublist.append_left _).trans hfifo
      simpa [Outcome.nothing] using hsub
    · rw [acceptedIn_append, removedIn_append, expiredIn_append, hevents, eventsOf_append]
      have hsplit := List.filter_append_perm (fun e => Pending.keep now epoch e.1 e.2)
        s.1.events
      show (acceptedIn h ++ []).Perm (eventsOf (expiredIn h) ++ eventsOf _ ++
        (eventsOf (removedIn h ++ []) ++ _))
      rw [List.append_nil, List.append_nil, hgone]
      generalize s.1.events.filter (fun e => Pending.keep now epoch e.1 e.2) = kept at hsplit ⊢
      generalize (s.1.events.filter fun e => !Pending.keep now epoch e.1 e.2) = gone at hsplit ⊢
      -- the line is what is kept and what goes, and what goes changes the account
      refine honce.trans ?_
      rw [List.append_assoc]
      refine List.Perm.append_left _ ?_
      refine (hsplit.symm.append_left _).trans ?_
      rw [← List.append_assoc]
      exact List.perm_append_comm

/-- **The front key leaves**; if it is an event, it is the one that has waited longest. -/
theorem Numbered.remove {h : List (Event δ)} {s : Pending δ × Counters} (hn : Numbered h s)
    {p' : Pending δ} {o : Outcome δ} (hline : s.1.line = o.removed ++ p'.line)
    (hnext' : p'.nextEvent = s.1.nextEvent)
    (hcount' : p'.eventCount + (o.removed.filter (·.1.isEvent)).length = s.1.eventCount)
    (haccepted : o.accepted = []) (hdropped' : o.dropped = []) (hexpired' : o.expired = []) :
    Numbered (h ++ [⟨s, .removeFront, o, (p', s.2)⟩]) (p', s.2) := by
  obtain ⟨hnext, hkeys, hoff, hdropped, hexpired, hexact⟩ := hn
  have hevents : s.1.events = eventsOf o.removed ++ p'.events := by
    unfold Pending.events
    rw [hline, List.filter_append]
    rfl
  constructor
  case next => simpa [acceptedIn_append, haccepted, hnext'] using hnext
  case keys => simpa [acceptedIn_append, haccepted] using hkeys
  case offered =>
    rw [offeredIn_append]
    simpa [acceptedIn_append, droppedIn_append, haccepted, hdropped', offeredIn] using hoff
  case dropped => simpa [droppedIn_append, hdropped'] using hdropped
  case expired => simpa [expiredIn_append, hexpired'] using hexpired
  case exact =>
    intro hle
    obtain ⟨hcount, hfifo, honce⟩ := hexact (by simpa [acceptedIn_append, haccepted] using hle)
    constructor
    · have hlen := congrArg List.length hevents
      rw [List.length_append] at hlen
      have hremoved : (eventsOf o.removed).length =
        (o.removed.filter (·.1.isEvent)).length := rfl
      show p'.eventCount = p'.events.length
      omega
    · rw [acceptedIn_append, removedIn_append, haccepted, eventsOf_append]
      simpa [hevents] using hfifo
    · rw [acceptedIn_append, removedIn_append, expiredIn_append, haccepted, hexpired',
        List.append_nil, List.append_nil, eventsOf_append]
      simpa [hevents] using honce

/-! ## Section 7: The main theorem -/

/-- What holds in every state that is reached. -/
structure Waiting (h : List (Event δ)) (p : Pending δ) : Prop where
  /-- The queue lists every key once and nothing else. -/
  lined      : AList.Lined p.values p.order
  eventBound : p.eventCount ≤ MAX_EVENTS
  bounded    : p.values.keys.length ≤ 3 + MAX_AIRCRAFT + MAX_EVENTS
  /-- The value of a key that is no event is the one last accepted; aircraft that the last
      set left out are gone. -/
  latest     : Fresh p (lastAccepted h)
  /-- What is replaced keeps its place, what is new goes to the end. -/
  placed     : ∀ e ∈ h, ∀ update, e.input = .accept update →
    ∃ new, Placed e.before.1 e.after.1 new

/-- What holds of the events. -/
structure Accounted (h : List (Event δ)) (s : Pending δ × Counters) : Prop where
  count    : s.1.eventCount = s.1.values.keys.countP Key.isEvent
  /-- No number is given twice. -/
  distinct : ((acceptedIn h).map Prod.fst).Nodup
  fifo     : (eventsOf (removedIn h) ++ s.1.events).Sublist (acceptedIn h)
  once     : (acceptedIn h).Perm (eventsOf (expiredIn h) ++ (eventsOf (removedIn h) ++ s.1.events))
  offered  : (offeredIn h).Perm ((acceptedIn h).map Prod.snd ++ droppedIn h)
  dropped  : s.2.droppedEvents = (droppedIn h).length
  expired  : s.2.expired = (expiredIn h).length

/-- The invariant of all runs. -/
structure Invariant (h : List (Event δ)) (s : Pending δ × Counters) : Prop where
  held     : Held s.1
  fresh    : Fresh s.1 (lastAccepted h)
  numbered : Numbered h s

theorem invariant_init : Invariant ([] : List (Event δ)) (Pending.default, ⟨0, 0, 0⟩) where
  held := .default
  fresh k u _ hu := by
    have hnone : (∅ : AList fun _ : Key => Update δ).lookup k = some u := hu
    rw [AList.lookup_empty] at hnone
    cases hnone
  numbered := ⟨rfl, rfl, .refl _, rfl, rfl, fun _ => ⟨rfl, .refl _, .refl _⟩⟩

theorem invariant_step {h : List (Event δ)} {s : Pending δ × Counters} (hinv : Invariant h s)
    (i : Input δ) :
    ∃ s' o, machine.step s i = some (s', o) ∧ Invariant (h ++ [⟨s, i, o, s'⟩]) s' ∧
      ∀ update, i = .accept update → ∃ new, Placed s.1 s'.1 new := by
  obtain ⟨hheld, hfresh, hnumbered⟩ := hinv
  cases i with
  | accept update =>
    obtain ⟨hheld', hplaced, hfresh'⟩ := accept_held hheld s.2 update hfresh
    refine ⟨_, _, rfl, ⟨hheld', ?_, ?_⟩, fun _ _ => hplaced⟩
    · rw [lastAccepted_append]
      exact hfresh'
    -- only events are numbered; of these one is dropped when there are too many
    · by_cases hevent : update.payload.isEvent = true
      · have heq : s.1.accept s.2 update = s.1.acceptEvent s.2 update := by
          rcases accept_cases s.1 s.2 update with ⟨_, -, hnot, -⟩ | ⟨_, -, -, -, hnot, -⟩ |
            ⟨-, -, heq⟩
          · exact absurd hevent (hnot ▸ Bool.false_ne_true)
          · exact absurd hevent (hnot ▸ Bool.false_ne_true)
          · exact heq
        rw [heq]
        rcases Nat.lt_or_ge s.1.eventCount MAX_EVENTS with hroom | hfull
        · exact hnumbered.number hheld hevent hroom
        · exact hnumbered.drop hevent hfull
      · obtain ⟨hsame, hcounts⟩ := accept_other hheld s.2 (Bool.not_eq_true _ ▸ hevent)
        refine hnumbered.quiet hsame hcounts ?_ ?_
        · unfold acceptOutcome
          rw [if_neg hevent]
        · simp [offeredIn, hevent]
  | expire now epoch =>
    obtain ⟨hheld', hfresh', -, -⟩ := expire_held hheld s.2 now epoch hfresh
    refine ⟨_, _, rfl, ⟨hheld', ?_, hnumbered.expire hheld now epoch⟩, ?_⟩
    · rw [lastAccepted_append]
      exact hfresh'
    · intro update heq
      cases heq
  | removeFront =>
    obtain ⟨p', o, hremove, hheld', hfresh', hline, hnext, hcount, hacc, hdrop, hexp⟩ :=
      removeFront_held hheld hfresh
    refine ⟨(p', s.2), o, ?_, ⟨hheld', ?_,
      hnumbered.remove hline hnext hcount hacc hdrop hexp⟩, ?_⟩
    · show (removeFront s.1).map _ = _
      rw [hremove]
      rfl
    · rw [lastAccepted_append]
      exact hfresh'
    · intro update heq
      cases heq

theorem Invariant.accounted {h : List (Event δ)} {s : Pending δ × Counters}
    (hinv : Invariant h s) (hle : (acceptedIn h).length ≤ 2 ^ 64) : Accounted h s := by
  obtain ⟨hcount, hfifo, honce⟩ := hinv.numbered.exact hle
  refine ⟨?_, ?_, hfifo, honce, hinv.numbered.offered, hinv.numbered.dropped,
    hinv.numbered.expired⟩
  · rw [hcount, ← countP_order hinv.held.lined, hinv.held.lined.perm_keys.countP_eq]
  · rw [hinv.numbered.keys]
    refine List.Nodup.map_on (fun i hi j hj heq => ?_) List.nodup_range
    have hnumber := Key.event.inj heq
    have hi' := List.mem_range.1 hi
    have hj' := List.mem_range.1 hj
    omega

/-- **The pending queue.** Whatever is accepted, expired and removed, map, queue and count
    agree and no lookup of the front key fails; until all numbers are used up, every event
    offered is dropped, expired, waiting or removed, exactly once. -/
theorem pending_spec (is : List (Input δ)) :
    ∃ t h, machine.run machine.init is = some (t, h) ∧ Waiting h t.1 ∧
      ((acceptedIn h).length ≤ 2 ^ 64 → Accounted h t) := by
  obtain ⟨t, h, hrun, hinv, hsteps⟩ := (machine (δ := δ)).run_safe_steps (I := fun _ => True)
    (Q := fun _ e => ∀ update, e.input = .accept update →
      ∃ new, Placed e.before.1 e.after.1 new) invariant_init
    (fun h s i hinv _ => invariant_step hinv i) is (fun _ _ => trivial)
  refine ⟨t, h, hrun, ⟨hinv.held.lined, hinv.held.bound, hinv.held.length_le, hinv.fresh, ?_⟩,
    hinv.accounted⟩
  intro e he
  obtain ⟨past, later, heq⟩ := List.append_of_mem he
  exact hsteps past e later heq

/-! ## Section 8: When the numbers start again -/

def fresh : Update Unit := ⟨1, "ez", 0, .raw ()⟩

def stale : Update Unit := ⟨0, "ez", 0, .raw ()⟩

/-- Two events, of which the first one has left. -/
theorem pending_spec_twoEvents :
    ∃ t h, machine.run machine.init [.accept fresh, .accept stale, .removeFront] = some (t, h) ∧
      Waiting h t.1 ∧ Accounted h t := by
  obtain ⟨t, h, hrun, hwaiting, haccounted⟩ :=
    pending_spec [.accept fresh, .accept stale, .removeFront]
  refine ⟨t, h, hrun, hwaiting, haccounted ?_⟩
  have hlen : (machine.run machine.init [.accept fresh, .accept stale, .removeFront]).map
      (fun r => (acceptedIn r.2).length) = some 2 := rfl
  rw [hrun] at hlen
  rw [show (acceptedIn h).length = 2 from Option.some.inj hlen]
  exact Nat.le_of_ble_eq_true rfl

/-- One event waits; `n` later ones have come and gone. -/
def oneWaits (n : ℕ) : Pending Unit × Counters :=
  (⟨AList.singleton (.event 1) fresh, [.event 1], (n + 1) % 2 ^ 64, 1⟩, ⟨0, 0, n⟩)

/-- Events of an old configuration, each of which expires. -/
def staleEvents : ℕ → List (Input Unit)
  | 0 => []
  | n + 1 => staleEvents n ++ [.accept stale, .expire 0 1]

/-- The map while a stale event waits under `key`. -/
theorem entries_stale {key : Key} (hkey : key ≠ .event 1) :
    ((AList.singleton (.event 1) fresh).insert key stale :
      AList fun _ : Key => Update Unit).entries = [⟨key, stale⟩, ⟨.event 1, fresh⟩] := by
  have hnot : key ∉ (AList.singleton (.event 1) fresh : AList fun _ : Key => Update Unit) := by
    rw [AList.mem_keys, AList.keys_singleton, List.mem_singleton]
    exact hkey
  rw [AList.entries_insert_of_notMem hnot]
  rfl

/-- A stale event comes and goes. -/
theorem step_stale {n : ℕ} (hn : n + 1 < 2 ^ 64) :
    ∃ h, machine.run (oneWaits n) [.accept stale, .expire 0 1] = some (oneWaits (n + 1), h) := by
  set key := Key.event (((n + 1) % 2 ^ 64 + 1) % 2 ^ 64) with hdef
  have hkey : key ≠ .event 1 := by
    intro heq
    have := Key.event.inj heq
    omega
  have hnot : key ∉ (AList.singleton (.event 1) fresh : AList fun _ : Key => Update Unit) := by
    rw [AList.mem_keys, AList.keys_singleton, List.mem_singleton]
    exact hkey
  have hretain : ((AList.singleton (.event 1) fresh).insert key stale).retain
      (Pending.keep 0 1) = AList.singleton (.event 1) fresh := by
    apply AList.ext
    unfold AList.retain
    dsimp only
    rw [entries_stale hkey]
    rfl
  have haccept : (oneWaits n).1.accept (oneWaits n).2 stale =
      (⟨(AList.singleton (.event 1) fresh).insert key stale, [.event 1, key],
        ((n + 1) % 2 ^ 64 + 1) % 2 ^ 64, 2⟩, ⟨0, 0, n⟩) := if_neg hnot
  have hexpire : (⟨(AList.singleton (.event 1) fresh).insert key stale, [.event 1, key],
      ((n + 1) % 2 ^ 64 + 1) % 2 ^ 64, 2⟩ : Pending Unit).expire ⟨0, 0, n⟩ 0 1 =
        oneWaits (n + 1) := by
    unfold Pending.expire
    dsimp only
    rw [hretain, entries_stale hkey]
    have horder : ([.event 1, key] : List Key).filter
        (· ∈ (AList.singleton (.event 1) fresh : AList fun _ : Key => Update Unit)) =
          [.event 1] := by
      simp [AList.mem_keys, hkey]
    rw [horder, Nat.mod_add_mod]
    rfl
  have hboth : ((oneWaits n).1.accept (oneWaits n).2 stale).1.expire
      ((oneWaits n).1.accept (oneWaits n).2 stale).2 0 1 = oneWaits (n + 1) := by
    rw [haccept]
    exact hexpire
  exact ⟨_, (Machine.run_cons_eq_some _).2 ⟨_, _, _, rfl,
    (Machine.run_cons_eq_some _).2 ⟨_, _, _, rfl,
      congrArg (fun s => some (s, [])) hboth, rfl⟩, rfl⟩⟩

theorem run_staleEvents (n : ℕ) (hn : n < 2 ^ 64) :
    ∃ h, machine.run (oneWaits 0) (staleEvents n) = some (oneWaits n, h) := by
  induction n with
  | zero => exact ⟨[], rfl⟩
  | succ n ih =>
    obtain ⟨h, hrun⟩ := ih (by omega)
    obtain ⟨h', hstep⟩ := step_stale hn
    exact ⟨h ++ h', (Machine.run_append _).2 ⟨_, _, _, hrun, hstep, rfl⟩⟩

/-- The number `1` is given again: the later event takes the place of the one that waits. -/
theorem accept_again {n : ℕ} (hn : n + 1 = 2 ^ 64) :
    (oneWaits n).1.accept (oneWaits n).2 fresh =
      (⟨AList.singleton (.event 1) fresh, [.event 1], 1, 2⟩, ⟨1, 0, n⟩) := by
  have hnumber : ((n + 1) % 2 ^ 64 + 1) % 2 ^ 64 = 1 := by
    rw [hn]
    rfl
  show Pending.insert ⟨AList.singleton (.event 1) fresh, [.event 1],
    ((n + 1) % 2 ^ 64 + 1) % 2 ^ 64, 2⟩ ⟨0, 0, n⟩
    (.event (((n + 1) % 2 ^ 64 + 1) % 2 ^ 64)) fresh = _
  rw [hnumber]
  rfl

theorem run_again {n : ℕ} (hn : n + 1 = 2 ^ 64) :
    ∃ t h, machine.run machine.init (.accept fresh :: (staleEvents n ++ [.accept fresh])) =
        some (t, h) ∧
      t.1.eventCount ≠ t.1.values.keys.countP Key.isEvent := by
  obtain ⟨h, hrun⟩ := run_staleEvents n (by omega)
  have hrest : ∃ h', machine.run (oneWaits 0) (staleEvents n ++ [.accept fresh]) =
      some ((⟨AList.singleton (.event 1) fresh, [.event 1], 1, 2⟩, ⟨1, 0, n⟩), h') :=
    ⟨_, (Machine.run_append _).2 ⟨_, _, _, hrun, (Machine.run_cons_eq_some _).2
      ⟨_, _, _, rfl, congrArg (fun s => some (s, [])) (accept_again hn), rfl⟩, rfl⟩⟩
  obtain ⟨h', hrest⟩ := hrest
  refine ⟨_, _, (Machine.run_cons_eq_some _).2 ⟨oneWaits 0, _, _, rfl, hrest, rfl⟩, ?_⟩
  show 2 ≠ (AList.singleton (Key.event 1) fresh).keys.countP Key.isEvent
  decide

/-- After `2 ^ 64` events two of them share a number, and the count is one too many. -/
theorem number_given_twice :
    ∃ t h, machine.run machine.init
        (.accept fresh :: (staleEvents (2 ^ 64 - 1) ++ [.accept fresh])) = some (t, h) ∧
      t.1.eventCount ≠ t.1.values.keys.countP Key.isEvent :=
  run_again (Nat.sub_add_cancel Nat.one_le_two_pow)

end Mqtt
