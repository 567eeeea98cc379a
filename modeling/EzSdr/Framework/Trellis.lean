import Mathlib

/-! # Survivor Paths in a Trellis

    A convolutional encoder is a machine that emits a symbol in every step; a
    maximum likelihood decoder keeps, for every state, the cheapest path into
    it and the step that path ended with.

    * **`Survivors`**: the metrics of all states belong to cheapest paths.
    * **`Selected`**: what one add-compare-select step has to compute, and
      **`Survivors.select`**: it extends the survivors by one symbol.
    * **`spread_le`**: the metrics of a machine with a finite memory stay close.
    * **`trace`**: following stored decisions backwards reads the end of a
      survivor.
    * **`Survivors.distance_le`**: the best survivor is as close to the path
      that was sent as twice the number of errors.
    * **`forward_le`**, **`backward_le`**: potentials that bound the weight of
      a walk from below.
-/

/-- A machine whose last input can be read off its state. -/
structure Trellis (σ ι ω : Type*) where
  next : σ → ι → σ
  emit : σ → ι → ω
  last : σ → ι
  last_next : ∀ s u, last (next s u) = u

namespace Trellis

variable {σ ι ω : Type*} (T : Trellis σ ι ω)

/-! ## Paths -/

def endState (s : σ) (us : List ι) : σ := us.foldl T.next s

def encode (s : σ) : List ι → List ω
  | [] => []
  | u :: us => T.emit s u :: encode (T.next s u) us

theorem endState_append (s : σ) (us vs : List ι) :
    T.endState s (us ++ vs) = T.endState (T.endState s us) vs :=
  List.foldl_append

theorem endState_concat (s : σ) (us : List ι) (u : ι) :
    T.endState s (us ++ [u]) = T.next (T.endState s us) u :=
  T.endState_append s us [u]

theorem encode_append (s : σ) (us vs : List ι) :
    T.encode s (us ++ vs) = T.encode s us ++ T.encode (T.endState s us) vs := by
  induction us generalizing s with
  | nil => rfl
  | cons u us ih =>
    show T.emit s u :: T.encode (T.next s u) (us ++ vs) = _
    rw [ih]
    rfl

@[simp] theorem encode_length (s : σ) (us : List ι) : (T.encode s us).length = us.length := by
  induction us generalizing s with
  | nil => rfl
  | cons u us ih => exact congrArg Nat.succ (ih _)

/-! ## Distances -/

section Distance

variable (d : ω → ω → Nat)

/-- The number of places, counted by `d`, in which two words differ. -/
def distance (xs ys : List ω) : Nat := (List.zipWith d xs ys).sum

@[simp] theorem distance_nil : distance d [] [] = 0 := rfl

@[simp] theorem distance_cons (x y : ω) (xs ys : List ω) :
    distance d (x :: xs) (y :: ys) = d x y + distance d xs ys := by
  simp [distance]

variable {d}

theorem distance_append {xs ys : List ω} (h : xs.length = ys.length) (xs' ys' : List ω) :
    distance d (xs ++ xs') (ys ++ ys') = distance d xs ys + distance d xs' ys' := by
  simp [distance, List.zipWith_append h]

theorem distance_comm (hcomm : ∀ x y, d x y = d y x) (xs ys : List ω) :
    distance d xs ys = distance d ys xs := by
  show (List.zipWith d xs ys).sum = (List.zipWith d ys xs).sum
  rw [List.zipWith_comm]
  simp only [hcomm]

theorem distance_self (hself : ∀ x, d x x = 0) (xs : List ω) : distance d xs xs = 0 := by
  induction xs with
  | nil => rfl
  | cons x xs ih => rw [distance_cons, hself, ih]

theorem distance_triangle (htri : ∀ x y z, d x z ≤ d x y + d y z) {xs ys zs : List ω}
    (hxy : xs.length = ys.length) (hyz : ys.length = zs.length) :
    distance d xs zs ≤ distance d xs ys + distance d ys zs := by
  induction xs generalizing ys zs with
  | nil => simp [distance]
  | cons x xs ih =>
    match ys, zs with
    | y :: ys, z :: zs =>
      have hrest := ih (Nat.succ.inj hxy) (Nat.succ.inj hyz)
      have hhead := htri x y z
      simp only [distance_cons]
      omega

theorem distance_le {w : Nat} (hw : ∀ x y, d x y ≤ w) {xs ys : List ω}
    (h : xs.length = ys.length) : distance d xs ys ≤ w * xs.length := by
  induction xs generalizing ys with
  | nil => simp [distance]
  | cons x xs ih =>
    match ys with
    | y :: ys =>
      have hrest := ih (Nat.succ.inj h)
      have hhead := hw x y
      rw [distance_cons, List.length_cons, Nat.mul_succ]
      omega

end Distance

/-! ## Survivors -/

section Survivors

variable (d : ω → ω → Nat) (inf : Nat) (start : σ)

/-- Every state that some path of the received length reaches has a metric
    below the sentinel `inf`, and it is, up to a common `offset`, the distance
    of a cheapest path into that state. -/
structure Survivors (received : List ω) (metric : σ → Nat) (offset : Nat)
    (path : σ → List ι) : Prop where
  length : ∀ s, metric s < inf → (path s).length = received.length
  ends : ∀ s, metric s < inf → T.endState start (path s) = s
  cost : ∀ s, metric s < inf →
    distance d (T.encode start (path s)) received = metric s + offset
  least : ∀ us : List ι, us.length = received.length →
    metric (T.endState start us) < inf ∧
      metric (T.endState start us) + offset ≤ distance d (T.encode start us) received

/-- What an add-compare-select step computes from the metrics before it. -/
structure Selected (symbol : ω) (metric metric' : σ → Nat) (predecessor : σ → σ) : Prop where
  least : ∀ s u, metric s < inf → metric' (T.next s u) ≤ metric s + d (T.emit s u) symbol
  achieved : ∀ t, metric' t < inf → metric (predecessor t) < inf ∧
    T.next (predecessor t) (T.last t) = t ∧
    metric' t = metric (predecessor t) + d (T.emit (predecessor t) (T.last t)) symbol

variable {T d inf start} {received : List ω} {metric metric' : σ → Nat} {offset : Nat}
  {path : σ → List ι} {predecessor : σ → σ} {symbol : ω}

/-- Before the first symbol only the initial state is reached. -/
theorem Survivors.init (hstart : metric start = 0) (hinf : 0 < inf)
    (hother : ∀ s, metric s < inf → s = start) :
    T.Survivors d inf start [] metric 0 (fun _ => []) where
  length _ _ := rfl
  ends s hs := (hother s hs).symm
  cost s hs := by
    rw [hother s hs, hstart]
    rfl
  least us hus := by
    rw [List.eq_nil_of_length_eq_zero hus]
    show metric start < inf ∧ metric start + 0 ≤ 0
    omega

/-- A step extends the survivors, as long as no cost reaches the sentinel. -/
theorem Survivors.select (h : T.Survivors d inf start received metric offset path)
    (hsel : T.Selected d inf symbol metric metric' predecessor)
    (hroom : ∀ s u, metric s < inf → metric s + d (T.emit s u) symbol < inf) :
    T.Survivors d inf start (received ++ [symbol]) metric' offset
      (fun t => path (predecessor t) ++ [T.last t]) where
  length t ht := by
    have hpred := (hsel.achieved t ht).1
    rw [List.length_append, List.length_append, h.length _ hpred]
    rfl
  ends t ht := by
    obtain ⟨hpred, hnext, -⟩ := hsel.achieved t ht
    rw [endState_concat, h.ends _ hpred, hnext]
  cost t ht := by
    obtain ⟨hpred, -, hcost⟩ := hsel.achieved t ht
    have hlen : (T.encode start (path (predecessor t))).length = received.length := by
      rw [encode_length, h.length _ hpred]
    rw [encode_append, distance_append hlen, h.cost _ hpred, h.ends _ hpred, hcost]
    show _ + distance d [_] [_] = _
    rw [distance_cons, distance_nil]
    omega
  least us hus := by
    -- split off the last input: the rest is a path into some predecessor
    obtain ⟨vs, v, rfl⟩ : ∃ vs v, us = vs ++ [v] := by
      have hne : us ≠ [] := by
        intro hnil
        rw [hnil, List.length_append] at hus
        simp at hus
      exact ⟨us.dropLast, us.getLast hne, (List.dropLast_append_getLast hne).symm⟩
    have hvs : vs.length = received.length := by
      simpa using hus
    obtain ⟨hfinite, hleast⟩ := h.least vs hvs
    have hstep := hsel.least _ v hfinite
    have hbound := hroom _ v hfinite
    have hlen : (T.encode start vs).length = received.length := by
      rw [encode_length, hvs]
    rw [endState_concat, encode_append, distance_append hlen]
    refine ⟨by omega, ?_⟩
    show _ ≤ _ + distance d [_] [_]
    rw [distance_cons, distance_nil]
    omega

/-- Subtracting a common amount from all finite metrics moves the offset. -/
theorem Survivors.normalize (h : T.Survivors d inf start received metric offset path)
    {low : Nat} (hlow : ∀ s, metric s < inf → low ≤ metric s)
    (hfinite : ∀ s, metric s < inf → metric' s = metric s - low)
    (hother : ∀ s, ¬ metric s < inf → metric' s = metric s) :
    T.Survivors d inf start received metric' (offset + low) path := by
  have hiff : ∀ s, metric' s < inf → metric s < inf := by
    intro s hs
    by_contra hnot
    rw [hother s hnot] at hs
    exact hnot hs
  refine ⟨fun s hs => h.length s (hiff s hs), fun s hs => h.ends s (hiff s hs), ?_, ?_⟩
  · intro s hs
    have hs' := hiff s hs
    have := hlow s hs'
    rw [h.cost s hs', hfinite s hs']
    omega
  · intro us hus
    obtain ⟨hless, hle⟩ := h.least us hus
    have := hlow _ hless
    rw [hfinite _ hless]
    omega

/-- The best survivor costs no more than the path that was sent, so it is
    close to it. -/
theorem Survivors.distance_le (h : T.Survivors d inf start received metric offset path)
    (hcomm : ∀ x y, d x y = d y x) (htri : ∀ x y z, d x z ≤ d x y + d y z)
    {us : List ι} (hus : us.length = received.length) {errors : Nat}
    (herrors : distance d (T.encode start us) received ≤ errors)
    {best : σ} (hbest : ∀ s, metric best ≤ metric s) :
    (path best).length = us.length ∧ T.endState start (path best) = best ∧
      distance d (T.encode start (path best)) (T.encode start us) ≤ 2 * errors := by
  obtain ⟨hfinite, hleast⟩ := h.least us hus
  have hless : metric best < inf := Nat.lt_of_le_of_lt (hbest _) hfinite
  have hlen := h.length best hless
  have hcost := h.cost best hless
  have hthrough := distance_triangle htri
    (show (T.encode start (path best)).length = received.length by rw [encode_length, hlen])
    (show received.length = (T.encode start us).length by rw [encode_length, hus])
  have hsymm := distance_comm hcomm received (T.encode start us)
  have hmin := hbest (T.endState start us)
  exact ⟨hlen.trans hus.symm, h.ends best hless, by omega⟩

/-! ## The metrics stay close together -/

/-- After `memory` inputs the state does not depend on where they began. -/
def Forgets (T : Trellis σ ι ω) (memory : Nat) : Prop :=
  ∀ (s t : σ) (us : List ι), us.length = memory → T.endState s us = T.endState t us

/-- Two paths with the same last `memory` inputs end alike. -/
theorem Forgets.endState_eq {memory : Nat} (hforgets : T.Forgets memory) (s t : σ)
    {us : List ι} (hus : memory ≤ us.length) :
    T.endState s us = T.endState t us := by
  have hsplit := (List.take_append_drop (us.length - memory) us).symm
  rw [hsplit, endState_append, endState_append]
  refine hforgets _ _ _ ?_
  rw [List.length_drop]
  omega

/-- A reached state costs at most `memory` symbols more than the best one:
    follow the best survivor and change only its last `memory` inputs. -/
theorem Survivors.spread_le (h : T.Survivors d inf start received metric offset path)
    {memory width : Nat} (hforgets : T.Forgets memory) (hwidth : ∀ x y, d x y ≤ width)
    {s best : σ} (hs : metric s < inf) (hbest : metric best < inf) :
    metric s ≤ metric best + width * memory := by
  set common := received.length - memory with hcommon
  set us := (path best).take common ++ (path s).drop common with hus
  have hlenBest := h.length best hbest
  have hlenS := h.length s hs
  have htake : ((path best).take common).length = common := by
    rw [List.length_take]
    omega
  have hdrop : ((path s).drop common).length = received.length - common := by
    rw [List.length_drop, hlenS]
  have hlen : us.length = received.length := by
    rw [hus, List.length_append, htake, hdrop]
    omega
  have hends : T.endState start us = s := by
    -- with too few inputs nothing is kept of the best survivor
    rw [← h.ends s hs, hus, endState_append]
    conv_rhs => rw [← List.take_append_drop common (path s), endState_append]
    rcases Nat.lt_or_ge received.length memory with hshort | hlong
    · have hzero : common = 0 := by omega
      rw [hzero, List.take_zero, List.take_zero]
    · exact hforgets.endState_eq _ _ (by rw [hdrop]; omega)
  obtain ⟨-, hleast⟩ := h.least us hlen
  rw [hends] at hleast
  -- the common part costs as much as on the best survivor, the rest at most `width` a symbol
  have hsplit := (List.take_append_drop common received).symm
  have hcommonLen : ∀ vs : List ι, vs.length = common →
      (T.encode start vs).length = (received.take common).length := by
    intro vs hvs
    rw [encode_length, hvs, List.length_take]
    omega
  have hcostBest := h.cost best hbest
  rw [← List.take_append_drop common (path best), encode_append, hsplit,
    distance_append (hcommonLen _ htake)] at hcostBest
  rw [hus, encode_append, hsplit, distance_append (hcommonLen _ htake)] at hleast
  have hrest : (T.encode (T.endState start ((path best).take common))
      ((path s).drop common)).length = (received.drop common).length := by
    rw [encode_length, hdrop, List.length_drop]
  have htail := Trellis.distance_le hwidth hrest
  rw [encode_length, hdrop] at htail
  have hmem : width * (received.length - common) ≤ width * memory :=
    Nat.mul_le_mul_left width (by omega)
  omega

end Survivors

/-! ## Following decisions backwards -/

/-- The inputs of the steps whose decisions are given, the newest decision
    first; they come out oldest first. -/
def trace : List (σ → σ) → σ → List ι
  | [], _ => []
  | decision :: older, s => trace older (decision s) ++ [T.last s]

@[simp] theorem trace_length (history : List (σ → σ)) (s : σ) :
    (T.trace history s).length = history.length := by
  induction history generalizing s with
  | nil => rfl
  | cons decision older ih =>
    show (T.trace older (decision s) ++ [T.last s]).length = _
    rw [List.length_append, ih]
    rfl

/-- Forgetting the oldest decisions shortens the trace at its front. -/
theorem trace_take (history : List (σ → σ)) (n : Nat) (s : σ) :
    T.trace (history.take n) s <:+ T.trace history s := by
  induction history generalizing n s with
  | nil => rw [List.take_nil]
  | cons decision older ih =>
    match n with
    | 0 => exact List.nil_suffix
    | n + 1 =>
      obtain ⟨front, hfront⟩ := ih n (decision s)
      exact ⟨front, by
        show front ++ (T.trace (older.take n) (decision s) ++ [T.last s]) =
          T.trace older (decision s) ++ [T.last s]
        rw [← hfront, List.append_assoc]⟩

/-! ## Weights of walks -/

section Weight

variable {τ : Type*} (step : τ → ι → τ) (w : τ → ι → Nat)

/-- The weight of a walk in a graph with weighted steps. -/
def weight (x : τ) : List ι → Nat
  | [] => 0
  | u :: us => w x u + weight (step x u) us

theorem weight_append (x : τ) (us vs : List ι) :
    weight step w x (us ++ vs) = weight step w x us + weight step w (us.foldl step x) vs := by
  induction us generalizing x with
  | nil => exact (Nat.zero_add _).symm
  | cons u us ih =>
    show w x u + weight step w (step x u) (us ++ vs) = w x u + weight step w (step x u) us + _
    rw [ih, Nat.add_assoc]
    rfl

variable {step w}

/-- A potential that no step raises by more than its weight. -/
theorem forward_le {potential : τ → Nat}
    (hstep : ∀ x u, potential (step x u) ≤ potential x + w x u) (x : τ) (us : List ι) :
    potential (us.foldl step x) ≤ potential x + weight step w x us := by
  induction us generalizing x with
  | nil => exact Nat.le_refl _
  | cons u us ih =>
    have hrest := ih (step x u)
    have hhead := hstep x u
    show potential (us.foldl step (step x u)) ≤ potential x + (w x u + weight step w (step x u) us)
    omega

/-- Potentials for the number of steps left. -/
theorem backward_le {potential : Nat → τ → Nat} (hzero : ∀ x, potential 0 x = 0)
    (hstep : ∀ n x u, potential (n + 1) x ≤ w x u + potential n (step x u))
    {n : Nat} {us : List ι} (hn : n ≤ us.length) (x : τ) :
    potential n x ≤ weight step w x us := by
  induction us generalizing x n with
  | nil =>
    have hn0 : n = 0 := Nat.eq_zero_of_le_zero hn
    rw [hn0, hzero]
    exact Nat.zero_le _
  | cons u us ih =>
    match n with
    | 0 => rw [hzero]; exact Nat.zero_le _
    | n + 1 =>
      have hrest := ih (Nat.le_of_succ_le_succ hn) (step x u)
      have hhead := hstep n x u
      show potential (n + 1) x ≤ w x u + weight step w (step x u) us
      omega

end Weight

end Trellis
