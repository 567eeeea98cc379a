import EzSdr.Framework.Machine

/-! # Identities of Scheduled Passes

    The scheduler gives every forecast pass a job. A new forecast replaces the
    jobs; a pass takes over the id of the first old job of its satellite and
    downlink whose window it overlaps, unless another pass has taken it over
    before. Every other pass gets a new id.

    **`pass_job_identities`**: no two jobs share an id, no id changes its
    satellite or downlink, an id that stays belongs to overlapping windows, all
    others are larger than every id before them, and where the old and the new
    windows correspond one to one every id stays. -/

namespace Passes

/-! ## Section 1: The scheduler -/

/-- One pass of a forecast. A time that is not finite is `none`. -/
structure PassInfo where
  satellite   : String
  aos         : String
  los         : String
  frequencyHz : ℕ
  aosDt       : Option ℚ
  losDt       : Option ℚ

/-- A pass that begins before it ends. -/
structure Pass where
  satellite   : String
  aos         : String
  los         : String
  frequencyHz : ℕ
  aosDt       : ℚ
  losDt       : ℚ
  ordered     : aosDt < losDt

def PassInfo.pass? (p : PassInfo) : Option Pass :=
  match p.aosDt, p.losDt with
  | some aosDt, some losDt =>
    if ordered : aosDt < losDt then
      some ⟨p.satellite, p.aos, p.los, p.frequencyHz, aosDt, losDt, ordered⟩
    else none
  | _, _ => none

structure ScheduledJob extends Pass where
  id : ℕ

/-- Windows of one satellite and downlink that overlap. -/
def Pass.Overlaps (old p : Pass) : Prop :=
  old.satellite = p.satellite ∧ old.frequencyHz = p.frequencyHz ∧
    old.aosDt < p.losDt ∧ p.aosDt < old.losDt

instance (old p : Pass) : Decidable (old.Overlaps p) := inferInstanceAs (Decidable (_ ∧ _))

structure Scheduler where
  jobs      : List ScheduledJob
  nextJobId : ℕ

/-- The id of a pass, and the next new id; `none` when all ids are used up. -/
def takeId (previous : List ScheduledJob) (next : ℕ) (reused : List ℕ) (p : Pass) :
    Option (ℕ × ℕ) :=
  match previous.find? fun old => old.Overlaps p ∧ old.id ∉ reused with
  | some old => some (old.id, next)
  | none => if next + 1 < 2 ^ 64 then some (next, next + 1) else none

/-- The jobs of these passes, and the next new id after them. -/
def assign (previous : List ScheduledJob) :
    ℕ → List ℕ → List Pass → Option (List ScheduledJob × ℕ)
  | next, _, [] => some ([], next)
  | next, reused, p :: passes =>
    match takeId previous next reused p with
    | none => none
    | some (id, next) =>
      match assign previous next (id :: reused) passes with
      | none => none
      | some (jobs, next) => some (⟨p, id⟩ :: jobs, next)

namespace Scheduler

def new : Scheduler := ⟨[], 1⟩

def updateFromPasses (s : Scheduler) (passes : List PassInfo) : Option Scheduler :=
  match assign s.jobs s.nextJobId [] (passes.filterMap PassInfo.pass?) with
  | none => none
  | some (jobs, next) => some ⟨jobs, next⟩

/-- Forecasts in any number and order. -/
def machine : Machine Scheduler (List PassInfo) Unit where
  init := new
  step s passes := (s.updateFromPasses passes).map fun s' => (s', ())

end Scheduler

/-! ## Section 2: One id -/

section

variable {previous : List ScheduledJob} {next next' id : ℕ} {reused : List ℕ} {p : Pass}

/-- An id is taken over from an old job that overlaps, or it is new. -/
theorem takeId_cases (h : takeId previous next reused p = some (id, next')) :
    (∃ old ∈ previous, old.Overlaps p ∧ old.id ∉ reused ∧ id = old.id ∧ next' = next) ∨
      ((∀ old ∈ previous, old.Overlaps p → old.id ∈ reused) ∧ id = next ∧ next' = next + 1) := by
  unfold takeId at h
  split at h
  · next old hfind =>
    have hold := List.find?_some hfind
    simp only [decide_eq_true_eq] at hold
    obtain ⟨rfl, rfl⟩ := Prod.mk.inj (Option.some.inj h)
    exact .inl ⟨old, List.mem_of_find?_eq_some hfind, hold.1, hold.2, rfl, rfl⟩
  · next hfind =>
    split at h
    · obtain ⟨rfl, rfl⟩ := Prod.mk.inj (Option.some.inj h)
      refine .inr ⟨fun old hold hover => ?_, rfl, rfl⟩
      by_contra hfree
      simpa [hover, hfree] using List.find?_eq_none.mp hfind old hold
    · cases h

theorem assign_cons {passes : List Pass} {jobs : List ScheduledJob} {last : ℕ}
    (h : assign previous next reused (p :: passes) = some (jobs, last)) :
    ∃ id next' rest, takeId previous next reused p = some (id, next') ∧
      assign previous next' (id :: reused) passes = some (rest, last) ∧
      jobs = ⟨p, id⟩ :: rest := by
  unfold assign at h
  split at h
  · cases h
  · next id next' hid =>
    split at h
    · cases h
    · next rest last' hrest =>
      obtain ⟨rfl, rfl⟩ := Prod.mk.inj (Option.some.inj h)
      exact ⟨id, next', rest, hid, hrest, rfl⟩

end

/-! ## Section 3: One forecast -/

/-- What a forecast of these passes makes of the old jobs. -/
structure Assigned (previous : List ScheduledJob) (next : ℕ) (reused : List ℕ)
    (passes : List Pass) (jobs : List ScheduledJob) (next' : ℕ) : Prop where
  windows  : jobs.map ScheduledJob.toPass = passes
  le       : next ≤ next'
  below    : ∀ j ∈ jobs, j.id < next'
  unused   : ∀ j ∈ jobs, j.id ∉ reused
  distinct : (jobs.map ScheduledJob.id).Nodup
  /-- An id is that of an old job that overlaps, or it is new. -/
  origin   : ∀ j ∈ jobs, (∃ old ∈ previous, old.id = j.id ∧ old.Overlaps j.toPass) ∨ next ≤ j.id
  /-- A new id is larger than those before it in the list. -/
  rising   : ∀ front j rest, jobs = front ++ j :: rest → next ≤ j.id → ∀ i ∈ front, i.id < j.id

theorem assign_spec {previous : List ScheduledJob} :
    ∀ {passes : List Pass} {next next' : ℕ} {reused : List ℕ} {jobs : List ScheduledJob},
      (∀ old ∈ previous, old.id < next) → (∀ id ∈ reused, id < next) →
      assign previous next reused passes = some (jobs, next') →
      Assigned previous next reused passes jobs next' := by
  intro passes
  induction passes with
  | nil =>
    intro next next' reused jobs _ _ h
    obtain ⟨rfl, rfl⟩ := Prod.mk.inj (Option.some.inj h)
    exact ⟨rfl, le_rfl, by simp, by simp, by simp, by simp, by simp⟩
  | cons p passes ih =>
    intro next last reused jobs hprev hreused h
    obtain ⟨id, next', rest, hid, hrest, rfl⟩ := assign_cons h
    -- in both cases the id is below the next new one, and nobody has it yet
    have hhead : next ≤ next' ∧ id < next' ∧ id ∉ reused ∧
        ((∃ old ∈ previous, old.id = id ∧ old.Overlaps p) ∨ next ≤ id) := by
      rcases takeId_cases hid with ⟨old, hold, hover, hfree, rfl, rfl⟩ | ⟨-, rfl, rfl⟩
      · exact ⟨le_rfl, hprev old hold, hfree, .inl ⟨old, hold, rfl, hover⟩⟩
      · exact ⟨Nat.le_succ _, Nat.lt_succ_self _, fun hmem => (hreused _ hmem).false, .inr le_rfl⟩
    obtain ⟨hle, hlt, hfree, horigin⟩ := hhead
    have htail := ih (fun old hold => (hprev old hold).trans_le hle)
      (fun i hi => by
        rcases List.mem_cons.mp hi with rfl | hi
        · exact hlt
        · exact (hreused i hi).trans_le hle) hrest
    -- a new id of the tail is new after the head too
    have hnew : ∀ j ∈ rest, next ≤ j.id → next' ≤ j.id := by
      intro j hj hge
      rcases htail.origin j hj with ⟨old, hold, hsame, -⟩ | hge'
      · have hlow := hprev old hold
        omega
      · exact hge'
    refine ⟨?_, hle.trans htail.le, ?_, ?_, ?_, ?_, ?_⟩
    · rw [List.map_cons, htail.windows]
    · intro j hj
      rcases List.mem_cons.mp hj with rfl | hj
      · exact hlt.trans_le htail.le
      · exact htail.below j hj
    · intro j hj
      rcases List.mem_cons.mp hj with rfl | hj
      · exact hfree
      · exact fun hmem => htail.unused j hj (List.mem_cons_of_mem _ hmem)
    · rw [List.map_cons, List.nodup_cons]
      refine ⟨fun hmem => ?_, htail.distinct⟩
      obtain ⟨j, hj, hsame⟩ := List.mem_map.mp hmem
      exact htail.unused j hj (List.mem_cons.mpr (.inl hsame))
    · intro j hj
      rcases List.mem_cons.mp hj with rfl | hj
      · exact horigin
      · exact (htail.origin j hj).imp_right hle.trans
    · intro front j back heq hge i hi
      rcases front with - | ⟨first, front⟩
      · cases hi
      · obtain ⟨rfl, hback⟩ := List.cons.inj heq
        have hj : j ∈ rest := by simp [hback]
        rcases List.mem_cons.mp hi with rfl | hi
        · exact hlt.trans_le (hnew j hj hge)
        · exact htail.rising front j back hback (hnew j hj hge) i hi

/-! ## Section 4: Windows that correspond -/

def Pass.downlink (p : Pass) : String × ℕ := (p.satellite, p.frequencyHz)

theorem Pass.Overlaps.downlink_eq {old p : Pass} (h : old.Overlaps p) :
    old.downlink = p.downlink := Prod.ext h.1 h.2.1

/-- For this satellite and downlink, the old windows and the new ones correspond
    one to one by overlap. -/
structure Correspond (downlink : String × ℕ) (jobs : List ScheduledJob) (passes : List Pass) :
    Prop where
  /-- Every new window overlaps exactly one old window. -/
  new : ∀ p ∈ passes, p.downlink = downlink → ∃! old, old ∈ jobs ∧ old.Overlaps p
  /-- Every old window overlaps a new one. -/
  old : ∀ old ∈ jobs, old.downlink = downlink → ∃ p ∈ passes, old.Overlaps p
  /-- No two new windows overlap the same old one. -/
  one : passes.Pairwise fun p q => ∀ old ∈ jobs, old.downlink = downlink →
    ¬(old.Overlaps p ∧ old.Overlaps q)

/-- As long as no pass has taken over the id of a job that one of the remaining passes
    overlaps, those passes take over the ids of the jobs they overlap. -/
theorem assign_keeps {downlink : String × ℕ} {previous : List ScheduledJob}
    (hdistinct : ∀ old ∈ previous, ∀ old' ∈ previous, old.id = old'.id → old = old') :
    ∀ {passes : List Pass} {next next' : ℕ} {reused : List ℕ} {jobs : List ScheduledJob},
      (∀ old ∈ previous, old.id < next) →
      (∀ p ∈ passes, p.downlink = downlink → ∃! old, old ∈ previous ∧ old.Overlaps p) →
      (passes.Pairwise fun p q => ∀ old ∈ previous, old.downlink = downlink →
        ¬(old.Overlaps p ∧ old.Overlaps q)) →
      (∀ p ∈ passes, p.downlink = downlink → ∀ old ∈ previous, old.Overlaps p →
        old.id ∉ reused) →
      assign previous next reused passes = some (jobs, next') →
      ∀ j ∈ jobs, j.downlink = downlink → ∀ old ∈ previous, old.Overlaps j.toPass →
        j.id = old.id := by
  intro passes
  induction passes with
  | nil =>
    intro next next' reused jobs _ _ _ _ h j hj
    obtain ⟨rfl, -⟩ := Prod.mk.inj (Option.some.inj h)
    cases hj
  | cons p passes ih =>
    intro next last reused jobs hprev hnew hone hfree h j hj hdown old hold hover
    obtain ⟨id, next', rest, hid, hrest, rfl⟩ := assign_cons h
    have hone' := List.pairwise_cons.mp hone
    rcases List.mem_cons.mp hj with rfl | hj
    · -- the job of the first pass: its only old window is still free
      rcases takeId_cases hid with ⟨old', hold', hover', -, rfl, -⟩ | ⟨hused, -, -⟩
      · have hsame := (hnew p (by simp) hdown).unique ⟨hold', hover'⟩ ⟨hold, hover⟩
        rw [hsame]
      · exact absurd (hused old hold hover) (hfree p (by simp) hdown old hold hover)
    · refine ih ?_ (fun q hq => hnew q (List.mem_cons_of_mem _ hq)) hone'.2 ?_ hrest j hj hdown
        old hold hover
      · intro i hi
        rcases takeId_cases hid with ⟨-, -, -, -, -, rfl⟩ | ⟨-, -, rfl⟩
        · exact hprev i hi
        · exact (hprev i hi).trans (Nat.lt_succ_self _)
      · -- what the first pass has taken is no old window of a later one
        intro q hq hqdown i hi hiq hmem
        rcases List.mem_cons.mp hmem with htaken | hmem
        · rcases takeId_cases hid with ⟨old', hold', hover', -, rfl, -⟩ | ⟨-, rfl, -⟩
          · obtain rfl := hdistinct i hi old' hold' htaken
            exact hone'.1 q hq i hi (hiq.downlink_eq.trans hqdown) ⟨hover', hiq⟩
          · exact (hprev i hi).ne htaken
        · exact hfree q (List.mem_cons_of_mem _ hq) hqdown i hi hiq hmem

/-! ## Section 5: Runs -/

/-- One forecast of a run. -/
abbrev Event : Type := Machine.Event Scheduler (List PassInfo) Unit

/-- The passes of a forecast that get jobs. -/
def Event.passes (e : Event) : List Pass := e.input.filterMap PassInfo.pass?

/-- All jobs these forecasts have given. -/
def given (history : List Event) : List ScheduledJob := history.flatMap fun e => e.after.jobs

theorem given_append (history : List Event) (e : Event) :
    given (history ++ [e]) = given history ++ e.after.jobs := by
  simp [given]

theorem updateFromPasses_eq_some {s s' : Scheduler} {passes : List PassInfo}
    (h : s.updateFromPasses passes = some s') :
    assign s.jobs s.nextJobId [] (passes.filterMap PassInfo.pass?) =
      some (s'.jobs, s'.nextJobId) := by
  unfold Scheduler.updateFromPasses at h
  split at h
  · cases h
  · next jobs next heq =>
    obtain rfl := Option.some.inj h
    exact heq

/-- What the jobs of the last forecast have to do with all the jobs given so far. -/
structure Invariant (history : List Event) (s : Scheduler) : Prop where
  current  : ∀ j ∈ s.jobs, j ∈ given history
  below    : ∀ j ∈ given history, j.id < s.nextJobId
  distinct : (s.jobs.map ScheduledJob.id).Nodup
  downlink : ∀ j ∈ given history, ∀ j' ∈ given history, j.id = j'.id → j.downlink = j'.downlink

/-- What one forecast does to the ids, given the forecasts before it. -/
structure Identified (past : List Event) (e : Event) : Prop where
  /-- Every pass that begins before it ends has a job, in the order of the forecast. -/
  windows  : e.after.jobs.map ScheduledJob.toPass = e.passes
  distinct : (e.after.jobs.map ScheduledJob.id).Nodup
  /-- An id of the old jobs stays with an overlapping window. -/
  kept     : ∀ j ∈ e.after.jobs, ∀ old ∈ e.before.jobs, old.id = j.id → old.Overlaps j.toPass
  /-- Any other id is larger than all before it. -/
  fresh    : ∀ front j rest, e.after.jobs = front ++ j :: rest →
    (∀ old ∈ e.before.jobs, old.id ≠ j.id) → ∀ i ∈ given past ++ front, i.id < j.id
  /-- Windows that correspond one to one keep their ids. -/
  stable   : ∀ downlink, Correspond downlink e.before.jobs e.passes →
    ∀ old ∈ e.before.jobs, old.downlink = downlink →
      ∃ j ∈ e.after.jobs, old.Overlaps j.toPass ∧
        ∀ j ∈ e.after.jobs, old.Overlaps j.toPass → j.id = old.id

theorem identified {past : List Event} {e : Event} (hinv : Invariant past e.before)
    (hupdate : e.before.updateFromPasses e.input = some e.after) : Identified past e := by
  have hassign := updateFromPasses_eq_some hupdate
  have hbelow : ∀ old ∈ e.before.jobs, old.id < e.before.nextJobId := fun old hold =>
    hinv.below old (hinv.current old hold)
  have hdistinct : ∀ old ∈ e.before.jobs, ∀ old' ∈ e.before.jobs,
      old.id = old'.id → old = old' := fun old hold old' hold' =>
    List.inj_on_of_nodup_map hinv.distinct hold hold'
  have hspec := assign_spec hbelow (by simp) hassign
  refine ⟨hspec.windows, hspec.distinct, ?_, ?_, ?_⟩
  · intro j hj old hold hsame
    rcases hspec.origin j hj with ⟨old', hold', hsame', hover⟩ | hge
    · rwa [hdistinct old hold old' hold' (hsame.trans hsame'.symm)]
    · exact absurd (hbelow old hold) (by omega)
  · intro front j rest heq hother i hi
    -- an id that no old job has is new
    have hge : e.before.nextJobId ≤ j.id := by
      rcases hspec.origin j (by simp [heq]) with ⟨old, hold, hsame, -⟩ | hge
      · exact absurd hsame (hother old hold)
      · exact hge
    rcases List.mem_append.mp hi with hpast | hfront
    · exact (hinv.below i hpast).trans_le hge
    · exact hspec.rising front j rest heq hge i hfront
  · intro downlink hcorr old hold hdown
    have hkeep := assign_keeps hdistinct hbelow hcorr.new hcorr.one (by simp) hassign
    obtain ⟨p, hp, hover⟩ := hcorr.old old hold hdown
    have hp' : p ∈ e.after.jobs.map ScheduledJob.toPass := by
      rw [hspec.windows]
      exact hp
    obtain ⟨j, hj, rfl⟩ := List.mem_map.mp hp'
    exact ⟨j, hj, hover, fun j hj hover =>
      hkeep j hj (hover.downlink_eq.symm.trans hdown) old hold hover⟩

theorem invariant_after {past : List Event} {e : Event} (hinv : Invariant past e.before)
    (hupdate : e.before.updateFromPasses e.input = some e.after) :
    Invariant (past ++ [e]) e.after := by
  have hid := identified hinv hupdate
  have hspec := assign_spec (fun old hold => hinv.below old (hinv.current old hold)) (by simp)
    (updateFromPasses_eq_some hupdate)
  -- an old id and its owner are known; the downlink comes with the overlap
  have hmixed : ∀ j ∈ e.after.jobs, ∀ i ∈ given past, j.id = i.id → j.downlink = i.downlink := by
    intro j hj i hi hsame
    rcases hspec.origin j hj with ⟨old, hold, hsame', hover⟩ | hge
    · exact hover.downlink_eq.symm.trans
        (hinv.downlink old (hinv.current old hold) i hi (hsame'.trans hsame))
    · exact absurd (hinv.below i hi) (by omega)
  refine ⟨?_, ?_, hid.distinct, ?_⟩
  · intro j hj
    rw [given_append]
    exact List.mem_append_right _ hj
  · intro j hj
    rw [given_append] at hj
    rcases List.mem_append.mp hj with hold | hnew
    · exact (hinv.below j hold).trans_le hspec.le
    · exact hspec.below j hnew
  · intro j hj j' hj' hsame
    rw [given_append] at hj hj'
    rcases List.mem_append.mp hj with hold | hnew <;>
      rcases List.mem_append.mp hj' with hold' | hnew'
    · exact hinv.downlink j hold j' hold' hsame
    · exact (hmixed j' hnew' j hold hsame.symm).symm
    · exact hmixed j hnew j' hold' hsame
    · rw [List.inj_on_of_nodup_map hid.distinct hnew hnew' hsame]

theorem run_identified {forecasts : List (List PassInfo)} {s : Scheduler} {history : List Event}
    (hrun : Scheduler.machine.run Scheduler.new forecasts = some (s, history)) :
    Invariant history s ∧ ∀ past e later, history = past ++ e :: later → Identified past e := by
  refine Scheduler.machine.run_inv_steps ?_ ?_ hrun
  · exact ⟨by simp [Scheduler.machine, Scheduler.new], by simp [given],
      by simp [Scheduler.machine, Scheduler.new], by simp [given]⟩
  · intro past s passes s' o hinv hstep
    obtain ⟨t, hupdate, hout⟩ := Option.map_eq_some_iff.mp hstep
    obtain ⟨rfl, rfl⟩ := Prod.mk.inj hout
    exact ⟨invariant_after hinv hupdate, identified hinv hupdate⟩

/-- **Pass identities**: after any forecasts, an id belongs to one satellite and downlink,
    and every forecast of the run has identified its passes. -/
theorem pass_job_identities {forecasts : List (List PassInfo)} {s : Scheduler}
    {history : List Event}
    (hrun : Scheduler.machine.run Scheduler.new forecasts = some (s, history)) :
    (∀ j ∈ given history, ∀ j' ∈ given history, j.id = j'.id → j.downlink = j'.downlink) ∧
      ∀ past e later, history = past ++ e :: later → Identified past e :=
  ⟨(run_identified hrun).1.downlink, (run_identified hrun).2⟩

/-- A pass of the station. -/
private def station (aos los : ℚ) : PassInfo := ⟨"ISS", "AOS", "LOS", 145800000, some aos, some los⟩

/-- Two passes, then the same two in the other order, clipped and shifted. -/
private def clipped : List (List PassInfo) :=
  [[station 100 200, station 1000 1100], [station 1010 1103, station 150 201]]

theorem pass_job_identities_clipped : ∃ s history,
    Scheduler.machine.run Scheduler.new clipped = some (s, history) ∧
      s.jobs.map ScheduledJob.id = [2, 1] ∧
      (∀ j ∈ given history, ∀ j' ∈ given history, j.id = j'.id → j.downlink = j'.downlink) ∧
      ∀ past e later, history = past ++ e :: later → Identified past e := by
  have hids : ((Scheduler.machine.run Scheduler.new clipped).map
      fun r => r.1.jobs.map ScheduledJob.id) = some [2, 1] := by
    decide +kernel
  obtain ⟨⟨s, history⟩, hrun, hjobs⟩ := Option.map_eq_some_iff.mp hids
  exact ⟨s, history, hrun, hjobs, pass_job_identities hrun⟩

end Passes
