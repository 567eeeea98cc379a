import EzSdr.Capture.ProductLog

/-! # The Telemetry Product Protocol

    Every call of the pipeline keeps the sequence of its frames a log of
    products, the current product of the log being the one of the pipeline.

    Layout:

    1. `Logged` and `Following`: what holds of the actions so far
    2. Finalising and retiring a product
    3. Feeding a block
    4. The calls, and runs of them -/

namespace Capture

variable {δ α τ : Type*}

/-! ## Section 1: Invariants -/

/-- The frames among the actions. -/
def published : List (TelemetryAction α τ) → List (TelemetryFrame τ)
  | [] => []
  | .publish f :: actions => f :: published actions
  | .feed _ _ :: actions => published actions

@[simp] theorem published_nil : published ([] : List (TelemetryAction α τ)) = [] := rfl

@[simp] theorem published_append (a b : List (TelemetryAction α τ)) :
    published (a ++ b) = published a ++ published b := by
  induction a with
  | nil => rfl
  | cons action a ih => cases action <;> simp [published, ih]

@[simp] theorem published_map_publish (fs : List (TelemetryFrame τ)) :
    published (fs.map (TelemetryAction.publish (α := α))) = fs := by
  induction fs with
  | nil => rfl
  | cons f fs ih => simp [published, ih]

/-- What the actions so far say, whatever the current tuning is: their frames
    are those of a log that ends with the product of the pipeline, and every
    product was fed blocks of one centre and one session only. -/
structure Logged (actions : List (TelemetryAction α τ)) (p : Telemetry δ α) : Prop where
  sampling : validateMissionSampling p.sampleRateHz p.profile = none
  fresh    : p.productId < p.nextEpoch
  log      : ∃ L : ProductLog τ, published actions = L.frames ∧ L.current.id = p.productId ∧
    L.current.completion.isSome = p.productFinalized
  known    : ∀ i b, .feed i b ∈ actions → i ≤ p.productId
  uniform  : ∀ i b b', .feed i b ∈ actions → .feed i b' ∈ actions →
    b.centerFreqHz = b'.centerFreqHz ∧ b.productSession = b'.productSession

/-- Every block of the current product has its centre and its session. -/
def Following (actions : List (TelemetryAction α τ)) (p : Telemetry δ α) : Prop :=
  ∀ b, .feed p.productId b ∈ actions →
    b.centerFreqHz = p.centerFreqHz ∧ p.sourceProduct = some b.productSession

theorem mem_map_publish {fs : List (TelemetryFrame τ)} {i : ℕ} {b : SampleBlock α} :
    TelemetryAction.feed i b ∉ fs.map (TelemetryAction.publish (α := α)) := by
  simp

/-- Frames only add to the log. -/
theorem feed_mem_append_publish {actions : List (TelemetryAction α τ)}
    {fs : List (TelemetryFrame τ)} {i : ℕ} {b : SampleBlock α} :
    .feed i b ∈ actions ++ fs.map .publish ↔ TelemetryAction.feed i b ∈ actions := by
  simp

/-- A call that publishes frames extends the log by them; the blocks stay. -/
theorem Logged.publish {actions : List (TelemetryAction α τ)} {p p' : Telemetry δ α}
    {l : List (TelemetryFrame τ)} (h : Logged actions p) {L : ProductLog τ}
    (hsampling : validateMissionSampling p'.sampleRateHz p'.profile = none)
    (hfresh : p'.productId < p'.nextEpoch) (hle : p.productId ≤ p'.productId)
    (hframes : published actions ++ l = L.frames) (hid : L.current.id = p'.productId)
    (hclosed : L.current.completion.isSome = p'.productFinalized) :
    Logged (actions ++ l.map .publish) p' := by
  constructor
  · exact hsampling
  · exact hfresh
  · exact ⟨L, by simpa using hframes, hid, hclosed⟩
  · intro i b hb
    exact (h.known i b (feed_mem_append_publish.1 hb)).trans hle
  · intro i b b' hb hb'
    exact h.uniform i b b' (feed_mem_append_publish.1 hb) (feed_mem_append_publish.1 hb')

namespace Telemetry

variable {D : LrptDecoder δ α τ} {p : Telemetry δ α} {actions : List (TelemetryAction α τ)}

/-! ## Section 2: Product boundaries -/

theorem isReset_resetFrame : (p.resetFrame : TelemetryFrame τ).IsReset :=
  ⟨rfl, ⟨rfl, rfl, rfl⟩, rfl, rfl⟩

theorem finalFrames_ok : ∀ f ∈ p.finalFrames D, f.productId = p.productId ∧ f.IsFinal := by
  intro f hf
  unfold finalFrames at hf
  split at hf
  · simp at hf
  · next result hresult =>
    obtain ⟨⟨apid, image⟩, -, rfl⟩ := List.mem_map.1 hf
    exact ⟨rfl, rfl, rfl⟩

theorem previewFrames_ok :
    ∀ f ∈ (p.previewFrames : List (TelemetryFrame τ)), f.productId = p.productId ∧ f.IsPreview := by
  intro f hf
  obtain ⟨progress, -, hf⟩ := List.mem_flatMap.1 hf
  obtain ⟨⟨apid, image⟩, -, rfl⟩ := List.mem_map.1 hf
  exact ⟨rfl, rfl, rfl⟩

/-- What finalising changes: the flag. -/
theorem finalizeProduct_fst : (p.finalizeProduct D).1 = { p with productFinalized := true } := by
  unfold finalizeProduct
  split
  · next h => rw [← h]
  · rfl

/-- A product is finalised once. -/
theorem finalizeProduct_of_finalized (h : p.productFinalized = true) :
    p.finalizeProduct D = (p, []) := by
  simp [finalizeProduct, h]

/-- What finalising publishes. -/
theorem finalizeProduct_frames : ∃ fs : List (TelemetryFrame τ),
    (p.finalizeProduct D).2 = fs.map .publish := by
  unfold finalizeProduct
  split
  · exact ⟨[], rfl⟩
  · exact ⟨_, rfl⟩

/-- Finalising closes the current product of the log, if it is still open. -/
theorem logged_finalize (h : Logged actions p) :
    Logged (actions ++ (p.finalizeProduct D).2) (p.finalizeProduct D).1 := by
  cases hfinal : p.productFinalized with
  | true =>
    rw [finalizeProduct_of_finalized hfinal, List.append_nil]
    exact h
  | false =>
    obtain ⟨L, hframes, hid, hclosed⟩ := h.log
    have hopen : L.current.completion = none := by
      simpa [hfinal] using hclosed
    have hfinals : ∀ f ∈ p.finalFrames D, f.productId = L.current.id ∧ f.IsFinal := by
      intro f hf
      rw [hid]
      exact finalFrames_ok f hf
    have hmarker : (p.completionFrame D).productId = L.current.id ∧
        (p.completionFrame D).IsCompletion := ⟨hid.symm, rfl, rfl⟩
    let q := L.current.close (p.finalFrames D) (p.completionFrame D) hfinals hmarker
    have hq : q.frames = L.current.frames ++ (p.finalFrames D ++ [p.completionFrame D]) :=
      Product.frames_close hfinals hmarker hopen
    have hupdate := ProductLog.frames_update (L := L) (q := q) rfl rfl hq
    have hnext : Logged
        (actions ++ (p.finalFrames D ++ [p.completionFrame D]).map .publish)
        { p with productFinalized := true } :=
      h.publish (L := L.update q rfl rfl) h.sampling h.fresh le_rfl
        (by rw [hupdate, hframes]) hid rfl
    simpa [finalizeProduct, hfinal] using hnext

/-- The pipeline with a new product. -/
def renewed (D : LrptDecoder δ α τ) (p : Telemetry δ α) : Telemetry δ α :=
  { p with decoder := D.mission p.sampleRateHz p.profile, continuity := none, progress := [],
           productId := p.nextEpoch, nextEpoch := p.nextEpoch + 1, productFinalized := false }

/-- On a valid sampling retiring a product cannot fail. -/
theorem retireProduct_eq (hsampling : validateMissionSampling p.sampleRateHz p.profile = none) :
    p.retireProduct D = ⟨p.renewed D,
      (p.finalizeProduct D).2 ++ [.publish (p.renewed D).resetFrame], none⟩ := by
  have hmission : D.forMission p.sampleRateHz p.profile =
      .ok (D.mission p.sampleRateHz p.profile) := by
    simp [LrptDecoder.forMission, hsampling]
  have hfst := finalizeProduct_fst (D := D) (p := p)
  simp only [retireProduct, hfst, hmission]
  rfl

/-- Retiring closes the current product and announces the next one. -/
theorem logged_retire (h : Logged actions p) :
    Logged (actions ++ ((p.finalizeProduct D).2 ++ [.publish (p.renewed D).resetFrame]))
      (p.renewed D) := by
  have hfinal : Logged (actions ++ (p.finalizeProduct D).2) { p with productFinalized := true } :=
    finalizeProduct_fst (D := D) (p := p) ▸ logged_finalize h
  obtain ⟨L, hframes, hid, hclosed⟩ := hfinal.log
  have hless : L.current.id < ((p.renewed D).resetFrame : TelemetryFrame τ).productId := by
    rw [hid]
    exact h.fresh
  rw [← List.append_assoc]
  exact hfinal.publish (l := [(p.renewed D).resetFrame])
    (L := L.next _ isReset_resetFrame hclosed hless) h.sampling (Nat.lt_succ_self _) h.fresh.le
    (by rw [ProductLog.frames_next, hframes]) rfl rfl

/-- The next product has not been fed anything. -/
theorem unfed_nextEpoch (h : Logged actions p) {fs : List (TelemetryFrame τ)}
    (b : SampleBlock α) : .feed p.nextEpoch b ∉ actions ++ fs.map .publish := by
  intro hb
  have hknown := h.known _ b (feed_mem_append_publish.1 hb)
  have hfresh := h.fresh
  omega

/-- Retiring publishes frames only. -/
theorem retired_frames : ∃ fs : List (TelemetryFrame τ),
    (p.finalizeProduct D).2 ++ [.publish (p.renewed D).resetFrame] = fs.map .publish := by
  obtain ⟨fs, hfs⟩ := finalizeProduct_frames (D := D) (p := p)
  exact ⟨fs ++ [(p.renewed D).resetFrame], by simp [hfs]⟩

/-! ## Section 3: Feeding a block -/

/-- Two states of a pipeline between which only the decoder, its progress and
    the expectation of the next block differ. -/
structure SameProduct (p q : Telemetry δ α) : Prop where
  productId        : q.productId = p.productId
  productFinalized : q.productFinalized = p.productFinalized
  nextEpoch        : q.nextEpoch = p.nextEpoch
  sampleRateHz     : q.sampleRateHz = p.sampleRateHz
  profile          : q.profile = p.profile
  centerFreqHz     : q.centerFreqHz = p.centerFreqHz

/-- What feeding a block does: the decoder gets it, and previews come out. -/
theorem feed_eq_some {block : SampleBlock α}
    (hsampling : validateMissionSampling block.sampleRateHz p.profile = none) :
    ∃ (p' : Telemetry δ α) (fs : List (TelemetryFrame τ)),
      p.feed D block = some (p', .feed p.productId block :: fs.map .publish) ∧
      SameProduct p p' ∧ p'.sourceProduct = some block.productSession ∧
      ∀ f ∈ fs, f.productId = p.productId ∧ f.IsPreview := by
  unfold feed
  cases hobserve : observe p.continuity block with
  | mk contiguous continuity =>
    cases contiguous with
    | true =>
      refine ⟨_, _, rfl, ⟨rfl, rfl, rfl, rfl, rfl, rfl⟩, rfl, ?_⟩
      exact previewFrames_ok
    | false =>
      simp only [LrptDecoder.resetMissionStream, hsampling, Bool.false_eq_true, if_false,
        Option.map_some]
      refine ⟨_, _, rfl, ⟨rfl, rfl, rfl, rfl, rfl, rfl⟩, rfl, ?_⟩
      exact previewFrames_ok

/-- What a call is allowed to do, seen from outside: it keeps the invariants,
    and a block that it feeds is of the centre and the session of the product
    that is then current, which is open. -/
structure CallOk (actions : List (TelemetryAction α τ)) (p' : Telemetry δ α)
    (done : List (TelemetryAction α τ)) : Prop where
  logged    : Logged (actions ++ done) p'
  following : Following (actions ++ done) p'
  fed       : ∀ i b, .feed i b ∈ done → i = p'.productId ∧ p'.productFinalized = false ∧
    b.centerFreqHz = p'.centerFreqHz ∧ p'.sourceProduct = some b.productSession

/-- Feeding an open product a block that agrees with those it has. -/
theorem feed_ok {block : SampleBlock α} (h : Logged actions p)
    (hagree : ∀ b, .feed p.productId b ∈ actions →
      b.centerFreqHz = block.centerFreqHz ∧ b.productSession = block.productSession)
    (hopen : p.productFinalized = false) (hcenter : block.centerFreqHz = p.centerFreqHz)
    (hrate : p.sampleRateHz = block.sampleRateHz) :
    ∃ p' done, p.feed D block = some (p', done) ∧ CallOk actions p' done := by
  have hvalid := h.sampling
  rw [hrate] at hvalid
  obtain ⟨p', fs, heq, hsame, hsource, hfs⟩ := feed_eq_some (D := D) hvalid
  -- the one feed that is new
  have hmem : ∀ i b, .feed i b ∈ actions ++ .feed p.productId block :: fs.map .publish →
      .feed i b ∈ actions ∨ i = p.productId ∧ b = block := by
    intro i b hb
    simpa using hb
  refine ⟨p', _, heq, ?_, ?_, ?_⟩
  · obtain ⟨L, hframes, hid, hclosed⟩ := h.log
    have hnone : L.current.completion = none := by
      simpa [hopen] using hclosed
    -- what a feed publishes are previews of the product that is open
    have hpreviews : ∀ f ∈ fs, f.productId = L.current.id ∧ f.IsPreview := by
      intro f hfmem
      rw [hid]
      exact hfs f hfmem
    have hupdate : (L.update (L.current.preview fs hpreviews) rfl rfl).frames = L.frames ++ fs :=
      ProductLog.frames_update (L := L) (q := L.current.preview fs hpreviews) rfl rfl
        (Product.frames_preview hpreviews hnone)
    constructor
    · rw [hsame.sampleRateHz, hsame.profile]
      exact h.sampling
    · rw [hsame.productId, hsame.nextEpoch]
      exact h.fresh
    · refine ⟨L.update (L.current.preview fs hpreviews) rfl rfl, ?_, ?_, ?_⟩
      · rw [hupdate, ← hframes]
        simp [published]
      · rw [hsame.productId]
        exact hid
      · rw [hsame.productFinalized]
        exact hclosed
    · intro i b hb
      rw [hsame.productId]
      rcases hmem i b hb with hold | ⟨rfl, -⟩
      · exact h.known i b hold
      · exact le_rfl
    · intro i b b' hb hb'
      rcases hmem i b hb with hold | ⟨rfl, rfl⟩ <;> rcases hmem _ b' hb' with hold' | ⟨hi, rfl⟩
      · exact h.uniform i b b' hold hold'
      · subst hi
        exact hagree b hold
      · obtain ⟨h₁, h₂⟩ := hagree b' hold'
        exact ⟨h₁.symm, h₂.symm⟩
      · exact ⟨rfl, rfl⟩
  · intro b hb
    rw [hsame.productId] at hb
    rw [hsame.centerFreqHz, hsource]
    rcases hmem _ b hb with hold | ⟨-, rfl⟩
    · obtain ⟨h₁, h₂⟩ := hagree b hold
      exact ⟨h₁.trans hcenter, by rw [h₂]⟩
    · exact ⟨hcenter, rfl⟩
  · intro i b hb
    obtain ⟨rfl, rfl⟩ : i = p.productId ∧ b = block := by simpa using hb
    exact ⟨hsame.productId.symm, hsame.productFinalized.trans hopen,
      hcenter.trans hsame.centerFreqHz.symm, hsource⟩

/-! ## Section 4: The calls -/

/-- A call that feeds nothing. -/
theorem CallOk.of_frames {l : List (TelemetryFrame τ)}
    (hlogged : Logged (actions ++ l.map .publish) p)
    (hfollowing : Following (actions ++ l.map .publish) p) :
    CallOk actions p (l.map .publish) := by
  refine ⟨hlogged, hfollowing, ?_⟩
  intro i b hb
  exact absurd hb mem_map_publish

/-- Frames before a call. -/
theorem CallOk.of_frames_append {fs : List (TelemetryFrame τ)} {p' : Telemetry δ α}
    {done : List (TelemetryAction α τ)} (h : CallOk (actions ++ fs.map .publish) p' done) :
    CallOk actions p' (fs.map .publish ++ done) := by
  refine ⟨?_, ?_, ?_⟩
  · rw [← List.append_assoc]
    exact h.logged
  · rw [← List.append_assoc]
    exact h.following
  · intro i b hb
    exact h.fed i b (by simpa using hb)

/-- A call without any action that keeps the product, the tuning and the session. -/
theorem CallOk.of_silent {q : Telemetry δ α} (h : Logged actions p) (hf : Following actions p)
    (hid : q.productId = p.productId) (hflag : q.productFinalized = p.productFinalized)
    (hnext : p.nextEpoch ≤ q.nextEpoch)
    (hsampling : validateMissionSampling q.sampleRateHz q.profile = none)
    (hcenter : q.centerFreqHz = p.centerFreqHz) (hsource : q.sourceProduct = p.sourceProduct) :
    CallOk actions q [] := by
  have hlogged : Logged actions q := by
    constructor
    · exact hsampling
    · rw [hid]
      exact h.fresh.trans_le hnext
    · rw [hid, hflag]
      exact h.log
    · rw [hid]
      exact h.known
    · exact h.uniform
  refine CallOk.of_frames (l := []) (by simpa using hlogged) ?_
  intro b hb
  rw [hcenter, hsource]
  exact hf b (by simpa [hid] using hb)

theorem finalizeProduct_ok (h : Logged actions p) (hf : Following actions p) :
    CallOk actions (p.finalizeProduct D).1 (p.finalizeProduct D).2 := by
  obtain ⟨fs, hfs⟩ := finalizeProduct_frames (D := D) (p := p)
  have hlogged := logged_finalize (D := D) h
  rw [hfs] at hlogged ⊢
  refine CallOk.of_frames hlogged ?_
  intro b hb
  rw [finalizeProduct_fst] at hb ⊢
  exact hf b (feed_mem_append_publish.1 hb)

/-- Retiring needs no product to follow: the tuning may just have changed. -/
theorem renewed_ok (h : Logged actions p) :
    CallOk actions (p.renewed D)
      ((p.finalizeProduct D).2 ++ [.publish (p.renewed D).resetFrame]) := by
  obtain ⟨fs, hfs⟩ := retired_frames (D := D) (p := p)
  have hlogged := logged_retire (D := D) h
  rw [hfs] at hlogged ⊢
  refine CallOk.of_frames hlogged ?_
  intro b hb
  exact absurd hb (unfed_nextEpoch h b)

theorem startNewProduct_ok (h : Logged actions p) :
    (p.startNewProduct D).error = none ∧
      CallOk actions (p.startNewProduct D).pipeline (p.startNewProduct D).actions := by
  have hdrained : Logged actions { p with input := [] } :=
    ⟨h.sampling, h.fresh, h.log, h.known, h.uniform⟩
  rw [startNewProduct, retireProduct_eq hdrained.sampling]
  exact ⟨rfl, renewed_ok hdrained⟩

theorem retune_ok {rate center : ℕ} (h : Logged actions p) (hf : Following actions p) :
    CallOk actions (p.retune D rate center).pipeline (p.retune D rate center).actions := by
  unfold retune
  cases hvalid : validateMissionSampling rate p.profile with
  | some error => exact CallOk.of_silent h hf rfl rfl le_rfl h.sampling rfl rfl
  | none =>
    by_cases hcenter : p.centerFreqHz = center
    · simp only [ne_eq, hcenter, not_true_eq_false, if_false, LrptDecoder.resetMissionStream,
        hvalid]
      exact CallOk.of_silent h hf rfl rfl le_rfl hvalid hcenter.symm rfl
    · simp only [ne_eq, hcenter, not_false_eq_true, if_true]
      have hmoved : Logged actions
          { p with
            sampleRateHz := rate
            centerFreqHz := center
            sourceProduct := none } := ⟨hvalid, h.fresh, h.log, h.known, h.uniform⟩
      exact (startNewProduct_ok hmoved).2

/-- No block makes an `expect` fail. -/
theorem processBlock_ok {block : SampleBlock α} (h : Logged actions p) (hf : Following actions p) :
    ∃ p' done, p.processBlock D block = some (p', done) ∧ CallOk actions p' done := by
  unfold processBlock
  by_cases hfinal : p.productFinalized = true
  · rw [if_pos hfinal]
    exact ⟨p, [], rfl, CallOk.of_silent h hf rfl rfl le_rfl h.sampling rfl rfl⟩
  rw [if_neg hfinal]
  rw [Bool.not_eq_true] at hfinal
  by_cases hcenter : block.centerFreqHz = p.centerFreqHz
  swap
  · rw [if_pos hcenter]
    exact ⟨p, [], rfl, CallOk.of_silent h hf rfl rfl le_rfl h.sampling rfl rfl⟩
  rw [if_neg (not_not.2 hcenter)]
  cases hvalid : validateMissionSampling block.sampleRateHz p.profile with
  | some error =>
    -- a block of an unusable rate breaks the stream
    simp only [Option.isSome_some, if_true, LrptDecoder.resetMissionStream, h.sampling]
    exact ⟨_, [], rfl, CallOk.of_silent h hf rfl rfl le_rfl h.sampling rfl rfl⟩
  | none =>
    rw [if_neg (by simp)]
    have hrated : Logged actions { p with sampleRateHz := block.sampleRateHz } :=
      ⟨hvalid, h.fresh, h.log, h.known, h.uniform⟩
    by_cases hother : p.sourceProduct.any (· ≠ block.productSession) = true
    · -- another session: the product is retired before the block is fed
      rw [if_pos hother]
      simp only [retireProduct_eq hrated.sampling]
      obtain ⟨fs, hfs⟩ := retired_frames (D := D)
        (p := { p with sampleRateHz := block.sampleRateHz })
      have hretired := logged_retire (D := D) hrated
      rw [hfs] at hretired ⊢
      obtain ⟨p', done, heq, hok⟩ := feed_ok (D := D) hretired
        (fun b hb => absurd hb (unfed_nextEpoch hrated b)) rfl hcenter rfl
      exact ⟨p', _, by rw [heq]; rfl, hok.of_frames_append⟩
    · rw [if_neg hother]
      refine feed_ok hrated ?_ hfinal hcenter rfl
      intro b hb
      obtain ⟨hb₁, hb₂⟩ := hf b hb
      exact ⟨hb₁.trans hcenter.symm, by simpa [hb₂] using hother⟩

theorem tick_ok (h : Logged actions p) (hf : Following actions p) :
    ∃ p' done, p.tick D = some (p', done) ∧ CallOk actions p' done := by
  unfold tick
  cases hinput : p.input with
  | nil => exact ⟨p, [], rfl, CallOk.of_silent h hf rfl rfl le_rfl h.sampling rfl rfl⟩
  | cons block input =>
    have hpopped : Logged actions { p with input := input } :=
      ⟨h.sampling, h.fresh, h.log, h.known, h.uniform⟩
    exact processBlock_ok hpopped hf

/-- Every input is handled, and handled lawfully. -/
theorem step_ok (input : TelemetryInput α) (h : Logged actions p) (hf : Following actions p) :
    ∃ p' out, p.step D input = some (p', out) ∧ CallOk actions p' out.1 := by
  cases input with
  | arrive block =>
    exact ⟨_, _, rfl, CallOk.of_silent h hf rfl rfl le_rfl h.sampling rfl rfl⟩
  | evict => exact ⟨_, _, rfl, CallOk.of_silent h hf rfl rfl le_rfl h.sampling rfl rfl⟩
  | tick =>
    obtain ⟨p', done, heq, hok⟩ := tick_ok (D := D) h hf
    exact ⟨p', (done, none), by simp [step, heq], hok⟩
  | retune rate center => exact ⟨_, _, rfl, retune_ok h hf⟩
  | startNewProduct => exact ⟨_, _, rfl, (startNewProduct_ok h).2⟩
  | finalizeProduct => exact ⟨_, _, rfl, finalizeProduct_ok h hf⟩
  | epochTaken =>
    exact ⟨_, _, rfl, CallOk.of_silent h hf rfl rfl (Nat.le_succ _) h.sampling rfl rfl⟩
  | shutdown => exact ⟨_, _, rfl, CallOk.of_silent h hf rfl rfl le_rfl h.sampling rfl rfl⟩

/-- A finalised product has its completion marker among the frames. -/
theorem exists_completion (h : Logged actions p) (hfinal : p.productFinalized = true) :
    ∃ c ∈ published actions, c.productId = p.productId ∧ c.IsCompletion := by
  obtain ⟨L, hframes, hid, hclosed⟩ := h.log
  obtain ⟨c, hc⟩ := Option.isSome_iff_exists.1 (hclosed.trans hfinal)
  obtain ⟨hcid, hcomplete⟩ := L.current.completion_ok c hc
  refine ⟨c, ?_, hcid.trans hid, hcomplete⟩
  rw [hframes, ProductLog.frames_eq, Product.frames, hc]
  simp

/-- A product with a completion marker among the frames is finalised. -/
theorem finalized_of_completion (h : Logged actions p) {c : TelemetryFrame τ}
    (hmem : c ∈ published actions) (hid : c.productId = p.productId) (hc : c.IsCompletion) :
    p.productFinalized = true := by
  obtain ⟨L, hframes, hcurrent, hclosed⟩ := h.log
  rw [← hclosed]
  by_contra hsome
  have hnone : L.current.completion = none := by simpa using hsome
  -- the frames under this identifier are those of the open product
  have hfilter := ProductLog.filter_frames (L := L) (q := L.current) (by simp [ProductLog.products])
  rw [← hframes] at hfilter
  have hopen : c ∈ L.current.frames := by
    rw [← hfilter, List.mem_filter]
    exact ⟨hmem, by simpa [hcurrent] using hid⟩
  rw [Product.frames_of_open hnone, List.mem_append, Option.mem_toList] at hopen
  obtain ⟨-, hcomplete⟩ := hc
  rcases hopen with hreset | hpreview
  · have hprogress := (L.current.reset_ok c hreset).2.progress.2
    rw [hcomplete] at hprogress
    cases hprogress
  · have hprogress := (L.current.previews_ok c hpreview).2.2
    rw [hcomplete] at hprogress
    cases hprogress

end Telemetry

/-! ## Section 5: Runs -/

section Runs

variable (D : LrptDecoder δ α τ)

/-- One executed input of a pipeline. -/
abbrev TelemetryEvent (δ α τ : Type*) :=
  Machine.Event (Telemetry δ α) (TelemetryInput α) (TelemetryOutput α τ)

/-- Everything a run did, in order. -/
def actionsOf (h : List (TelemetryEvent δ α τ)) : List (TelemetryAction α τ) :=
  h.flatMap (·.output.1)

/-- A new pipeline has done nothing. -/
theorem logged_new {channelId rate center next : ℕ} {profile : MeteorProfile}
    {p : Telemetry δ α} (hnew : Telemetry.new D channelId rate profile center next = .ok p) :
    Logged ([] : List (TelemetryAction α τ)) p := by
  unfold Telemetry.new LrptDecoder.forMission at hnew
  cases hvalid : validateMissionSampling rate profile with
  | some error => simp [hvalid] at hnew
  | none =>
    simp only [hvalid, Except.ok.injEq] at hnew
    subst hnew
    exact ⟨hvalid, Nat.lt_succ_self _, ⟨ProductLog.start next, rfl, rfl, rfl⟩, by simp, by simp⟩

/-- What the run theorem says of one step, given the steps before it. -/
structure StepLaw (past : List (TelemetryEvent δ α τ)) (e : TelemetryEvent δ α τ) : Prop where
  /-- A block is fed to the current product, while it is open, if it is of its
      centre and its session. -/
  fed   : ∀ i b, .feed i b ∈ e.output.1 → i = e.after.productId ∧
    e.after.productFinalized = false ∧ b.centerFreqHz = e.after.centerFreqHz ∧
    e.after.sourceProduct = some b.productSession
  /-- Finalising a product again does nothing. -/
  twice : ∀ e₁ ∈ past, e₁.input = .finalizeProduct → e.input = .finalizeProduct →
    e₁.before.productId = e.before.productId → e.output.1 = [] ∧ e.after = e.before

/-- **The product protocol.** Whatever a pipeline is asked to do, in any order:

    * its frames are those of a log of products: one after another, with growing
      identifiers, each with its previews, then its final images, then one
      completion marker; the marker of the current product is there if and only
      if the product was finalised, and those of the products before it are;
    * the frames under one identifier are those of its product, and nothing more;
    * the blocks fed to one product agree in centre and session. -/
theorem run_product_protocol {channelId rate center next : ℕ} {profile : MeteorProfile}
    {p : Telemetry δ α} (hnew : Telemetry.new D channelId rate profile center next = .ok p)
    (inputs : List (TelemetryInput α)) :
    ∃ t h, (Telemetry.machine D p).run p inputs = some (t, h) ∧
      (∃ L : ProductLog τ, published (actionsOf h) = L.frames ∧
        (∀ q ∈ L.products,
          (published (actionsOf h)).filter (fun f => f.productId = q.id) = q.frames) ∧
        L.current.id = t.productId ∧ L.current.completion.isSome = t.productFinalized) ∧
      (∀ i b b', .feed i b ∈ actionsOf h → .feed i b' ∈ actionsOf h →
        b.centerFreqHz = b'.centerFreqHz ∧ b.productSession = b'.productSession) ∧
      ∀ past e later, h = past ++ e :: later → StepLaw past e := by
  have hrun := (Telemetry.machine D p).run_safe_steps (I := fun _ => True)
    (P := fun h s => Logged (actionsOf h) s ∧ Following (actionsOf h) s ∧
      ∀ e ∈ h, e.input = .finalizeProduct →
        ∃ c ∈ published (actionsOf h), c.productId = e.before.productId ∧ c.IsCompletion)
    (Q := StepLaw) ⟨logged_new D hnew, by simp [Following, actionsOf], by simp⟩ ?_ inputs (by simp)
  · obtain ⟨t, h, hrun, ⟨hlogged, -, -⟩, hsteps⟩ := hrun
    obtain ⟨L, hframes, hid, hclosed⟩ := hlogged.log
    refine ⟨t, h, hrun, ⟨L, hframes, ?_, hid, hclosed⟩, hlogged.uniform, hsteps⟩
    intro q hq
    rw [hframes]
    exact ProductLog.filter_frames hq
  · rintro h s input ⟨hlogged, hfollowing, hdone⟩ -
    obtain ⟨s', out, hstep, hok⟩ := Telemetry.step_ok (D := D) input hlogged hfollowing
    have hactions : actionsOf (h ++ [⟨s, input, out, s'⟩]) = actionsOf h ++ out.1 := by
      simp [actionsOf]
    refine ⟨s', out, hstep, ⟨?_, ?_, ?_⟩, hok.fed, ?_⟩
    · rw [hactions]
      exact hok.logged
    · rw [hactions]
      exact hok.following
    · intro e he hinput
      rw [hactions]
      rcases List.mem_append.1 he with he | he
      · obtain ⟨c, hc, hcid, hcomplete⟩ := hdone e he hinput
        exact ⟨c, by simp [hc], hcid, hcomplete⟩
      · -- the step itself finalised the product, or found it finalised
        obtain rfl := List.mem_singleton.1 he
        obtain rfl : input = .finalizeProduct := hinput
        have hafter : s' = { s with productFinalized := true } := by
          rw [← Telemetry.finalizeProduct_fst (D := D)]
          exact (congrArg Prod.fst (Option.some.inj hstep)).symm
        have hfinal : s'.productFinalized = true := by rw [hafter]
        obtain ⟨c, hc, hcid, hcomplete⟩ := Telemetry.exists_completion hok.logged hfinal
        exact ⟨c, hc, by rw [hcid, hafter], hcomplete⟩
    · intro e₁ he₁ hinput₁ hinput hid
      obtain rfl : input = .finalizeProduct := hinput
      obtain ⟨c, hc, hcid, hcomplete⟩ := hdone e₁ he₁ hinput₁
      have hfinal := Telemetry.finalized_of_completion hlogged hc (hcid.trans hid) hcomplete
      have hsame : s.step D .finalizeProduct = some (s, [], none) := by
        simp [Telemetry.step, Telemetry.finalizeProduct_of_finalized hfinal]
      rw [hsame] at hstep
      obtain ⟨rfl, rfl⟩ := Prod.mk.inj (Option.some.inj hstep)
      exact ⟨rfl, rfl⟩

end Runs

/-- A decoder that answers every block with one black preview pixel. -/
def previewDecoder : LrptDecoder Unit Unit Unit where
  mission := fun _ _ => ()
  resetStream := fun _ _ => ()
  pushComplex := fun _ _ => ((), [⟨0, 0, true, true, [(64, ⟨1, 1, [0]⟩)]⟩])
  resultSnapshot := fun _ => none
  progressSnapshot := fun _ => ⟨0, 0, true, true, []⟩

/-- A pipeline just created. -/
def previewPipeline : Telemetry Unit Unit where
  input := []
  channelId := 7
  decoder := ()
  profile := .oqpsk72
  sampleRateHz := 288000
  centerFreqHz := 137100000
  sourceProduct := none
  productId := 1
  productFinalized := false
  continuity := none
  progress := []
  nextEpoch := 2

/-- A block arrives and is decoded, then the pipeline is shut down. -/
def previewThenShutdown : List (TelemetryInput Unit) :=
  [.arrive ⟨0, none, 0, 288000, 137100000, [()]⟩, .tick, .shutdown]

/-- The protocol for the one product of this run, which is previewed and never completed. -/
theorem run_product_protocol_preview :
    ∃ t h, (Telemetry.machine previewDecoder previewPipeline).run previewPipeline
        previewThenShutdown = some (t, h) ∧
      (∃ L : ProductLog Unit, published (actionsOf h) = L.frames ∧
        (∀ q ∈ L.products,
          (published (actionsOf h)).filter (fun f => f.productId = q.id) = q.frames) ∧
        L.current.id = t.productId ∧ L.current.completion.isSome = t.productFinalized) ∧
      (∀ i b b', .feed i b ∈ actionsOf h → .feed i b' ∈ actionsOf h →
        b.centerFreqHz = b'.centerFreqHz ∧ b.productSession = b'.productSession) ∧
      ∀ past e later, h = past ++ e :: later → StepLaw past e :=
  run_product_protocol previewDecoder
    (show Telemetry.new previewDecoder 7 288000 .oqpsk72 137100000 1 = .ok previewPipeline from rfl)
    previewThenShutdown

/-- A shutdown does not complete the product that is current: the subscribers
    are left with its previews. -/
theorem shutdown_leaves_product_open :
    ¬ ∀ (t : Telemetry Unit Unit) (h : List (TelemetryEvent Unit Unit Unit)),
      (Telemetry.machine previewDecoder previewPipeline).run previewPipeline
        previewThenShutdown = some (t, h) →
      ∀ i, (∃ f ∈ published (actionsOf h), f.productId = i) →
        ∃ previews finals c,
          (published (actionsOf h)).filter (fun f => f.productId = i) =
            previews ++ finals ++ [c] ∧
          (∀ f ∈ previews, f.IsPreview) ∧ (∀ f ∈ finals, f.IsFinal) ∧ c.IsCompletion := by
  intro hclaim
  obtain ⟨previews, finals, c, hfilter, -, -, -, hcomplete⟩ :=
    hclaim _ _ rfl 1 ⟨_, List.mem_singleton_self _, rfl⟩
  have hmem : c ∈ previews ++ finals ++ [c] := by simp
  rw [← hfilter] at hmem
  obtain rfl := List.mem_singleton.1 (List.mem_of_mem_filter hmem)
  cases hcomplete

end Capture
