import EzSdr.Capture.Telemetry

/-! # Products and Their Frames

    What the subscribers of a telemetry pipeline are meant to see: a sequence
    of products, each with its reset frame (but for the first product), its
    previews, its final images and its completion marker. The structures carry
    these rules, so that only lawful sequences can be built. -/

namespace Capture

variable {τ : Type*}

/-! ## Section 1: Kinds of frames -/

/-- Announces a product: no image, and nothing is final. -/
structure TelemetryFrame.IsReset (f : TelemetryFrame τ) : Prop where
  apid     : f.apid = 0
  empty    : f.width = 0 ∧ f.height = 0 ∧ f.pixels = []
  progress : f.finalProduct = false ∧ f.productComplete = false

def TelemetryFrame.IsPreview (f : TelemetryFrame τ) : Prop :=
  f.finalProduct = false ∧ f.productComplete = false

def TelemetryFrame.IsFinal (f : TelemetryFrame τ) : Prop :=
  f.finalProduct = true ∧ f.productComplete = false

def TelemetryFrame.IsCompletion (f : TelemetryFrame τ) : Prop :=
  f.finalProduct = false ∧ f.productComplete = true

/-! ## Section 2: One product -/

/-- The frames of one product so far. -/
structure Product (τ : Type*) where
  id            : ℕ
  reset         : Option (TelemetryFrame τ)
  previews      : List (TelemetryFrame τ)
  finals        : List (TelemetryFrame τ)
  completion    : Option (TelemetryFrame τ)
  reset_ok      : ∀ f ∈ reset, f.productId = id ∧ f.IsReset
  previews_ok   : ∀ f ∈ previews, f.productId = id ∧ f.IsPreview
  finals_ok     : ∀ f ∈ finals, f.productId = id ∧ f.IsFinal
  completion_ok : ∀ f ∈ completion, f.productId = id ∧ f.IsCompletion
  /-- Final images come with the completion marker only. -/
  finals_closed : completion = none → finals = []

namespace Product

/-- The frames in the order of their publication. -/
def frames (q : Product τ) : List (TelemetryFrame τ) :=
  q.reset.toList ++ q.previews ++ q.finals ++ q.completion.toList

theorem productId_of_mem_frames {q : Product τ} {f : TelemetryFrame τ} (hf : f ∈ q.frames) :
    f.productId = q.id := by
  simp only [frames, List.mem_append, Option.mem_toList] at hf
  rcases hf with ((hf | hf) | hf) | hf
  · exact (q.reset_ok f hf).1
  · exact (q.previews_ok f hf).1
  · exact (q.finals_ok f hf).1
  · exact (q.completion_ok f hf).1

/-- A product that nothing was said about. -/
def start (id : ℕ) : Product τ where
  id := id
  reset := none
  previews := []
  finals := []
  completion := none
  reset_ok := by simp
  previews_ok := by simp
  finals_ok := by simp
  completion_ok := by simp
  finals_closed := fun _ => rfl

/-- A product that was announced. -/
def announce (f : TelemetryFrame τ) (hf : f.IsReset) : Product τ where
  id := f.productId
  reset := some f
  previews := []
  finals := []
  completion := none
  reset_ok := by
    intro g hg
    obtain rfl := Option.some.inj hg
    exact ⟨rfl, hf⟩
  previews_ok := by simp
  finals_ok := by simp
  completion_ok := by simp
  finals_closed := fun _ => rfl

/-- More previews of an open product. -/
def preview (q : Product τ) (fs : List (TelemetryFrame τ))
    (hfs : ∀ f ∈ fs, f.productId = q.id ∧ f.IsPreview) : Product τ :=
  { q with
    previews := q.previews ++ fs
    previews_ok := by
      intro f hf
      rcases List.mem_append.1 hf with hf | hf
      · exact q.previews_ok f hf
      · exact hfs f hf }

/-- The end of a product: its final images and its completion marker. -/
def close (q : Product τ) (fs : List (TelemetryFrame τ)) (c : TelemetryFrame τ)
    (hfs : ∀ f ∈ fs, f.productId = q.id ∧ f.IsFinal)
    (hc : c.productId = q.id ∧ c.IsCompletion) : Product τ :=
  { q with
    finals := fs
    completion := some c
    finals_ok := hfs
    completion_ok := by
      intro g hg
      obtain rfl := Option.some.inj hg
      exact hc
    finals_closed := by simp }

/-- As long as a product is open its frames are the reset frame and the previews. -/
theorem frames_of_open {q : Product τ} (hopen : q.completion = none) :
    q.frames = q.reset.toList ++ q.previews := by
  simp [frames, hopen, q.finals_closed hopen]

theorem frames_preview {q : Product τ} {fs : List (TelemetryFrame τ)}
    (hfs : ∀ f ∈ fs, f.productId = q.id ∧ f.IsPreview) (hopen : q.completion = none) :
    (q.preview fs hfs).frames = q.frames ++ fs := by
  rw [frames_of_open hopen, frames_of_open (show (q.preview fs hfs).completion = none from hopen)]
  simp [preview]

theorem frames_close {q : Product τ} {fs : List (TelemetryFrame τ)} {c : TelemetryFrame τ}
    (hfs : ∀ f ∈ fs, f.productId = q.id ∧ f.IsFinal)
    (hc : c.productId = q.id ∧ c.IsCompletion) (hopen : q.completion = none) :
    (q.close fs c hfs hc).frames = q.frames ++ (fs ++ [c]) := by
  rw [frames_of_open hopen]
  simp [frames, close]

end Product

/-! ## Section 3: A sequence of products -/

/-- The products of a pipeline: those before the current one are complete, and
    all but the first were announced. Identifiers grow. -/
structure ProductLog (τ : Type*) where
  retired   : List (Product τ)
  current   : Product τ
  closed    : ∀ q ∈ retired, q.completion.isSome
  announced : ∀ q ∈ (retired ++ [current]).tail, q.reset.isSome
  ordered   : (retired ++ [current]).Pairwise fun q r => q.id < r.id

namespace ProductLog

def products (L : ProductLog τ) : List (Product τ) := L.retired ++ [L.current]

/-- Everything published, product after product. -/
def frames (L : ProductLog τ) : List (TelemetryFrame τ) := L.products.flatMap Product.frames

theorem frames_eq (L : ProductLog τ) :
    L.frames = L.retired.flatMap Product.frames ++ L.current.frames := by
  simp [frames, products]

/-- A product with its identifier is all that the log says under it. -/
theorem filter_frames {L : ProductLog τ} {q : Product τ} (hq : q ∈ L.products) :
    L.frames.filter (fun f => f.productId = q.id) = q.frames := by
  obtain ⟨before, after, hsplit⟩ := List.append_of_mem hq
  have hordered := L.ordered
  rw [show L.retired ++ [L.current] = before ++ q :: after from hsplit] at hordered
  obtain ⟨-, htail, hbefore⟩ := List.pairwise_append.1 hordered
  obtain ⟨hafter, -⟩ := List.pairwise_cons.1 htail
  -- products with other identifiers leave nothing
  have hnone : ∀ rs : List (Product τ), (∀ r ∈ rs, r.id ≠ q.id) →
      (rs.flatMap Product.frames).filter (fun f => f.productId = q.id) = [] := by
    intro rs hrs
    rw [List.filter_eq_nil_iff]
    intro f hf
    obtain ⟨r, hr, hfr⟩ := List.mem_flatMap.1 hf
    simpa [Product.productId_of_mem_frames hfr] using hrs r hr
  have hself : q.frames.filter (fun f => f.productId = q.id) = q.frames := by
    rw [List.filter_eq_self]
    intro f hf
    simpa using Product.productId_of_mem_frames hf
  have hfront := hnone before fun r hr => (hbefore r hr q (by simp)).ne
  have hback := hnone after fun r hr => (hafter r hr).ne'
  rw [frames, hsplit, List.flatMap_append, List.flatMap_cons, List.filter_append,
    List.filter_append, hfront, hback, hself]
  simp

/-- The log of a pipeline that has published nothing. -/
def start (id : ℕ) : ProductLog τ where
  retired := []
  current := Product.start id
  closed := by simp
  announced := by simp
  ordered := by simp

/-- Replace the current product by a later state of it. -/
def update (L : ProductLog τ) (q : Product τ) (hid : q.id = L.current.id)
    (hreset : q.reset = L.current.reset) : ProductLog τ where
  retired := L.retired
  current := q
  closed := L.closed
  announced := by
    have h := L.announced
    cases hretired : L.retired with
    | nil => simp
    | cons r rs =>
      rw [hretired] at h
      intro r' hr'
      rcases List.mem_append.1 hr' with hr' | hr'
      · exact h r' (List.mem_append_left _ hr')
      · rw [List.mem_singleton.1 hr', hreset]
        exact h L.current (List.mem_append_right _ (List.mem_singleton_self _))
  ordered := by
    obtain ⟨hretired, -, hlast⟩ := List.pairwise_append.1 L.ordered
    refine List.pairwise_append.2 ⟨hretired, List.pairwise_singleton _ _, ?_⟩
    intro r hr q' hq'
    rw [List.mem_singleton.1 hq', hid]
    exact hlast r hr L.current (List.mem_singleton_self _)

/-- The current product is complete and the next one is announced. -/
def next (L : ProductLog τ) (f : TelemetryFrame τ) (hf : f.IsReset)
    (hclosed : L.current.completion.isSome) (hid : L.current.id < f.productId) :
    ProductLog τ where
  retired := L.products
  current := Product.announce f hf
  closed := by
    intro q hq
    rcases List.mem_append.1 hq with hq | hq
    · exact L.closed q hq
    · rw [List.mem_singleton.1 hq]
      exact hclosed
  announced := by
    intro q hq
    have hne : L.products ≠ [] := by simp [products]
    rw [List.tail_append_of_ne_nil hne] at hq
    rcases List.mem_append.1 hq with hq | hq
    · exact L.announced q hq
    · rw [List.mem_singleton.1 hq]
      rfl
  ordered := by
    refine List.pairwise_append.2 ⟨L.ordered, List.pairwise_singleton _ _, ?_⟩
    intro q hq r hr
    rw [List.mem_singleton.1 hr]
    -- identifiers grow up to the current product, and `f` has a larger one
    rcases List.mem_append.1 hq with hq | hq
    · have hlast := (List.pairwise_append.1 L.ordered).2.2 q hq L.current
        (List.mem_singleton_self _)
      exact hlast.trans hid
    · rw [List.mem_singleton.1 hq]
      exact hid

theorem frames_update {L : ProductLog τ} {q : Product τ} {fs : List (TelemetryFrame τ)}
    (hid : q.id = L.current.id) (hreset : q.reset = L.current.reset)
    (hfs : q.frames = L.current.frames ++ fs) :
    (L.update q hid hreset).frames = L.frames ++ fs := by
  rw [frames_eq, frames_eq]
  simp [update, hfs]

theorem frames_next {L : ProductLog τ} {f : TelemetryFrame τ} {hf : f.IsReset}
    {hclosed : L.current.completion.isSome} {hid : L.current.id < f.productId} :
    (L.next f hf hclosed hid).frames = L.frames ++ [f] := by
  rw [frames_eq]
  simp [next, frames, Product.announce, Product.frames]

end ProductLog

end Capture
