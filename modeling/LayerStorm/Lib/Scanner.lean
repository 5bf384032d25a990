import LayerStorm.Lib.TagSearch

/-!
# Incremental scanners

A scanner reads a text that arrives in pieces.  It keeps a buffer; a step either goes on, with a
shorter buffer, or waits for more text, perhaps after it has given out a part of the buffer.  Where
the text is cut does not matter if every step that goes on does so however the text continues, and
waiting loses nothing.
-/

namespace LayerStorm.Lib
namespace Scanner

variable {σ α E V : Type*}

/-- What a step does with the buffer, and what it gives out. -/
inductive Outcome (σ α E : Type*)
  | more (s : σ) (rest : List α) (out : List E)
  | wait (rest : List α) (out : List E)

variable (step : σ → List α → Outcome σ α E)

/-- At most `n` steps. -/
def run : ℕ → σ → List α → σ × List α × List E
  | 0, s, b => (s, b, [])
  | n + 1, s, b =>
    match step s b with
    | .more s' b' out =>
      let r := run n s' b'
      (r.1, r.2.1, out ++ r.2.2)
    | .wait b' out => (s, b', out)

/-- Steps until the scanner waits. -/
def process (s : σ) (b : List α) : σ × List α × List E := run step (b.length + 1) s b

def feed : σ × List α → List (List α) → (σ × List α) × List E
  | p, [] => (p, [])
  | p, d :: ds =>
    let r := process step p.1 (p.2 ++ d)
    let r' := feed (r.1, r.2.1) ds
    (r'.1, r.2.2 ++ r'.2)

/-- Every step that goes on shortens the buffer. -/
def Shortens : Prop := ∀ s b s' b' out, step s b = .more s' b' out → b'.length < b.length

variable {step}

theorem run_eq_process (hstep : Shortens step) : ∀ (n : ℕ) {s : σ} {b : List α}, b.length < n →
    run step n s b = process step s b := by
  intro n
  induction n using Nat.strongRecOn with
  | ind n ih =>
    intro s b hb
    obtain ⟨m, rfl⟩ : ∃ m, n = m + 1 := ⟨n - 1, by omega⟩
    unfold process run
    cases hs : step s b with
    | wait b' out => rfl
    | more s' b' out =>
      have hlt := hstep _ _ _ _ _ hs
      have h₁ : run step m s' b' = process step s' b' :=
        ih m (Nat.lt_succ_self m) (by omega)
      have h₂ : run step b.length s' b' = process step s' b' := by
        rcases Nat.lt_or_ge b.length m with hbm | hbm
        · exact ih b.length (by omega) hlt
        · have hbm' : b.length = m := by omega
          rw [hbm', h₁]
      dsimp only
      rw [h₁, h₂]

theorem process_more (hstep : Shortens step) {s s' : σ} {b b' : List α} {out : List E}
    (h : step s b = .more s' b' out) :
    process step s b =
      ((process step s' b').1, (process step s' b').2.1, out ++ (process step s' b').2.2) := by
  have hrest : run step b.length s' b' = process step s' b' :=
    run_eq_process hstep b.length (hstep _ _ _ _ _ h)
  conv_lhs => unfold process run
  rw [h]
  dsimp only
  rw [hrest]

theorem process_wait {s : σ} {b b' : List α} {out : List E} (h : step s b = .wait b' out) :
    process step s b = (s, b', out) := by
  unfold process run
  rw [h]

/-! ### Invariants -/

/-- An invariant of the scanner's state and of what it has given out. -/
structure Preserves (step : σ → List α → Outcome σ α E) (I : σ → List E → Prop) : Prop where
  more : ∀ {s b s' b' out es}, I s es → step s b = .more s' b' out → I s' (es ++ out)
  wait : ∀ {s b b' out es}, I s es → step s b = .wait b' out → I s (es ++ out)

variable {I : σ → List E → Prop}

theorem Preserves.run (h : Preserves step I) : ∀ (n : ℕ) {s : σ} {b : List α} {es : List E},
    I s es → I (run step n s b).1 (es ++ (run step n s b).2.2) := by
  intro n
  induction n with
  | zero =>
    intro s b es hI
    simpa [Scanner.run] using hI
  | succ n ih =>
    intro s b es hI
    unfold Scanner.run
    cases hs : step s b with
    | more s' b' out =>
      rw [← List.append_assoc]
      exact ih (h.more hI hs)
    | wait b' out => exact h.wait hI hs

/-- **What every step preserves, every feeding preserves.** -/
theorem Preserves.feed (h : Preserves step I) : ∀ (ds : List (List α)) {p : σ × List α}
    {es : List E}, I p.1 es → I (feed step p ds).1.1 (es ++ (feed step p ds).2) := by
  intro ds
  induction ds with
  | nil =>
    intro p es hI
    simpa [Scanner.feed] using hI
  | cons d ds ih =>
    intro p es hI
    unfold Scanner.feed
    rw [← List.append_assoc]
    exact ih (h.run _ hI)

/-- An outcome is that of another step, with more given out before it. -/
def Outcome.Same (view : List E → V) (out : List E) : Outcome σ α E → Outcome σ α E → Prop
  | .more s b o, .more s' b' o' => s = s' ∧ b = b' ∧ view o = view (out ++ o')
  | .wait b o, .wait b' o' => b = b' ∧ view o = view (out ++ o')
  | _, _ => False

/-! ### One state -/

/-- The steps in one state do not depend on where the text is cut, as far as a view of what is
given out shows, for texts that are `Ok`. -/
structure Steady (view : List E → V) (Ok : List α → Prop) (f : List α → Outcome σ α E) : Prop where
  shortens : ∀ {b s' b' out}, f b = .more s' b' out → b'.length < b.length
  /-- A step that goes on does so however the text continues. -/
  more : ∀ {b u s' b' out}, Ok (b ++ u) → f b = .more s' b' out →
    f (b ++ u) = .more s' (b' ++ u) out
  /-- Waiting loses nothing. -/
  wait : ∀ {b u b' out}, Ok (b ++ u) → f b = .wait b' out →
    Outcome.Same view out (f (b ++ u)) (f (b' ++ u))

theorem Outcome.Same.refl (view : List E → V) : ∀ o : Outcome σ α E, Outcome.Same view [] o o
  | .more _ _ _ => ⟨rfl, rfl, rfl⟩
  | .wait _ _ => ⟨rfl, rfl⟩

section Tags

variable {view : List E → V} {Ok : List α → Prop} {f : List α → Outcome σ α E}
variable [DecidableEq α]

theorem Steady.of_cut {g : Tag α} (hnone : ∀ {b}, g.cut b = none → f b = .wait b [])
    (hsome : ∀ x, ∃ s' out, ∀ {b y}, g.cut b = some (x, y) → f b = .more s' y out) :
    Steady view Ok f := by
  refine ⟨fun {b _ _ _} h => ?_, fun {b u _ _ _} _ h => ?_, fun {b u _ _} _ h => ?_⟩
  · rcases hc : g.cut b with _ | ⟨x, y⟩
    · rw [hnone hc] at h
      cases h
    obtain ⟨s', out, hmore⟩ := hsome x
    rw [hmore hc] at h
    cases h
    exact Tag.length_of_cut hc
  · rcases hc : g.cut b with _ | ⟨x, y⟩
    · rw [hnone hc] at h
      cases h
    obtain ⟨s', out, hmore⟩ := hsome x
    rw [hmore hc] at h
    cases h
    exact hmore (Tag.cut_append hc u)
  · rcases hc : g.cut b with _ | ⟨x, y⟩
    · rw [hnone hc] at h
      cases h
      exact Outcome.Same.refl _ _
    · obtain ⟨s', out, hmore⟩ := hsome x
      rw [hmore hc] at h
      cases h

/-- A state that searches for the earliest of several tags is steady. -/
theorem Steady.of_cutFirst {gs : List (Tag α)} (hgs : Distinct gs)
    (hnone : ∀ {b}, cutFirst gs b = none → f b = .wait b [])
    (hsome : ∀ x, ∀ g ∈ gs, ∃ s' out, ∀ {b y}, cutFirst gs b = some (x, g, y) →
      f b = .more s' y out) : Steady view Ok f := by
  refine ⟨fun {b _ _ _} h => ?_, fun {b u _ _ _} _ h => ?_, fun {b u _ _} _ h => ?_⟩
  · rcases hc : cutFirst gs b with _ | ⟨x, g, y⟩
    · rw [hnone hc] at h
      cases h
    obtain ⟨s', out, hmore⟩ := hsome x g (mem_of_cutFirst hc)
    rw [hmore hc] at h
    cases h
    exact length_of_cutFirst hc
  · rcases hc : cutFirst gs b with _ | ⟨x, g, y⟩
    · rw [hnone hc] at h
      cases h
    obtain ⟨s', out, hmore⟩ := hsome x g (mem_of_cutFirst hc)
    rw [hmore hc] at h
    cases h
    exact hmore (cutFirst_append hgs hc u)
  · rcases hc : cutFirst gs b with _ | ⟨x, g, y⟩
    · rw [hnone hc] at h
      cases h
      exact Outcome.Same.refl _ _
    · obtain ⟨s', out, hmore⟩ := hsome x g (mem_of_cutFirst hc)
      rw [hmore hc] at h
      cases h

/-- **A state that gives out what it reads up to a tag** is steady. -/
theorem Steady.of_reach {g : Tag α} {s' : σ} {out flow : List α → List E}
    (htrue : ∀ {b x y}, g.reach b = (true, x, y) → f b = .more s' y (out x))
    (hfalse : ∀ {b x y}, g.reach b = (false, x, y) → f b = .wait y (flow x))
    (hout : ∀ x x', view (out (x ++ x')) = view (flow x ++ out x'))
    (hflow : ∀ x x', view (flow (x ++ x')) = view (flow x ++ flow x')) : Steady view Ok f := by
  refine ⟨fun {b _ _ _} h => ?_, fun {b u _ _ _} _ h => ?_, fun {b u _ _} _ h => ?_⟩
  · rcases hr : g.reach b with ⟨_ | _, x, y⟩
    · rw [hfalse hr] at h
      cases h
    · rw [htrue hr] at h
      cases h
      exact Tag.length_of_cut (Tag.reach_true.1 hr)
  · rcases hr : g.reach b with ⟨_ | _, x, y⟩
    · rw [hfalse hr] at h
      cases h
    · rw [htrue hr] at h
      cases h
      exact htrue (Tag.reach_true.2 (Tag.cut_append (Tag.reach_true.1 hr) u))
  · rcases hr : g.reach b with ⟨_ | _, x, y⟩
    · rw [hfalse hr] at h
      obtain ⟨rfl, rfl⟩ := Outcome.wait.inj h
      have hheld := Tag.reach_held hr u
      rcases hr' : g.reach (y ++ u) with ⟨_ | _, x', y'⟩
      · rw [hr'] at hheld
        rw [hfalse hheld, hfalse hr']
        exact ⟨rfl, hflow x x'⟩
      · rw [hr'] at hheld
        rw [htrue hheld, htrue hr']
        exact ⟨rfl, rfl, hout x x'⟩
    · rw [htrue hr] at h
      cases h

end Tags

/-! ### All states -/

/-- **Where the text is cut does not matter**, as far as a view of what is given out shows, for
texts that are `Ok`. -/
structure Resumable (step : σ → List α → Outcome σ α E) (view : List E → V)
    (Ok : σ → List α → Prop) : Prop where
  steady : ∀ s, Steady view (Ok s) (step s)
  ok_more : ∀ {s t s' t' out}, Ok s t → step s t = .more s' t' out → Ok s' t'
  ok_wait : ∀ {s b u b' out}, Ok s (b ++ u) → step s b = .wait b' out → Ok s (b' ++ u)
  view_append : ∀ {o₁ o₁' o₂ o₂' : List E}, view o₁ = view o₁' → view o₂ = view o₂' →
    view (o₁ ++ o₂) = view (o₁' ++ o₂')

namespace Resumable

variable {view : List E → V} {Ok : σ → List α → Prop} (h : Resumable step view Ok)

include h

theorem shortens : Shortens step := fun s _ _ _ _ hs => (h.steady s).shortens hs

theorem process_same {s : σ} {t t' : List α} {out : List E}
    (hsame : Outcome.Same view out (step s t) (step s t')) :
    (process step s t).1 = (process step s t').1 ∧
      (process step s t).2.1 = (process step s t').2.1 ∧
        view (process step s t).2.2 = view (out ++ (process step s t').2.2) := by
  cases hl : step s t with
  | more s₁ b₁ o₁ =>
    cases hr : step s t' with
    | more s₂ b₂ o₂ =>
      rw [hl, hr] at hsame
      obtain ⟨rfl, rfl, hview⟩ := hsame
      rw [process_more h.shortens hl, process_more h.shortens hr]
      refine ⟨rfl, rfl, ?_⟩
      rw [← List.append_assoc]
      exact h.view_append hview rfl
    | wait b₂ o₂ =>
      rw [hl, hr] at hsame
      exact absurd hsame id
  | wait b₁ o₁ =>
    cases hr : step s t' with
    | more s₂ b₂ o₂ =>
      rw [hl, hr] at hsame
      exact absurd hsame id
    | wait b₂ o₂ =>
      rw [hl, hr] at hsame
      rw [process_wait hl, process_wait hr]
      exact ⟨rfl, hsame⟩

theorem process_append {s : σ} {b : List α} (u : List α) (hok : Ok s (b ++ u)) :
    let r := process step s b
    let r' := process step r.1 (r.2.1 ++ u)
    let w := process step s (b ++ u)
    w.1 = r'.1 ∧ w.2.1 = r'.2.1 ∧ view w.2.2 = view (r.2.2 ++ r'.2.2) ∧ Ok r.1 (r.2.1 ++ u) := by
  obtain ⟨n, hn⟩ : ∃ n, b.length = n := ⟨_, rfl⟩
  induction n using Nat.strongRecOn generalizing s b with
  | ind n ih =>
    cases hstep : step s b with
    | more s' b' out =>
      have hmore := (h.steady s).more hok hstep
      have hlt := h.shortens _ _ _ _ _ hstep
      obtain ⟨h₁, h₂, h₃, h₄⟩ := ih b'.length (by omega) (h.ok_more hok hmore) rfl
      rw [process_more h.shortens hstep, process_more h.shortens hmore]
      refine ⟨h₁, h₂, ?_, h₄⟩
      rw [List.append_assoc]
      exact h.view_append rfl h₃
    | wait b' out =>
      obtain ⟨h₁, h₂, h₃⟩ := h.process_same ((h.steady s).wait hok hstep)
      rw [process_wait hstep]
      exact ⟨h₁, h₂, h₃, h.ok_wait hok hstep⟩

theorem feed_eq : ∀ (ds : List (List α)) {s : σ} {b : List α}, Ok s (b ++ ds.flatten) →
    process step s b = (s, b, []) →
      let r := feed step (s, b) ds
      let w := process step s (b ++ ds.flatten)
      r.1 = (w.1, w.2.1) ∧ view r.2 = view w.2.2 := by
  have hnonempty : ∀ (ds : List (List α)) (d : List α) {s : σ} {b : List α},
      Ok s (b ++ (d :: ds).flatten) →
        let r := feed step (s, b) (d :: ds)
        let w := process step s (b ++ (d :: ds).flatten)
        r.1 = (w.1, w.2.1) ∧ view r.2 = view w.2.2 := by
    intro ds
    induction ds with
    | nil =>
      intro d s b _
      simp [feed]
    | cons d' ds ih =>
      intro d s b hok
      rw [List.flatten_cons, ← List.append_assoc] at hok ⊢
      obtain ⟨h₁, h₂, h₃, h₄⟩ := h.process_append _ hok
      obtain ⟨hstate, hview⟩ := ih d' h₄
      rw [feed]
      refine ⟨?_, ?_⟩
      · rw [hstate, h₁, h₂]
      · rw [h₃]
        exact h.view_append rfl hview
  intro ds s b hok hidle
  cases ds with
  | nil =>
    rw [List.flatten_nil, List.append_nil, hidle]
    exact ⟨rfl, rfl⟩
  | cons d ds => exact hnonempty ds d hok

theorem feed_congr {ds ds' : List (List α)} {s : σ} (hflat : ds.flatten = ds'.flatten)
    (hok : Ok s ds.flatten) (hidle : process step s [] = (s, [], [])) :
    (feed step (s, []) ds).1 = (feed step (s, []) ds').1 ∧
      view (feed step (s, []) ds).2 = view (feed step (s, []) ds').2 := by
  obtain ⟨h₁, h₂⟩ := h.feed_eq ds (b := []) hok hidle
  obtain ⟨h₁', h₂'⟩ := h.feed_eq ds' (b := []) (hflat ▸ hok) hidle
  rw [hflat] at h₁ h₂
  exact ⟨h₁.trans h₁'.symm, h₂.trans h₂'.symm⟩

end Resumable

end Scanner
end LayerStorm.Lib
