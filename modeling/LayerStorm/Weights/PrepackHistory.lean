import LayerStorm.Lib.Run
import LayerStorm.Weights.Prepacker

/-!
# Prepacked directories match their manifest

Expert files are kept or replaced one at a time, by their size alone, and the manifest is written
last.  A directory that held the files of another model of the same size keeps them under the new
manifest, and while files of another size are replaced the old manifest stays.  Runs that start
over nothing but files of their own model keep directory and manifest together.

## Main results

* `prepacked_matches_manifest` — every history of clean actions is consistent.
* `same_size_files_kept` — the files of another model stay under a new manifest.
-/

namespace LayerStorm.Weights

open Lib
open Function World

/-! ### The property -/

/-- The expert files are the packed files of the source, and there are no others. -/
def Filled (d : Dir) (src : Source) : Prop :=
  (∀ ei < src.nRoutedExperts, ∃ f, d.files ei = some f ∧ src.packedFile ei = .ok f) ∧
    ∀ ei f, d.files ei = some f → ei < src.nRoutedExperts

/-- The manifest that is there was built for a source whose packed files the directory holds. -/
def Described (d : Dir) : Prop :=
  ∀ m author, d.manifest = some (.whole m author) →
    (∃ types, author.layerGgufTypes = .ok types ∧ author.manifest types = .ok m) ∧ Filled d author

/-- **The property**: a run that has returned without error has left its manifest and its files,
and the manifest that is there when no run is under way describes the files. -/
structure Consistent (w : World) : Prop where
  completed : ∀ r, w.run = some r → r.phase = .done none →
    (∃ m, w.dir.manifest = some (.whole m r.src)) ∧ Filled w.dir r.src
  described : (∀ r, w.run = some r → ∃ e, r.phase = .done e) → Described w.dir

/-! ### The condition -/

def SameFiles (src src' : Source) : Prop :=
  src.nRoutedExperts = src'.nRoutedExperts ∧ ∀ ei, src.packedFile ei = src'.packedFile ei

/-- **The condition on an action.**  A run starts with something to pack, in a directory whose
expert files are its own wherever they have the right size, and whose manifest, if there is one,
is that of a source with the same packed files; and the write of the manifest is complete. -/
def Clean (w : World) : PrepackAction → Prop
  | .start src _ =>
    (src.moeLayerIndices.length ≠ 0 ∧ src.nRoutedExperts ≠ 0) ∧
    (∀ ei f, w.dir.files ei = some f → ei < src.nRoutedExperts ∧
      (f.length = src.expectedSize → src.packedFile ei = .ok f)) ∧
    ∀ m author, w.dir.manifest = some (.whole m author) → SameFiles author src
  | .op a => ∀ r m, w.run = some r → r.phase = .manifestOpen m → a.ok = true
  | .stop => True

/-! ### The invariant -/

/-- The expert files below an index are packed. -/
def PackedBelow (d : Dir) (src : Source) (n : ℕ) : Prop :=
  ∀ ei < n, ∃ f, d.files ei = some f ∧ src.packedFile ei = .ok f

/-- A directory that a run of the source works on. -/
structure DirOk (d : Dir) (src : Source) : Prop where
  own : ∀ ei f, d.files ei = some f →
    ei < src.nRoutedExperts ∧ (f.length = src.expectedSize → src.packedFile ei = .ok f)
  described : Described d
  same : ∀ m author, d.manifest = some (.whole m author) → SameFiles author src

def PhaseOk (d : Dir) (src : Source) (types : List GgufTypes) : Phase → Prop
  | .look ei => PackedBelow d src ei
  | .slots ei layerPos text => PackedBelow d src ei ∧ ei < src.nRoutedExperts ∧
      layerPos ≤ src.moeLayerIndices.length ∧ src.slots types ei layerPos = .ok text
  | .closed ei => PackedBelow d src ei ∧ ei < src.nRoutedExperts ∧
      ∃ text k, src.packedFile ei = .ok text ∧ d.tmps ei = some (text.take k)
  | .sized ei => PackedBelow d src ei ∧ ei < src.nRoutedExperts ∧
      ∃ text, src.packedFile ei = .ok text ∧ d.tmps ei = some text
  | .manifest => PackedBelow d src src.nRoutedExperts
  | .manifestOpen m => PackedBelow d src src.nRoutedExperts ∧ src.manifest types = .ok m
  | .done none => PackedBelow d src src.nRoutedExperts ∧ ∃ m, d.manifest = some (.whole m src)
  | .done (some _) => True

structure Working (d : Dir) (r : Run) : Prop where
  dir : DirOk d r.src
  types : (∀ e, r.phase ≠ .done e) → r.src.layerGgufTypes = .ok r.types
  phase : PhaseOk d r.src r.types r.phase

/-- The invariant of a state. -/
def World.Inv (w : World) : Prop :=
  match w.run with
  | none => Described w.dir
  | some r => Working w.dir r

variable {src : Source} {types : List GgufTypes} {ei : ℕ} {text : List UInt8} {d d' : Dir}
  {r r' : Run} {w w' : World} {a : Answer}

theorem DirOk.filled (h : DirOk d src) (hp : PackedBelow d src src.nRoutedExperts) : Filled d src :=
  ⟨hp, fun ei f hf => (h.own ei f hf).1⟩

theorem DirOk.congr (h : DirOk d src) (hf : d'.files = d.files) (hm : d'.manifest = d.manifest) :
    DirOk d' src where
  own ei f he := h.own ei f (hf ▸ he)
  described m author he := by
    obtain ⟨hauthor, hfilled⟩ := h.described m author (hm ▸ he)
    refine ⟨hauthor, ?_⟩
    unfold Filled
    rw [hf]
    exact hfilled
  same m author he := h.same m author (hm ▸ he)

theorem PackedBelow.congr {n : ℕ} (h : PackedBelow d src n) (hf : d'.files = d.files) :
    PackedBelow d' src n := by
  unfold PackedBelow
  rw [hf]
  exact h

theorem DirOk.store (h : DirOk d src) (hlt : ei < src.nRoutedExperts)
    (hp : src.packedFile ei = .ok text) (tmps : ℕ → Option (List UInt8)) :
    DirOk { d with files := update d.files ei (some text), tmps := tmps } src where
  own j f hf := by
    have hf : update d.files ei (some text) j = some f := hf
    by_cases hj : j = ei
    · subst hj
      rw [update_self] at hf
      cases hf
      exact ⟨hlt, fun _ => hp⟩
    · rw [update_of_ne hj] at hf
      exact h.own j f hf
  described m author hm := by
    obtain ⟨hauthor, hall, hind⟩ := h.described m author hm
    obtain ⟨hn, hsame⟩ := h.same m author hm
    refine ⟨hauthor, fun j hj => ?_, fun j f hf => ?_⟩
    · by_cases hje : j = ei
      · subst hje
        exact ⟨text, update_self .., (hsame j).trans hp⟩
      · obtain ⟨f, hf, hpf⟩ := hall j hj
        exact ⟨f, (update_of_ne hje ..).trans hf, hpf⟩
    · by_cases hje : j = ei
      · rw [hje, hn]
        exact hlt
      · exact hind j f ((update_of_ne hje ..).symm.trans hf)
  same := h.same

theorem PackedBelow.store (h : PackedBelow d src ei) (hp : src.packedFile ei = .ok text)
    (tmps : ℕ → Option (List UInt8)) :
    PackedBelow { d with files := update d.files ei (some text), tmps := tmps } src (ei + 1) := by
  intro j hj
  by_cases hje : j = ei
  · subst hje
    exact ⟨text, update_self .., hp⟩
  · obtain ⟨f, hf, hpf⟩ := h j (by omega)
    exact ⟨f, (update_of_ne hje ..).trans hf, hpf⟩

/-! ### One operation -/

namespace Working

theorem fail {e : String} (hs : some (r.fail d ei a e) = some (d', r')) (h : DirOk d r.src) :
    Working d' r' := by
  cases hs
  refine ⟨?_, fun hno => absurd rfl (hno _), trivial⟩
  split
  · exact h.congr rfl rfl
  · exact h

theorem done (h : DirOk d r.src) (e : String) : Working d { r with phase := .done (some e) } :=
  ⟨h, fun hno => absurd rfl (hno _), trivial⟩

theorem step (h : Working d r) (hok : ∀ m, r.phase = .manifestOpen m → a.ok = true)
    (hs : r.step d a = some (d', r')) : Working d' r' := by
  obtain ⟨src, types, phase, nw, ns, nb⟩ := r
  obtain ⟨hdir, htypes, hphase⟩ := h
  cases phase with
  | look ei =>
    have htypes := htypes fun _ => Phase.noConfusion
    simp only [Run.step] at hs
    split at hs
    · next hle =>
      cases hs
      exact ⟨hdir, fun _ => htypes, fun j hj => hphase j (hj.trans_le hle)⟩
    next hlt =>
    split at hs
    · next hsize =>
      -- the file has the right size, so that it is the packed one
      cases hs
      refine ⟨hdir, fun _ => htypes, fun j hj => ?_⟩
      by_cases hje : j = ei
      · subst hje
        rcases hf : d.files j with _ | f
        · rw [hf] at hsize
          cases hsize
        · rw [hf] at hsize
          exact ⟨f, rfl, (hdir.own j f hf).2 (of_decide_eq_true hsize)⟩
      · exact hphase j (by omega)
    · split at hs
      · cases hs
        exact ⟨hdir.congr rfl rfl, fun _ => htypes,
          hphase.congr rfl, Nat.not_le.1 hlt, Nat.zero_le _, rfl⟩
      · cases hs
        exact done hdir _
  | slots ei layerPos text =>
    have htypes := htypes fun _ => Phase.noConfusion
    obtain ⟨hbelow, hlt, hle, htext⟩ := hphase
    simp only [Run.step] at hs
    split at hs
    · next hpos =>
      split at hs
      · exact fail hs (hdir.congr rfl rfl)
      next slot hslot =>
      split at hs
      · cases hs
        refine ⟨hdir.congr rfl rfl, fun _ => htypes, hbelow.congr rfl, hlt, hpos, ?_⟩
        simp only [Source.slots, bind_eq_ok]
        exact ⟨text, htext, slot, hslot, rfl⟩
      · exact fail hs (hdir.congr rfl rfl)
    · next hpos =>
      -- all slots are written
      cases hs
      obtain rfl : layerPos = src.moeLayerIndices.length :=
        Nat.le_antisymm hle (Nat.not_lt.1 hpos)
      refine ⟨hdir.congr rfl rfl, fun _ => htypes, hbelow.congr rfl, hlt, text, a.reached, ?_,
        update_self ..⟩
      simp only [Source.packedFile, bind_eq_ok]
      exact ⟨types, htypes, htext⟩
  | closed ei =>
    have htypes := htypes fun _ => Phase.noConfusion
    obtain ⟨hbelow, hlt, text, k, htext, htmp⟩ := hphase
    simp only [Run.step] at hs
    split at hs
    · next hsize =>
      -- a text of the full size is the whole one
      cases hs
      refine ⟨hdir, fun _ => htypes, hbelow, hlt, text, htext, ?_⟩
      rw [htmp] at hsize ⊢
      have hlen : (text.take k).length = src.expectedSize := of_decide_eq_true hsize.2
      rw [List.length_take, Source.length_packedFile htext, min_eq_right_iff] at hlen
      rw [List.take_of_length_le (Source.length_packedFile htext ▸ hlen)]
    · exact fail hs hdir
  | sized ei =>
    have htypes := htypes fun _ => Phase.noConfusion
    obtain ⟨hbelow, hlt, text, htext, htmp⟩ := hphase
    simp only [Run.step, htmp] at hs
    split at hs
    · cases hs
      exact ⟨hdir.store hlt htext _, fun _ => htypes, hbelow.store htext _⟩
    · exact fail hs hdir
  | manifest =>
    have htypes := htypes fun _ => Phase.noConfusion
    simp only [Run.step] at hs
    split at hs
    · cases hs
      exact done hdir _
    next m hm =>
    split at hs
    · cases hs
      refine ⟨⟨hdir.own, fun m' author he => ?_, fun m' author he => ?_⟩, fun _ => htypes,
        hphase.congr rfl, hm⟩
      · cases he
      · cases he
    · cases hs
      exact done hdir _
  | manifestOpen m =>
    have htypes := htypes fun _ => Phase.noConfusion
    obtain ⟨hbelow, hm⟩ := hphase
    simp only [Run.step, hok m rfl] at hs
    cases hs
    have hfilled : Filled d src := hdir.filled hbelow
    have hdir' : DirOk { d with manifest := some (.whole m src) } src := by
      refine ⟨hdir.own, fun m' author he => ?_, fun m' author he => ?_⟩
      · cases he
        exact ⟨⟨types, htypes, hm⟩, hfilled⟩
      · cases he
        exact ⟨rfl, fun _ => rfl⟩
    refine ⟨hdir', fun hno => absurd rfl (hno _), ?_⟩
    cases Prepacked.verifyManifest m src.quant.ofManifest with
    | ok _ => exact ⟨hbelow.congr rfl, m, rfl⟩
    | error e => trivial
  | done e => cases hs

end Working

/-! ### Histories -/

theorem World.Inv.described (h : w.Inv) : Described w.dir := by
  unfold World.Inv at h
  split at h
  · exact h
  · exact h.dir.described

theorem World.Inv.start {mkdirOk : Bool} (h : w.Inv) (hok : Clean w (.start src mkdirOk)) :
    ({ w with run := some (Run.begin src mkdirOk) } : World).Inv := by
  obtain ⟨⟨hlayers, hexperts⟩, hown, hsame⟩ := hok
  have hdir : DirOk w.dir src := ⟨hown, h.described, hsame⟩
  have hreturn : ∀ e, Working w.dir ⟨src, [], .done (some e), 0, 0, 0⟩ :=
    fun e => Working.done (r := ⟨src, [], .done none, 0, 0, 0⟩) hdir e
  show Working w.dir (Run.begin src mkdirOk)
  unfold Run.begin
  split
  · exact hreturn _
  split
  · exact hreturn _
  rw [if_neg (by simp only [hlayers, hexperts, or_self, not_false_eq_true])]
  split
  · exact hreturn _
  · next types htypes =>
    exact ⟨hdir, fun _ => htypes, fun j hj => absurd hj (Nat.not_lt_zero j)⟩

theorem World.Inv.step {action : PrepackAction} (h : w.Inv) (hok : Clean w action)
    (hs : w.step action = some w') : w'.Inv := by
  cases action with
  | start src mkdirOk =>
    simp only [World.step] at hs
    split at hs
    · cases hs
      exact h.start hok
    split at hs
    · cases hs
      exact h.start hok
    · cases hs
  | op a =>
    simp only [World.step, Option.bind_eq_some_iff, Option.map_eq_some_iff] at hs
    obtain ⟨r, hr, ⟨d', r'⟩, hstep, rfl⟩ := hs
    have hwork : Working w.dir r := by
      unfold World.Inv at h
      rwa [hr] at h
    exact hwork.step (fun m hm => hok r m hr hm) hstep
  | stop =>
    cases hs
    exact h.described

theorem World.Inv.consistent (h : w.Inv) : Consistent w where
  completed r hr hdone := by
    have hwork : Working w.dir r := by
      unfold World.Inv at h
      rwa [hr] at h
    have hphase := hwork.phase
    rw [hdone] at hphase
    exact ⟨hphase.2, hwork.dir.filled hphase.1⟩
  described _ := h.described

/-- **A prepacked directory matches its manifest** in every history of clean actions. -/
theorem prepacked_matches_manifest {actions : List PrepackAction}
    (hrun : GuardedRun World.step Clean World.empty actions w) : Consistent w := by
  have hempty : empty.Inv := fun _ _ hm => by cases hm
  exact (hrun.invariant (I := World.Inv) (fun _ _ _ h hok hs => h.step hok hs) hempty).consistent

/-- **A stopped run can be taken up again**: it leaves a directory in which a run of the same
source may start. -/
theorem clean_restart {actions : List PrepackAction} {mkdirOk : Bool}
    (hrun : GuardedRun World.step Clean World.empty actions w) (hr : w.run = some r)
    (hlayers : r.src.moeLayerIndices.length ≠ 0) (hexperts : r.src.nRoutedExperts ≠ 0)
    (hstop : w.step .stop = some w') : Clean w' (.start r.src mkdirOk) := by
  have hempty : empty.Inv := fun _ _ hm => by cases hm
  have h := hrun.invariant (I := World.Inv) (fun _ _ _ h hok hs => h.step hok hs) hempty
  unfold World.Inv at h
  rw [hr] at h
  cases hstop
  exact ⟨⟨hlayers, hexperts⟩, h.dir.own, h.dir.same⟩

theorem Run.step_src (hs : r.step d a = some (d', r')) : r'.src = r.src := by
  unfold Run.step at hs
  repeat' split at hs
  all_goals cases hs
  all_goals rfl

/-- FP8 with experts of one weight for each projection: a byte and the scale of its block. -/
def byteQuant : QuantInterface where
  name := "fp8_e4m3"
  weightQuant := .fp8E4m3
  bytesPerProjection _ _ := some 5
  weightBytesPerProjection _ _ := some 1
  bytesPerExpert _ := some 15
  replicatedBytesPerProjection := 0
  ggufTypes := none

/-- A model of one layer with one expert that packs to copies of a byte. -/
def byteSource (byte : UInt8) : Source where
  mem _ := byte
  layers := [[[⟨.gateProj, ⟨0, 1⟩, .f8E4m3, none, []⟩]]]
  packers := ⟨fun _ _ _ _ => [], fun mem _ _ => List.replicate 15 (mem 0)⟩
  quant := byteQuant
  shape := ⟨1, 1⟩
  moeLayerIndices := [0]
  nRoutedExperts := 1
  weightsPath := "model"
  freshness := (byte.toNat, "model")

def succeeding (n : ℕ) : List PrepackAction := List.replicate n (.op ⟨true, 4096, false⟩)

theorem World.succeeding_src : ∀ {n : ℕ} {w w' : World} {r : Run}, w.run = some r →
    (succeeding n).foldlM World.step w = some w' → ∃ r', w'.run = some r' ∧ r'.src = r.src := by
  intro n
  induction n with
  | zero =>
    intro w w' r hr hw
    cases hw
    exact ⟨r, hr, rfl⟩
  | succ n ih =>
    intro w w' r hr hw
    obtain ⟨u, hu, hw⟩ := Option.bind_eq_some_iff.1 hw
    simp only [World.step, hr, Option.bind_some, Option.map_eq_some_iff] at hu
    obtain ⟨⟨d, r₁⟩, hstep, rfl⟩ := hu
    obtain ⟨r', hr', hsrc⟩ := ih rfl hw
    exact ⟨r', hr', hsrc.trans (Run.step_src hstep)⟩

def prepacking (src : Source) (n : ℕ) : List PrepackAction := .start src true :: succeeding n

/-- The run has returned without error. -/
def World.completed (w : World) : Bool :=
  w.run.any fun r => match r.phase with
    | .done none => true
    | _ => false

/-- A model with two such experts. -/
def twoExperts : Source :=
  { byteSource 1 with
    layers := [[[⟨.gateProj, ⟨0, 1⟩, .f8E4m3, none, []⟩], [⟨.gateProj, ⟨0, 1⟩, .f8E4m3, none, []⟩]]]
    nRoutedExperts := 2 }

/-- A run is stopped while it writes the second file, and another one completes the directory. -/
theorem prepacked_matches_manifest_byte : ∃ w, GuardedRun World.step Clean World.empty
      (prepacking twoExperts 7 ++ .stop :: prepacking twoExperts 9) w ∧
    w.completed = true ∧ Consistent w := by
  have hwrites : ∀ n, ∀ s : World, ∀ a ∈ succeeding n, Clean s a := by
    intro n s a ha
    obtain rfl := List.eq_of_mem_replicate ha
    exact fun _ _ _ _ => rfl
  obtain ⟨w, hw, hdone⟩ : ∃ w, (prepacking twoExperts 7 ++ .stop ::
      prepacking twoExperts 9).foldlM step empty = some w ∧ w.completed = true :=
    (Option.any_eq_true _ _).1 (by decide +kernel)
  rw [List.foldlM_append] at hw
  obtain ⟨u, hu, hw⟩ := Option.bind_eq_some_iff.1 hw
  rw [prepacking, List.foldlM_cons] at hu hw
  obtain ⟨u₀, hu₀, hu⟩ := Option.bind_eq_some_iff.1 hu
  have hbefore : GuardedRun step Clean empty (prepacking twoExperts 7) u :=
    .cons ⟨⟨Nat.succ_ne_zero 0, Nat.succ_ne_zero 1⟩, fun _ _ hf => (by cases hf),
      fun _ _ hm => (by cases hm)⟩ hu₀ (GuardedRun.of_foldlM hu (hwrites 7))
  obtain ⟨r, hr, hsrc⟩ := succeeding_src (congrArg World.run (Option.some.inj hu₀)).symm hu
  have hsrc : r.src = twoExperts := hsrc
  obtain ⟨v, hv, hw⟩ := Option.bind_eq_some_iff.1 hw
  have hclean : Clean v (.start r.src true) := clean_restart hbefore hr
    (by rw [hsrc]; exact Nat.succ_ne_zero 0) (by rw [hsrc]; exact Nat.succ_ne_zero 1) hv
  rw [hsrc] at hclean
  have hafter : GuardedRun step Clean u (.stop :: prepacking twoExperts 9) w := by
    rw [List.foldlM_cons] at hw
    obtain ⟨v', hv', hw⟩ := Option.bind_eq_some_iff.1 hw
    exact .cons trivial hv (.cons hclean hv' (GuardedRun.of_foldlM hw (hwrites 9)))
  have hrun := hbefore.append hafter
  exact ⟨w, hrun, hdone, prepacked_matches_manifest hrun⟩

/-- The directory holds another first byte than the model of the run packs. -/
def World.stale (w : World) : Bool :=
  w.run.any fun r => decide (0 < r.src.nRoutedExperts) &&
    ((w.dir.files 0).any fun f => f.head? == some 0) &&
      match r.src.packedFile 0 with
      | .ok f => f.head? == some 1
      | .error _ => false

/-- **The files of another model of the same size stay under a new manifest.**  The second run
skips the only file, as its size is right, and completes without error. -/
theorem same_size_files_kept : ∃ w, Lib.Run World.step World.empty
        (prepacking (byteSource 0) 8 ++ prepacking (byteSource 1) 4) w ∧
      w.completed = true ∧ ¬ Consistent w := by
  obtain ⟨w, hw, hboth⟩ :
      ∃ w, (prepacking (byteSource 0) 8 ++ prepacking (byteSource 1) 4).foldlM step
          empty = some w ∧ (w.completed && w.stale) = true :=
    (Option.any_eq_true _ _).1 (by decide +kernel)
  obtain ⟨hdone, hstale⟩ := Bool.and_eq_true_iff.1 hboth
  refine ⟨w, Lib.Run.of_foldlM hw, hdone, fun h => ?_⟩
  obtain ⟨r, hr, hfacts⟩ := (Option.any_eq_true _ _).1 hstale
  simp only [Bool.and_eq_true, decide_eq_true_eq] at hfacts
  obtain ⟨⟨hn, hfile⟩, hpacked⟩ := hfacts
  have hreturned : r.phase = .done none := by
    rw [completed, hr, Option.any_some] at hdone
    split at hdone
    · next hphase => exact hphase
    · cases hdone
  obtain ⟨f, hf, hpf⟩ := (h.completed r hr hreturned).2.1 0 hn
  rw [hf, Option.any_some, beq_iff_eq] at hfile
  rw [hpf] at hpacked
  have hpacked : f.head? = some 1 := beq_iff_eq.1 hpacked
  rw [hfile] at hpacked
  exact absurd hpacked (by decide)

end LayerStorm.Weights
