import LayerStorm.Server.Glm47Stream
import LayerStorm.Server.DeepSeekV4Chunking

/-!
# Chunking of the tool-call streams

What the reader of a tool-call stream puts together should not depend on where the text is cut
into deltas.

## Main results

* `readsAlike_iff` — the GLM stream reads every text alike, the DSML stream those with plain keys.
-/

namespace LayerStorm.Server

/-- However a text is cut into deltas, the stream's reader puts the same together, and the arguments
of every opened call are a JSON object. -/
def ReadsAlike (stream : List Text → List Emit) (t : Text) : Prop :=
  (∀ ds ds' : List Text, ds.flatten = t → ds'.flatten = t →
    contentOf (stream ds) = contentOf (stream ds') ∧ openedOf (stream ds) = openedOf (stream ds') ∧
      ∀ i, argsOf i (stream ds) = argsOf i (stream ds')) ∧
  ∀ ds : List Text, ds.flatten = t → ∀ c ∈ openedOf (stream ds), IsObject (argsOf c.1 (stream ds))

theorem view_eq_iff {es es' : List Emit} : view es = view es' ↔
    contentOf es = contentOf es' ∧ openedOf es = openedOf es' ∧
      ∀ i, argsOf i es = argsOf i es' := by
  simp only [view, Prod.mk.injEq, funext_iff]

/-- **Where the text is cut**: the GLM stream reads every text alike, and the DSML stream exactly
those whose reading meets no key with an angle. -/
theorem readsAlike_iff (py : PyLib) (tools : List Value) (t : Text) :
    ReadsAlike (Glm47.stream py tools) t ∧
      (ReadsAlike (Dsml.stream py) t ↔ Dsml.PlainKeys .content t) := by
  refine ⟨⟨fun ds ds' h h' => ?_, fun ds _ => Glm47.isObject_stream ds⟩, fun h => ?_, fun h => ?_⟩
  · exact view_eq_iff.1 (Glm47.view_stream_congr (h.trans h'.symm))
  · by_contra hkeys
    obtain ⟨ds, ds', hds, hds', hne⟩ := Dsml.exists_view_stream_ne py hkeys
    exact hne (view_eq_iff.2 (h.1 ds ds' hds hds'))
  · refine ⟨fun ds ds' hds hds' => ?_, fun ds _ => Dsml.isObject_stream ds⟩
    exact view_eq_iff.1 (Dsml.view_stream_congr (hds.trans hds'.symm) (hds ▸ h))

/-- A library that reads no text. -/
def noReadings : PyLib where
  lower := id
  int _ := none
  float _ := none
  integral _ := none
  loads _ := none

/-- A call whose key holds an angle, cut behind the angle and behind the rest. -/
def angleKey : Text × Text :=
  ("<｜DSML｜tool_calls><｜DSML｜invoke name=\"f\"><｜DSML｜parameter name=\"a>".toList,
   "b\" string=\"true\">v</｜DSML｜parameter></｜DSML｜invoke></｜DSML｜tool_calls>".toList)

/-- Cut behind the angle, the key of the call is another one. -/
theorem not_readsAlike_angleKey :
    ¬ ReadsAlike (Dsml.stream noReadings) (angleKey.1 ++ angleKey.2) := by
  intro h
  have hargs := (h.1 [angleKey.1 ++ angleKey.2] [angleKey.1, angleKey.2] (by simp) (by simp)).2.2 0
  revert hargs
  decide +kernel

end LayerStorm.Server
