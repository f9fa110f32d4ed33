import Mathlib
import SchemaGraph.Proofs.Progress
import SchemaGraph.Proofs.SettingsText

/-!
# Settings that load and settings that compile

The names of the builtin types are checked twice. Settings are refused when they are loaded if the
blob type is one of the primitive types, and when a compile begins if any name occurs twice. The
two checks differ in primitive types of the same name, which are loaded: no schema compiles under
such settings, not even the empty one, and every compile reports the first name that occurs again.
Under all other settings that load a schema compiles exactly if it has no fault of its own.
-/

namespace SchemaGraph

namespace Registry

/-- To register two lists is to register the first and then the second. -/
theorem registerAll_append (registry : Registry) (front behind : List Declaration) :
    registry.registerAll (front ++ behind) =
      (registry.registerAll front).bind (·.registerAll behind) := by
  induction front generalizing registry with
  | nil => rfl
  | cons declaration rest ih =>
    rw [List.cons_append, registerAll, registerAll]
    cases registry.register declaration with
    | ok registered => exact ih registered.2
    | error error => rfl

/-- The builtin types are refused at the first primitive type whose name occurs before. -/
theorem withBuiltins_of_repeated {front behind : List String} {name : String} (blob : String)
    (distinct : front.Nodup) (repeated : name ∈ front) :
    withBuiltins (front ++ name :: behind) blob = .error (.duplicateType name) := by
  let registered := empty.append (front.map Declaration.primitive)
  have named : registered.names = front := by
    simp [registered, empty, names, append, Function.comp_def, Declaration.name]
  have inFront : empty.registerAll (front.map Declaration.primitive) = .ok registered := by
    refine (registerAll_eq_ok_iff (show empty.names.Nodup from List.nodup_nil)
      fun declaration listed => ?_).mpr ⟨?_, rfl⟩
    · obtain ⟨_, _, rfl⟩ := List.mem_map.mp listed
      rfl
    · rw [← names_append, named]
      exact distinct
  have refused : registered.register (.primitive name) = .error (.duplicateType name) := by
    rw [register, find?_eq, named, Declaration.name, if_pos repeated]
    rfl
  rw [withBuiltins, List.map_append, List.append_assoc, registerAll_append, inFront]
  simp only [Except.bind, List.map_cons, List.cons_append, registerAll, refused]

end Registry

open Registry

/-- If names repeat, there is a first name that occurs before. -/
theorem exists_first_repeated {names : List String} (repeated : ¬ names.Nodup) :
    ∃ front name behind, names = front ++ name :: behind ∧ front.Nodup ∧ name ∈ front := by
  induction names using List.reverseRecOn with
  | nil => exact absurd List.nodup_nil repeated
  | append_singleton front name ih =>
    by_cases distinct : front.Nodup
    · have listed : name ∈ front := by
        rw [← List.concat_eq_append, List.nodup_concat] at repeated
        by_contra fresh
        exact repeated ⟨fresh, distinct⟩
      exact ⟨front, name, [], rfl, distinct, listed⟩
    · obtain ⟨before, first, behind, rfl, rest⟩ := ih distinct
      exact ⟨before, first, behind ++ [name], by simp, rest⟩

namespace Settings

variable {settings : Settings}

/-- The builtin names are distinct if the blob is no primitive and no primitive is given twice. -/
theorem nodup_builtinNames_iff :
    settings.builtinNames.Nodup ↔
      settings.blob ∉ settings.primitives ∧ settings.primitives.Nodup := by
  rw [builtinNames, ← List.concat_eq_append, List.nodup_concat]

/-- Settings that are loaded do not have the blob type among the primitive types. -/
theorem blob_notMem_of_ofText {text : String} (loaded : ofText text = .ok settings) :
    settings.blob ∉ settings.primitives := by
  rw [ofText] at loaded
  split at loaded
  · simp at loaded
  · split at loaded
    · simp at loaded
    · rename_i absent
      rwa [← Except.ok.inj loaded, ← List.contains_iff_mem]

/-- Settings are loaded from some text exactly if the blob type is not a primitive type. -/
theorem exists_ofText_iff : (∃ text, ofText text = .ok settings) ↔
    settings.blob ∉ settings.primitives := by
  refine ⟨fun ⟨_, loaded⟩ => blob_notMem_of_ofText loaded, fun absent => ⟨settings.text, ?_⟩⟩
  simp [ofText, settings.tableOfText?_text, settings.ofTable?_entries, absent]

end Settings

/-- Nothing in the schema is at fault against the builtin types: every site fits the shells that the
first pass leaves behind, and no shell is met twice. -/
def FaultlessUnder (settings : Settings) (schema : Schema) : Prop :=
  (∀ site ∈ Site.inside [] schema, site.Fits (shellsOf settings schema) settings.camelCaseKeys) ∧
    (Site.ids (shellsOf settings schema) (Site.inside [] schema)).Nodup

/-- A compile succeeds exactly if the builtin names are distinct and no site is at fault. -/
theorem exists_result_iff {settings : Settings} {moment : Instant} {schema : Schema} :
    (∃ registry, (compile settings moment schema).result = .ok registry) ↔
      settings.builtinNames.Nodup ∧ FaultlessUnder settings schema := by
  rw [FaultlessUnder, ← Contents.exists_fill_iff]
  simp only [result_eq_ok_iff, shellsOf]
  constructor
  · rintro ⟨_, distinct, contents, filled, _⟩
    exact ⟨distinct, contents, filled⟩
  · rintro ⟨distinct, contents, filled⟩
    exact ⟨_, distinct, contents, filled, rfl⟩

/-- Which settings load and which ones compile. Settings load from some text exactly if the blob
type is not a primitive type. The builtin types of settings that are loaded are registered exactly
if the primitive types are distinct as well; then the empty schema compiles to them, and any schema
compiles exactly if it has no fault of its own. If they are not distinct, the first one whose name
occurs before is what every compile fails with. -/
theorem loaded_settings_compile (settings : Settings) :
    ((∃ text, Settings.ofText text = .ok settings) ↔ settings.blob ∉ settings.primitives) ∧
    ∀ text, Settings.ofText text = .ok settings →
      ((∃ registry, withBuiltins settings.primitives settings.blob = .ok registry) ↔
        settings.primitives.Nodup) ∧
      (settings.primitives.Nodup → ∀ moment,
        (compile settings moment []).result = .ok ⟨settings.builtins⟩ ∧
        ∀ schema, (∃ registry, (compile settings moment schema).result = .ok registry) ↔
          FaultlessUnder settings schema) ∧
      (¬ settings.primitives.Nodup → ∃ front name behind,
        settings.primitives = front ++ name :: behind ∧ front.Nodup ∧ name ∈ front ∧
        withBuiltins settings.primitives settings.blob = .error (.duplicateType name) ∧
        ∀ moment schema, compile settings moment schema =
          .failed (.duplicateType name) none (Report.start moment) []) := by
  refine ⟨Settings.exists_ofText_iff, fun text loaded => ?_⟩
  have absent := Settings.blob_notMem_of_ofText loaded
  have builtins : settings.builtinNames.Nodup ↔ settings.primitives.Nodup :=
    Settings.nodup_builtinNames_iff.trans (and_iff_right absent)
  refine ⟨?_, fun distinct moment => ⟨?_, fun schema => ?_⟩, fun repeated => ?_⟩
  · simp only [withBuiltins_eq_ok_iff, exists_and_left, exists_eq, and_true, builtins]
  · exact result_eq_ok_iff.mpr ⟨builtins.mpr distinct, _, rfl, rfl⟩
  · rw [exists_result_iff, builtins, and_iff_right distinct]
  · obtain ⟨front, name, behind, split, inFront, listed⟩ := exists_first_repeated repeated
    have refused : withBuiltins settings.primitives settings.blob = .error (.duplicateType name) :=
      split ▸ withBuiltins_of_repeated settings.blob inFront listed
    refine ⟨front, name, behind, split, inFront, listed, refused, fun moment schema => ?_⟩
    rw [compile, refused]
    rfl

/-- Settings with builtin types of their own. -/
def customText : String :=
  "[types]\nprimitives = [\"int\", \"text\"]\nblob = \"bytes\"\n"

/-- Settings with a primitive type that is given twice. -/
def repeatedText : String :=
  "[types]\nprimitives = [\"int\", \"int\"]\n"

/-- Settings with types of their own can be loaded. -/
theorem ofText_customText :
    Settings.ofText customText = .ok ⟨false, false, ["int", "text"], "bytes"⟩ := by
  cbv

/-- Settings that repeat a primitive type can be loaded. -/
theorem ofText_repeatedText :
    Settings.ofText repeatedText = .ok ⟨false, false, ["int", "int"], "blob"⟩ := by
  cbv

/-- The former compile the empty schema; the latter fail on it, although they were loaded. -/
theorem loaded_settings_compile_customText :
    Settings.ofText customText = .ok ⟨false, false, ["int", "text"], "bytes"⟩ ∧
    (compile ⟨false, false, ["int", "text"], "bytes"⟩ Instant.epoch []).result =
      .ok ⟨[.primitive "int", .primitive "text", .blob "bytes"]⟩ ∧
    Settings.ofText repeatedText = .ok ⟨false, false, ["int", "int"], "blob"⟩ ∧
    ∃ name, (compile ⟨false, false, ["int", "int"], "blob"⟩ Instant.epoch []).result =
      .error (.duplicateType name) := by
  obtain ⟨_, custom⟩ := loaded_settings_compile ⟨false, false, ["int", "text"], "bytes"⟩
  obtain ⟨_, repeats⟩ := loaded_settings_compile ⟨false, false, ["int", "int"], "blob"⟩
  obtain ⟨_, name, _, _, _, _, _, fails⟩ := (repeats _ ofText_repeatedText).2.2 (by decide)
  exact ⟨ofText_customText, ((custom _ ofText_customText).2.1 (by decide) Instant.epoch).1,
    ofText_repeatedText, name, by rw [fails, Compilation.failed]⟩

/-- Not all settings that load can be compiled with: with a primitive type that is given twice the
builtin types are refused, and so is the empty schema. -/
theorem exists_loaded_not_compiled :
    ∃ settings, Settings.ofText repeatedText = .ok settings ∧
      withBuiltins settings.primitives settings.blob = .error (.duplicateType "int") ∧
      ∀ moment, (compile settings moment []).result = .error (.duplicateType "int") := by
  have refused : withBuiltins ["int", "int"] "blob" = .error (.duplicateType "int") :=
    withBuiltins_of_repeated "blob" (List.nodup_singleton "int") (List.mem_singleton_self "int")
  refine ⟨_, ofText_repeatedText, refused, fun moment => ?_⟩
  rw [compile, refused]
  rfl

end SchemaGraph
