import ModulePack.Proofs.Build.Artifacts
import ModulePack.Proofs.Build.Manifests
import ModulePack.Proofs.Manifest.Synthesis

/-!
# The fields of an output manifest

`Synthesized` says of each field of an output manifest where it comes from: a value of the package
counts unless it is one of the few for which a condition does not hold (`Json.Falsy`), and the name
is taken over even then. All other fields of the package are without effect
(`Manifest.Alike.synthesize_eq`). In a build the dependencies of the package are seen from its
output, if they are an object (`fields_of_manifest`).
-/

namespace ModulePack

open Json Disk ModulePack.Action

/-- The values for which a condition in a script does not hold. Zero has two forms and a sign. -/
inductive Json.Falsy : Json → Prop
  | null : Falsy .null
  | false : Falsy (.bool false)
  | zero : Falsy (.number (.natural 0))
  | realZero (minus : Bool) (exponent : Int) : Falsy (.number (.real minus ⟨0, exponent⟩))
  | empty : Falsy (.string [])

theorem Json.falsy_iff {value : Json} : value.Falsy ↔ value.isTruthy = false := by
  constructor
  · rintro (_ | _ | _ | _ | _) <;> rfl
  · intro h
    match value, h with
    | .null, _ => exact .null
    | .bool false, _ => exact .false
    | .number (.natural 0), _ => exact .zero
    | .number (.real minus ⟨0, exponent⟩), _ => exact .realZero minus exponent
    | .string [], _ => exact .empty

theorem Json.not_falsy_object (fields : Fields) : ¬Falsy (.object fields) := nofun

namespace Manifest

variable {m m' : Manifest} {name key : Text} {dependencies : Option Fields} {value : Json}

/-- The package has the value under the key, and it counts. -/
def Has (m : Manifest) (key : Text) (value : Json) : Prop := m.get? key = some value ∧ ¬value.Falsy

theorem truthy?_eq_some_iff : m.truthy? key = some value ↔ m.Has key value := by
  rw [truthy?, Option.filter_eq_some_iff, Has, falsy_iff, Bool.not_eq_false]

/-- The fields that are taken over if their values count. -/
def copiedKeys : List Text :=
  [versionKey, "description".toList, "author".toList, "license".toList, "repository".toList]

/-- The output manifest has some of the fields that it may have, in order and each of them once. -/
structure Synthesized (m : Manifest) (name : Text) (dependencies : Option Fields)
    (fields : Fields) : Prop where
  sublist : fields.keys.Sublist keys
  nodup : fields.keys.Nodup
  main : fields.get? mainKey = some (.string entryModule)
  name_given : name ≠ [] → fields.get? nameKey = some (.string name)
  /-- Also a name that is null or empty, and none where there is none. -/
  name_kept : name = [] → fields.get? nameKey = m.get? nameKey
  copied : ∀ key ∈ copiedKeys, ∀ value, fields.get? key = some value ↔ m.Has key value
  /-- Given dependencies take the place of the package's, if it has any that count. -/
  dependencies : ∀ value, fields.get? dependenciesKey = some value ↔
    ∃ own, m.Has dependenciesKey own ∧ value = (dependencies.map .object).getD own

theorem synthesized (m : Manifest) (name : Text) (dependencies : Option Fields) :
    Synthesized m name dependencies (m.synthesize name dependencies) where
  sublist := keys_synthesize m name dependencies ▸ List.filter_sublist
  nodup := nodup_keys_synthesize m name dependencies
  main := by rw [get?_synthesize (by decide), field?_main]
  name_given h := by rw [get?_synthesize (by decide), field?_name, if_neg h]
  name_kept h := by rw [get?_synthesize (by decide), field?_name, if_pos h]
  copied key hkey value := by
    have hmem : ∀ key ∈ copiedKeys, key ∈ keys ∧ key ∉ [nameKey, mainKey, dependenciesKey] := by
      decide
    rw [get?_synthesize (hmem key hkey).1, field?_of_copied _ _ _ (hmem key hkey).2,
      truthy?_eq_some_iff]
  dependencies value := by
    rw [get?_synthesize (by decide), field?_dependencies, Option.map_eq_some_iff]
    exact exists_congr fun own => and_congr truthy?_eq_some_iff eq_comm

theorem Synthesized.unique {fields fields' : Fields} (h : Synthesized m name dependencies fields)
    (h' : Synthesized m name dependencies fields') : fields = fields' := by
  rw [eq_filterMap_get? (by decide) h.sublist, eq_filterMap_get? (by decide) h'.sublist]
  refine List.filterMap_congr fun key hkey => congrArg (Option.map _) ?_
  have hcase : key = mainKey ∨ key = nameKey ∨ key = dependenciesKey ∨ key ∈ copiedKeys := by
    revert key
    decide
  rcases hcase with rfl | rfl | rfl | hcopied
  · rw [h.main, h'.main]
  · by_cases hname : name = []
    · rw [h.name_kept hname, h'.name_kept hname]
    · rw [h.name_given hname, h'.name_given hname]
  · exact Option.ext fun value => by rw [h.dependencies, h'.dependencies]
  · exact Option.ext fun value => by rw [h.copied key hcopied, h'.copied key hcopied]

theorem synthesized_iff {fields : Fields} :
    Synthesized m name dependencies fields ↔ fields = m.synthesize name dependencies :=
  ⟨fun h => h.unique (synthesized ..), fun h => h ▸ synthesized ..⟩

/-- The packages have the same values where an output manifest takes values from. -/
structure Alike (name : Text) (m m' : Manifest) : Prop where
  counting : ∀ key ∈ dependenciesKey :: copiedKeys, ∀ value, m.Has key value ↔ m'.Has key value
  name : name = [] → m.get? nameKey = m'.get? nameKey

theorem Alike.synthesized {fields : Fields} (h : Alike name m m')
    (hm : Synthesized m name dependencies fields) : Synthesized m' name dependencies fields where
  sublist := hm.sublist
  nodup := hm.nodup
  main := hm.main
  name_given := hm.name_given
  name_kept hname := (hm.name_kept hname).trans (h.name hname)
  copied key hkey value :=
    (hm.copied key hkey value).trans (h.counting key (List.mem_cons_of_mem _ hkey) value)
  dependencies value := (hm.dependencies value).trans <| exists_congr fun own =>
    and_congr_left' (h.counting _ (List.mem_cons_self ..) own)

theorem Alike.synthesize_eq (h : Alike name m m') (dependencies : Option Fields) :
    m.synthesize name dependencies = m'.synthesize name dependencies :=
  synthesized_iff.1 (h.synthesized (Manifest.synthesized ..))

theorem dependencies?_eq_some_iff {own : Fields} :
    m.dependencies? = some own ↔ m.Has dependenciesKey (.object own) := by
  rw [dependencies?, Has]
  constructor
  · intro h
    obtain ⟨value, hget, hfields⟩ := Option.bind_eq_some_iff.1 h
    cases value with
    | object fields =>
      obtain rfl : fields = own := Option.some.inj hfields
      exact ⟨hget, not_falsy_object fields⟩
    | _ => cases hfields
  · rintro ⟨hget, -⟩
    rw [hget]
    rfl

/-- What a build gives as dependencies of the package, as they are seen from its output. -/
def rebased? (m : Manifest) (s : Settings) : Option Fields :=
  m.dependencies?.map (Dependencies.rebaseAll s.packagePath s.outputPath)

theorem Alike.rebased?_eq (h : Alike name m m') (s : Settings) : m.rebased? s = m'.rebased? s := by
  refine congrArg (Option.map _) (Option.ext fun own => ?_)
  rw [dependencies?_eq_some_iff, dependencies?_eq_some_iff, h.counting _ (List.mem_cons_self ..)]

/-- The fields that a build gives the output's manifest. -/
structure Built (s : Settings) (m : Manifest) (fields : Fields) : Prop where
  synthesized : Synthesized m s.name (m.rebased? s) fields
  rebased : ∀ own, m.get? dependenciesKey = some (.object own) →
    fields.get? dependenciesKey =
      some (.object (Dependencies.rebaseAll s.packagePath s.outputPath own))
  unchanged : ∀ value, m.Has dependenciesKey value → (∀ own, value ≠ .object own) →
    fields.get? dependenciesKey = some value
  absent : (∀ value, ¬m.Has dependenciesKey value) → fields.get? dependenciesKey = none

theorem built (s : Settings) (m : Manifest) :
    Built s m (m.synthesize s.name (m.rebased? s)) := by
  have h := synthesized m s.name (m.rebased? s)
  refine ⟨h, fun own hget => ?_, fun value hhas hshape => ?_, fun hnone => ?_⟩
  · have hhas : m.Has dependenciesKey (.object own) := ⟨hget, not_falsy_object own⟩
    refine (h.dependencies _).2 ⟨_, hhas, ?_⟩
    rw [rebased?, dependencies?_eq_some_iff.2 hhas]
    rfl
  · have hno : m.dependencies? = none := Option.eq_none_iff_forall_ne_some.2 fun own hown =>
      hshape own (Option.some.inj (hhas.1.symm.trans (dependencies?_eq_some_iff.1 hown).1))
    refine (h.dependencies _).2 ⟨value, hhas, ?_⟩
    rw [rebased?, hno]
    rfl
  · refine Option.eq_none_iff_forall_ne_some.2 fun value hvalue => ?_
    obtain ⟨own, hown, -⟩ := (h.dependencies value).1 hvalue
    exact hnone own hown

end Manifest

variable {s : Settings} {d : Disk} {p q : Progress}

/-- When the manifest of the output has been written, it is the one of a plan whose manifest was read
before the entry was generated. -/
theorem package_of_succeeds (h : Succeeds s Step.copyReadme.before (start s d) q) :
    ∃ plan : Plan, ∃ entry, Succeeds s Step.generateEntry.before (start s d) entry ∧
      ManifestOn s entry.disk plan.manifest ∧
      q.disk.readText (Path.append s.outputPath Manifest.fileName) = .ok (plan.package s).2 := by
  change Succeeds s [.clean, .prepare, .transpile, .generateEntry, .generateManifest] _ _ at h
  simp only [succeeds_cons_iff, succeeds_nil_iff] at h
  obtain ⟨p₁, hclean, p₂, hprepare, p₃, htranspile, p₄, hentry, p₅, hmanifest, rfl⟩ := h
  have hbefore : Succeeds s Step.generateEntry.before (start s d) p₃ :=
    .cons hclean (.cons hprepare (.cons htranspile .nil))
  obtain ⟨h₁, -⟩ := spec_clean.of_ok ⟨rfl, rfl⟩ hclean
  obtain ⟨h₂, -⟩ := spec_prepare.of_ok h₁ hprepare
  obtain ⟨sources, h₃, -⟩ := since_transpile.of_ok h₂ htranspile
  obtain ⟨manifest, h₄, hread⟩ := since_generateEntry.of_ok ⟨rfl, h₃.records⟩ hentry
  obtain ⟨-, htext⟩ :=
    (since_generateManifest ⟨sources, manifest⟩).of_ok ⟨rfl, h₄.records⟩ hmanifest
  exact ⟨⟨sources, manifest⟩, p₃, hbefore, hread, htext⟩

/-- The output's manifest is made of what was read as the package's. -/
def ManifestMade (s : Settings) (source text : Text) : Prop :=
  ∃ m fields, Manifest.parse (Path.append s.packagePath Manifest.fileName) source = .ok m ∧
    text = Manifest.text fields ∧ Manifest.Built s m fields

theorem Plan.manifestMade {plan : Plan} {source : Text}
    (h : Manifest.parse (Path.append s.packagePath Manifest.fileName) source = .ok plan.manifest) :
    ManifestMade s source (plan.package s).2 :=
  ⟨plan.manifest, _, h, rfl, Manifest.built s plan.manifest⟩

/-- The output manifest is the one and only that is `Synthesized` from the package, and packages
that are alike have the same. A build that has written it, whether it succeeds or not, has made it
of the package's manifest as it was before the entry was generated, and it stays so if the build
succeeds and the path of the output is not empty. -/
theorem fields_of_manifest :
    (∀ m name dependencies fields, Manifest.Synthesized m name dependencies fields ↔
      fields = m.synthesize name dependencies) ∧
    (∀ (s : Settings) (m m' : Manifest), Manifest.Alike s.name m m' →
      (∀ dependencies, m.synthesize s.name dependencies = m'.synthesize s.name dependencies) ∧
        m.rebased? s = m'.rebased? s) ∧
    (∀ (s : Settings) (d : Disk) (q : Progress), d.WellFormed →
      Succeeds s Step.copyReadme.before (start s d) q → ∃ entry source text,
        Succeeds s Step.generateEntry.before (start s d) entry ∧
        entry.disk.readText (Path.append s.packagePath Manifest.fileName) = .ok source ∧
        q.disk.readText (Path.append s.outputPath Manifest.fileName) = .ok text ∧
        ManifestMade s source text) ∧
    ∀ (b : Builder) (d : Disk) (report : Report), b.settings.outputPath ≠ [] → d.WellFormed →
      (b.build d).result = .ok report → ∃ out sources source text,
        SourcesRead b.settings (prepared b.settings d) out sources ∧
        ((prepared b.settings d).putFiles out (sources.map script)).readText
          (Path.append b.settings.packagePath Manifest.fileName) = .ok source ∧
        (b.build d).disk.readText (Path.append b.settings.outputPath Manifest.fileName) = .ok text ∧
        ManifestMade b.settings source text := by
  refine ⟨fun _ _ _ _ => Manifest.synthesized_iff,
    fun s m m' h => ⟨h.synthesize_eq, h.rebased?_eq s⟩, fun s d q _ h => ?_,
    fun b d report hs hd hok => ?_⟩
  · obtain ⟨plan, entry, hentry, ⟨source, hread, hparse⟩, htext⟩ := package_of_succeeds h
    exact ⟨entry, source, (plan.package s).2, hentry, hread, htext, Plan.manifestMade hparse⟩
  · obtain ⟨-, m, out, plan, C, readme, license, q, hF, h, -, hdisk⟩ := course_of_build hs hd hok
    obtain ⟨source, hread, hparse⟩ := h.manifest
    rw [← hdisk]
    refine ⟨out, plan.sources, source, (plan.package b.settings).2, h.read, hread, ?_,
      Plan.manifestMade hparse⟩
    exact readText_of_find ((h.grown hF).find (h.get?_text hF plan.last?_package) (by simp))

/-- A manifest in which some values do not count and some fields are not taken over. -/
def sparseManifest : Manifest :=
  ⟨[], [("private".toList, .bool true), ("author".toList, .number (.real true .zero)),
    ("dependencies".toList, .array []), ("version".toList, .bool false),
    ("name".toList, .null)]⟩

/-- What counts of it, in another order. -/
def barestManifest : Manifest := ⟨[], [("name".toList, .null), ("dependencies".toList, .array [])]⟩

/-- The package at the root has that manifest and no sources. -/
def sparsePackage : Disk :=
  ⟨[(["package.json".toList], .file (Bytes.ofText (Json.pretty (.object sparseManifest.fields)))),
    (["src".toList], .directory)], by decide⟩

theorem fields_of_manifest_sparse :
    Manifest.Alike [] sparseManifest barestManifest ∧
    sparseManifest.synthesize [] none = barestManifest.synthesize [] none ∧
    sparsePackage.WellFormed ∧ ∃ report source text,
      (rootBuilder.build sparsePackage).result = .ok report ∧
      (rootBuilder.build sparsePackage).disk.readText "/lib/package.json".toList = .ok text ∧
      ManifestMade rootBuilder.settings source text ∧
      text = Manifest.text [("name".toList, .null), ("main".toList, .string Manifest.entryModule),
        ("dependencies".toList, .array [])] := by
  have halike : Manifest.Alike [] sparseManifest barestManifest := by
    have hnone : ∀ key ∈ Manifest.copiedKeys, (sparseManifest.truthy? key).isNone = true ∧
        (barestManifest.truthy? key).isNone = true := by decide +kernel
    refine ⟨fun key hkey value => ?_, fun _ => rfl⟩
    rw [← Manifest.truthy?_eq_some_iff, ← Manifest.truthy?_eq_some_iff]
    rcases List.mem_cons.1 hkey with rfl | hkey
    · rfl
    · rw [Option.isNone_iff_eq_none.1 (hnone key hkey).1,
        Option.isNone_iff_eq_none.1 (hnone key hkey).2]
  have hwf : sparsePackage.WellFormed := by decide +kernel
  have hpath : Path.append rootBuilder.settings.outputPath Manifest.fileName =
      "/lib/package.json".toList := by decide
  have hwritten : (rootBuilder.build sparsePackage).result.toOption.map (fun _ =>
      (rootBuilder.build sparsePackage).disk.readText "/lib/package.json".toList) =
        some (.ok (Manifest.text [("name".toList, .null),
          ("main".toList, .string Manifest.entryModule),
          ("dependencies".toList, .array [])])) := by decide +kernel
  obtain ⟨report, hok, hread⟩ := exists_report hwritten
  obtain ⟨-, hsame, -, hbuild⟩ := fields_of_manifest
  obtain ⟨out, sources, source, text, -, -, htext, hmade⟩ := 
    hbuild rootBuilder _ report rootBuilder_outputPath_ne_nil hwf hok
  rw [hpath] at htext
  refine ⟨halike, (hsame rootBuilder.settings _ _ halike).1 none, hwf, report, source, text, hok,
    htext, hmade, ?_⟩
  exact Except.ok.inj (htext.symm.trans hread)

end ModulePack
