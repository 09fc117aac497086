import ModulePack.Proofs.Build.Artifacts

/-!
# What a fingerprint identifies

The names that a build reports hold no zero character, and its digests nothing but hexadecimal
digits. So a record ends where the first line end behind its first zero character is, whatever
stands in the name, and the text that a fingerprint covers can be cut into records in one way only
(`fingerprintBytes_eq_iff`). `fingerprint_identifies`: reports with the same fingerprint list the
same names and digests, or show a collision of SHA-256.
-/

namespace ModulePack

open Disk ModulePack.Action

variable {s : Settings} {d e F : Disk} {plan : Plan} {x : Text} {known : Records}
  {readme license artifacts artifacts' : List Artifact} {a a' : Artifact} {r r' : Report}

/-! ### Records -/

/-- An artifact whose record shows where its name and its digest end. -/
structure Artifact.IsRecordable (a : Artifact) : Prop where
  no_nul : '\x00' ∉ a.name
  hex : ∀ c ∈ a.digest, Bytes.IsHexDigit c

theorem Artifact.IsRecordable.no_lineEnd (h : a.IsRecordable) : '\n' ∉ a.digest :=
  fun hmem => absurd (h.hex _ hmem) (by decide)

namespace Report

/-- What a report says of its artifacts: the name and the digest of each, in order. -/
def listing (artifacts : List Artifact) : List (Text × Text) :=
  artifacts.map fun a => (a.name, a.digest)

/-- The first record of a text, and what follows it, are determined. -/
theorem recordText_append_inj (ha : a.IsRecordable) (ha' : a'.IsRecordable) {t t' : Text}
    (h : recordText a ++ t = recordText a' ++ t') :
    a.name = a'.name ∧ a.digest = a'.digest ∧ t = t' := by
  simp only [recordText, List.append_assoc, List.cons_append, List.nil_append] at h
  obtain ⟨hname, h⟩ := Text.append_cons_inj ha.no_nul ha'.no_nul h
  obtain ⟨hdigest, h⟩ := Text.append_cons_inj ha.no_lineEnd ha'.no_lineEnd h
  exact ⟨hname, hdigest, h⟩

theorem flatMap_recordText (artifacts : List Artifact) : artifacts.flatMap recordText =
    (listing artifacts).flatMap fun (name, digest) => name ++ '\x00' :: digest ++ ['\n'] := by
  rw [listing, List.flatMap_map]
  rfl

theorem listing_eq_of_records (h : ∀ a ∈ artifacts, a.IsRecordable)
    (h' : ∀ a ∈ artifacts', a.IsRecordable)
    (heq : artifacts.flatMap recordText = artifacts'.flatMap recordText) :
    listing artifacts = listing artifacts' := by
  rw [flatMap_recordText, flatMap_recordText] at heq
  refine Text.flatMap_inj (fun (name, digest) => by simp) (fun x hx y hy t t' hxy => ?_) heq
  obtain ⟨a, ha, rfl⟩ := List.mem_map.1 hx
  obtain ⟨a', ha', rfl⟩ := List.mem_map.1 hy
  obtain ⟨hname, hdigest, hrest⟩ := recordText_append_inj (h a ha) (h' a' ha') hxy
  exact ⟨by rw [hname, hdigest], hrest⟩

theorem fingerprintBytes_eq_iff (h : ∀ a ∈ artifacts, a.IsRecordable)
    (h' : ∀ a ∈ artifacts', a.IsRecordable) :
    fingerprintBytes artifacts = fingerprintBytes artifacts' ↔
      listing artifacts = listing artifacts' := by
  constructor
  · exact fun heq => listing_eq_of_records h h' (Bytes.ofText_injective heq)
  · intro heq
    rw [fingerprintBytes, fingerprintBytes, flatMap_recordText, flatMap_recordText, heq]

end Report

/-! ### What builds report -/

theorem isRecordable_of_digest {d : Disk} {p : Path} (hname : '\x00' ∉ a.name)
    (h : d.digest p = .ok a.digest) : a.IsRecordable := by
  refine ⟨hname, fun c hc => ?_⟩
  cases hbytes : d.digestBytes p with
  | error failure =>
    rw [digest, hbytes] at h
    cases h
  | ok bytes =>
    rw [digest, hbytes] at h
    rw [← Except.ok.inj h] at hc
    exact Bytes.isHexDigit_of_mem_hex hc

theorem FileName.nul_not_mem_output (hx : '\x00' ∉ x) : '\x00' ∉ FileName.output x := by
  unfold FileName.output
  split
  · exact hx
  · simp [FileName.scriptExtension, hx]

theorem Action.CopiedOptional.isRecordable (h : CopiedOptional s x d e artifacts)
    (hx : '\x00' ∉ x) (ha : a ∈ artifacts) : a.IsRecordable := by
  cases h with
  | absent => cases ha
  | copied _ _ hdigest =>
    rw [List.mem_singleton.1 ha]
    exact isRecordable_of_digest hx hdigest

theorem Remembered.isRecordable (h : Remembered s F plan readme license known)
    (hF : F.WellFormed) (ha : a ∈ known.report.artifacts) : a.IsRecordable := by
  rw [h.report_artifacts] at ha
  rcases List.mem_append.1 ha with htext | hcopy
  · obtain ⟨file, hfile, rfl⟩ := List.mem_map.1 htext
    refine ⟨?_, fun c hc => Bytes.isHexDigit_of_mem_hex hc⟩
    rcases List.mem_append.1 hfile with hscript | hgenerated
    · obtain ⟨source, hsource, rfl⟩ := List.mem_map.1 hscript
      obtain ⟨l, -, hnames⟩ := h.sources.names
      have hname : source.1 ∈ FileName.sort (F.names l) := hnames ▸ List.mem_map_of_mem hsource
      exact FileName.nul_not_mem_output
        (isFileName_of_mem_names hF (FileName.mem_sort.1 hname)).no_nul
    · rcases List.mem_pair.1 hgenerated with rfl | rfl
      · exact isFileName_entry.no_nul
      · exact isFileName_manifest.no_nul
  · obtain ⟨d, e, -, hreadme⟩ := h.copyReadme
    obtain ⟨d', e', -, hlicense⟩ := h.copyLicense
    rcases List.mem_append.1 hcopy with hcopy | hcopy
    · exact hreadme.isRecordable isFileName_readme.no_nul hcopy
    · exact hlicense.isRecordable isFileName_license.no_nul hcopy

/-- The text that a fingerprint covers determines the names and the digests that are listed, and so
does the fingerprint but for a collision. Every artifact that a build reports is as this requires. -/
theorem fingerprint_identifies (h : ∀ a ∈ r.artifacts, a.IsRecordable)
    (h' : ∀ a ∈ r'.artifacts, a.IsRecordable) :
    (Report.fingerprintBytes r.artifacts = Report.fingerprintBytes r'.artifacts ↔
      Report.listing r.artifacts = Report.listing r'.artifacts) ∧
    (r.fingerprint = r'.fingerprint ↔
      Report.listing r.artifacts = Report.listing r'.artifacts ∨ Sha256.Collision
        (Report.fingerprintBytes r.artifacts) (Report.fingerprintBytes r'.artifacts)) ∧
    ∀ (b : Builder) (d : Disk) (report : Report), d.WellFormed →
      (b.build d).result = .ok report → ∀ a ∈ report.artifacts, a.IsRecordable := by
  have hbytes := Report.fingerprintBytes_eq_iff h h'
  refine ⟨hbytes, ?_, fun b d report hd hok a ha => ?_⟩
  · rw [Report.fingerprint, Report.fingerprint, hexDigest_eq_iff, hbytes]
  · obtain ⟨plan, readme, license, known, hknown, rfl⟩ := remembered_of_build hok
    exact hknown.isRecordable (made_prepared hd).wf ha

/-- One artifact whose name looks like the records of two. -/
def disguised : Report := { Report.empty with
  artifacts := [⟨"a.js\n0c\nb.js".toList, ['/'], 0, "0f".toList⟩] }

def twoRecords : Report := { Report.empty with
  artifacts := [⟨"a.js".toList, ['/'], 0, "0c".toList⟩, ⟨"b.js".toList, ['/'], 0, "0f".toList⟩] }

theorem fingerprint_identifies_disguised :
    (∀ a ∈ disguised.artifacts, a.IsRecordable) ∧ (∀ a ∈ twoRecords.artifacts, a.IsRecordable) ∧
    Report.fingerprintBytes disguised.artifacts ≠ Report.fingerprintBytes twoRecords.artifacts ∧
    ∃ report, (rootBuilder.build rootPackage).result = .ok report ∧
      ∀ a ∈ report.artifacts, a.IsRecordable := by
  have h : ∀ a ∈ disguised.artifacts, a.IsRecordable := by
    simp only [disguised, List.mem_singleton, forall_eq]
    exact ⟨by simp, by simp [Bytes.IsHexDigit]⟩
  have h' : ∀ a ∈ twoRecords.artifacts, a.IsRecordable := by
    simp only [twoRecords, List.mem_pair, forall_eq_or_imp, forall_eq]
    exact ⟨⟨by simp, by simp [Bytes.IsHexDigit]⟩, ⟨by simp, by simp [Bytes.IsHexDigit]⟩⟩
  obtain ⟨hbytes, -, hbuild⟩ := fingerprint_identifies h h'
  obtain ⟨report, hok, -⟩ := rootPackage_builds
  exact ⟨h, h', fun heq => absurd (hbytes.1 heq) (by decide), report, hok,
    hbuild _ _ _ rootPackage_wellFormed hok⟩

end ModulePack
