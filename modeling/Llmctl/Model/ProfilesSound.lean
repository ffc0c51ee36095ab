import Llmctl.Model.Profiles
import Llmctl.Related

/-!
# What the profile commands are good for

A profile is read back as it was written, and the files of the directory are a map from
aliases to profiles.
-/

namespace Llmctl.Profiles

open Fs
open Install (osString extension)

/-! ## The text of a profile -/

section
variable (numbers : Numbers)

open Codec

theorem readLicense_write (license : LicenseProfile) : readLicense (writeLicense license) = .ok license := by
  have hfields : De.structFields "LicenseProfile" licenseFields (writeLicense license) =
      .ok [("identifier", optionString.write license.identifier), ("source_url", optionString.write license.sourceUrl),
        ("accepted", bool.write license.accepted)] :=
    structFields_write _ [_, _, _] (by decide)
      (.cons (field_check _ _ _ _) (.cons (field_check _ _ _ _) (.cons (field_check _ _ _ _) .nil)))
  unfold readLicense
  rw [hfields]
  simp [De.required, De.optional, Value.lastField, read_write, bind, Except.bind]

theorem readLanguage_write (language : LanguageCapability) :
    readLanguage numbers (writeLanguage numbers language) = .ok language := by
  have hfields : De.structFields "LanguageCapability" (languageFields numbers) (writeLanguage numbers language) =
      .ok [("language", string.write language.language), ("capabilities", string.vec.write language.capabilities),
        ("qualified", bool.write language.qualified), ("score", (scoreCodec numbers).write language.score)] :=
    structFields_write _ [_, _, _, _] (by simp [languageFields, field, De.Field.of]) (.cons (field_check _ _ _ _)
      (.cons (field_check _ _ _ _) (.cons (field_check _ _ _ _) (.cons (field_check _ _ _ _) .nil))))
  unfold readLanguage
  rw [hfields]
  simp [De.required, De.optional, Value.lastField, read_write, bind, Except.bind]

theorem readMemory_write (memory : MemoryEstimate) : readMemory numbers (writeMemory numbers memory) = .ok memory := by
  have hfields : De.structFields "MemoryEstimate" (memoryFields numbers) (writeMemory numbers memory) =
      .ok [("ram_bytes", (u64 numbers).write memory.ramBytes), ("vram_bytes", (u64 numbers).write memory.vramBytes),
        ("kv_cache_bytes", (u64 numbers).write memory.kvCacheBytes)] :=
    structFields_write _ [_, _, _] (by simp [memoryFields, field, De.Field.of])
      (.cons (field_check _ _ _ _) (.cons (field_check _ _ _ _) (.cons (field_check _ _ _ _) .nil)))
  unfold readMemory
  rw [hfields]
  simp [De.required, Value.lastField, read_write, bind, Except.bind]

theorem readGate_write (gate : QualificationGate) : readGate (writeGate gate) = .ok gate := by
  have hfields : De.structFields "QualificationGate" gateFields (writeGate gate) =
      .ok [("name", string.write gate.name), ("command", string.vec.write gate.command), ("required", bool.write gate.required)] :=
    structFields_write _ [_, _, _] (by decide)
      (.cons (field_check _ _ _ _) (.cons (field_check _ _ _ _) (.cons (field_check _ _ _ _) .nil)))
  unfold readGate
  rw [hfields]
  simp [De.required, Value.lastField, read_write, bind, Except.bind]

theorem readArtifact_write (artifact : ArtifactProfile) (path : String) :
    readArtifact (writeArtifact artifact path) = .ok { artifact with path := osString path } := by
  have hfields : De.structFields "ArtifactProfile" artifactFields (writeArtifact artifact path) =
      .ok [("path", string.write path), ("sha256", optionString.write artifact.sha256), ("source", string.write artifact.source),
        ("source_revision", optionString.write artifact.sourceRevision)] :=
    structFields_write _ [_, _, _, _] (by decide) (.cons (field_check _ _ _ _) (.cons (field_check _ _ _ _)
      (.cons (field_check _ _ _ _) (.cons (field_check _ _ _ _) .nil))))
  unfold readArtifact
  rw [hfields]
  simp [De.required, De.optional, Value.lastField, read_write, bind, Except.bind]

theorem writeLicense_integral (license : LicenseProfile) : (writeLicense license).Integral :=
  ⟨optionString.integral _, optionString.integral _, bool.integral _, trivial⟩

def licenseCodec : Codec LicenseProfile := ⟨writeLicense, readLicense, readLicense_write, writeLicense_integral⟩

def languageCodec : Codec LanguageCapability where
  write := writeLanguage numbers
  read := readLanguage numbers
  read_write := readLanguage_write numbers
  integral _ := ⟨string.integral _, string.vec.integral _, bool.integral _, (scoreCodec numbers).integral _, trivial⟩

def memoryCodec : Codec MemoryEstimate where
  write := writeMemory numbers
  read := readMemory numbers
  read_write := readMemory_write numbers
  integral _ := ⟨(u64 numbers).integral _, (u64 numbers).integral _, (u64 numbers).integral _, trivial⟩

def gateCodec : Codec QualificationGate where
  write := writeGate
  read := readGate
  read_write := readGate_write
  integral _ := ⟨string.integral _, string.vec.integral _, bool.integral _, trivial⟩

theorem writeArtifact_integral (artifact : ArtifactProfile) (path : String) : (writeArtifact artifact path).Integral :=
  ⟨string.integral _, optionString.integral _, string.integral _, optionString.integral _, trivial⟩

theorem writeProfileValue_integral (profile : SpecialistModelProfile) (path : String) :
    (writeProfileValue numbers profile path).Integral :=
  ⟨trivial, trivial, writeArtifact_integral _ _, licenseCodec.integral _, (languageCodec numbers).vec.integral _, trivial,
    optionString.integral _, trivial, (u32 numbers).integral _, (memoryCodec numbers).integral _, trivial,
    optionString.integral _, string.vec.vec.integral _, gateCodec.vec.integral _, trivial, statusCodec.integral _,
    optionString.integral _, trivial⟩

theorem readProfileValue_write (profile : SpecialistModelProfile) (path : String) :
    readProfileValue numbers (writeProfileValue numbers profile path) =
      .ok { profile with artifact := { profile.artifact with path := osString path } } := by
  have hartifact := readArtifact_write profile.artifact path
  have hlicense := readLicense_write profile.license
  have hlanguages : De.readVec (readLanguage numbers) (.array (profile.languages.map (writeLanguage numbers))) = .ok profile.languages :=
    (languageCodec numbers).vec.read_write profile.languages
  have hmemory := readMemory_write numbers profile.memory
  have hgates : De.readVec readGate (.array (profile.gates.map writeGate)) = .ok profile.gates :=
    gateCodec.vec.read_write profile.gates
  have hfields : ∃ entries, De.structFields "SpecialistModelProfile" (profileFields numbers) (writeProfileValue numbers profile path) =
      .ok entries ∧ writeProfileValue numbers profile path = .object entries := by
    refine ⟨_, structFields_write _ [_, _, _, _, _, _, _, _, _, _, _, _, _, _, _, _, _] ?_ ?_, rfl⟩
    · simp [profileFields, field, De.Field.of]
    refine .cons (field_check _ _ _ _) (.cons (field_check _ _ _ _) (.cons (De.check_of.mpr ⟨_, hartifact⟩)
      (.cons (De.check_of.mpr ⟨_, hlicense⟩) (.cons (De.check_of.mpr ⟨_, hlanguages⟩) ?_))))
    refine .cons (field_check _ _ _ _) (.cons (field_check _ _ _ _) (.cons (field_check _ _ _ _) (.cons (field_check _ _ _ _)
      (.cons (De.check_of.mpr ⟨_, hmemory⟩) ?_))))
    refine .cons (field_check _ _ _ _) (.cons (field_check _ _ _ _) (.cons (field_check _ _ _ _)
      (.cons (De.check_of.mpr ⟨_, hgates⟩) ?_)))
    exact .cons (field_check _ _ _ _) (.cons (field_check _ _ _ _) (.cons (field_check _ _ _ _) .nil))
  obtain ⟨entries, hstruct, hvalue⟩ := hfields
  unfold readProfileValue
  rw [hstruct]
  cases hvalue
  simp [De.required, De.optional, Value.lastField, read_write, hartifact, hlicense, hlanguages, hmemory, hgates, bind, Except.bind]

theorem fromUTF8_osString (s : String) : String.fromUTF8? ⟨(osString s).toArray⟩ = some s := by
  have hvalid : s.toUTF8.IsValidUTF8 := s.isValidUTF8
  have hbytes : (⟨(osString s).toArray⟩ : ByteArray) = s.toUTF8 := by
    simp [osString]
  rw [hbytes, String.fromUTF8?, dif_pos hvalid]
  rfl

theorem osString_of_fromUTF8 {bytes : List UInt8} {s : String} (h : String.fromUTF8? ⟨bytes.toArray⟩ = some s) :
    osString s = bytes := by
  unfold String.fromUTF8? at h
  split at h
  · rw [← Option.some.inj h]
    exact List.toList_toArray
  · cases h

/-- What is written of a profile is read as this profile. -/
theorem fromSlice_toVecPretty {profile : SpecialistModelProfile} {bytes : List UInt8} (h : toVecPretty numbers profile = .ok bytes) :
    fromSlice numbers bytes = some profile := by
  unfold toVecPretty at h
  split at h
  · rename_i path hpath
    have hread := readProfileValue_write numbers profile path
    rw [osString_of_fromUTF8 hpath] at hread
    rw [← Except.ok.inj h, fromSlice, fromUTF8_osString]
    simp [Value.fromStr_pretty (writeProfileValue_integral numbers profile path).numeric, hread, Except.toOption]
  · cases h

end

/-! ## The directory -/

namespace Directory

variable (dir : Directory) (name : OsString) (bytes : List UInt8)

theorem read_eq_some_iff : dir.read name = some bytes ↔ (name, bytes) ∈ dir.files := by
  unfold read
  constructor
  · intro h
    obtain ⟨file, hfile, rfl⟩ := Option.map_eq_some_iff.mp h
    have hname : file.1 = name := by simpa using List.find?_some hfile
    exact hname ▸ List.mem_of_find?_eq_some hfile
  · intro h
    cases hfind : dir.files.find? fun file => file.1 == name with
    | none => exact absurd (List.find?_eq_none.mp hfind _ h) (by simp)
    | some file =>
      have hname : file.1 = name := by simpa using List.find?_some hfind
      rw [List.inj_on_of_nodup_map dir.nodup (List.mem_of_find?_eq_some hfind) h hname]
      rfl

theorem mem_write (file : File) : file ∈ (dir.write name bytes).files ↔ file = (name, bytes) ∨ file ∈ dir.files ∧ file.1 ≠ name :=
  Cli.mem_upsertBy_iff dir.nodup

theorem mem_remove (file : File) : file ∈ (dir.remove name).files ↔ file ∈ dir.files ∧ file.1 ≠ name := by
  simp [remove, List.mem_filter]

end Directory

theorem osString_injective : Function.Injective osString := by
  intro s t h
  have hback := fromUTF8_osString s
  rw [h, fromUTF8_osString] at hback
  exact (Option.some.inj hback).symm

theorem profileName_injective : Function.Injective profileName := by
  intro a b h
  have htext := congrArg String.toList (osString_injective h)
  rw [String.toList_append, String.toList_append] at htext
  exact String.toList_inj.mp (List.append_cancel_right htext)

theorem osString_append (s t : String) : osString (s ++ t) = osString s ++ osString t := by
  simp [osString, String.toUTF8]

/-- A name with a dot, something before it and no dot after it. -/
theorem extension_of_dot {before ext : OsString} (hbefore : before ≠ []) (hext : 46 ∉ ext) (hne : ext ≠ []) :
    extension (before ++ 46 :: ext) = some ext := by
  have hdots : before ++ 46 :: ext ≠ osString ".." := by
    intro hdots
    have hlast := congrArg List.getLast? hdots
    rw [List.getLast?_append_of_ne_nil _ (List.cons_ne_nil _ _), List.getLast?_cons_of_ne_nil hne,
      List.getLast?_eq_some_getLast hne] at hlast
    have hdot : osString ".." = [46, 46] := by decide +kernel
    rw [hdot] at hlast
    have hmem := List.getLast_mem hne
    rw [Option.some.inj hlast] at hmem
    exact hext hmem
  have hafter : ((before ++ 46 :: ext).reverse.takeWhile (fun b => decide (b ≠ 46))).reverse = ext := by
    have hrev : (before ++ 46 :: ext).reverse = ext.reverse ++ (46 :: before.reverse) := by simp
    rw [hrev, List.takeWhile_append_of_pos fun b hb => decide_eq_true (ne_of_mem_of_not_mem (List.mem_reverse.mp hb) hext)]
    simp
  have htake : (before ++ 46 :: ext).take ((before ++ 46 :: ext).length - ext.length - 1) = before := by
    apply List.take_left'
    simp only [List.length_append, List.length_cons]
    omega
  unfold extension Install.rsplitFileAtDot
  simp only [if_neg hdots, hafter, htake, if_neg hbefore]
  simp

/-- Every profile is in a file that `list` looks at. -/
theorem extension_profileName {alias_ : String} (h : alias_.toList ≠ []) : extension (profileName alias_) = some (osString "json") := by
  have hjson : osString ".json" = 46 :: osString "json" := by decide +kernel
  have hne : osString alias_ ≠ [] := by
    intro hnil
    have hempty : osString "" = [] := by decide +kernel
    exact h (by rw [osString_injective (hnil.trans hempty.symm), String.toList_empty])
  rw [profileName, osString_append, hjson]
  exact extension_of_dot hne (by decide +kernel) (by decide +kernel)

/-! ## The directory is a registry -/

section
variable (numbers : Numbers) (root : String)

def filesOf (dir : ProfilesDir) : List File := (dir.getD .empty).files

/-- The files are those of the profiles. -/
structure Keeps (dir : ProfilesDir) (registry : Registry) : Prop where
  stored : ∀ a profile, registry.get a = some profile → profile.alias_ = a ∧ a.toList ≠ [] ∧
    ∃ bytes, (profileName a, bytes) ∈ filesOf dir
  files : ∀ file ∈ filesOf dir, ∃ profile, registry.get profile.alias_ = some profile ∧ file.1 = profileName profile.alias_ ∧
    toVecPretty numbers profile = .ok file.2

variable {numbers} {dir : ProfilesDir} {registry : Registry}

theorem keeps_none : Keeps numbers none .empty where
  stored _ _ h := by cases h
  files _ h := absurd h List.not_mem_nil

/-- The file of a profile of the registry holds its text. -/
theorem Keeps.file (h : Keeps numbers dir registry) {a : String} {profile : SpecialistModelProfile} (hget : registry.get a = some profile)
    {bytes : List UInt8} (hfile : (profileName a, bytes) ∈ filesOf dir) : toVecPretty numbers profile = .ok bytes := by
  obtain ⟨other, hother, hname, htext⟩ := h.files _ hfile
  rw [← profileName_injective hname, hget] at hother
  exact Option.some.inj hother ▸ htext

theorem Keeps.write (h : Keeps numbers dir registry) {profile : SpecialistModelProfile} {bytes : List UInt8}
    (htext : toVecPretty numbers profile = .ok bytes) (halias : profile.alias_.toList ≠ []) :
    Keeps numbers (some ((dir.getD .empty).write (profileName profile.alias_) bytes)) (registry.insert profile.alias_ profile) where
  stored a other hget := by
    rw [SortedMap.get_insert] at hget
    by_cases ha : a = profile.alias_
    · rw [if_pos ha] at hget
      cases hget
      exact ⟨ha.symm, ha ▸ halias, bytes, (Directory.mem_write _ _ _ _).mpr (.inl (by rw [ha]))⟩
    · rw [if_neg ha] at hget
      obtain ⟨hother, hne, otherBytes, hfile⟩ := h.stored a other hget
      exact ⟨hother, hne, otherBytes, (Directory.mem_write _ _ _ _).mpr (.inr ⟨hfile, fun hname => ha (profileName_injective hname)⟩)⟩
  files file hfile := by
    rcases (Directory.mem_write _ _ _ _).mp hfile with rfl | ⟨hfile, hname⟩
    · exact ⟨profile, by rw [SortedMap.get_insert, if_pos rfl], rfl, htext⟩
    · obtain ⟨other, hother, hotherName, hotherText⟩ := h.files file hfile
      refine ⟨other, ?_, hotherName, hotherText⟩
      rw [SortedMap.get_insert, if_neg fun ha => hname (by rw [hotherName, ha])]
      exact hother

theorem Keeps.remove {dir : Directory} (h : Keeps numbers (some dir) registry) (a : String) :
    Keeps numbers (some (dir.remove (profileName a))) (registry.erase a) where
  stored b other hget := by
    rw [SortedMap.get_erase] at hget
    by_cases hb : b = a
    · rw [if_pos hb] at hget
      cases hget
    · rw [if_neg hb] at hget
      obtain ⟨hother, hne, bytes, hfile⟩ := h.stored b other hget
      exact ⟨hother, hne, bytes, (Directory.mem_remove _ _ _).mpr ⟨hfile, fun hname => hb (profileName_injective hname)⟩⟩
  files file hfile := by
    obtain ⟨hfile, hname⟩ := (Directory.mem_remove _ _ _).mp hfile
    obtain ⟨other, hother, hotherName, hotherText⟩ := h.files file hfile
    refine ⟨other, ?_, hotherName, hotherText⟩
    rw [SortedMap.get_erase, if_neg fun ha => hname (by rw [hotherName, ha])]
    exact hother

theorem keeps_readProfile (h : Keeps numbers dir registry) (a : String) : readProfile numbers root dir a = registry.find root a := by
  unfold readProfile Registry.find
  have hread : (dir.bind fun dir => dir.read (profileName a)) = (dir.getD .empty).read (profileName a) := by
    cases dir <;> rfl
  rw [hread]
  cases hget : registry.get a with
  | some profile =>
    obtain ⟨-, -, bytes, hfile⟩ := h.stored a profile hget
    rw [(Directory.read_eq_some_iff _ _ _).mpr hfile]
    simp [fromSlice_toVecPretty numbers (h.file hget hfile)]
  | none =>
    cases hfile : (dir.getD .empty).read (profileName a) with
    | none => rfl
    | some bytes =>
      obtain ⟨other, hother, hname, -⟩ := h.files _ ((Directory.read_eq_some_iff _ _ _).mp hfile)
      rw [← profileName_injective hname, hget] at hother
      cases hother

/-- The profiles of some files. -/
def profilesOf (numbers : Numbers) (files : List File) : List SpecialistModelProfile :=
  (files.filter fun file => extension file.1 == some (osString "json")).filterMap fun file => fromSlice numbers file.2

theorem Keeps.mem_profilesOf (h : Keeps numbers dir registry) (profile : SpecialistModelProfile) :
    profile ∈ profilesOf numbers (filesOf dir) ↔ registry.get profile.alias_ = some profile := by
  unfold profilesOf
  rw [List.mem_filterMap]
  constructor
  · rintro ⟨file, hfile, hread⟩
    obtain ⟨other, hother, -, htext⟩ := h.files file (List.mem_filter.mp hfile).1
    rw [fromSlice_toVecPretty numbers htext] at hread
    exact Option.some.inj hread ▸ hother
  · intro hget
    obtain ⟨-, hne, bytes, hfile⟩ := h.stored _ profile hget
    refine ⟨_, List.mem_filter.mpr ⟨hfile, ?_⟩, fromSlice_toVecPretty numbers (h.file hget hfile)⟩
    rw [extension_profileName hne, beq_self_eq_true]

theorem Keeps.nodup_profilesOf (h : Keeps numbers dir registry) : (profilesOf numbers (filesOf dir)).Nodup := by
  have hnames : (filesOf dir).Pairwise fun file other => file.1 ≠ other.1 := List.pairwise_map.mp (dir.getD .empty).nodup
  refine List.pairwise_filterMap.mpr (List.Pairwise.imp_of_mem ?_ (hnames.filter _))
  intro file other hfile hother hname profile hprofile same hsame heq
  subst heq
  obtain ⟨first, -, hfirst, hfirstText⟩ := h.files file (List.mem_filter.mp hfile).1
  obtain ⟨second, -, hsecond, hsecondText⟩ := h.files other (List.mem_filter.mp hother).1
  rw [fromSlice_toVecPretty numbers hfirstText] at hprofile
  rw [fromSlice_toVecPretty numbers hsecondText] at hsame
  cases hprofile
  cases hsame
  exact hname (hfirst.trans hsecond.symm)

/-- In whatever order the directory is read, the profiles are listed by their aliases. -/
theorem keeps_listProfiles (h : Keeps numbers dir registry) {readDir : List File → List File}
    (hperm : ∀ files, (readDir files).Perm files) : listProfiles numbers readDir dir = registry.entries.map (·.2) := by
  have hlist : listProfiles numbers readDir dir =
      (profilesOf numbers (readDir (filesOf dir))).insertionSort fun left right => left.alias_ ≤ right.alias_ := by
    cases dir with
    | none =>
      have hnil : readDir [] = [] := List.perm_nil.mp (hperm [])
      simp [listProfiles, filesOf, Directory.empty, hnil, profilesOf]
    | some dir => rfl
  have hfiles : (profilesOf numbers (readDir (filesOf dir))).Perm (profilesOf numbers (filesOf dir)) :=
    ((hperm _).filter _).filterMap _
  have hkey : ∀ e ∈ registry.entries, e.2.alias_ = e.1 := fun e he => (h.stored e.1 e.2 ((registry.get_eq_some_iff _ _).mpr he)).1
  have hsorted : (registry.entries.map (·.2)).Pairwise fun left right => left.alias_ < right.alias_ :=
    List.pairwise_map.mpr (registry.sorted.imp_of_mem fun {e f} he hf hlt => by rwa [hkey e he, hkey f hf])
  have hentries : (profilesOf numbers (filesOf dir)).Perm (registry.entries.map (·.2)) := by
    refine (List.perm_ext_iff_of_nodup h.nodup_profilesOf (hsorted.imp fun hlt heq => ?_)).mpr fun profile => ?_
    · exact absurd hlt (heq ▸ lt_irrefl _)
    · rw [h.mem_profilesOf, SortedMap.get_eq_some_iff, List.mem_map]
      constructor
      · exact fun hmem => ⟨_, hmem, rfl⟩
      · rintro ⟨e, he, rfl⟩
        rw [hkey e he]
        exact he
  have hall := (List.perm_insertionSort (fun left right => left.alias_ ≤ right.alias_) _).trans (hfiles.trans hentries)
  have hget : ∀ profile ∈ registry.entries.map (·.2), registry.get profile.alias_ = some profile := by
    intro profile hmem
    obtain ⟨e, he, rfl⟩ := List.mem_map.mp hmem
    rw [hkey e he]
    exact (registry.get_eq_some_iff _ _).mpr he
  rw [hlist]
  apply hall.eq_of_pairwise ?_ (List.pairwise_insertionSort _ _) (hsorted.imp le_of_lt)
  -- two profiles of one alias are the same
  intro left right hleft hright hle hge
  have hleftGet := hget left (hall.mem_iff.mp hleft)
  rw [le_antisymm hle hge, hget right hright] at hleftGet
  exact (Option.some.inj hleftGet).symm

theorem toList_ne_of_validateAlias {a : String} (h : validateAlias a = .ok ()) : a.toList ≠ [] := by
  intro hnil
  unfold validateAlias at h
  rw [if_pos (.inl hnil)] at h
  cases h

theorem keeps_store (h : Keeps numbers dir registry) (status : String) (policy : Option ProfilePolicyReport)
    (profile : SpecialistModelProfile) :
    (storeProfile numbers root status policy dir profile).1 = (registry.store root status policy profile).1 ∧
      Keeps numbers (storeProfile numbers root status policy dir profile).2 (registry.store root status policy profile).2 := by
  unfold storeProfile writeProfile Registry.store
  cases halias : validateAlias profile.alias_ with
  | error e => exact ⟨rfl, h⟩
  | ok _ =>
    cases hpath : String.fromUTF8? ⟨profile.artifact.path.toArray⟩ with
    | none =>
      have htext : toVecPretty numbers profile = .error "path contains invalid UTF-8 characters" := by
        rw [toVecPretty, hpath]
      simp only [htext]
      -- the directory is there now
      exact ⟨trivial, h.stored, h.files⟩
    | some path =>
      have htext : toVecPretty numbers profile = .ok (osString (writeProfileValue numbers profile path).pretty) := by
        rw [toVecPretty, hpath]
      simp only [htext]
      exact ⟨trivial, h.write htext (toList_ne_of_validateAlias halias)⟩

theorem keeps_remove (h : Keeps numbers dir registry) (sha256 : List UInt8 → String) (inputs : ProfileInputs) (a : String) :
    (modelProfileCommand numbers sha256 root dir ⟨.remove a, inputs⟩).1 = (registry.call sha256 root ⟨.remove a, inputs⟩).1 ∧
      Keeps numbers (modelProfileCommand numbers sha256 root dir ⟨.remove a, inputs⟩).2
        (registry.call sha256 root ⟨.remove a, inputs⟩).2 := by
  simp only [modelProfileCommand, removeProfile, Registry.call]
  cases halias : validateAlias a with
  | error e => exact ⟨rfl, h⟩
  | ok _ =>
    cases hget : registry.get a with
    | none =>
      cases dir with
      | none => exact ⟨rfl, h⟩
      | some dir =>
        have hread : dir.read (profileName a) = none := by
          cases hread : dir.read (profileName a) with
          | none => rfl
          | some bytes =>
            obtain ⟨other, hother, hname, -⟩ := h.files _ ((Directory.read_eq_some_iff _ _ _).mp hread)
            rw [← profileName_injective hname, hget] at hother
            cases hother
        simp only [hread, Option.isSome_none, Bool.false_eq_true, if_false]
        exact ⟨trivial, h⟩
    | some profile =>
      obtain ⟨-, -, bytes, hfile⟩ := h.stored a profile hget
      cases dir with
      | none => cases hfile
      | some dir =>
        have hread : dir.read (profileName a) = some bytes := (Directory.read_eq_some_iff _ _ _).mpr hfile
        simp only [hread, Option.isSome_some, if_true]
        exact ⟨trivial, h.remove a⟩

theorem keeps_call (h : Keeps numbers dir registry) (sha256 : List UInt8 → String) (call : ProfileCall) :
    (modelProfileCommand numbers sha256 root dir call).1 = (registry.call sha256 root call).1 ∧
      Keeps numbers (modelProfileCommand numbers sha256 root dir call).2 (registry.call sha256 root call).2 := by
  obtain ⟨command, inputs⟩ := call
  cases command with
  | list =>
    simp only [modelProfileCommand, Registry.call, keeps_listProfiles h inputs.perm]
    exact ⟨trivial, h⟩
  | inspect a =>
    simp only [modelProfileCommand, Registry.call, keeps_readProfile root h]
    exact ⟨trivial, h⟩
  | importLocal path a =>
    simp only [modelProfileCommand, Registry.call]
    cases importLocalCandidate sha256 inputs.stat path a with
    | error e => exact ⟨rfl, h⟩
    | ok profile => exact keeps_store root h _ _ profile
  | importCatalog id =>
    simp only [modelProfileCommand, Registry.call]
    cases importCatalogCandidate id with
    | error e => exact ⟨rfl, h⟩
    | ok profile => exact keeps_store root h _ _ profile
  | qualify a available =>
    simp only [modelProfileCommand, Registry.call, keeps_readProfile root h]
    cases registry.find root a with
    | error e => exact ⟨rfl, h⟩
    | ok profile => exact keeps_store root h _ _ _
  | quarantine a reason =>
    simp only [modelProfileCommand, Registry.call, keeps_readProfile root h]
    cases registry.find root a with
    | error e => exact ⟨rfl, h⟩
    | ok profile => exact keeps_store root h _ _ _
  | remove a => exact keeps_remove root h sha256 inputs a
  | adapters => exact ⟨rfl, h⟩

end

/-- Where no profiles are there at first, the commands answer as those of a registry. -/
theorem profiles_refine (numbers : Numbers) (sha256 : List UInt8 → String) (root : String) (calls : List ProfileCall) :
    (Related.answers (modelProfileCommand numbers sha256 root) none calls).1 =
      (Related.answers (Registry.call sha256 root) SortedMap.empty calls).1 := by
  have hcall : ∀ dir registry call, Keeps numbers dir registry → True →
      (modelProfileCommand numbers sha256 root dir call).1 = (registry.call sha256 root call).1 ∧
        Keeps numbers (modelProfileCommand numbers sha256 root dir call).2 (registry.call sha256 root call).2 :=
    fun dir registry call h _ => keeps_call root h sha256 call
  exact (Related.answers_eq hcall calls none .empty keeps_none fun _ _ => trivial).1

/-! ## Qualified profiles -/

/-- A command, or a file that an operator puts into the directory. -/
inductive Step where
  | command (call : ProfileCall)
  | edit (name : OsString) (bytes : List UInt8)

section
variable (numbers : Numbers) (sha256 : List UInt8 → String) (root : String)

def Step.apply (dir : ProfilesDir) : Step → ProfilesDir
  | command call => (modelProfileCommand numbers sha256 root dir call).2
  | edit name bytes => some ((dir.getD .empty).write name bytes)

def runSteps (steps : List Step) : ProfilesDir := steps.foldl (Step.apply numbers sha256 root) none

end

/-- What a profile says but for its qualification. -/
def unjudged (profile : SpecialistModelProfile) : SpecialistModelProfile :=
  { profile with qualification := .candidate, quarantineReason := none }

section
variable (numbers : Numbers)

/-- An operator wrote what the profile says. -/
def Reviewed (steps : List Step) (profile : SpecialistModelProfile) : Prop :=
  ∃ name bytes written, .edit name bytes ∈ steps ∧ fromSlice numbers bytes = some written ∧ unjudged written = unjudged profile

/-- A qualification of what an operator wrote, which passes every check. -/
def Judged (steps : List Step) (profile : SpecialistModelProfile) : Prop :=
  ∃ before after a available inputs, steps = before ++ .command ⟨.qualify a available, inputs⟩ :: after ∧
    Reviewed numbers before profile ∧ ∀ check ∈ (evaluateProfile profile available).checks, check.passed = true

structure Trusted (steps : List Step) (profile : SpecialistModelProfile) : Prop where
  license : profile.license.accepted = true → Reviewed numbers steps profile
  judged : profile.qualification = .qualified → Judged numbers steps profile

def AllTrusted (steps : List Step) (dir : ProfilesDir) : Prop :=
  ∀ file ∈ filesOf dir, ∀ profile, fromSlice numbers file.2 = some profile → Trusted numbers steps profile

variable {numbers} {steps : List Step} {profile : SpecialistModelProfile} {dir : ProfilesDir}

theorem Reviewed.append (h : Reviewed numbers steps profile) (step : Step) : Reviewed numbers (steps ++ [step]) profile := by
  obtain ⟨name, bytes, written, hmem, hread, heq⟩ := h
  exact ⟨name, bytes, written, List.mem_append_left _ hmem, hread, heq⟩

theorem Trusted.append (h : Trusted numbers steps profile) (step : Step) : Trusted numbers (steps ++ [step]) profile where
  license haccepted := (h.license haccepted).append step
  judged hqualified := by
    obtain ⟨before, after, a, available, inputs, rfl, hreviewed, hchecks⟩ := h.judged hqualified
    exact ⟨before, after ++ [step], a, available, inputs, by simp, hreviewed, hchecks⟩

theorem AllTrusted.append (h : AllTrusted numbers steps dir) (step : Step) : AllTrusted numbers (steps ++ [step]) dir :=
  fun file hfile profile hread => (h file hfile profile hread).append step

/-- Storing a profile that is trusted. -/
theorem AllTrusted.store (h : AllTrusted numbers steps dir) (root status : String) (policy : Option ProfilePolicyReport)
    (hprofile : Trusted numbers steps profile) : AllTrusted numbers steps (storeProfile numbers root status policy dir profile).2 := by
  unfold storeProfile writeProfile
  cases validateAlias profile.alias_ with
  | error e => exact h
  | ok _ =>
    cases htext : toVecPretty numbers profile with
    | error e => exact h
    | ok bytes =>
      intro file hfile other hread
      rcases (Directory.mem_write _ _ _ _).mp hfile with rfl | ⟨hfile, -⟩
      · rw [fromSlice_toVecPretty numbers htext] at hread
        exact Option.some.inj hread ▸ hprofile
      · exact h file hfile other hread

theorem AllTrusted.find (h : AllTrusted numbers steps dir) {root a : String} (hread : readProfile numbers root dir a = .ok profile) :
    Trusted numbers steps profile := by
  unfold readProfile at hread
  cases halias : validateAlias a with
  | error e =>
    rw [halias] at hread
    cases hread
  | ok _ =>
    rw [halias] at hread
    cases hfile : dir.bind fun dir => dir.read (profileName a) with
    | none =>
      rw [hfile] at hread
      cases hread
    | some bytes =>
      rw [hfile] at hread
      obtain ⟨found, rfl, hbytes⟩ := Option.bind_eq_some_iff.mp hfile
      cases hprofile : fromSlice numbers bytes with
      | none =>
        simp only [hprofile] at hread
        cases hread
      | some other =>
        simp only [hprofile] at hread
        cases hread
        exact h _ ((Directory.read_eq_some_iff _ _ _).mp hbytes) _ hprofile

/-- An import is a candidate of no accepted license. -/
theorem trusted_candidate (steps : List Step) (a : String) (artifact : ArtifactProfile) (format : String) :
    Trusted numbers steps (candidateProfile a artifact format) where
  license h := by cases h
  judged h := by cases h

theorem importLocalCandidate_eq {sha256 : List UInt8 → String} {stat : OsString → Option Artifact} {path : OsString} {a : String}
    (h : importLocalCandidate sha256 stat path a = .ok profile) : ∃ artifact format, profile = candidateProfile a artifact format := by
  unfold importLocalCandidate at h
  split at h
  · cases h
  · cases h
  · rename_i artifact _ _
    cases hformat : inferFormat path artifact with
    | error e =>
      rw [hformat] at h
      cases h
    | ok format =>
      cases hsha : sha256File sha256 path artifact with
      | error e =>
        rw [hformat, hsha] at h
        cases h
      | ok digest =>
        rw [hformat, hsha] at h
        exact ⟨_, _, (Except.ok.inj h).symm⟩

theorem importCatalogCandidate_eq {id : String} (h : importCatalogCandidate id = .ok profile) :
    ∃ a artifact format, profile = candidateProfile a artifact format := by
  unfold importCatalogCandidate at h
  split at h
  · cases h
  · exact ⟨_, _, _, (Except.ok.inj h).symm⟩

/-- A profile that is qualified passed every check, and its license is accepted. -/
theorem qualifyProfile_qualified {available : Option UInt64} (h : (qualifyProfile profile available).1.qualification = .qualified) :
    profile.license.accepted = true ∧
      ∀ check ∈ (evaluateProfile (qualifyProfile profile available).1 available).checks, check.passed = true := by
  have hall : (evaluateProfile profile available).qualified = true := by
    by_contra hfailed
    simp [qualifyProfile, hfailed] at h
  have hchecks : ∀ check ∈ (evaluateProfile profile available).checks, check.passed = true := List.all_eq_true.mp hall
  -- the checks do not look at the qualification
  refine ⟨?_, hchecks⟩
  have hlicense := hchecks _ List.mem_cons_self
  simp only [check, Bool.and_eq_true] at hlicense
  exact hlicense.1

theorem Trusted.qualify (h : Trusted numbers steps profile) (a : String) (available : Option UInt64) (inputs : ProfileInputs) :
    Trusted numbers (steps ++ [.command ⟨.qualify a available, inputs⟩]) (qualifyProfile profile available).1 where
  license haccepted := Reviewed.append (h.license haccepted) _
  judged hqualified := by
    obtain ⟨haccepted, hchecks⟩ := qualifyProfile_qualified hqualified
    exact ⟨steps, [], a, available, inputs, rfl, h.license haccepted, hchecks⟩

theorem allTrusted_command (h : AllTrusted numbers steps dir) (sha256 : List UInt8 → String) (root : String) (call : ProfileCall) :
    AllTrusted numbers (steps ++ [.command call]) (modelProfileCommand numbers sha256 root dir call).2 := by
  obtain ⟨command, inputs⟩ := call
  cases command with
  | list | inspect _ | adapters => exact h.append _
  | importLocal path a =>
    simp only [modelProfileCommand]
    cases hprofile : importLocalCandidate sha256 inputs.stat path a with
    | error e => exact h.append _
    | ok profile =>
      obtain ⟨artifact, format, rfl⟩ := importLocalCandidate_eq hprofile
      exact (h.append _).store root _ _ (trusted_candidate _ _ _ _)
  | importCatalog id =>
    simp only [modelProfileCommand]
    cases hprofile : importCatalogCandidate id with
    | error e => exact h.append _
    | ok profile =>
      obtain ⟨a, artifact, format, rfl⟩ := importCatalogCandidate_eq hprofile
      exact (h.append _).store root _ _ (trusted_candidate _ _ _ _)
  | qualify a available =>
    simp only [modelProfileCommand]
    cases hprofile : readProfile numbers root dir a with
    | error e => exact h.append _
    | ok profile => exact (h.append _).store root _ _ ((h.find hprofile).qualify a available inputs)
  | quarantine a reason =>
    simp only [modelProfileCommand]
    cases hprofile : readProfile numbers root dir a with
    | error e => exact h.append _
    | ok profile =>
      apply (h.append _).store root
      exact { license := fun haccepted => ((h.find hprofile).license haccepted).append _, judged := fun hqualified => by cases hqualified }
  | remove a =>
    simp only [modelProfileCommand, removeProfile]
    cases validateAlias a with
    | error e => exact h.append _
    | ok _ =>
      cases dir with
      | none => exact h.append _
      | some dir =>
        by_cases hread : (dir.read (profileName a)).isSome
        · simp only [hread, if_true]
          intro file hfile profile hprofile
          exact h.append _ file ((Directory.mem_remove _ _ _).mp hfile).1 profile hprofile
        · simp only [hread, Bool.false_eq_true, if_false]
          exact h.append _

theorem allTrusted_run (sha256 : List UInt8 → String) (root : String)
    (h : ∀ name bytes written, .edit name bytes ∈ steps → fromSlice numbers bytes = some written → written.qualification ≠ .qualified) :
    AllTrusted numbers steps (runSteps numbers sha256 root steps) := by
  induction steps using List.reverseRecOn with
  | nil => exact fun file hfile => absurd hfile List.not_mem_nil
  | append_singleton steps step ih =>
    have hsteps := ih fun name bytes written hmem => h name bytes written (List.mem_append_left _ hmem)
    have hrun : runSteps numbers sha256 root (steps ++ [step]) = step.apply numbers sha256 root (runSteps numbers sha256 root steps) := by
      simp [runSteps]
    rw [hrun]
    cases step with
    | command call => exact allTrusted_command hsteps sha256 root call
    | edit name bytes =>
      intro file hfile profile hprofile
      rcases (Directory.mem_write _ _ _ _).mp hfile with rfl | ⟨hfile, -⟩
      · have hmem : Step.edit name bytes ∈ steps ++ [.edit name bytes] := List.mem_append_right _ (List.mem_singleton.mpr rfl)
        exact
          { license := fun _ => ⟨name, bytes, profile, hmem, hprofile, rfl⟩
            judged := fun hqualified => absurd hqualified (h name bytes profile hmem hprofile) }
      · exact hsteps.append _ file hfile profile hprofile

end

/-- A catalog model with its file at hand, as an operator completes it. -/
def reviewedProfile : SpecialistModelProfile :=
  { candidateProfile "mistral-7b" ⟨osString "mistral.gguf", some (String.ofList (List.replicate 64 'a')), "local-file", none⟩ "gguf" with
    license := ⟨some "Apache-2.0", none, true⟩, securityMaturity := "reviewed" }

def atRest : ProfileInputs := ⟨fun _ => none, id, fun _ => .refl _⟩

theorem reviewedProfile_text : ∃ bytes, toVecPretty Numbers.written reviewedProfile = .ok bytes := by
  have hpath : String.fromUTF8? ⟨reviewedProfile.artifact.path.toArray⟩ = some "mistral.gguf" := fromUTF8_osString _
  rw [toVecPretty, hpath]
  exact ⟨_, rfl⟩

end Llmctl.Profiles
