import Llmctl.Model.InstallSound

/-!
# Names of downloaded files

A download whose URL names a GGUF file goes to a free name in the cache that is one of a GGUF
file as well, and the name is text.
-/

namespace Llmctl.Install

open Fs

/-! ## Names of bytes -/

theorem slash_of_mem {c : Char} (h : 47 ∈ String.utf8EncodeChar c) : c = '/' := by
  have hbyte {n : Nat} (hn : n < 256) (h : (47 : UInt8) = UInt8.ofNat n) : n = 47 := by
    have htoNat := congrArg UInt8.toNat h
    rw [UInt8.toNat_ofNat'] at htoNat
    exact (htoNat.trans (Nat.mod_eq_of_lt hn)).symm
  unfold String.utf8EncodeChar at h
  dsimp only at h
  generalize hv : c.val.toNat = v at h
  have hslash : v = 47 := by
    split at h
    · exact hbyte (by omega) (List.mem_singleton.mp h)
    · split at h
      · simp only [List.mem_cons, List.not_mem_nil, or_false] at h
        rcases h with h | h <;> have := hbyte (by omega) h <;> omega
      · split at h
        · simp only [List.mem_cons, List.not_mem_nil, or_false] at h
          rcases h with h | h | h <;> have := hbyte (by omega) h <;> omega
        · simp only [List.mem_cons, List.not_mem_nil, or_false] at h
          rcases h with h | h | h | h <;> have := hbyte (by omega) h <;> omega
  exact Char.toNat_inj.mp (hv.trans hslash)

theorem slash_not_mem {s : List Char} (h : '/' ∉ s) : 47 ∉ osString (String.ofList s) := by
  intro hmem
  have hbytes : osString (String.ofList s) = s.flatMap String.utf8EncodeChar := by
    rw [osString, String.toUTF8_eq_toByteArray, String.toByteArray_ofList]
    exact List.toList_data_toByteArray
  rw [hbytes] at hmem
  obtain ⟨c, hc, hbyte⟩ := List.mem_flatMap.mp hmem
  exact h (slash_of_mem hbyte ▸ hc)

theorem toStr_eq_some {name : OsString} : toStr name = some name ↔ (ByteArray.mk name.toArray).IsValidUTF8 := by
  rw [← ByteArray.validateUTF8_eq_true_iff, toStr]
  split
  · exact iff_of_true rfl (by assumption)
  · exact iff_of_false nofun (by assumption)

theorem toStr_osString (s : String) : toStr (osString s) = some (osString s) := toStr_eq_some.mpr s.isValidUTF8

theorem toStr_append {name name' : OsString} (h : toStr name = some name) (h' : toStr name' = some name') :
    toStr (name ++ name') = some (name ++ name') := by
  rw [toStr_eq_some] at h h' ⊢
  have happend := h.append h'
  have hbytes : ByteArray.mk name.toArray ++ ByteArray.mk name'.toArray = ByteArray.mk (name ++ name').toArray := by
    refine ByteArray.ext ?_
    simp
  rwa [hbytes] at happend

/-- What `to_str` gives, or another text in its place. -/
theorem toStr_getD (name : Option OsString) (other : String) :
    toStr ((name.bind toStr).getD (osString other)) = some ((name.bind toStr).getD (osString other)) := by
  cases hname : name.bind toStr with
  | none => exact toStr_osString other
  | some found =>
    obtain ⟨name, -, hfound⟩ := Option.bind_eq_some_iff.mp hname
    have hsame : found = name := by
      unfold toStr at hfound
      split at hfound
      · exact (Option.some.inj hfound).symm
      · cases hfound
    rw [Option.getD_some, hsame]
    rwa [hsame] at hfound

/-! ## Destinations -/

def isGguf (name : OsString) : Bool := (osString ".gguf").isSuffixOf (toAsciiLowercase name)

theorem isGguf_of_extension {name ext : OsString} (h : toAsciiLowercase ext = osString "gguf") :
    isGguf (name ++ osString "." ++ ext) = true := by
  refine List.isSuffixOf_iff_suffix.mpr ⟨toAsciiLowercase name, ?_⟩
  have hdot : osString ".gguf" = toAsciiLowercase (osString ".") ++ osString "gguf" := by decide +kernel
  rw [hdot, ← h]
  unfold toAsciiLowercase
  rw [List.map_append, List.map_append, List.append_assoc]

theorem lowercase_dot {b : UInt8} (h : (if 65 ≤ b ∧ b ≤ 90 then b + 32 else b) = 46) : b = 46 := by
  split at h
  · rename_i hupper
    have hlow : (65 : Nat) ≤ b.toNat := UInt8.le_iff_toNat_le.mp hupper.1
    have hhigh : b.toNat ≤ 90 := UInt8.le_iff_toNat_le.mp hupper.2
    have hsum := congrArg UInt8.toNat h
    rw [UInt8.toNat_add] at hsum
    simp at hsum
    omega
  · exact h

/-- The name ends with a dot and an extension that has no dot. -/
theorem exists_extension {name : OsString} (h : isGguf name = true) : ∃ front ext, name = front ++ 46 :: ext ∧
    toAsciiLowercase ext = osString "gguf" ∧ 46 ∉ ext := by
  obtain ⟨front, hfront⟩ := List.isSuffixOf_iff_suffix.mp h
  obtain ⟨front, tail, rfl, -, htail⟩ := List.map_eq_append_iff.mp hfront.symm
  have hdot : osString ".gguf" = 46 :: osString "gguf" := by decide +kernel
  rw [hdot] at htail
  obtain ⟨dot, ext, rfl, hlower, hext⟩ := List.map_eq_cons_iff.mp htail
  refine ⟨front, ext, by rw [lowercase_dot hlower], hext, fun hmem => ?_⟩
  have hlowerDot : (46 : UInt8) ∈ osString "gguf" := by
    rw [← hext]
    exact List.mem_map.mpr ⟨46, hmem, by decide⟩
  exact absurd hlowerDot (by decide +kernel)

theorem extension_lowercase {name : OsString} (h : isGguf name = true) :
    toAsciiLowercase (((extension name).bind toStr).getD (osString "gguf")) = osString "gguf" := by
  have hplain : toAsciiLowercase (osString "gguf") = osString "gguf" := by decide +kernel
  obtain ⟨front, ext, rfl, hext, hdot⟩ := exists_extension h
  have hafter : ((front ++ 46 :: ext).reverse.takeWhile (· ≠ 46)).reverse = ext := by
    have hall : ∀ b ∈ ext.reverse, decide (b ≠ 46) = true := by
      intro b hb
      rw [decide_eq_true_eq]
      rintro rfl
      exact hdot (List.mem_reverse.mp hb)
    rw [List.reverse_append, List.reverse_cons, List.append_assoc, List.takeWhile_append_of_pos hall]
    simp
  have hmem : 46 ∈ front ++ 46 :: ext := by simp
  have hne : front ++ 46 :: ext ≠ osString ".." := by
    intro heq
    rw [heq] at h
    exact absurd h (by decide +kernel)
  have hfound : extension (front ++ 46 :: ext) = none ∨ extension (front ++ 46 :: ext) = some ext := by
    unfold extension rsplitFileAtDot
    rw [if_neg hne, if_pos hmem, hafter]
    dsimp only
    split
    · exact .inl rfl
    · exact .inr rfl
  rcases hfound with hnone | hsome
  · rw [hnone]
    exact hplain
  · rw [hsome, Option.bind_some]
    unfold toStr
    split
    · exact hext
    · exact hplain

theorem isGguf_numbered {name : OsString} (h : isGguf name = true) (idx : Nat) : isGguf (numbered [name] idx) = true :=
  isGguf_of_extension (extension_lowercase h)

theorem toStr_numbered (name : OsString) (idx : Nat) : toStr (numbered [name] idx) = some (numbered [name] idx) := by
  refine toStr_append (toStr_append (toStr_append (toStr_append ?_ ?_) ?_) ?_) ?_
  · exact toStr_getD _ "model"
  · exact toStr_osString "-"
  · exact toStr_osString (toString idx)
  · exact toStr_osString "."
  · exact toStr_getD _ "gguf"

theorem supported_of_isGguf {name : OsString} (h : isGguf name = true) : ensureSupportedModelName name = .ok () := by
  have hsupported : isSupportedModelFilename name = true := Bool.or_eq_true_iff.mpr (.inl h)
  rw [ensureSupportedModelName, if_pos hsupported]

theorem not_safetensors {name : OsString} (h : isGguf name = true) : isSafetensorsName name = false := by
  obtain ⟨front, hfront⟩ := List.isSuffixOf_iff_suffix.mp h
  refine Bool.eq_false_of_not_eq_true fun hsafetensors => ?_
  obtain ⟨front', hfront'⟩ := List.isSuffixOf_iff_suffix.mp hsafetensors
  have hlast := congrArg List.getLast? (hfront.trans hfront'.symm)
  have hgguf : (osString ".gguf").getLast? = some 102 := by decide +kernel
  have hother : (osString ".safetensors").getLast? = some 115 := by decide +kernel
  rw [List.getLast?_append, List.getLast?_append, hgguf, hother, Option.some_or, Option.some_or] at hlast
  exact absurd hlast (by decide)

/-- A destination is free, and its name is that of a GGUF file. -/
theorem destination_spec {cacheDir : Path} {tree : Tree} (hcache : tree.lookup cacheDir = some .dir) {filename : OsString}
    (hname : isGguf filename = true) (hstr : toStr filename = some filename) :
    ∃ name, uniqueDestination tree cacheDir [filename] = name :: cacheDir ∧ tree.isPresent (name :: cacheDir) = false ∧
      isGguf name = true ∧ toStr name = some name := by
  obtain ⟨name, hdest, hfree⟩ := uniqueDestination_spec hcache filename
  refine ⟨name, hdest, hfree, ?_⟩
  unfold uniqueDestination at hdest
  dsimp only at hdest
  split at hdest
  · obtain rfl : filename = name := (List.cons.inj hdest).1
    exact ⟨hname, hstr⟩
  · obtain ⟨i, hi⟩ := firstFree_mem tree (fun idx => numbered [filename] idx :: cacheDir) (tree.names cacheDir).length 1
    rw [hi] at hdest
    obtain rfl : numbered [filename] i = name := (List.cons.inj hdest).1
    exact ⟨isGguf_numbered hname i, toStr_numbered filename i⟩

/-! ## The name of a URL -/

/-- The last name of the path of a URL. -/
def urlName (url : String) : OsString :=
  osString (String.ofList ((url.toList.takeWhile (· ≠ '?')).reverse.takeWhile (· ≠ '/')).reverse)

theorem components_urlName {url : String} (h : isGguf (urlName url) = true) : components (urlName url) = [urlName url] := by
  have hslash : 47 ∉ urlName url := by
    refine slash_not_mem fun hmem => ?_
    have hnot := List.all_eq_true.mp List.all_takeWhile _ (List.mem_reverse.mp hmem)
    exact absurd hnot (by decide)
  have hnil : urlName url ≠ [] := by
    intro heq
    rw [heq] at h
    exact absurd h (by decide +kernel)
  have hdot : urlName url ≠ [46] := by
    intro heq
    rw [heq] at h
    exact absurd h (by decide +kernel)
  rw [components, List.splitOn_eq_singleton hslash]
  exact List.filter_cons_of_pos (decide_eq_true ⟨hnil, hdot⟩)

theorem downloadFilename_urlName {url : String} (h : isGguf (urlName url) = true) (nameHint : String) :
    downloadFilename url nameHint = .ok (urlName url) := by
  have hsupported : isSupportedModelFilename (urlName url) = true := Bool.or_eq_true_iff.mpr (.inl h)
  unfold downloadFilename
  show (do
    ensureSupportedModelName (if isSupportedModelFilename (urlName url) then urlName url else osString nameHint)
    pure (if isSupportedModelFilename (urlName url) then urlName url else osString nameHint)) = _
  rw [if_pos hsupported, supported_of_isGguf h]
  rfl

/-! ## Digests -/

theorem toLower_hex {c : Char} (h : (c.isDigit || ('a' ≤ c && c ≤ 'f')) = true) : c.toLower = c := by
  unfold Char.toLower
  split
  · rename_i hupper
    exfalso
    simp [Char.isDigit, Char.le_def, UInt32.le_iff_toNat_le] at h hupper
    omega
  · rfl

/-- A digest in lower case is taken as it is. -/
theorem normalizedSha256_again {value digest : String} (h : normalizedSha256 value = .ok digest) :
    normalizedSha256 digest = .ok digest := by
  unfold normalizedSha256 at h
  dsimp only at h
  split at h
  · rename_i hhex
    cases h
    have hlower : value.toLower.toLower = value.toLower := by
      refine String.toList_inj.mp ?_
      have hmap : value.toLower.toLower.toList = value.toLower.toList.map Char.toLower := String.toList_map
      rw [hmap]
      refine (List.map_congr_left fun c hc => ?_).trans (List.map_id _)
      exact toLower_hex (List.all_eq_true.mp hhex.2 c hc)
    rw [normalizedSha256, hlower]
    exact if_pos hhex
  · cases h

end Llmctl.Install
