import Mathlib.Logic.Function.Basic
import Llmctl.Value

/-!
# Hexadecimal digits

The digits of bytes, in lower case.
-/

namespace Text

open Llmctl.Value (hexDigit)

def byteDigits (b : UInt8) : List Char := [hexDigit (b.toNat / 16), hexDigit (b.toNat % 16)]

def hexEncode (bytes : List UInt8) : String := String.ofList (bytes.flatMap byteDigits)

theorem hexDigit_injective : ∀ m < 16, ∀ n < 16, hexDigit m = hexDigit n → m = n := by decide

theorem byteDigits_injective : Function.Injective byteDigits := by
  intro b c h
  obtain ⟨hhigh, hlow⟩ := List.cons.inj h
  have hb := b.toNat_lt
  have hc := c.toNat_lt
  have hhigh := hexDigit_injective _ (by omega) _ (by omega) hhigh
  have hlow := hexDigit_injective _ (Nat.mod_lt _ (by decide)) _ (Nat.mod_lt _ (by decide)) (List.cons.inj hlow).1
  exact UInt8.toNat_inj.mp (by omega)

theorem flatMap_byteDigits_injective : ∀ {bytes bytes' : List UInt8}, bytes.flatMap byteDigits = bytes'.flatMap byteDigits → bytes = bytes'
  | [], [], _ => rfl
  | [], _ :: _, h => by cases h
  | _ :: _, [], h => by cases h
  | b :: bytes, c :: bytes', h => by
    rw [List.flatMap_cons, List.flatMap_cons] at h
    obtain ⟨hdigits, hrest⟩ := List.append_inj h rfl
    rw [byteDigits_injective hdigits, flatMap_byteDigits_injective hrest]

theorem hexEncode_injective : Function.Injective hexEncode :=
  fun _ _ h => flatMap_byteDigits_injective (String.ofList_injective h)

theorem toLower_hexDigit : ∀ n < 16, (hexDigit n).toLower = hexDigit n := by decide

/-- The digits have no upper case. -/
theorem map_toLower_hexEncode (bytes : List UInt8) : (hexEncode bytes).toList.map Char.toLower = (hexEncode bytes).toList := by
  rw [hexEncode, String.toList_ofList]
  refine (List.map_congr_left fun c hc => ?_).trans (List.map_id _)
  obtain ⟨b, -, hdigit⟩ := List.mem_flatMap.mp hc
  have hb := b.toNat_lt
  rcases List.mem_cons.mp hdigit with rfl | hlow
  · exact toLower_hexDigit _ (by omega)
  · cases List.mem_singleton.mp hlow
    exact toLower_hexDigit _ (Nat.mod_lt _ (by decide))

end Text
