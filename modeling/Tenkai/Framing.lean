import Mathlib.Data.String.Basic
import Mathlib.Tactic.Common

/-!
# Length-prefixed bytes

What is signed is a byte string built from fields, each preceded by its length as eight
big-endian bytes, or of a width fixed in advance. A byte string so built has one reading:
equal bytes come from equal fields.
-/

namespace Tenkai.Framing

abbrev Bytes : Type := List UInt8

def beBytes : Nat → Nat → Bytes
  | 0, _ => []
  | width + 1, n => beBytes width (n / 256) ++ [UInt8.ofNat n]

@[simp] theorem length_beBytes (width n : Nat) : (beBytes width n).length = width := by
  induction width generalizing n with
  | zero => rfl
  | succ width ih => simp [beBytes, ih]

theorem beBytes_inj {width n m : Nat} (hn : n < 256 ^ width) (hm : m < 256 ^ width)
    (h : beBytes width n = beBytes width m) : n = m := by
  induction width generalizing n m with
  | zero => omega
  | succ width ih =>
    obtain ⟨hhigh, hlow⟩ := List.append_inj' h rfl
    have hquotient : n / 256 = m / 256 :=
      ih (Nat.div_lt_of_lt_mul (by omega)) (Nat.div_lt_of_lt_mul (by omega)) hhigh
    have hremainder : n % 256 = m % 256 := by
      simpa using congrArg (UInt8.toNat ∘ (List.head? · |>.getD 0)) hlow
    omega

def lenPrefixed (value : Bytes) : Bytes := beBytes 8 value.length ++ value

theorem lenPrefixed_append_inj {value value' rest rest' : Bytes} (hval : value.length < 2 ^ 64)
    (hval' : value'.length < 2 ^ 64) (h : lenPrefixed value ++ rest = lenPrefixed value' ++ rest') :
    value = value' ∧ rest = rest' := by
  rw [lenPrefixed, lenPrefixed, List.append_assoc, List.append_assoc] at h
  obtain ⟨hlengths, hbody⟩ := List.append_inj h (by simp)
  have hlen : value.length = value'.length :=
    beBytes_inj (Nat.lt_of_lt_of_le hval (by decide)) (Nat.lt_of_lt_of_le hval' (by decide))
      hlengths
  exact List.append_inj hbody hlen

def utf8 (text : String) : Bytes := text.toByteArray.data.toList

theorem utf8_inj {text text' : String} : utf8 text = utf8 text' ↔ text = text' := by
  constructor
  · intro h
    exact String.toByteArray_inj.mp (ByteArray.ext (Array.toList_inj.mp h))
  · rintro rfl
    rfl

theorem length_utf8_le (text : String) : (utf8 text).length ≤ 4 * text.toList.length := by
  have hsize : (utf8 text).length = text.utf8ByteSize := rfl
  rw [hsize, ← String.ofList_toList (s := text), String.utf8ByteSize_ofList, String.toList_ofList]
  induction text.toList with
  | nil => simp
  | cons c rest ih =>
    have hc := c.utf8Size_le_four
    simp only [String.utf8Len_cons, List.length_cons]
    omega

end Tenkai.Framing
