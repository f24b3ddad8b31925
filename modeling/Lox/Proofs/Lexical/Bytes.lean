import Lox.Token.Scanner
import Lox.Proofs.Lexical.LongestMatch

/-! The bytes of a text, and the texts between them. -/

namespace Lox.Scan

def bytes (cs : List Char) : List Char := (cs.flatMap String.utf8EncodeChar).map .ofUInt8

lemma bytes_append (cs ds : List Char) : bytes (cs ++ ds) = bytes cs ++ bytes ds := by
  simp [bytes]

lemma bytes_cons (c : Char) (cs : List Char) : bytes (c :: cs) = bytes [c] ++ bytes cs :=
  bytes_append [c] cs

lemma length_bytes (cs : List Char) : (bytes cs).length = byteOffset cs := by
  induction cs with
  | nil => rfl
  | cons c cs ih =>
    rw [bytes_cons, List.length_append, ih]
    simp [bytes, byteOffset]

lemma byteOffset_append (cs ds : List Char) :
    byteOffset (cs ++ ds) = byteOffset cs + byteOffset ds := by
  rw [← length_bytes, bytes_append, List.length_append, length_bytes, length_bytes]

lemma lineAfter_append (cs ds : List Char) :
    lineAfter (cs ++ ds) = lineAfter cs + ds.count '\n' := by
  rw [lineAfter, List.count_append, ← Nat.add_assoc, lineAfter]

lemma bytes_narrow {c : Char} (h : c.toNat < 128) : bytes [c] = [c] := by
  have hencode : String.utf8EncodeChar c = [UInt8.ofNat c.val.toNat] := by
    simp only [String.utf8EncodeChar, if_pos (show c.val.toNat ≤ 127 from Nat.le_of_lt_succ h)]
  have hcode : Char.ofUInt8 (UInt8.ofNat c.val.toNat) = c := by
    apply Char.ext
    apply UInt32.toNat_inj.1
    change (UInt8.ofNat c.val.toNat).toUInt32.toNat = c.val.toNat
    rw [UInt8.toNat_toUInt32, UInt8.toNat_ofNat']
    exact Nat.mod_eq_of_lt (Nat.lt_trans h (by decide))
  rw [bytes, List.flatMap_singleton, hencode, List.map_singleton, hcode]

lemma bytes_wide {c : Char} (h : 128 ≤ c.toNat) : ∀ b ∈ bytes [c], 128 ≤ b.toNat := by
  have hwide : ∀ u ∈ String.utf8EncodeChar c, 128 ≤ u.toNat := by
    intro u hu
    simp only [String.utf8EncodeChar, if_neg (show ¬ c.val.toNat ≤ 127 from Nat.not_le.2 h)] at hu
    split at hu
    · simp only [List.mem_cons, List.not_mem_nil, or_false] at hu
      rcases hu with rfl | rfl <;> simp <;> omega
    split at hu
    · simp only [List.mem_cons, List.not_mem_nil, or_false] at hu
      rcases hu with rfl | rfl | rfl <;> simp <;> omega
    · simp only [List.mem_cons, List.not_mem_nil, or_false] at hu
      rcases hu with rfl | rfl | rfl | rfl <;> simp <;> omega
  intro b hb
  obtain ⟨u, hu, rfl⟩ := List.mem_map.1 hb
  rw [List.flatMap_cons, List.flatMap_nil, List.append_nil] at hu
  exact hwide u hu

lemma bytes_all_narrow {cs : List Char} (h : ∀ c ∈ cs, c.toNat < 128) : bytes cs = cs := by
  induction cs with
  | nil => rfl
  | cons c cs ih =>
    rw [List.forall_mem_cons] at h
    rw [bytes_cons, bytes_narrow h.1, ih h.2, List.singleton_append]

lemma first_byte (c : Char) (cs : List Char) :
    ∃ b ∈ bytes [c], ∃ bs, bytes (c :: cs) = b :: bs := by
  have hne : bytes [c] ≠ [] := by simp [bytes, String.utf8EncodeChar_ne_nil]
  obtain ⟨b, bs, hb⟩ := List.exists_cons_of_ne_nil hne
  refine ⟨b, hb ▸ List.mem_cons_self, bs ++ bytes cs, ?_⟩
  rw [bytes_cons c cs, hb, List.cons_append]

def Narrow (p : Char → Bool) : Prop := ∀ c d : Char, 128 ≤ c.toNat → 128 ≤ d.toNat → p c = p d

section

variable {p : Char → Bool} (hp : Narrow p)
include hp

lemma Narrow.of_mem_bytes {b c : Char} (h : b ∈ bytes [c]) : p b = p c := by
  by_cases hc : c.toNat < 128
  · rw [bytes_narrow hc, List.mem_singleton] at h
    rw [h]
  · have hc := Nat.le_of_not_lt hc
    exact hp b c (bytes_wide hc b h) hc

lemma takeWhile_bytes (cs : List Char) : (bytes cs).takeWhile p = bytes (cs.takeWhile p) := by
  induction cs with
  | nil => rfl
  | cons c cs ih =>
    by_cases hc : p c = true
    · have hall : ∀ b ∈ bytes [c], p b = true := fun b hb => (hp.of_mem_bytes hb).trans hc
      rw [bytes_cons, List.takeWhile_append_of_pos hall, ih, List.takeWhile_cons_of_pos hc,
        ← bytes_cons]
    · obtain ⟨b, hb, bs, hbytes⟩ := first_byte c cs
      rw [← hp.of_mem_bytes hb] at hc
      rw [hbytes, List.takeWhile_cons_of_neg hc,
        List.takeWhile_cons_of_neg (hp.of_mem_bytes hb ▸ hc)]
      rfl

lemma headD_bytes (cs : List Char) : p ((bytes cs).headD '\x00') = p (cs.headD '\x00') := by
  cases cs with
  | nil => rfl
  | cons c cs =>
    obtain ⟨b, hb, bs, hbytes⟩ := first_byte c cs
    rw [hbytes]
    exact hp.of_mem_bytes hb

end

lemma count_bytes (cs : List Char) : (bytes cs).count '\n' = cs.count '\n' := by
  induction cs with
  | nil => rfl
  | cons c cs ih =>
    rw [bytes_cons, List.count_append, ih, List.count_cons, Nat.add_comm]
    by_cases hc : c.toNat < 128
    · rw [bytes_narrow hc, List.count_singleton]
    · have hwide := Nat.le_of_not_lt hc
      have hb : '\n' ∉ bytes [c] := fun h => absurd (bytes_wide hwide _ h) (by decide)
      have hne : c ≠ '\n' := by
        rintro rfl
        exact hc (by decide)
      rw [List.count_eq_zero_of_not_mem hb, if_neg (by simpa using hne)]

lemma bytes_ofList (cs : List Char) :
    (String.ofList cs).toByteArray.data.toList.map .ofUInt8 = bytes cs := by
  simp [bytes, List.utf8Encode]

lemma utf8ByteSize_ofList (cs : List Char) : (String.ofList cs).utf8ByteSize = byteOffset cs := by
  rw [← String.size_toByteArray, ← length_bytes, ← bytes_ofList, List.length_map]
  rfl

lemma isValid_byteOffset (before after : List Char) :
    String.Pos.Raw.IsValid (.ofList (before ++ after)) ⟨byteOffset before⟩ := by
  refine String.Pos.Raw.isValid_iff_exists_append.2 ⟨.ofList before, .ofList after, ?_, ?_⟩
  · exact String.ofList_append
  · rw [String.rawEndPos, utf8ByteSize_ofList]

lemma extract_byteOffset (before text after : List Char) :
    (String.ofList (before ++ text ++ after)).toByteArray.extract (byteOffset before)
      (byteOffset (before ++ text)) = (String.ofList text).toByteArray := by
  simp only [← utf8ByteSize_ofList, ← String.size_toByteArray, String.ofList_append,
    String.toByteArray_append]
  rw [ByteArray.extract_append, ByteArray.extract_append_eq_right rfl ByteArray.size_append]
  simp

lemma slice?_byteOffset (before text after : List Char) :
    slice? (.ofList (before ++ text ++ after)) (byteOffset before) (byteOffset (before ++ text)) =
      some (.ofList text) := by
  have hfirst := isValid_byteOffset before (text ++ after)
  have hlast := isValid_byteOffset (before ++ text) after
  have hle : byteOffset before ≤ byteOffset (before ++ text) := by
    rw [byteOffset_append]
    exact Nat.le_add_right _ _
  rw [← List.append_assoc] at hfirst
  rw [slice?, dif_pos ⟨hfirst, hlast, hle⟩]
  refine congrArg some (String.toByteArray_inj.1 ?_)
  rw [String.toByteArray_copy_slice]
  exact extract_byteOffset before text after

end Lox.Scan
