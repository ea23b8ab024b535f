import VectorDbBenchmark.Kit.Bytes
import VectorDbBenchmark.Kit.Text

/-!
# Lossy UTF-8 decoding

Bytes read as text the way `String::from_utf8_lossy` reads them: every maximal piece
that starts no character becomes one U+FFFD.
-/

namespace Kit

def replacementChar : Char := Char.ofNat 0xFFFD

/-- How many bytes a character that starts with this byte has; zero for a byte that
starts none. -/
def utf8Width (b : UInt8) : ℕ :=
  if b < 0x80 then 1
  else if 0xC2 ≤ b ∧ b ≤ 0xDF then 2
  else if 0xE0 ≤ b ∧ b ≤ 0xEF then 3
  else if 0xF0 ≤ b ∧ b ≤ 0xF4 then 4
  else 0

def isContinuation (b : UInt8) : Bool := 0x80 ≤ b && b ≤ 0xBF

/-- The second byte must not make the sequence overlong, a surrogate or too large. -/
def isSecondByte (first b : UInt8) : Bool :=
  if first = 0xE0 then 0xA0 ≤ b && b ≤ 0xBF
  else if first = 0xED then 0x80 ≤ b && b ≤ 0x9F
  else if first = 0xF0 then 0x90 ≤ b && b ≤ 0xBF
  else if first = 0xF4 then 0x80 ≤ b && b ≤ 0x8F
  else isContinuation b

/-- `String::from_utf8_lossy`. -/
def fromUtf8Lossy : Bytes → Text
  | [] => []
  | b :: bs =>
    if utf8Width b = 1 then Char.ofNat b.toNat :: fromUtf8Lossy bs
    else if utf8Width b = 0 then replacementChar :: fromUtf8Lossy bs
    else match bs with
      | [] => [replacementChar]
      | b₁ :: bs₁ =>
        if !isSecondByte b b₁ then replacementChar :: fromUtf8Lossy (b₁ :: bs₁)
        else if utf8Width b = 2 then
          Char.ofNat (b.toNat % 32 * 64 + b₁.toNat % 64) :: fromUtf8Lossy bs₁
        else match bs₁ with
          | [] => [replacementChar]
          | b₂ :: bs₂ =>
            if !isContinuation b₂ then replacementChar :: fromUtf8Lossy (b₂ :: bs₂)
            else if utf8Width b = 3 then
              Char.ofNat ((b.toNat % 16 * 64 + b₁.toNat % 64) * 64 + b₂.toNat % 64) ::
                fromUtf8Lossy bs₂
            else match bs₂ with
              | [] => [replacementChar]
              | b₃ :: bs₃ =>
                if !isContinuation b₃ then replacementChar :: fromUtf8Lossy (b₃ :: bs₃)
                else
                  Char.ofNat (((b.toNat % 8 * 64 + b₁.toNat % 64) * 64 + b₂.toNat % 64) * 64 +
                    b₃.toNat % 64) :: fromUtf8Lossy bs₃

/-- A text as bytes. -/
def utf8Bytes (t : Text) : Bytes := t.flatMap String.utf8EncodeChar

theorem utf8Bytes_append (t u : Text) : utf8Bytes (t ++ u) = utf8Bytes t ++ utf8Bytes u :=
  List.flatMap_append

/-- A text of ASCII characters as bytes. -/
def asciiBytes (t : Text) : Bytes := t.map fun c ↦ UInt8.ofNat c.toNat

@[simp] theorem length_asciiBytes (t : Text) : (asciiBytes t).length = t.length :=
  List.length_map _

/-- ASCII text is its own bytes. -/
theorem fromUtf8Lossy_asciiBytes {t : Text} (h : ∀ c ∈ t, c.toNat < 128) :
    fromUtf8Lossy (asciiBytes t) = t := by
  induction t with
  | nil => rfl
  | cons c cs ih =>
      have hc : c.toNat < 128 := h c List.mem_cons_self
      have hbyte : (UInt8.ofNat c.toNat).toNat = c.toNat := by
        rw [UInt8.toNat_ofNat']
        omega
      have hwidth : utf8Width (UInt8.ofNat c.toNat) = 1 := by
        refine if_pos ?_
        rw [UInt8.lt_iff_toNat_lt, hbyte]
        exact hc
      have htail : fromUtf8Lossy (asciiBytes cs) = cs :=
        ih fun d hd ↦ h d (List.mem_cons_of_mem c hd)
      rw [asciiBytes, List.map_cons, fromUtf8Lossy.eq_def]
      simp only [hwidth, if_true, hbyte, Char.ofNat_toNat]
      exact congrArg (c :: ·) htail

theorem asciiBytes_inj {t u : Text} (ht : ∀ c ∈ t, c.toNat < 128) (hu : ∀ c ∈ u, c.toNat < 128)
    (h : asciiBytes t = asciiBytes u) : t = u := by
  rw [← fromUtf8Lossy_asciiBytes ht, h, fromUtf8Lossy_asciiBytes hu]

theorem utf8EncodeChar_ascii {c : Char} (h : c.toNat < 128) :
    String.utf8EncodeChar c = [UInt8.ofNat c.toNat] := by
  have hsize : c.utf8Size = 1 := if_pos (Nat.le_of_lt_succ h)
  rw [String.utf8EncodeChar_eq_singleton hsize]
  rfl

/-- The bytes of a character that is not ASCII are none either. -/
theorem toNat_of_mem_utf8EncodeChar {c : Char} (h : 128 ≤ c.toNat) {b : UInt8}
    (hb : b ∈ String.utf8EncodeChar c) : 128 ≤ b.toNat := by
  have hbyte : ∀ r k : ℕ, 128 ≤ k → r + k < 256 → 128 ≤ (UInt8.ofNat (r + k)).toNat := by
    intro r k hk hlt
    rw [UInt8.toNat_ofNat', Nat.mod_eq_of_lt hlt]
    omega
  have hval : c.val.toNat = c.toNat := rfl
  rw [String.utf8EncodeChar] at hb
  split_ifs at hb
  · omega
  all_goals
    simp only [List.mem_cons, List.not_mem_nil, or_false] at hb
    rcases hb with rfl | rfl | rfl | rfl
    all_goals exact hbyte _ _ (by decide) (by omega)

theorem utf8Bytes_ascii {t : Text} (h : ∀ c ∈ t, c.toNat < 128) : utf8Bytes t = asciiBytes t := by
  rw [utf8Bytes, List.flatMap_congr fun c hc ↦ utf8EncodeChar_ascii (h c hc)]
  exact List.flatMap_pure_eq_map _ t

theorem toList_byteArray (b : ByteArray) : b.toList = b.data.toList := by
  have hloop : ∀ i r, ByteArray.toList.loop b i r = r.reverse ++ b.data.toList.drop i := by
    intro i r
    induction i, r using ByteArray.toList.loop.induct b with
    | case1 i r h ih =>
        have hlen : i < b.data.toList.length := by rwa [Array.length_toList]
        rw [ByteArray.toList.loop, if_pos h, ih, List.reverse_cons, List.append_assoc,
          List.drop_eq_getElem_cons hlen, Array.getElem_toList]
        exact congrArg (fun x ↦ r.reverse ++ x :: List.drop (i + 1) b.data.toList)
          (getElem!_pos b.data i h)
    | case2 i r h =>
        have hlen : b.data.toList.length ≤ i := by
          rw [Array.length_toList]
          exact Nat.not_lt.mp h
        rw [ByteArray.toList.loop, if_neg h, List.drop_eq_nil_of_le hlen, List.append_nil]
  rw [ByteArray.toList, hloop]
  rfl

/-- The bytes of a string, as the encoding of its characters. -/
theorem toList_toUTF8 (s : String) : s.toUTF8.toList = utf8Bytes s.toList := by
  rw [toList_byteArray, String.toUTF8, ← String.utf8Encode_toList, List.utf8Encode]
  exact List.toList_data_toByteArray

theorem fromUTF8?_asciiBytes {t : Text} (h : ∀ c ∈ t, c.toNat < 128) :
    String.fromUTF8? ⟨(asciiBytes t).toArray⟩ = some (String.ofList t) := by
  have hbytes : (⟨(asciiBytes t).toArray⟩ : ByteArray) = (String.ofList t).toByteArray := by
    rw [← utf8Bytes_ascii h, utf8Bytes, String.toByteArray_ofList, List.utf8Encode]
    exact ByteArray.ext List.data_toByteArray.symm
  rw [hbytes, String.fromUTF8?]
  exact dif_pos (String.ofList t).isValidUTF8

theorem isContinuation_eq_false {b : UInt8} (h : b < 0x80) : isContinuation b = false := by
  rw [isContinuation, Bool.and_eq_false_iff]
  exact .inl (decide_eq_false (by rwa [UInt8.not_le]))

theorem isSecondByte_eq_false (first : UInt8) {b : UInt8} (h : b < 0x80) :
    isSecondByte first b = false := by
  have hlow : ∀ low : UInt8, 0x80 ≤ low → decide (low ≤ b) = false := by
    intro low hl
    apply decide_eq_false
    rw [UInt8.not_le]
    exact UInt8.lt_of_lt_of_le h hl
  rw [isSecondByte]
  split_ifs
  all_goals first
    | exact isContinuation_eq_false h
    | rw [hlow _ (by decide), Bool.false_and]

/-- An ASCII byte is its own character, whatever stands before it: it goes on no other. -/
theorem fromUtf8Lossy_append_ascii (pre : Bytes) {c : Char} (hc : c.toNat < 128) (bs : Bytes) :
    fromUtf8Lossy (pre ++ UInt8.ofNat c.toNat :: bs) =
      fromUtf8Lossy pre ++ c :: fromUtf8Lossy bs := by
  have hbyte : (UInt8.ofNat c.toNat).toNat = c.toNat := by
    rw [UInt8.toNat_ofNat']
    omega
  have hlt : UInt8.ofNat c.toNat < 0x80 := by
    rw [UInt8.lt_iff_toNat_lt, hbyte]
    exact hc
  have hwidth : utf8Width (UInt8.ofNat c.toNat) = 1 := if_pos hlt
  have hhead : fromUtf8Lossy (UInt8.ofNat c.toNat :: bs) = c :: fromUtf8Lossy bs := by
    rw [fromUtf8Lossy.eq_def]
    simp only [hwidth, if_true, hbyte, Char.ofNat_toNat]
  have hsecond := fun first ↦ isSecondByte_eq_false first hlt
  have hcont := isContinuation_eq_false hlt
  induction pre using fromUtf8Lossy.induct with
  | case1 => exact hhead
  | _ =>
      -- A character that the text breaks off is replaced, as it is at the end of the bytes.
      simp only [List.cons_append, List.nil_append]
      rw [fromUtf8Lossy.eq_def]
      conv_rhs => rw [fromUtf8Lossy.eq_def]
      simp_all
/-- ASCII text behind any bytes. -/
theorem fromUtf8Lossy_append_asciiBytes (pre : Bytes) {c : Char} {t : Text}
    (h : ∀ d ∈ c :: t, d.toNat < 128) :
    fromUtf8Lossy (pre ++ asciiBytes (c :: t)) = fromUtf8Lossy pre ++ c :: t := by
  rw [asciiBytes, List.map_cons, fromUtf8Lossy_append_ascii pre (h c List.mem_cons_self)]
  change _ ++ c :: fromUtf8Lossy (asciiBytes t) = _
  rw [fromUtf8Lossy_asciiBytes fun d hd ↦ h d (List.mem_cons_of_mem c hd)]

theorem toNat_lt_of_isDigit {c : Char} (h : c.isDigit = true) : c.toNat < 128 := by
  simp only [Char.isDigit, Bool.and_eq_true, decide_eq_true_eq] at h
  have hle : c.toNat ≤ 57 := UInt32.le_iff_toNat_le.mp h.2
  omega

end Kit
