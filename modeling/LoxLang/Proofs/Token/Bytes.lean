import LoxLang.Proofs.Token.ByteReader
import LoxLang.Proofs.Token.Division

/-!
# The bytes of a text

A character below 128 is one byte, which is its number, and all bytes of any other character are
from 128 on (`le_of_mem_utf8EncodeChar`).  So a byte below 128 never is a part of a longer
character, and a search for one finds the character (`findIdx?_encoded`).

What a reader of bytes finds by jumps is compared here with what the cut of a text finds character
by character: where a run of characters ends (`takeWhile_encoded`), where a comment ends
(`closeOf_encoded`), and which text stands between two places (`slice_eq`).
-/

namespace LoxLang

open String (utf8EncodeChar)

/-! ## The bytes of a text -/

/-- The bytes of a text. -/
def encoded (cs : List Char) : List UInt8 := cs.flatMap utf8EncodeChar

/-- How many bytes a text has. -/
def byteLength (text : List Char) : Nat := (encoded text).length

@[simp] lemma encoded_nil : encoded [] = [] := rfl

lemma encoded_cons (c : Char) (cs : List Char) :
    encoded (c :: cs) = utf8EncodeChar c ++ encoded cs := List.flatMap_cons

lemma encoded_append (front back : List Char) :
    encoded (front ++ back) = encoded front ++ encoded back := List.flatMap_append

lemma byteLength_append (front back : List Char) :
    byteLength (front ++ back) = byteLength front + byteLength back := by
  rw [byteLength, encoded_append, List.length_append]
  rfl

lemma length_le_byteLength (cs : List Char) : cs.length ≤ byteLength cs := by
  induction cs with
  | nil => exact Nat.le_refl _
  | cons c cs ih =>
    have hpos := List.length_pos_iff.mpr (String.utf8EncodeChar_ne_nil (c := c))
    rw [byteLength, encoded_cons, List.length_append, List.length_cons]
    rw [byteLength] at ih
    omega

lemma bytesOf_ofList (cs : List Char) : bytesOf (String.ofList cs) = encoded cs := by
  rw [bytesOf, String.toByteArray_ofList, List.utf8Encode, List.data_toByteArray,
    List.toList_toArray]
  rfl

lemma utf8ByteSize_ofList (cs : List Char) : (String.ofList cs).utf8ByteSize = byteLength cs := by
  rw [← String.size_toByteArray, ← ByteArray.size_data, ← Array.length_toList]
  exact congrArg List.length (bytesOf_ofList cs)

lemma bytesOf_eq (source : String) : bytesOf source = encoded source.toList := by
  rw [← bytesOf_ofList, String.ofList_toList]

/-- The bytes of a source are those of that source only. -/
lemma bytesOf_inj {s t : String} : bytesOf s = bytesOf t ↔ s = t := by
  rw [bytesOf, bytesOf, Array.toList_inj, ← ByteArray.ext_iff, String.toByteArray_inj]

/-- A character below 128 is one byte. -/
lemma utf8EncodeChar_of_lt {c : Char} (h : c.toNat < 128) : utf8EncodeChar c = [c.toUInt8] := by
  have hsize : c.utf8Size = 1 := by
    rw [Char.utf8Size_eq_one_iff, UInt32.le_iff_toNat_le]
    exact Nat.le_of_lt_succ h
  exact String.utf8EncodeChar_eq_singleton hsize

/-- The bytes of any other character are from 128 on. -/
lemma le_of_mem_utf8EncodeChar {c : Char} (h : 128 ≤ c.toNat) {b : UInt8}
    (hb : b ∈ utf8EncodeChar c) : 128 ≤ b.toNat := by
  have hval : ¬c.val.toNat ≤ 127 := Nat.not_le.mpr h
  simp only [utf8EncodeChar, if_neg hval] at hb
  split at hb
  · simp only [List.mem_cons, List.not_mem_nil, or_false] at hb
    rcases hb with rfl | rfl <;> simp only [UInt8.toNat_ofNat'] <;> omega
  · split at hb
    · simp only [List.mem_cons, List.not_mem_nil, or_false] at hb
      rcases hb with rfl | rfl | rfl <;> simp only [UInt8.toNat_ofNat'] <;> omega
    · simp only [List.mem_cons, List.not_mem_nil, or_false] at hb
      rcases hb with rfl | rfl | rfl | rfl <;> simp only [UInt8.toNat_ofNat'] <;> omega

/-- The first byte of a text is one of the first character. -/
lemma exists_encoded_cons (c : Char) (cs : List Char) :
    ∃ b ∈ utf8EncodeChar c, ∃ bs, encoded (c :: cs) = b :: bs := by
  obtain ⟨b, bs, hb⟩ := List.exists_cons_of_ne_nil (String.utf8EncodeChar_ne_nil (c := c))
  refine ⟨b, ?_, bs ++ encoded cs, by rw [encoded_cons, hb, List.cons_append]⟩
  rw [hb]
  exact List.mem_cons_self

lemma byteLength_cons_of_lt {c : Char} (h : c.toNat < 128) (cs : List Char) :
    byteLength (c :: cs) = byteLength cs + 1 := by
  rw [byteLength, encoded_cons, utf8EncodeChar_of_lt h]
  rfl

/-- The place behind one byte. -/
lemma byteLength_concat_of_lt {c : Char} (h : c.toNat < 128) (before : List Char) :
    byteLength (before ++ [c]) = byteLength before + 1 := by
  rw [byteLength_append, byteLength_cons_of_lt h]
  rfl

/-! ## Tests of bytes and of characters -/

/-- A property of the characters below 128, checked one by one. -/
lemma forall_lt_128 {P : Char → Prop} (h : ∀ n < 128, P (Char.ofNat n)) {c : Char}
    (hc : c.toNat < 128) : P c := by
  have hn := h c.toNat hc
  rwa [Char.ofNat_toNat] at hn

/-- A property of bytes, checked one by one. -/
lemma forall_byte {P : UInt8 → Prop} (h : ∀ n < 256, P (UInt8.ofNat n)) (b : UInt8) : P b := by
  have hn := h b.toNat b.toNat_lt
  rwa [UInt8.ofNat_toNat] at hn

/-- A test says of every byte of a character what another one says of the character. -/
def AgreesWith (keep : UInt8 → Bool) (p : Char → Bool) : Prop :=
  ∀ c, ∀ b ∈ utf8EncodeChar c, keep b = p c

/-- It is enough to compare the tests below 128, when they give one answer from there on. -/
lemma agreesWith_of_lt {keep : UInt8 → Bool} {p : Char → Bool} (answer : Bool)
    (hlow : ∀ n < 128, keep (Char.ofNat n).toUInt8 = p (Char.ofNat n))
    (hkeep : ∀ n < 256, 128 ≤ (UInt8.ofNat n).toNat → keep (UInt8.ofNat n) = answer)
    (hp : ∀ c : Char, 128 ≤ c.toNat → p c = answer) : AgreesWith keep p := by
  intro c b hb
  rcases Nat.lt_or_ge c.toNat 128 with hc | hc
  · rw [utf8EncodeChar_of_lt hc, List.mem_singleton] at hb
    rw [hb]
    exact forall_lt_128 (P := fun c => keep c.toUInt8 = p c) hlow hc
  · rw [hp c hc]
    exact forall_byte (P := fun b => 128 ≤ b.toNat → keep b = answer) hkeep b
      (le_of_mem_utf8EncodeChar hc hb)

lemma agreesWith_isDigit : AgreesWith ByteReader.isDigitByte Char.isDigit := by
  refine agreesWith_of_lt false (by decide +kernel) (by decide +kernel) fun c hc => ?_
  rw [Bool.eq_false_iff, ne_eq, isDigit_iff, IsNumeral, not_and]
  intro _ hle
  exact absurd (Nat.le_trans hc (UInt32.le_iff_toNat_le.mp hle)) (by decide)

lemma agreesWith_isWordPart : AgreesWith ByteReader.isWordByte isWordPart := by
  refine agreesWith_of_lt false (by decide +kernel) (by decide +kernel) fun c hc => ?_
  have hbelow : ∀ d : Char, d.toNat < 128 → ¬c ≤ d := by
    intro d hd hle
    exact absurd (UInt32.le_iff_toNat_le.mp hle) (Nat.not_le.mpr (Nat.lt_of_lt_of_le hd hc))
  rw [Bool.eq_false_iff, ne_eq, isWordPart_iff]
  rintro ((⟨-, hle⟩ | ⟨-, hle⟩ | rfl) | ⟨-, hle⟩)
  · exact hbelow _ (by decide) hle
  · exact hbelow _ (by decide) hle
  · exact absurd hc (by decide)
  · exact hbelow _ (by decide) hle

lemma toNat_toUInt8 {c : Char} (h : c.toNat < 128) : c.toUInt8.toNat = c.toNat :=
  Nat.mod_eq_of_lt (Nat.lt_of_lt_of_le h (by decide))

/-- A byte below 128 is the byte of one character only. -/
lemma eq_toUInt8_iff {c₀ c : Char} (h₀ : c₀.toNat < 128) {b : UInt8} (hb : b ∈ utf8EncodeChar c) :
    b = c₀.toUInt8 ↔ c = c₀ := by
  rw [← UInt8.toNat_inj, toNat_toUInt8 h₀]
  rcases Nat.lt_or_ge c.toNat 128 with hc | hc
  · rw [utf8EncodeChar_of_lt hc, List.mem_singleton] at hb
    rw [hb, toNat_toUInt8 hc, Char.toNat_inj]
  · have hhigh := le_of_mem_utf8EncodeChar hc hb
    refine iff_of_false (by omega) ?_
    rintro rfl
    omega

lemma agreesWith_ne {c₀ : Char} (h₀ : c₀.toNat < 128) :
    AgreesWith (fun b => !(b == c₀.toUInt8)) (· ≠ c₀) := by
  intro c b hb
  have hiff := eq_toUInt8_iff h₀ hb
  by_cases hc : c = c₀
  · simp [hc, hiff.mpr hc]
  · simp [hc, mt hiff.mp hc]

section Runs

variable {keep : UInt8 → Bool} {p : Char → Bool}

/-- The bytes that pass a test are those of the characters that do. -/
lemma takeWhile_encoded (h : AgreesWith keep p) (cs : List Char) :
    (encoded cs).takeWhile keep = encoded (cs.takeWhile p) ∧
      (encoded cs).dropWhile keep = encoded (cs.dropWhile p) := by
  induction cs with
  | nil => exact ⟨rfl, rfl⟩
  | cons c cs ih =>
    have hbytes : ∀ b ∈ utf8EncodeChar c, keep b = p c := h c
    cases hc : p c with
    | true =>
      rw [hc] at hbytes
      rw [encoded_cons, List.takeWhile_append_of_pos hbytes, List.dropWhile_append_of_pos hbytes,
        List.takeWhile_cons_of_pos hc, List.dropWhile_cons_of_pos hc, encoded_cons, ih.1, ih.2]
      exact ⟨rfl, rfl⟩
    | false =>
      have hno : ¬p c = true := by simp [hc]
      obtain ⟨b, hb, bs, hcons⟩ := exists_encoded_cons c cs
      have hkeep : ¬keep b = true := by
        rw [hbytes b hb, hc]
        exact Bool.false_ne_true
      rw [List.takeWhile_cons_of_neg hno, List.dropWhile_cons_of_neg hno, hcons,
        List.takeWhile_cons_of_neg hkeep, List.dropWhile_cons_of_neg hkeep]
      exact ⟨rfl, rfl⟩

/-- Where the next byte that fails a test is. -/
lemma findIdx?_not (keep : UInt8 → Bool) (bytes : List UInt8) :
    bytes.findIdx? (!keep ·) =
      if bytes.dropWhile keep = [] then none else some (bytes.takeWhile keep).length := by
  induction bytes with
  | nil => rfl
  | cons b bytes ih =>
    by_cases hb : keep b = true
    · have hno : ¬(!keep b) = true := by simp [hb]
      rw [List.findIdx?_cons, if_neg hno, ih, List.dropWhile_cons_of_pos hb,
        List.takeWhile_cons_of_pos hb]
      split <;> rfl
    · rw [List.findIdx?_cons, List.dropWhile_cons_of_neg hb, List.takeWhile_cons_of_neg hb]
      simp [hb]

/-- The place of the next character of some kind, as the bytes show it. -/
lemma findIdx?_encoded (c₀ : Char) (h₀ : c₀.toNat < 128) (cs : List Char) :
    (encoded cs).findIdx? (· == c₀.toUInt8) =
      if cs.dropWhile (· ≠ c₀) = [] then none else some (byteLength (cs.takeWhile (· ≠ c₀))) := by
  obtain ⟨htake, hdrop⟩ := takeWhile_encoded (agreesWith_ne h₀) cs
  have hfind := findIdx?_not (fun b => !(b == c₀.toUInt8)) (encoded cs)
  simp only [Bool.not_not] at hfind
  rw [hfind, htake, hdrop]
  have hnil : ∀ l : List Char, encoded l = [] ↔ l = [] := by
    intro l
    cases l with
    | nil => simp
    | cons c l => simp [encoded_cons, String.utf8EncodeChar_ne_nil]
  simp only [hnil]
  rfl

/-- How far a jump to the next character of some kind goes; without one it goes to the end. -/
lemma jump_encoded (c₀ : Char) (h₀ : c₀.toNat < 128) (cs : List Char) :
    ((encoded cs).findIdx? (· == c₀.toUInt8)).getD (encoded cs).length =
      byteLength (cs.takeWhile (· ≠ c₀)) := by
  rw [findIdx?_encoded c₀ h₀]
  split
  · next hnil =>
    have happ : cs.takeWhile (· ≠ c₀) ++ cs.dropWhile (· ≠ c₀) = cs :=
      List.takeWhile_append_dropWhile
    rw [hnil, List.append_nil] at happ
    rw [happ]
    rfl
  · rfl

lemma endOfRun_eq (keep : UInt8 → Bool) (before bytes : List UInt8) :
    ByteReader.endOfRun keep (before ++ bytes) before.length =
      before.length + (bytes.takeWhile keep).length := by
  induction bytes generalizing before with
  | nil =>
    rw [ByteReader.endOfRun]
    simp
  | cons b bytes ih =>
    have hlt : before.length < (before ++ b :: bytes).length := by simp
    have hget : (before ++ b :: bytes)[before.length] = b := by simp
    rw [ByteReader.endOfRun, dif_pos hlt, hget]
    by_cases hb : keep b = true
    · have hnext := ih (before ++ [b])
      rw [List.append_assoc, List.singleton_append, List.length_append, List.length_singleton]
        at hnext
      rw [if_pos hb, hnext, List.takeWhile_cons_of_pos hb, List.length_cons]
      omega
    · rw [if_neg hb, List.takeWhile_cons_of_neg hb, List.length_nil, Nat.add_zero]

end Runs

lemma count_encoded (cs : List Char) : (encoded cs).count '\n'.toUInt8 = lineFeeds cs := by
  induction cs with
  | nil => rfl
  | cons c cs ih =>
    rw [encoded_cons, List.count_append, ih, ← List.singleton_append, lineFeeds_append]
    congr 1
    by_cases hc : c = '\n'
    · subst hc
      rfl
    · have hfeed : '\n'.toUInt8 ∉ utf8EncodeChar c := fun hmem =>
        hc ((eq_toUInt8_iff (by decide) hmem).mp rfl)
      rw [List.count_eq_zero.mpr hfeed, lineFeeds_eq_zero (by simpa using Ne.symm hc)]

/-! ## The end of a comment -/

section Close

open ByteReader (closeOf)

lemma closeOf_cons (b : UInt8) (bytes : List UInt8) : closeOf (b :: bytes) =
    if b = '*'.toUInt8 ∧ bytes.head? = some '/'.toUInt8 then some 0
    else (closeOf bytes).map (· + 1) := by
  have hlater : (bytes.idxsOf '*'.toUInt8 1).find?
      (fun i => (b :: bytes)[i + 1]? == some '/'.toUInt8) = (closeOf bytes).map (· + 1) := by
    rw [List.idxsOf_start, List.find?_map]
    rfl
  rw [closeOf, List.idxsOf_cons, Nat.zero_add]
  by_cases hstar : b = '*'.toUInt8
  · rw [if_pos (by simp [hstar]), List.find?_cons, hlater]
    cases bytes with
    | nil => simp
    | cons d bytes =>
      by_cases hd : d = '/'.toUInt8
      · simp [hstar, hd]
      · simp [hstar, hd, beq_eq_false_iff_ne.mpr hd]
  · rw [if_neg (by simpa using hstar), hlater, if_neg fun h => hstar h.1]

/-- A comment does not end in bytes without a star. -/
lemma closeOf_append {front : List UInt8} (h : '*'.toUInt8 ∉ front) (back : List UInt8) :
    closeOf (front ++ back) = (closeOf back).map (· + front.length) := by
  induction front with
  | nil => simp
  | cons b front ih =>
    rw [List.mem_cons, not_or] at h
    rw [List.cons_append, closeOf_cons, if_neg fun hb => h.1 hb.1.symm, ih h.2, Option.map_map]
    rfl

/-- The first byte of a text is below 128 only if the first character is. -/
lemma head?_encoded_eq_iff {c₀ : Char} (h₀ : c₀.toNat < 128) (cs : List Char) :
    (encoded cs).head? = some c₀.toUInt8 ↔ cs.head? = some c₀ := by
  cases cs with
  | nil => simp
  | cons c cs =>
    obtain ⟨b, hb, bs, hcons⟩ := exists_encoded_cons c cs
    rw [hcons]
    simpa using eq_toUInt8_iff h₀ hb

/-- **The end of a comment is where the bytes show it.** -/
lemma closeOf_encoded (cs : List Char) :
    (closeOf (encoded cs)).map (· + 2) = (splitClose cs).map fun found => byteLength found.1 := by
  fun_induction splitClose cs with
  | case1 => rfl
  | case2 after => rfl
  | case3 c cs hearly ih =>
    have hnext : closeOf (encoded (c :: cs)) =
        (closeOf (encoded cs)).map (· + (utf8EncodeChar c).length) := by
      by_cases hc : c = '*'
      · subst hc
        have hslash : (encoded cs).head? ≠ some '/'.toUInt8 := by
          rw [ne_eq, head?_encoded_eq_iff (by decide)]
          intro hhead
          obtain ⟨rest, rfl⟩ := List.head?_eq_some_iff.mp hhead
          exact hearly rest rfl rfl
        rw [encoded_cons, utf8EncodeChar_of_lt (by decide), List.singleton_append, closeOf_cons,
          if_neg fun h => hslash h.2]
        rfl
      · rw [encoded_cons]
        exact closeOf_append (fun hmem => hc ((eq_toUInt8_iff (by decide) hmem).mp rfl)) _
    rw [hnext, Option.map_map]
    have hcomm : (fun i => i + 2) ∘ (fun i => i + (utf8EncodeChar c).length) =
        (fun i => i + (utf8EncodeChar c).length) ∘ fun i => i + 2 := by
      funext i
      simp only [Function.comp_apply]
      omega
    rw [hcomm, ← Option.map_map, ih, Option.map_map, Option.map_map]
    congr 1
    funext found
    simp only [Function.comp_apply, byteLength, encoded_cons, List.length_append]
    omega

end Close

/-! ## Cutting texts out of a source -/

section Slice

variable {source : String} {before text after : List Char}

/-- **The text between two places** of a source, when it starts and ends between characters. -/
lemma slice_eq (h : source.toList = before ++ text ++ after) {a b : Nat}
    (ha : a = byteLength before) (hb : b = byteLength (before ++ text)) (s : ByteCursor) :
    ByteReader.slice a b source s = .read (String.ofList text) s := by
  have hsource : source = String.ofList before ++ String.ofList text ++ String.ofList after := by
    rw [← String.ofList_append, ← String.ofList_append, ← h, String.ofList_toList]
  have hstarts : String.Pos.Raw.IsValid source ⟨a⟩ := by
    refine String.Pos.Raw.isValid_iff_exists_append.mpr
      ⟨String.ofList before, String.ofList text ++ String.ofList after, ?_, ?_⟩
    · rw [hsource, String.append_assoc]
    · rw [ha, ← utf8ByteSize_ofList]
      rfl
  have hends : String.Pos.Raw.IsValid source ⟨b⟩ := by
    refine String.Pos.Raw.isValid_iff_exists_append.mpr
      ⟨String.ofList before ++ String.ofList text, String.ofList after, hsource, ?_⟩
    rw [hb, ← utf8ByteSize_ofList, String.ofList_append]
    rfl
  have hle : a ≤ b := by
    rw [ha, hb, byteLength_append]
    exact Nat.le_add_right _ _
  rw [ByteReader.slice, dif_pos ⟨hstarts, hends, hle⟩]
  congr 1
  rw [← String.toByteArray_inj, String.toByteArray_extract]
  -- The bytes of the text stand behind those of the text before.
  have hbytes : source.toByteArray = (String.ofList before).toByteArray ++
      ((String.ofList text).toByteArray ++ (String.ofList after).toByteArray) := by
    rw [hsource, String.toByteArray_append, String.toByteArray_append, ByteArray.append_assoc]
  have hstart : a = (String.ofList before).toByteArray.size + 0 := by
    rw [ha, String.size_toByteArray, utf8ByteSize_ofList, Nat.add_zero]
  have hend : b = (String.ofList before).toByteArray.size + byteLength text := by
    rw [hb, String.size_toByteArray, utf8ByteSize_ofList, byteLength_append]
  show source.toByteArray.extract a b = _
  rw [hbytes, hstart, hend, ByteArray.extract_append_size_add]
  refine ByteArray.extract_append_eq_left ?_
  rw [String.size_toByteArray, utf8ByteSize_ofList]

end Slice

end LoxLang
