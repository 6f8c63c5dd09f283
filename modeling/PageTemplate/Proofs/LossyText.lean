import Mathlib
import PageTemplate.Text.Lossy
import PageTemplate.Text.Split

namespace PageTemplate.Text

/-! ### Text given back -/

theorem bytes_eq (s : String) : bytes s = s.toList.flatMap String.utf8EncodeChar := by
  rw [bytes, String.toUTF8, ← String.utf8Encode_toList, List.utf8Encode,
    List.toList_data_toByteArray]

theorem bytes_append (a b : String) : bytes (a ++ b) = bytes a ++ bytes b := by
  rw [bytes_eq, String.toList_append, List.flatMap_append, bytes_eq, bytes_eq]

theorem toNat_ofNat {byte : Nat} (h : byte < 0x100) : (UInt8.ofNat byte).toNat = byte := by
  rw [UInt8.toNat_ofNat', Nat.mod_eq_of_lt h]

theorem lossyChars_first {byte : Nat} (hbyte : byte < 0x100) (rest : List UInt8) :
    lossyChars none (UInt8.ofNat byte :: rest) =
      (readFirst byte).chars fun begun => lossyChars begun rest := by
  rw [lossyChars, toNat_ofNat hbyte]

section

variable {value least most byte : Nat}

theorem lossyChars_last (hleast : 0x80 + least ≤ byte) (hmost : byte ≤ 0x80 + most)
    (hbyte : byte < 0x100) (rest : List UInt8) :
    lossyChars (some ⟨value, 1, least, most⟩) (UInt8.ofNat byte :: rest) =
      Char.ofNat (value * 64 + (byte - 0x80)) :: lossyChars none rest := by
  have hread : Begun.readNext ⟨value, 1, least, most⟩ byte =
      .char (Char.ofNat (value * 64 + (byte - 0x80))) := if_neg (by dsimp only; omega)
  rw [lossyChars, toNat_ofNat hbyte, hread]
  rfl

theorem lossyChars_inner (missing : Nat) (hleast : 0x80 + least ≤ byte)
    (hmost : byte ≤ 0x80 + most) (hbyte : byte < 0x100) (rest : List UInt8) :
    lossyChars (some ⟨value, missing + 2, least, most⟩) (UInt8.ofNat byte :: rest) =
      lossyChars (some ⟨value * 64 + (byte - 0x80), missing + 1, 0, 63⟩) rest := by
  have hread : Begun.readNext ⟨value, missing + 2, least, most⟩ byte =
      .part ⟨value * 64 + (byte - 0x80), missing + 1, 0, 63⟩ :=
    (if_neg (by dsimp only; omega)).trans (if_neg (by dsimp only; omega))
  rw [lossyChars, toNat_ofNat hbyte, hread]
  rfl

end

/-- Two bytes that make up a character. -/
theorem lossyChars_two {a b : Nat} (ha : 0xC2 ≤ a) (ha' : a < 0xE0) (hb : 0x80 ≤ b)
    (hb' : b ≤ 0xBF) (rest : List UInt8) :
    lossyChars none (UInt8.ofNat a :: UInt8.ofNat b :: rest) =
      Char.ofNat ((a - 0xC0) * 64 + (b - 0x80)) :: lossyChars none rest := by
  rw [lossyChars_first (by omega), readFirst, if_neg (by omega), if_neg (by omega), if_pos ha',
    Decoded.chars, lossyChars_last hb hb' (by omega)]

/-- Three bytes that make up a character. The second one is bounded so that the number is no
surrogate and needs three bytes. -/
theorem lossyChars_three {a b c : Nat} (ha : 0xE0 ≤ a) (ha' : a < 0xF0)
    (hb : 0x80 + (if a = 0xE0 then 32 else 0) ≤ b) (hb' : b ≤ 0x80 + if a = 0xED then 31 else 63)
    (hc : 0x80 ≤ c) (hc' : c ≤ 0xBF) (rest : List UInt8) :
    lossyChars none (UInt8.ofNat a :: UInt8.ofNat b :: UInt8.ofNat c :: rest) =
      Char.ofNat (((a - 0xE0) * 64 + (b - 0x80)) * 64 + (c - 0x80)) :: lossyChars none rest := by
  have hbyte : b < 0x100 := by split at hb' <;> omega
  rw [lossyChars_first (by omega), readFirst, if_neg (by omega), if_neg (by omega),
    if_neg (by omega), if_pos ha', Decoded.chars, lossyChars_inner 0 hb hb' hbyte,
    lossyChars_last hc hc' (by omega)]

/-- Four bytes that make up a character, within the numbers that characters have. -/
theorem lossyChars_four {a b c d : Nat} (ha : 0xF0 ≤ a) (ha' : a < 0xF5)
    (hb : 0x80 + (if a = 0xF0 then 16 else 0) ≤ b) (hb' : b ≤ 0x80 + if a = 0xF4 then 15 else 63)
    (hc : 0x80 ≤ c) (hc' : c ≤ 0xBF) (hd : 0x80 ≤ d) (hd' : d ≤ 0xBF) (rest : List UInt8) :
    lossyChars none (UInt8.ofNat a :: UInt8.ofNat b :: UInt8.ofNat c :: UInt8.ofNat d :: rest) =
      Char.ofNat ((((a - 0xF0) * 64 + (b - 0x80)) * 64 + (c - 0x80)) * 64 + (d - 0x80)) ::
        lossyChars none rest := by
  have hbyte : b < 0x100 := by split at hb' <;> omega
  rw [lossyChars_first (by omega), readFirst, if_neg (by omega), if_neg (by omega),
    if_neg (by omega), if_neg (by omega), if_pos ha', Decoded.chars,
    lossyChars_inner 1 hb hb' hbyte, lossyChars_inner 0 hc hc' (by omega),
    lossyChars_last hd hd' (by omega)]

/-- The bytes of a character are read as the character. -/
theorem lossyChars_utf8 (c : Char) (rest : List UInt8) :
    lossyChars none (String.utf8EncodeChar c ++ rest) = c :: lossyChars none rest := by
  have hvalid : c.val.toNat < 0xD800 ∨ 0xDFFF < c.val.toNat ∧ c.val.toNat < 0x110000 := c.valid
  have hchar : Char.ofNat c.val.toNat = c := Char.ofNat_toNat c
  rw [String.utf8EncodeChar]
  generalize c.val.toNat = v at hvalid hchar
  -- by the length of the encoding; the digits of the character are put together again
  split
  · next h =>
    rw [List.singleton_append, lossyChars_first (by omega), readFirst, if_pos (by omega),
      Decoded.chars, hchar]
  split
  · next h =>
    have hvalue : (v / 64 % 32 + 192 - 0xC0) * 64 + (v % 64 + 128 - 0x80) = v := by omega
    refine (lossyChars_two (by omega) (by omega) (by omega) (by omega) rest).trans ?_
    rw [hvalue, hchar]
  split
  · next h =>
    have hvalue : ((v / 4096 % 16 + 224 - 0xE0) * 64 + (v / 64 % 64 + 128 - 0x80)) * 64 +
        (v % 64 + 128 - 0x80) = v := by omega
    refine (lossyChars_three (by omega) (by omega) (by split <;> omega) (by split <;> omega)
      (by omega) (by omega) rest).trans ?_
    rw [hvalue, hchar]
  · next h =>
    have hvalue : (((v / 262144 % 8 + 240 - 0xF0) * 64 + (v / 4096 % 64 + 128 - 0x80)) * 64 +
        (v / 64 % 64 + 128 - 0x80)) * 64 + (v % 64 + 128 - 0x80) = v := by omega
    refine (lossyChars_four (by omega) (by omega) (by split <;> omega) (by split <;> omega)
      (by omega) (by omega) (by omega) (by omega) rest).trans ?_
    rw [hvalue, hchar]

/-- By induction on the characters: each is read from its own bytes. -/
theorem lossyChars_flatMap (cs : List Char) :
    lossyChars none (cs.flatMap String.utf8EncodeChar) = cs := by
  induction cs with
  | nil => rfl
  | cons c cs ih => rw [List.flatMap_cons, lossyChars_utf8, ih]

/-- The bytes of a text are read as the text. -/
@[simp] theorem lossy_bytes (s : String) : lossy (bytes s) = s := by
  rw [lossy, bytes_eq, lossyChars_flatMap, String.ofList_toList]

/-- Different texts have different bytes, as reading gives the text back. -/
theorem bytes_injective : Function.Injective bytes := fun a b h => by
  rw [← lossy_bytes a, h, lossy_bytes]

example : lossy [0x61, 0xE2, 0x82, 0xAC, 0xFF, 0xE2, 0x82, 0x62, 0xF0] =
    "a\u20AC\uFFFD\uFFFDb\uFFFD" := by
  decide +kernel

/-- Bytes that are the UTF-8 of a text. -/
def IsText (name : List UInt8) : Prop := bytes (lossy name) = name

instance (name : List UInt8) : Decidable (IsText name) :=
  inferInstanceAs (Decidable (bytes (lossy name) = name))

theorem isText_bytes (s : String) : IsText (bytes s) := congrArg bytes (lossy_bytes s)

/-! ### Bytes below 0x80 -/

theorem toNat_char (n : Nat) : (Char.ofNat n).toNat = if n.isValidChar then n else 0 := by
  unfold Char.ofNat
  split <;> rfl

theorem utf8EncodeChar_ofNat {byte : UInt8} (h : byte.toNat < 0x80) :
    String.utf8EncodeChar (Char.ofNat byte.toNat) = [byte] := by
  have hvalue : (Char.ofNat byte.toNat).val.toNat = byte.toNat :=
    (toNat_char _).trans (if_pos (.inl (by omega)))
  rw [String.utf8EncodeChar, hvalue]
  exact (if_pos (by omega)).trans (by rw [UInt8.ofNat_toNat])

theorem lossyChars_cons_ascii {byte : UInt8} (h : byte.toNat < 0x80) (rest : List UInt8) :
    lossyChars none (byte :: rest) = Char.ofNat byte.toNat :: lossyChars none rest := by
  rw [lossyChars, readFirst, if_pos h, Decoded.chars]

section

variable {begun : Begun} {byte : UInt8} {rest : List UInt8}

/-- A byte that does not go on with a beginning is read again. -/
theorem lossyChars_of_wrong (h : begun.readNext byte.toNat = .wrong) :
    lossyChars (some begun) (byte :: rest) = '\uFFFD' :: lossyChars none (byte :: rest) := by
  conv_lhs => rw [lossyChars, h]
  rfl

theorem lossyChars_of_char {c : Char} (h : begun.readNext byte.toNat = .char c) :
    lossyChars (some begun) (byte :: rest) = c :: lossyChars none rest := by
  rw [lossyChars, h]
  rfl

theorem lossyChars_of_part {further : Begun} (h : begun.readNext byte.toNat = .part further) :
    lossyChars (some begun) (byte :: rest) = lossyChars (some further) rest := by
  rw [lossyChars, h]
  rfl

end

/-- Such a byte ends whatever has begun in front of it. -/
theorem lossyChars_append_ascii {byte : UInt8} (h : byte.toNat < 0x80) (begun : Option Begun)
    (front rest : List UInt8) :
    lossyChars begun (front ++ byte :: rest) =
      lossyChars begun front ++ Char.ofNat byte.toNat :: lossyChars none rest := by
  induction front generalizing begun with
  | nil =>
    cases begun with
    | none => exact lossyChars_cons_ascii h rest
    | some begun =>
      -- the byte continues no character, so the one begun is given up before it
      have hread : begun.readNext byte.toNat = .wrong := if_pos (.inl (by omega))
      rw [List.nil_append, lossyChars_of_wrong hread, lossyChars_cons_ascii h]
      rfl
  | cons first front ih =>
    have hfirst : lossyChars none (first :: (front ++ byte :: rest)) =
        lossyChars none (first :: front) ++ Char.ofNat byte.toNat :: lossyChars none rest := by
      rw [lossyChars, lossyChars]
      cases readFirst first.toNat with
      | char c => exact congrArg (c :: ·) (ih none)
      | part begun => exact ih (some begun)
      | wrong => exact congrArg ('\uFFFD' :: ·) (ih none)
    cases begun with
    | none => exact hfirst
    | some begun =>
      rw [List.cons_append]
      cases hread : begun.readNext first.toNat with
      | wrong => rw [lossyChars_of_wrong hread, lossyChars_of_wrong hread, hfirst, List.cons_append]
      | char c => rw [lossyChars_of_char hread, lossyChars_of_char hread, ih, List.cons_append]
      | part further => rw [lossyChars_of_part hread, lossyChars_of_part hread, ih]

/-- A byte below 0x80 ends whatever has begun, so the bytes on its sides are read by themselves. -/
theorem lossy_append_ascii {byte : UInt8} (h : byte.toNat < 0x80) (front rest : List UInt8) :
    lossy (front ++ byte :: rest) =
      lossy front ++ String.singleton (Char.ofNat byte.toNat) ++ lossy rest := by
  apply String.toList_injective
  simp [lossy, lossyChars_append_ascii h]

def Begun.IsLong (begun : Begun) : Prop :=
  2 ≤ if begun.missing ≤ 1 then begun.value else begun.value * 64 + begun.least

theorem isLong_of_readFirst {byte : Nat} {begun : Begun} (h : readFirst byte = .part begun) :
    begun.IsLong := by
  unfold readFirst at h
  split at h
  · cases h
  split at h
  · cases h
  split at h
  · obtain rfl := Decoded.part.inj h
    change 2 ≤ byte - 0xC0
    omega
  split at h
  · obtain rfl := Decoded.part.inj h
    change 2 ≤ (byte - 0xE0) * 64 + if byte = 0xE0 then 32 else 0
    split <;> omega
  split at h
  · obtain rfl := Decoded.part.inj h
    change 2 ≤ (byte - 0xF0) * 64 + if byte = 0xF0 then 16 else 0
    split <;> omega
  · cases h

/-- A beginning stays one of a long character until there is the character. -/
theorem Begun.IsLong.readNext {begun : Begun} (h : begun.IsLong) {byte : Nat} :
    (∀ further, begun.readNext byte = .part further → further.IsLong) ∧
      ∀ c, begun.readNext byte = .char c → c.toNat = 0 ∨ 0x80 ≤ c.toNat := by
  unfold Begun.readNext
  unfold IsLong at h
  split
  · exact ⟨nofun, nofun⟩
  split
  · next hlast =>
    rw [if_pos hlast] at h
    refine ⟨nofun, fun c hc => ?_⟩
    obtain rfl := Decoded.char.inj hc
    rw [toNat_char]
    split
    · right
      omega
    · exact .inl rfl
  · next hlast =>
    rw [if_neg hlast] at h
    refine ⟨fun further hfurther => ?_, nofun⟩
    obtain rfl := Decoded.part.inj hfurther
    unfold IsLong
    dsimp only
    split <;> omega

/-- A beginning of a long character is read as one that is not below 0x80. -/
theorem exists_mem_lossyChars {begun : Begun} (h : begun.IsLong) (rest : List UInt8) :
    ∃ c ∈ lossyChars (some begun) rest, c.toNat = 0 ∨ 0x80 ≤ c.toNat := by
  induction rest generalizing begun with
  | nil => exact ⟨'\uFFFD', List.mem_singleton_self _, .inr (by decide)⟩
  | cons byte rest ih =>
    cases hread : begun.readNext byte.toNat with
    | wrong =>
      rw [lossyChars_of_wrong hread]
      exact ⟨'\uFFFD', List.mem_cons_self, .inr (by decide)⟩
    | char c =>
      rw [lossyChars_of_char hread]
      exact ⟨c, List.mem_cons_self, h.readNext.2 c hread⟩
    | part further =>
      rw [lossyChars_of_part hread]
      exact ih (h.readNext.1 further hread)

theorem toNat_of_readFirst {byte : UInt8} {c : Char} (h : readFirst byte.toNat = .char c) :
    c.toNat = byte.toNat := by
  unfold readFirst at h
  split at h
  · obtain rfl := Decoded.char.inj h
    exact (toNat_char _).trans (if_pos (.inl (by omega)))
  · repeat' split at h
    all_goals cases h

/-- Characters below 0x80 come of their own bytes. -/
theorem eq_of_lossyChars {cs : List Char} (hcs : ∀ c ∈ cs, 0 < c.toNat ∧ c.toNat < 0x80)
    {name : List UInt8} (h : lossyChars none name = cs) :
    name = cs.flatMap String.utf8EncodeChar := by
  induction name generalizing cs with
  | nil =>
    subst h
    rfl
  | cons byte rest ih =>
    rw [lossyChars] at h
    cases hread : readFirst byte.toNat with
    | wrong =>
      rw [hread] at h
      subst h
      exact absurd (hcs _ List.mem_cons_self).2 (by decide)
    | part begun =>
      rw [hread] at h
      subst h
      obtain ⟨c, hmem, hc⟩ := exists_mem_lossyChars (isLong_of_readFirst hread) rest
      have hsmall := hcs c hmem
      omega
    | char c =>
      rw [hread] at h
      subst h
      have hc := toNat_of_readFirst hread
      have hbyte : byte.toNat < 0x80 := hc ▸ (hcs c List.mem_cons_self).2
      rw [Decoded.chars, List.flatMap_cons, ← Char.ofNat_toNat c, hc, utf8EncodeChar_ofNat hbyte,
        ← ih (fun c hmem => hcs c (List.mem_cons_of_mem _ hmem)) rfl]
      rfl

/-- A character below 0x80 can only come from its own byte. -/
theorem mem_of_mem_lossyChars {c : Char} (hzero : 0 < c.toNat) (hsmall : c.toNat < 0x80)
    {name : List UInt8} {begun : Option Begun} (hlong : ∀ begun' ∈ begun, begun'.IsLong)
    (h : c ∈ lossyChars begun name) : UInt8.ofNat c.toNat ∈ name := by
  have hreplacement : c ≠ '\uFFFD' := fun heq => absurd (heq ▸ hsmall) (by decide)
  induction name generalizing begun with
  | nil =>
    cases begun with
    | none => cases h
    | some begun => exact absurd (List.mem_singleton.1 h) hreplacement
  | cons byte rest ih =>
    have hnone : ∀ begun' ∈ (none : Option Begun), begun'.IsLong := nofun
    -- at the start of a character, and again where a wrong byte begins a new one
    have hfirst (h : c ∈ lossyChars none (byte :: rest)) : UInt8.ofNat c.toNat ∈ byte :: rest := by
      rw [lossyChars] at h
      cases hread : readFirst byte.toNat with
      | wrong =>
        rw [hread] at h
        exact List.mem_cons_of_mem _ (ih hnone (List.mem_of_ne_of_mem hreplacement h))
      | part begun =>
        rw [hread] at h
        refine List.mem_cons_of_mem _ (ih ?_ h)
        rintro _ ⟨⟩
        exact isLong_of_readFirst hread
      | char other =>
        rw [hread] at h
        rcases List.mem_cons.1 h with rfl | hmem
        · rw [toNat_of_readFirst hread, UInt8.ofNat_toNat]
          exact List.mem_cons_self
        · exact List.mem_cons_of_mem _ (ih hnone hmem)
    cases begun with
    | none => exact hfirst h
    | some begun =>
      have hbegun := hlong begun rfl
      cases hread : begun.readNext byte.toNat with
      | wrong =>
        rw [lossyChars_of_wrong hread] at h
        exact hfirst (List.mem_of_ne_of_mem hreplacement h)
      | char other =>
        rw [lossyChars_of_char hread] at h
        rcases List.mem_cons.1 h with rfl | hmem
        · have hbounds := hbegun.readNext.2 c hread
          omega
        · exact List.mem_cons_of_mem _ (ih hnone hmem)
      | part further =>
        rw [lossyChars_of_part hread] at h
        refine List.mem_cons_of_mem _ (ih ?_ h)
        rintro _ ⟨⟩
        exact hbegun.readNext.1 further hread

/-- A byte below 0x80 belongs to a character of its own. -/
theorem mem_of_mem_bytes {byte : UInt8} (h : byte.toNat < 0x80) {s : String}
    (hmem : byte ∈ bytes s) : Char.ofNat byte.toNat ∈ s.toList := by
  obtain ⟨front, back, hsplit⟩ := List.append_of_mem hmem
  have hread := lossy_append_ascii h front back
  rw [← hsplit, lossy_bytes] at hread
  simp [hread]

theorem mem_of_mem_lossy {byte : UInt8} (hzero : 0 < byte.toNat) (h : byte.toNat < 0x80)
    {name : List UInt8} (hmem : Char.ofNat byte.toNat ∈ (lossy name).toList) : byte ∈ name := by
  have hvalue : (Char.ofNat byte.toNat).toNat = byte.toNat :=
    (toNat_char _).trans (if_pos (.inl (by omega)))
  rw [lossy, String.toList_ofList] at hmem
  have hbyte := mem_of_mem_lossyChars (by omega) (by omega) (by simp) hmem
  rwa [hvalue, UInt8.ofNat_toNat] at hbyte

/-- A text of characters below 0x80 is read off its own bytes only. -/
theorem eq_of_lossy {s : String} (hs : ∀ c ∈ s.toList, 0 < c.toNat ∧ c.toNat < 0x80)
    {name : List UInt8} (h : lossy name = s) : name = bytes s := by
  rw [bytes_eq]
  refine eq_of_lossyChars hs ?_
  rw [← h, lossy, String.toList_ofList]

/-! ### Pieces -/

theorem not_mem_of_mem_splitOn {α : Type} [BEq α] [LawfulBEq α] {separator : α}
    {piece cs : List α} (h : piece ∈ cs.splitOn separator) : separator ∉ piece := by
  induction cs generalizing piece with
  | nil =>
    rw [List.mem_singleton.1 h]
    exact List.not_mem_nil
  | cons c cs ih =>
    simp only [List.splitOn] at h ih
    rw [List.splitOnP_cons_eq_if_modifyHead] at h
    split at h
    · rcases List.mem_cons.1 h with rfl | h
      · exact List.not_mem_nil
      · exact ih h
    · next hc =>
      -- the character goes in front of the first piece
      cases hpieces : cs.splitOnP (· == separator) with
      | nil =>
        rw [hpieces] at h
        cases h
      | cons first rest =>
        rw [hpieces] at h ih
        rcases List.mem_cons.1 h with rfl | h
        · refine fun hmem => (List.mem_cons.1 hmem).elim (fun heq => ?_) (ih List.mem_cons_self)
          exact hc (beq_iff_eq.2 heq.symm)
        · exact ih (List.mem_cons_of_mem first h)

/-- The bytes of joined texts are the joined bytes. -/
theorem bytes_intercalate (separator : String) (words : List String) :
    bytes (separator.intercalate words) = (bytes separator).intercalate (words.map bytes) := by
  induction words with
  | nil => rfl
  | cons word words ih =>
    cases words with
    | nil => rw [String.intercalate_singleton, List.map_singleton, List.intercalate_singleton]
    | cons second rest =>
      rw [String.intercalate_cons_cons, bytes_append, bytes_append, ih, List.map_cons,
        List.map_cons, ← List.intercalate_cons_cons, List.map_cons]

/-- Pieces with the separator between them are the text that has been cut. -/
theorem intercalate_split (separator : Char) (s : String) :
    (String.singleton separator).intercalate (split separator s) = s := by
  apply String.toList_injective
  have hpieces : (split separator s).map String.toList = s.toList.splitOn separator := by
    rw [split, List.map_map]
    exact List.map_id'' (fun piece => String.toList_ofList) _
  rw [String.toList_intercalate, String.toList_singleton, hpieces, List.intercalate_splitOn]

theorem bytes_singleton {byte : UInt8} (h : byte.toNat < 0x80) :
    bytes (String.singleton (Char.ofNat byte.toNat)) = [byte] := by
  rw [bytes_eq, String.toList_singleton, List.flatMap_singleton, utf8EncodeChar_ofNat h]

/-- Where a text is cut at a character below 0x80, its bytes are cut at the byte. -/
theorem splitOn_bytes {byte : UInt8} (h : byte.toNat < 0x80) (s : String) :
    (bytes s).splitOn byte = (split (Char.ofNat byte.toNat) s).map bytes := by
  have hs := intercalate_split (Char.ofNat byte.toNat) s
  conv_lhs => rw [← hs, bytes_intercalate, bytes_singleton h]
  refine List.splitOn_intercalate byte ?_ ?_
  · intro piece hpiece hmem
    obtain ⟨word, hword, rfl⟩ := List.mem_map.1 hpiece
    obtain ⟨letters, hletters, rfl⟩ := List.mem_map.1 hword
    have hchar := mem_of_mem_bytes h hmem
    rw [String.toList_ofList] at hchar
    exact not_mem_of_mem_splitOn hletters hchar
  · exact mt List.map_eq_nil_iff.1 (mt List.map_eq_nil_iff.1 (List.splitOn_ne_nil _ _))

/-- Bytes are text if they are between all bytes of a kind below 0x80. -/
theorem isText_splitOn {byte : UInt8} (h : byte.toNat < 0x80) {name : List UInt8} :
    IsText name ↔ ∀ piece ∈ name.splitOn byte, IsText piece := by
  constructor
  · intro hname piece hpiece
    rw [← hname, splitOn_bytes h] at hpiece
    obtain ⟨word, -, rfl⟩ := List.mem_map.1 hpiece
    exact isText_bytes word
  · intro hpieces
    have hmap : ((name.splitOn byte).map lossy).map bytes = name.splitOn byte := by
      rw [List.map_map]
      exact (List.map_congr_left hpieces).trans (List.map_id _)
    have hname := bytes_intercalate (String.singleton (Char.ofNat byte.toNat))
      ((name.splitOn byte).map lossy)
    rw [hmap, bytes_singleton h, List.intercalate_splitOn] at hname
    exact hname ▸ isText_bytes _

/-- Cutting at a byte below 0x80 does not make text of what is none. -/
theorem isText_append_ascii {byte : UInt8} (h : byte.toNat < 0x80) {front back : List UInt8} :
    IsText (front ++ byte :: back) ↔ IsText front ∧ IsText back := by
  rw [isText_splitOn h, List.splitOn_append_cons_self, List.forall_mem_append, ← isText_splitOn h,
    ← isText_splitOn h]

end PageTemplate.Text
