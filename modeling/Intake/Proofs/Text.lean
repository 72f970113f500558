import Intake.Text.Blank
import Intake.Text.Search
import Intake.Text.Upper
import Mathlib.Data.List.DropRight

/-!
# Trimmed texts, upper case and parts of texts

- `IsBare`: there is no blank at either end of a text
- `isBare_trim`, `trim_eq_self`: trimming makes a text bare, and leaves a bare one as it is
- `Pads`, `exists_pads_iff`: what trimming leaves is what stands between blanks
- `raises_upper`: what the upper case of a character can be
- `Extends`, `map_flatMap_eq_iff`: an ASCII text is the upper case of the same texts, whatever the
  upper case of the characters is that are left as they are
- `intercalate_splitAt`, `not_mem_of_mem_splitAt`: the parts of a list are without the character at
  which it was cut, and make up the list
-/

namespace Intake.Text

/-! ## Trimming -/

/-- There is no blank at either end of a text. -/
structure IsBare (s : String) : Prop where
  head : ∀ c ∈ s.toList.head?, isBlank c = false
  last : ∀ c ∈ s.toList.getLast?, isBlank c = false

/-- What is left of a text is what is left when the blanks at either end are dropped. -/
private theorem toList_trim (s : String) :
    (trim s).toList = (s.toList.dropWhile isBlank).rdropWhile isBlank :=
  String.toList_ofList

/-- A text without the blanks at its ends begins and ends with none. -/
theorem isBare_trim (s : String) : IsBare (trim s) := by
  constructor
  · intro c hc
    rw [toList_trim] at hc
    obtain ⟨cs, hcs⟩ := List.head?_eq_some_iff.mp hc
    -- What is left begins as it did before its end was cut off.
    obtain ⟨rest, hrest⟩ := List.rdropWhile_prefix isBlank (s.toList.dropWhile isBlank)
    have hhead := List.head?_dropWhile_not isBlank s.toList
    rw [hcs] at hrest
    rw [← hrest] at hhead
    exact hhead
  · intro c hc
    rw [toList_trim] at hc
    obtain ⟨hne, rfl⟩ := List.mem_getLast?_eq_getLast hc
    exact Bool.eq_false_iff.mpr (List.rdropWhile_last_not isBlank _ hne)

/-- A text that begins and ends with no blank is left as it is. -/
theorem trim_eq_self {s : String} (h : IsBare s) : trim s = s := by
  rw [← String.toList_inj, toList_trim]
  -- Nothing to drop at the front, and nothing at the back.
  have hhead : s.toList.dropWhile isBlank = s.toList := by
    rw [List.dropWhile_eq_self_iff]
    intro hpos
    have hfirst : s.toList.head? = some s.toList[0] := by
      rw [List.head?_eq_getElem?, List.getElem?_eq_getElem hpos]
    exact Bool.eq_false_iff.mp (h.head _ hfirst)
  rw [hhead, List.rdropWhile_eq_self_iff]
  intro hne
  exact Bool.eq_false_iff.mp (h.last _ (List.getLast?_eq_some_getLast hne))

/-- A text has nothing but blanks around these characters. -/
def Pads (cs : List Char) (s : String) : Prop :=
  ∃ front back, s.toList = front ++ cs ++ back ∧ ∀ c ∈ front ++ back, isBlank c = true

/-- A text is its middle part between blanks. -/
private theorem pads_trim (s : String) : Pads (trim s).toList s := by
  refine ⟨s.toList.takeWhile isBlank, (s.toList.dropWhile isBlank).rtakeWhile isBlank, ?_, ?_⟩
  · rw [toList_trim, List.append_assoc, List.rdropWhile_append_rtakeWhile,
      List.takeWhile_append_dropWhile]
  · intro c hc
    -- What is cut off on either side is blank.
    rcases List.mem_append.mp hc with hc | hc
    · exact List.mem_takeWhile_imp hc
    · exact List.mem_rtakeWhile_imp hc

/-- What stands between blanks and has none in it is what is left of the text. -/
theorem Pads.toList_trim {cs : List Char} {s : String} (h : Pads cs s)
    (hcs : ∀ c ∈ cs, isBlank c = false) : (trim s).toList = cs := by
  obtain ⟨front, back, hs, hblank⟩ := h
  rw [List.forall_mem_append] at hblank
  rw [Text.toList_trim, hs, List.append_assoc, List.dropWhile_append_of_pos hblank.1]
  cases cs with
  | nil =>
    rw [List.nil_append, List.dropWhile_eq_nil_iff.mpr hblank.2]
    rfl
  | cons c cs =>
    have hc : ¬ isBlank c = true := Bool.eq_false_iff.mp (hcs c List.mem_cons_self)
    rw [List.cons_append, List.dropWhile_cons_of_neg hc, ← List.cons_append]
    -- The blanks at the end come first from the other side.
    have hback : (c :: cs ++ back).rdropWhile isBlank = (c :: cs).rdropWhile isBlank := by
      have hreverse : ∀ d ∈ back.reverse, isBlank d = true := fun d hd =>
        hblank.2 d (List.mem_reverse.mp hd)
      rw [List.rdropWhile, List.rdropWhile, List.reverse_append,
        List.dropWhile_append_of_pos hreverse]
    rw [hback, List.rdropWhile_eq_self_iff]
    intro hne
    exact Bool.eq_false_iff.mp (hcs _ (List.getLast_mem hne))

/-- What all blanks have all characters of a text have if those of its middle part have it. -/
theorem Pads.forall_mem_iff {cs : List Char} {s : String} {P : Char → Prop} (h : Pads cs s)
    (hP : ∀ c, isBlank c = true → P c) : (∀ c ∈ s.toList, P c) ↔ ∀ c ∈ cs, P c := by
  obtain ⟨front, back, hs, hblank⟩ := h
  rw [List.forall_mem_append] at hblank
  rw [hs, List.forall_mem_append, List.forall_mem_append]
  exact ⟨fun hall => hall.1.2, fun hcs =>
    ⟨⟨fun c hc => hP c (hblank.1 c hc), hcs⟩, fun c hc => hP c (hblank.2 c hc)⟩⟩

/-- Characters without a blank stand alone between blanks if they are what trimming leaves. -/
theorem exists_pads_iff {P : List Char → Prop} (hP : ∀ cs, P cs → ∀ c ∈ cs, isBlank c = false)
    (s : String) : (∃ cs, Pads cs s ∧ P cs) ↔ P (trim s).toList := by
  constructor
  · rintro ⟨cs, hpads, hcs⟩
    rwa [hpads.toList_trim (hP cs hcs)]
  · intro h
    exact ⟨_, pads_trim s, h⟩

/-! ## Upper case -/

/-- The capital letters of ASCII by their code numbers. -/
theorem isUpper_iff {c : Char} : c.isUpper = true ↔ 65 ≤ c.toNat ∧ c.toNat ≤ 90 :=
  decide_eq_true_iff

/-- The upper case of a character by its code number. -/
private theorem toNat_toUpper (c : Char) :
    c.toUpper.toNat = if 97 ≤ c.toNat ∧ c.toNat ≤ 122 then c.toNat - 32 else c.toNat := by
  unfold Char.toUpper
  split
  next h =>
    have hsmall : 97 ≤ c.val.toNat ∧ c.val.toNat ≤ 122 := h
    -- The shift is negative, so it wraps around the 32 bits once.
    have hshift : ('A'.val - 'a'.val).toNat = 4294967264 := by decide
    refine Eq.trans ?_ (if_pos h).symm
    change (c.val + ('A'.val - 'a'.val)).toNat = c.val.toNat - 32
    rw [UInt32.toNat_add]
    omega
  next h => exact (if_neg h).symm

/-- The lower case of a character by its code number. -/
theorem toNat_toLower (c : Char) :
    c.toLower.toNat = if 65 ≤ c.toNat ∧ c.toNat ≤ 90 then c.toNat + 32 else c.toNat := by
  unfold Char.toLower
  split
  next h =>
    have hcapital : 65 ≤ c.val.toNat ∧ c.val.toNat ≤ 90 := h
    -- The shift up stays below the end of the letters.
    have hshift : ('a'.val - 'A'.val).toNat = 32 := by decide
    refine Eq.trans ?_ (if_pos h).symm
    change (c.val + ('a'.val - 'A'.val)).toNat = c.val.toNat + 32
    rw [UInt32.toNat_add]
    omega
  next h => exact (if_neg h).symm

/-- What is no small letter is the upper case of itself, and of its small letter if it has one. -/
theorem toUpper_eq_iff {a c : Char} (ha : ¬ (97 ≤ a.toNat ∧ a.toNat ≤ 122)) :
    c.toUpper = a ↔ c = a ∨ c = a.toLower := by
  rw [← Char.toNat_inj, ← Char.toNat_inj, ← Char.toNat_inj, toNat_toUpper, toNat_toLower]
  split <;> split <;> omega

/-- The shapes that the upper case of a character has, as far as it is ASCII. -/
inductive Raises : Char → List Char → Prop
  | single (c : Char) : Raises c [c.toUpper]
  | dotlessI : Raises 'ı' ['I']
  | longS : Raises 'ſ' ['S']
  | sharpS : Raises 'ß' ['S', 'S']
  | ligature {c : Char} {us : List Char} (h : 'F' ∈ us ∨ 'T' ∈ us) : Raises c us

/-- The full upper case of a character is of one of the kinds that are told apart. -/
theorem raises_upper (c : Char) : Raises c (upper c) := by
  have heq : ∀ d : Char, c.toNat = d.toNat → c = d := fun _ => Char.toNat_inj.mp
  unfold upper
  -- Three letters are exceptions by name; then come the ligatures and all other characters.
  split
  next h => exact heq 'ß' h ▸ .sharpS
  next h => exact heq 'ı' h ▸ .dotlessI
  next h => exact heq 'ſ' h ▸ .longS
  case h_11 => exact .single c
  all_goals exact .ligature (by decide)

/-- A character of ASCII has one character as its full upper case. -/
theorem upper_of_isAscii {c : Char} (h : c.isAscii = true) : upper c = [c.toUpper] := by
  have hlt : c.toNat < 128 := of_decide_eq_true h
  unfold upper
  split
  case h_11 => rfl
  all_goals omega

/-- A full upper case mapping: where `upper` leaves a character outside ASCII as it is, the upper
    case holds a character outside ASCII. -/
def Extends (up : Char → List Char) : Prop :=
  ∀ c, up c = upper c ∨
    upper c = [c] ∧ c.isAscii = false ∧ ∃ d ∈ up c, d.isAscii = false

/-- An ASCII text is the upper case of the same texts under every full mapping, also if each
    character is changed afterwards by a function that keeps what is outside ASCII. -/
theorem map_flatMap_eq_iff {up : Char → List Char} (hup : Extends up) {f : Char → Char}
    (hf : ∀ c, c.isAscii = false → (f c).isAscii = false) {as : List Char}
    (has : ∀ a ∈ as, a.isAscii = true) (cs : List Char) :
    (cs.flatMap up).map f = as ↔ (upperAll cs).map f = as := by
  have hsame : (∀ c ∈ cs, up c = upper c) → cs.flatMap up = upperAll cs := by
    intro h
    rw [upperAll, List.flatMap_congr h]
  -- A character outside ASCII would show in the text.
  have hcontra : ∀ {us : List Char} {d : Char}, us.map f = as → d ∈ us → d.isAscii = false →
      False := by
    rintro us d rfl hd hascii
    exact absurd (has _ (List.mem_map_of_mem hd)) (Bool.eq_false_iff.mp (hf d hascii))
  constructor
  · intro h
    rw [← hsame]
    · exact h
    · intro c hc
      rcases hup c with heq | ⟨-, -, d, hd, hascii⟩
      · exact heq
      · exact (hcontra h (List.mem_flatMap.mpr ⟨c, hc, hd⟩) hascii).elim
  · intro h
    rw [hsame]
    · exact h
    · intro c hc
      rcases hup c with heq | ⟨hleft, hascii, -⟩
      · exact heq
      · have hmem : c ∈ upperAll cs :=
          List.mem_flatMap.mpr ⟨c, hc, hleft ▸ List.mem_singleton_self c⟩
        exact (hcontra h hmem hascii).elim

/-- A mapping may know the capital of an accented letter. -/
example : Extends fun c => if c = 'é' then ['É'] else upper c := by
  intro c
  dsimp only
  split
  next h => exact .inr (h ▸ ⟨by decide, by decide, 'É', List.mem_singleton_self _, by decide⟩)
  next => exact .inl rfl

/-! ## Cutting -/

/-- Splitting a list at a character is splitting it as the library does. -/
private theorem splitAt_eq_splitOn (sep : Char) (cs : List Char) :
    splitAt sep cs = cs.splitOn sep := by
  induction cs with
  | nil => rw [splitAt, List.splitOn_nil]
  | cons c cs ih =>
    rw [splitAt, List.splitOn_cons_eq_if_modifyHead, ih]
    simp only [beq_iff_eq]
    split
    · -- The first part grows by the letter.
      rfl
    · cases hparts : cs.splitOn sep with
      | nil => exact absurd hparts (List.splitOn_ne_nil _ _)
      | cons part parts => rfl

/-- The parts of a list between separators, joined by the separator, are the list. -/
theorem intercalate_splitAt (sep : Char) (cs : List Char) :
    [sep].intercalate (splitAt sep cs) = cs := by
  rw [splitAt_eq_splitOn, List.intercalate_splitOn]

/-- No part of a list that was split holds the separator. -/
theorem not_mem_of_mem_splitAt {sep : Char} {cs part : List Char} (h : part ∈ splitAt sep cs) :
    sep ∉ part := by
  induction cs generalizing part with
  | nil =>
    rw [splitAt, List.mem_singleton] at h
    exact h ▸ List.not_mem_nil
  | cons c cs ih =>
    rw [splitAt] at h
    split at h
    · rcases List.mem_cons.mp h with rfl | h
      · exact List.not_mem_nil
      · exact ih h
    -- A character that is no separator goes to the part that comes first.
    next hc =>
      split at h
      next hparts => exact absurd hparts (splitAt_ne_nil _ _)
      next first parts hparts =>
        rw [hparts] at ih
        rcases List.mem_cons.mp h with rfl | h
        · intro hmem
          rcases List.mem_cons.mp hmem with rfl | hmem
          · exact hc rfl
          · exact ih List.mem_cons_self hmem
        · exact ih (List.mem_cons_of_mem _ h)

end Intake.Text
