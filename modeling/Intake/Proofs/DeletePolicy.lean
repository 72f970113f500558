import Intake.DeletePolicy
import Intake.Proofs.Text

/-!
# The texts that name a policy

A text names a policy if it spells the name of the policy, with blanks around it or not.  A letter
may be small and an underscore may be a hyphen.  Upper case is not a matter of ASCII alone, so there
are three more characters in which a name can be spelled: the dotless i, the long s and the sharp s,
which stands for two letters.

- `Plain`, `ReadPlainly`: a text spells a name in ASCII, and is read so
- `Spelled`: a text spells a name
- `plain_iff`: the two differ in the three characters only
- `read_eq_ok_iff_flatMap`: no other mapping of the characters outside ASCII makes a difference
- `read_spelled`: a text is read as the policy whose name it spells, or refused as it is
-/

namespace Intake

namespace DeletePolicy

variable {a c : Char} {as cs : List Char} {p : DeletePolicy} {s : String}

/-- A character stands for one of a name: the same in either case, or a hyphen for an underscore. -/
def Stands (a c : Char) : Prop := c = a ∨ c = a.toLower ∨ a = '_' ∧ c = '-'

/-- A text spells the name of a policy in ASCII, between blanks. -/
def Plain (p : DeletePolicy) (s : String) : Prop :=
  ∃ cs, Text.Pads cs s ∧ List.Forall₂ Stands p.name.toList cs

/-- A text is read by the rule for ASCII. -/
structure ReadPlainly (s : String) : Prop where
  accepted : ∀ p, read s = .ok p ↔ Plain p s
  refused : (∀ p, ¬ Plain p s) → read s = .error ⟨s⟩
  again : ∀ p, read s = .ok p → read p.name = .ok p

/-- Characters spell a name. -/
inductive Spells : List Char → List Char → Prop
  | nil : Spells [] []
  | letter {a c : Char} {as cs : List Char} (h : Stands a c) (hrest : Spells as cs) :
    Spells (a :: as) (c :: cs)
  | dotlessI {as cs : List Char} (hrest : Spells as cs) : Spells ('I' :: as) ('ı' :: cs)
  | longS {as cs : List Char} (hrest : Spells as cs) : Spells ('S' :: as) ('ſ' :: cs)
  | sharpS {as cs : List Char} (hrest : Spells as cs) : Spells ('S' :: 'S' :: as) ('ß' :: cs)

/-- A text spells the name of a policy, between blanks. -/
def Spelled (p : DeletePolicy) (s : String) : Prop :=
  ∃ cs, Text.Pads cs s ∧ Spells p.name.toList cs

/-- The characters outside ASCII in which names can be spelled. -/
def foreign : List Char := ['ı', 'ſ', 'ß']

/-- The three characters outside ASCII whose upper case is spelled in ASCII letters. -/
theorem mem_foreign_iff : c ∈ foreign ↔ c = 'ı' ∨ c = 'ſ' ∨ c = 'ß' := by
  simp [foreign]

/-! ## The characters of a name -/

/-- Whether a character is one of which names are made. -/
def isNameChar (a : Char) : Bool := a.isUpper || a == '_'

/-- Characters of a name, without the letters of which every ligature in capitals has one. -/
structure Unligated (as : List Char) : Prop where
  chars : ∀ a ∈ as, isNameChar a = true
  no_f : 'F' ∉ as
  no_t : 'T' ∉ as

/-- No name of a policy has a letter that only a ligature brings. -/
private theorem unligated_name (p : DeletePolicy) : Unligated p.name.toList := by
  cases p <;> exact ⟨List.all_eq_true.mp (by decide), by decide, by decide⟩

/-- What is left of such a list when its first character is taken off is such a list. -/
private theorem Unligated.tail (h : Unligated (a :: as)) : Unligated as :=
  ⟨fun b hb => h.chars b (List.mem_cons_of_mem a hb), fun hf => h.no_f (List.mem_cons_of_mem a hf),
    fun ht => h.no_t (List.mem_cons_of_mem a ht)⟩

/-- The characters of a name by their code numbers. -/
private theorem toNat_of_isNameChar (h : isNameChar a = true) : 65 ≤ a.toNat ∧ a.toNat ≤ 95 := by
  rw [isNameChar, Bool.or_eq_true, beq_iff_eq, Text.isUpper_iff] at h
  rcases h with h | rfl
  · omega
  · decide

/-- What stands for a character of a name is between the hyphen and the last small letter. -/
theorem Stands.toNat (h : Stands a c) (ha : isNameChar a = true) :
    45 ≤ c.toNat ∧ c.toNat ≤ 122 := by
  have hrange := toNat_of_isNameChar ha
  -- It is the character itself, its lower case, or the hyphen for an underscore.
  rcases h with rfl | rfl | ⟨-, rfl⟩
  · omega
  · rw [Text.toNat_toLower]
    split <;> omega
  · decide

/-- What stands for a character of a name is in ASCII. -/
theorem Stands.isAscii (h : Stands a c) (ha : isNameChar a = true) : c.isAscii = true :=
  decide_eq_true (Nat.lt_of_le_of_lt (h.toNat ha).2 (by decide))

/-- What stands for a character of a name is none of the three. -/
private theorem Stands.not_foreign (h : Stands a c) (ha : isNameChar a = true) : c ∉ foreign := by
  intro hc
  have hascii := h.isAscii ha
  rcases mem_foreign_iff.mp hc with rfl | rfl | rfl <;> exact absurd hascii (by decide)

/-- What stands for a character of a name is no blank. -/
private theorem Stands.isBlank_eq_false (h : Stands a c) (ha : isNameChar a = true) :
    Text.isBlank c = false := by
  have hrange := h.toNat ha
  simp only [Text.isBlank, Bool.or_eq_false_iff, Bool.and_eq_false_iff, decide_eq_false_iff_not,
    beq_eq_false_iff_ne]
  omega

/-! ## Spelling -/

/-- No character by which a name is spelled is a blank. -/
private theorem Spells.isBlank_eq_false (h : Spells as cs) (has : ∀ a ∈ as, isNameChar a = true) :
    ∀ c ∈ cs, Text.isBlank c = false := by
  -- Letter by letter, as the spelling goes; none of the foreign letters is a blank either.
  induction h with
  | nil => exact List.forall_mem_nil _
  | letter h _ ih =>
    rw [List.forall_mem_cons] at has
    exact List.forall_mem_cons.mpr ⟨h.isBlank_eq_false has.1, ih has.2⟩
  | dotlessI _ ih | longS _ ih =>
    rw [List.forall_mem_cons] at has
    exact List.forall_mem_cons.mpr ⟨by decide, ih has.2⟩
  | sharpS _ ih =>
    rw [List.forall_mem_cons, List.forall_mem_cons] at has
    exact List.forall_mem_cons.mpr ⟨by decide, ih has.2.2⟩

/-- Spelling in ASCII is spelling without the characters outside it. -/
theorem forall₂_stands_iff (has : ∀ a ∈ as, isNameChar a = true) :
    List.Forall₂ Stands as cs ↔ Spells as cs ∧ ∀ c ∈ cs, c ∉ foreign := by
  constructor
  · intro h
    induction h with
    | nil => exact ⟨.nil, List.forall_mem_nil _⟩
    | cons h _ ih =>
      rw [List.forall_mem_cons] at has
      obtain ⟨hspells, hforeign⟩ := ih has.2
      exact ⟨.letter h hspells, List.forall_mem_cons.mpr ⟨h.not_foreign has.1, hforeign⟩⟩
  · rintro ⟨h, hforeign⟩
    induction h with
    | nil => exact .nil
    | letter h _ ih =>
      rw [List.forall_mem_cons] at has hforeign
      exact .cons h (ih has.2 hforeign.2)
    -- One of the three begins here.
    | dotlessI | longS | sharpS =>
      rw [List.forall_mem_cons] at hforeign
      exact absurd (by decide) hforeign.1

/-! ## Canonical names -/

/-- An underscore for a hyphen. -/
def underscored (c : Char) : Char := if c = '-' then '_' else c

/-- The canonical form of a text, character by character. -/
private theorem toList_canonical (s : String) :
    (canonical s).toList = (Text.upperAll (Text.trim s).toList).map underscored :=
  String.toList_ofList

/-- A character becomes one of a name in upper case if it stands for it. -/
theorem underscored_toUpper_eq_iff (ha : isNameChar a = true) :
    underscored c.toUpper = a ↔ Stands a c := by
  have hrange := toNat_of_isNameChar ha
  have hupper : c.toUpper = a ↔ c = a ∨ c = a.toLower := Text.toUpper_eq_iff (by omega)
  have hhyphen : c.toUpper = '-' ↔ c = '-' := by
    rw [Text.toUpper_eq_iff (by decide)]
    exact or_self_iff
  unfold underscored Stands
  rw [← or_assoc, ← hupper]
  split
  next hc =>
    -- No character of a name has a hyphen for its upper case.
    have hne : c.toUpper ≠ a := by
      rw [hc]
      rintro rfl
      exact absurd hrange (by decide)
    rw [or_iff_right hne, and_iff_left (hhyphen.mp hc)]
    exact eq_comm
  next hc => exact (or_iff_left fun h => hc (hhyphen.mpr h.2)).symm

/-- What a text raises to is spelled by it, if that could be a name. -/
private theorem spells_map_upperAll (has : Unligated ((Text.upperAll cs).map underscored)) :
    Spells ((Text.upperAll cs).map underscored) cs := by
  induction cs with
  | nil => exact .nil
  | cons c cs ih =>
    rw [Text.upperAll, List.flatMap_cons, List.map_append] at has ⊢
    have hraises := Text.raises_upper c
    generalize Text.upper c = us at has hraises ⊢
    cases hraises with
    | single =>
      have hc := (underscored_toUpper_eq_iff (has.chars _ List.mem_cons_self)).mp rfl
      exact .letter hc (ih has.tail)
    | dotlessI => exact .dotlessI (ih has.tail)
    | longS => exact .longS (ih has.tail)
    | sharpS => exact .sharpS (ih has.tail.tail)
    | ligature hletter =>
      -- A ligature brings a letter that no name has.
      rcases hletter with hf | ht
      · exact absurd (List.mem_append_left _ (List.mem_map_of_mem hf)) has.no_f
      · exact absurd (List.mem_append_left _ (List.mem_map_of_mem ht)) has.no_t

/-- What spells a name has it as its canonical form. -/
private theorem Spells.map_upperAll_eq (h : Spells as cs) (has : Unligated as) :
    (Text.upperAll cs).map underscored = as := by
  induction h with
  | nil => rfl
  | @letter a c as cs h _ ih =>
    have ha := has.chars a List.mem_cons_self
    -- A letter of ASCII raises to one letter, and that is the one of the name.
    have hc : (Text.upper c).map underscored = [a] := by
      rw [Text.upper_of_isAscii (h.isAscii ha), List.map_singleton,
        (underscored_toUpper_eq_iff ha).mpr h]
    rw [Text.upperAll, List.flatMap_cons, List.map_append, hc]
    exact congrArg (a :: ·) (ih has.tail)
  | dotlessI _ ih => exact congrArg ('I' :: ·) (ih has.tail)
  | longS _ ih => exact congrArg ('S' :: ·) (ih has.tail)
  | sharpS _ ih => exact congrArg ('S' :: 'S' :: ·) (ih has.tail.tail)

/-- A name is spelled by the characters that have it as their canonical form. -/
theorem map_upperAll_eq_iff (has : Unligated as) :
    (Text.upperAll cs).map underscored = as ↔ Spells as cs := by
  constructor
  · rintro rfl
    exact spells_map_upperAll has
  · exact fun h => h.map_upperAll_eq has

/-! ## Reading -/

/-- Each policy is found under its name alone. -/
theorem ofName?_eq_some_iff {n : String} : ofName? n = some p ↔ n = p.name := by
  constructor
  · intro h
    unfold ofName? at h
    have hname := List.find?_some h
    exact (of_decide_eq_true hname).symm
  · rintro rfl
    exact ofName?_name p

/-- A text is read as a policy if its canonical form is the name of the policy. -/
private theorem read_eq_ok_iff_canonical :
    read s = .ok p ↔ (canonical s).toList = p.name.toList := by
  rw [String.toList_inj, ← ofName?_eq_some_iff, read]
  cases ofName? (canonical s) <;> simp

/-- A text is read as a policy if it spells its name. -/
theorem read_eq_ok_iff : read s = .ok p ↔ Spelled p s := by
  have hname := unligated_name p
  rw [read_eq_ok_iff_canonical, toList_canonical, map_upperAll_eq_iff hname]
  exact (Text.exists_pads_iff (fun _ h => h.isBlank_eq_false hname.chars) s).symm

/-- A text that spells no name is refused as it is. -/
theorem read_eq_error_iff {e : UnknownPolicy} :
    read s = .error e ↔ e = ⟨s⟩ ∧ ∀ p, ¬ Spelled p s := by
  simp only [← read_eq_ok_iff]
  rw [read]
  cases ofName? (canonical s) <;> simp [eq_comm]

/-- The canonical form of a name may be taken under any full upper case mapping. -/
theorem read_eq_ok_iff_flatMap {up : Char → List Char} (hup : Text.Extends up) : read s = .ok p ↔
    ((Text.trim s).toList.flatMap up).map underscored = p.name.toList := by
  rw [read_eq_ok_iff_canonical, toList_canonical]
  -- Only an ASCII character is changed into an underscore, and names are in ASCII.
  refine (Text.map_flatMap_eq_iff hup (fun c hc => ?_) (fun a ha => ?_) _).symm
  · unfold underscored
    split
    next h => exact absurd hc (h ▸ by decide)
    next => exact hc
  · have hrange := toNat_of_isNameChar ((unligated_name p).chars a ha)
    exact decide_eq_true (by omega)

/-- A text spells a name in ASCII if it spells it without the characters outside ASCII. -/
theorem plain_iff : Plain p s ↔ Spelled p s ∧ ∀ c ∈ s.toList, c ∉ foreign := by
  have hchars := (unligated_name p).chars
  -- The foreign letters are no blanks, so they stand within the spelling, if at all.
  have hforeign : ∀ cs, Text.Pads cs s → ((∀ c ∈ s.toList, c ∉ foreign) ↔ ∀ c ∈ cs, c ∉ foreign) :=
    fun cs hpads => hpads.forall_mem_iff fun c hblank hc => by
      rcases mem_foreign_iff.mp hc with rfl | rfl | rfl <;> exact absurd hblank (by decide)
  constructor
  · rintro ⟨cs, hpads, h⟩
    obtain ⟨hspells, hcs⟩ := (forall₂_stands_iff hchars).mp h
    exact ⟨⟨cs, hpads, hspells⟩, (hforeign cs hpads).mpr hcs⟩
  · rintro ⟨⟨cs, hpads, hspells⟩, hs⟩
    exact ⟨cs, hpads, (forall₂_stands_iff hchars).mpr ⟨hspells, (hforeign cs hpads).mp hs⟩⟩

/-- The name of a policy is read as the policy. -/
private theorem read_name (p : DeletePolicy) : read p.name = .ok p := by
  cases p <;> decide

/-- A text is read by the rule for ASCII if it spells no name with a character outside ASCII. -/
theorem readPlainly_iff : ReadPlainly s ↔ ∀ p, Spelled p s → ∀ c ∈ s.toList, c ∉ foreign := by
  constructor
  · intro h p hspelled
    -- What is spelled is accepted, so it stands plainly.
    have hplain := (h.accepted p).mp (read_eq_ok_iff.mpr hspelled)
    exact (plain_iff.mp hplain).2
  · intro h
    -- Without foreign letters the two notions agree.
    have hplain : ∀ p, Spelled p s ↔ Plain p s := fun p =>
      ⟨fun hspelled => plain_iff.mpr ⟨hspelled, h p hspelled⟩, fun hp => (plain_iff.mp hp).1⟩
    constructor
    · exact fun p => read_eq_ok_iff.trans (hplain p)
    · exact fun hnone => read_eq_error_iff.mpr ⟨rfl, fun p hp => hnone p ((hplain p).mp hp)⟩
    · exact fun p _ => read_name p

/-- A text is read as the policy whose name it spells, and refused as it is if it spells none; the
    name of what was read is read as the same policy.  This is the rule for ASCII unless the text
    spells a name with one of the three characters outside ASCII. -/
theorem read_spelled (s : String) :
    (∀ p, read s = .ok p ↔ Spelled p s) ∧
      (∀ e, read s = .error e ↔ e = ⟨s⟩ ∧ ∀ p, ¬ Spelled p s) ∧
      (∀ p, read s = .ok p → read p.name = .ok p) ∧
      (ReadPlainly s ↔ ∀ p, Spelled p s → ∀ c ∈ s.toList, c ∉ foreign) :=
  ⟨fun _ => read_eq_ok_iff, fun _ => read_eq_error_iff, fun p _ => read_name p, readPlainly_iff⟩

/-- The sharp s stands for two letters of a name. -/
theorem not_readPlainly_sharpS :
    read "ON_SUCCEß" = .ok .onSuccess ∧ ¬ ReadPlainly "ON_SUCCEß" := by
  have hread : read "ON_SUCCEß" = .ok .onSuccess := by decide
  refine ⟨hread, fun h => ?_⟩
  have hplain := (h.accepted .onSuccess).mp hread
  exact (plain_iff.mp hplain).2 'ß' (by decide) (by decide)

end DeletePolicy

end Intake
