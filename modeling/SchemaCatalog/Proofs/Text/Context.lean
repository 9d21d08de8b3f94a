import SchemaCatalog.Proofs.Text.AsciiCase

/-!
What the lowercase form of a text owes to what stands around it. A capital sigma alone looks around,
for cased characters, and passes over those that are ignored. It does not look at the case of what
it meets, so writing ASCII letters in another case does not show in the lowercase form. What stands
before a text shows in one place at most: at a sigma that has nothing cased beside it in the text.
-/

namespace SchemaCatalog.Text

def isIgnorable : Char → Bool :=
  inRanges caseIgnorableRanges

def isCased : Char → Bool :=
  inRanges casedRanges

theorem meetsCased_cons (c : Char) (text : List Char) :
    meetsCased (c :: text) = if isIgnorable c then meetsCased text else isCased c := by
  unfold meetsCased isIgnorable isCased
  rw [List.dropWhile_cons]
  by_cases ignorable : inRanges caseIgnorableRanges c <;> simp [ignorable]

/-! ### Other cases of ASCII letters -/

theorem letters_cased : (0x41, 0x5A) ∈ casedRanges ∧ (0x61, 0x7A) ∈ casedRanges := by
  decide +kernel

theorem letters_firm : caseIgnorableRanges.all (fun r =>
    (r.2 < 0x41 || 0x5A < r.1) && (r.2 < 0x61 || 0x7A < r.1)) := by
  decide +kernel

theorem classes_of_letter {c : Char} (letter : 0x41 ≤ c.toNat ∧ c.toNat ≤ 0x5A ∨
    0x61 ≤ c.toNat ∧ c.toNat ≤ 0x7A) : isCased c = true ∧ isIgnorable c = false := by
  constructor
  · rw [isCased, inRanges_iff]
    rcases letter with capital | small
    · exact ⟨_, letters_cased.1, capital⟩
    · exact ⟨_, letters_cased.2, small⟩
  · rw [isIgnorable, ← Bool.not_eq_true, inRanges_iff]
    rintro ⟨r, mem, low, high⟩
    have firm := List.all_eq_true.mp letters_firm r mem
    simp only [Bool.and_eq_true, Bool.or_eq_true, decide_eq_true_eq] at firm
    omega

theorem toLower_capital : ∀ c : Char, c.toNat < 0x80 → 0x41 ≤ c.toNat → c.toNat ≤ 0x5A →
    0x61 ≤ c.toLower.toNat ∧ c.toLower.toNat ≤ 0x7A :=
  forall_ascii (by decide)

theorem classes_toLower (c : Char) :
    isCased c.toLower = isCased c ∧ isIgnorable c.toLower = isIgnorable c := by
  by_cases capital : 0x41 ≤ c.toNat ∧ c.toNat ≤ 0x5A
  · have small := toLower_capital c (by omega) capital.1 capital.2
    obtain ⟨cased, firm⟩ := classes_of_letter (.inl capital)
    obtain ⟨cased', firm'⟩ := classes_of_letter (.inr small)
    exact ⟨cased'.trans cased.symm, firm'.trans firm.symm⟩
  · rw [toLower_of_not_capital capital]
    exact ⟨rfl, rfl⟩

theorem meetsCased_map_toLower (text : List Char) :
    meetsCased (text.map Char.toLower) = meetsCased text := by
  induction text with
  | nil => rfl
  | cons c text ih =>
      obtain ⟨cased, ignorable⟩ := classes_toLower c
      rw [List.map_cons, meetsCased_cons, meetsCased_cons, cased, ignorable, ih]

theorem lowerChar_toLower (c : Char) : lowerChar c.toLower = lowerChar c := by
  by_cases ascii : c.toNat < 0x80
  · obtain ⟨still, small⟩ := toLower_ascii c ascii
    rw [((Settled.ascii_iff still).mpr small).lowerChar_eq, lowerChar, if_pos ascii]
  · rw [toLower_of_not_ascii ascii]

theorem toLower_eq_sigma_iff {c : Char} : c.toLower = 'Σ' ↔ c = 'Σ' := by
  by_cases ascii : c.toNat < 0x80
  · have still := (toLower_ascii c ascii).1
    have far : ¬ 'Σ'.toNat < 0x80 := by decide
    refine iff_of_false ?_ ?_ <;> rintro heq
    · exact far (heq ▸ still)
    · exact far (heq ▸ ascii)
  · rw [toLower_of_not_ascii ascii]

theorem lowerAfter_map_toLower (before text : List Char) :
    lowerAfter (before.map Char.toLower) (text.map Char.toLower) = lowerAfter before text := by
  induction text generalizing before with
  | nil => rfl
  | cons c rest ih =>
      rw [List.map_cons, lowerAfter, lowerAfter, meetsCased_map_toLower, meetsCased_map_toLower,
        lowerChar_toLower, ← List.map_cons, ih]
      simp only [toLower_eq_sigma_iff]

theorem lowercase_eq_of_sameAsciiCase {a b : String} (h : sameAsciiCase a b) :
    lowercase a = lowercase b := by
  have folded : a.toList.map Char.toLower = b.toList.map Char.toLower := sameAsciiCase_iff.mp h
  rw [lowercase, lowercase, ← lowerAfter_map_toLower [] a.toList, folded, lowerAfter_map_toLower]

/-! ### What stands around a text -/

/-- Lowercases a part of a text. What stands before it comes last character first. -/
def lowerBetween (before after : List Char) : List Char → List Char
  | [] => []
  | c :: rest =>
    (if c = 'Σ' then [if meetsCased before && !meetsCased (rest ++ after) then 'ς' else 'σ']
      else lowerChar c) ++ lowerBetween (c :: before) after rest

theorem lowerAfter_eq_lowerBetween (before text : List Char) :
    lowerAfter before text = lowerBetween before [] text := by
  induction text generalizing before with
  | nil => rfl
  | cons c rest ih => rw [lowerAfter, lowerBetween, ih, List.append_nil]

theorem lowercase_eq_lowerBetween (s : String) :
    (lowercase s).toList = lowerBetween [] [] s.toList := by
  rw [lowercase, String.toList_ofList, lowerAfter_eq_lowerBetween]

theorem lowerBetween_append (before after left right : List Char) :
    lowerBetween before after (left ++ right) =
      lowerBetween before (right ++ after) left ++
        lowerBetween (left.reverse ++ before) after right := by
  induction left generalizing before with
  | nil => rfl
  | cons c left ih =>
      rw [List.cons_append, lowerBetween, lowerBetween, ih, List.reverse_cons, List.append_assoc,
        List.append_assoc, List.append_assoc]
      rfl

theorem Settled.lowerBetween_eq {before after text : List Char} (h : ∀ c ∈ text, Settled c) :
    lowerBetween before after text = text := by
  induction text generalizing before with
  | nil => rfl
  | cons c rest ih =>
      have settled := h c List.mem_cons_self
      have plain : c ≠ 'Σ' := fun heq => sigma.2.2 (heq ▸ settled)
      rw [lowerBetween, if_neg plain, settled.lowerChar_eq,
        ih fun d mem => h d (List.mem_cons_of_mem c mem)]
      rfl

theorem lowerBetween_wrapped {left right : List Char} (hleft : ∀ c ∈ left, Settled c)
    (hright : ∀ c ∈ right, Settled c) (before after text : List Char) :
    lowerBetween before after (left ++ text ++ right) =
      left ++ lowerBetween (left.reverse ++ before) (right ++ after) text ++ right := by
  rw [lowerBetween_append, lowerBetween_append, Settled.lowerBetween_eq hleft,
    Settled.lowerBetween_eq hright]

theorem lowerBetween_ne_nil {before after text : List Char} (h : text ≠ []) :
    lowerBetween before after text ≠ [] := by
  cases text with
  | nil => exact absurd rfl h
  | cons c rest =>
      rw [lowerBetween]
      split
      · exact List.cons_ne_nil _ _
      · have shown : lowerChar c ≠ [] := by
          unfold lowerChar
          split
          · exact List.cons_ne_nil _ _
          · split
            · exact List.cons_ne_nil _ _
            · split <;> exact List.cons_ne_nil _ _
        exact fun empty => shown (List.append_eq_nil_iff.mp empty).1

theorem meetsCased_append (text after : List Char) : meetsCased (text ++ after) =
    if text.all isIgnorable then meetsCased after else meetsCased text := by
  induction text with
  | nil => rfl
  | cons c text ih =>
      rw [List.cons_append, meetsCased_cons, meetsCased_cons, ih, List.all_cons]
      cases isIgnorable c <;> simp

theorem meetsCased_of_ignorable {text : List Char} (h : text.all isIgnorable) :
    meetsCased text = false := by
  have same := meetsCased_append text []
  rwa [List.append_nil, if_pos h] at same

/-- Where nothing cased follows, what follows does not show. -/
theorem meetsCased_append_of_uncased (text : List Char) {after : List Char}
    (h : meetsCased after = false) : meetsCased (text ++ after) = meetsCased text := by
  rw [meetsCased_append]
  split
  · rename_i passed
    rw [h, meetsCased_of_ignorable passed]
  · rfl

/-- The first character that is not passed over is a capital sigma with nothing cased after it. -/
def opensWithLoneSigma : List Char → Bool
  | [] => false
  | c :: rest =>
    if isIgnorable c then opensWithLoneSigma rest else c == 'Σ' && !meetsCased rest

/-- As long as only ignorable characters have been read, a sigma still looks past them. -/
theorem lowerBetween_append_eq_iff {before after : List Char} (h : meetsCased after = false)
    (passed text : List Char) :
    lowerBetween (passed ++ before) after text = lowerAfter passed text ↔
      ¬ (passed.all isIgnorable ∧ meetsCased before ∧ opensWithLoneSigma text) := by
  induction text generalizing passed with
  | nil => simp [lowerBetween, lowerAfter, opensWithLoneSigma]
  | cons c rest ih =>
      have rest_iff := ih (c :: passed)
      rw [List.cons_append, List.all_cons] at rest_iff
      by_cases sigma : c = 'Σ'
      · subst sigma
        have firm : isIgnorable 'Σ' = false := by decide +kernel
        have same_rest : lowerBetween ('Σ' :: (passed ++ before)) after rest =
            lowerAfter ('Σ' :: passed) rest := rest_iff.mpr (by simp [firm])
        have forms : 'ς' ≠ 'σ' := by decide
        rw [lowerBetween, lowerAfter, if_pos rfl, if_pos rfl, same_rest, List.append_cancel_right_eq,
          meetsCased_append_of_uncased rest h, meetsCased_append, opensWithLoneSigma, firm]
        by_cases ignored : passed.all isIgnorable
        · rw [meetsCased_of_ignorable ignored, if_pos ignored]
          cases meetsCased before <;> cases meetsCased rest <;> simp [ignored, forms]
        · simp [ignored]
      · rw [lowerBetween, lowerAfter, if_neg sigma, if_neg sigma, List.append_cancel_left_eq,
          rest_iff, opensWithLoneSigma]
        by_cases ignorable : isIgnorable c <;> simp [ignorable, sigma]

/-- What stands before a text shows in its lowercase form exactly when there is something cased and
the text opens with a lone sigma. -/
theorem lowerBetween_eq_iff {before after text : List Char} (h : meetsCased after = false) :
    lowerBetween before after text = lowerAfter [] text ↔
      ¬ (meetsCased before ∧ opensWithLoneSigma text) := by
  simpa using lowerBetween_append_eq_iff h [] text

/-! ### Characters below the small letters -/

theorem lowerRuns_above : lowerRuns.all (0x60 < ·.image) := by
  decide +kernel

theorem toLower_low : ∀ c : Char, c.toNat < 0x80 → c.toLower.toNat ≤ 0x60 → c.toLower = c :=
  forall_ascii (by decide)

theorem eq_of_mem_lowerChar {c d : Char} (low : d.toNat ≤ 0x60) (h : d ∈ lowerChar c) : d = c := by
  unfold lowerChar at h
  split at h
  · rename_i ascii
    rw [List.mem_singleton.mp h] at low ⊢
    exact toLower_low c ascii low
  · split at h
    · have parts : ¬ 'i'.toNat ≤ 0x60 ∧ ¬ '\u0307'.toNat ≤ 0x60 := by decide
      rw [List.mem_cons, List.mem_singleton] at h
      rcases h with rfl | rfl
      · exact absurd low parts.1
      · exact absurd low parts.2
    · split at h
      · rename_i m found
        obtain ⟨run, mem, image⟩ := List.exists_of_findSome?_eq_some found
        have above := List.all_eq_true.mp lowerRuns_above run mem
        have inside := List.all_eq_true.mp lowerRuns_clear run mem
        simp only [Bool.and_eq_true, decide_eq_true_eq] at above inside
        have valid := CaseRun.isValidChar_of_inside inside.1.1 image
        obtain ⟨-, -, -, rfl⟩ := CaseRun.image?_eq_some_iff.mp image
        have code : d.toNat = run.image + (c.toNat - run.first) := by
          rw [List.mem_singleton.mp h, Char.ofNat, dif_pos valid]
          rfl
        omega
      · exact List.mem_singleton.mp h

/-- Lowercasing brings in no dot, no quote and nothing else that is below the small letters. -/
theorem mem_of_mem_lowerBetween {before after text : List Char} {d : Char} (low : d.toNat ≤ 0x60)
    (h : d ∈ lowerBetween before after text) : d ∈ text := by
  have forms : ¬ 'ς'.toNat ≤ 0x60 ∧ ¬ 'σ'.toNat ≤ 0x60 := by decide
  induction text generalizing before with
  | nil => exact h
  | cons c rest ih =>
      rw [lowerBetween] at h
      rcases List.mem_append.mp h with head | tail
      · split at head
        · split at head
          · exact absurd (List.mem_singleton.mp head ▸ low) forms.1
          · exact absurd (List.mem_singleton.mp head ▸ low) forms.2
        · exact List.mem_cons.mpr (.inl (eq_of_mem_lowerChar low head))
      · exact List.mem_cons_of_mem c (ih tail)

theorem mem_of_mem_lowercase {s : String} {d : Char} (low : d.toNat ≤ 0x60)
    (h : d ∈ (lowercase s).toList) : d ∈ s.toList := by
  rw [lowercase_eq_lowerBetween] at h
  exact mem_of_mem_lowerBetween low h

end SchemaCatalog.Text
