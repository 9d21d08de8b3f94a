import SchemaCatalog.Text.Lowercase

/-!
Lowercasing a second time changes nothing: the characters that lowercase forms are made of have no
other lowercase form, in whatever context they stand.
-/

namespace SchemaCatalog.Text

/-! ### Runs of the case table -/

namespace CaseRun

theorem image?_eq_some_iff {run : CaseRun} {n m : Nat} :
    run.image? n = some m ↔
      run.first ≤ n ∧ n ≤ run.last ∧ (n - run.first) % run.step = 0 ∧
        m = run.image + (n - run.first) := by
  simp only [image?, Bool.and_eq_true, decide_eq_true_eq, beq_iff_eq, Option.ite_none_right_eq_some,
    Option.some.injEq, and_assoc, eq_comm (b := m)]

/-- Every other number at most is in the run. -/
def sparse (run : CaseRun) : Bool :=
  run.step % 2 == 0 || run.first == run.last

theorem even_of_sparse {run : CaseRun} {n m : Nat} (sparse : run.sparse)
    (h : run.image? n = some m) : (n - run.first) % 2 = 0 := by
  obtain ⟨low, high, stepped, -⟩ := image?_eq_some_iff.mp h
  simp only [CaseRun.sparse, Bool.or_eq_true, beq_iff_eq] at sparse
  rcases sparse with even | single
  · have two_dvd : 2 ∣ n - run.first :=
      Nat.dvd_trans (Nat.dvd_of_mod_eq_zero even) (Nat.dvd_of_mod_eq_zero stepped)
    exact Nat.mod_eq_zero_of_dvd two_dvd
  · have hzero : n - run.first = 0 := by omega
    rw [hzero]

/-- The images of one run stay clear of another run: they lie beside it or between its numbers. -/
def clears (run other : CaseRun) : Bool :=
  run.image + (run.last - run.first) < other.first || other.last < run.image ||
    run.sparse && other.sparse && (run.image + other.first) % 2 == 1

theorem image?_of_clears {run other : CaseRun} {n m : Nat} (clears : run.clears other)
    (h : run.image? n = some m) : other.image? m = none := by
  rw [Option.eq_none_iff_forall_ne_some]
  intro k hk
  obtain ⟨low, high, -, rfl⟩ := image?_eq_some_iff.mp h
  obtain ⟨low', high', -, -⟩ := image?_eq_some_iff.mp hk
  simp only [CaseRun.clears, Bool.or_eq_true, Bool.and_eq_true, decide_eq_true_eq,
    beq_iff_eq] at clears
  rcases clears with (before | after) | ⟨⟨sparse, sparse'⟩, odd⟩
  · omega
  · omega
  · have even := even_of_sparse sparse h
    have even' := even_of_sparse sparse' hk
    omega

/-- The dotted capital I, which is not in the table, as a run of its own. -/
def dottedI : CaseRun := ⟨0x130, 0x130, 1, 0x130⟩

/-- All images are code points of characters. -/
def inside (run : CaseRun) : Bool :=
  run.image + (run.last - run.first) < 0xD800 ||
    0xDFFF < run.image && run.image + (run.last - run.first) < 0x110000

theorem isValidChar_of_inside {run : CaseRun} {n m : Nat} (inside : run.inside)
    (h : run.image? n = some m) : m.isValidChar := by
  obtain ⟨low, high, -, rfl⟩ := image?_eq_some_iff.mp h
  simp only [CaseRun.inside, Bool.or_eq_true, Bool.and_eq_true, decide_eq_true_eq] at inside
  simp only [Nat.isValidChar]
  omega

end CaseRun

theorem lowerRuns_clear :
    lowerRuns.all (fun run => run.inside && run.clears .dottedI && lowerRuns.all run.clears) := by
  decide +kernel

theorem lowerRuns_ascii :
    lowerRuns.all (fun run => run.first == 0x41 && run.last == 0x5A || 0x80 ≤ run.first) ∧
      ∀ n ≤ 0x5A, 0x41 ≤ n → lowerRuns.findSome? (·.image? n) ≠ none := by
  decide +kernel

/-! ### Characters -/

/-- A character that lowercasing leaves alone in every context. -/
def Settled (c : Char) : Prop :=
  lowerRuns.findSome? (·.image? c.toNat) = none ∧ c.toNat ≠ 0x130
deriving Decidable

/-- What holds of all ASCII characters is found out one by one. -/
theorem forall_ascii {P : Char → Prop} (h : ∀ n < 0x80, P (Char.ofNat n)) (c : Char)
    (ascii : c.toNat < 0x80) : P c := by
  have holds := h c.toNat ascii
  rwa [Char.ofNat_toNat] at holds

theorem toLower_of_not_capital {c : Char} (h : ¬ (0x41 ≤ c.toNat ∧ c.toNat ≤ 0x5A)) :
    c.toLower = c := by
  unfold Char.toLower
  split
  · rename_i capital
    have code : c.val.toNat = c.toNat := rfl
    simp only [ge_iff_le, UInt32.le_iff_toNat_le] at capital
    simp at capital
    omega
  · rfl

theorem toLower_ascii : ∀ c : Char, c.toNat < 0x80 →
    c.toLower.toNat < 0x80 ∧ ¬ (0x41 ≤ c.toLower.toNat ∧ c.toLower.toNat ≤ 0x5A) :=
  forall_ascii (by decide)

namespace Settled

theorem sigma : Settled 'σ' ∧ Settled 'ς' ∧ ¬ Settled 'Σ' := by
  decide +kernel

theorem ascii_iff {c : Char} (ascii : c.toNat < 0x80) :
    Settled c ↔ ¬ (0x41 ≤ c.toNat ∧ c.toNat ≤ 0x5A) := by
  obtain ⟨runs, capitals⟩ := lowerRuns_ascii
  constructor
  · rintro ⟨hnone, -⟩ ⟨low, high⟩
    exact capitals c.toNat high low hnone
  · intro small
    refine ⟨List.findSome?_eq_none_iff.mpr fun run hmem => ?_, by omega⟩
    have hrun := List.all_eq_true.mp runs run hmem
    simp only [Bool.or_eq_true, Bool.and_eq_true, beq_iff_eq, decide_eq_true_eq] at hrun
    rw [Option.eq_none_iff_forall_ne_some]
    intro m himage
    obtain ⟨low, high, -⟩ := CaseRun.image?_eq_some_iff.mp himage
    omega

theorem lowerChar_eq {c : Char} (h : Settled c) : lowerChar c = [c] := by
  unfold lowerChar
  split
  · rename_i ascii
    rw [toLower_of_not_capital ((ascii_iff ascii).mp h)]
  · have hdotted : c ≠ '\u0130' := fun heq => h.2 (heq ▸ rfl)
    rw [if_neg hdotted, h.1]

theorem of_image {n m : Nat} (h : lowerRuns.findSome? (·.image? n) = some m) :
    Settled (Char.ofNat m) := by
  obtain ⟨run, hmem, himage⟩ := List.exists_of_findSome?_eq_some h
  have hrun := List.all_eq_true.mp lowerRuns_clear run hmem
  simp only [Bool.and_eq_true] at hrun
  obtain ⟨⟨inside, dotted⟩, clears⟩ := hrun
  have hm : (Char.ofNat m).toNat = m := by
    rw [Char.ofNat, dif_pos (CaseRun.isValidChar_of_inside inside himage)]
    rfl
  unfold Settled
  rw [hm]
  refine ⟨List.findSome?_eq_none_iff.mpr fun other hother =>
    CaseRun.image?_of_clears (List.all_eq_true.mp clears other hother) himage, ?_⟩
  rintro rfl
  exact absurd (CaseRun.image?_of_clears dotted himage) (by decide)

theorem of_mem_lowerChar {c d : Char} (h : d ∈ lowerChar c) : Settled d := by
  unfold lowerChar at h
  split at h
  · rename_i ascii
    obtain ⟨still, small⟩ := toLower_ascii c ascii
    exact List.mem_singleton.mp h ▸ (ascii_iff still).mpr small
  · split at h
    · have parts : Settled 'i' ∧ Settled '\u0307' := by decide +kernel
      rcases List.mem_cons.mp h with rfl | h
      · exact parts.1
      · exact List.mem_singleton.mp h ▸ parts.2
    · rename_i hdotted
      split at h
      · rename_i m himage
        exact List.mem_singleton.mp h ▸ of_image himage
      · rename_i hnone
        rw [List.mem_singleton.mp h]
        refine ⟨hnone, fun heq => hdotted ?_⟩
        rw [← Char.ofNat_toNat c, heq]

theorem of_mem_lowerAfter {before text : List Char} {d : Char} (h : d ∈ lowerAfter before text) :
    Settled d := by
  induction text generalizing before with
  | nil => cases h
  | cons c rest ih =>
      rw [lowerAfter] at h
      rcases List.mem_append.mp h with hhead | hrest
      · split at hhead
        · split at hhead
          · exact List.mem_singleton.mp hhead ▸ sigma.2.1
          · exact List.mem_singleton.mp hhead ▸ sigma.1
        · exact of_mem_lowerChar hhead
      · exact ih hrest

theorem lowerAfter_eq {before text : List Char} (h : ∀ c ∈ text, Settled c) :
    lowerAfter before text = text := by
  induction text generalizing before with
  | nil => rfl
  | cons c rest ih =>
      have hc := h c List.mem_cons_self
      have hsigma : c ≠ 'Σ' := by
        rintro rfl
        exact sigma.2.2 hc
      rw [lowerAfter, if_neg hsigma, hc.lowerChar_eq,
        ih fun d hd => h d (List.mem_cons_of_mem c hd)]
      rfl

end Settled

@[simp] theorem lowercase_lowercase (s : String) : lowercase (lowercase s) = lowercase s := by
  simp only [lowercase, String.toList_ofList]
  rw [Settled.lowerAfter_eq fun _ h => Settled.of_mem_lowerAfter h]

end SchemaCatalog.Text
