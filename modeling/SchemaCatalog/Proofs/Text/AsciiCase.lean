import SchemaCatalog.Proofs.Text.Lowercase
import SchemaCatalog.Text.AsciiCase

/-!
Two ways to disregard case. The full lowercase form is the one by which names are indexed; listings
and configurations are searched by a comparison that disregards the case of ASCII letters alone. A
text meets a lowercase form in that comparison exactly when it has this form and only its ASCII
letters change on the way.
-/

namespace SchemaCatalog.Text

/-! ### Lowercase forms -/

theorem lowercase_eq_self_iff {s : String} : lowercase s = s ↔ ∀ c ∈ s.toList, Settled c := by
  constructor
  · intro h c hc
    rw [← h, lowercase, String.toList_ofList] at hc
    exact Settled.of_mem_lowerAfter hc
  · intro h
    rw [lowercase, Settled.lowerAfter_eq h, String.ofList_toList]

/-! ### ASCII letters -/

theorem toLower_of_not_ascii {c : Char} (h : ¬ c.toNat < 0x80) : c.toLower = c :=
  toLower_of_not_capital (by omega)

theorem Settled.toLower_eq {c : Char} (h : Settled c) : c.toLower = c := by
  by_cases ascii : c.toNat < 0x80
  · exact toLower_of_not_capital ((ascii_iff ascii).mp h)
  · exact toLower_of_not_ascii ascii

theorem asciiFold_of_lowercase {s : String} (h : lowercase s = s) : asciiFold s = s.toList := by
  rw [asciiFold, List.map_congr_left fun c hc => (lowercase_eq_self_iff.mp h c hc).toLower_eq,
    List.map_id']

/-- A text of which lowercasing changes ASCII letters alone. -/
def AsciiCased (s : String) : Prop :=
  ∀ c ∈ s.toList, c.toNat < 0x80 ∨ Settled c

instance : DecidablePred AsciiCased := fun s =>
  List.decidableBAll (fun c : Char => c.toNat < 0x80 ∨ Settled c) s.toList

theorem lowerAfter_of_asciiCased {before text : List Char}
    (h : ∀ c ∈ text, c.toNat < 0x80 ∨ Settled c) :
    lowerAfter before text = text.map Char.toLower := by
  induction text generalizing before with
  | nil => rfl
  | cons c rest ih =>
      have hc := h c List.mem_cons_self
      have hsigma : c ≠ 'Σ' := by
        rintro rfl
        exact hc.elim (by decide) Settled.sigma.2.2
      have hlower : lowerChar c = [c.toLower] := by
        by_cases ascii : c.toNat < 0x80
        · rw [lowerChar, if_pos ascii]
        · have settled := hc.resolve_left ascii
          rw [settled.lowerChar_eq, settled.toLower_eq]
      rw [lowerAfter, if_neg hsigma, hlower, ih fun d hd => h d (List.mem_cons_of_mem c hd)]
      rfl

/-- What is not ASCII is still there when the ASCII letters have been folded. -/
theorem asciiCased_of_fold {s : String} (h : ∀ c ∈ asciiFold s, Settled c) : AsciiCased s := by
  intro c hc
  by_cases ascii : c.toNat < 0x80
  · exact .inl ascii
  · refine .inr (h c ?_)
    rw [asciiFold, List.mem_map]
    exact ⟨c, hc, toLower_of_not_ascii ascii⟩

theorem asciiFold_of_asciiCased {s : String} (h : AsciiCased s) :
    asciiFold s = (lowercase s).toList := by
  rw [lowercase, String.toList_ofList, lowerAfter_of_asciiCased h, asciiFold]

/-- A text meets a lowercase form when it has this form and nothing but its ASCII letters stands in
the way. -/
theorem sameAsciiCase_iff_lowercase_eq {s name : String} (lower : lowercase name = name) :
    sameAsciiCase s name ↔ lowercase s = name ∧ AsciiCased s := by
  rw [sameAsciiCase_iff, asciiFold_of_lowercase lower]
  constructor
  · intro same
    have cased : AsciiCased s := asciiCased_of_fold (same ▸ lowercase_eq_self_iff.mp lower)
    refine ⟨String.toList_inj.mp ?_, cased⟩
    rw [← asciiFold_of_asciiCased cased, same]
  · rintro ⟨rfl, cased⟩
    exact asciiFold_of_asciiCased cased

end SchemaCatalog.Text
