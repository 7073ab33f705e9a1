import Aero.IR.Builder
import Aero.Proofs.Dominance

/-!
Labels of blocks. A label that is taken is marked with the number of the new block. Labels that do
not look marked themselves can be asked for in any order, and those of a function stay distinct.
-/

namespace Aero.IR

open List

variable {label stem : String} {c : Char}

def marked (stem : String) (id : BlockId) : String := stem ++ "." ++ toString id

/-- A label that does not look marked. -/
def IsStem (label : String) : Prop := ∀ stem id, label ≠ marked stem id

theorem toList_marked (stem : String) (id : BlockId) :
    (marked stem id).toList = stem.toList ++ '.' :: Nat.toDigits 10 id := by
  simp [marked]

theorem isDigit_of_mem_digits {n : Nat} (h : c ∈ Nat.toDigits 10 n) : c.isDigit = true :=
  Nat.isDigit_of_mem_toDigits (by decide) (by decide) h

theorem takeWhile_reverse_marked (stem : String) (id : BlockId) :
    (marked stem id).toList.reverse.takeWhile Char.isDigit = (Nat.toDigits 10 id).reverse := by
  rw [toList_marked, reverse_append, reverse_cons, append_assoc, takeWhile_append_of_pos]
  · have hdot : List.takeWhile Char.isDigit (['.'] ++ stem.toList.reverse) = [] := rfl
    rw [hdot, append_nil]
  · intro c hc
    exact isDigit_of_mem_digits (mem_reverse.mp hc)

theorem toDigits_injective {m n : Nat} (h : Nat.toDigits 10 m = Nat.toDigits 10 n) : m = n := by
  rw [← Nat.ofDigitChars_ten_toDigits (n := m), h, Nat.ofDigitChars_ten_toDigits]

theorem marked_injective {stem' : String} {id id' : BlockId} (h : marked stem id = marked stem' id') : id = id' := by
  have hdigits := congrArg (fun s : String => s.toList.reverse.takeWhile Char.isDigit) h
  simp only [takeWhile_reverse_marked, reverse_inj] at hdigits
  exact toDigits_injective hdigits

/-- A label that ends in anything but a digit is not marked. -/
theorem isStem_of_getLast (hlast : label.toList.getLast? = some c) (hc : c.isDigit = false) : IsStem label := by
  rintro stem id rfl
  rw [toList_marked, getLast?_append, getLast?_cons] at hlast
  have hmem : (Nat.toDigits 10 id).getLast?.getD '.' = c := by simpa using hlast
  cases hdigits : (Nat.toDigits 10 id).getLast? with
  | none => exact Nat.toDigits_ne_nil (getLast?_eq_none_iff.mp hdigits)
  | some d =>
    rw [hdigits] at hmem
    have hd := isDigit_of_mem_digits (mem_of_getLast? hdigits)
    simp only [Option.getD_some] at hmem
    rw [hmem, hc] at hd
    cases hd

theorem isStem_of_not_mem (hdot : '.' ∉ label.toList) : IsStem label := by
  rintro stem id rfl
  rw [toList_marked] at hdot
  exact hdot (mem_append_right _ mem_cons_self)

theorem isStem_append_toString (n : Nat) (hdot : '.' ∉ stem.toList) : IsStem (stem ++ toString n) := by
  apply isStem_of_not_mem
  rw [String.toList_append, mem_append, Nat.toString_eq_ofList_toDigits, String.toList_ofList]
  rintro (hstem | hdigit)
  · exact hdot hstem
  · have hc := isDigit_of_mem_digits hdigit
    revert hc
    decide

/-- The labels of a function are distinct, and a label that looks marked bears its own block. -/
structure Labelled (f : Function) : Prop where
  nodup : (f.blocks.map Block.label).Nodup
  stem_or_marked : ∀ b ∈ f.blocks, IsStem b.label ∨ ∃ stem, b.label = marked stem b.id

/-- A fresh label for a label that does not look marked is new to the function. -/
theorem Labelled.freshLabel {f : Function} (h : Labelled f) (hlt : ∀ b ∈ f.blocks, b.id < f.nextBlock)
    (hlabel : IsStem label) :
    (∀ b ∈ f.blocks, b.label ≠ Builder.freshLabel f label) ∧ (IsStem (Builder.freshLabel f label) ∨
        ∃ stem, Builder.freshLabel f label = marked stem f.nextBlock) := by
  unfold Builder.freshLabel
  split
  · refine ⟨?_, .inr ⟨label, rfl⟩⟩
    intro b hb heq
    rcases h.stem_or_marked b hb with hstem | ⟨stem, hstem⟩
    · exact hstem label f.nextBlock heq
    · have hid := marked_injective (hstem.symm.trans heq)
      exact absurd hid (Nat.ne_of_lt (hlt b hb))
  · next hany =>
    refine ⟨?_, .inl hlabel⟩
    intro b hb heq
    exact hany (any_eq_true.mpr ⟨b, hb, decide_eq_true heq⟩)

end Aero.IR
