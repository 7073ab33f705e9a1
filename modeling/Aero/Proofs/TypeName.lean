import Aero.Proofs.Inline
import Aero.Syntax.TypeName

/-!
The text of type names. The dimensions that are read back are those that were written, up to their places in the file
and with one exception: a variable whose name is a word for an infinity or for NaN comes back as a number.
-/

namespace Aero.TypeName

open List Option

open Decimal (readFloat? takeSign unsignedDecimal? positionalText)
open Inline (IsName isIdentStart isIdentChar)
open Text (isBlank)

variable {c : Char} {name : String} {d : ArrayDim} {ds : List ArrayDim}

/-! ### Characters -/

/-- The characters of identifiers, and those of numbers without an exponent. -/
def isSizeChar (c : Char) : Bool := isIdentChar c || c = '.' || c = '-'

theorem isSizeChar_solid (h : isSizeChar c = true) : c ≠ ']' ∧ isBlank c = false := by
  delta isSizeChar isIdentChar Char.isAlphanum Char.isAlpha Char.isUpper Char.isLower Char.isDigit at h
  simp only [Bool.or_eq_true, Bool.and_eq_true, decide_eq_true_eq, ge_iff_le, UInt32.le_iff_toNat_le, Char.reduceVal,
    UInt32.reduceToNat, Char.toNat_val, ← Char.toNat_inj, Char.reduceToNat] at h
  constructor
  · simp only [ne_eq, ← Char.toNat_inj, Char.reduceToNat]
    omega
  · simp [isBlank, Text.blankRanges]
    omega

theorem isDigit_of_isIdentStart (h : isIdentStart c = true) : c.isDigit = false := by
  delta isIdentStart Char.isAlpha Char.isUpper Char.isLower at h
  simp only [Char.isDigit, Bool.eq_false_iff, ne_eq, Bool.or_eq_true, Bool.and_eq_true, decide_eq_true_eq, ge_iff_le,
    UInt32.le_iff_toNat_le, Char.reduceVal, UInt32.reduceToNat, Char.toNat_val, ← Char.toNat_inj,
    Char.reduceToNat] at h ⊢
  omega

theorem trim_eq_self (hstart : name.toList.head?.any isBlank = false)
    (hend : name.toList.getLast?.any isBlank = false) : Text.trim name = name := by
  have hdrop {cs : List Char} (h : cs.head?.any isBlank = false) : cs.dropWhile isBlank = cs := by
    cases cs with
    | nil => rfl
    | cons c cs => exact dropWhile_cons_of_neg (Bool.eq_false_iff.mp h)
  rw [Text.trim, Text.trimStartChars, hdrop hstart, Text.trimEndChars, hdrop (head?_reverse ▸ hend),
    reverse_reverse, String.ofList_toList]

/-! ### Numbers and identifiers -/

theorem isSizeChar_positionalText (x : Decimal) : ∀ c ∈ (positionalText sizeLayout x).toList, isSizeChar c = true := by
  have hdigits (n : Nat) : ∀ c ∈ List.replicate n '0' ++ (toString x.coefficient).toList, isSizeChar c = true := by
    intro c hc
    obtain hc | hc := mem_append.mp hc
    · rw [eq_of_mem_replicate hc]
      rfl
    · have hdigit : c.isDigit = true := IR.isDigit_of_mem_digits (by simpa using hc)
      simp [isSizeChar, isIdentChar, Char.isAlphanum, hdigit]
  intro c hc
  unfold positionalText at hc
  split at hc
  · simp only [String.toList_append, String.toList_ofList, mem_append] at hc
    obtain (hc | hc) | hc := hc
    · exact hdigits 0 c hc
    · exact hdigits _ c (mem_append_left _ hc)
    · cases hc
  · simp only [String.toList_append, String.toList_ofList, mem_append] at hc
    obtain (hc | hc) | hc := hc
    · exact hdigits _ c (mem_of_mem_take hc)
    · rw [mem_singleton.mp hc]
      rfl
    · exact hdigits _ c (mem_of_mem_drop hc)

theorem isSizeChar_render {x : Float} (hnan : x.isNaN = false) (hinf : x.isInf = false) :
    ∀ c ∈ (sizeLayout.render x).toList, isSizeChar c = true := by
  intro c hc
  rw [Decimal.Layout.render, hnan, hinf, if_neg Bool.false_ne_true, if_neg Bool.false_ne_true, String.toList_append,
    mem_append] at hc
  obtain hc | hc := hc
  · split at hc
    · rw [mem_singleton.mp hc]
      rfl
    · cases hc
  · exact isSizeChar_positionalText _ c hc

/-- A word for an infinity or for NaN. -/
def isFloatWord (name : String) : Bool :=
  let word := name.toList.map Char.toLower
  word = "inf".toList || word = "infinity".toList || word = "nan".toList

theorem readFloat?_identifier (h : IsName isIdentStart isIdentChar name.toList []) :
    readFloat? name = none ↔ isFloatWord name = false := by
  have hhead := h.head
  unfold readFloat? isFloatWord
  cases hcs : name.toList with
  | nil =>
    rw [hcs] at hhead
    cases hhead
  | cons c cs =>
    rw [hcs] at hhead
    have hstart : isIdentStart c = true := hhead
    have hne {e : Char} (he : isIdentStart e = false) : c ≠ e := fun heq => by
      rw [heq, he] at hstart
      cases hstart
    have hsign : takeSign (c :: cs) = (false, c :: cs) := by
      unfold takeSign
      split
      · next heq => exact absurd (List.cons.inj heq).1 (hne (by decide))
      · next heq => exact absurd (List.cons.inj heq).1 (hne (by decide))
      · rfl
    have hdecimal : unsignedDecimal? (c :: cs) = none := by
      simp [unsignedDecimal?, isDigit_of_isIdentStart hstart, hne (show isIdentStart '.' = false by decide)]
    simp only [hsign, hdecimal, map_none, map_eq_none_iff]
    generalize (c :: cs).map Char.toLower = word
    split
    · next hinf => simp only [hinf, reduceCtorEq, Bool.true_or]
    · next hinf =>
      rw [Bool.eq_false_iff.mpr hinf, Bool.false_or]
      split
      · next hnan => simp only [hnan, reduceCtorEq, decide_true]
      · next hnan => simp only [hnan, decide_false]

/-! ### Dimensions -/

/-- What stands between the brackets of a dimension. -/
def inside : ArrayDim → String
  | .unsized => ""
  | .sized ⟨.literal (.number x), _⟩ => sizeLayout.render x
  | .sized ⟨.var name, _⟩ => name
  | .sized _ => ".."

/-- A dimension without a size, of a finite number that can be read back, or of a variable. -/
def Legible : ArrayDim → Prop
  | .unsized => True
  | .sized ⟨.literal (.number x), _⟩ =>
      x.isNaN = false ∧ x.isInf = false ∧ readFloat? (sizeLayout.render x) = some x
  | .sized ⟨.var name, _⟩ => IsName isIdentStart isIdentChar name.toList []
  | .sized _ => False

/-- A dimension at no place in a file. -/
def unplaced : ArrayDim → ArrayDim
  | .unsized => .unsized
  | .sized size => .sized ⟨size.node, {}⟩

theorem toList_dimText (d : ArrayDim) : (dimText d).toList = '[' :: (inside d).toList ++ [']'] := by
  unfold dimText inside
  split <;> simp

theorem Legible.chars (h : Legible d) : ∀ c ∈ (inside d).toList, isSizeChar c = true := by
  unfold Legible at h
  split at h
  · nofun
  · exact isSizeChar_render h.1 h.2.1
  · exact fun c hc => by simp [isSizeChar, h.chars c hc]
  · exact h.elim

theorem Legible.trim (h : Legible d) : Text.trim (inside d) = inside d := by
  have hsolid {o : Option Char} (ho : ∀ c, o = some c → c ∈ (inside d).toList) : o.any isBlank = false := by
    cases o with
    | none => rfl
    | some c => exact (isSizeChar_solid (h.chars c (ho c rfl))).2
  exact trim_eq_self (hsolid fun _ => mem_of_mem_head?) (hsolid fun _ => mem_of_mem_getLast?)

theorem dimsOf_inside {inner : List Char} (h : ']' ∉ inner) (seen rest : List Char) :
    dimsOf (inner ++ ']' :: rest) (some seen) = dimOf (String.ofList (seen.reverse ++ inner)) :: dimsOf rest none := by
  induction inner generalizing seen with
  | nil => simp [dimsOf]
  | cons c inner ih =>
    obtain ⟨hc, hinner⟩ := not_or.mp (mt mem_cons.mpr h)
    rw [cons_append, dimsOf, if_neg (Ne.symm hc), ih hinner]
    simp

/-- The dimensions as they follow the name. -/
def written (ds : List ArrayDim) : List Char := ds.flatMap fun d => '[' :: (inside d).toList ++ [']']

theorem toList_text (t : TypeName) : t.text.toList = t.name.toList ++ written t.dims := by
  simp [text, written, flatMap_map, toList_dimText, String.toList_join]

theorem dimsOf_written (h : ∀ d ∈ ds, Legible d) : dimsOf (written ds) none = ds.map fun d => dimOf (inside d) := by
  induction ds with
  | nil => rfl
  | cons d ds ih =>
    have hclose : ']' ∉ (inside d).toList := fun hc =>
      (isSizeChar_solid ((h d mem_cons_self).chars _ hc)).1 rfl
    have hwritten : written (d :: ds) = '[' :: ((inside d).toList ++ ']' :: written ds) := by simp [written]
    rw [hwritten, dimsOf, if_pos rfl, dimsOf_inside hclose, ih fun e he => h e (mem_cons_of_mem d he)]
    simp

theorem written_ends (ds : List ArrayDim) :
    (∀ c ∈ (written ds).head?, c = '[') ∧ ∀ c ∈ (written ds).getLast?, c = ']' := by
  constructor
  · cases ds with
    | nil => nofun
    | cons d ds => simp [written]
  · induction ds using List.reverseRecOn with
    | nil => nofun
    | append_singleton ds d =>
      have hwritten : written (ds ++ [d]) = (written ds ++ '[' :: (inside d).toList) ++ [']'] := by simp [written]
      rw [hwritten, getLast?_concat]
      exact fun c hc => (some.inj hc).symm

/-- A dimension that is a variable spelled as a number that is not finite. -/
def isMisread : ArrayDim → Bool
  | .sized ⟨.var name, _⟩ => isFloatWord name
  | _ => false

theorem dimOf_inside (h : Legible d) : dimOf (inside d) = unplaced d ↔ isMisread d = false := by
  unfold dimOf
  rw [h.trim]
  unfold Legible at h
  split at h
  · simp [inside, unplaced, isMisread]
  · next x _ =>
    have hne : (sizeLayout.render x).isEmpty = false := by
      rw [← Bool.not_eq_true, String.isEmpty_iff]
      intro hempty
      simp [hempty, readFloat?, takeSign, unsignedDecimal?] at h
    simp [inside, unplaced, isMisread, hne, h.2.2]
  · next name _ =>
    have hne : name.isEmpty = false := by
      rw [← Bool.not_eq_true, String.isEmpty_iff]
      rintro rfl
      exact Bool.false_ne_true h.head
    simp only [inside, unplaced, isMisread, hne, ← readFloat?_identifier h]
    cases readFloat? name <;> simp
  · exact h.elim

theorem parse_text (t : TypeName) (hbracket : '[' ∉ t.name.toList)
    (hstart : t.name.toList.head?.any isBlank = false) (hend : t.name.toList.getLast?.any isBlank = false)
    (hdims : ∀ d ∈ t.dims, Legible d) : parse t.text = { t with dims := t.dims.map fun d => dimOf (inside d) } := by
  have hends := written_ends t.dims
  have htrim : Text.trim t.text = t.text := by
    apply trim_eq_self
    · rw [toList_text, head?_append]
      cases hhead : t.name.toList.head? with
      | some c => simpa [hhead] using hstart
      | none =>
        cases hopen : (written t.dims).head? with
        | none => rfl
        | some c =>
          rw [hends.1 c hopen]
          decide
    · rw [toList_text, getLast?_append]
      cases hclose : (written t.dims).getLast? with
      | none => exact hend
      | some c =>
        rw [hends.2 c hclose]
        exact (show isBlank ']' = false by decide)
  have hname (c : Char) (hc : c ∈ t.name.toList) : decide (c ≠ '[') = true := by
    simpa using fun heq : c = '[' => hbracket (heq ▸ hc)
  have hopen : (written t.dims).takeWhile (· ≠ '[') = [] ∧ (written t.dims).dropWhile (· ≠ '[') = written t.dims := by
    cases hwritten : written t.dims with
    | nil => exact ⟨rfl, rfl⟩
    | cons c cs =>
      have hc : c = '[' := hends.1 c (by rw [hwritten]; rfl)
      simp [hc]
  rw [parse, htrim, toList_text, takeWhile_append_of_pos hname, dropWhile_append_of_pos hname, hopen.1,
    hopen.2, append_nil, String.ofList_toList, trim_eq_self hstart hend, dimsOf_written hdims]

/-- A type name is read back from its text up to the places of its sizes, unless a size is misread. -/
theorem parse_text_iff (t : TypeName) (hbracket : '[' ∉ t.name.toList)
    (hstart : t.name.toList.head?.any isBlank = false) (hend : t.name.toList.getLast?.any isBlank = false)
    (hdims : ∀ d ∈ t.dims, Legible d) :
    parse t.text = { t with dims := t.dims.map unplaced } ↔ ∀ d ∈ t.dims, isMisread d = false := by
  rw [parse_text t hbracket hstart hend hdims, TypeName.mk.injEq, List.map_inj_left]
  simp only [true_and]
  exact forall₂_congr fun d hd => dimOf_inside (hdims d hd)

/-- `int[][n][3]`. -/
def threeDims : TypeName := ⟨"int", [.unsized, .sized ⟨.var "n", {}⟩, .sized ⟨.literal (.number 3), {}⟩]⟩

theorem parse_text_threeDims : parse threeDims.text = { threeDims with dims := threeDims.dims.map unplaced } := by
  refine (parse_text_iff threeDims (by decide) (by decide) (by decide) ?_).mpr (by decide)
  simp only [threeDims, List.forall_mem_cons]
  exact ⟨trivial, ⟨by decide, by simp [isIdentChar], nofun⟩,
    ⟨by decide +kernel, by decide +kernel, by decide +kernel⟩, nofun⟩

theorem parse_text_inf : parse (text ⟨"int", [.sized ⟨.var "inf", {}⟩]⟩) =
    ⟨"int", [.sized ⟨.literal (.number (1.0 / 0.0)), {}⟩]⟩ := by rfl

end Aero.TypeName
