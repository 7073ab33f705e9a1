import Aero.Json.Reader

/-!
The text of JSON numbers. A number that is written without superfluous zeros is read back as it is, and integers are
written so.
-/

namespace Aero.Json

open List

variable {rest cs : List Char} {ds : List Nat} {c : Char} {n : Number} {e : Option Int}

/-! ### Digits -/

theorem digitsOf_digitChar (h : ∀ d ∈ ds, d < 10) : Number.digitsOf (ds.map Nat.digitChar) = ds := by
  unfold Number.digitsOf
  rw [map_map]
  calc ds.map ((fun c => c.toNat - '0'.toNat) ∘ Nat.digitChar)
      = ds.map id := map_congr_left fun d hd => Nat.toNat_digitChar_sub_48_of_lt_ten (h d hd)
    _ = ds := map_id ds

theorem digitChar_of_isDigit (h : c.isDigit = true) : Nat.digitChar (c.toNat - '0'.toNat) = c := by
  simp only [Char.isDigit, Bool.and_eq_true, decide_eq_true_eq] at h
  have hlow : 48 ≤ c.toNat := h.1
  have hhigh : c.toNat ≤ 57 := h.2
  have hcases : c.toNat = 48 ∨ c.toNat = 49 ∨ c.toNat = 50 ∨ c.toNat = 51 ∨ c.toNat = 52 ∨ c.toNat = 53 ∨
      c.toNat = 54 ∨ c.toNat = 55 ∨ c.toNat = 56 ∨ c.toNat = 57 := by omega
  have hchar : c = Char.ofNat c.toNat := (Char.ofNat_toNat c).symm
  rcases hcases with h | h | h | h | h | h | h | h | h | h <;> rw [h] at hchar ⊢ <;> rw [hchar] <;> rfl

theorem digit_lt_of_isDigit (h : c.isDigit = true) : c.toNat - '0'.toNat < 10 := by
  simp only [Char.isDigit, Bool.and_eq_true, decide_eq_true_eq] at h
  have hhigh : c.toNat ≤ 57 := h.2
  have hzero : '0'.toNat = 48 := rfl
  omega

theorem digitsOf_lt (h : ∀ c ∈ cs, c.isDigit = true) : ∀ d ∈ Number.digitsOf cs, d < 10 := by
  intro d hd
  obtain ⟨c, hc, rfl⟩ := mem_map.mp hd
  exact digit_lt_of_isDigit (h c hc)

theorem toList_join_digits (h : ∀ d ∈ ds, d < 10) : (String.join (ds.map toString)).toList = ds.map Nat.digitChar := by
  induction ds with
  | nil => rfl
  | cons d ds ih =>
    obtain ⟨hd, hds⟩ := forall_mem_cons.mp h
    rw [map_cons, String.join_cons, String.toList_append, ih hds]
    rw [Nat.toString_eq_ofList_toDigits, String.toList_ofList, Nat.toDigits_of_lt_base hd]
    rfl

abbrev decimalDigits (n : Nat) : List Char := Nat.toDigits 10 n

theorem isDigit_decimalDigits {n : Nat} (h : c ∈ decimalDigits n) : c.isDigit = true :=
  Nat.isDigit_of_mem_toDigits (by decide) (by decide) h

theorem ofDigits_decimalDigits (n : Nat) : Number.ofDigits (Number.digitsOf (decimalDigits n)) = n := by
  have hfold : Number.ofDigits (Number.digitsOf (decimalDigits n)) = Nat.ofDigitChars 10 (decimalDigits n) 0 := by
    rw [Number.ofDigits, Number.digitsOf, foldl_map]
    congr 1
    funext m c
    rw [Nat.mul_comm]
  rw [hfold, Nat.ofDigitChars_ten_toDigits]

/-- A number other than zero has no leading zero. -/
theorem head?_decimalDigits {n : Nat} (h : n ≠ 0) : (decimalDigits n).head? ≠ some '0' := by
  induction n using Nat.strongRecOn with
  | ind n ih =>
    by_cases hlt : n < 10
    · rw [decimalDigits, Nat.toDigits_of_lt_base hlt]
      intro hzero
      have hchar : Nat.digitChar n = '0' := Option.some.inj hzero
      exact h (Nat.digitChar_eq_zero.mp hchar)
    · have hdiv : n / 10 ≠ 0 := by omega
      have hne : decimalDigits (n / 10) ≠ [] := Nat.toDigits_ne_nil
      have hhead : (decimalDigits n).head? = (decimalDigits (n / 10)).head? := by
        rw [decimalDigits, Nat.toDigits_of_base_le (by decide) (by omega), head?_append,
          head?_eq_some_head hne, Option.some_or]
      rw [hhead]
      exact ih (n / 10) (by omega) hdiv

/-! ### Reading what is written -/

namespace Number

/-- A number is written without superfluous zeros at its start. -/
structure Plain (n : Number) : Prop where
  whole_ne : n.whole ≠ []
  whole_lt : ∀ d ∈ n.whole, d < 10
  lead : n.whole.head? = some 0 → n.whole.length = 1
  fraction_lt : ∀ d ∈ n.fraction, d < 10

end Number

/-- A text that can stand behind a value: it is empty or starts with a mark between values. -/
def Ends (rest : List Char) : Prop := ∀ c ∈ rest.head?, c = ',' ∨ c = ']' ∨ c = '}'

namespace Reader

def StopsDigits (rest : List Char) : Prop := ∀ c ∈ rest.head?, c.isDigit = false

theorem stopsDigits_cons (h : c.isDigit = false) : StopsDigits (c :: cs) := by
  intro d hd
  obtain rfl : c = d := Option.some.inj hd
  exact h

theorem stopsDigits_of_ends (h : Ends rest) : StopsDigits rest := by
  intro c hc
  rcases h c hc with rfl | rfl | rfl <;> rfl

theorem digits_append (h : ∀ d ∈ ds, d < 10) (hrest : StopsDigits rest) :
    digits (ds.map Nat.digitChar ++ rest) = (ds, rest) := by
  have hdigit : ∀ c ∈ ds.map Nat.digitChar, c.isDigit = true := by
    intro c hc
    obtain ⟨d, hd, rfl⟩ := mem_map.mp hc
    rw [Nat.isDigit_digitChar, decide_eq_true (h d hd)]
  have hstop : rest.takeWhile Char.isDigit = [] ∧ rest.dropWhile Char.isDigit = rest := by
    cases rest with
    | nil => exact ⟨rfl, rfl⟩
    | cons c rest =>
      have hc := hrest c rfl
      simp [hc]
  unfold digits
  rw [takeWhile_append_of_pos hdigit, dropWhile_append_of_pos hdigit, hstop.1, hstop.2,
    append_nil, digitsOf_digitChar h]

theorem digits?_append (hne : ds ≠ []) (h : ∀ d ∈ ds, d < 10) (hrest : StopsDigits rest) :
    digits? (ds.map Nat.digitChar ++ rest) = some (ds, rest) := by
  unfold digits?
  rw [digits_append h hrest]
  cases ds with
  | nil => exact absurd rfl hne
  | cons d ds => rfl

def exponentText : Option Int → List Char
  | none => []
  | some e => 'e' :: ((if 0 ≤ e then ['+'] else []) ++ (toString e).toList)

def fractionText : List Nat → List Char
  | [] => []
  | ds => '.' :: ds.map Nat.digitChar

theorem toList_text (h : n.Plain) : n.text.toList = (if n.negative then ['-'] else []) ++
      (n.whole.map Nat.digitChar ++ (fractionText n.fraction ++ exponentText n.exponent)) := by
  obtain ⟨negative, whole, fraction, exponent⟩ := n
  simp only [Number.text, String.toList_append, toList_join_digits h.whole_lt, append_assoc]
  congr 1
  · cases negative <;> simp
  congr 2
  · cases fraction with
    | nil => rfl
    | cons d ds =>
      simp only [isEmpty_cons, Bool.false_eq_true, if_false, String.toList_append, toList_join_digits h.fraction_lt]
      rfl
  · cases exponent with
    | none => rfl
    | some e =>
      by_cases he : 0 ≤ e
      · simp [exponentText, he]
      · simp [exponentText, he]

theorem stopsDigits_exponentText (hrest : Ends rest) : StopsDigits (exponentText e ++ rest) := by
  cases e with
  | none => exact stopsDigits_of_ends hrest
  | some e => exact stopsDigits_cons rfl

theorem stopsDigits_fractionText (hrest : Ends rest) : StopsDigits (fractionText ds ++ (exponentText e ++ rest)) := by
  cases ds with
  | nil => exact stopsDigits_exponentText hrest
  | cons d ds => exact stopsDigits_cons rfl

theorem digits?_decimalDigits (n : Nat) (hrest : StopsDigits rest) :
    digits? (decimalDigits n ++ rest) = some (Number.digitsOf (decimalDigits n), rest) := by
  have hchars : (Number.digitsOf (decimalDigits n)).map Nat.digitChar = decimalDigits n := by
    rw [Number.digitsOf, map_map]
    calc (decimalDigits n).map (Nat.digitChar ∘ fun c => c.toNat - '0'.toNat)
        = (decimalDigits n).map id := map_congr_left fun c hc => digitChar_of_isDigit (isDigit_decimalDigits hc)
      _ = decimalDigits n := map_id _
  have hne : Number.digitsOf (decimalDigits n) ≠ [] := by
    intro hnil
    exact Nat.toDigits_ne_nil (map_eq_nil_iff.mp hnil)
  have h := digits?_append hne (digitsOf_lt fun c hc => isDigit_decimalDigits hc) hrest
  rwa [hchars] at h

theorem toList_toString_ofNat (n : Nat) : (toString (Int.ofNat n)).toList = decimalDigits n := by
  have hrepr : toString (Int.ofNat n) = n.repr := rfl
  rw [hrepr, Nat.repr_eq_ofList_toDigits, String.toList_ofList]

theorem toList_toString_negSucc (n : Nat) : (toString (Int.negSucc n)).toList = '-' :: decimalDigits (n + 1) := by
  have hrepr : toString (Int.negSucc n) = "-" ++ (n + 1).repr := rfl
  have hsign : "-".toList = ['-'] := rfl
  rw [hrepr, String.toList_append, hsign, Nat.repr_eq_ofList_toDigits, String.toList_ofList]
  rfl

theorem exponent?_text (e : Option Int) (hrest : Ends rest) : exponent? (exponentText e ++ rest) = some (e, rest) := by
  cases e with
  | none =>
    cases rest with
    | nil => rfl
    | cons c rest =>
      rcases hrest c rfl with rfl | rfl | rfl <;> rfl
  | some e =>
    have hstop := stopsDigits_of_ends hrest
    cases e with
    | ofNat n =>
      have hpos : (0 : Int) ≤ Int.ofNat n := Int.natCast_nonneg n
      have htext : exponentText (some (.ofNat n)) = 'e' :: '+' :: decimalDigits n := by
        rw [exponentText, toList_toString_ofNat]
        rfl
      rw [htext]
      simp [exponent?, digits?_decimalDigits n hstop, ofDigits_decimalDigits]
    | negSucc n =>
      have htext : exponentText (some (.negSucc n)) = 'e' :: '-' :: decimalDigits (n + 1) := by
        rw [exponentText, toList_toString_negSucc]
        rfl
      rw [htext]
      simp [exponent?, digits?_decimalDigits (n + 1) hstop, ofDigits_decimalDigits]
      omega

theorem digitChar_ne_of_lt {d : Nat} (hd : d < 10) (hc : c.isDigit = false) : Nat.digitChar d ≠ c := by
  rintro rfl
  rw [Nat.isDigit_digitChar, decide_eq_true hd] at hc
  exact Bool.noConfusion hc

theorem exponentText_ne_point (hrest : Ends rest) (cs : List Char) : exponentText e ++ rest ≠ '.' :: cs := by
  cases e with
  | none =>
    rintro rfl
    rcases hrest '.' rfl with h | h | h <;> exact absurd h (by decide)
  | some e =>
    intro h
    exact absurd (List.cons.inj h).1 (by decide)

theorem number?_of_parts {tail behind : List Char} (hsign : ∀ cs', cs ≠ '-' :: cs')
    (hwhole : digits? cs = some (n.whole, tail)) (hlead : n.whole.head? = some 0 → n.whole.length = 1)
    (hfraction : (n.fraction = [] ∧ tail = behind ∧ ∀ cs', behind ≠ '.' :: cs') ∨
      ∃ cs', tail = '.' :: cs' ∧ digits? cs' = some (n.fraction, behind))
    (hexponent : exponent? behind = some (n.exponent, rest)) :
    number? ((if n.negative then ['-'] else []) ++ cs) = some (n, rest) := by
  obtain ⟨negative, whole, fraction, exponent⟩ := n
  have hlong : whole.head? = some 0 → whole.length ≤ 1 := fun hzero => Nat.le_of_eq (hlead hzero)
  rcases hfraction with ⟨rfl, rfl, hpoint⟩ | ⟨cs', rfl, hdigits⟩
  · cases negative with
    | false => simpa [number?, hwhole, hexponent] using hlong
    | true => simpa [number?, hwhole, hexponent] using hlong
  · cases negative with
    | false => simpa [number?, hwhole, hexponent, hdigits] using hlong
    | true => simpa [number?, hwhole, hexponent, hdigits] using hlong

theorem number?_text (h : n.Plain) (hrest : Ends rest) : number? (n.text.toList ++ rest) = some (n, rest) := by
  rw [toList_text h, append_assoc, append_assoc, append_assoc]
  apply number?_of_parts _ (digits?_append h.whole_ne h.whole_lt (stopsDigits_fractionText hrest)) h.lead _
    (exponent?_text n.exponent hrest)
  · intro cs hcs
    obtain ⟨d, ds, hds⟩ := exists_cons_of_ne_nil h.whole_ne
    rw [hds] at hcs
    have hd : d < 10 := h.whole_lt d (hds ▸ mem_cons_self)
    exact digitChar_ne_of_lt hd rfl (List.cons.inj hcs).1
  · by_cases hnil : n.fraction = []
    · rw [hnil]
      exact .inl ⟨rfl, rfl, exponentText_ne_point hrest⟩
    · refine .inr ⟨_, ?_, digits?_append hnil h.fraction_lt (stopsDigits_exponentText hrest)⟩
      obtain ⟨d, ds, hds⟩ := exists_cons_of_ne_nil hnil
      rw [hds]
      rfl

end Reader

namespace Number

theorem plain_of_digits {w f : List Char} (hwhole : n.whole = digitsOf w)
    (hfraction : n.fraction = digitsOf f) (hne : w ≠ []) (hw : ∀ c ∈ w, c.isDigit = true)
    (hf : ∀ c ∈ f, c.isDigit = true) (hlead : w.head? = some '0' → w.length = 1) : n.Plain := by
  refine ⟨?_, hwhole ▸ digitsOf_lt hw, ?_, hfraction ▸ digitsOf_lt hf⟩
  · rw [hwhole]
    intro hnil
    exact hne (map_eq_nil_iff.mp hnil)
  · intro hzero
    obtain ⟨c, cs, rfl⟩ := exists_cons_of_ne_nil hne
    rw [hwhole] at hzero ⊢
    have hdigit : c.toNat - '0'.toNat = 0 := Option.some.inj hzero
    have hc : c = '0' := by
      rw [← digitChar_of_isDigit (hw c mem_cons_self), hdigit]
      rfl
    rw [digitsOf, length_map]
    exact hlead (congrArg some hc)

/-! ### Integers -/

theorem length_decimalDigits_of_head? {n : Nat} (h : (decimalDigits n).head? = some '0') :
    (decimalDigits n).length = 1 := by
  by_cases hzero : n = 0
  · rw [hzero]
    rfl
  · exact absurd h (head?_decimalDigits hzero)

theorem plain_ofInt (n : Int) : (ofInt n).Plain :=
  plain_of_digits rfl rfl Nat.toDigits_ne_nil
    (fun _ => isDigit_decimalDigits) (fun _ hc => absurd hc not_mem_nil) length_decimalDigits_of_head?

theorem int?_ofInt (n : Nat) : (ofInt n).int? = some (n : Int) := by
  have hsign : (ofInt n).negative = false := by simp [ofInt]
  have hvalue : ofDigits (ofInt n).whole = n := ofDigits_decimalDigits n
  have hplain : ((ofInt n).fraction.isEmpty && (ofInt n).exponent.isNone) = true := rfl
  simp only [int?, hplain, hsign, hvalue, if_true, Bool.false_eq_true, if_false]

end Number

end Aero.Json
