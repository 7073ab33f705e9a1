import Aero.Proofs.Json.Number

/-!
The text of JSON values. A value whose strings stand for texts is read back from its text, whatever mark follows it.
-/

namespace Aero.Json

open List Option

variable {fuel : Nat} {j : Json} {rest cs : List Char} {acc : List (Option String × Json)} {c : Char} {key : String}
  {n : Number}

mutual

/-- Every string of a value stands for a text, and every number is written without superfluous zeros. -/
def Plain : Json → Prop
  | null => True
  | bool _ => True
  | number n => n.Plain
  | str s => s.isSome = true
  | array elems => AllPlain elems
  | object fields => MembersPlain fields

def AllPlain : List Json → Prop
  | [] => True
  | j :: rest => j.Plain ∧ AllPlain rest

def MembersPlain : List (Option String × Json) → Prop
  | [] => True
  | (key, j) :: rest => (key.isSome = true ∧ j.Plain) ∧ MembersPlain rest

end

namespace Reader

/-! ### Strings -/

theorem hexUnit?_control : ∀ n < 0x20, hexUnit? '0' '0' (Nat.digitChar (n / 16)) (Nat.digitChar (n % 16)) = some n := by
  decide

theorem units_escapeChar (c : Char) (cs : List Char) (acc : List Nat) :
    units (escapeChar c ++ cs) acc = units cs (c.toNat :: acc) := by
  by_cases hshort : c ∈ ['"', '\\', '\x08', '\x09', '\x0a', '\x0c', '\x0d']
  · simp only [mem_cons, not_mem_nil, or_false] at hshort
    rcases hshort with rfl | rfl | rfl | rfl | rfl | rfl | rfl <;> rfl
  · simp only [mem_cons, not_mem_nil, or_false, not_or] at hshort
    obtain ⟨hquote, hslash, hback, htab, hline, hform, hreturn⟩ := hshort
    unfold escapeChar
    rw [if_neg hquote, if_neg hslash, if_neg hback, if_neg htab, if_neg hline, if_neg hform, if_neg hreturn]
    by_cases hlow : c.toNat < 0x20
    · rw [if_pos hlow]
      simp [units, hexUnit?_control c.toNat hlow]
    · rw [if_neg hlow]
      simp [units, hslash, hlow]

theorem units_quoted (cs rest : List Char) (acc : List Nat) :
    units (cs.flatMap escapeChar ++ '"' :: rest) acc = some ((cs.map Char.toNat).reverse ++ acc, rest) := by
  induction cs generalizing acc with
  | nil => rfl
  | cons c cs ih =>
    rw [flatMap_cons, append_assoc, units_escapeChar, ih]
    simp

theorem toNat_not_surrogate (c : Char) : c.toNat < 0xD800 ∨ 0xE000 ≤ c.toNat := by
  have h : c.toNat < 0xD800 ∨ 0xDFFF < c.toNat ∧ c.toNat < 0x110000 := c.valid
  omega

theorem joinUnits_toNat (cs : List Char) (acc : List Char) :
    joinUnits (cs.map Char.toNat) acc = some (acc.reverse ++ cs) := by
  induction cs generalizing acc with
  | nil => simp [joinUnits]
  | cons c cs ih =>
    have hchar := toNat_not_surrogate c
    have hleading : (0xD800 ≤ c.toNat && c.toNat < 0xDC00) = false := by
      simp only [Bool.and_eq_false_iff, decide_eq_false_iff_not]
      omega
    have htrailing : (0xDC00 ≤ c.toNat && c.toNat < 0xE000) = false := by
      simp only [Bool.and_eq_false_iff, decide_eq_false_iff_not]
      omega
    rw [joinUnits.eq_def]
    simp [hleading, htrailing, ih]

theorem string?_quoted (s : String) (rest : List Char) :
    string? (s.toList.flatMap escapeChar ++ '"' :: rest) = some (some s, rest) := by
  rw [string?, units_quoted]
  simp [joinUnits_toNat]

/-! ### Values -/

/-- A character that is neither white space nor the start of a word, a string, an array or an object. -/
def StartsNumber (c : Char) : Prop := c = '-' ∨ c.isDigit = true

theorem startsNumber_text (h : n.Plain) : ∃ c cs, n.text.toList = c :: cs ∧ StartsNumber c := by
  rw [toList_text h]
  cases n.negative with
  | true => exact ⟨_, _, rfl, .inl rfl⟩
  | false =>
    obtain ⟨d, ds, hds⟩ := exists_cons_of_ne_nil h.whole_ne
    have hd : d < 10 := h.whole_lt d (hds ▸ mem_cons_self)
    rw [hds]
    exact ⟨_, _, rfl, .inr (by rw [Nat.isDigit_digitChar, decide_eq_true hd])⟩

theorem StartsNumber.ne {m : Char} (h : StartsNumber c) (hm : m.isDigit = false) (hminus : m ≠ '-') : c ≠ m := by
  rintro rfl
  rcases h with h | h
  · exact hminus h
  · rw [hm] at h
    exact Bool.noConfusion h

theorem skipBlank_startsNumber (h : StartsNumber c) (cs : List Char) : skipBlank (c :: cs) = c :: cs := by
  simp [skipBlank, h.ne (m := ' ') rfl (by decide), h.ne (m := '\t') rfl (by decide),
    h.ne (m := '\n') rfl (by decide), h.ne (m := '\r') rfl (by decide)]

theorem value?_startsNumber (h : StartsNumber c) (fuel : Nat) (cs : List Char) :
    value? (fuel + 1) (c :: cs) = (number? (c :: cs)).map fun (n, rest) => (.number n, rest) := by
  rw [value?, skipBlank_startsNumber h]
  simp [h.ne (m := 'n') rfl (by decide), h.ne (m := 't') rfl (by decide), h.ne (m := 'f') rfl (by decide),
    h.ne (m := '"') rfl (by decide), h.ne (m := '[') rfl (by decide), h.ne (m := '{') rfl (by decide)]

theorem ends_cons (h : c = ',' ∨ c = ']' ∨ c = '}') : Ends (c :: rest) := by
  intro d hd
  obtain rfl : c = d := some.inj hd
  exact h

theorem toList_quote_append (s : String) (rest : List Char) :
    (quote s).toList ++ rest = '"' :: (s.toList.flatMap escapeChar ++ '"' :: rest) := by
  simp [quote]

theorem toList_separated_cons (t u : String) (ts : List String) :
    (",".intercalate (t :: u :: ts)).toList = t.toList ++ ',' :: (",".intercalate (u :: ts)).toList := by
  rw [String.intercalate_cons_cons, String.toList_append, String.toList_append, append_assoc]
  rfl

theorem value?_number (h : n.Plain) (fuel : Nat) (hrest : Ends rest) :
    value? (fuel + 1) (n.text.toList ++ rest) = some (.number n, rest) := by
  obtain ⟨c, cs, htext, hc⟩ := startsNumber_text h
  have hnumber := number?_text h hrest
  rw [htext, cons_append] at hnumber ⊢
  rw [value?_startsNumber hc, hnumber]
  rfl

theorem value?_string (s : String) (fuel : Nat) (rest : List Char) :
    value? (fuel + 1) ((quote s).toList ++ rest) = some (.str (some s), rest) := by
  have hblank : ∀ cs, skipBlank ('"' :: cs) = '"' :: cs := fun _ => rfl
  rw [toList_quote_append, value?, hblank]
  simp [string?_quoted]

/-- A text starts with a value: there is no white space before it, and no array ends here. -/
def StartsValue (cs : List Char) : Prop := skipBlank cs = cs ∧ ∀ cs', cs ≠ ']' :: cs'

theorem startsValue_text : {j : Json} → j.Plain → (rest : List Char) → StartsValue (j.text.toList ++ rest)
  | .null, _, _ | .bool true, _, _ | .bool false, _, _ => ⟨rfl, fun _ h => absurd (List.cons.inj h).1 (by decide)⟩
  | .number n, h, rest => by
      obtain ⟨c, cs, htext, hc⟩ := startsNumber_text h
      rw [text, htext]
      exact ⟨skipBlank_startsNumber hc _, fun _ h => hc.ne rfl (by decide) (List.cons.inj h).1⟩
  | .str s, _, rest => by
      rw [text, toList_quote_append]
      exact ⟨rfl, fun _ h => absurd (List.cons.inj h).1 (by decide)⟩
  | .array elems, _, rest | .object fields, _, rest => by
      simp only [text, String.toList_append]
      exact ⟨rfl, fun _ h => absurd (List.cons.inj h).1 (by decide)⟩

theorem value?_array (h : StartsValue cs) (fuel : Nat) : value? (fuel + 1) ('[' :: cs) = elements? fuel [] cs := by
  have hblank : skipBlank ('[' :: cs) = '[' :: cs := rfl
  rw [value?, hblank]
  simp [h.1, h.2]

theorem elements?_comma {acc : List Json} (h : value? fuel cs = some (j, ',' :: rest)) :
    elements? (fuel + 1) acc cs = elements? fuel (j :: acc) rest := by
  have hblank : skipBlank (',' :: rest) = ',' :: rest := rfl
  rw [elements?, h]
  simp [hblank]

theorem elements?_end {acc : List Json} (h : value? fuel cs = some (j, ']' :: rest)) :
    elements? (fuel + 1) acc cs = some (.array (acc.reverse ++ [j]), rest) := by
  have hblank : skipBlank (']' :: rest) = ']' :: rest := rfl
  rw [elements?, h]
  simp [hblank]

theorem members?_comma (h : value? fuel cs = some (j, ',' :: rest)) :
    members? (fuel + 1) acc ((quote key).toList ++ ':' :: cs) = members? fuel ((some key, j) :: acc) rest := by
  have hblank : ∀ cs, skipBlank ('"' :: cs) = '"' :: cs := fun _ => rfl
  have hcolon : skipBlank (':' :: cs) = ':' :: cs := rfl
  have hcomma : skipBlank (',' :: rest) = ',' :: rest := rfl
  rw [toList_quote_append, members?, hblank]
  simp [string?_quoted, hcolon, h, hcomma]

theorem members?_end (h : value? fuel cs = some (j, '}' :: rest)) :
    members? (fuel + 1) acc ((quote key).toList ++ ':' :: cs) =
      some (.object (acc.reverse ++ [(some key, j)]), rest) := by
  have hblank : ∀ cs, skipBlank ('"' :: cs) = '"' :: cs := fun _ => rfl
  have hcolon : skipBlank (':' :: cs) = ':' :: cs := rfl
  have hend : skipBlank ('}' :: rest) = '}' :: rest := rfl
  rw [toList_quote_append, members?, hblank]
  simp [string?_quoted, hcolon, h, hend]

theorem toList_array (js : List Json) (rest : List Char) :
    (array js).text.toList ++ rest = '[' :: ((",".intercalate (texts js)).toList ++ ']' :: rest) := by
  simp [text]

theorem toList_object (ms : List (Option String × Json)) (rest : List Char) :
    (object ms).text.toList ++ rest = '{' :: ((",".intercalate (memberTexts ms)).toList ++ '}' :: rest) := by
  simp [text]

theorem toList_member (key : String) (j : Json) (rest : List Char) :
    (quote key ++ ":" ++ j.text).toList ++ rest = (quote key).toList ++ ':' :: (j.text.toList ++ rest) := by
  simp

/-- With this much fuel, a value of fewer characters is read from its text. -/
def ReadsValues (fuel : Nat) : Prop :=
  ∀ (j : Json) (rest : List Char), j.Plain → j.text.toList.length < fuel → Ends rest →
    value? fuel (j.text.toList ++ rest) = some (j, rest)

/-- With this much fuel, the elements of an array are read up to its end. -/
def ReadsElements (fuel : Nat) : Prop :=
  ∀ (j : Json) (js acc : List Json) (rest : List Char), AllPlain (j :: js) →
    (",".intercalate (texts (j :: js))).toList.length + 1 < fuel →
    elements? fuel acc ((",".intercalate (texts (j :: js))).toList ++ ']' :: rest) =
      some (.array (acc.reverse ++ j :: js), rest)

/-- With this much fuel, the members of an object are read up to its end. -/
def ReadsMembers (fuel : Nat) : Prop :=
  ∀ (m : Option String × Json) (ms acc : List (Option String × Json)) (rest : List Char), MembersPlain (m :: ms) →
    (",".intercalate (memberTexts (m :: ms))).toList.length + 1 < fuel →
    members? fuel acc ((",".intercalate (memberTexts (m :: ms))).toList ++ '}' :: rest) =
      some (.object (acc.reverse ++ m :: ms), rest)

theorem startsValue_texts (js : List Json) (h : j.Plain) (rest : List Char) :
    StartsValue ((",".intercalate (texts (j :: js))).toList ++ rest) := by
  cases js with
  | nil => exact startsValue_text h rest
  | cons k js =>
    rw [texts, texts, toList_separated_cons, append_assoc]
    exact startsValue_text h _

theorem startsMember_texts (m : Option String × Json) (ms : List (Option String × Json)) (rest : List Char) :
    ∃ cs, (",".intercalate (memberTexts (m :: ms))).toList ++ rest = '"' :: cs := by
  have hmember : ∀ rest, ∃ cs, (quote (m.1.getD "") ++ ":" ++ m.2.text).toList ++ rest = '"' :: cs := by
    intro rest
    rw [toList_member, toList_quote_append]
    exact ⟨_, rfl⟩
  cases ms with
  | nil => exact hmember rest
  | cons n ms =>
    rw [memberTexts, memberTexts, toList_separated_cons, append_assoc]
    exact hmember _

theorem readsValues_succ (helements : ReadsElements fuel) (hmembers : ReadsMembers fuel) : ReadsValues (fuel + 1) := by
  intro j rest h hfuel hrest
  cases j with
  | null => rfl
  | bool b => cases b <;> rfl
  | number n => exact value?_number h fuel hrest
  | str s =>
    obtain ⟨s, rfl⟩ := isSome_iff_exists.mp h
    exact value?_string s fuel rest
  | array elems =>
    cases elems with
    | nil => rfl
    | cons j js =>
      have hlength := congrArg List.length (toList_array (j :: js) [])
      simp only [length_append, length_cons, length_nil] at hlength
      rw [toList_array, value?_array (startsValue_texts js h.1 _)]
      exact helements j js [] rest h (by omega)
  | object fields =>
    cases fields with
    | nil => rfl
    | cons m ms =>
      have hlength := congrArg List.length (toList_object (m :: ms) [])
      simp only [length_append, length_cons] at hlength
      have hread := hmembers m ms [] rest h (by omega)
      obtain ⟨cs, hcs⟩ := startsMember_texts m ms ('}' :: rest)
      rw [hcs] at hread
      rw [toList_object, hcs]
      exact hread

theorem readsElements_succ (hvalues : ReadsValues fuel) (helements : ReadsElements fuel) :
    ReadsElements (fuel + 1) := by
  intro j js acc rest h hfuel
  cases js with
  | nil =>
    have hvalue := hvalues j (']' :: rest) h.1 (Nat.lt_of_succ_lt_succ hfuel) (ends_cons (.inr (.inl rfl)))
    exact elements?_end hvalue
  | cons k js =>
    rw [texts, texts, toList_separated_cons, ← texts] at hfuel ⊢
    rw [length_append, length_cons] at hfuel
    have hvalue := hvalues j (',' :: ((",".intercalate (texts (k :: js))).toList ++ ']' :: rest)) h.1 (by omega)
      (ends_cons (.inl rfl))
    have hrest := helements k js (j :: acc) rest h.2 (by omega)
    rw [append_assoc, cons_append, elements?_comma hvalue, hrest, reverse_cons, append_assoc]
    rfl

theorem readsMembers_succ (hvalues : ReadsValues fuel) (hmembers : ReadsMembers fuel) : ReadsMembers (fuel + 1) := by
  rintro ⟨key, j⟩ ms acc rest ⟨⟨hkey, hj⟩, hms⟩ hfuel
  obtain ⟨key, rfl⟩ := isSome_iff_exists.mp hkey
  have hlength := congrArg List.length (toList_member key j [])
  simp only [length_append, length_cons] at hlength
  cases ms with
  | nil =>
    have htext : (",".intercalate (memberTexts [(some key, j)])).toList = (quote key ++ ":" ++ j.text).toList := rfl
    rw [htext] at hfuel ⊢
    have hvalue := hvalues j ('}' :: rest) hj (by omega) (ends_cons (.inr (.inr rfl)))
    rw [toList_member]
    exact members?_end hvalue
  | cons m ms =>
    have htext : (",".intercalate (memberTexts ((some key, j) :: m :: ms))).toList =
        (quote key ++ ":" ++ j.text).toList ++ ',' :: (",".intercalate (memberTexts (m :: ms))).toList :=
      toList_separated_cons _ _ _
    rw [htext] at hfuel ⊢
    rw [length_append, length_cons] at hfuel
    have hvalue := hvalues j (',' :: ((",".intercalate (memberTexts (m :: ms))).toList ++ '}' :: rest)) hj (by omega)
      (ends_cons (.inl rfl))
    have hrest := hmembers m ms ((some key, j) :: acc) rest hms (by omega)
    rw [append_assoc, cons_append, toList_member, members?_comma hvalue, hrest, reverse_cons, append_assoc]
    rfl

/-- Every amount of fuel suffices for the texts below its length. -/
theorem reads (fuel : Nat) : ReadsValues fuel ∧ ReadsElements fuel ∧ ReadsMembers fuel := by
  induction fuel with
  | zero =>
    refine ⟨?_, ?_, ?_⟩
    · exact fun _ _ _ hfuel => absurd hfuel (Nat.not_lt_zero _)
    · exact fun _ _ _ _ _ hfuel => absurd hfuel (Nat.not_lt_zero _)
    · exact fun _ _ _ _ _ hfuel => absurd hfuel (Nat.not_lt_zero _)
  | succ fuel ih =>
    obtain ⟨hvalues, helements, hmembers⟩ := ih
    exact ⟨readsValues_succ helements hmembers, readsElements_succ hvalues helements,
      readsMembers_succ hvalues hmembers⟩

end Reader

theorem parse?_text (h : j.Plain) : parse? j.text = some j := by
  have hread := (Reader.reads (2 * j.text.toList.length + 2)).1 j [] h (by omega) (by simp [Ends])
  rw [append_nil] at hread
  rw [parse?]
  simp only [hread]
  rfl

end Aero.Json
