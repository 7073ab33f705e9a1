import Aero.IR.Printer
import Aero.Proofs.Label

/-!
Quoted bytes in a module's text. A reader takes a literal apart in one pass: it gives back exactly the
bytes that were written and stops at the quote after them, whatever the bytes are and whatever follows.
-/

namespace Aero.IR

open List Option

/-- The digits of an escape. -/
def hexDigits : List Char := "0123456789ABCDEF".toList

/-- Reads the bytes of a literal up to the quote that ends it, and gives the text after that quote. -/
def quoted? : List Char → Option (List UInt8 × List Char)
  | [] => none
  | '"' :: rest => some ([], rest)
  | '\\' :: high :: low :: rest => do
    let h ← hexDigits.idxOf? high
    let l ← hexDigits.idxOf? low
    (quoted? rest).map fun p => (.ofNat (16 * h + l) :: p.1, p.2)
  | '\\' :: _ => none
  | c :: rest => (quoted? rest).map fun p => (.ofNat c.toNat :: p.1, p.2)

/-- Reads the first literal of a text. -/
def firstQuoted? (text : String) : Option (List UInt8 × List Char) :=
  quoted? ((text.toList.dropWhile (· ≠ '"')).drop 1)

/-- The type and value that a string constant is written with. -/
def initialiser (s : String) : String :=
  "[" ++ toString (utf8Bytes s ++ [0]).length ++ " x i8] c\"" ++ escapeBytes (utf8Bytes s ++ [0]) ++ "\""

/-- A printable character of ASCII other than a quote. -/
abbrev IsSafe (c : Char) : Prop := ' ' ≤ c ∧ c ≤ '~' ∧ c ≠ '"'

variable {b : UInt8} {bytes : List UInt8} {c : Char} {before after : List Char}

/-! ### One byte -/

theorem hexUpper_digit {n : Nat} (hn : n < 16) :
    hexUpper n ∈ hexDigits ∧ hexDigits.idxOf? (hexUpper n) = some n := by
  have hall : ∀ n : Fin 16, hexUpper n ∈ hexDigits ∧ hexDigits.idxOf? (hexUpper n) = some n.val := by decide +kernel
  exact hall ⟨n, hn⟩

theorem hexDigits_safe : ∀ c ∈ hexDigits, IsSafe c ∧ c ≠ '\\' := forall_iff_forall_mem.mp (by decide +kernel)

/-- A byte is written as a character with its number, or as an escape with its two halves. -/
theorem escapeByte_cases (b : UInt8) :
    (∃ c, escapeByte b = [c] ∧ IsSafe c ∧ c ≠ '\\' ∧ UInt8.ofNat c.toNat = b) ∨
    ∃ high low h l, escapeByte b = ['\\', high, low] ∧ (high ∈ hexDigits ∧ hexDigits.idxOf? high = some h) ∧
      (low ∈ hexDigits ∧ hexDigits.idxOf? low = some l) ∧ UInt8.ofNat (16 * h + l) = b := by
  have hall : ∀ n : Fin 256, isPlainByte (.ofNat n) = true →
      IsSafe (Char.ofNat n) ∧ Char.ofNat n ≠ '\\' ∧ (Char.ofNat n).toNat = n := by
    decide +kernel
  unfold escapeByte
  split
  · next hplain =>
    obtain ⟨hsafe, hslash, hnat⟩ := hall ⟨b.toNat, b.toNat_lt⟩ (by simpa using hplain)
    exact .inl ⟨_, rfl, hsafe, hslash, hnat.symm ▸ UInt8.ofNat_toNat⟩
  · refine .inr ⟨_, _, _, _, rfl, hexUpper_digit (Nat.div_lt_of_lt_mul b.toNat_lt),
      hexUpper_digit (Nat.mod_lt _ (by decide)), ?_⟩
    rw [Nat.div_add_mod, UInt8.ofNat_toNat]

/-- A byte is read back from what it is written as, and the reader goes on right after it. -/
theorem quoted?_escapeByte (b : UInt8) (rest : List Char) :
    quoted? (escapeByte b ++ rest) = (quoted? rest).map fun p => (b :: p.1, p.2) := by
  obtain ⟨c, htext, hsafe, hslash, rfl⟩ | ⟨high, low, h, l, htext, ⟨-, hhigh⟩, ⟨-, hlow⟩, rfl⟩ := escapeByte_cases b
  · rw [htext, singleton_append, quoted?]
    exacts [hsafe.2.2, fun _ _ _ h _ => hslash h, hslash]
  · rw [htext]
    simp only [cons_append, nil_append, quoted?, hhigh, hlow, bind_eq_bind, bind_some]

theorem safe_of_mem_escapeByte (hc : c ∈ escapeByte b) : IsSafe c := by
  obtain ⟨d, htext, hd, -⟩ | ⟨high, low, _, _, htext, ⟨hhigh, -⟩, ⟨hlow, -⟩, -⟩ := escapeByte_cases b
  · rw [htext, mem_singleton] at hc
    exact hc ▸ hd
  · simp only [htext, mem_cons, not_mem_nil, or_false] at hc
    rcases hc with rfl | rfl | rfl
    · decide
    · exact (hexDigits_safe c hhigh).1
    · exact (hexDigits_safe c hlow).1

/-! ### Many bytes -/

theorem toList_escapeBytes (bytes : List UInt8) : (escapeBytes bytes).toList = bytes.flatMap escapeByte :=
  String.toList_ofList

theorem safe_of_mem_escapeBytes (hc : c ∈ (escapeBytes bytes).toList) : IsSafe c := by
  rw [toList_escapeBytes] at hc
  obtain ⟨b, -, hc⟩ := mem_flatMap.mp hc
  exact safe_of_mem_escapeByte hc

/-- A literal ends where it was ended: what follows it is not read as a part of it. -/
theorem quoted?_escapeBytes (bytes : List UInt8) (rest : List Char) :
    quoted? ((escapeBytes bytes).toList ++ '"' :: rest) = some (bytes, rest) := by
  rw [toList_escapeBytes]
  induction bytes with
  | nil => simp [quoted?]
  | cons b bytes ih => rw [flatMap_cons, append_assoc, quoted?_escapeByte, ih, map_some]

/-- A backslash is never a digit of an escape or a byte of its own. -/
theorem digits_after_backslash (h : bytes.flatMap escapeByte = before ++ '\\' :: after) :
    ∃ high low rest, after = high :: low :: rest ∧ high ∈ hexDigits ∧ low ∈ hexDigits := by
  induction bytes generalizing before with
  | nil => simp at h
  | cons b bytes ih =>
    rw [flatMap_cons] at h
    obtain ⟨d, htext, -, hd, -⟩ | ⟨high, low, _, _, htext, ⟨hhigh, -⟩, ⟨hlow, -⟩, -⟩ := escapeByte_cases b
    · rw [htext] at h
      cases before with
      | nil => exact absurd (cons.inj h).1 hd
      | cons c before => exact ih (cons.inj h).2
    · rw [htext] at h
      rcases before with _ | ⟨_, _ | ⟨_, _ | ⟨_, before⟩⟩⟩
      · exact ⟨high, low, _, (cons.inj h).2.symm, hhigh, hlow⟩
      · exact absurd (cons.inj (cons.inj h).2).1 (hexDigits_safe high hhigh).2
      · exact absurd (cons.inj (cons.inj (cons.inj h).2).2).1 (hexDigits_safe low hlow).2
      · exact ih (cons.inj (cons.inj (cons.inj h).2).2).2

theorem newline_not_mem_escapeBytes (bytes : List UInt8) : '\n' ∉ (escapeBytes bytes).toList :=
  fun hc => absurd (safe_of_mem_escapeBytes hc).1 (by decide)

/-! ### Literals in a line -/

theorem firstQuoted?_append {text : String} (hquote : '"' ∉ before)
    (htext : text.toList = before ++ '"' :: ((escapeBytes bytes).toList ++ '"' :: after)) :
    firstQuoted? text = some (bytes, after) := by
  have hskip : ∀ c ∈ before, decide (c ≠ '"') = true := fun c hc => decide_eq_true fun heq => hquote (heq ▸ hc)
  rw [firstQuoted?, htext, dropWhile_append_of_pos hskip]
  simpa using quoted?_escapeBytes bytes after

theorem byteArray_toList_loop (bytes : ByteArray) (i : Nat) (acc : List UInt8) :
    ByteArray.toList.loop bytes i acc = acc.reverse ++ bytes.data.toList.drop i := by
  fun_induction ByteArray.toList.loop bytes i acc with
  | case1 i acc hi ih =>
    have hget : bytes.get! i = bytes.data[i] := getElem!_pos bytes.data i hi
    have hdrop := drop_eq_getElem_cons (l := bytes.data.toList) hi
    rw [ih, hdrop, hget, reverse_cons, append_assoc, Array.getElem_toList]
    rfl
  | case2 i acc hi => rw [drop_eq_nil_of_le (by simpa using hi), append_nil]

theorem utf8Bytes_injective : utf8Bytes.Injective := by
  intro s t h
  have htoList (bytes : ByteArray) : bytes.toList = bytes.data.toList := byteArray_toList_loop bytes 0 []
  rw [utf8Bytes, utf8Bytes, htoList, htoList] at h
  exact String.toByteArray_inj.mp (ByteArray.ext (Array.toList_inj.mp h))

theorem ne_of_mem_digits {n : Nat} (hc : c ∈ (toString n).toList) : c ≠ '"' ∧ c ≠ '\n' := by
  have hdigit : c.isDigit = true := isDigit_of_mem_digits (by simpa using hc)
  constructor <;> (rintro rfl; cases hdigit)

/-- The length of a constant is written in digits, so its literal is the first one of its initialiser. -/
theorem firstQuoted?_initialiser (s : String) : firstQuoted? (initialiser s) = some (utf8Bytes s ++ [0], []) := by
  have hquote : '"' ∉ ("[" ++ toString (utf8Bytes s ++ [0]).length ++ " x i8] c").toList := by
    have hdigits : '"' ∉ (toString (utf8Bytes s ++ [0]).length).toList := fun hc => (ne_of_mem_digits hc).1 rfl
    simpa using hdigits
  exact firstQuoted?_append hquote (by simp [initialiser])

theorem initialiser_injective : initialiser.Injective := by
  intro s t h
  have hread := firstQuoted?_initialiser s
  rw [h, firstQuoted?_initialiser, some.injEq, Prod.mk.injEq] at hread
  exact utf8Bytes_injective (append_cancel_right hread.1.symm)

theorem newline_not_mem_initialiser (s : String) : '\n' ∉ (initialiser s).toList := by
  have hdigits : '\n' ∉ (toString (utf8Bytes s ++ [0]).length).toList := fun hc => (ne_of_mem_digits hc).2 rfl
  have hbytes := newline_not_mem_escapeBytes (utf8Bytes s ++ [0])
  simp only [initialiser, String.toList_append, mem_append, hdigits, hbytes, or_false]
  decide

theorem toList_inlineAsm (code constraints : String) (args : List Value) (sideEffects : Bool)
    (label : BlockId → String) : ((Instr.inlineAsm code constraints args sideEffects).text label).toList =
      ("call void asm " ++ if sideEffects then "sideeffect " else "").toList ++
        '"' :: ((escapeBytes (utf8Bytes code)).toList ++
          '"' :: (", \"" ++ constraints ++ "\"(" ++ Instr.operandList args ++ ")").toList) := by
  have htext : (Instr.inlineAsm code constraints args sideEffects).text label =
      "call void asm " ++ (if sideEffects then "sideeffect " else "") ++ "\"" ++ escapeBytes (utf8Bytes code) ++
        "\", \"" ++ constraints ++ "\"(" ++ Instr.operandList args ++ ")" := rfl
  simp [htext]

/-- Whatever bytes are written, only printable characters and no quote stand in a literal, each backslash begins
an escape, and the literal ends at the quote behind it. So constants are told apart by their initialisers, and
neither a constant nor assembly code ends its literal or its line. -/
theorem literals_safe :
    (∀ (bytes : List UInt8) (rest : List Char),
      (∀ c ∈ (escapeBytes bytes).toList, ' ' ≤ c ∧ c ≤ '~' ∧ c ≠ '"') ∧
      (∀ before after, (escapeBytes bytes).toList = before ++ '\\' :: after →
        ∃ high low rest, after = high :: low :: rest ∧ high ∈ hexDigits ∧ low ∈ hexDigits) ∧
      quoted? ((escapeBytes bytes).toList ++ '"' :: rest) = some (bytes, rest)) ∧
    initialiser.Injective ∧
    (∀ (g : Global) (s : String), g.init = .str s → g.line = "@" ++ g.name ++ " = private " ++
      (if g.constant then "constant" else "global") ++ " " ++ initialiser s) ∧
    (∀ s, firstQuoted? (initialiser s) = some (utf8Bytes s ++ [0], []) ∧ '\n' ∉ (initialiser s).toList) ∧
    ∀ (code constraints : String) (args : List Value) (sideEffects : Bool) (label : BlockId → String),
      firstQuoted? ((Instr.inlineAsm code constraints args sideEffects).text label) =
        some (utf8Bytes code, (", \"" ++ constraints ++ "\"(" ++ Instr.operandList args ++ ")").toList) ∧
      ('\n' ∈ ((Instr.inlineAsm code constraints args sideEffects).text label).toList ↔
        '\n' ∈ constraints.toList ∨ '\n' ∈ (Instr.operandList args).toList) := by
  refine ⟨fun bytes rest => ⟨fun c => safe_of_mem_escapeBytes, fun before after h => ?_,
    quoted?_escapeBytes bytes rest⟩, initialiser_injective, fun g s hg => ?_,
    fun s => ⟨firstQuoted?_initialiser s, newline_not_mem_initialiser s⟩,
    fun code constraints args sideEffects label => ⟨firstQuoted?_append ?_ (toList_inlineAsm ..), ?_⟩⟩
  · exact digits_after_backslash (toList_escapeBytes bytes ▸ h)
  · simp only [Global.line, hg, initialiser, String.append_assoc]
    rfl
  · cases sideEffects <;> decide
  · have hcode := newline_not_mem_escapeBytes (utf8Bytes code)
    rw [toList_inlineAsm]
    cases sideEffects <;> simp [hcode]

end Aero.IR
