import Aero.IR.Printer
import Aero.Proofs.Parallel.Renaming

/-!
What the text of a function tells about the string constants that it refers to. No operand is followed by a digit, so
the text tells their numbers.
-/

namespace Aero.IR

open List

variable {ρ : String → String} {v : Value} {x y : List Char} {f : Function} {α : Type} {P : α → Prop} {as : List α}

/-! ### Lines of a text -/

/-- A line of a block below its label. -/
abbrev Line := Instr ⊕ Terminator

namespace Line

def text (label : BlockId → String) (a : Line) : String := a.elim (·.text label) (·.text label)

def values (a : Line) : List Value := a.elim Instr.values Terminator.operands

def mapOperands (φ : Value → Value) (a : Line) : Line := a.map (.mapOperands φ) (.mapOperands φ)

end Line

def Block.lines (b : Block) : List Line := b.instrs.map .inl ++ b.term.toList.map .inr

def Block.text (label : BlockId → String) (b : Block) : List Char :=
  (b.label ++ ":\n").toList ++ b.lines.flatMap fun a => ("  " ++ a.text label ++ "\n").toList

def unlines (lines : List String) : List Char := lines.flatMap (·.toList ++ ['\n'])

theorem unlines_blockLines (f : Function) (b : Block) : unlines (f.blockLines b) = b.text f.labelOf := by
  have hlines : f.blockLines b = (b.label ++ ":") :: b.lines.map fun a => "  " ++ a.text f.labelOf := by
    cases hterm : b.term <;> simp [Function.blockLines, Block.lines, hterm, Line.text]
  rw [hlines, Block.text, unlines, flatMap_cons, flatMap_map]
  simp

/-- Groups of lines, with an empty line between two of them. -/
theorem unlines_intercalate {groups : List (List String)} (h : groups ≠ []) :
    '\n' :: unlines ([""].intercalate groups) = groups.flatMap fun lines => '\n' :: unlines lines := by
  induction groups with
  | nil => exact absurd rfl h
  | cons lines groups ih =>
    cases groups with
    | nil => simp
    | cons lines' groups =>
      rw [flatMap_cons, ← ih (cons_ne_nil _ _), intercalate_cons_cons]
      simp [unlines]

theorem Function.toList_text (hdefined : f.isDeclaration = false) :
    f.text.toList = ("define " ++ f.signature ++ " \x7b").toList ++
      ((f.blocks.flatMap fun b => '\n' :: b.text f.labelOf) ++ ['\x7d', '\n']) := by
  have hlines : f.lines =
      ("define " ++ f.signature ++ " \x7b") :: ([""].intercalate (f.blocks.map f.blockLines) ++ ["\x7d"]) := by
    simp [lines, hdefined]
  have hblocks : (f.blocks.flatMap fun b => '\n' :: b.text f.labelOf) =
      '\n' :: unlines ([""].intercalate (f.blocks.map f.blockLines)) := by
    have hne : f.blocks.map f.blockLines ≠ [] := by simpa [isDeclaration] using hdefined
    simp [unlines_intercalate hne, flatMap_map, unlines_blockLines]
  rw [text, String.toList_join, hlines, hblocks]
  simp [unlines, flatMap_def, Function.comp_def]

/-! ### Operands -/

/-- A text that does not start with a digit. -/
def Apart (x : List Char) : Prop := x.head?.any (!·.isDigit) = true

@[simp] theorem apart_cons {c : Char} : Apart (c :: x) ↔ c.isDigit = false := by simp [Apart]

theorem takeWhile_toDigits_append (n : Nat) (h : Apart x) :
    (Nat.toDigits 10 n ++ x).takeWhile Char.isDigit = Nat.toDigits 10 n := by
  have hrest : x.takeWhile Char.isDigit = [] := by
    cases x with
    | nil => rfl
    | cons c x => exact takeWhile_cons_of_neg (by simpa using h)
  rw [takeWhile_append_of_pos fun c hc => isDigit_of_mem_digits hc, hrest, append_nil]

/-- The name of a string ends where its number ends. -/
theorem stringName_append_inj {i j : Nat} (hx : Apart x) (hy : Apart y)
    (h : (stringName i).toList ++ x = (stringName j).toList ++ y) : i = j ∧ x = y := by
  have hdigits : Nat.toDigits 10 i ++ x = Nat.toDigits 10 j ++ y := by simpa [stringName] using h
  have hnumber := congrArg (takeWhile Char.isDigit) hdigits
  rw [takeWhile_toDigits_append i hx, takeWhile_toDigits_append j hy] at hnumber
  obtain rfl := toDigits_injective hnumber
  exact ⟨rfl, append_cancel_left hdigits⟩

theorem Value.rename_global {name : String} (h : v.kind = .global name) :
    v.rename ρ = { v with kind := .global (ρ name) } := by
  rw [Value.rename, h]

theorem Value.rename_eq_self_iff : v.rename ρ = v ↔ ∀ name, v.kind = .global name → ρ name = name := by
  constructor
  · intro h name hkind
    rw [rename_global hkind] at h
    exact ValueKind.global.inj ((congrArg Value.kind h).trans hkind)
  · intro h
    cases hkind : v.kind with
    | global name => rw [rename_global hkind, h name hkind, ← hkind]
    | _ => rw [Value.rename, hkind]

@[simp] theorem Value.rename_ty (ρ : String → String) (v : Value) : (v.rename ρ).ty = v.ty := by
  unfold Value.rename
  split <;> rfl

/-- A renaming leaves an operand as it is, or changes the number of a string. -/
def Value.Renumbered (ρ : String → String) (v : Value) : Prop :=
  v.rename ρ = v ∨ ∃ i j, v.kind = .global (stringName i) ∧ ρ (stringName i) = stringName j

/-- Two texts are the same, with what may follow them, if and only if a condition holds and the same follows them. -/
abbrev Tells (Follows : List Char → Prop) (s t : List Char) (P : Prop) : Prop :=
  ∀ ⦃x y⦄, Follows x → Follows y → (s ++ x = t ++ y ↔ P ∧ x = y)

theorem Value.Renumbered.tells (h : v.Renumbered ρ) :
    Tells Apart (v.rename ρ).text.toList v.text.toList (v.rename ρ = v) := by
  intro x y hx hy
  rcases h with hsame | ⟨i, j, hkind, hname⟩
  · simp [hsame]
  · have hrename : v.rename ρ = { v with kind := .global (stringName j) } := by rw [rename_global hkind, hname]
    have hold : v.text = "@" ++ stringName i := by rw [Value.text, hkind]
    constructor
    · intro heq
      rw [hrename, hold, Value.text, String.toList_append, String.toList_append, append_assoc, append_assoc,
        append_cancel_left_eq] at heq
      obtain ⟨rfl, hxy⟩ := stringName_append_inj hx hy heq
      exact ⟨by rw [hrename, ← hkind], hxy⟩
    · rintro ⟨hsame, rfl⟩
      rw [hsame]

theorem Value.Renumbered.tells_typed (h : v.Renumbered ρ) :
    Tells Apart (v.rename ρ).typed.toList v.typed.toList (v.rename ρ = v) := by
  intro x y hx hy
  simpa [Value.typed] using h.tells hx hy

/-- A list is told by its parts, if what separates them does not start with a digit. -/
theorem tells_intercalate {s : List Char} {p q : α → List Char}
    (hs : ∀ x, Apart (s ++ x)) (h : ∀ a ∈ as, Tells Apart (q a) (p a) (P a)) :
    Tells Apart (s.intercalate (as.map q)) (s.intercalate (as.map p)) (∀ a ∈ as, P a) := by
  intro x y hx hy
  induction as with
  | nil => simp
  | cons a as ih =>
    obtain ⟨ha, has⟩ := forall_mem_cons.mp h
    cases as with
    | nil => simpa using ha hx hy
    | cons b as =>
      have hrest := ih has
      simp only [map_cons, intercalate_cons_cons, append_assoc] at hrest ⊢
      rw [ha (hs _) (hs _), append_cancel_left_eq, hrest, forall_mem_cons (a := a), and_assoc]

theorem tells_operands {vs : List Value} (h : ∀ v ∈ vs, v.Renumbered ρ) : Tells Apart
    (Instr.operandList (vs.map (.rename ρ))).toList (Instr.operandList vs).toList (∀ v ∈ vs, v.rename ρ = v) := by
  have hlist := tells_intercalate (s := ", ".toList) (fun _ => rfl) fun v hv => (h v hv).tells_typed
  simpa [Instr.operandList, String.toList_intercalate, Function.comp_def] using hlist

theorem tells_incoming {incoming : List (Value × BlockId)} (label : BlockId → String)
    (h : ∀ p ∈ incoming, p.1.Renumbered ρ) : Tells Apart
      (", ".intercalate ((incoming.map fun p => (p.1.rename ρ, p.2)).map fun (v, b) =>
        "[ " ++ v.text ++ ", %" ++ label b ++ " ]")).toList
      (", ".intercalate (incoming.map fun (v, b) => "[ " ++ v.text ++ ", %" ++ label b ++ " ]")).toList
      (∀ p ∈ incoming, p.1.rename ρ = p.1) := by
  have hitem (p) (hp : p ∈ incoming) : Tells Apart ("[ " ++ (p.1.rename ρ).text ++ ", %" ++ label p.2 ++ " ]").toList
      ("[ " ++ p.1.text ++ ", %" ++ label p.2 ++ " ]").toList (p.1.rename ρ = p.1) := by
    intro x y _ _
    simp [(h p hp).tells]
  have hlist := tells_intercalate (s := ", ".toList) (fun _ => rfl) hitem
  simpa [String.toList_intercalate, Function.comp_def] using hlist

/-! ### Functions -/

section Lines

variable (label : BlockId → String)

theorem tells_instr {i : Instr} (h : ∀ v ∈ i.values, v.Renumbered ρ) :
    Tells Apart ((i.mapOperands (.rename ρ)).text label).toList (i.text label).toList
      (∀ v ∈ i.values, v.rename ρ = v) := by
  intro x y hx hy
  cases i with
  | phi dst ty incoming =>
    have hincoming := tells_incoming label fun p hp => h p.1 (mem_map_of_mem hp)
    unfold Instr.mapOperands Instr.text
    simpa [Instr.values, Instr.operands, Instr.incoming] using hincoming hx hy
  | gep dst base ptr indices =>
    obtain ⟨hptr, hindices⟩ := forall_mem_cons.mp (by simpa [Instr.values, Instr.operands, Instr.incoming] using h)
    unfold Instr.mapOperands Instr.text
    simp [Instr.values, Instr.operands, Instr.incoming, hptr.tells_typed, tells_operands hindices hx hy, and_assoc]
  | call dst callee args ret | inlineAsm code constraints args sideEffects =>
    have hargs : ∀ v ∈ args, v.Renumbered ρ := by simpa [Instr.values, Instr.operands, Instr.incoming] using h
    unfold Instr.mapOperands Instr.text
    simp [Instr.values, Instr.operands, Instr.incoming, tells_operands hargs]
  | _ =>
    unfold Instr.mapOperands Instr.text
    simp [Instr.values, Instr.operands, Instr.incoming] at h ⊢ <;>
    simp [h, Value.Renumbered.tells_typed, Value.Renumbered.tells, hx, hy, and_assoc]

theorem tells_terminator {t : Terminator} (h : ∀ v ∈ t.operands, v.Renumbered ρ) :
    Tells Apart ((t.mapOperands (.rename ρ)).text label).toList (t.text label).toList
      (∀ v ∈ t.operands, v.rename ρ = v) := by
  intro x y hx hy
  rcases t with _ | ⟨cond, _, _⟩ | _ | _
  case condBr =>
    simp [Terminator.mapOperands, Terminator.text, Terminator.operands, (h cond mem_cons_self).tells_typed]
  case ret value =>
    cases value with
    | none => simp [Terminator.mapOperands, Terminator.text, Terminator.operands]
    | some v =>
      simp [Terminator.mapOperands, Terminator.text, Terminator.operands, (h v mem_cons_self).tells_typed hx hy]
  all_goals simp [Terminator.mapOperands, Terminator.text, Terminator.operands]

theorem tells_line {a : Line} (h : ∀ v ∈ a.values, v.Renumbered ρ) :
    Tells (fun _ => True) ("  " ++ (a.mapOperands (.rename ρ)).text label ++ "\n").toList
      ("  " ++ a.text label ++ "\n").toList (∀ v ∈ a.values, v.rename ρ = v) := by
  intro x y _ _
  have htells : Tells Apart ((a.mapOperands (.rename ρ)).text label).toList (a.text label).toList
      (∀ v ∈ a.values, v.rename ρ = v) := by
    cases a with
    | inl i => exact tells_instr label h
    | inr t => exact tells_terminator label h
  simp [htells]

theorem tells_flatMap {p q : α → List Char} (h : ∀ a ∈ as, Tells (fun _ => True) (q a) (p a) (P a)) :
    Tells (fun _ => True) (as.flatMap q) (as.flatMap p) (∀ a ∈ as, P a) := by
  intro x y _ _
  induction as with
  | nil => simp
  | cons a as ih =>
    obtain ⟨ha, has⟩ := forall_mem_cons.mp h
    simp only [flatMap_cons, append_assoc, ha trivial trivial, ih has, forall_mem_cons, and_assoc]

theorem tells_block {b : Block} (h : ∀ v ∈ b.values, v.Renumbered ρ) :
    Tells (fun _ => True) ((b.mapOperands (.rename ρ)).text label) (b.text label) (∀ v ∈ b.values, v.rename ρ = v) := by
  have hvalues : b.values = b.lines.flatMap Line.values := by
    simp [Block.values, Block.lines, flatMap_map, Line.values]
  have hlines : (b.mapOperands (.rename ρ)).lines = b.lines.map (.mapOperands (.rename ρ)) := by
    cases hterm : b.term <;> simp [Block.lines, Block.mapOperands, hterm, Line.mapOperands]
  rw [hvalues, forall_mem_flatMap] at h ⊢
  intro x y hx hy
  rw [Block.text, hlines, flatMap_map, Block.text, append_assoc, append_assoc]
  exact (append_right_inj _).trans (tells_flatMap (fun a ha => tells_line label (h a ha)) hx hy)

end Lines

theorem labelOf_mapOperands (f : Function) (φ : Value → Value) : (f.mapOperands φ).labelOf = f.labelOf := by
  funext id
  have hblock : (f.mapOperands φ).block? id = (f.block? id).map (·.mapOperands φ) := find?_map
  unfold Function.labelOf
  rw [hblock]
  cases f.block? id <;> rfl

/-- The text of a function does not change if and only if its operands do not. -/
theorem Function.text_rename_eq_iff (hρ : ∀ v ∈ f.values, v.Renumbered ρ) :
    (f.rename ρ).text = f.text ↔ ∀ v ∈ f.values, v.rename ρ = v := by
  have hdeclaration : (f.rename ρ).isDeclaration = f.isDeclaration := by
    simp [isDeclaration, rename, mapOperands]
  cases hdefined : f.isDeclaration with
  | true =>
    have hblocks : f.blocks = [] := isEmpty_iff.mp hdefined
    have hsame : f.rename ρ = f := by
      cases f
      cases hblocks
      rfl
    simp [hsame, values, hblocks]
  | false =>
    have hsignature : (f.rename ρ).signature = f.signature := by
      simp only [signature, hdeclaration]
      rfl
    have hlabels : (f.rename ρ).labelOf = f.labelOf := labelOf_mapOperands f _
    have hblocks : (f.rename ρ).blocks = f.blocks.map (.mapOperands (.rename ρ)) := rfl
    have hblock (b) (hb : b ∈ f.blocks) : Tells (fun _ => True) ('\n' :: (b.mapOperands (.rename ρ)).text f.labelOf)
        ('\n' :: b.text f.labelOf) (∀ v ∈ b.values, v.rename ρ = v) := by
      intro x y hx hy
      simpa using tells_block f.labelOf (fun v hv => hρ v (mem_flatMap.mpr ⟨b, hb, hv⟩)) hx hy
    rw [← String.toList_inj, toList_text (hdeclaration.trans hdefined), toList_text hdefined, hsignature, hlabels,
      hblocks, flatMap_map, append_cancel_left_eq, tells_flatMap hblock trivial trivial, values, forall_mem_flatMap]
    simp

section Strings

variable {m m' : Module}

theorem Renames.renumbered (h : Renames m m' ρ f) (hm : m.Interned) (hm' : m'.Interned)
    (hv : v ∈ f.values) : v.Renumbered ρ := by
  by_cases hstring : ∃ name s, v.kind = .global name ∧ m.stringConstant? name = some s
  · obtain ⟨name, s, hkind, hs⟩ := hstring
    obtain ⟨g, hg, rfl, _⟩ := Module.exists_global hs
    obtain ⟨g', hg', hname, _⟩ := Module.exists_global ((h.contents _ ⟨v, hv, hkind⟩).trans hs)
    obtain ⟨i, hi⟩ := hm.exists_stringName hg
    obtain ⟨j, hj⟩ := hm'.exists_stringName hg'
    exact .inr ⟨i, j, hi ▸ hkind, by rw [← hi, ← hname, hj]⟩
  · refine .inl (Value.rename_eq_self_iff.mpr fun name hkind => h.other name ?_)
    exact Option.eq_none_iff_forall_ne_some.mpr fun s hs => hstring ⟨name, s, hkind, hs⟩

/-- Under a renaming of strings, the text of a function stays the same if and only if each string that it
refers to has the same contents under its old name. -/
theorem Renames.text_eq_iff (h : Renames m m' ρ f) (hm : m.Interned) (hm' : m'.Interned) : (f.rename ρ).text = f.text ↔
      ∀ name s, f.RefersTo name → m.stringConstant? name = some s → m'.stringConstant? name = some s := by
  rw [Function.text_rename_eq_iff fun v hv => h.renumbered hm hm' hv]
  constructor
  · rintro hsame name s ⟨v, hv, hkind⟩ hs
    have hname : ρ name = name := Value.rename_eq_self_iff.mp (hsame v hv) name hkind
    rw [← hs, ← h.contents name ⟨v, hv, hkind⟩, hname]
  · intro hstrings v hv
    refine Value.rename_eq_self_iff.mpr fun name hkind => ?_
    cases hs : m.stringConstant? name with
    | none => exact h.other name hs
    | some s =>
      exact hm'.stringConstant?_injective ((h.contents name ⟨v, hv, hkind⟩).trans hs)
        (hstrings name s ⟨v, hv, hkind⟩ hs)

end Strings

end Aero.IR
