import Aero.Inline
import Aero.Proofs.Label
import Mathlib.Data.List.Chain
import Mathlib.Data.List.Infix

/-!
Inline code. Its pieces are the only way to cut it into names with a dollar sign before them, each as long as it can be,
and the text between them. So references can be put back, and numbers that stand for them can be told from text. The
return type is that of the first `return` that ends a word, and begins it or comes right behind another `return`.
-/

namespace Aero.Inline

open List

variable {ps : List Piece} {code : String} {rest' cs seen name' : List Char} {c : Char}

/-- What a piece stands for in the code. -/
def Piece.source : Piece → List Char
  | text cs => cs
  | ref name => '$' :: name

def sourceOf (ps : List Piece) : List Char := ps.flatMap Piece.source

/-! ### Cutting code into pieces -/

section Lexing

variable {start more : Char → Bool} {name rest ds : List Char} {qs : List Piece}

/-- No dollar sign stands before the start of a name. -/
def Unmarked (start : Char → Bool) (cs : List Char) : Prop := cs.IsChain fun a b => ¬ (a = '$' ∧ start b = true)

/-- Code ends, or goes on with a dollar sign before the start of a name. -/
def Marked (start : Char → Bool) (cs : List Char) : Prop := cs = [] ∨ ∃ c rest, cs = '$' :: c :: rest ∧ start c = true

/-- A name that is as long as it can be before the rest of the code. -/
structure IsName (start more : Char → Bool) (name rest : List Char) : Prop where
  head : name.head?.any start = true
  chars : ∀ c ∈ name, more c = true
  stop : ∀ c ∈ rest.head?, more c = false

/-- Names are as long as they can be, and what lies between them is one text without any names. -/
def Lexed (start more : Char → Bool) : List Piece → Prop
  | [] => True
  | .text cs :: ps => (cs ≠ [] ∧ Unmarked start cs ∧ Marked start (sourceOf ps)) ∧ Lexed start more ps
  | .ref name :: ps => IsName start more name (sourceOf ps) ∧ Lexed start more ps

theorem IsName.marked (h : IsName start more name rest) : Marked start ('$' :: name ++ rest) := by
  cases name with
  | nil => cases h.head
  | cons c cs => exact .inr ⟨c, cs ++ rest, rfl, h.head⟩

/-- A reference to a name stands between two parts of the code. -/
def RefersAt (ps : List Piece) (u name v : List Char) : Prop :=
  ∃ before after, ps = before ++ .ref name :: after ∧ sourceOf before = u ∧ sourceOf after = v

theorem IsName.append_inj (h : IsName start more name rest)
    (h' : IsName start more name' rest') (heq : name ++ rest = name' ++ rest') : name = name' ∧ rest = rest' := by
  have hcut {name rest : List Char} (h : IsName start more name rest) : (name ++ rest).takeWhile more = name := by
    rw [takeWhile_append_of_pos h.chars]
    cases rest with
    | nil => simp
    | cons c rest => simp [h.stop c rfl]
  have hname : name = name' := by rw [← hcut h, heq, hcut h']
  subst hname
  exact ⟨rfl, append_cancel_left heq⟩

theorem Lexed.of_append (h : Lexed start more (ps ++ qs)) : Lexed start more qs := by
  induction ps with
  | nil => exact h
  | cons p ps ih => cases p <;> exact ih h.2

theorem Lexed.eq_nil (h : Lexed start more (ps ++ qs)) (hsource : sourceOf ps = []) : ps = [] := by
  cases ps with
  | nil => rfl
  | cons p ps =>
    have hp := (append_eq_nil_iff.mp hsource).1
    cases p with
    | text cs => exact absurd hp h.1.1
    | ref name => cases hp

variable (hstart : start '$' = false)
include hstart

/-- Text does not reach over the start of a name. -/
theorem Unmarked.eq_nil (hcs : Unmarked start cs) (hrest : Marked start rest)
    (h : Marked start (cs ++ rest)) : cs = [] := by
  rcases h with h | ⟨c, tail, h, hc⟩
  · exact (append_eq_nil_iff.mp h).1
  cases cs with
  | nil => rfl
  | cons a cs =>
    obtain ⟨ha, htail⟩ := List.cons.inj h
    cases cs with
    | nil =>
      rcases hrest with rfl | ⟨d, rest, rfl, _⟩
      · cases htail
      · rw [← (List.cons.inj htail).1, hstart] at hc
        cases hc
    | cons b cs => exact absurd ⟨ha, (List.cons.inj htail).1 ▸ hc⟩ (isChain_cons_cons.mp hcs).1

theorem Unmarked.append_inj (hcs : Unmarked start cs)
    (hds : Unmarked start ds) (hrest : Marked start rest) (hrest' : Marked start rest')
    (h : cs ++ rest = ds ++ rest') : cs = ds ∧ rest = rest' := by
  induction cs generalizing ds with
  | nil =>
    obtain rfl := hds.eq_nil hstart hrest' (h ▸ hrest)
    exact ⟨rfl, h⟩
  | cons c cs ih =>
    cases ds with
    | nil => cases hcs.eq_nil hstart hrest (h ▸ hrest')
    | cons d ds =>
      obtain ⟨rfl, htail⟩ := List.cons.inj h
      obtain ⟨rfl, hrest⟩ := ih hcs.tail hds.tail htail
      exact ⟨rfl, hrest⟩

variable (hmore : more '$' = false) (h : Lexed start more ps)
include hmore h

/-- Each name with a dollar sign before it, as long as it can be, is one of the pieces. -/
theorem Lexed.refersAt (hname : IsName start more name rest)
    (heq : sourceOf ps = cs ++ '$' :: (name ++ rest)) : RefersAt ps cs name rest := by
  induction ps generalizing cs with
  | nil => cases cs <;> cases heq
  | cons p ps ih =>
    have hps : Lexed start more ps := by cases p <;> exact h.2
    have hpast {u : List Char} (hcs : cs = p.source ++ u) : RefersAt (p :: ps) cs name rest := by
      subst hcs
      obtain ⟨before, after, rfl, rfl, rfl⟩ := ih hps (append_cancel_left (heq.trans (append_assoc ..)))
      exact ⟨p :: before, after, rfl, rfl, rfl⟩
    rcases append_eq_append_iff.mp heq with ⟨u, hcs, _⟩ | ⟨u, hp, hu⟩
    · exact hpast hcs
    cases p with
    | text ds =>
      -- The text would have to reach into the name.
      obtain rfl : ds = cs ++ u := hp
      have hunmarked : Unmarked start u := (isChain_append.mp h.1.2.1).2.1
      have hu := hunmarked.eq_nil hstart h.1.2.2 (hu ▸ hname.marked)
      exact hpast (u := []) (by simp [Piece.source, hu])
    | ref other =>
      cases cs with
      | nil =>
        obtain rfl : '$' :: other = u := hp
        obtain ⟨rfl, rfl⟩ := hname.append_inj h.1 (List.cons.inj hu).2
        exact ⟨[], ps, rfl, rfl, rfl⟩
      | cons c cs =>
        obtain ⟨rfl, rfl⟩ := List.cons.inj hp
        cases u with
        | nil => exact hpast (u := []) (by simp [Piece.source])
        | cons d u =>
          have hd := h.1.chars d (by simp)
          rw [← (List.cons.inj hu).1, hmore] at hd
          cases hd

theorem Lexed.refersAt_iff : RefersAt ps cs name rest ↔
    sourceOf ps = cs ++ '$' :: (name ++ rest) ∧ IsName start more name rest := by
  refine ⟨?_, fun ⟨heq, hname⟩ => h.refersAt hstart hmore hname heq⟩
  rintro ⟨before, after, rfl, rfl, rfl⟩
  exact ⟨flatMap_append, h.of_append.1⟩

/-- Code is cut into pieces in one way only. -/
theorem Lexed.unique (h' : Lexed start more qs) (heq : sourceOf ps = sourceOf qs) : ps = qs := by
  have hfirst {name : List Char} {ps qs : List Piece} (h : Lexed start more (.ref name :: ps))
      (h' : Lexed start more qs) (heq : sourceOf (.ref name :: ps) = sourceOf qs) :
      ∃ after, qs = .ref name :: after ∧ sourceOf ps = sourceOf after := by
    have hat : RefersAt qs [] name (sourceOf ps) := h'.refersAt hstart hmore h.1 heq.symm
    obtain ⟨before, after, rfl, hbefore, hafter⟩ := hat
    obtain rfl := h'.eq_nil hbefore
    exact ⟨after, rfl, hafter.symm⟩
  induction ps generalizing qs with
  | nil =>
    rw [← append_nil qs] at h'
    exact (h'.eq_nil heq.symm).symm
  | cons p ps ih =>
    cases p with
    | ref name =>
      obtain ⟨after, rfl, hafter⟩ := hfirst h h' heq
      rw [ih h.2 h'.2 hafter]
    | text cs =>
      cases qs with
      | nil => exact absurd (append_eq_nil_iff.mp heq).1 h.1.1
      | cons q qs =>
        cases q with
        | text ds =>
          obtain ⟨rfl, hrest⟩ := h.1.2.1.append_inj hstart h'.1.2.1 h.1.2.2 h'.1.2.2 heq
          rw [ih h.2 h'.2 hrest]
        | ref name =>
          obtain ⟨_, htext, _⟩ := hfirst h' h heq.symm
          cases htext

end Lexing

/-! ### The pieces of code -/

/-- What has been read of the current piece. -/
def Reading.source : Reading → List Char
  | text seen => seen.reverse
  | dollar seen => seen.reverse ++ ['$']
  | name seen => '$' :: seen.reverse

theorem sourceOf_textPiece (seen : List Char) : sourceOf (textPiece seen) = seen.reverse := by
  cases seen <;> simp [textPiece, sourceOf, Piece.source]

theorem sourceOf_append (ps qs : List Piece) : sourceOf (ps ++ qs) = sourceOf ps ++ sourceOf qs :=
  flatMap_append

@[simp] theorem sourceOf_nil : sourceOf [] = [] := rfl

@[simp] theorem sourceOf_ref (name : List Char) (ps : List Piece) :
    sourceOf (.ref name :: ps) = '$' :: (name ++ sourceOf ps) := rfl

theorem sourceOf_scan (r : Reading) (cs : List Char) : sourceOf (scan r cs) = r.source ++ cs := by
  fun_induction scan r cs <;> simp_all [sourceOf_append, sourceOf_textPiece, Reading.source]

/-- What has been read can begin a piece. -/
def Reading.Fits : Reading → Prop
  | text seen => Unmarked isIdentStart seen.reverse ∧ seen.head? ≠ some '$'
  | dollar seen => Unmarked isIdentStart (seen.reverse ++ ['$'])
  | name seen => seen.reverse.head?.any isIdentStart = true ∧ ∀ c ∈ seen, isIdentChar c = true

theorem isIdentChar_of_start (h : isIdentStart c = true) : isIdentChar c = true := by
  simp only [isIdentStart, isIdentChar, Char.isAlphanum, Bool.or_eq_true] at h ⊢
  exact h.imp_left .inl

theorem unmarked_snoc (h : Unmarked isIdentStart cs)
    (hlast : ∀ a ∈ cs.getLast?, ¬ (a = '$' ∧ isIdentStart c = true)) : Unmarked isIdentStart (cs ++ [c]) := by
  refine isChain_append.mpr ⟨h, isChain_singleton c, fun a ha b hb => ?_⟩
  cases hb
  exact hlast a ha

theorem lexed_textPiece (hseen : Unmarked isIdentStart seen.reverse)
    (hps : Lexed isIdentStart isIdentChar ps) (hmark : Marked isIdentStart (sourceOf ps)) :
    Lexed isIdentStart isIdentChar (textPiece seen ++ ps) := by
  cases seen with
  | nil => exact hps
  | cons c seen => exact ⟨⟨by simp, hseen, hmark⟩, hps⟩

theorem lexed_scan (r : Reading) (cs : List Char) (h : r.Fits) : Lexed isIdentStart isIdentChar (scan r cs) := by
  have hdollar : isIdentStart '$' = false := by decide
  fun_induction scan r cs with
  | case1 seen =>
    rw [← append_nil (textPiece seen)]
    exact lexed_textPiece h.1 trivial (.inl rfl)
  | case2 seen =>
    rw [← append_nil (textPiece _)]
    exact lexed_textPiece (by simpa [Reading.Fits] using h) trivial (.inl rfl)
  | case3 seen => exact ⟨⟨h.1, by simpa using h.2, by simp⟩, trivial⟩
  | case4 seen cs ih => exact ih (unmarked_snoc h.1 (by simp [hdollar]))
  | case5 seen c cs hc ih =>
    have hsnoc : Unmarked isIdentStart (seen.reverse ++ [c]) :=
      unmarked_snoc h.1 fun a ha hmark => h.2 (by rw [← hmark.1, ← getLast?_reverse]; exact ha)
    exact ih ⟨by simpa using hsnoc, by simpa using hc⟩
  | case6 seen c cs hc ih =>
    have hseen := (isChain_append.mp h).1
    refine lexed_textPiece hseen (ih ⟨by simpa using hc, ?_⟩) (.inr ⟨c, cs, sourceOf_scan _ _, hc⟩)
    simpa using isIdentChar_of_start hc
  | case7 seen cs _ ih => exact ih (by simpa [Reading.Fits] using unmarked_snoc h (by simp [hdollar]))
  | case8 seen c cs hc hne ih =>
    have hsnoc : Unmarked isIdentStart (seen.reverse ++ ['$'] ++ [c]) := unmarked_snoc h (by simp [hc])
    exact ih ⟨by simpa using hsnoc, by simpa using hne⟩
  | case9 seen c cs hc ih =>
    obtain ⟨d, hd, hstart⟩ := (Option.any_eq_true _ _).mp h.1
    exact ih ⟨by simp [hd, hstart], forall_mem_cons.mpr ⟨hc, h.2⟩⟩
  | case10 seen cs hc ih =>
    refine ⟨⟨h.1, by simpa using h.2, ?_⟩, ih (isChain_singleton _)⟩
    rw [sourceOf_scan]
    simpa [Reading.source] using hc
  | case11 seen c cs hc hne ih =>
    refine ⟨⟨h.1, by simpa using h.2, ?_⟩, ih ⟨isChain_singleton c, by simpa using hne⟩⟩
    rw [sourceOf_scan]
    simpa [Reading.source] using hc

theorem lexed_pieces (code : String) : Lexed isIdentStart isIdentChar (pieces code) :=
  lexed_scan _ _ ⟨isChain_nil, by simp⟩

theorem sourceOf_pieces (code : String) : sourceOf (pieces code) = code.toList := sourceOf_scan (.text []) code.toList

/-- The names that code refers to, as often as it does. -/
def mentions (code : String) : List String := (pieces code).filterMap Piece.name?

/-- Names, each once. -/
abbrev firstUses (l : List String) : List String :=
  l.foldl (fun names name => if names.contains name then names else names ++ [name]) []

theorem firstUses_ordered (l : List String) :
    (∀ a, a ∈ firstUses l ↔ a ∈ l) ∧ (firstUses l).Pairwise fun a b => l.idxOf a < l.idxOf b := by
  induction l using List.reverseRecOn with
  | nil => simp
  | append_singleton l name ih =>
    obtain ⟨hmem, horder⟩ := ih
    rw [firstUses, foldl_append, foldl_cons, foldl_nil, ← firstUses]
    generalize firstUses l = names at hmem horder ⊢
    have hkept : names.Pairwise fun a b => (l ++ [name]).idxOf a < (l ++ [name]).idxOf b := by
      refine horder.imp_of_mem fun ha hb h => ?_
      rwa [idxOf_append_of_mem ((hmem _).mp ha), idxOf_append_of_mem ((hmem _).mp hb)]
    by_cases hold : name ∈ l
    · rw [if_pos (by simpa using (hmem name).mpr hold)]
      refine ⟨fun a => ?_, hkept⟩
      rw [hmem, mem_append, mem_singleton]
      exact ⟨.inl, fun h => h.elim id fun h => h ▸ hold⟩
    · rw [if_neg (by simpa using fun h => hold ((hmem name).mp h))]
      refine ⟨fun a => by simp [hmem], pairwise_append.mpr ⟨hkept, pairwise_singleton _ _, ?_⟩⟩
      intro a ha b hb
      obtain rfl := mem_singleton.mp hb
      have ha := (hmem a).mp ha
      rw [idxOf_append_of_mem ha, idxOf_append_of_notMem hold]
      exact Nat.lt_of_lt_of_le (idxOf_lt_length_of_mem ha) (Nat.le_add_right _ _)

theorem toList_join_map (text : Piece → String) (ps : List Piece) :
    (String.join (ps.map text)).toList = ps.flatMap fun p => (text p).toList := by
  induction ps with
  | nil => rfl
  | cons p ps ih => rw [map_cons, String.join_cons, String.toList_append, ih, flatMap_cons]

theorem subst_source {names : List String} {operand : Nat → String}
    (h : ∀ i name, names[i]? = some name → operand i = "$" ++ name) (p : Piece) :
    (p.subst names operand).toList = p.source := by
  cases p with
  | text cs => exact String.toList_ofList
  | ref name =>
    unfold Piece.subst
    dsimp only
    split
    · next i hi =>
      obtain ⟨hlt, hname, _⟩ := findIdx?_eq_some_iff_getElem.mp hi
      rw [h i names[i] (getElem?_eq_getElem hlt), decide_eq_true_eq.mp hname]
      simp [Piece.source]
    · simp [Piece.source]

/-- Scanning loses nothing: references are exactly the names as long as can be that a dollar sign stands before, each
is listed once at its first use, and putting all of them back yields the code. -/
theorem pieces_lossless (code : String) : sourceOf (pieces code) = code.toList ∧
    (∀ u name v, RefersAt (pieces code) u name v ↔
      code.toList = u ++ '$' :: (name ++ v) ∧ IsName isIdentStart isIdentChar name v) ∧
    (∀ name, name ∈ references code ↔ name ∈ mentions code) ∧
    (references code).Pairwise (fun a b => (mentions code).idxOf a < (mentions code).idxOf b) ∧
    ∀ names operand, (∀ i name, names[i]? = some name → operand i = "$" ++ name) →
      substitute code names operand = code := by
  refine ⟨sourceOf_pieces code, fun u name v => ?_, (firstUses_ordered _).1, (firstUses_ordered _).2, ?_⟩
  · rw [(lexed_pieces code).refersAt_iff (by decide) (by decide), sourceOf_pieces]
  · intro names operand h
    apply String.toList_inj.mp
    rw [substitute, toList_join_map, ← sourceOf_pieces code, sourceOf]
    exact List.flatMap_congr fun p _ => subst_source h p

/-! ### Operands of assembly -/

/-- A piece of assembly where the number of the operand stands for a reference. -/
def Piece.numbered (names : List String) : Piece → Piece
  | text cs => .text cs
  | ref name => .ref (Nat.toDigits 10 (names.findIdx (· = String.ofList name)))

/-- What a piece with the number of an operand stands for. -/
def Piece.restored (names : List String) : Piece → List Char
  | text cs => cs
  | ref digits => '$' :: (names[Nat.ofDigitChars 10 digits 0]?.getD "").toList

theorem findIdx?_references {name : List Char} (h : .ref name ∈ pieces code) :
    (references code).findIdx? (· = String.ofList name) =
      some ((references code).findIdx (· = String.ofList name)) := by
  have hmem : String.ofList name ∈ references code :=
    ((firstUses_ordered _).1 _).mpr (mem_filterMap.mpr ⟨_, h, rfl⟩)
  exact findIdx?_eq_some_of_exists ⟨_, hmem, decide_eq_true rfl⟩

/-- The operand at a position, as assembly names it. -/
def operandAt (i : Nat) : String := "$" ++ toString i

theorem source_numbered {p : Piece} (h : p ∈ pieces code) :
    (p.numbered (references code)).source = (p.subst (references code) operandAt).toList := by
  cases p with
  | text cs => exact String.toList_ofList.symm
  | ref name => simp [Piece.subst, findIdx?_references h, Piece.numbered, Piece.source, operandAt]

theorem sourceOf_numbered (h : ps ⊆ pieces code) : sourceOf (ps.map (Piece.numbered (references code))) =
      (String.join (ps.map (Piece.subst (references code) operandAt))).toList := by
  rw [toList_join_map, sourceOf, flatMap_map]
  exact flatMap_congr fun p hp => source_numbered (h hp)

theorem restored_numbered (code : String) :
    ((pieces code).map (Piece.numbered (references code))).flatMap (Piece.restored (references code)) =
      code.toList := by
  rw [← sourceOf_pieces code, flatMap_map]
  refine flatMap_congr fun p hp => ?_
  cases p with
  | text cs => rfl
  | ref name =>
    obtain ⟨hlt, hname, _⟩ := findIdx?_eq_some_iff_getElem.mp (findIdx?_references hp)
    simp [Piece.numbered, Piece.restored, getElem?_eq_getElem hlt, decide_eq_true_eq.mp hname, Piece.source]

theorem lexed_numbered (names : List String) (h : Lexed isIdentStart isIdentChar ps)
    (hplain : Unmarked Char.isDigit (sourceOf ps)) :
    Lexed Char.isDigit Char.isDigit (ps.map (Piece.numbered names)) := by
  induction ps with
  | nil => trivial
  | cons p ps ih =>
    obtain ⟨hp, hps, _⟩ := isChain_append.mp hplain
    cases p with
    | text cs =>
      refine ⟨⟨h.1.1, hp, ?_⟩, ih h.2 hps⟩
      cases ps with
      | nil => exact .inl rfl
      | cons q qs =>
        cases q with
        | text ds => exact absurd (h.2.1.2.1.eq_nil rfl h.2.1.2.2 h.1.2.2) h.2.1.1
        | ref name => exact (ih h.2 hps).1.marked
    | ref name =>
      refine ⟨⟨?_, fun c hc => IR.isDigit_of_mem_digits hc, fun c hc => ?_⟩, ih h.2 hps⟩
      · obtain ⟨c, cs, hdigits⟩ := exists_cons_of_ne_nil (Nat.toDigits_ne_nil)
        rw [hdigits]
        exact IR.isDigit_of_mem_digits (hdigits ▸ mem_cons_self)
      · have hhead : (sourceOf (ps.map (.numbered names))).head? = (sourceOf ps).head? := by
          cases ps with
          | nil => rfl
          | cons q qs =>
            cases q with
            | text ds =>
              obtain ⟨d, ds, rfl⟩ := exists_cons_of_ne_nil h.2.1.1
              rfl
            | ref other => rfl
        have hstop := h.1.stop c (hhead ▸ hc)
        simp only [isIdentChar, Char.isAlphanum, Bool.or_eq_false_iff] at hstop
        exact hstop.1.2

/-- The operands of inline assembly can be told from its text, unless the code has numbers with a dollar sign of its
own: numbers with a dollar sign before them stand for references, and code with the same references and the same text is
the same. -/
theorem operands_unambiguous (code : String) (hplain : Unmarked Char.isDigit code.toList) :
    (∀ u digits v, (substitute code (references code) operandAt).toList = u ++ '$' :: (digits ++ v) →
      IsName Char.isDigit Char.isDigit digits v → ∃ before name after, pieces code = before ++ .ref name :: after ∧
        u = (String.join (before.map (Piece.subst (references code) operandAt))).toList ∧
        digits = Nat.toDigits 10 ((references code).findIdx (· = String.ofList name))) ∧
    ∀ code', Unmarked Char.isDigit code'.toList → references code' = references code →
      substitute code' (references code') operandAt = substitute code (references code) operandAt → code' = code := by
  have hlexed {code : String} (hplain : Unmarked Char.isDigit code.toList) :=
    lexed_numbered (references code) (lexed_pieces code) ((sourceOf_pieces code).symm ▸ hplain)
  have hsource (code : String) : _ = (substitute code (references code) operandAt).toList :=
    sourceOf_numbered (List.Subset.refl (pieces code))
  refine ⟨fun u digits v htext hdigits => ?_, fun code' hplain' hrefs htext => ?_⟩
  · obtain ⟨before, after, hpieces, rfl, _⟩ :=
      (hlexed hplain).refersAt rfl rfl hdigits ((hsource code).trans htext)
    obtain ⟨bs, as, hcut, rfl, has⟩ := List.map_eq_append_iff.mp hpieces
    obtain ⟨p, ps, rfl, hp, _⟩ := List.map_eq_cons_iff.mp has
    cases p with
    | text cs => cases hp
    | ref name =>
      refine ⟨bs, name, ps, hcut, ?_, (Piece.ref.inj hp).symm⟩
      exact sourceOf_numbered (hcut ▸ List.subset_append_left _ _)
  · have hpieces := (hlexed hplain').unique rfl rfl (hlexed hplain) (by rw [hsource, hsource, htext])
    apply String.toList_inj.mp
    rw [← restored_numbered code', hpieces, hrefs, restored_numbered code]

theorem operands_unambiguous_move : Unmarked Char.isDigit "movl $x, %eax".toList ∧
    ∀ code', Unmarked Char.isDigit code'.toList → references code' = ["x"] →
      substitute code' (references code') operandAt = "movl $0, %eax" → code' = "movl $x, %eax" := by
  have hplain : Unmarked Char.isDigit "movl $x, %eax".toList := by
    unfold Unmarked
    decide
  exact ⟨hplain, (operands_unambiguous _ hplain).2⟩

/-- A number with a dollar sign in the code itself is taken for an operand. -/
theorem literal_operand_ambiguous : references "addl $0, $x" = references "addl $x, $x" ∧
    substitute "addl $0, $x" (references "addl $0, $x") operandAt =
      substitute "addl $x, $x" (references "addl $x, $x") operandAt := by decide

/-! ### The type that code returns -/

abbrev returnWord : List Char := "return".toList

/-- Between two parts of code stands a `return` at the end of a word. It begins the word or comes right behind another
`return`. -/
structure ReturnsAt (code u after : List Char) : Prop where
  code_eq : code = u ++ (returnWord ++ after)
  ends : after.head?.any (fun d => !isIdentChar d) = true
  begins : u.getLast?.any isIdentChar = false ∨ returnWord <:+ u

section Search

variable {past : List Char} {j k skip : Nat} {before : Option Char}

/-- A `return` has some characters behind a place in code, which come last first, and all others before it. -/
def Astride (k : Nat) (past cs : List Char) : Prop :=
  (returnWord.take k).reverse <+: past ∧ returnWord.drop k <+: cs

theorem astride_succ (hk : k < 6) : Astride (k + 1) (c :: past) cs ↔ Astride k past (c :: cs) := by
  have hlength : k < returnWord.length := hk
  rw [Astride, Astride, take_succ_eq_append_getElem hlength, reverse_append, drop_eq_getElem_cons hlength]
  simp only [reverse_singleton, singleton_append, cons_prefix_cons]
  exact ⟨fun h => ⟨h.1.2, h.1.1, h.2⟩, fun h => ⟨⟨h.2.1, h.1⟩, h.2.2⟩⟩

/-- Two places of `return` do not overlap. -/
theorem Astride.separate (hjk : j < k) (hk : k ≤ 6) (h : Astride j past cs) (h' : Astride k past cs) :
    j = 0 ∧ k = 6 := by
  have hpast := prefix_of_prefix_length_le h.1 h'.1 (by simp; omega)
  have hcs := prefix_of_prefix_length_le h'.2 h.2 (by simp; omega)
  have hall : ∀ k < 7, ∀ j < k, (returnWord.take j).reverse <+: (returnWord.take k).reverse →
      returnWord.drop k <+: returnWord.drop j → j = 0 ∧ k = 6 := by decide
  exact hall k (by omega) j hjk hpast hcs

/-- How far the search for a `return` has come. Within one that is refused the rest of it is passed over; elsewhere the
character before tells whether a word can begin. -/
inductive Searching (past : List Char) : Nat → Option Char → List Char → Prop where
  | inside {k : Nat} {cs : List Char} (hk : k < 5) (h : Astride (5 - k) past cs) : Searching past (k + 1) none cs
  | between {before : Option Char} {cs : List Char}
      (hbefore : before.any isIdentChar = false ↔ past.head?.any isIdentChar = false ∨ Astride 6 past cs)
      (hclear : ∀ k, 0 < k → k < 6 → ¬ Astride k past cs) : Searching past 0 before cs

/-- One step of the search: a `return` is accepted here, or none is and the search goes on. -/
theorem afterReturn_step (h : Searching past skip before (c :: cs)) :
    (∃ after, afterReturn skip before (c :: cs) = some after ∧ ReturnsAt (past.reverse ++ c :: cs) past.reverse after) ∨
    (∀ after, ¬ ReturnsAt (past.reverse ++ c :: cs) past.reverse after) ∧ ∃ skip' before',
      Searching (c :: past) skip' before' cs ∧ afterReturn skip before (c :: cs) = afterReturn skip' before' cs := by
  have hhere {after : List Char} (h : ReturnsAt (past.reverse ++ c :: cs) past.reverse after) :
      c :: cs = returnWord ++ after := append_cancel_left h.code_eq
  cases h with
  | @inside k _ hk h =>
    refine .inr ⟨fun after hreturns => ?_, k, none, ?_, by rw [afterReturn]⟩
    · have hword : Astride 0 past (c :: cs) := ⟨List.nil_prefix, after, (hhere hreturns).symm⟩
      have := (hword.separate (by omega) (by omega) h).2
      omega
    have hnext := (astride_succ (by omega)).mpr h
    cases k with
    | zero =>
      refine .between ⟨fun _ => .inr hnext, fun _ => rfl⟩ fun k hpos hk hother => ?_
      exact absurd (hother.separate hk (by decide) hnext).1 (by omega)
    | succ k =>
      rw [show 5 - (k + 1) + 1 = 5 - k by omega] at hnext
      exact .inside (by omega) hnext
  | between hbefore hclear =>
    rw [afterReturn]
    by_cases hword : returnWord <+: c :: cs
    · obtain ⟨after, hafter⟩ := hword
      have hdrop : (c :: cs).drop 6 = after := by rw [← hafter]; rfl
      have hbegins : past.reverse.getLast?.any isIdentChar = false ∨ returnWord <:+ past.reverse ↔
          before.any isIdentChar = false := by
        rw [hbefore, getLast?_reverse, ← reverse_prefix, reverse_reverse]
        exact or_congr_right (and_iff_left nil_prefix).symm
      rw [if_pos (List.isPrefixOf_iff_prefix.mpr ⟨after, hafter⟩), hdrop]
      dsimp only
      split
      · next hok =>
        rw [Bool.and_eq_true, Bool.not_eq_true'] at hok
        exact .inl ⟨after, rfl, by rw [hafter], hok.2, hbegins.mpr hok.1⟩
      · next hok =>
        refine .inr ⟨fun after' hreturns => hok ?_, 5, none, .inside (by decide) ?_, rfl⟩
        · obtain rfl : after = after' := append_cancel_left (hafter.trans (hhere hreturns))
          rw [hbegins.mp hreturns.begins, hreturns.ends]
          rfl
        · exact (astride_succ (by decide)).mpr ⟨List.nil_prefix, after, hafter⟩
    · rw [if_neg (fun h => hword (List.isPrefixOf_iff_prefix.mp h))]
      have hpassed : ∀ k < 6, ¬ Astride (k + 1) (c :: past) cs := by
        intro k hk h
        rw [astride_succ hk] at h
        rcases Nat.eq_zero_or_pos k with rfl | hpos
        · exact hword h.2
        · exact hclear k hpos hk h
      refine .inr ⟨fun after h => hword ⟨after, (hhere h).symm⟩, 0, some c, ?_, rfl⟩
      refine .between ⟨.inl, fun h => h.elim id fun h => absurd h (hpassed 5 (by decide))⟩ fun k hpos hk => ?_
      obtain ⟨k, rfl⟩ := Nat.exists_eq_succ_of_ne_zero hpos.ne'
      exact hpassed k (by omega)

/-- The search finds the first `return` from its place on, if there is one. -/
theorem afterReturn_first (h : Searching past skip before cs) :
    (∃ u after, afterReturn skip before cs = some after ∧ ReturnsAt (past.reverse ++ cs) u after ∧
      ∀ u' after', ReturnsAt (past.reverse ++ cs) u' after' → past.length ≤ u'.length → u.length ≤ u'.length) ∨
    afterReturn skip before cs = none ∧ ∀ u after, ReturnsAt (past.reverse ++ cs) u after → u.length < past.length := by
  induction cs generalizing past skip before with
  | nil =>
    refine .inr ⟨by cases skip <;> rfl, fun u after h => ?_⟩
    have hlength := congrArg List.length h.code_eq
    simp [returnWord] at hlength
    omega
  | cons c cs ih =>
    rcases afterReturn_step h with ⟨after, hafter, hreturns⟩ | ⟨hnone, skip', before', hnext, hrun⟩
    · exact .inl ⟨_, after, hafter, hreturns, fun u' _ _ hle => by simpa using hle⟩
    have hlater {u after : List Char} (h : ReturnsAt (past.reverse ++ c :: cs) u after)
        (hle : past.length ≤ u.length) : (c :: past).length ≤ u.length := by
      refine lt_of_le_of_ne hle fun heq => ?_
      obtain ⟨rfl, _⟩ := append_inj h.code_eq (by simpa using heq)
      exact hnone after h
    have hcode : (c :: past).reverse ++ cs = past.reverse ++ c :: cs := by simp
    rw [hrun]
    rw [← hcode] at hlater ⊢
    rcases ih hnext with ⟨u, after, hafter, hreturns, hfirst⟩ | ⟨hafter, hfirst⟩
    · exact .inl ⟨u, after, hafter, hreturns, fun u' after' h hle => hfirst u' after' h (hlater h hle)⟩
    · refine .inr ⟨hafter, fun u after h => ?_⟩
      by_contra hle
      exact absurd (hfirst u after h) (not_lt.mpr (hlater h (not_lt.mp hle)))

end Search

/-- The return type is that of the expression between the first `return` and the next semicolon. -/
theorem returnKind_first (code : String) : (∃ u after, ReturnsAt code.toList u after ∧
      (∀ u' after', ReturnsAt code.toList u' after' → u.length ≤ u'.length) ∧
      returnKind code = .ofExpr (Text.trim (String.ofList (after.takeWhile (· ≠ ';')))).toList) ∨
    (∀ u after, ¬ ReturnsAt code.toList u after) ∧ returnKind code = .void := by
  have hstart : Searching [] 0 none code.toList := by
    refine .between (by simp) fun k hpos hk h => ?_
    have hlength := h.1.length_le
    simp [returnWord] at hlength
    omega
  unfold returnKind
  rcases afterReturn_first hstart with ⟨u, after, hafter, hreturns, hfirst⟩ | ⟨hafter, hnone⟩
  · rw [hafter]
    exact Or.inl ⟨u, after, hreturns, fun u' after' h => hfirst u' after' h (Nat.zero_le _), rfl⟩
  · rw [hafter]
    exact Or.inr ⟨fun u after h => Nat.not_lt_zero _ (hnone u after h), rfl⟩

/-- The first `return` need not begin a word. -/
theorem returnKind_doubled : ReturnsAt "returnreturn 5;".toList "return".toList " 5;".toList ∧
    returnKind "returnreturn 5;" = .int ∧ returnKind "xreturn 5;" = .void :=
  ⟨⟨rfl, rfl, Or.inr (List.suffix_refl _)⟩, by decide, by decide⟩

end Aero.Inline
