import Aero.Lowering.Stmt
import Aero.Proofs.Conditional
import Aero.Proofs.ShortCircuit
import Aero.Proofs.Loop
import Aero.Proofs.Variable

/-!
Statements. Whatever is written in a body, its code is sound, and control leaves it only by a return
or by the exit of a loop around it.
-/

namespace Aero

open List

variable {inputs : List IR.Value} {span : Span} {name symbol compiler lang code : String}
  {step cond init value : Option (Spanned Expr)}

mutual

def Stmt.isBranched : Stmt → Bool
  | .ifElse branches none => !branches.isEmpty && branchesBranched branches
  | .ifElse branches (some ⟨other, _⟩) =>
    !branches.isEmpty && branchesBranched branches && StmtBlock.isBranched other
  | .whileLoop _ ⟨body, _⟩ => StmtBlock.isBranched body
  | .forLoop none _ _ ⟨body, _⟩ => StmtBlock.isBranched body
  | .forLoop (some ⟨init, _⟩) _ _ ⟨body, _⟩ => Stmt.isBranched init && StmtBlock.isBranched body
  | .block ⟨body, _⟩ => StmtBlock.isBranched body
  | .declare _ _ _ | .assign _ _ | .compoundAssign _ _ _ | .expr _ | .breakLoop | .ret _
  | .inline _ _ _ => true

def StmtBlock.isBranched : StmtBlock → Bool
  | ⟨stmts⟩ => stmtsBranched stmts

def stmtsBranched : List (Spanned Stmt) → Bool
  | [] => true
  | ⟨stmt, _⟩ :: rest => Stmt.isBranched stmt && stmtsBranched rest

def branchesBranched : List Branch → Bool
  | [] => true
  | ⟨_, ⟨body, _⟩⟩ :: rest => StmtBlock.isBranched body && branchesBranched rest

end

mutual

/-- A statement lets control go no further if it is a jump, a block with such a statement, or a conditional with a
last part, all of whose parts are such blocks. -/
def Stmt.isTerminating : Stmt → Bool
  | .ret _ | .breakLoop => true
  | .block ⟨body, _⟩ => StmtBlock.isTerminating body
  | .ifElse branches (some ⟨other, _⟩) => branchesTerminating branches && StmtBlock.isTerminating other
  | .ifElse _ none | .whileLoop _ _ | .forLoop _ _ _ _ | .declare _ _ _ | .assign _ _
  | .compoundAssign _ _ _ | .expr _ | .inline _ _ _ => false

def StmtBlock.isTerminating : StmtBlock → Bool
  | ⟨stmts⟩ => stmtsTerminating stmts

def stmtsTerminating : List (Spanned Stmt) → Bool
  | [] => false
  | ⟨stmt, _⟩ :: rest => Stmt.isTerminating stmt || stmtsTerminating rest

def branchesTerminating : List Branch → Bool
  | [] => true
  | ⟨_, ⟨body, _⟩⟩ :: rest => StmtBlock.isTerminating body && branchesTerminating rest

end

namespace Lowering

open IR IR.Build IR.Site

variable {H N : Prop} {env : Env} {s : State} {w : Site H} {Q : Slot → Site H → Prop}

/-! ### Declarations -/

theorem Body.declare (h : Body s w) (name : String) {slot : Slot} (hslot : SlotOk w slot) :
    Body { s with scopes := (s.scopes.declare? name slot).getD s.scopes } w ∧
      s.Extends { s with scopes := (s.scopes.declare? name slot).getD s.scopes } := by
  have hscopes : ∃ frame inner, s.scopes.inner = frame :: inner ∧
      ((s.scopes.declare? name slot).getD s.scopes = s.scopes ∨ (s.scopes.declare? name slot).getD s.scopes =
          { s.scopes with inner := ((name, slot) :: frame) :: inner }) := by
    obtain ⟨frame, inner, hinner⟩ := exists_cons_of_ne_nil h.inner_ne
    refine ⟨frame, inner, hinner, ?_⟩
    unfold Scopes.declare?
    split
    · exact .inl rfl
    · rw [hinner]
      exact .inr rfl
  obtain ⟨frame, inner, hinner, heq | heq⟩ := hscopes
  · rw [heq]
    exact ⟨h, ⟨rfl, rfl, rfl, rfl, rfl⟩⟩
  · rw [heq]
    refine ⟨{ h with
      tables := h.tables.setScopes h.tables.outermost
      inner_ne := cons_ne_nil _ _
      slots := ?_ }, ⟨rfl, rfl, rfl, rfl, by rw [hinner]; rfl⟩⟩
    intro frame' hframe' p hp
    rcases mem_cons.mp hframe' with rfl | hframe'
    · rcases mem_cons.mp hp with rfl | hp
      · exact hslot
      · exact h.slots frame (hinner ▸ mem_cons_self) p hp
    · exact h.slots frame' (hinner ▸ mem_cons_of_mem _ hframe') p hp

/-- A variable is declared. Its slot keeps what is known of it. -/
theorem Does.declare {act : Lower Slot} {level : LogLevel}
    {message : Slot → String} (h : Lowers env act s w fun slot w' => SlotOk w' slot ∧ Q slot w') : Does N env (do
      let slot ← act
      note level (message slot)
      update fun s => { s with scopes := (s.scopes.declare? name slot).getD s.scopes }) s w
      fun s' w' => s.Extends s' ∧ w'.Open ∧ ∃ slot w1, Q slot w1 ∧ w'.fn = w1.fn ∧
        w'.block = w1.block ∧ s'.scopes = (s.scopes.declare? name slot).getD s.scopes := by
  have hnoted : Lowers env (do
      let slot ← act
      note level (message slot)
      return slot) s w fun slot w' => SlotOk w' slot ∧ ∃ w1, Q slot w1 ∧ w'.fn = w1.fn ∧ w'.block = w1.block := by
    refine h.bind ?_
    intro slot s1 w1 _ _ hslot
    refine lowers_note.bind ?_
    exact fun _ _ _ hle _ hsame => .pure ⟨hslot.1.mono hle, w1, hslot.2, hsame.1, hsame.2⟩
  refine ⟨fun hopen hbody => ?_⟩
  have hrun := hnoted.run hopen hbody
  simp only [bind_run] at hrun ⊢
  cases hres : act env s with
  | error d s' =>
    rw [hres] at hrun
    exact hrun.loud
  | ok slot s' =>
    rw [hres] at hrun
    obtain ⟨w', hle, hopen', hsame, hbuilder, hslot, w1, hQ, hfn, hblock⟩ := hrun
    have hdeclared := (hbody.same hle hsame hbuilder).declare name hslot
    refine ⟨w', hdeclared.1, .of_le hle, hsame.toAgrees.extends.trans hdeclared.2, hopen', slot,
      w1, hQ, hfn, hblock, ?_⟩
    have hscopes := hsame.scopes_eq
    exact hscopes ▸ rfl

theorem does_declareVariable {name : Spanned String} {ty : Option (Spanned TypeName)}
    (hdeclared : ∀ t, ty.filter (!·.node.isAuto) = some t →
      Lowers env (declaredSlot name t init) s w fun slot w' => SlotOk w' slot ∧ Q slot w')
    (hinferred : ty.filter (!·.node.isAuto) = none →
      Lowers env (inferredSlot name init span) s w fun slot w' => SlotOk w' slot ∧ Q slot w') :
    Does N env (declareVariable name ty init span) s w fun s' w' => s.Extends s' ∧ w'.Open ∧
      ∃ slot w1, Q slot w1 ∧ w'.fn = w1.fn ∧ w'.block = w1.block ∧ s.scopes.isDeclaredHere name.node = false ∧
        s'.scopes = (s.scopes.declare? name.node slot).getD s.scopes := by
  have hdeclare : ∀ {act : Lower Slot} (message : Slot → String), s.scopes.isDeclaredHere name.node = false →
      Lowers env act s w (fun slot w' => SlotOk w' slot ∧ Q slot w') →
      Does N env (do
        let slot ← act
        note .trace (message slot)
        update fun s => { s with scopes := (s.scopes.declare? name.node slot).getD s.scopes }) s w
        fun s' w' => s.Extends s' ∧ w'.Open ∧ ∃ slot w1, Q slot w1 ∧ w'.fn = w1.fn ∧
          w'.block = w1.block ∧ s.scopes.isDeclaredHere name.node = false ∧
          s'.scopes = (s.scopes.declare? name.node slot).getD s.scopes := by
    intro act message hnew h
    refine (Does.declare h).mono ?_
    rintro s' w' ⟨hext, hopen, slot, w1, hQ, hfn, hblock, hscopes⟩
    exact ⟨hext, hopen, slot, w1, hQ, hfn, hblock, hnew, hscopes⟩
  refine .state_bind ?_
  split
  · exact .fail
  · next hnew =>
    have hnew := Bool.eq_false_iff.mpr hnew
    split
    · next t ht => exact hdeclare _ hnew (hdeclared t ht)
    · next ht => exact hdeclare _ hnew (hinferred ht)

/-! ### Inline blocks -/

theorem lowers_inlineInput : Lowers env (inlineInput name span) s w fun v w' => w'.Has v := by
  refine lowers_lookup.bind ?_
  intro slot s1 w1 _ _ hslot
  refine .otherwise fun _ => ?_
  exact .lift (emits_load hslot.addr.val).left

theorem lowers_compileInline {file source : String} :
    Lowers env (compileInline compiler file source span) s w fun _ _ => True := by
  refine lowers_note.bind ?_
  intro _ s1 w1 _ _ _
  refine .read_bind ?_
  split
  · exact .fail
  · exact .fail
  · exact .fail
  · exact .pure trivial

theorem inlineSymbol_injective {m n : Nat} (h : inlineSymbol m = inlineSymbol n) : m = n := by
  unfold inlineSymbol at h
  have h := congrArg String.toList h
  rw [String.toList_append, String.toList_append (t := toString n)] at h
  have hdigits := append_cancel_left h
  simp only [Nat.toString_eq_repr, Nat.toList_repr] at hdigits
  exact toDigits_injective hdigits

theorem emits_attachForeign {unit : ForeignUnit} : Emits (attachForeign unit) w fun _ _ => True := by
  have hframe : w.builder.Frame { w.builder with
      module := { w.builder.module with foreign := w.builder.module.foreign ++ [unit] } } :=
    { Builder.Frame.refl _ with }
  exact fun hopen => ⟨(), w.rebuild _ hframe w.fn_eq rfl w.sound, rfl,
    w.rebuild_grows hframe w.fn_eq rfl w.sound fun _ _ _ h => h, hopen, trivial⟩

/-- The function of an inline block takes what it is called with. -/
theorem foreignDeclaration_takes (symbol : String) (ret : Inline.ReturnKind) (inputs : List Value) :
    (foreignDeclaration symbol ret inputs).prototype.Takes inputs := by
  have htys : (foreignDeclaration symbol ret inputs).prototype.params = inputs.map Value.ty := by
    change (List.map _ _).map Param.ty = _
    rw [map_map]
    exact zipIdx_map_fst 0 _
  exact ⟨htys ▸ prefix_rfl, fun _ => by rw [htys, length_map]⟩

theorem reaches_callForeign {ret : Inline.ReturnKind} (hopen : w.Open) (hsymbol : ∀ p : Primitive, p.name ≠ symbol)
    (hnew : H → w.builder.module.prototype? symbol = none) (hinputs : ∀ v ∈ inputs, w.Has v) :
    Reaches (callForeign symbol ret inputs) w fun _ w' => w'.Open ∧ (∀ e, ¬ e.quiet → Grows e w w') ∧
      ∀ name, (∀ p : Primitive, p.name ≠ name) → symbol ≠ name →
        w.builder.module.prototype? name = none → w'.builder.module.prototype? name = none := by
  refine (reaches_declare rfl hsymbol).discard.bind ?_
  rintro _ w1 ⟨hblock, hgrows, hdeclared, hothers⟩
  have hloud := hgrows ⟨True, False, fun _ => False, fun _ => False⟩ fun h => h
  have hopen1 : w1.Open := by rwa [Open, hblock]
  refine (Reaches.of_emits (emits_call (s := (foreignDeclaration symbol ret inputs).prototype)
    (fun v hv => hloud.has (hinputs v hv)) fun hH => ?_) hopen1).bind ?_
  · exact ⟨hdeclared (hnew hH), foreignDeclaration_takes symbol ret inputs⟩
  rintro result w2 ⟨hle2, hopen2, hresult, _⟩
  have hend : ∀ w', w2 ≤ w' → (∀ e, ¬ e.quiet → Grows e w w') ∧
      ∀ name, (∀ p : Primitive, p.name ≠ name) → symbol ≠ name →
        w.builder.module.prototype? name = none → w'.builder.module.prototype? name = none := by
    intro w' hle
    have hle := le_trans hle2 hle
    exact ⟨fun e he => (hgrows e he).trans (.of_le hle), fun name hname hne hnone =>
      hle.quiet trivial name hname ((hothers name hne).trans hnone)⟩
  have hcast : (Inline.ReturnKind.ty ret).isInt = true → ∀ signed,
      Reaches (discard (intCast result .i32 signed)) w2 fun _ w' => w'.Open ∧ (∀ e, ¬ e.quiet → Grows e w w') ∧
        ∀ name, (∀ p : Primitive, p.name ≠ name) → symbol ≠ name →
          w.builder.module.prototype? name = none → w'.builder.module.prototype? name = none := by
    intro hint signed
    have hvalue : w2.IntVal result := ⟨hresult.1, fun hH => (hresult.2 hH).symm ▸ hint⟩
    refine (Reaches.of_emits (emits_intCast hvalue rfl).discard hopen2).mono ?_
    exact fun _ w3 h => ⟨h.2.1, hend w3 h.1⟩
  split
  · exact hcast rfl _
  · exact hcast rfl _
  · exact hcast rfl _
  · exact .pure ⟨hopen2, hend w2 (le_refl w2)⟩

theorem steps_freshSymbol {E : State → Prop} : Steps env (freshSymbol "__aero_inline") s w E fun symbol s' w' =>
      symbol = inlineSymbol (s.symbols + 1) ∧ s' = { s with symbols := s.symbols + 1 } ∧ w = w' :=
  ⟨fun hbuilder => ⟨w, hbuilder, rfl, rfl, rfl⟩⟩

theorem does_foreignBlock {names : List String} (hinputs : ∀ v ∈ inputs, w.Has v) :
    Does N env (foreignBlock lang compiler code names inputs span) s w fun s' w' => s.Agrees s' ∧ w'.Open := by
  refine .of_inside fun hopen hbody => ?_
  refine steps_freshSymbol.bind ?_
  rintro _ s1 _ hbuilder1 ⟨rfl, rfl, rfl⟩
  let s1 := { s with symbols := s.symbols + 1 }
  have htables1 : Tables H s1 := hbody.tables.agrees ⟨rfl, rfl, rfl, rfl, rfl⟩ (Nat.le_succ _)
    (.refl _) hbody.tables.sound fun _ _ h => h
  have hin1 : Inside (.stmt N s.loopExits) s w s1 w :=
    ⟨hbuilder1, ⟨rfl, rfl, rfl, rfl, rfl⟩, htables1, fun h => h.elim, .refl w⟩
  have hnew : H → w.builder.module.prototype? (inlineSymbol (s.symbols + 1)) = none := fun hH =>
    hbody.builder_eq ▸ hbody.tables.fresh hH _ (Nat.lt_succ_self _)
  -- Until the function is declared, only primitives are, and no other symbol is made up.
  have hbody1 : Body s1 w := hin1.body hbody
  have hquiet : ∀ {α : Type} {act : Lower α} {Q : α → Site H → Prop} {s' : State} {w' : Site H},
      Inside .plain s1 w s' w' → w'.Open → Lowers env act s' w' Q →
        Steps env act s' w' (Fails H False s) fun a s'' w'' =>
          Inside .plain s1 w s'' w'' ∧ w' ≤ w'' ∧ w''.Open ∧ Q a w'' :=
    fun hin hopen hact => (Steps.of_lowers hact hbody1 hin hopen).mono (fun _ _ _ _ h => h)
      fun _ h => hin1.fails hbody (fun h => h) h.loud
  refine (hquiet (.start hbody1) hopen lowers_note).bind ?_
  rintro _ s2 w2 _ ⟨hin2, _, hopen2, _⟩
  refine (hquiet hin2 hopen2 lowers_compileInline).bind ?_
  rintro compiled s3 w3 _ ⟨hin3, _, hopen3, _⟩
  refine (hquiet hin3 hopen3 (.lift emits_attachForeign)).bind ?_
  rintro _ s4 w4 hb4 ⟨hin4, _, hopen4, _⟩
  have hle : w ≤ w4 := hin4.grows
  have hnew4 : H → w4.builder.module.prototype? (inlineSymbol (s.symbols + 1)) = none :=
    fun hH => hle.quiet trivial _ (inlineSymbol_ne _) (hnew hH)
  refine (Steps.lift (reaches_callForeign hopen4 (inlineSymbol_ne _) hnew4
    fun v hv => hle.has (hinputs v hv))).imp ?_
  rintro _ s5 w5 hb5 ⟨hsame, hopen5, hgrows, hothers⟩
  have hgrows := hgrows (.stmt N s.loopExits) fun h => h
  refine ⟨⟨hb5, (hin1.agrees.trans hin4.agrees).trans hsame.toAgrees, ?_, fun h => h.elim,
    .trans (.of_le hle) hgrows⟩, hopen5⟩
  refine hin4.tables.agrees hsame.toAgrees (le_of_eq hsame.symbols_eq.symm) ?_ ?_ ?_
  · rw [hb4, hb5]
    exact hgrows.frame
  · rw [hb5]
    exact w5.sound
  · intro n hn hnone
    rw [hb4] at hnone
    rw [hb5]
    refine hothers _ (inlineSymbol_ne n) (fun heq => ?_) hnone
    rw [hsame.symbols_eq, hin4.symbols_eq trivial] at hn
    exact lt_irrefl _ (inlineSymbol_injective heq ▸ hn)

theorem does_inlineBlock {volatile : Bool} :
    Does N env (inlineBlock lang code volatile span) s w fun s' w' => s.Agrees s' ∧ w'.Open := by
  have hmono : ∀ v (w w' : Site H), w ≤ w' → w.Has v → w'.Has v := fun _ _ _ hle hv => hv.mono hle
  refine .lowers_bind (lowers_mapM hmono fun name _ s w => lowers_inlineInput) ?_
  intro inputs s1 w1 _ _ hinputs
  split
  · refine .lowers_bind lowers_note ?_
    intro _ s2 w2 hle2 _ _
    exact (Does.of_lowers (.lift (emits_inlineAsm fun v hv =>
      (hinputs v hv).mono hle2))).mono fun _ _ h => ⟨h.1, h.2.1⟩
  · refine .read_bind ?_
    split
    · exact does_foreignBlock hinputs
    · exact .fail

/-! ### Returns -/

/-- The value that a function returns, and what is known of it. A function that has a result returns
zero if no value is written. -/
def Returned (value : Option (Spanned Expr)) (ret : Ty) (Q : Value → Site H → Prop) (w : Site H)
    (v : Option Value) (w' : Site H) : Prop :=
  match value, v with
  | none, none => ret = .void ∧ w' = w
  | none, some v => ret ≠ .void ∧ v = Build.zero ret ∧ w' = w
  | some _, none => False
  | some _, some v => Q v w'

theorem isVoid_iff {ty : Ty} : ty.isVoid = true ↔ ty = .void := by
  cases ty <;> simp [Ty.isVoid]

/-- The code of a return ends with the jump out of the function. -/
theorem does_returnFrom {Q : Value → Site H → Prop}
    (hvalue : ∀ e ∈ value, s.returnTy ≠ .void → Lowers env (do coerceReturn (← lower e) s.returnTy span) s w fun v w' =>
        w'.Val v s.returnTy ∧ Q v w') : Does N env (returnFrom value span) s w fun s' w' => s.Agrees s' ∧
      ∃ v w1, w ≤ w1 ∧ Returned value s.returnTy Q w v w1 ∧ w1.Finished (.ret v) w' := by
  have hret : ∀ {s' : State} {w' : Site H} {v : Value}, w'.Val v s'.returnTy →
      Does N env (liftM (Build.ret v)) s' w' fun s'' w'' =>
        s'.Agrees s'' ∧ w'.Finished (.ret (some v)) w'' := by
    intro s' w' v hv
    refine .finish (fun hopen hbody => ends_ret hopen (hbody.returnTy_eq ▸ hv)) ?_
    exact nofun
  refine .state_bind ?_
  dsimp only
  split
  · split
    · next hvoid =>
      have hvoid := isVoid_iff.mp hvoid
      refine (Does.finish (fun hopen hbody => ends_retVoid hopen (hbody.returnTy_eq ▸ hvoid)) nofun).mono ?_
      exact fun s' w' h => ⟨h.1, none, w, le_refl w, ⟨hvoid, rfl⟩, h.2⟩
    · next hvoid =>
      have hvoid := fun h => hvoid (isVoid_iff.mpr h)
      exact (hret (val_zero _)).mono fun s' w' h =>
        ⟨h.1, some _, w, le_refl w, ⟨hvoid, rfl, rfl⟩, h.2⟩
  · next e =>
    split
    · exact .fail
    · next hvoid =>
      rw [← bind_assoc]
      refine .lowers_bind (hvalue e rfl fun h => hvoid (isVoid_iff.mpr h)) ?_
      rintro v s1 w1 hle hsame ⟨hv, hQ⟩
      refine (hret (hsame.returnTy_eq.symm ▸ hv)).mono ?_
      exact fun s' w' h => ⟨h.1, some v, w1, hle, hQ, h.2⟩

/-! ### All statements -/

theorem lowers_lowerStep : Lowers env (lowerStep step) s w fun _ _ => True := by
  cases step with
  | none => exact .pure trivial
  | some e => exact lowers_lower.discard

theorem guards_ok : ∀ g ∈ cond.map guard, ∀ s (w : Site H), Lowers env g s w fun v w' => w'.Val v .i1 ∧ True := by
  intro g hg s w
  obtain ⟨e, _, rfl⟩ := Option.map_eq_some_iff.mp hg
  exact lowers_guard.mono fun _ _ _ hv => ⟨hv, trivial⟩

theorem does_forStmt {init body : Lower Unit} {R : Site H → Prop}
    (hinit : Does N env init s.pushed w fun s' _ => s.pushed.Extends s' ∧ True)
    (hbody : ∀ s' w', Does N env body s' w' fun s'' w'' => s'.Agrees s'' ∧ R w'') :
    Does N env (forLoop init (cond.map guard) (lowerStep step) body) s w fun s' w' =>
      s.Extends s' ∧ w'.block.isTerminated = false :=
  (does_forLoop (L := fun _ _ _ _ => True)
    hinit (fun _ g hg s' w' _ => guards_ok g hg s' w') (fun _ _ _ => trivial)
    (fun _ _ _ _ => lowers_lowerStep)
    fun _ _ s' w' _ _ => (hbody s' w').mono fun _ _ h => ⟨h.1, trivial⟩).toExtends fun _ h => open_iff.mp h.1

theorem lowerBranches_ne_nil {branches : List Branch} (h : (!branches.isEmpty) = true) :
    lowerBranches branches ≠ [] := by
  cases branches with
  | nil => cases h
  | cons branch rest =>
    obtain ⟨cond, body, _⟩ := branch
    exact cons_ne_nil _ _

mutual

/-- The code of a statement. Where it ends is closed if and only if the statement is terminating. -/
theorem does_lowerStmt (span : Span) : ∀ stmt, (N → stmt.isBranched = true) →
    ∀ s (w : Site H), Does N env (lowerStmt span stmt) s w fun s' w' =>
      s.Extends s' ∧ w'.block.isTerminated = stmt.isTerminating
  | .declare name ty init, _, s, w => by
      refine (does_declareVariable (Q := fun _ _ => True)
        (fun t _ => ?_) fun _ => ?_).mono fun _ _ h => ⟨h.1, open_iff.mp h.2.1⟩
      · exact (lowers_declaredSlot name).mono fun _ _ _ h => ⟨h, trivial⟩
      · exact (lowers_inferredSlot name init).mono fun _ _ _ h => ⟨h, trivial⟩
  | .assign place value, _, s, w => by
      exact (Does.of_lowers (lowers_assign place)).toExtends fun _ h => open_iff.mp h.1
  | .compoundAssign op place value, _, s, w => by
      exact (Does.of_lowers lowers_compoundAssign).toExtends fun _ h => open_iff.mp h.1
  | .expr e, _, s, w => by
      exact (Does.of_lowers lowers_lower.discard).toExtends fun _ h => open_iff.mp h.1
  | .ifElse branches none, hN, s, w => by
      have hN := fun h => Bool.and_eq_true_iff.mp (hN h)
      obtain ⟨specs, harms, _⟩ := lowerBranches_ok branches fun h => (hN h).2
      refine (does_ifElse (B := fun _ _ => True) harms (fun _ h => by cases h) fun h => ?_).toExtends ?_
      · exact lowerBranches_ne_nil (hN h).1
      · rintro w' ⟨_, _, arms, last, _, _, hends⟩
        exact hends
  | .ifElse branches (some ⟨other, _⟩), hN, s, w => by
      have hN := fun h => Bool.and_eq_true_iff.mp (hN h)
      have hN' := fun h => Bool.and_eq_true_iff.mp (hN h).1
      obtain ⟨specs, harms, hclosed⟩ := lowerBranches_ok branches fun h => (hN' h).2
      refine (does_ifElse (B := fun _ w' => w'.block.isTerminated = other.isTerminating) harms
        (fun act hact s' w' _ => ?_) fun h => ?_).toExtends ?_
      · exact Option.some.inj hact ▸ does_lowerBlock other (fun h => (hN h).2) s' w'
      · exact lowerBranches_ne_nil (hN' h).1
      · rintro w' ⟨_, _, arms, last, harmsEnd, hlast, hends⟩
        obtain ⟨_, _, hother, hlast⟩ := hlast rfl
        rw [hends, hclosed arms harmsEnd, ← hlast, hother]
        rfl
  | .whileLoop cond ⟨body, _⟩, hN, s, w => by
      exact (does_whileLoop (L := fun _ _ _ => True)
        (fun s' w' _ => lowers_guard.mono fun _ _ _ hv => ⟨hv, trivial⟩)
        fun _ s' w' _ => (does_lowerBlock body hN s' w').mono fun _ _ h => ⟨h.1, trivial⟩).toExtends
          fun _ h => open_iff.mp h.1
  | .forLoop none cond step ⟨body, _⟩, hN, s, w => by
      have hinit : Does N env (pure ()) s.pushed w fun s' w' => s.pushed.Agrees s' ∧ w'.Open ∧ True :=
        .of_lowers (.pure trivial)
      exact does_forStmt (hinit.mono fun _ _ h => ⟨h.1.extends, trivial⟩)
        fun s' w' => does_lowerBlock body hN s' w'
  | .forLoop (some ⟨init, ispan⟩) cond step ⟨body, _⟩, hN, s, w => by
      have hN := fun h => Bool.and_eq_true_iff.mp (hN h)
      have hinit := does_lowerStmt ispan init (fun h => (hN h).1) s.pushed w
      exact does_forStmt (hinit.mono fun _ _ h => ⟨h.1, trivial⟩)
        fun s' w' => does_lowerBlock body (fun h => (hN h).2) s' w'
  | .breakLoop, _, s, w => by
      refine does_breakLoop.toExtends ?_
      rintro w' ⟨_, _, _, hfin⟩
      exact hfin.terminated
  | .ret value, _, s, w => by
      refine (does_returnFrom (Q := fun _ _ => True) fun e _ _ => ?_).toExtends ?_
      · refine lowers_lower.bind fun v s1 w1 _ _ hv => ?_
        exact (lowers_coerceReturn hv).mono fun _ _ _ hv => ⟨hv, trivial⟩
      · rintro w' ⟨_, _, _, _, hfin⟩
        exact hfin.terminated
  | .block ⟨body, _⟩, hN, s, w => by
      exact (does_lowerBlock body hN s w).toExtends fun _ h => h
  | .inline lang code volatile, _, s, w => by
      exact does_inlineBlock.toExtends fun _ h => open_iff.mp h

theorem does_lowerBlock : ∀ block, (N → block.isBranched = true) →
    ∀ s (w : Site H), Does N env (lowerBlock block) s w fun s' w' =>
      s.Agrees s' ∧ w'.block.isTerminated = block.isTerminating
  | ⟨stmts⟩, hN, s, w => by
      have hstmts : Does N env (lowerStmts stmts) s.pushed w fun s' w' =>
          s.pushed.Extends s' ∧ w'.block.isTerminated = stmtsTerminating stmts := by
        refine .of_steps fun hopen hbody => ?_
        refine (steps_lowerStmts stmts hN s.pushed w hbody).imp ?_
        rintro _ s' w' _ ⟨hbody', hgrows, hext, hends⟩
        rw [open_iff.mp hopen] at hends
        exact ⟨hbody', hgrows, hext, hends⟩
      refine hstmts.withScope.mono ?_
      rintro s' w' ⟨hagrees, _, _, hends⟩
      exact ⟨hagrees, hends⟩

/-- The code of statements. After a jump, which may be there from the start, they are skipped. -/
theorem steps_lowerStmts : ∀ stmts, (N → stmtsBranched stmts = true) →
    ∀ s (w : Site H), Body s w → Steps env (lowerStmts stmts) s w (Fails H False s) fun _ s' w' =>
        Body s' w' ∧ Grows (.stmt N s.loopExits) w w' ∧ s.Extends s' ∧
          w'.block.isTerminated = (w.block.isTerminated || stmtsTerminating stmts)
  | [], _, s, w, hbody => by
      exact .pure ⟨hbody, .refl w, (State.Agrees.refl s).extends, (Bool.or_false _).symm⟩
  | ⟨stmt, span⟩ :: rest, hN, s, w, hbody => by
      have hN := fun h => Bool.and_eq_true_iff.mp (hN h)
      refine steps_isTerminated.bind ?_
      rintro b s _ _ ⟨rfl, rfl, hb⟩
      cases b with
      | true =>
        refine (Steps.lift reaches_note).imp ?_
        rintro _ s' w' hbuilder ⟨hsame, _, hblock, hle⟩
        refine ⟨hbody.same hle hsame hbuilder, .of_le hle, hsame.toAgrees.extends, ?_⟩
        rw [hblock, ← hb]
        rfl
      | false =>
        have hopen : w.Open := open_iff.mpr hb.symm
        refine (Does.steps ((does_lowerStmt span stmt (fun h => (hN h).1) s w).bind
          (T := fun _ w' => w'.block.isTerminated = (stmt.isTerminating || stmtsTerminating rest)) ?_) hopen
          hbody).imp ?_
        · intro s' w' _ hbody' _ hends
          rw [← hends]
          exact steps_lowerStmts rest (fun h => (hN h).2) s' w' hbody'
        · intro _ s' w' _ h
          rw [← hb]
          exact h

theorem lowerBranches_ok {s : State} : ∀ branches, (N → branchesBranched branches = true) →
    ∃ specs, List.Forall₂ (ArmOk H N env s) specs (lowerBranches branches) ∧
      ∀ closed, List.Forall₂ (EndsClosed ·.body) specs closed → closed.all id = branchesTerminating branches
  | [], _ => by
      refine ⟨[], .nil, fun closed hclosed => ?_⟩
      cases hclosed
      rfl
  | ⟨cond, ⟨body, _⟩⟩ :: rest, hN => by
      have hN := fun h => Bool.and_eq_true_iff.mp (hN h)
      obtain ⟨specs, hrest, hends⟩ := lowerBranches_ok rest fun h => (hN h).2
      refine ⟨⟨fun _ _ _ => True, fun _ w' => w'.block.isTerminated = body.isTerminating⟩ :: specs,
        .cons ⟨fun s' w' _ => ?_, ?_⟩ hrest, fun closed hclosed => ?_⟩
      · exact lowers_guard.mono fun _ _ _ hv => ⟨hv, trivial⟩
      · exact fun s' w' _ => does_lowerBlock body (fun h => (hN h).1) s' w'
      · cases hclosed with
        | cons hfirst hothers =>
          obtain ⟨_, _, hbody, hfirst⟩ := hfirst
          rw [all_cons, hends _ hothers, ← hfirst, hbody]
          rfl

end

end Lowering

end Aero
