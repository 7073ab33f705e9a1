import Aero.Proofs.Definition
import Aero.Proofs.Signature
import Mathlib.Data.List.Chain

/-!
Declarations. Structs and functions are declared before any body is lowered, and what is declared agrees with the
tables that callers look it up in. A function is accepted if its name is not reserved, its types are known and no other
function has its symbol. None of this depends on the order of the functions.
-/

open Option hiding get map_map

namespace Aero.Lowering

open IR IR.Build List

variable {p : Routine}
variable {α : Type} {H : Prop} {env : Env} {s s' t : State} {E I : State → Prop} {g : Function} {sig : FnSig}
variable {name : String} {σ : State} {structs : List StructDef} {fns fns' : List Routine}

/-- While names are declared: the tables agree with the module, structs are made of earlier ones, and nothing is
defined yet. -/
structure Declaring (H : Prop) (s : State) : Prop where
  tables : Tables H s
  bare : ∀ f ∈ s.builder.module.functions, f.blocks = []
  layered : Module.Layered s.builder.module.structs
  named : s.builder.module.structs.map StructType.name = s.builder.custom.map CustomType.name

theorem Tables.note (h : Tables H s) (level : LogLevel) (message : String) :
    Tables H { s with builder := s.builder.note level message } := { h with }

theorem Declaring.note (h : Declaring H s) (level : LogLevel) (message : String) :
    Declaring H { s with builder := s.builder.note level message } :=
  { h with tables := h.tables.note level message }

abbrev State.report (s : State) (d : Diagnostic) : State := { s with diagnostics := s.diagnostics ++ [d] }

theorem Tables.report (h : Tables H s) (d : Diagnostic) : Tables H (s.report d) := { h with }

/-! ### Structs -/

/-- A struct is defined if its fields can be, and nothing changes if they cannot. -/
theorem declareStruct_cases (env : Env) (s : State) (d : StructDef) :
    (∃ fields message, (∀ field ∈ fields, FieldTy s field.2) ∧ s.builder.custom? d.name.node = none ∧
      declareStruct d env s =
        .ok () { s with builder := (defineType d.name.node fields (s.builder.note .debug message)).2 }) ∨
    ∃ e, e.isError = true ∧ declareStruct d env s = .error e s := by
  have hstate : (state : Lower State) env s = .ok s s := rfl
  have hfields : Reads env (fieldTypes d.name.node [] d.fields) s _ := reads_fieldTypes (forall_mem_nil _)
  unfold declareStruct
  rw [bind_run, hstate]
  dsimp only
  split
  · exact .inr ⟨_, rfl, rfl⟩
  · next hnew =>
    rw [bind_run]
    rcases hfields with ⟨fields, hfields, hrun⟩ | ⟨problem, span, hrun⟩
    · rw [hrun s fun _ => rfl]
      refine .inl ⟨fields, _, hfields, ?_, rfl⟩
      simpa using (Bool.or_eq_false_iff.mp (Bool.eq_false_iff.mpr hnew)).1
    · rw [hrun s fun _ => rfl]
      exact .inr ⟨_, rfl, rfl⟩

theorem find?_filter_append (key : α → String) (l : List α) (a : α) (name : String) :
    (l.filter (key · ≠ key a) ++ [a]).find? (key · = name) =
      if key a = name then some a else l.find? (key · = name) := by
  rw [find?_append, find?_filter]
  by_cases hname : key a = name
  · have hnone : ∀ x ∈ l, ¬ (key x ≠ key a ∧ key x = name) := by
      rintro x _ ⟨hne, hx⟩
      exact hne (hx.trans hname.symm)
    have hfind : l.find? (fun x => decide (decide (key x ≠ key a) = true ∧ decide (key x = name) = true)) = none := by
      rw [find?_eq_none]
      simpa only [decide_eq_true_eq] using hnone
    rw [hfind]
    simp [hname]
  · have hsame : ∀ x, (key x ≠ key a ∧ key x = name) ↔ key x = name := fun x =>
      ⟨And.right, fun hx => ⟨fun heq => hname (heq.symm.trans hx), hx⟩⟩
    simp only [decide_eq_true_eq, hsame]
    simp [hname]

theorem registered_defineType {b : Builder} (h : b.Registered) (name : String)
    (fields : List (String × Ty)) : (defineType name fields b).2.Registered := by
  intro n t ht
  have hcustom := find?_filter_append CustomType.name b.custom { name := name, fields := fields } n
  have hstruct := find?_filter_append StructType.name b.module.structs ⟨name, fields.map (·.2)⟩ n
  change List.find? _ (b.custom.filter _ ++ [_]) = some t at ht
  change List.find? _ (b.module.structs.filter _ ++ [_]) = _
  rw [hcustom] at ht
  rw [hstruct]
  split at ht
  · next hname =>
    cases ht
    rw [if_pos hname, ← show name = n from hname]
  · next hname =>
    rw [if_neg hname]
    exact h n t ht

/-- A new struct is put behind those that it is made of. -/
theorem Declaring.defineType (h : Declaring H s) {fields : List (String × Ty)}
    (hnew : s.builder.custom? name = none) (hfields : ∀ field ∈ fields, FieldTy s field.2) :
    Declaring H { s with builder := (Build.defineType name fields s.builder).2 } := by
  have hcustom : ∀ t ∈ s.builder.custom, t.name ≠ name := by simpa [Builder.custom?] using hnew
  have hstructs : ∀ st ∈ s.builder.module.structs, st.name ≠ name := by
    intro st hst
    obtain ⟨t, ht, hname⟩ := mem_map.mp (h.named ▸ mem_map_of_mem hst)
    exact hname ▸ hcustom t ht
  have hknown : ∀ field ∈ fields, ∀ struct, field.2.scalarElem = .struct struct →
      struct ∈ s.builder.module.structs.map StructType.name := by
    intro field hfield struct hstruct
    have hty := hfields field hfield
    have hscalar : field.2.scalarElem = field.2 := by
      cases hfield : field.2 with
      | array => rw [hfield] at hty; cases hty.isArray
      | _ => rfl
    obtain ⟨t, ht⟩ := isSome_iff_exists.mp (hty.known struct (hscalar.symm.trans hstruct))
    rw [h.named]
    exact mem_map.mpr ⟨t, mem_of_find?_eq_some ht, by simpa using find?_some ht⟩
  have hkept : s.builder.module.structs.filter (·.name ≠ name) = s.builder.module.structs := by
    simpa using hstructs
  have hkept' : s.builder.custom.filter (·.name ≠ name) = s.builder.custom := by simpa using hcustom
  refine ⟨{ h.tables with registered := registered_defineType h.tables.registered name fields }, h.bare, ?_, ?_⟩
  · change Module.Layered (s.builder.module.structs.filter (·.name ≠ name) ++ [_])
    rw [hkept]
    refine h.layered.snoc (fun hmem => ?_) fun ty hty => ?_
    · obtain ⟨st, hst, hname⟩ := mem_map.mp hmem
      exact hstructs st hst hname
    · obtain ⟨field, hfield, rfl⟩ := mem_map.mp hty
      exact hknown field hfield
  · change List.map _ (s.builder.module.structs.filter (·.name ≠ name) ++ [_]) =
      List.map _ (s.builder.custom.filter (·.name ≠ name) ++ [_])
    rw [hkept, hkept', map_append, map_append, h.named]
    rfl

/-! ### One function -/

def methodAdded (p : Routine) (sig : FnSig) (t : CustomType) : CustomType :=
  if some t.name = p.1 then t.addMethod p.2.name.node sig.symbol else t

/-- The state after a function or, with a struct, a method is declared. -/
def State.declare (s : State) (p : Routine) (sig : FnSig) : State :=
  let added : Builder :=
    { s.builder.addFn sig.declaration with custom := s.builder.custom.map (methodAdded p sig) }
  { s with
    builder := added.note .trace ("declared @" ++ sig.symbol ++ "/" ++ toString sig.params.length)
    functions := s.functions ++ if p.1.isNone then [(p.2.name.node, sig)] else []
    methods := s.methods ++ if p.1.isSome then [(sig.symbol, sig)] else [] }

/-- A function can be declared, with a signature. -/
structure Accepts (env : Env) (s : State) (p : Routine) (sig : FnSig) : Prop where
  named : nameProblem? env.builtins s p.1 p.2.name.node (symbolIn env p) = none
  signature_eq : signatureIn? env s p = some sig
  fresh : s.builder.module.prototype? (symbolIn env p) = none

/-- What is left to do once a function has its signature. -/
def declareSigned (p : Routine) (symbol : String) (sig : FnSig) : Lower FnSig := do
  if ← Build.declareFunction sig.declaration then
    register p.1 p.2.name.node sig
    note .trace ("declared @" ++ symbol ++ "/" ++ toString sig.params.length)
    return sig
  else fail (.functionDefined symbol) p.2.name.span

theorem declareFunction_run (p : Routine) : declareFunction p.1 p.2 env s =
      ((nameProblem? env.builtins s p.1 p.2.name.node (symbolIn env p)).elim
        (signature p.1 p.2 (symbolIn env p) >>= declareSigned p (symbolIn env p))
        fun problem => fail problem p.2.name.span) env s := by
  have hread : (read : Lower Env) env s = .ok env s := rfl
  have hstate : (state : Lower State) env s = .ok s s := rfl
  unfold declareFunction symbolIn
  simp only [bind_run, hread, hstate]
  cases nameProblem? env.builtins s p.1 p.2.name.node (symbolOf env.config.module p.1 p.2.name.node) <;> rfl

theorem addMethod_eq (b : Builder) (struct : String) (f : FnDef) (sig : FnSig) :
    (Build.addMethod struct f.name.node sig.symbol b).2 =
      { b with custom := b.custom.map (methodAdded (some struct, f) sig) } := by
  unfold Build.addMethod
  split
  · unfold methodAdded
    simp only [some.injEq]
  · next hnone =>
    -- A struct that is not known has no entry to change.
    have hother : ∀ t ∈ b.custom, t.name ≠ struct := by simpa [Builder.custom?] using hnone
    have hsame : b.custom.map (methodAdded (some struct, f) sig) = b.custom :=
      (map_congr_left fun t ht => if_neg fun h => hother t ht (some.inj h)).trans (map_id' _)
    rw [hsame]

theorem declareSigned_new (h : s.builder.module.prototype? sig.symbol = none) :
    declareSigned p sig.symbol sig env s = .ok sig (s.declare p sig) := by
  rw [declareSigned, bind_run, liftM_run (declareFunction_new (f := sig.declaration) h)]
  obtain ⟨_ | struct, f⟩ := p
  · have hcustom : s.builder.custom.map (methodAdded (none, f) sig) = s.builder.custom := map_id _
    simp [State.declare, hcustom]
    rfl
  · change EStateM.Result.ok sig { s with
      builder := (Build.addMethod struct f.name.node sig.symbol (s.builder.addFn sig.declaration)).2.note _ _
      methods := _ } = _
    rw [addMethod_eq]
    simp [State.declare, Builder.addFn]

theorem declareSigned_old {found : Signature}
    (h : s.builder.module.prototype? sig.symbol = some found) : declareSigned p sig.symbol sig env s =
      .error ((Problem.functionDefined sig.symbol).diagnostic p.2.name.span) s := by
  rw [declareSigned, bind_run, liftM_run (declareFunction_old (f := sig.declaration) h)]
  rfl

theorem declareFunction_cases (env : Env) (s : State) (p : Routine) :
    (∃ sig, Accepts env s p sig ∧ declareFunction p.1 p.2 env s = .ok sig (s.declare p sig)) ∨
      (∀ sig, ¬ Accepts env s p sig) ∧ ∃ d, d.isError = true ∧ declareFunction p.1 p.2 env s = .error d s := by
  have htypes : SameTypes s s := fun _ => rfl
  rw [declareFunction_run p]
  cases hname : nameProblem? env.builtins s p.1 p.2.name.node (symbolIn env p) with
  | some problem =>
    refine .inr ⟨fun sig h => ?_, problem.diagnostic p.2.name.span, rfl, rfl⟩
    rw [h.named] at hname
    cases hname
  | none =>
    rw [elim_none, bind_run]
    rcases signature_cases env s p with ⟨sig, hsigned, hrun⟩ | ⟨problem, span, hrun⟩
    · obtain ⟨hin, hrun⟩ := hrun s htypes
      rw [hrun]
      rw [← hsigned.symbol_eq]
      cases hproto : s.builder.module.prototype? sig.symbol with
      | none =>
        exact .inl ⟨sig, ⟨hname, hin, hsigned.symbol_eq ▸ hproto⟩, declareSigned_new hproto⟩
      | some found =>
        refine .inr ⟨fun sig' h => ?_, _, rfl, declareSigned_old hproto⟩
        rw [hsigned.symbol_eq, h.fresh] at hproto
        cases hproto
    · obtain ⟨hin, hrun⟩ := hrun s htypes
      refine .inr ⟨fun sig h => ?_, problem.diagnostic span, rfl, by rw [hrun]⟩
      rw [h.signature_eq] at hin
      cases hin

/-! ### What a declaration changes -/

theorem methodAdded_eq (p : Routine) (sig : FnSig) (t : CustomType) :
    (methodAdded p sig t).name = t.name ∧ (methodAdded p sig t).fields = t.fields := by
  unfold methodAdded
  split <;> exact ⟨rfl, rfl⟩

theorem custom?_declare (s : State) (p : Routine) (sig : FnSig) (name : String) :
    (s.declare p sig).builder.custom? name = (s.builder.custom? name).map (methodAdded p sig) := by
  rw [Builder.custom?, State.declare, Builder.note, find?_map]
  simp only [Function.comp_def, (methodAdded_eq p sig _).1]
  rfl

theorem sameTypes_declare (s : State) (p : Routine) (sig : FnSig) : SameTypes s (s.declare p sig) := by
  intro name
  rw [custom?_declare, Option.map_map]
  congr 1
  funext t
  exact congrArg Ty.struct (methodAdded_eq p sig t).1

theorem lookup_row (c : Prop) [Decidable c] (key name : String) (sig : FnSig) :
    (if c then [(key, sig)] else []).lookup name = if c ∧ key = name then some sig else none := by
  by_cases hc : c
  · by_cases hkey : key = name
    · simp [hc, hkey]
    · have hbeq : (name == key) = false := beq_eq_false_iff_ne.mpr (.symm hkey)
      simp [hc, hkey, lookup_cons, hbeq]
  · simp [hc]

section Lookups

variable (s) (p : Routine) (sig : FnSig) (name : String)

theorem function?_declare : (s.declare p sig).builder.module.function? name =
    (s.builder.module.function? name).or (if sig.symbol = name then some sig.declaration else none) := by
  exact Builder.addFn_module_function? ..

theorem functions_lookup_declare : (s.declare p sig).functions.lookup name =
    (s.functions.lookup name).or (if p.1.isNone ∧ p.2.name.node = name then some sig else none) := by
  rw [State.declare, lookup_append, lookup_row]

theorem methods_lookup_declare : (s.declare p sig).methods.lookup name =
    (s.methods.lookup name).or (if p.1.isSome ∧ sig.symbol = name then some sig else none) := by
  rw [State.declare, lookup_append, lookup_row]

theorem prototype?_declare : (s.declare p sig).builder.module.prototype? name =
    (s.builder.module.prototype? name).or (if sig.symbol = name then some sig.prototype else none) := by
  exact Builder.addFn_prototype? ..

end Lookups

/-! ### Tables -/

theorem methodSymbol_ne (struct name : String) (p : Primitive) : methodSymbol struct name ≠ p.name := by
  have hsingle : p.name.toList.IsChain fun a b => ¬ (a = '_' ∧ b = '_') := by
    cases p <;> decide
  intro h
  rw [← h, methodSymbol, String.toList_append, String.toList_append, append_assoc] at hsingle
  exact (isChain_append_cons_cons.mp hsingle).2.1 ⟨rfl, rfl⟩

theorem symbolOf_ne {options : ModuleOptions} {builtins : BuiltinTable} {struct : Option String}
    (hentry : ∀ p : Primitive, options.userEntry ≠ p.name)
    (h : nameProblem? builtins s struct name (symbolOf options struct name) = none)
    (p : Primitive) : symbolOf options struct name ≠ p.name := by
  cases struct with
  | some struct => exact methodSymbol_ne struct name p
  | none =>
    have hname : name ≠ p.name := by
      rintro rfl
      have hfound : (Primitive.ofName? p.name).isSome = true := by cases p <;> decide
      simp [nameProblem?, hfound] at h
    unfold symbolOf
    dsimp only
    split
    · exact hentry p
    · exact hname

theorem Tables.addFn (h : Tables H s) (hprimitive : H → ∀ p : Primitive, g.name ≠ p.name)
    (hinline : H → ∀ n, g.name ≠ inlineSymbol n) (hblocks : g.blocks = []) :
    Tables H { s with builder := s.builder.addFn g } where
  sound := fun hH => Builder.addFn_sound (h.sound hH) fun p hp => absurd hp (hprimitive hH p)
  registered := h.registered
  functions := fun name sig hsig =>
    ⟨(s.builder.addFn_frame hblocks).prototypes _ _ (h.functions name sig hsig).1, (h.functions name sig hsig).2⟩
  methods := fun symbol sig hsig =>
    ⟨(s.builder.addFn_frame hblocks).prototypes _ _ (h.methods symbol sig hsig).1, (h.methods symbol sig hsig).2⟩
  fresh := fun hH n hn => by
    rw [Builder.addFn_prototype?, h.fresh hH n hn, if_neg (hinline hH n), or_none]
  outermost := h.outermost

theorem Tables.declare (h : Tables H s) (hsigned : SignedBy env p sig)
    (hnone : s.builder.module.prototype? sig.symbol = none) (hprimitive : H → ∀ p : Primitive, sig.symbol ≠ p.name)
    (hinline : H → ∀ n, sig.symbol ≠ inlineSymbol n) : Tables H (s.declare p sig) := by
  have hadded : Tables H { s with builder := s.builder.addFn sig.declaration } := h.addFn hprimitive hinline rfl
  have hproto : (s.declare p sig).builder.module.prototype? sig.symbol = some sig.prototype := by
    rw [prototype?_declare, hnone, if_pos rfl, none_or]
  refine { hadded with registered := ?_, functions := ?_, methods := ?_ }
  · intro name t ht
    rw [custom?_declare] at ht
    obtain ⟨t, hfound, rfl⟩ := map_eq_some_iff.mp ht
    rw [(methodAdded_eq p sig t).2]
    exact h.registered name t hfound
  · intro name found hfound
    rw [functions_lookup_declare, or_eq_some_iff] at hfound
    rcases hfound with hold | ⟨_, hnew⟩
    · exact hadded.functions name found hold
    · obtain ⟨_, hsame⟩ := ite_none_right_eq_some.mp hnew
      obtain rfl := some.inj hsame
      exact ⟨hproto, hsigned.fits⟩
  · intro symbol found hfound
    rw [methods_lookup_declare, or_eq_some_iff] at hfound
    rcases hfound with hold | ⟨_, hnew⟩
    · exact hadded.methods symbol found hold
    · obtain ⟨⟨hmethod, rfl⟩, hsame⟩ := ite_none_right_eq_some.mp hnew
      obtain rfl := some.inj hsame
      obtain ⟨struct, hstruct⟩ := isSome_iff_exists.mp hmethod
      exact ⟨hproto, hsigned.fits, struct, hsigned.self struct hstruct⟩

theorem State.Awaits.congr (h : s.Awaits sig)
    (hfunctions : s'.builder.module.functions = s.builder.module.functions) : s'.Awaits sig := by
  obtain ⟨⟨i, f, hdecl, hproto⟩, hfits⟩ := h
  exact ⟨⟨i, f, ⟨hfunctions ▸ hdecl.findIdx, hfunctions ▸ hdecl.fn_eq, hdecl.blocks_eq,
    hdecl.nextBlock_eq⟩, hproto⟩, hfits⟩

theorem State.Awaits.declare (h : s.Awaits sig)
    (hfunctions : s'.builder.module.functions = s.builder.module.functions ++ [g])
    (hblocks : g.blocks = []) (hnone : s.builder.module.prototype? g.name = none) :
    s'.Awaits sig ∧ g.name ≠ sig.symbol := by
  obtain ⟨⟨i, f, hdecl, hproto⟩, hfits⟩ := h
  have hframe : (s.builder.editing (i + 1)).Frame ((s.builder.addFn g).editing (i + 1)) :=
    { (s.builder.editing (i + 1)).addFn_frame hblocks with }
  have hkept : State.Awaits { s with builder := s.builder.addFn g } sig :=
    ⟨⟨i, f, hdecl.frame hframe (Nat.succ_ne_self i), hproto⟩, hfits⟩
  refine ⟨hkept.congr hfunctions, fun heq => ?_⟩
  rw [heq, Module.prototype?, hdecl.function?_eq] at hnone
  cases hnone

/-- A declared function awaits its body, and all that was declared before still does. -/
structure Declares (H : Prop) (s s' : State) (sig : FnSig) : Prop where
  declaring : Declaring H s'
  awaits : s'.Awaits sig
  others : ∀ sig', s.Awaits sig' → s'.Awaits sig' ∧ sig.symbol ≠ sig'.symbol
  functions_eq : s'.builder.module.functions = s.builder.module.functions ++ [sig.declaration]

theorem Declaring.declare (h : Declaring H s) (haccepts : Accepts env s p sig)
    (hentry : H → ∀ p : Primitive, env.config.module.userEntry ≠ p.name)
    (hinline : H → ∀ n, symbolIn env p ≠ inlineSymbol n) : Declares H s (s.declare p sig) sig := by
  have hsigned := signedBy_of_signatureIn? haccepts.signature_eq
  have hsymbol := hsigned.symbol_eq
  have hnone : s.builder.module.prototype? sig.symbol = none := hsymbol ▸ haccepts.fresh
  constructor
  case declaring =>
    refine ⟨h.tables.declare hsigned hnone (fun hH q => hsymbol ▸ symbolOf_ne (hentry hH) haccepts.named q)
      (fun hH => hsymbol ▸ hinline hH), forall_mem_append.mpr ⟨h.bare, forall_mem_singleton.mpr rfl⟩, h.layered, ?_⟩
    refine h.named.trans (.trans ?_ map_map.symm)
    exact map_congr_left fun t _ => (methodAdded_eq p sig t).1.symm
  case awaits =>
    have hadded : State.Awaits { s with builder := s.builder.addFn sig.declaration } sig :=
      ⟨⟨_, _, .of_addFn hnone rfl rfl, rfl⟩, hsigned.fits⟩
    exact hadded.congr rfl
  case others => exact fun sig' hsig => hsig.declare (g := sig.declaration) rfl rfl hnone
  case functions_eq => rfl

/-! ### All declarations of a file -/

theorem orReport_run (act : Lower α) (env : Env) (s : State) : orReport act env s = match act env s with
      | .ok a s' => .ok (some a) s'
      | .error d s' => .ok none { s' with diagnostics := s'.diagnostics ++ [d] } := by
  simp only [orReport, bind_run, attempt]
  cases act env s <;> rfl

theorem outcome_forM {act : α → Lower Unit} {l : List α} (h : I s)
    (hact : ∀ a ∈ l, ∀ s, I s → Outcome E (fun _ => I) (act a env s)) : Outcome E (fun _ => I) (l.forM act env s) := by
  induction l generalizing s with
  | nil => exact h
  | cons a l ih =>
    refine .bind (hact a mem_cons_self s h) fun _ s' h' => ?_
    exact ih h' fun a ha => hact a (mem_cons_of_mem _ ha)

def declareStructs (name : String) (structs : List StructDef) : Lower Unit := do
  note .debug ("translating '" ++ name ++ "' into " ++ (← state).builder.module.name)
  structs.forM fun s => discard (orReport (declareStruct s))

theorem outcome_declareStructs (h : I s)
    (hnote : ∀ s level message, I s → I { s with builder := s.builder.note level message })
    (hdefine : ∀ s name fields, I s → s.builder.custom? name = none → (∀ field ∈ fields, FieldTy s field.2) →
      I { s with builder := (Build.defineType name fields s.builder).2 })
    (hreport : ∀ s d, I s → I (s.report d)) :
    Outcome (fun _ => False) (fun _ => I) (declareStructs name structs env s) := by
  change Outcome _ _ ((note _ _ >>= fun _ => _ : Lower Unit) env s)
  refine .bind (Q := fun _ => I) (hnote _ _ _ h) fun _ s h => outcome_forM h fun d _ s hs => ?_
  change Outcome _ _ ((orReport (declareStruct d) >>= fun _ => pure ()) env s)
  rw [bind_run, orReport_run]
  rcases declareStruct_cases env s d with ⟨fields, message, hfields, hnew, hrun⟩ | ⟨e, _, hrun⟩
  · rw [hrun]
    exact hdefine _ _ fields (hnote s .debug message hs) hnew fun field hfield => { hfields field hfield with }
  · rw [hrun]
    exact hreport s e hs

theorem Declaring.report (h : Declaring H s) (d : Diagnostic) :
    Declaring H (s.report d) := { h with tables := h.tables.report d }

theorem declares_declareStructs (h : Declaring H s) :
    Outcome (fun _ => False) (fun _ => Declaring H) (declareStructs name structs env s) :=
  outcome_declareStructs h (fun _ _ _ h => h.note _ _) (fun _ _ _ h => h.defineType) fun _ _ h =>
    h.report _

def symbolsOf (declared : List (FnDef × FnSig)) : List String := declared.map fun p => p.2.symbol

/-- What is declared, each function once, awaits its body. -/
structure DeclaresAll (H : Prop) (fns : List Routine) (s s' : State)
    (declared : List (FnDef × FnSig)) : Prop where
  declaring : Declaring H s'
  awaits : ∀ p ∈ declared, s'.Awaits p.2
  source : ∀ p ∈ declared, (∃ struct, (struct, p.1) ∈ fns) ∧ p.2.IsOf p.1
  nodup : (symbolsOf declared).Nodup
  others : ∀ sig, s.Awaits sig → s'.Awaits sig ∧ ∀ p ∈ declared, p.2.symbol ≠ sig.symbol
  functions_eq : s'.builder.module.functions = s.builder.module.functions ++ declared.map fun p => p.2.declaration

theorem declareFunctions_cons (p : Routine) (fns : List Routine) :
    declareFunctions (p :: fns) env s = (orReport (declareFunction p.1 p.2) >>= fun declared =>
        declareFunctions fns >>= fun others =>
          Pure.pure ((declared.map fun sig => (p.2, sig)).toList ++ others)) env s := rfl

/-- The functions of a list are declared one after another, or reported. -/
inductive Declared (env : Env) : List Routine → State → List (FnDef × FnSig) → State → Prop where
  | nil (s : State) : Declared env [] s [] s
  | accept {p : Routine} {fns : List Routine} {s s' : State} {sig : FnSig}
      {declared : List (FnDef × FnSig)} (haccepts : Accepts env s p sig)
      (hrest : Declared env fns (s.declare p sig) declared s') : Declared env (p :: fns) s ((p.2, sig) :: declared) s'
  | refuse {p : Routine} {fns : List Routine} {s s' : State} {d : Diagnostic}
      {declared : List (FnDef × FnSig)} (hnone : ∀ sig, ¬ Accepts env s p sig) (hd : d.isError = true)
      (hrest : Declared env fns (s.report d) declared s') :
      Declared env (p :: fns) s declared s'

theorem exists_declared (env : Env) (fns : List Routine) (s : State) :
    ∃ declared s', declareFunctions fns env s = .ok declared s' ∧ Declared env fns s declared s' := by
  induction fns generalizing s with
  | nil => exact ⟨[], s, rfl, .nil s⟩
  | cons p fns ih =>
    rw [declareFunctions_cons, bind_run, orReport_run]
    rcases declareFunction_cases env s p with ⟨sig, haccepts, hrun⟩ | ⟨hnone, d, hd, hrun⟩
    · obtain ⟨declared, s', hrest, hdeclared⟩ := ih (s.declare p sig)
      refine ⟨(p.2, sig) :: declared, s', ?_, .accept haccepts hdeclared⟩
      rw [hrun]
      dsimp only
      rw [bind_run, hrest]
      rfl
    · obtain ⟨declared, s', hrest, hdeclared⟩ := ih (s.report d)
      refine ⟨declared, s', ?_, .refuse hnone hd hdeclared⟩
      rw [hrun]
      dsimp only
      rw [bind_run, hrest]
      rfl

section All

variable {declared : List (FnDef × FnSig)}

theorem declared_of_run (h : declareFunctions fns env s = .ok declared s') : Declared env fns s declared s' := by
  obtain ⟨_, _, hrun, hdeclared⟩ := exists_declared env fns s
  obtain ⟨rfl, rfl⟩ := EStateM.Result.ok.inj (hrun.symm.trans h)
  exact hdeclared

theorem Declared.declaresAll (h : Declared env fns s declared s') (hdeclaring : Declaring H s)
    (hentry : H → ∀ p : Primitive, env.config.module.userEntry ≠ p.name)
    (hinline : H → ∀ p ∈ fns, ∀ n, symbolIn env p ≠ inlineSymbol n) : DeclaresAll H fns s s' declared := by
  induction h with
  | nil s =>
    exact ⟨hdeclaring, forall_mem_nil _, forall_mem_nil _, nodup_nil,
      fun _ h => ⟨h, forall_mem_nil _⟩, (append_nil _).symm⟩
  | @accept p fns s s' sig declared haccepts hrest ih =>
    obtain ⟨hdeclaring, hawaits, hothers, hadded⟩ :=
      hdeclaring.declare haccepts hentry fun hH => hinline hH p mem_cons_self
    have hall := ih hdeclaring fun hH q hq => hinline hH q (mem_cons_of_mem _ hq)
    obtain ⟨hlater, hdistinct⟩ := hall.others sig hawaits
    refine ⟨hall.declaring, forall_mem_cons.mpr ⟨hlater, hall.awaits⟩,
      forall_mem_cons.mpr ⟨⟨⟨p.1, mem_cons_self⟩,
        (signedBy_of_signatureIn? haccepts.signature_eq).isOf⟩, fun q hq =>
          (hall.source q hq).imp_left (.imp fun _ => mem_cons_of_mem _)⟩,
      nodup_cons.mpr ⟨fun hmem => ?_, hall.nodup⟩, fun sig' hsig' => ?_, ?_⟩
    · obtain ⟨q, hq, heq⟩ := mem_map.mp hmem
      exact hdistinct q hq heq
    · obtain ⟨hkept, hne⟩ := hothers sig' hsig'
      obtain ⟨hkept', hne'⟩ := hall.others sig' hkept
      exact ⟨hkept', forall_mem_cons.mpr ⟨hne, hne'⟩⟩
    · rw [hall.functions_eq, hadded, append_assoc]
      rfl
  | refuse hnone hd hrest ih =>
    have hall := ih (hdeclaring.report _) fun hH q hq => hinline hH q (mem_cons_of_mem _ hq)
    exact { hall with
      source := fun p hp => (hall.source p hp).imp_left (.imp fun _ => mem_cons_of_mem _)
      others := fun sig hsig => hall.others sig (hsig.congr rfl) }

theorem Declared.keeps (h : Declared env fns s declared s') :
    s'.builder.module.globals = s.builder.module.globals ∧ s'.builder.strings = s.builder.strings ∧
      s.diagnostics <+: s'.diagnostics := by
  induction h with
  | nil s => exact ⟨rfl, rfl, prefix_rfl⟩
  | accept haccepts hrest ih => exact ih
  | refuse hnone hd hrest ih => exact ⟨ih.1, ih.2.1, (prefix_append _ _).trans ih.2.2⟩

/-- What is known of the states between declarations, as compared with the first of them. -/
structure Declarable (env : Env) (σ s : State) : Prop where
  types : SameTypes σ s
  functions : ∀ name sig, s.functions.lookup name = some sig →
    s.builder.module.prototype? (symbolOf env.config.module none name) ≠ none
  methods : ∀ symbol sig, s.methods.lookup symbol = some sig → s.builder.module.prototype? symbol ≠ none

def unreserved (env : Env) (p : Routine) : Bool :=
  p.1.isSome || !((Primitive.ofName? p.2.name.node).isSome || env.builtins.contains p.2.name.node)

namespace Declarable

theorem accepts_iff (h : Declarable env σ s) : Accepts env s p sig ↔
    unreserved env p = true ∧ signatureIn? env σ p = some sig ∧
      s.builder.module.prototype? (symbolIn env p) = none := by
  have hnamed : s.builder.module.prototype? (symbolIn env p) = none →
      (nameProblem? env.builtins s p.1 p.2.name.node (symbolIn env p) = none ↔ unreserved env p = true) := by
    intro hfresh
    obtain ⟨struct, f⟩ := p
    cases struct with
    | some struct =>
      have hlookup : s.methods.lookup (symbolIn env (some struct, f)) = none := by
        rw [eq_none_iff_forall_ne_some]
        exact fun sig hsig => h.methods _ sig hsig hfresh
      simp [nameProblem?, hlookup, unreserved]
    | none =>
      have hlookup : s.functions.lookup f.name.node = none := by
        rw [eq_none_iff_forall_ne_some]
        exact fun sig hsig => h.functions _ sig hsig hfresh
      simp [nameProblem?, hlookup, unreserved]
  constructor
  · intro haccepts
    exact ⟨(hnamed haccepts.fresh).mp haccepts.named, signatureIn?_eq h.types p ▸ haccepts.signature_eq, haccepts.fresh⟩
  · rintro ⟨hunreserved, hsig, hfresh⟩
    exact ⟨(hnamed hfresh).mpr hunreserved, (signatureIn?_eq h.types p).trans hsig, hfresh⟩

theorem refl (hfunctions : σ.functions = []) (hmethods : σ.methods = []) : Declarable env σ σ where
  types := fun _ => rfl
  functions := fun _ _ h => by rw [hfunctions] at h; cases h
  methods := fun _ _ h => by rw [hmethods] at h; cases h

theorem declare (h : Declarable env σ s) (hsymbol : sig.symbol = symbolIn env p) :
    Declarable env σ (s.declare p sig) := by
  have hkept : ∀ {name}, s.builder.module.prototype? name ≠ none →
      (s.declare p sig).builder.module.prototype? name ≠ none := by
    intro name hname
    obtain ⟨found, hfound⟩ := ne_none_iff_exists'.mp hname
    rw [prototype?_declare, hfound]
    exact some_ne_none found
  have hown : (s.declare p sig).builder.module.prototype? sig.symbol ≠ none := by
    rw [prototype?_declare, if_pos rfl, or_some]
    exact some_ne_none _
  refine ⟨fun name => (sameTypes_declare s p sig name).trans (h.types name), fun name found hfound => ?_,
    fun symbol found hfound => ?_⟩
  · rw [functions_lookup_declare, or_eq_some_iff] at hfound
    rcases hfound with hold | ⟨_, hnew⟩
    · exact hkept (h.functions name found hold)
    · obtain ⟨⟨hfunction, rfl⟩, _⟩ := ite_none_right_eq_some.mp hnew
      rwa [hsymbol, symbolIn, isNone_iff_eq_none.mp hfunction] at hown
  · rw [methods_lookup_declare, or_eq_some_iff] at hfound
    rcases hfound with hold | ⟨_, hnew⟩
    · exact hkept (h.methods symbol found hold)
    · obtain ⟨⟨_, rfl⟩, _⟩ := ite_none_right_eq_some.mp hnew
      exact hown

end Declarable

/-- All functions of a file can be declared. -/
structure AllAccepted (env : Env) (σ : State) (fns : List Routine) : Prop where
  unreserved : ∀ p ∈ fns, unreserved env p = true
  signed : ∀ p ∈ fns, (signatureIn? env σ p).isSome = true
  nodup : (fns.map (symbolIn env)).Nodup

theorem AllAccepted.perm (h : AllAccepted env σ fns) (hperm : fns'.Perm fns) : AllAccepted env σ fns' where
  unreserved := fun p hp => h.unreserved p (hperm.mem_iff.mp hp)
  signed := fun p hp => h.signed p (hperm.mem_iff.mp hp)
  nodup := (hperm.map _).nodup_iff.mpr h.nodup

def entryIn? (env : Env) (σ : State) (p : Routine) : Option (FnDef × FnSig) :=
  (signatureIn? env σ p).map fun sig => (p.2, sig)

/-- A state with a function declared, if it has a signature. -/
def withDeclared (env : Env) (σ s : State) (p : Routine) : State :=
  (signatureIn? env σ p).elim s (s.declare p)

theorem hasErrors_append_error (ds : List Diagnostic) {d : Diagnostic} (h : d.isError = true) :
    Diagnostic.hasErrors (ds ++ [d]) = true := by
  simp [Diagnostic.hasErrors, h]

theorem hasErrors_eq_false_mono {ds ds' : List Diagnostic} (h : ds <+: ds')
    (hclean : Diagnostic.hasErrors ds' = false) : Diagnostic.hasErrors ds = false := by
  obtain ⟨more, rfl⟩ := h
  rw [Diagnostic.hasErrors, any_append, Bool.or_eq_false_iff] at hclean
  exact hclean.1

theorem Declared.eq (h : Declared env fns s declared s') (haccepted : AllAccepted env σ fns)
    (hdeclarable : Declarable env σ s) (hfresh : ∀ p ∈ fns, s.builder.module.prototype? (symbolIn env p) = none) :
    declared = fns.filterMap (entryIn? env σ) ∧ s' = fns.foldl (withDeclared env σ) s := by
  induction h with
  | nil s => exact ⟨rfl, rfl⟩
  | @accept p fns s s' sig declared haccepts hrest ih =>
    obtain ⟨hne, hnodup⟩ := nodup_cons.mp haccepted.nodup
    obtain ⟨_, hsig, _⟩ := hdeclarable.accepts_iff.mp haccepts
    have hsymbol := (signedBy_of_signatureIn? hsig).symbol_eq
    obtain ⟨rfl, rfl⟩ := ih ⟨fun q hq => haccepted.unreserved q (mem_cons_of_mem _ hq),
        fun q hq => haccepted.signed q (mem_cons_of_mem _ hq), hnodup⟩
      (hdeclarable.declare hsymbol) fun q hq => by
        have hother : sig.symbol ≠ symbolIn env q := fun heq =>
          hne (mem_map.mpr ⟨q, hq, heq.symm.trans hsymbol⟩)
        rw [prototype?_declare, hfresh q (mem_cons_of_mem _ hq), if_neg hother]
        rfl
    have hentry : entryIn? env σ p = some (p.2, sig) := by rw [entryIn?, hsig, map_some]
    rw [filterMap_cons_some hentry, foldl_cons, withDeclared, hsig]
    exact ⟨rfl, rfl⟩
  | @refuse p _ _ _ _ _ hnone =>
    obtain ⟨sig, hsig⟩ := isSome_iff_exists.mp (haccepted.signed p mem_cons_self)
    exact absurd (hdeclarable.accepts_iff.mpr
      ⟨haccepted.unreserved p mem_cons_self, hsig, hfresh p mem_cons_self⟩) (hnone sig)

theorem Declared.allAccepted (h : Declared env fns s declared s') (hdeclarable : Declarable env σ s)
    (hclean : Diagnostic.hasErrors s'.diagnostics = false) :
    AllAccepted env σ fns ∧ ∀ p ∈ fns, s.builder.module.prototype? (symbolIn env p) = none := by
  induction h with
  | nil s =>
    exact ⟨⟨forall_mem_nil _, forall_mem_nil _, nodup_nil⟩, forall_mem_nil _⟩
  | @accept p fns s s' sig declared haccepts hrest ih =>
    obtain ⟨hunreserved, hsig, hfresh⟩ := hdeclarable.accepts_iff.mp haccepts
    have hsymbol := (signedBy_of_signatureIn? hsig).symbol_eq
    obtain ⟨haccepted, hothers⟩ := ih (hdeclarable.declare hsymbol) hclean
    have hlater : ∀ q ∈ fns, s.builder.module.prototype? (symbolIn env q) = none ∧ sig.symbol ≠ symbolIn env q := by
      intro q hq
      have hnone := hothers q hq
      rw [prototype?_declare, or_eq_none_iff] at hnone
      refine ⟨hnone.1, fun heq => ?_⟩
      rw [if_pos heq] at hnone
      cases hnone.2
    refine ⟨⟨forall_mem_cons.mpr ⟨hunreserved, haccepted.unreserved⟩,
      forall_mem_cons.mpr ⟨by rw [hsig]; rfl, haccepted.signed⟩,
      nodup_cons.mpr ⟨fun hmem => ?_, haccepted.nodup⟩⟩,
      forall_mem_cons.mpr ⟨hfresh, fun q hq => (hlater q hq).1⟩⟩
    obtain ⟨q, hq, heq⟩ := mem_map.mp hmem
    exact (hlater q hq).2 (hsymbol.trans heq.symm)
  | @refuse _ _ s _ d _ _ hd hrest =>
    have herrors := hasErrors_append_error s.diagnostics hd
    rw [hasErrors_eq_false_mono hrest.keeps.2.2 hclean] at herrors
    cases herrors

end All

/-! ### The order of declarations -/

/-- Two states have the same functions under all names. -/
structure SameLookups (s t : State) : Prop where
  function?_eq : ∀ name, t.builder.module.function? name = s.builder.module.function? name
  functions_eq : ∀ name, t.functions.lookup name = s.functions.lookup name
  methods_eq : ∀ symbol, t.methods.lookup symbol = s.methods.lookup symbol

theorem or_right_comm {x y z : Option α} (h : y = none ∨ z = none) : (x.or y).or z = (x.or z).or y := by
  rcases h with rfl | rfl
  · rw [or_none, or_none]
  · rw [or_none, or_none]

namespace SameLookups

variable {u : State} {q : Routine} {sig' : FnSig}

theorem refl : SameLookups s s := ⟨fun _ => rfl, fun _ => rfl, fun _ => rfl⟩

theorem trans (h : SameLookups s t) (h' : SameLookups t u) : SameLookups s u where
  function?_eq := fun name => (h'.function?_eq name).trans (h.function?_eq name)
  functions_eq := fun name => (h'.functions_eq name).trans (h.functions_eq name)
  methods_eq := fun symbol => (h'.methods_eq symbol).trans (h.methods_eq symbol)

theorem declare (h : SameLookups s t) : SameLookups (s.declare p sig) (t.declare p sig) where
  function?_eq := fun name => by rw [function?_declare, function?_declare, h.function?_eq]
  functions_eq := fun name => by rw [functions_lookup_declare, functions_lookup_declare, h.functions_eq]
  methods_eq := fun symbol => by rw [methods_lookup_declare, methods_lookup_declare, h.methods_eq]

theorem swap (hsymbol : sig.symbol = symbolIn env p) (hsymbol' : sig'.symbol = symbolIn env q)
    (hne : sig.symbol ≠ sig'.symbol) :
    SameLookups ((s.declare p sig).declare q sig') ((s.declare q sig').declare p sig) where
  function?_eq := fun name => by
    simp only [function?_declare]
    refine or_right_comm ?_
    by_cases hname : sig.symbol = name
    · exact .inl (if_neg fun hname' => hne (hname.trans hname'.symm))
    · exact .inr (if_neg hname)
  functions_eq := fun name => by
    simp only [functions_lookup_declare]
    refine or_right_comm ?_
    by_cases hp : p.1.isNone ∧ p.2.name.node = name
    · refine .inl (if_neg fun hq => hne ?_)
      rw [hsymbol, hsymbol', symbolIn, symbolIn, isNone_iff_eq_none.mp hp.1, isNone_iff_eq_none.mp hq.1, hp.2, hq.2]
    · exact .inr (if_neg hp)
  methods_eq := fun symbol => by
    simp only [methods_lookup_declare]
    refine or_right_comm ?_
    by_cases hp : p.1.isSome ∧ sig.symbol = symbol
    · exact .inl (if_neg fun hq => hne (hp.2.trans hq.2.symm))
    · exact .inr (if_neg hp)

theorem withDeclared (h : SameLookups s t) :
    SameLookups (Lowering.withDeclared env σ s p) (Lowering.withDeclared env σ t p) := by
  unfold Lowering.withDeclared
  cases signatureIn? env σ p with
  | none => exact h
  | some sig => exact h.declare

theorem foldl (h : SameLookups s t) :
    SameLookups (fns.foldl (Lowering.withDeclared env σ) s) (fns.foldl (Lowering.withDeclared env σ) t) := by
  induction fns generalizing s t with
  | nil => exact h
  | cons p fns ih => exact ih (h.withDeclared)

theorem swapIn (hne : symbolIn env p ≠ symbolIn env q) :
    SameLookups (Lowering.withDeclared env σ (Lowering.withDeclared env σ s p) q)
      (Lowering.withDeclared env σ (Lowering.withDeclared env σ s q) p) := by
  unfold Lowering.withDeclared
  cases hsig : signatureIn? env σ p with
  | none => exact refl
  | some sig =>
    cases hsig' : signatureIn? env σ q with
    | none => exact refl
    | some sig' =>
      have hsymbol := (signedBy_of_signatureIn? hsig).symbol_eq
      have hsymbol' := (signedBy_of_signatureIn? hsig').symbol_eq
      exact swap hsymbol hsymbol' (hsymbol ▸ hsymbol' ▸ hne)

/-- The order of declarations does not matter to those who look functions up. -/
theorem perm (hperm : fns'.Perm fns) (hnodup : (fns.map (symbolIn env)).Nodup) (h : SameLookups s t) :
    SameLookups (fns.foldl (Lowering.withDeclared env σ) s) (fns'.foldl (Lowering.withDeclared env σ) t) := by
  induction hperm generalizing s t with
  | nil => exact h
  | cons p _ ih => exact ih (nodup_cons.mp hnodup).2 (h.withDeclared)
  | swap p q fns =>
    have hne : symbolIn env p ≠ symbolIn env q := fun heq =>
      (nodup_cons.mp hnodup).1 (heq ▸ mem_cons_self)
    exact (((h.withDeclared).withDeclared).trans (swapIn hne)).foldl
  | trans hperm hperm' ih ih' =>
    exact (ih' hnodup (.refl)).trans (ih ((hperm'.map _).nodup_iff.mpr hnodup) h)

end SameLookups

/-- The methods of a struct after some functions are declared. -/
def customIn (env : Env) (σ : State) (custom : List CustomType) (p : Routine) : List CustomType :=
  (signatureIn? env σ p).elim custom fun sig => custom.map (methodAdded p sig)

theorem customIn_function (env : Env) (σ : State) (custom : List CustomType) (h : p.1 = none) :
    customIn env σ custom p = custom := by
  have hsame : ∀ sig, ∀ t ∈ custom, methodAdded p sig t = t := by
    intro sig t _
    rw [methodAdded, h, if_neg (some_ne_none t.name)]
  unfold customIn
  cases signatureIn? env σ p with
  | none => rfl
  | some sig => exact (map_congr_left (hsame sig)).trans (map_id' custom)

theorem foldl_withDeclared_custom (env : Env) (σ s : State) (fns : List Routine) :
    (fns.foldl (withDeclared env σ) s).builder.custom =
      (fns.filter (·.1.isSome)).foldl (customIn env σ) s.builder.custom := by
  induction fns generalizing s with
  | nil => rfl
  | cons p fns ih =>
    have hstep : (withDeclared env σ s p).builder.custom = customIn env σ s.builder.custom p := by
      unfold withDeclared customIn
      cases signatureIn? env σ p with
      | none => rfl
      | some sig => rfl
    rw [foldl_cons, ih, hstep]
    cases hstruct : p.1 with
    | none => rw [customIn_function env σ _ hstruct, filter_cons_of_neg (by simp [hstruct])]
    | some struct => rw [filter_cons_of_pos (by simp [hstruct]), foldl_cons]

theorem foldl_withDeclared_keeps (env : Env) (σ s : State) (fns : List Routine) :
    (fns.foldl (withDeclared env σ) s).builder.module.structs = s.builder.module.structs ∧
      (fns.foldl (withDeclared env σ) s).builder.alloc = s.builder.alloc ∧
      (fns.foldl (withDeclared env σ) s).diagnostics = s.diagnostics := by
  induction fns generalizing s with
  | nil => exact ⟨rfl, rfl, rfl⟩
  | cons p fns ih =>
    have hstep : (withDeclared env σ s p).builder.module.structs = s.builder.module.structs ∧
        (withDeclared env σ s p).builder.alloc = s.builder.alloc ∧
        (withDeclared env σ s p).diagnostics = s.diagnostics := by
      unfold withDeclared
      cases signatureIn? env σ p with
      | none => exact ⟨rfl, rfl, rfl⟩
      | some sig => exact ⟨rfl, rfl, rfl⟩
    obtain ⟨hstructs, halloc, hdiagnostics⟩ := ih (withDeclared env σ s p)
    exact ⟨hstructs.trans hstep.1, halloc.trans hstep.2.1, hdiagnostics.trans hstep.2.2⟩

/-! ### Files -/

/-- Before the first function is declared there are none. -/
structure State.Bare (s : State) : Prop extends Declaring False s where
  functions_eq : s.functions = []
  methods_eq : s.methods = []
  module_functions : s.builder.module.functions = []
  module_globals : s.builder.module.globals = []
  strings_eq : s.builder.strings = []

theorem State.Bare.declarable (h : s.Bare) (env : Env) : Declarable env s s :=
  .refl h.functions_eq h.methods_eq

theorem State.Bare.prototype? (h : s.Bare) (name : String) : s.builder.module.prototype? name = none := by
  rw [Module.prototype?, Module.function?, h.module_functions]
  rfl

theorem bare_declareStructs (env : Env) (name : String) (structs : List StructDef) (h : s.Bare) :
    ∃ s', declareStructs name structs env s = .ok () s' ∧ s'.Bare := by
  have hrun : Outcome (fun _ => False) (fun _ => State.Bare) (declareStructs name structs env s) :=
    outcome_declareStructs h (fun _ _ _ h => { h with toDeclaring := h.note _ _ })
      (fun _ _ _ h hnew hfields => { h with toDeclaring := h.defineType hnew hfields })
      fun _ _ h => { h with toDeclaring := h.report _ }
  cases hres : declareStructs name structs env s with
  | ok a s' =>
    rw [hres] at hrun
    exact ⟨s', rfl, hrun⟩
  | error d s' =>
    rw [hres] at hrun
    exact hrun.elim

end Aero.Lowering
