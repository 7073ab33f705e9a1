import Aero.Proofs.Parallel.Emission

/-!
What the operations of the builder do not look at. The log is only written, and the names of parameters are only
kept: two builders that differ in these alone emit the same code.
-/

open List hiding get modify

namespace Aero.IR

variable {f f' : Function} {block : BlockId} {α : Type} {i : Nat}

/-! ### Builders behind a mask -/

def Function.masked (mask : String → String) (f : Function) : Function :=
  { f with params := f.params.map fun p => { p with name := mask p.name } }

def Module.masked (mask : String → String) (m : Module) : Module :=
  { m with functions := m.functions.map (Function.masked mask) }

theorem Function.masked_id (f : Function) : f.masked id = f := by
  simp [Function.masked]

theorem Module.masked_id (m : Module) : m.masked id = m := by
  simp [Module.masked, funext Function.masked_id]

/-- A builder without its log. -/
def Builder.silent (b : Builder) : Builder := { b with log := #[] }

def Builder.masked (mask : String → String) (b : Builder) : Builder := { b.silent with module := b.module.masked mask }

/-- Two builders differ in their logs and in the names of parameters, and not in what the mask leaves of these. -/
def Builder.Twin (mask : String → String) (b b' : Builder) : Prop := b'.masked mask = b.masked mask

/-- Two builders still differ in nothing else, and have the custom types that the first had before. -/
def Builder.TwinStep (mask : String → String) (b _ c c' : Builder) : Prop := c.Twin mask c' ∧ c.custom = b.custom

variable {mask : String → String} {b b' c d : Builder} {P : Common True} {name : String}

namespace Builder

variable (mask b)

theorem function?_masked : (b.masked mask).function? = b.function?.map (Function.masked mask) := by
  cases hcurrent : b.current <;> simp [function?, masked, silent, Module.masked, hcurrent]

theorem module_function?_masked (name : String) :
    (b.masked mask).module.function? name = (b.module.function? name).map (Function.masked mask) :=
  find?_map ..

theorem block?_masked : (b.masked mask).block? = b.block? := by
  rw [block?, function?_masked, block?]
  cases b.function? <;> rfl

theorem modifyFunction_custom (change : Function → Function) : (b.modifyFunction change).custom = b.custom := by
  unfold Builder.modifyFunction
  split <;> rfl

theorem modifyBlock_custom (change : Block → Block) : (b.modifyBlock change).custom = b.custom := by
  unfold Builder.modifyBlock
  split
  · exact modifyFunction_custom b _
  · rfl

variable {mask b}

theorem modifyFunction_masked {change : Function → Function} (hc : c.silent = b.masked mask)
    (hchange : ∀ f, (change f).masked mask = change (f.masked mask)) :
    (c.modifyFunction change).silent = (b.modifyFunction change).masked mask := by
  have hmodify (l : List Function) (i : Nat) :
      (l.map (.masked mask)).modify i change = (l.modify i change).map (.masked mask) := by
    refine ext_getElem? fun j => ?_
    rw [getElem?_map, getElem?_modify, getElem?_modify, getElem?_map]
    cases l[j]? with
    | none => rfl
    | some f =>
      by_cases hij : i = j
      · simp [hij, hchange]
      · simp [hij]
  obtain ⟨module, current, insert, strings, custom, alloc, log⟩ := c
  simp only [silent, masked, mk.injEq] at hc
  obtain ⟨rfl, rfl, rfl, rfl, rfl, rfl, _⟩ := hc
  cases hcurrent : b.current <;> simp [modifyFunction, silent, masked, Module.masked, hcurrent, hmodify]

theorem modifyBlock_masked (change : Block → Block) :
    ((b.masked mask).modifyBlock change).silent = (b.modifyBlock change).masked mask := by
  unfold Builder.modifyBlock
  rw [show (b.masked mask).insert = b.insert from rfl]
  split
  · next id _ =>
    refine modifyFunction_masked rfl fun f => ?_
    cases hindex : f.blocks.findIdx? (·.id = id) <;> simp only [Function.modifyBlock, Function.masked, hindex]
  · rfl

theorem Twin.modifyBlock (h : b.Twin mask b') (change : Block → Block) :
    (b.modifyBlock change).Twin mask (b'.modifyBlock change) := by
  rw [Twin, ← modifyBlock_masked, h, modifyBlock_masked]

theorem Twin.level (h : b.Twin mask b') : b.Level b' := by
  have hblock : b'.block? = b.block? := by rw [← block?_masked mask b', h, block?_masked]
  refine ⟨(congrArg insert h :), (congrArg custom h :), congrArg (·.module.structs) h, (congrArg alloc h :), ?_⟩
  rw [isTerminated, hblock, isTerminated]

theorem TwinStep.note (h : TwinStep mask b b' c d) (level : LogLevel) (message : String) :
    TwinStep mask b b' (c.note level message) (d.note level message) := h

end Builder

/-! ### Actions -/

/-- An action looks at nothing behind the mask, and keeps the custom types. -/
def Blind (mask : String → String) (act : Build α) : Prop := ∀ b, (act (b.masked mask)).1 = (act b).1 ∧
  (act (b.masked mask)).2.silent = (act b).2.masked mask ∧ (act b).2.custom = b.custom

theorem Blind.follows {act : Build α} (hact : Blind mask act) :
    Follows (Builder.Twin mask) (Builder.TwinStep mask) act := by
  intro b b' h
  obtain ⟨hvalue, hbuilder, hcustom⟩ := hact b
  obtain ⟨hvalue', hbuilder', _⟩ := hact b'
  rw [show b'.masked mask = b.masked mask from h] at hvalue' hbuilder'
  exact ⟨hvalue'.symm.trans hvalue, hbuilder'.symm.trans hbuilder, hcustom⟩

namespace Blind

open Builder

theorem constString {s : String} : Blind mask (Build.constString s) := by
  intro b
  unfold Build.constString
  rw [show (b.masked mask).strings = b.strings from rfl]
  split <;> exact ⟨rfl, rfl, rfl⟩

theorem appendBlock {label : String} : Blind mask (Build.appendBlock label) := by
  intro b
  unfold Build.appendBlock
  rw [function?_masked]
  cases b.function? with
  | none => exact ⟨rfl, rfl, rfl⟩
  | some f => exact ⟨rfl, modifyFunction_masked (b := b.note ..) rfl fun _ => rfl, modifyFunction_custom ..⟩

theorem endFunction : Blind mask Build.endFunction := fun _ => ⟨rfl, rfl, rfl⟩

theorem discardBody : Blind mask Build.discardBody := by
  intro b
  let drop (f : Function) : Function := { f with blocks := [], nextBlock := 0, nextReg := f.params.length }
  have hdrop (f : Function) : (drop f).masked mask = drop (f.masked mask) := by simp [drop, Function.masked]
  have hdropped := modifyFunction_masked (b := b) (c := b.masked mask) rfl hdrop
  exact ⟨rfl, congrArg (fun b : Builder => { b with insert := none }) hdropped, modifyFunction_custom ..⟩

theorem eraseBlock : Blind mask (Build.eraseBlock block) := by
  have hleave {c d : Builder} (h : c.silent = d.masked mask) :
      (if c.insert = some block then { c with insert := none } else c).silent =
        (if d.insert = some block then { d with insert := none } else d).masked mask := by
    rw [show c.insert = d.insert from (congrArg insert h :)]
    split
    · exact congrArg (fun b : Builder => { b with insert := none }) h
    · exact h
  refine fun b => ⟨rfl, hleave (modifyFunction_masked rfl fun _ => rfl), ?_⟩
  change (ite _ _ _ : Builder).custom = _
  split <;> exact modifyFunction_custom ..

theorem moveBlockToEnd : Blind mask (Build.moveBlockToEnd block) := by
  refine fun b => ⟨rfl, modifyFunction_masked rfl fun f => ?_, modifyFunction_custom ..⟩
  rw [show (f.masked mask).block? block = f.block? block from rfl]
  cases hindex : f.blocks.findIdx? (·.id = block) <;> cases hlast : f.block? block <;>
    simp only [Function.masked, hindex]

theorem freshReg : Blind mask Build.freshReg := by
  intro b
  unfold Build.freshReg
  rw [function?_masked]
  cases b.function? with
  | none => exact ⟨rfl, rfl, rfl⟩
  | some f => exact ⟨rfl, modifyFunction_masked rfl fun _ => rfl, modifyFunction_custom ..⟩

theorem push {i : Instr} : Blind mask (Build.push i) := by
  intro b
  rw [Build.push_run, Build.push_run, block?_masked, show (b.masked mask).insert = b.insert from rfl]
  cases b.insert with
  | none => exact ⟨rfl, rfl, rfl⟩
  | some id =>
    cases b.block? with
    | none => exact ⟨rfl, rfl, rfl⟩
    | some block =>
      dsimp only [Option.elim_some]
      split
      · exact ⟨rfl, rfl, rfl⟩
      · exact ⟨rfl, modifyBlock_masked _, modifyBlock_custom ..⟩

end Blind

/-- The same function is declared on both sides, up to the names of its parameters. -/
theorem Builder.Twin.declareFunction (h : b.Twin mask b') (hf : f'.masked mask = f.masked mask) :
    (Build.declareFunction f' b').1 = (Build.declareFunction f b).1 ∧
      TwinStep mask b b' (Build.declareFunction f b).2 (Build.declareFunction f' b').2 := by
  have hname : f'.name = f.name := (congrArg Function.name hf :)
  have hfound : (b'.module.function? f.name).isSome = (b.module.function? f.name).isSome := by
    rw [← Option.isSome_map, ← module_function?_masked, h, module_function?_masked, Option.isSome_map]
  unfold Build.declareFunction
  rw [hname, hfound]
  split
  · exact ⟨rfl, h, rfl⟩
  · refine ⟨rfl, ?_, rfl⟩
    have hfunctions : b'.module.functions.map _ = b.module.functions.map _ := congrArg (·.module.functions) h
    have hadded : (b'.module.functions ++ [f']).map (Function.masked mask) =
        (b.module.functions ++ [f]).map (Function.masked mask) := by
      rw [map_append, hfunctions, map_append, map_singleton, hf, map_singleton]
    exact congrArg₂ (fun (b : Builder) fs => { b with module := { b.module with functions := fs } }) h hadded

/-- What two modules have in common that differ in names of parameters alone. -/
def Builder.sameCode (b _ : Builder) : Common True := ⟨fun n n' => n' = n, fun _ => True, b.custom⟩

/-- Builders of one module are compared, which differ in their logs and in the names of parameters. -/
def Builder.twin (mask : String → String) : Pairing where
  Like := fun _ => Builder.Twin mask
  Advance := fun _ => Builder.TwinStep mask
  exact := True
  common := Builder.sameCode
  strict := False
  Allows := fun _ => True
  like := fun h => h.1
  le := fun h => ⟨fun _ _ hn => hn, fun _ hn => hn, h.2⟩
  refl := fun h => ⟨h, rfl⟩
  trans := fun h h' => ⟨h'.1, h'.2.trans h.2⟩
  level := Builder.Twin.level
  custom_eq := fun _ _ => rfl
  current_eq := fun _ _ _ _ h => (congrArg Builder.current h :)
  declared := fun _ _ _ _ _ => trivial
  ret_eq := fun {_ _ _ name} h _ => by
    have hret := congrArg (fun b : Builder => (b.module.function? name).map Function.ret) h
    simp only [module_function?_masked, Option.map_map] at hret
    exact hret
  allows := fun _ _ _ => trivial
  ordinary := fun _ => trivial
  tracker := fun _ _ _ _ => trivial
  firm_ret := False.elim
  firm_fields := False.elim
  note := fun h _ _ _ => ⟨h, rfl⟩
  position := fun _ => Blind.follows fun _ => ⟨rfl, rfl, rfl⟩
  appendBlock := fun label => (Blind.appendBlock).follows
  eraseBlock := fun block => (Blind.eraseBlock).follows
  moveBlockToEnd := fun block => (Blind.moveBlockToEnd).follows
  freshReg := Blind.freshReg.follows
  discardBody := Blind.discardBody.follows
  push := fun h hi _ _ => by
    rw [hi.eq_of_names fun _ _ hn => hn]
    exact ((Blind.push).follows _ _ h).2
  terminate := fun {_ b _ _ _} h ht => by
    rw [ht.eq_of_names fun _ _ hn => hn]
    exact ⟨h.modifyBlock _, modifyBlock_custom b _⟩
  constString := fun h s => by
    obtain ⟨hvalue, hstep⟩ := (Blind.constString).follows _ _ h
    exact ⟨hstep, hvalue ▸ .plain (.inl trivial)⟩
  declarePrimitive := fun h p => ⟨(h.declareFunction (f := p.declaration) rfl).2, fun _ => trivial⟩
  introduce := fun _ {_ unit f} _ _ _ _ _ h => by
    have hattach : Blind mask (Lowering.attachForeign unit) := fun _ => ⟨rfl, rfl, rfl⟩
    exact ⟨rfl, ((hattach.follows _ _ h).2.1.declareFunction (f := f) rfl).2⟩

namespace Build

/-! ### Functions -/

theorem mirrors_declareFunction (hf : f'.masked mask = f.masked mask) :
    Mirrors (Builder.twin mask) P (declareFunction f) (declareFunction f') (Same fun _ => True) :=
  ⟨fun _ _ h _ => ⟨(Builder.Twin.declareFunction h hf).2, (Builder.Twin.declareFunction h hf).1, trivial⟩⟩

theorem mirrors_endFunction : Mirrored (Builder.twin mask) P endFunction Done :=
  mirrors_unit Blind.endFunction.follows

theorem mirrors_openBody : Mirrored (Builder.twin mask) P (openBody i) Done := by
  have hcurrent : Mirrored (Builder.twin mask) P (modify fun b => { b with current := some i } : Build Unit) Done :=
    mirrors_unit (Blind.follows fun _ => ⟨rfl, rfl, rfl⟩)
  refine hcurrent.seq fun P' _ => ?_
  have hreg : Blind mask (modify (·.modifyFunction fun f => { f with nextReg := f.params.length }) : Build Unit) :=
    fun b => ⟨rfl, Builder.modifyFunction_masked rfl fun f => by simp [Function.masked], b.modifyFunction_custom _⟩
  exact (mirrors_unit hreg.follows).seq fun _ _ => (mirrors_appendBlock _).bind_same fun _ _ _ _ => mirrors_position

theorem parameters_masked (mask : String → String) (f : Function) :
    (f.masked mask).params.zipIdx.map (fun (p, r) => Value.ofReg r p.ty) =
      f.params.zipIdx.map fun (p, r) => .ofReg r p.ty := by
  simp only [Function.masked, zipIdx_map, map_map]
  rfl

/-- A body is begun on both sides, with the same registers for the parameters. -/
theorem defineFunction_twin (h : b.Twin mask b') (name : String) :
    (defineFunction name b').1 = (defineFunction name b).1 ∧
      Builder.TwinStep mask b b' (defineFunction name b).2 (defineFunction name b').2 := by
  have hindex : b'.module.functions.findIdx? (·.name = name) = b.module.functions.findIdx? (·.name = name) := by
    have hmasked := congrArg (·.module.functions.findIdx? (·.name = name)) h
    simp only [Builder.masked, Module.masked, findIdx?_map] at hmasked
    exact hmasked
  have hprototype := congrArg (fun b : Builder => b.module.function? name) h
  simp only [Builder.module_function?_masked] at hprototype
  cases hi : b.module.functions.findIdx? (·.name = name) with
  | none =>
    rw [defineFunction_unknown hi, defineFunction_unknown (hindex.trans hi)]
    exact ⟨rfl, h, rfl⟩
  | some i =>
    obtain ⟨f, hfound⟩ : ∃ f, b.module.function? name = some f := by
      obtain ⟨hlt, hf, _⟩ := findIdx?_eq_some_iff_getElem.mp hi
      exact Option.isSome_iff_exists.mp (find?_isSome.mpr ⟨_, getElem_mem hlt, hf⟩)
    rw [hfound, Option.map_some, Option.map_eq_some_iff] at hprototype
    obtain ⟨f', hfound', hsame⟩ := hprototype
    rw [defineFunction_found hi hfound, defineFunction_found (hindex.trans hi) hfound',
      ← parameters_masked mask f', hsame, parameters_masked]
    exact ⟨rfl, (mirrors_openBody.run (γ := []) b b' h (le_refl _)).1⟩

theorem mirrors_defineFunction : Mirrored (Builder.twin mask) P (defineFunction name) (Same fun _ => True) :=
  ⟨fun _ _ h _ => ⟨(defineFunction_twin h name).2, (defineFunction_twin h name).1, trivial⟩⟩

/-! ### Custom types -/

theorem addMethod_twin (h : b.Twin mask b') (typeName method symbol : String) :
    (addMethod typeName method symbol b).2.Twin mask (addMethod typeName method symbol b').2 := by
  have hmasked (b : Builder) :
      (addMethod typeName method symbol b).2.masked mask = (addMethod typeName method symbol (b.masked mask)).2 := by
    unfold addMethod
    rw [show (b.masked mask).custom? typeName = b.custom? typeName from rfl]
    split <;> rfl
  rw [Builder.Twin, hmasked, h, ← hmasked]

end Build

end Aero.IR
