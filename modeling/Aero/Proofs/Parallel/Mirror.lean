import Aero.Proofs.Parallel.Pairing

/-!
Two builders at work on one function each, which are alike up to the names of string constants. What each of them
does to the rest of its own module is exact: some primitives are declared and some strings are added.
-/

namespace Aero.IR

open List Option

variable {b b' c c' d : Builder} {f g : Function} {i : Nat} {name s n n' : String} {p : Primitive}
  {work : Option String} {change : Function → Function}

/-! ### Strings -/

def stringName (i : Nat) : String := ".str." ++ toString i

/-- The globals of a module are strings, each one once and with room for the byte that ends it, that are named by
their positions. -/
structure Module.Interned (m : Module) : Prop where
  names : m.globals.map Global.name = (List.range m.globals.length).map stringName
  strings : ∀ g ∈ m.globals, ∃ s, g.init = .str s ∧ g.ty = .array .i8 (s.utf8ByteSize + 1)
  nodup : (m.globals.map Global.init).Nodup

/-- A table of strings is in step with the globals: each entry is the text and the name of one of them, in order. -/
structure Module.InStep (m : Module) (texts : List (String × String)) : Prop extends m.Interned where
  table : texts.map (fun p => (GlobalInit.str p.1, p.2)) = m.globals.map fun g => (g.init, g.name)

/-- A name in one list of globals and a name in another stand for one string. -/
def SharedString (globals globals' : List Global) (n n' : String) : Prop :=
  ∃ g ∈ globals, ∃ g' ∈ globals', ∃ s, g.name = n ∧ g'.name = n' ∧ g.init = .str s ∧ g'.init = .str s

theorem SharedString.mono {l1 l2 l1' l2' : List Global}
    (h : SharedString l1 l1' n n') (hl : l1 <+: l2) (hl' : l1' <+: l2') : SharedString l2 l2' n n' := by
  obtain ⟨g, hg, g', hg', hs⟩ := h
  exact ⟨g, hl.subset hg, g', hl'.subset hg', hs⟩

theorem Module.Interned.add {m : Module} (h : m.Interned) (hnew : ∀ g ∈ m.globals, g.init ≠ .str s) :
    Module.Interned { m with globals := m.globals ++
      [⟨stringName m.globals.length, .array .i8 (s.utf8ByteSize + 1), .str s, true⟩] } where
  names := by
    rw [map_append, h.names, length_append, length_singleton, range_succ, map_append]
    rfl
  strings := by
    intro g hg
    rcases mem_append.mp hg with hg | hg
    · exact h.strings g hg
    · rw [mem_singleton.mp hg]
      exact ⟨s, rfl, rfl⟩
  nodup := by
    rw [map_append, nodup_append]
    refine ⟨h.nodup, nodup_singleton _, ?_⟩
    intro init hinit other hother heq
    obtain ⟨g, hg, rfl⟩ := mem_map.mp hinit
    rw [map_singleton, mem_singleton] at hother
    exact hnew g hg (heq.trans hother)

/-! ### One builder -/

namespace Builder

abbrev InStep (b : Builder) : Prop := b.module.InStep b.strings

namespace InStep

theorem congr (h : b.InStep) (hglobals : c.module.globals = b.module.globals) (hstrings : c.strings = b.strings) :
    c.InStep :=
  ⟨⟨hglobals ▸ h.names, hglobals ▸ h.strings, hglobals ▸ h.nodup⟩, hglobals ▸ hstrings ▸ h.table⟩

theorem of_nil (hglobals : b.module.globals = []) (hstrings : b.strings = []) : b.InStep :=
  ⟨⟨by rw [hglobals]; rfl, by rw [hglobals]; nofun, by rw [hglobals]; exact .nil⟩, by rw [hglobals, hstrings]; rfl⟩

variable (h : b.InStep)
include h

theorem length_eq : b.strings.length = b.module.globals.length := by
  simpa using congrArg List.length h.table

theorem exists_global (hs : (s, name) ∈ b.strings) : ∃ g ∈ b.module.globals, g.init = .str s ∧ g.name = name := by
  have hmem : (GlobalInit.str s, name) ∈ b.module.globals.map fun g => (g.init, g.name) :=
    h.table ▸ mem_map.mpr ⟨_, hs, rfl⟩
  obtain ⟨g, hg, heq⟩ := mem_map.mp hmem
  exact ⟨g, hg, Prod.mk.inj heq⟩

theorem mem_strings {g : Global} (hg : g ∈ b.module.globals) (hs : g.init = .str s) : (s, g.name) ∈ b.strings := by
  have hmem : (GlobalInit.str s, g.name) ∈ b.strings.map fun p => (GlobalInit.str p.1, p.2) :=
    h.table ▸ mem_map.mpr ⟨g, hg, by rw [hs]⟩
  obtain ⟨p, hp, heq⟩ := mem_map.mp hmem
  obtain ⟨htext, hname⟩ := Prod.mk.inj heq
  rwa [← GlobalInit.str.inj htext, ← hname]

theorem ne_of_lookup (hnew : b.strings.lookup s = none) : ∀ g ∈ b.module.globals, g.init ≠ .str s := by
  intro g hg hs
  have hne := lookup_eq_none_iff.mp hnew _ (h.mem_strings hg hs)
  simp at hne

/-- A string that is asked for is a global that holds it, and the table stays in step. -/
theorem constString (s : String) : (Build.constString s b).2.InStep ∧
    ∃ g ∈ (Build.constString s b).2.module.globals, (Build.constString s b).1 = .global g.name ∧ g.init = .str s := by
  unfold Build.constString
  split
  · next found hfound =>
    obtain ⟨g, hg, hinit, hname⟩ := h.exists_global (mem_of_lookup hfound)
    exact ⟨h, g, hg, by rw [hname], hinit⟩
  · next hnew =>
    have hadd := h.add (h.ne_of_lookup hnew)
    rw [← h.length_eq] at hadd
    exact ⟨⟨hadd, by simp [h.table]⟩, _, mem_append_right _ mem_cons_self, rfl, rfl⟩

end InStep

def workName? (b : Builder) : Option String := b.function?.map Function.name

/-- A builder comes from another with the same types, by the addition of strings at most. -/
structure Grown (b c : Builder) : Prop where
  custom_eq : c.custom = b.custom
  structs_eq : c.module.structs = b.module.structs
  alloc_eq : c.alloc = b.alloc
  globals : b.module.globals <+: c.module.globals
  inStep : b.InStep → c.InStep

theorem Grown.refl (b : Builder) : b.Grown b := ⟨rfl, rfl, rfl, prefix_rfl, fun h => h⟩

theorem Grown.trans (h : b.Grown c) (h' : c.Grown d) : b.Grown d where
  custom_eq := h'.custom_eq.trans h.custom_eq
  structs_eq := h'.structs_eq.trans h.structs_eq
  alloc_eq := h'.alloc_eq.trans h.alloc_eq
  globals := h.globals.trans h'.globals
  inStep := fun hb => h'.inStep (h.inStep hb)

/-- All prototypes of a module stay. -/
structure Retains (b c : Builder) : Prop extends Grown b c where
  kept : ∀ {name s}, b.module.prototype? name = some s → c.module.prototype? name = some s

/-- All prototypes of a module stay, and only primitives are new. -/
structure Extends (b c : Builder) : Prop extends Retains b c where
  new : ∀ {name s}, b.module.prototype? name = none → c.module.prototype? name = some s →
    ∃ p : Primitive, p.name = name ∧ s = p.signature

theorem Retains.trans (h : b.Retains c) (h' : c.Retains d) : b.Retains d where
  toGrown := h.toGrown.trans h'.toGrown
  kept := fun hs => h'.kept (h.kept hs)

theorem Extends.refl (b : Builder) : b.Extends b where
  toGrown := .refl b
  kept := fun h => h
  new := fun hnone hs => by rw [hnone] at hs; cases hs

theorem Extends.trans (h : b.Extends c) (h' : c.Extends d) : b.Extends d where
  toRetains := h.toRetains.trans h'.toRetains
  new := fun {name s} hnone hs => by
    cases hc : c.module.prototype? name with
    | none => exact h'.new hc hs
    | some s' =>
      obtain rfl : s' = s := some.inj ((h'.kept hc).symm.trans hs)
      exact h.new hnone hc

/-- A builder comes from another by work on one function at most, which keeps its prototype. Some primitives
are declared unless their names are taken. -/
structure Gains (work : Option String) (ps : List Primitive) (b c : Builder) : Prop extends Grown b c where
  own : ∀ name, work = some name → c.module.prototype? name = b.module.prototype? name
  others : ∀ name, work ≠ some name → c.module.function? name =
    (b.module.function? name).or ((ps.find? (·.name = name)).map Primitive.declaration)

namespace Gains

variable {ps qs : List Primitive}

theorem refl (work : Option String) (b : Builder) : Gains work [] b b where
  toGrown := .refl b
  own := fun _ _ => rfl
  others := fun _ _ => by rw [find?_nil, map_none, or_none]

theorem trans (h : Gains work ps b c) (h' : Gains work qs c d) : Gains work (ps ++ qs) b d where
  toGrown := h.toGrown.trans h'.toGrown
  own := fun name hname => (h'.own name hname).trans (h.own name hname)
  others := fun name hname => by
    rw [h'.others name hname, h.others name hname, find?_append, Option.map_or, Option.or_assoc]

theorem extension (h : Gains work ps b c) : b.Extends c where
  toGrown := h.toGrown
  kept := fun {name s} hs => by
    by_cases hname : work = some name
    · rw [h.own name hname, hs]
    · obtain ⟨f, hf, rfl⟩ := map_eq_some_iff.mp hs
      rw [Module.prototype?, h.others name hname, hf]
      rfl
  new := fun {name s} hnone hs => by
    by_cases hname : work = some name
    · rw [h.own name hname, hnone] at hs
      cases hs
    · rw [Module.prototype?, h.others name hname, map_eq_none_iff.mp hnone] at hs
      obtain ⟨g, hg, rfl⟩ := map_eq_some_iff.mp hs
      obtain ⟨p, hp, rfl⟩ := map_eq_some_iff.mp hg
      exact ⟨p, by simpa using find?_some hp, p.declaration_prototype⟩

end Gains

/-- A builder comes from another by a change of one function alone. -/
structure Edits (work : Option String) (b c : Builder) : Prop where
  custom_eq : c.custom = b.custom
  structs_eq : c.module.structs = b.module.structs
  alloc_eq : c.alloc = b.alloc
  globals_eq : c.module.globals = b.module.globals
  strings_eq : c.strings = b.strings
  names_eq : c.module.functions.map Function.name = b.module.functions.map Function.name
  prototypes : ∀ name, c.module.prototype? name = b.module.prototype? name
  others : ∀ name, work ≠ some name → c.module.function? name = b.module.function? name

theorem Edits.gains (h : Edits work b c) : Gains work [] b c where
  custom_eq := h.custom_eq
  structs_eq := h.structs_eq
  alloc_eq := h.alloc_eq
  globals := h.globals_eq ▸ prefix_rfl
  inStep := fun hb => hb.congr h.globals_eq h.strings_eq
  own := fun name _ => h.prototypes name
  others := fun name hname => by
    rw [h.others name hname, find?_nil, map_none, or_none]

/-- A builder without the place of work and the log. -/
def still (b : Builder) : Builder := { b with insert := none, log := #[] }

theorem module_of_still (h : c.still = b.still) : c.module = b.module := (congrArg module h :)

theorem Edits.of_still (h : c.still = b.still) : Edits work b c where
  custom_eq := (congrArg custom h :)
  structs_eq := (congrArg (·.module.structs) h :)
  alloc_eq := (congrArg alloc h :)
  globals_eq := (congrArg (·.module.globals) h :)
  strings_eq := (congrArg strings h :)
  names_eq := by rw [module_of_still h]
  prototypes := fun _ => by rw [module_of_still h]
  others := fun _ _ => by rw [module_of_still h]

theorem find?_set_of_ne {l : List Function} (hf : l[i]? = some f) (hname : g.name = f.name)
    (hne : f.name ≠ name) : (l.set i g).find? (·.name = name) = l.find? (·.name = name) := by
  induction l generalizing i with
  | nil => rfl
  | cons head rest ih =>
    cases i with
    | zero =>
      obtain rfl : head = f := some.inj hf
      rw [set_cons_zero, find?_cons, hname]
      simp [hne]
    | succ i =>
      rw [set_cons_succ, find?_cons, find?_cons, ih hf]

theorem setFn_edits (hf : b.module.functions[i]? = some f) (hname : g.name = f.name)
    (hproto : g.prototype = f.prototype) : Edits (some f.name) b (b.setFn i g) where
  custom_eq := rfl
  structs_eq := rfl
  alloc_eq := rfl
  globals_eq := rfl
  strings_eq := rfl
  names_eq := by rw [setFn, map_set, hname, set_of_getElem? (by rw [getElem?_map, hf]; rfl)]
  prototypes := setFn_prototype? hf hname hproto
  others := fun _ hne => find?_set_of_ne hf hname fun heq => hne (congrArg some heq)

/-- A builder comes from another by work on the function being defined. -/
structure Works (ps : List Primitive) (b c : Builder) : Prop extends Gains b.workName? ps b c where
  current_eq : c.current = b.current
  workName_eq : c.workName? = b.workName?
  names : b.module.functions.map Function.name <+: c.module.functions.map Function.name

theorem Works.trans {ps qs : List Primitive} (h : b.Works ps c) (h' : c.Works qs d) : b.Works (ps ++ qs) d where
  toGains := h.toGains.trans (h.workName_eq ▸ h'.toGains)
  current_eq := h'.current_eq.trans h.current_eq
  workName_eq := h'.workName_eq.trans h.workName_eq
  names := h.names.trans h'.names

theorem Works.refl (b : Builder) : b.Works [] b := ⟨.refl _ b, rfl, rfl, prefix_rfl⟩

theorem Edits.works (h : Edits b.workName? b c) (hcurrent : c.current = b.current)
    (hwork : c.workName? = b.workName?) : b.Works [] c :=
  ⟨h.gains, hcurrent, hwork, h.names_eq ▸ prefix_rfl⟩

theorem function?_eq_some (h : b.function? = some f) :
    ∃ i, b.current = some i ∧ b.module.functions[i]? = some f := bind_eq_some_iff.mp h

theorem workName?_eq (h : b.function? = some f) : b.workName? = some f.name := by rw [workName?, h, map_some]

theorem function?_setFn (hcurrent : b.current = some i)
    (hf : b.module.functions[i]? = some f) : (b.setFn i g).function? = some g := by
  rw [function?, show (b.setFn i g).current = some i from hcurrent]
  exact List.getElem?_set_self (List.getElem?_eq_some_iff.mp hf).1

/-- The function being defined is replaced by one with its prototype. -/
theorem setFn_works (hcurrent : b.current = some i) (hf : b.module.functions[i]? = some f) (hname : g.name = f.name)
    (hproto : g.prototype = f.prototype) : b.Works [] (b.setFn i g) := by
  have hfn : b.function? = some f := by rw [function?, hcurrent, bind_some, hf]
  refine Edits.works ?_ rfl ?_
  · rw [workName?_eq hfn]
    exact setFn_edits hf hname hproto
  · rw [workName?_eq hfn, workName?_eq (function?_setFn hcurrent hf), hname]

theorem modifyFunction_works (h : b.function? = some f)
    (hname : (change f).name = f.name) (hproto : (change f).prototype = f.prototype) :
    b.Works [] (b.modifyFunction change) ∧ (b.modifyFunction change).function? = some (change f) := by
  obtain ⟨i, hcurrent, hf⟩ := function?_eq_some h
  rw [modifyFunction_eq hcurrent hf]
  exact ⟨setFn_works hcurrent hf hname hproto, function?_setFn hcurrent hf⟩

/-! ### Two builders -/

/-- Two builders have these strings, declarations and types in common. -/
def common (b b' : Builder) : Common False where
  strings := SharedString b.module.globals b'.module.globals
  declared := fun name => ∃ s, b.module.prototype? name = some s ∧ b'.module.prototype? name = some s
  custom := b.custom

/-- Two modules give a name the same prototype, or it is the name of a primitive that one of them may not
have declared yet. -/
def Compatible (name : String) (x y : Option Signature) : Prop :=
  x = y ∨ ∃ p : Primitive, p.name = name ∧ (∀ s, x = some s → s = p.signature) ∧ ∀ s, y = some s → s = p.signature

/-- A name that has the signature of a primitive, or none yet, goes on so. -/
theorem Extends.signature_eq (h : b.Extends c)
    (hb : ∀ s, b.module.prototype? p.name = some s → s = p.signature) {s : Signature}
    (hs : c.module.prototype? p.name = some s) : s = p.signature := by
  cases hproto : b.module.prototype? p.name with
  | some s' =>
    rw [h.kept hproto] at hs
    rw [← some.inj hs, hb s' hproto]
  | none =>
    obtain ⟨q, hq, rfl⟩ := h.new hproto hs
    rw [Primitive.name_injective hq]

theorem Extends.compatible (h : b.Extends c) (h' : b'.Extends c') (name : String)
    (hname : Compatible name (b.module.prototype? name) (b'.module.prototype? name)) :
    Compatible name (c.module.prototype? name) (c'.module.prototype? name) := by
  rcases hname with heq | ⟨p, rfl, hb, hb'⟩
  · cases hproto : b.module.prototype? name with
    | some s =>
      rw [h.kept hproto, h'.kept (heq ▸ hproto)]
      exact .inl rfl
    | none =>
      have hproto' : b'.module.prototype? name = none := heq ▸ hproto
      by_cases hprimitive : ∃ p : Primitive, p.name = name
      · obtain ⟨p, rfl⟩ := hprimitive
        refine .inr ⟨p, rfl, fun s => h.signature_eq ?_, fun s => h'.signature_eq ?_⟩
        · simp [hproto]
        · simp [hproto']
      · have hc : c.module.prototype? name = none := eq_none_iff_forall_ne_some.mpr fun s hs =>
          hprimitive ((h.new hproto hs).imp fun _ hp => hp.1)
        have hc' : c'.module.prototype? name = none := eq_none_iff_forall_ne_some.mpr fun s hs =>
          hprimitive ((h'.new hproto' hs).imp fun _ hp => hp.1)
        exact .inl (hc.trans hc'.symm)
  · exact .inr ⟨p, rfl, fun s => h.signature_eq hb, fun s => h'.signature_eq hb'⟩

/-- Two builders agree in their types, and in their prototypes as far as they have declared them. The strings of each
are in step with its own globals. -/
structure Agree (b b' : Builder) : Prop where
  left : b.InStep
  right : b'.InStep
  custom_eq : b'.custom = b.custom
  structs_eq : b'.module.structs = b.module.structs
  alloc_eq : b'.alloc = b.alloc
  compatible : ∀ name, Compatible name (b.module.prototype? name) (b'.module.prototype? name)

theorem Agree.refl (h : b.InStep) : b.Agree b := ⟨h, h, rfl, rfl, rfl, fun _ => .inl rfl⟩

theorem Agree.symm (h : b.Agree b') : b'.Agree b where
  left := h.right
  right := h.left
  custom_eq := h.custom_eq.symm
  structs_eq := h.structs_eq.symm
  alloc_eq := h.alloc_eq.symm
  compatible := fun name => (h.compatible name).imp Eq.symm fun ⟨p, hp, hb, hb'⟩ => ⟨p, hp, hb', hb⟩

theorem Agree.extension (h : b.Agree b') (hc : b.Extends c) (hc' : b'.Extends c') : c.Agree c' where
  left := hc.inStep h.left
  right := hc'.inStep h.right
  custom_eq := by rw [hc.custom_eq, hc'.custom_eq, h.custom_eq]
  structs_eq := by rw [hc.structs_eq, hc'.structs_eq, h.structs_eq]
  alloc_eq := by rw [hc.alloc_eq, hc'.alloc_eq, h.alloc_eq]
  compatible := fun name => hc.compatible hc' name (h.compatible name)

/-- Two builders are at work on functions that are alike, at the same place. -/
structure Like (b b' : Builder) : Prop extends Agree b b' where
  insert_eq : b'.insert = b.insert
  function : ∃ f f', b.function? = some f ∧ b'.function? = some f' ∧ f.Like (b.common b') f'

/-- Two builders went on alike. -/
structure Advance (b b' c c' : Builder) : Prop where
  like : c.Like c'
  works : ∃ ps, b.Works ps c ∧ b'.Works ps c'

theorem common_le (h : b.Retains c) (h' : b'.Retains c') : b.common b' ≤ c.common c' where
  strings := fun _ _ hn => hn.mono h.globals h'.globals
  declared := fun _ ⟨s, hs, hs'⟩ => ⟨s, h.kept hs, h'.kept hs'⟩
  custom_eq := h.custom_eq

theorem Advance.le (h : b.Advance b' c c') : b.common b' ≤ c.common c' := by
  obtain ⟨ps, hw, hw'⟩ := h.works
  exact common_le hw.extension.toRetains hw'.extension.toRetains

/-- Both builders work on their functions as far as those were alike before. -/
theorem Like.edit {f' : Function} {ps : List Primitive} (h : b.Like b')
    (hw : b.Works ps c) (hw' : b'.Works ps c') (hinsert : c'.insert = c.insert) (hf : c.function? = some f)
    (hf' : c'.function? = some f') (hlike : f.Like (b.common b') f') : b.Advance b' c c' :=
  ⟨⟨h.toAgree.extension hw.extension hw'.extension, hinsert, f, f', hf, hf',
    hlike.mono (common_le hw.extension.toRetains hw'.extension.toRetains)⟩, ps, hw, hw'⟩

theorem Like.move (h : b.Like b') (hc : c.still = b.still) (hc' : c'.still = b'.still)
    (hinsert : c'.insert = c.insert) : b.Advance b' c c' := by
  have hfn : c.function? = b.function? := (congrArg function? hc :)
  have hfn' : c'.function? = b'.function? := (congrArg function? hc' :)
  obtain ⟨f, f', hf, hf', hlike⟩ := h.function
  exact h.edit (Edits.works (.of_still hc) (congrArg current hc :) (congrArg workName? hc :))
    (Edits.works (.of_still hc') (congrArg current hc' :) (congrArg workName? hc' :)) hinsert (hfn.trans hf)
    (hfn'.trans hf') hlike

theorem Like.modifyFunction {change' : Function → Function} (h : b.Like b')
    (hkeep : ∀ f, (change f).name = f.name ∧ (change f).prototype = f.prototype)
    (hkeep' : ∀ f, (change' f).name = f.name ∧ (change' f).prototype = f.prototype)
    (hchange : ∀ f f', f.Like (b.common b') f' → (change f).Like (b.common b') (change' f')) :
    b.Advance b' (b.modifyFunction change) (b'.modifyFunction change') := by
  obtain ⟨f, f', hf, hf', hlike⟩ := h.function
  obtain ⟨hworks, hfn⟩ := modifyFunction_works hf (hkeep f).1 (hkeep f).2
  obtain ⟨hworks', hfn'⟩ := modifyFunction_works hf' (hkeep' f').1 (hkeep' f').2
  have hinsert : ∀ (b : Builder) change,
      (b.modifyFunction change).insert = b.insert := fun b change => by
    unfold Builder.modifyFunction
    split <;> rfl
  exact h.edit hworks hworks' (by rw [hinsert, hinsert, h.insert_eq]) hfn hfn' (hchange f f' hlike)

theorem Like.modifyBlock {change change' : Block → Block} (h : b.Like b')
    (hchange : ∀ d d', d.Like (b.common b') d' → (change d).Like (b.common b') (change' d')) :
    b.Advance b' (b.modifyBlock change) (b'.modifyBlock change') := by
  have hkeep : ∀ id change (f : Function), (f.modifyBlock id change).name = f.name ∧
        (f.modifyBlock id change).prototype = f.prototype := fun id change f => by
    unfold Function.modifyBlock
    split <;> exact ⟨rfl, rfl⟩
  rw [Builder.modifyBlock, Builder.modifyBlock, h.insert_eq]
  split
  · next id _ =>
    exact h.modifyFunction (hkeep id change) (hkeep id change') fun f f' hf =>
      hf.modifyBlock id hchange
  · exact ⟨h, [], .refl b, .refl b'⟩

theorem Like.block? (h : b.Like b') : Option.Rel (Block.Like (b.common b')) b.block? b'.block? := by
  obtain ⟨f, f', hf, hf', hlike⟩ := h.function
  simp only [Builder.block?, hf, hf', h.insert_eq]
  cases b.insert with
  | none => exact .none
  | some id => exact hlike.block? id

theorem Like.isTerminated_eq (h : b.Like b') : b'.isTerminated = b.isTerminated := by
  unfold isTerminated
  cases hb : b.block? with
  | none =>
    have hrel := h.block?
    rw [hb] at hrel
    generalize b'.block? = x at hrel
    cases hrel
    rfl
  | some d =>
    have hrel := h.block?
    rw [hb] at hrel
    generalize b'.block? = x at hrel
    cases hrel with
    | some hd => exact hd.isTerminated_eq

theorem Like.refl_advance (h : b.Like b') : b.Advance b' b b' :=
  ⟨h, [], .refl b, .refl b'⟩

theorem Advance.trans {d' : Builder} (h : b.Advance b' c c') (h' : c.Advance c' d d') : b.Advance b' d d' := by
  obtain ⟨ps, hw, hw'⟩ := h.works
  obtain ⟨qs, hx, hx'⟩ := h'.works
  exact ⟨h'.like, ps ++ qs, hw.trans hx, hw'.trans hx'⟩

end Builder

namespace Build

/-! ### Operations -/

theorem constString_works (s : String) (b : Builder) : b.Works [] (constString s b).2 ∧
    (constString s b).2.insert = b.insert ∧ (constString s b).2.function? = b.function? := by
  have hstep (h : b.InStep) := (h.constString s).1
  unfold constString at hstep ⊢
  split
  · exact ⟨.refl b, rfl, rfl⟩
  · next hnew =>
    rw [hnew] at hstep
    have hworks := Builder.Works.refl b
    exact ⟨{ hworks with globals := prefix_append _ _, inStep := hstep }, rfl, rfl⟩

theorem addFn_function? (h : b.function? = some f) (g : Function) : (b.addFn g).function? = some f := by
  obtain ⟨i, hcurrent, hf⟩ := Builder.function?_eq_some h
  obtain ⟨hlt, _⟩ := List.getElem?_eq_some_iff.mp hf
  rw [Builder.function?, show (b.addFn g).current = some i from hcurrent, bind_some, Builder.addFn,
    List.getElem?_append_left hlt, hf]

theorem module_function?_of_workName (h : b.workName? = some name) :
    ∃ g, b.module.function? name = some g := by
  obtain ⟨f, hf, hname⟩ := map_eq_some_iff.mp h
  obtain ⟨i, _, hfi⟩ := Builder.function?_eq_some hf
  refine isSome_iff_exists.mp ?_
  rw [Module.function?, find?_isSome]
  exact ⟨f, mem_of_getElem? hfi, decide_eq_true hname⟩

theorem addFn_works (hf : b.function? = some f) : b.Works [p] (b.addFn p.declaration) := by
  have hworks := Builder.Works.refl b
  exact { hworks with
    names := by
      rw [Builder.addFn, map_append]
      exact prefix_append _ _
    workName_eq := congrArg (Option.map Function.name) ((addFn_function? hf _).trans hf.symm)
    inStep := fun h => h.congr rfl rfl
    own := fun name hname => by
      obtain ⟨g, hg⟩ := module_function?_of_workName hname
      rw [Builder.addFn_prototype?, Module.prototype?, hg]
      rfl
    others := fun name _ => by
      rw [Builder.addFn_module_function?]
      by_cases hname : p.name = name
      · simp [Primitive.declaration]
      · simp [Primitive.declaration] }

theorem declarePrimitive_works (p : Primitive) (hf : b.function? = some f) :
    b.Works [p] (declarePrimitive p b).2 ∧ (declarePrimitive p b).2.insert = b.insert ∧
      (declarePrimitive p b).2.function? = some f ∧
      (declarePrimitive p b).2.module.prototype? p.name = (b.module.prototype? p.name).or (some p.signature) := by
  have hrun : (declarePrimitive p b).2 = (declareFunction p.declaration b).2 := rfl
  rw [hrun]
  cases hproto : b.module.prototype? p.name with
  | some s =>
    rw [declareFunction_old (f := p.declaration) hproto]
    have hworks := Builder.Works.refl b
    refine ⟨{ hworks with others := fun name _ => ?_ }, rfl, hf, hproto⟩
    by_cases hname : p.name = name
    · obtain ⟨g, hg, _⟩ := map_eq_some_iff.mp hproto
      rw [← hname, hg, some_or]
    · simp [hname]
  | none =>
    rw [declareFunction_new (f := p.declaration) hproto]
    refine ⟨addFn_works hf, rfl, addFn_function? hf _, ?_⟩
    rw [Builder.addFn_prototype?, hproto, none_or, none_or,
      if_pos (show p.declaration.name = p.name from rfl), p.declaration_prototype]

end Build

namespace Builder.Like

theorem level (h : b.Like b') : b.Level b' := ⟨h.insert_eq, h.custom_eq, h.structs_eq, h.alloc_eq, h.isTerminated_eq⟩

theorem ret_eq (h : (b.common b').declared name) :
    (b'.module.function? name).map Function.ret = (b.module.function? name).map Function.ret := by
  obtain ⟨s, hs, hs'⟩ := h
  obtain ⟨g, hg, hgs⟩ := map_eq_some_iff.mp hs
  obtain ⟨g', hg', hgs'⟩ := map_eq_some_iff.mp hs'
  rw [hg, hg']
  exact congrArg (some ·.ret) (hgs'.trans hgs.symm)

variable (h : b.Like b')
include h

theorem note (level : LogLevel) (message message' : String) :
    b.Advance b' (b.note level message) (b'.note level message') :=
  h.move rfl rfl h.insert_eq

theorem appendBlock (label : String) : (Build.appendBlock label b').1 = (Build.appendBlock label b).1 ∧
    b.Advance b' (Build.appendBlock label b).2 (Build.appendBlock label b').2 := by
  obtain ⟨f, f', hf, hf', hfn⟩ := h.function
  obtain ⟨i, hcurrent, hfi⟩ := function?_eq_some hf
  obtain ⟨i', hcurrent', hfi'⟩ := function?_eq_some hf'
  obtain ⟨log, hrun⟩ := appendBlock_eq hcurrent hfi label
  obtain ⟨log', hrun'⟩ := appendBlock_eq hcurrent' hfi' label
  rw [hrun, hrun']
  have hadv : b.Advance b' (b.setFn i (f.append (freshLabel f label)))
      (b'.setFn i' (f'.append (freshLabel f' label))) :=
    h.edit (setFn_works hcurrent hfi rfl rfl) (setFn_works hcurrent' hfi' rfl rfl)
      h.insert_eq (function?_setFn hcurrent hfi) (function?_setFn hcurrent' hfi')
      (hfn.append label)
  exact ⟨hfn.nextBlock_eq, hadv.trans (hadv.like.move rfl rfl h.insert_eq)⟩

theorem freshReg : (Build.freshReg b').1 = (Build.freshReg b).1 ∧
    b.Advance b' (Build.freshReg b).2 (Build.freshReg b').2 := by
  obtain ⟨f, f', hf, hf', hfn⟩ := h.function
  simp only [Build.freshReg, hf, hf']
  refine ⟨hfn.nextReg_eq, h.modifyFunction (fun _ => ⟨rfl, rfl⟩) (fun _ => ⟨rfl, rfl⟩) fun g g' hg => ?_⟩
  exact { hg with nextReg_eq := congrArg (· + 1) hg.nextReg_eq }

/-- An instruction that is dropped on one side is dropped on the other. -/
theorem push {i i' : Instr} (hi : i.Like (b.common b') i') : b.Advance b' (Build.push i b).2 (Build.push i' b').2 := by
  have hblock := h.block?
  rw [Build.push_run, Build.push_run, h.insert_eq]
  generalize b.block? = x, b'.block? = x' at hblock
  cases b.insert with
  | none => exact h.note _ _ _
  | some id =>
    cases hblock with
    | none => exact h.refl_advance
    | some hd =>
      dsimp only [elim_some]
      rw [hd.isTerminated_eq]
      split
      · exact h.note _ _ _
      · exact h.modifyBlock fun d d' hd => hd.push hi

theorem eraseBlock (block : BlockId) : b.Advance b' (Build.eraseBlock block b).2 (Build.eraseBlock block b').2 := by
  let erase (f : Function) : Function := { f with blocks := f.blocks.filter (·.id ≠ block) }
  have hadv : b.Advance b' (b.modifyFunction erase) (b'.modifyFunction erase) :=
    h.modifyFunction (fun _ => ⟨rfl, rfl⟩) (fun _ => ⟨rfl, rfl⟩) fun f f' hf => hf.eraseBlock block
  change b.Advance b' (ite _ _ _) (ite _ _ _)
  rw [hadv.like.insert_eq]
  split
  · exact hadv.trans (hadv.like.move rfl rfl rfl)
  · exact hadv

theorem moveBlockToEnd (block : BlockId) :
    b.Advance b' (Build.moveBlockToEnd block b).2 (Build.moveBlockToEnd block b').2 := by
  refine h.modifyFunction (fun f => ?_) (fun f => ?_) fun f f' hf => ?_
  · split <;> exact ⟨rfl, rfl⟩
  · split <;> exact ⟨rfl, rfl⟩
  · have hblock := hf.block? block
    rw [hf.findIdx?_eq]
    generalize f.block? block = x, f'.block? block = x' at hblock
    cases hblock with
    | none => cases f.blocks.findIdx? (·.id = block) <;> exact hf
    | some hd =>
      cases f.blocks.findIdx? (·.id = block) with
      | none => exact hf
      | some i =>
        exact { hf with
          blocks := rel_append (forall₂_eraseIdx hf.blocks i) (.cons hd .nil) }

theorem discardBody : b.Advance b' (Build.discardBody b).2 (Build.discardBody b').2 := by
  let empty (f : Function) : Function := { f with blocks := [], nextBlock := 0, nextReg := f.params.length }
  have hadv : b.Advance b' (b.modifyFunction empty) (b'.modifyFunction empty) :=
    h.modifyFunction (fun _ => ⟨rfl, rfl⟩) (fun _ => ⟨rfl, rfl⟩) fun f f' h =>
      { h with
        nextReg_eq := congrArg List.length h.params_eq
        nextBlock_eq := rfl
        blocks := .nil }
  exact hadv.trans (hadv.like.move rfl rfl rfl)

theorem constString (s : String) : b.Advance b' (Build.constString s b).2 (Build.constString s b').2 ∧
      (Build.constString s b).1.Like ((Build.constString s b).2.common (Build.constString s b').2)
        (Build.constString s b').1 := by
  obtain ⟨hworks, hinsert, hfn⟩ := Build.constString_works s b
  obtain ⟨hworks', hinsert', hfn'⟩ := Build.constString_works s b'
  obtain ⟨_, g, hg, hv, hinit⟩ := h.left.constString s
  obtain ⟨_, g', hg', hv', hinit'⟩ := h.right.constString s
  obtain ⟨f, f', hf, hf', hff⟩ := h.function
  refine ⟨h.edit hworks hworks' (by rw [hinsert, hinsert', h.insert_eq]) (hfn.trans hf) (hfn'.trans hf') hff, ?_⟩
  rw [hv, hv']
  exact .string ⟨g, hg, g', hg', s, rfl, rfl, hinit, hinit'⟩

/-- Afterwards the primitive's name has one signature on both sides, though it need not be the primitive's
own. -/
theorem declarePrimitive (p : Primitive) : b.Advance b' (Build.declarePrimitive p b).2 (Build.declarePrimitive p b').2 ∧
      ((Build.declarePrimitive p b).2.common (Build.declarePrimitive p b').2).declared p.name := by
  obtain ⟨f, f', hf, hf', hff⟩ := h.function
  obtain ⟨hworks, hinsert, hfn, hproto⟩ := Build.declarePrimitive_works p hf
  obtain ⟨hworks', hinsert', hfn', hproto'⟩ := Build.declarePrimitive_works p hf'
  refine ⟨h.edit hworks hworks' (by rw [hinsert, hinsert', h.insert_eq]) hfn hfn' hff, ?_⟩
  have hside : ∀ {x : Option Signature} {q : Primitive}, q.name = p.name →
      (∀ s, x = some s → s = q.signature) → x.or (some p.signature) = some p.signature := by
    intro x q hq hx
    rw [Primitive.name_injective hq] at hx
    cases x with
    | none => rfl
    | some s => rw [hx s rfl, some_or]
  rcases h.compatible p.name with heq | ⟨q, hq, hb, hb'⟩
  · refine ⟨(b.module.prototype? p.name).getD p.signature, hproto.trans ?_, hproto'.trans ?_⟩
    · cases b.module.prototype? p.name <;> rfl
    · rw [← heq]
      cases b.module.prototype? p.name <;> rfl
  · exact ⟨p.signature, hproto.trans (hside hq hb), hproto'.trans (hside hq hb')⟩

end Builder.Like

/-- Builders in modules of their own, whose functions are alike. -/
def Builder.mirror : Pairing where
  Like := fun _ => Builder.Like
  Advance := fun _ => Builder.Advance
  exact := False
  common := Builder.common
  strict := False
  Allows := fun _ => True
  like := Builder.Advance.like
  le := Builder.Advance.le
  refl := Builder.Like.refl_advance
  trans := Builder.Advance.trans
  level := Builder.Like.level
  custom_eq := fun _ _ => rfl
  current_eq := False.elim
  declared := False.elim
  ret_eq := fun _ => Builder.Like.ret_eq
  allows := fun _ _ _ => trivial
  ordinary := fun _ => trivial
  tracker := fun _ _ _ _ => trivial
  firm_ret := False.elim
  firm_fields := False.elim
  note := Builder.Like.note
  position := fun _ _ _ h => ⟨rfl, h.move rfl rfl rfl⟩
  appendBlock := fun label _ _ h => h.appendBlock label
  eraseBlock := fun block _ _ h => ⟨rfl, h.eraseBlock block⟩
  moveBlockToEnd := fun block _ _ h => ⟨rfl, h.moveBlockToEnd block⟩
  freshReg := fun _ _ h => h.freshReg
  discardBody := fun _ _ h => ⟨rfl, h.discardBody⟩
  push := fun h hi _ _ => h.push hi
  terminate := fun h ht => h.modifyBlock fun _ _ hd => hd.finish ht
  constString := Builder.Like.constString
  declarePrimitive := fun h p => (h.declarePrimitive p).imp_right fun hp _ => hp
  introduce := False.elim

end Aero.IR
