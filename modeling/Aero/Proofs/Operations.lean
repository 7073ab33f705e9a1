import Aero.Proofs.Parallel.Renaming
import Mathlib.Data.List.Perm.Basic

/-!
Sequences of builder operations. Each of the basic ones makes at most one kind of edit, to the current function, and
only string constants add globals; all others are made of basic ones that emit code at the insertion point. So
identifiers stay distinct, a block that has a terminator stays as it is, and a string constant stays where it is.
-/

namespace Aero.IR

open List hiding get modify
open Option hiding get

variable {α β : Type} {f g : Function} {b c : Builder} {i m n : Nat} {E : Function → Function → Prop} {name : String}
  {alloc : AllocStrategy} {level : OptLevel} {block : Block}

/-- The operations of a builder that all others are made of. -/
inductive Operation where
  | note (level : LogLevel) (message : String)
  | constString (s : String)
  | defineType (name : String) (fields : List (String × Ty))
  | addMethod (typeName method symbol : String)
  | declareFunction (name : String) (params : List Param) (ret : Ty) (variadic : Bool)
  | defineFunction (name : String)
  | discardBody
  | endFunction
  | appendBlock (label : String)
  | position (block : BlockId)
  | eraseBlock (block : BlockId)
  | moveBlockToEnd (block : BlockId)
  | freshReg
  | push (i : Instr)
  | terminate (t : Terminator)

namespace Operation

/-- Whether an operation emits code at the insertion point, or prepares for it. -/
def isInner : Operation → Bool
  | .note .. | .constString _ | .declareFunction .. | .freshReg | .push _ | .terminate _ => true
  | _ => false

def appends : Operation → Bool
  | .defineFunction _ | .appendBlock _ => true
  | _ => false

def numbers : Operation → Bool
  | .freshReg => true
  | _ => false

theorem appends_eq {op : Operation} (h : op.isInner) : op.appends = false := by
  cases op <;> first | rfl | cases h

end Operation

/-- One block is replaced, unless it has a terminator. -/
def Function.Fills (f g : Function) : Prop :=
  ∃ old ∈ f.blocks, ∃ new, new.id = old.id ∧ new.label = old.label ∧ (old.isTerminated → new = old) ∧ g = f.setBlock new

/-- The edit that an operation may make to the current function. -/
def Operation.Edit : Operation → Function → Function → Prop
  | .defineFunction _, f, g =>
      g = Function.append { f with nextReg := f.params.length } (Builder.freshLabel f "entry")
  | .discardBody, f, g => g = { f with blocks := [], nextBlock := 0, nextReg := f.params.length }
  | .appendBlock label, f, g => g = f.append (Builder.freshLabel f label)
  | .eraseBlock block, f, g => g = f.drop block
  | .moveBlockToEnd _, f, g => ∃ blocks, blocks.Perm f.blocks ∧ g = { f with blocks := blocks }
  | .freshReg, f, g => g = { f with nextReg := f.nextReg + 1 }
  | .push _, f, g | .terminate _, f, g => f.Fills g
  | _, _, _ => False

/-- A function as it is when it is declared. -/
def Function.IsFresh (f : Function) : Prop := f.blocks = [] ∧ f.nextBlock = 0 ∧ f.nextReg = 0

/-- The blocks of a function, and nothing else of it. -/
def Function.body (f : Function) : Function :=
  { name := "", params := [], ret := .void, blocks := f.blocks, nextBlock := f.nextBlock }

/-- The operations of a builder that are made of others. -/
inductive Build.Public : ∀ {α : Type}, Build α → Prop
  | alloca (ty) : Public (alloca ty)
  | load (ty ptr) : Public (load ty ptr)
  | store (value ptr) : Public (store value ptr)
  | gep (base ptr indices) : Public (gep base ptr indices)
  | binary (op lhs rhs) : Public (binary op lhs rhs)
  | add (lhs rhs) : Public (add lhs rhs)
  | sub (lhs rhs) : Public (sub lhs rhs)
  | mul (lhs rhs) : Public (mul lhs rhs)
  | div (lhs rhs) : Public (div lhs rhs)
  | rem (lhs rhs) : Public (rem lhs rhs)
  | neg (value) : Public (neg value)
  | not (value) : Public (Build.not value)
  | icmp (pred lhs rhs) : Public (icmp pred lhs rhs)
  | fcmp (pred lhs rhs) : Public (fcmp pred lhs rhs)
  | select (cond onTrue onFalse) : Public (select cond onTrue onFalse)
  | phi (ty incoming) : Public (phi ty incoming)
  | cast (op value target) : Public (Build.cast op value target)
  | intCast (value target signed) : Public (intCast value target signed)
  | fpCast (value target) : Public (fpCast value target)
  | siToFp (value target) : Public (siToFp value target)
  | fpToSi (value target) : Public (fpToSi value target)
  | call (callee args) : Public (call callee args)
  | declarePrimitive (p) : Public (declarePrimitive p)
  | callPrimitive (p args) : Public (callPrimitive p args)
  | printf (format args) : Public (printf format args)
  | strlen (s) : Public (strlen s)
  | inlineAsm (code constraints args sideEffects) : Public (inlineAsm code constraints args sideEffects)
  | br (target) : Public (br target)
  | condBr (cond thenBlock elseBlock) : Public (condBr cond thenBlock elseBlock)
  | ret (value) : Public (ret value)
  | retVoid : Public retVoid
  | unreachable : Public unreachable
  | fieldPtr (typeName obj field) : Public (fieldPtr typeName obj field)
  | methodCall (typeName method obj args) : Public (methodCall typeName method obj args)
  | malloc (size) : Public (malloc size)
  | trackedMalloc (size dims) : Public (trackedMalloc size dims)
  | heapArray (elem count) : Public (heapArray elem count)
  | free (ptr) : Public (free ptr)
  | untrack (ptr) : Public (untrack ptr)
  | gcCollect : Public gcCollect
  | cleanupAtExit : Public cleanupAtExit
  | trackedSize (ptr) : Public (trackedSize ptr)
  | freeRows (table rows) : Public (freeRows table rows)

/-- All that can be asked of a builder. -/
inductive Call where
  | basic (op : Operation)
  | composed {α : Type} (act : Build α) (h : act.Public)

def Call.appends : Call → Bool
  | .basic op => op.appends
  | .composed .. => false

namespace Builder

def apply (b : Builder) : Operation → Builder
  | .note level message => b.note level message
  | .constString s => (Build.constString s b).2
  | .defineType name fields => (Build.defineType name fields b).2
  | .addMethod typeName method symbol => (Build.addMethod typeName method symbol b).2
  | .declareFunction name params ret variadic => (Build.declareFunction { name, params, ret, variadic } b).2
  | .defineFunction name => (Build.defineFunction name b).2
  | .discardBody => (Build.discardBody b).2
  | .endFunction => (Build.endFunction b).2
  | .appendBlock label => (Build.appendBlock label b).2
  | .position block => (Build.position block b).2
  | .eraseBlock block => (Build.eraseBlock block b).2
  | .moveBlockToEnd block => (Build.moveBlockToEnd block b).2
  | .freshReg => (Build.freshReg b).2
  | .push i => (Build.push i b).2
  | .terminate t => (Build.terminate t b).2

def applyAll (b : Builder) (ops : List Operation) : Builder := ops.foldl apply b

def run (b : Builder) : Call → Builder
  | .basic op => b.apply op
  | .composed act _ => (act b).2

def runAll (b : Builder) (calls : List Call) : Builder := calls.foldl run b

def fn (b : Builder) (i : Nat) : Function := (b.module.functions[i]?).getD { name := "", params := [], ret := .void }

/-- The blocks of the function at a position; there are none if there is no function. -/
def body (b : Builder) (i : Nat) : Function := (b.fn i).body

def Numbered (b : Builder) : Prop := ∀ i, (b.fn i).Numbered

/-- Functions stay as they are, apart from new declarations and an edit to the current function. Globals stay, and more
strings may be added in step with their table. -/
def Alters (E : Function → Function → Prop) (b c : Builder) : Prop :=
  c.current = b.current ∧
    (∀ i, c.fn i = b.fn i ∨ (b.fn i).IsFresh ∧ (c.fn i).IsFresh ∨ c.current = some i ∧ E (b.fn i) (c.fn i)) ∧
    b.module.globals <+: c.module.globals ∧ (b.InStep → c.InStep)

/-! ### One operation -/

theorem Alters.of_eq (hcurrent : c.current = b.current) (hfunctions : c.module.functions = b.module.functions)
    (hglobals : c.module.globals = b.module.globals) (hstrings : c.strings = b.strings) : b.Alters E c :=
  ⟨hcurrent, fun _ => .inl (by rw [fn, hfunctions, fn]), hglobals ▸ prefix_rfl, fun h => h.congr hglobals hstrings⟩

theorem Alters.idle : b.Alters E b := .of_eq rfl rfl rfl rfl

theorem alters_setFn (hcurrent : b.current = some i) (hf : b.module.functions[i]? = some f) (h : g = f ∨ E f g) :
    b.Alters E (b.setFn i g) := by
  refine ⟨rfl, fun j => ?_, prefix_rfl, fun h => h.congr rfl rfl⟩
  simp only [fn, setFn, getElem?_set]
  by_cases hij : i = j
  · subst hij
    have hlt := (List.getElem?_eq_some_iff.mp hf).1
    simp only [hlt, hf, if_true, getD_some]
    exact h.imp_right fun hedit => .inr ⟨hcurrent, hedit⟩
  · simp [hij]

theorem alters_modifyFunction {change : Function → Function}
    (hchange : ∀ f, b.function? = some f → change f = f ∨ E f (change f)) : b.Alters E (b.modifyFunction change) := by
  cases hcurrent : b.current with
  | none =>
    simp only [modifyFunction, hcurrent]
    exact .idle
  | some k =>
    cases hf : b.module.functions[k]? with
    | none =>
      simp only [modifyFunction, hcurrent, modify_eq_self (List.getElem?_eq_none_iff.mp hf)]
      exact .of_eq hcurrent.symm rfl rfl rfl
    | some f =>
      rw [modifyFunction_eq hcurrent hf]
      exact alters_setFn hcurrent hf (hchange f (by rw [function?, hcurrent, bind_some, hf]))

theorem fn_of_mem (hf : f ∈ b.module.functions) : ∃ i, b.fn i = f := by
  obtain ⟨i, hi⟩ := getElem?_of_mem hf
  exact ⟨i, by rw [fn, hi, getD_some]⟩

theorem Numbered.distinct (hb : b.Numbered) (hf : f ∈ b.module.functions) : f.Distinct := by
  obtain ⟨i, rfl⟩ := fn_of_mem hf
  exact (hb i).distinct

/-- A change that spares the block if it has a terminator. -/
theorem alters_modifyBlock (hb : b.Numbered) {change : Block → Block} (hid : ∀ block, (change block).id = block.id)
    (hlabel : ∀ block, (change block).label = block.label)
    (hfixed : ∀ block, b.block? = some block → block.isTerminated → change block = block) :
    b.Alters Function.Fills (b.modifyBlock change) := by
  unfold modifyBlock
  split
  · next id hinsert =>
    refine alters_modifyFunction fun f hf => ?_
    cases hblock : f.block? id with
    | none =>
      left
      have hnone : f.blocks.findIdx? (·.id = id) = none := by
        rw [Function.block?, find?_eq_none] at hblock
        rw [findIdx?_eq_none_iff]
        exact fun block hmem => Bool.eq_false_iff.mpr (hblock block hmem)
      rw [Function.modifyBlock, hnone]
    | some old =>
      have hmem := mem_of_find?_eq_some hblock
      obtain rfl : old.id = id := by simpa using find?_some hblock
      refine .inr ⟨old, hmem, change old, hid old, hlabel old, hfixed old ?_, ?_⟩
      · rw [block?, hf, hinsert]
        exact hblock
      · obtain ⟨_, _, hi⟩ := function?_eq_some hf
        rw [Function.modifyBlock_eq_setBlock (hb.distinct (mem_of_getElem? hi)) hmem change (hid old)]
  · exact .idle

theorem alters_push (hb : b.Numbered) {i : Instr} : b.Alters (Operation.push i).Edit (Build.push i b).2 := by
  rw [Build.push_run]
  cases b.insert with
  | none => exact .of_eq rfl rfl rfl rfl
  | some _ =>
    cases hblock : b.block? with
    | none => exact .idle
    | some block =>
      simp only [elim_some]
      split
      · exact .of_eq rfl rfl rfl rfl
      · next hopen =>
        refine alters_modifyBlock hb (fun _ => rfl) (fun _ => rfl) fun other hother hend => ?_
        rw [← some.inj (hblock.symm.trans hother)] at hend
        exact absurd hend hopen

theorem alters_declareFunction (b : Builder) (hf : f.IsFresh) : b.Alters E (Build.declareFunction f b).2 := by
  unfold Build.declareFunction
  split
  · exact .idle
  · refine ⟨rfl, fun i => ?_, prefix_rfl, fun h => h.congr rfl rfl⟩
    simp only [fn, getElem?_append]
    split
    · exact .inl rfl
    · next hlt =>
      rw [getElem?_eq_none (Nat.le_of_not_lt hlt), getElem?_singleton]
      split
      · exact .inr (.inl ⟨⟨rfl, rfl, rfl⟩, hf⟩)
      · exact .inl rfl

theorem alters_appendBlock (b : Builder) {label : String} :
    b.Alters (Operation.appendBlock label).Edit (Build.appendBlock label b).2 := by
  unfold Build.appendBlock
  split
  · exact .of_eq rfl rfl rfl rfl
  · next f hf =>
    refine alters_modifyFunction (b := b.note ..) fun other hother => .inr ?_
    obtain rfl : f = other := some.inj (hf.symm.trans hother)
    rfl

theorem alters_moveBlockToEnd (b : Builder) {block : BlockId} :
    b.Alters (Operation.moveBlockToEnd block).Edit (Build.moveBlockToEnd block b).2 := by
  refine alters_modifyFunction fun f _ => ?_
  split
  · next k last hk hlast =>
    rw [Function.block?, find?_eq_getElem?_findIdx, (findIdx?_eq_some_iff_findIdx_eq.mp hk).2,
      getElem?_eq_some_iff] at hlast
    obtain ⟨hlt, rfl⟩ := hlast
    exact .inr ⟨_, (perm_append_singleton _ _).trans (getElem_cons_eraseIdx_perm hlt), rfl⟩
  · exact .inl rfl

theorem alters_defineFunction (b : Builder) (name : String) : ∃ current,
    Alters (Operation.defineFunction name).Edit { b with current := current } (Build.defineFunction name b).2 := by
  unfold Build.defineFunction
  simp only [Build.get_bind_run, pure]
  cases hindex : b.module.functions.findIdx? (·.name = name) with
  | none => exact ⟨b.current, .idle⟩
  | some i =>
    cases hfound : b.module.function? name with
    | none => exact ⟨b.current, .idle⟩
    | some f =>
      obtain ⟨j, hj, hf⟩ := Module.function?_eq_some_iff.mp hfound
      obtain rfl : i = j := some.inj (hindex.symm.trans hj)
      obtain ⟨log, hopened⟩ := openBody_eq hf
      refine ⟨some i, ?_⟩
      change Alters _ _ (Build.openBody i b).2
      rw [hopened]
      exact alters_setFn (b := { b with current := some i }) rfl hf (.inr rfl)

theorem alters_apply (hb : b.Numbered) (op : Operation) : ∃ current,
    Alters op.Edit { b with current := current } (b.apply op) ∧ (op.isInner → current = b.current) := by
  have hsame (h : b.Alters op.Edit (b.apply op)) : ∃ current,
      Alters op.Edit { b with current := current } (b.apply op) ∧ (op.isInner → current = b.current) :=
    ⟨b.current, h, fun _ => rfl⟩
  cases op with
  | note | defineType | position => exact hsame (.of_eq rfl rfl rfl rfl)
  | endFunction => exact ⟨none, .of_eq rfl rfl rfl rfl, nofun⟩
  | constString s =>
    refine hsame ⟨?_, fun _ => .inl ?_, (Build.constString_works s b).1.globals, fun h => (h.constString s).1⟩ <;>
    · simp only [apply, Build.constString]
      split <;> rfl
  | addMethod =>
    refine hsame ?_
    simp only [apply, Build.addMethod]
    split <;> exact .of_eq rfl rfl rfl rfl
  | declareFunction => exact hsame (b.alters_declareFunction ⟨rfl, rfl, rfl⟩)
  | defineFunction name => exact (b.alters_defineFunction name).imp fun _ h => ⟨h, nofun⟩
  | discardBody => exact hsame (alters_modifyFunction fun _ _ => .inr rfl)
  | appendBlock label => exact hsame (b.alters_appendBlock)
  | eraseBlock block =>
    have halters : b.Alters (Operation.eraseBlock block).Edit
        (b.modifyFunction fun f => { f with blocks := f.blocks.filter (·.id ≠ block) }) :=
      alters_modifyFunction fun _ _ => .inr rfl
    refine hsame ?_
    simp only [apply, Build.eraseBlock, Build.modify_run]
    split <;> exact halters
  | moveBlockToEnd block => exact hsame (b.alters_moveBlockToEnd)
  | freshReg =>
    refine hsame ?_
    simp only [apply, Build.freshReg]
    split
    · exact alters_modifyFunction fun _ _ => .inr rfl
    · exact .idle
  | push i => exact hsame (alters_push hb)
  | terminate =>
    refine hsame (alters_modifyBlock hb (fun block => ?_) (fun block => ?_) fun block _ hend => if_pos hend)
    · split <;> rfl
    · split <;> rfl

end Builder

/-! ### Basic operations -/

theorem Function.IsFresh.numbered (h : f.IsFresh) : f.Numbered :=
  ⟨by rw [Distinct, h.1]; exact .nil, by rw [h.1]; exact forall_mem_nil _⟩

theorem Function.IsFresh.body_eq (h : f.IsFresh) (h' : g.IsFresh) : g.body = f.body := by
  rw [body, body, h.1, h.2.1, h'.1, h'.2.1]

theorem Function.Numbered.edit {op : Operation} (h : f.Numbered) (hedit : op.Edit f g) : g.Numbered := by
  cases op with
  | defineFunction | appendBlock => exact hedit ▸ { h.append _ with }
  | discardBody => exact hedit ▸ ⟨.nil, nofun⟩
  | freshReg => exact hedit ▸ { h with }
  | eraseBlock block => exact hedit ▸ h.drop block
  | moveBlockToEnd =>
    obtain ⟨_, hperm, rfl⟩ := hedit
    exact h.reorder hperm
  | push | terminate =>
    obtain ⟨_, _, new, _, _, _, rfl⟩ := hedit
    exact h.setBlock new
  | _ => exact hedit.elim

/-- How far a function has counted its blocks and its registers. -/
def Function.Counted (blocks regs : Nat) (f : Function) : Prop :=
  f.nextBlock ≤ blocks ∧ f.nextReg ≤ f.params.length + regs

theorem Function.Counted.edit {op : Operation} (h : f.Counted m n) (hedit : op.Edit f g) :
    g.Counted (m + if op.appends then 1 else 0) (n + if op.numbers then 1 else 0) := by
  cases op with
  | defineFunction => exact hedit ▸ ⟨Nat.succ_le_succ h.1, Nat.le_add_right ..⟩
  | appendBlock => exact hedit ▸ ⟨Nat.succ_le_succ h.1, h.2⟩
  | discardBody => exact hedit ▸ ⟨Nat.zero_le _, Nat.le_add_right ..⟩
  | freshReg => exact hedit ▸ ⟨h.1, Nat.succ_le_succ h.2⟩
  | eraseBlock => exact hedit ▸ h
  | moveBlockToEnd =>
    obtain ⟨_, _, rfl⟩ := hedit
    exact h
  | push | terminate =>
    obtain ⟨_, _, _, _, _, _, rfl⟩ := hedit
    exact h
  | _ => exact hedit.elim

namespace Builder

theorem fn_apply (hb : b.Numbered) (op : Operation) (i : Nat) : (b.apply op).fn i = b.fn i ∨
    (b.fn i).IsFresh ∧ ((b.apply op).fn i).IsFresh ∨
      (b.apply op).current = some i ∧ op.Edit (b.fn i) ((b.apply op).fn i) := by
  obtain ⟨_, ⟨_, hfunctions, _⟩, _⟩ := alters_apply hb op
  exact hfunctions i

/-- What declarations have and an edit by any of the operations keeps, a sequence of them keeps. -/
theorem applyAll_forall (P : Function → Prop) (hfresh : ∀ f, f.IsFresh → P f) (ops : List Operation) (hb : b.Numbered)
    (hstart : ∀ i, P (b.fn i)) (hedit : ∀ op ∈ ops, ∀ f g, f.Numbered → P f → op.Edit f g → P g) (i : Nat) :
    ((b.applyAll ops).fn i).Numbered ∧ P ((b.applyAll ops).fn i) := by
  induction ops generalizing b with
  | nil => exact ⟨hb i, hstart i⟩
  | cons op ops ih =>
    have hstep (k : Nat) : ((b.apply op).fn k).Numbered ∧ P ((b.apply op).fn k) := by
      obtain heq | ⟨_, hnew⟩ | ⟨_, hchange⟩ := fn_apply hb op k
      · exact heq ▸ ⟨hb k, hstart k⟩
      · exact ⟨hnew.numbered, hfresh _ hnew⟩
      · exact ⟨(hb k).edit hchange, hedit op mem_cons_self _ _ (hb k) (hstart k) hchange⟩
    exact ih (fun k => (hstep k).1) (fun k => (hstep k).2) fun op' hop' => hedit op' (mem_cons_of_mem op hop')

theorem numbered_start : (start name alloc level).Numbered := fun _ => ⟨.nil, nofun⟩

theorem numbered_applyAll (hb : b.Numbered) (ops : List Operation) : (b.applyAll ops).Numbered := fun i =>
  (applyAll_forall (fun _ => True) (fun _ _ => trivial) ops hb (fun _ => trivial) (fun _ _ _ _ _ _ _ => trivial) i).1

/-- The counters of a function are at most the numbers of blocks and of registers that have been asked for. -/
theorem counted_applyAll (hb : b.Numbered) (h : ∀ i, (b.fn i).Counted m n) (ops : List Operation) (i : Nat) :
    ((b.applyAll ops).fn i).Counted (m + ops.countP Operation.appends) (n + ops.countP Operation.numbers) := by
  induction ops generalizing b m n with
  | nil => exact h i
  | cons op ops ih =>
    rw [countP_cons, countP_cons, Nat.add_comm (countP _ _), Nat.add_comm (countP _ _), ← Nat.add_assoc,
      ← Nat.add_assoc]
    refine ih (numbered_applyAll hb [op]) fun k => ?_
    obtain heq | ⟨_, _, hblock, hreg⟩ | ⟨_, hchange⟩ := fn_apply hb op k
    · exact heq ▸ ⟨Nat.le_add_right_of_le (h k).1, Nat.le_trans (h k).2 (Nat.add_le_add_left (Nat.le_add_right ..) _)⟩
    · exact ⟨by simp [hblock], by simp [hreg]⟩
    · exact (h k).edit hchange

theorem mem_apply (hb : b.Numbered) (hmem : block ∈ (b.body i).blocks) (hend : block.isTerminated)
    (op : Operation) : block ∈ ((b.apply op).body i).blocks ∨
      (b.apply op).current = some i ∧ (op = .eraseBlock block.id ∨ op = .discardBody) := by
  change block ∈ (b.fn i).blocks at hmem
  obtain heq | ⟨hnew, _⟩ | ⟨hcurrent, hedit⟩ := fn_apply hb op i
  · exact .inl (show block ∈ ((b.apply op).fn i).blocks from heq ▸ hmem)
  · exact absurd (hnew.1 ▸ hmem) not_mem_nil
  · change block ∈ ((b.apply op).fn i).blocks ∨ _
    cases op with
    | defineFunction | appendBlock => exact .inl (hedit ▸ mem_append_left _ hmem)
    | discardBody => exact .inr ⟨hcurrent, .inr rfl⟩
    | eraseBlock id =>
      by_cases hid : block.id = id
      · exact .inr ⟨hcurrent, .inl (hid ▸ rfl)⟩
      · exact .inl (hedit ▸ Function.mem_drop.mpr ⟨hmem, hid⟩)
    | moveBlockToEnd =>
      obtain ⟨_, hperm, heq⟩ := hedit
      exact .inl (heq ▸ hperm.mem_iff.mpr hmem)
    | freshReg => exact .inl (hedit ▸ hmem)
    | push | terminate =>
      obtain ⟨old, hold, new, hid, _, hfixed, heq⟩ := hedit
      rw [heq]
      by_cases hsame : block.id = new.id
      · obtain rfl : block = old := inj_on_of_nodup_map (hb i).distinct hmem hold (hsame.trans hid)
        exact .inl (Function.mem_setBlock.mpr (.inr ⟨(hfixed hend).symm, block, hmem, hsame⟩))
      · exact .inl (Function.mem_setBlock.mpr (.inl ⟨hmem, hsame⟩))
    | _ => exact hedit.elim

theorem body_apply (hb : b.Numbered) (op : Operation) (hne : (b.apply op).current ≠ some i) :
    (b.apply op).body i = b.body i := by
  obtain heq | ⟨hold, hnew⟩ | ⟨hcurrent, _⟩ := fn_apply hb op i
  · exact congrArg Function.body heq
  · exact hold.body_eq hnew
  · exact absurd hcurrent hne

/-- Code that is emitted changes no function but the current one, and no block that has a terminator. -/
theorem applyAll_inner (hb : b.Numbered) {ops : List Operation} (hops : ∀ op ∈ ops, op.isInner) :
    (b.applyAll ops).current = b.current ∧ ∀ i, (b.current ≠ some i → (b.applyAll ops).body i = b.body i) ∧
      ∀ block ∈ (b.body i).blocks, block.isTerminated → block ∈ ((b.applyAll ops).body i).blocks := by
  induction ops generalizing b with
  | nil => exact ⟨rfl, fun i => ⟨fun _ => rfl, fun _ hmem _ => hmem⟩⟩
  | cons op ops ih =>
    obtain ⟨hop, hrest⟩ := forall_mem_cons.mp hops
    obtain ⟨_, ⟨hcurrent, _⟩, hinner⟩ := alters_apply hb op
    rw [hinner hop] at hcurrent
    obtain ⟨hlast, hlater⟩ := ih (numbered_applyAll hb [op]) hrest
    refine ⟨hlast.trans hcurrent, fun i => ⟨fun hne => ?_, fun block hmem hend => ?_⟩⟩
    · exact ((hlater i).1 (hcurrent ▸ hne)).trans (body_apply hb op (hcurrent ▸ hne))
    · obtain hmem | ⟨_, rfl | rfl⟩ := mem_apply hb hmem hend op
      · exact (hlater i).2 block hmem hend
      · cases hop
      · cases hop

theorem inStep_applyAll (hb : b.Numbered) (h : b.InStep) (ops : List Operation) :
    b.module.globals <+: (b.applyAll ops).module.globals ∧ (b.applyAll ops).InStep := by
  induction ops generalizing b with
  | nil => exact ⟨prefix_rfl, h⟩
  | cons op ops ih =>
    obtain ⟨_, ⟨_, _, hgrows, hstep⟩, _⟩ := alters_apply hb op
    obtain ⟨hmore, hlast⟩ := ih (numbered_applyAll hb [op]) (hstep h)
    exact ⟨hgrows.trans hmore, hlast⟩

end Builder

/-! ### Composed operations -/

namespace Build

variable {act : Build α} {ty target : Ty} {make : Reg → Instr} {value : Value} {args : List Value}

/-- What an action does to a builder is a sequence of basic operations that emit code. -/
def Composed (act : Build α) : Prop :=
  ∀ b, ∃ ops : List Operation, (act b).2 = b.applyAll ops ∧ ∀ op ∈ ops, op.isInner

namespace Composed

theorem bind {next : α → Build β} (h : act.Composed) (hnext : ∀ a, Composed (next a)) : Composed (act >>= next) := by
  intro b
  obtain ⟨ops, hops, hinner⟩ := h b
  obtain ⟨more, hmore, hinner'⟩ := hnext (act b).1 (act b).2
  refine ⟨ops ++ more, hmore.trans ?_, forall_mem_append.mpr ⟨hinner, hinner'⟩⟩
  rw [hops, Builder.applyAll, Builder.applyAll, Builder.applyAll, foldl_append]

theorem one (op : Operation) (hop : op.isInner) (hact : ∀ b, (act b).2 = b.apply op) : Composed act :=
  fun b => ⟨[op], hact b, forall_mem_singleton.mpr hop⟩

theorem idle (hact : ∀ b, (act b).2 = b) : Composed act := fun b => ⟨[], hact b, nofun⟩

theorem pure {a : α} : Composed (pure a) := idle fun _ => rfl

theorem get : Composed get := idle fun _ => rfl

theorem emit : Composed (emit ty make) := fun b =>
  ⟨[.freshReg, .push (make (freshReg b).1)], rfl, forall_mem_cons.mpr ⟨rfl, forall_mem_singleton.mpr rfl⟩⟩

theorem foldOr {folded : Option Value} : Composed (foldOr folded ty make) := by
  cases folded with
  | none => exact .emit
  | some _ => exact .pure

theorem intCast {signed : Bool} : Composed (intCast value target signed) := by
  unfold Build.intCast
  split
  · split
    · exact .pure
    · split
      · exact .foldOr
      · split <;> exact .foldOr
  · exact .pure

theorem call {callee : String} : Composed (call callee args) := by
  have hcallOf (ret : Ty) : Composed (callOf callee args ret) := by
    unfold callOf
    split
    · exact .one (.push _) rfl fun _ => rfl
    · exact .emit
  intro b
  cases hfound : b.module.function? callee with
  | none =>
    rw [call_unknown hfound]
    obtain ⟨ops, hops, hinner⟩ := hcallOf .void (b.note .warn ("call to undeclared function @" ++ callee))
    exact ⟨.note .warn _ :: ops, hops, forall_mem_cons.mpr ⟨rfl, hinner⟩⟩
  | some f => exact call_known hfound args ▸ hcallOf f.ret b

theorem declarePrimitive {p : Primitive} : Composed (declarePrimitive p) :=
  .one (.declareFunction ..) rfl fun _ => rfl

theorem callPrimitive {p : Primitive} : Composed (callPrimitive p args) := declarePrimitive.bind fun _ => .call

theorem whenTracked {act : Build Unit} (h : act.Composed) : Composed (do if ← isTracked then act) := by
  refine .bind (.idle fun _ => rfl) fun tracked => ?_
  cases tracked with
  | false => exact .pure
  | true => exact h

theorem trackedMalloc {dims : Nat} : Composed (trackedMalloc value dims) := by
  refine .bind .intCast fun _ => .bind (.bind .intCast fun _ => .callPrimitive) fun _ => ?_
  refine .bind (.idle fun _ => rfl) fun tracked => ?_
  cases tracked with
  | false => exact .pure
  | true => exact .bind .callPrimitive fun _ => .pure

end Composed

/-- Every operation is a sequence of basic ones. -/
theorem Public.composed (h : act.Public) : act.Composed := by
  cases h with
  | alloca | load | gep | phi => exact .emit
  | binary | add | sub | mul | div | rem | not | icmp | fcmp | select | cast | fpToSi => exact .foldOr
  | store | inlineAsm => exact .one (.push _) rfl fun _ => rfl
  | br | condBr | ret | retVoid | unreachable => exact .one (.terminate _) rfl fun _ => rfl
  | neg value =>
    unfold Build.neg
    split <;> exact .foldOr
  | intCast => exact .intCast
  | fpCast value target =>
    unfold Build.fpCast
    split
    · exact .foldOr
    · exact .foldOr
    · exact .pure
  | siToFp value target =>
    unfold Build.siToFp
    split
    · exact .bind .intCast fun _ => .foldOr
    · exact .foldOr
  | call => exact .call
  | declarePrimitive => exact .declarePrimitive
  | callPrimitive | strlen | free => exact .callPrimitive
  | printf format => exact .bind (.one (.constString format) rfl fun _ => rfl) fun _ => .callPrimitive
  | fieldPtr =>
    refine .bind .get fun _ => ?_
    split
    · exact .bind .emit fun _ => .pure
    · exact .pure
  | methodCall =>
    refine .bind .get fun _ => ?_
    split
    · exact .bind .call fun _ => .pure
    · exact .pure
  | malloc => exact .bind .intCast fun _ => .callPrimitive
  | trackedMalloc => exact .trackedMalloc
  | heapArray => exact .bind .get fun _ => .bind .intCast fun _ => .bind .foldOr fun _ => .trackedMalloc
  | untrack | gcCollect => exact .whenTracked .callPrimitive
  | cleanupAtExit => exact .whenTracked (.bind .declarePrimitive fun _ => .callPrimitive)
  | trackedSize => exact .bind .callPrimitive fun _ => .intCast
  | freeRows =>
    exact .bind .intCast fun _ => .bind .callPrimitive fun _ => .bind (.whenTracked .callPrimitive) fun _ =>
      .callPrimitive

end Build

namespace Builder

/-- A sequence of operations is one of basic ones, which append no more blocks. -/
theorem runAll_eq (b : Builder) (calls : List Call) : ∃ ops, b.runAll calls = b.applyAll ops ∧
    (∀ op ∈ ops, op.isInner ∨ .basic op ∈ calls) ∧ ops.countP Operation.appends ≤ calls.countP Call.appends := by
  induction calls generalizing b with
  | nil => exact ⟨[], rfl, nofun, Nat.le_refl 0⟩
  | cons call calls ih =>
    obtain ⟨more, hmore, hothers, hcount⟩ := ih (b.run call)
    have hothers (op) (hop : op ∈ more) := (hothers op hop).imp_right (mem_cons_of_mem call)
    rw [← singleton_append, countP_append]
    cases call with
    | basic op =>
      refine ⟨op :: more, hmore, forall_mem_cons.mpr ⟨.inr mem_cons_self, hothers⟩, ?_⟩
      rw [← singleton_append, countP_append]
      exact Nat.add_le_add_left hcount _
    | composed act h =>
      obtain ⟨ops, hrun, hinner⟩ := h.composed b
      refine ⟨ops ++ more, ?_, forall_mem_append.mpr ⟨fun op hop => .inl (hinner op hop), hothers⟩, ?_⟩
      · rw [applyAll, foldl_append]
        change _ = applyAll (b.applyAll ops) more
        rw [← hrun]
        exact hmore
      · have hnone : ops.countP Operation.appends = 0 := countP_eq_zero.mpr fun op hop => by
          simp [Operation.appends_eq (hinner op hop)]
        rw [countP_append, hnone]
        exact Nat.add_le_add (Nat.zero_le _) hcount

theorem numbered_runAll (hb : b.Numbered) (calls : List Call) : (b.runAll calls).Numbered := by
  obtain ⟨ops, hrun, _⟩ := runAll_eq b calls
  exact hrun ▸ numbered_applyAll hb ops

theorem inStep_runAll (hb : b.Numbered) (h : b.InStep) (calls : List Call) :
    b.module.globals <+: (b.runAll calls).module.globals ∧ (b.runAll calls).InStep := by
  obtain ⟨ops, hrun, _⟩ := runAll_eq b calls
  exact hrun ▸ inStep_applyAll hb h ops

theorem nextBlock_le (calls : List Call) (hf : f ∈ ((start name alloc level).runAll calls).module.functions) :
    f.nextBlock ≤ calls.countP Call.appends := by
  obtain ⟨ops, hrun, _, hcount⟩ := runAll_eq (start name alloc level) calls
  obtain ⟨i, rfl⟩ := fn_of_mem (hrun ▸ hf)
  have hcounted := (counted_applyAll (b := start name alloc level) (m := 0) (n := 0) numbered_start
    (fun _ => ⟨Nat.le_refl 0, Nat.zero_le _⟩) ops i).1
  rw [Nat.zero_add] at hcounted
  exact Nat.le_trans hcounted hcount

/-! ### Blocks -/

theorem mem_run (hb : b.Numbered) (hmem : block ∈ (b.body i).blocks) (hend : block.isTerminated) :
    ∀ call : Call, block ∈ ((b.run call).body i).blocks ∨
      (b.run call).current = some i ∧ (call = .basic (.eraseBlock block.id) ∨ call = .basic .discardBody)
  | .basic op => (mem_apply hb hmem hend op).imp_right (.imp_right (.imp (congrArg _) (congrArg _)))
  | .composed act h => by
    obtain ⟨ops, hrun, hinner⟩ := h.composed b
    rw [run, hrun]
    exact .inl (((applyAll_inner hb hinner).2 i).2 block hmem hend)

theorem mem_runAll (hb : b.Numbered) (hmem : block ∈ (b.body i).blocks) (hend : block.isTerminated)
    (calls : List Call) : block ∈ ((b.runAll calls).body i).blocks ∨
      ∃ before call after, calls = before ++ call :: after ∧ (b.runAll (before ++ [call])).current = some i ∧
        (call = .basic (.eraseBlock block.id) ∨ call = .basic .discardBody) := by
  induction calls generalizing b with
  | nil => exact .inl hmem
  | cons call calls ih =>
    obtain hmem | ⟨hcurrent, hcall⟩ := mem_run hb hmem hend call
    · obtain hmem | ⟨before, call', after, rfl, hcurrent, hcall'⟩ := ih (numbered_runAll hb [call]) hmem
      · exact .inl hmem
      · exact .inr ⟨call :: before, call', after, rfl, hcurrent, hcall'⟩
    · exact .inr ⟨[], call, calls, rfl, hcurrent, hcall⟩

theorem body_run (hb : b.Numbered) : ∀ call : Call, (b.run call).current ≠ some i → (b.run call).body i = b.body i
  | .basic op, hne => body_apply hb op hne
  | .composed act h, hne => by
    obtain ⟨ops, hrun, hinner⟩ := h.composed b
    obtain ⟨hcurrent, hbodies⟩ := applyAll_inner hb hinner
    rw [run, hrun] at hne ⊢
    exact (hbodies i).1 (hcurrent ▸ hne)

variable (name alloc level)

/-- After any sequence of operations the identifiers of each function are distinct. A block that has a terminator
stays as it is until it is erased, or the body is discarded, while its function is the current one; moving a block
permutes blocks, and no operation changes the blocks of a function that is not the current one after it. The counter of
blocks is at most the number of operations that append one, so it is exact as a word of 32 bits if these are fewer than
2 ^ 32. -/
theorem blocks_append_only (calls : List Call) :
    let b := (start name alloc level).runAll calls
    (∀ f ∈ b.module.functions, (f.blocks.map Block.id).Nodup ∧ f.nextBlock ≤ calls.countP Call.appends) ∧
      (∀ i block later, block ∈ (b.body i).blocks → block.isTerminated →
        block ∈ ((b.runAll later).body i).blocks ∨
          ∃ before call after, later = before ++ call :: after ∧ (b.runAll (before ++ [call])).current = some i ∧
            (call = .basic (.eraseBlock block.id) ∨ call = .basic .discardBody)) ∧
      (∀ i id, ((b.run (.basic (.moveBlockToEnd id))).body i).blocks.Perm (b.body i).blocks) ∧
      ∀ i call, (b.run call).current ≠ some i → (b.run call).body i = b.body i := by
  intro b
  have hb : b.Numbered := numbered_runAll numbered_start calls
  refine ⟨fun f hf => ⟨hb.distinct hf, nextBlock_le calls hf⟩,
    fun i block later hmem hend => mem_runAll hb hmem hend later, fun i id => ?_, fun i => body_run hb⟩
  change ((b.apply (.moveBlockToEnd id)).fn i).blocks.Perm (b.fn i).blocks
  obtain heq | ⟨hold, hnew⟩ | ⟨_, _, hperm, heq⟩ := fn_apply hb (.moveBlockToEnd id) i
  · rw [heq]
  · rw [hold.1, hnew.1]
  · exact heq ▸ hperm

/-! ### Labels -/

/-- If no label that is asked for looks marked, then the labels of each function are distinct after any sequence of
operations. The marks are exact as words of 32 bits if fewer than 2 ^ 32 blocks are appended. -/
theorem labels_distinct (calls : List Call) (hcalls : ∀ label, .basic (.appendBlock label) ∈ calls → IsStem label) :
    ∀ f ∈ ((start name alloc level).runAll calls).module.functions,
      (f.blocks.map Block.label).Nodup ∧ f.nextBlock ≤ calls.countP Call.appends := by
  intro f hf
  refine ⟨?_, nextBlock_le calls hf⟩
  obtain ⟨ops, hrun, hops, _⟩ := runAll_eq (start name alloc level) calls
  obtain ⟨i, rfl⟩ := fn_of_mem (hrun ▸ hf)
  have hnone {f : Function} (h : f.blocks = []) : Labelled f := ⟨by rw [h]; exact .nil, by rw [h]; nofun⟩
  refine (applyAll_forall Labelled (fun _ h => hnone h.1) ops numbered_start (fun _ => hnone rfl)
    (fun op hop f g hf h hedit => ?_) i).2.nodup
  cases op with
  | defineFunction => exact hedit ▸ { h.append hf.id_lt (isStem_of_not_mem (by decide)) with }
  | appendBlock label => exact hedit ▸ h.append hf.id_lt (hcalls label ((hops _ hop).resolve_left nofun))
  | discardBody => exact hedit ▸ hnone rfl
  | eraseBlock block => exact hedit ▸ h.drop block
  | moveBlockToEnd =>
    obtain ⟨_, hperm, rfl⟩ := hedit
    exact h.reorder hperm
  | freshReg => exact hedit ▸ { h with }
  | push | terminate =>
    obtain ⟨old, hold, new, hid, hlabel, _, rfl⟩ := hedit
    exact h.setBlock hf.distinct hold hid hlabel
  | _ => exact hedit.elim

/-- A function with an entry block to which blocks of some labels are added. -/
def labelling (labels : List String) : List Call :=
  .basic (.declareFunction "f" [] .void false) :: .basic (.defineFunction "f") ::
    labels.map fun label => .basic (.appendBlock label)

theorem labels_distinct_twice :
    (∀ label, .basic (.appendBlock label) ∈ labelling ["x", "x"] → IsStem label) ∧
      ∀ f ∈ ((start "m").runAll (labelling ["x", "x"])).module.functions,
        (f.blocks.map Block.label).Nodup ∧ f.nextBlock ≤ (labelling ["x", "x"]).countP Call.appends := by
  have hcalls : ∀ label, .basic (.appendBlock label) ∈ labelling ["x", "x"] → IsStem label := by
    intro label hlabel
    obtain rfl : label = "x" := by simpa [labelling] using hlabel
    exact isStem_of_not_mem (by decide)
  exact ⟨hcalls, labels_distinct "m" .tracked .o0 _ hcalls⟩

/-- The mark of a label that is taken may give a label that is taken as well. -/
theorem labels_collide : ((start "m").runAll (labelling ["x.3", "x", "x"])).module.functions.map
    (·.blocks.map Block.label) = [["entry", "x.3", "x", "x.3"]] := by
  decide +kernel

/-! ### Strings -/

/-- After any sequence of operations the globals have distinct names and distinct contents, and the table of strings has
as many entries as there are globals and gives each text the name of the global that holds it. A string that is asked
for is a global with its text and type, which it stays and which is given for that string whatever operations follow. -/
theorem strings_interned (calls : List Call) :
    let b := (start name alloc level).runAll calls
    (b.module.globals.map Global.name).Nodup ∧ (b.module.globals.map Global.init).Nodup ∧
      b.strings.length = b.module.globals.length ∧
      (∀ s name, b.strings.lookup s = some name ↔ b.module.stringConstant? name = some s) ∧
      (∀ later, b.module.globals <+: (b.runAll later).module.globals) ∧
      ∀ s, ∃ g, (Build.constString s b).1 = .global g.name ∧ g.ty = .array .i8 (s.utf8ByteSize + 1) ∧
        ∀ later, let c := (b.run (.basic (.constString s))).runAll later
          c.module.global? g.name = some g ∧ c.module.stringConstant? g.name = some s ∧
            (Build.constString s c).1 = .global g.name := by
  intro b
  have hb : b.Numbered := numbered_runAll numbered_start calls
  have hstep : b.InStep := (inStep_runAll numbered_start (.of_nil rfl rfl) calls).2
  refine ⟨hstep.names_nodup, hstep.nodup, hstep.length_eq, fun _ _ => Module.Interned.lookup_eq_some_iff hstep,
    fun later => (inStep_runAll hb hstep later).1, fun s => ?_⟩
  obtain ⟨hnext, g, hg, hvalue, hinit⟩ := hstep.constString s
  obtain ⟨s', hs', hty⟩ := hnext.strings g hg
  obtain rfl : s = s' := GlobalInit.str.inj (hinit.symm.trans hs')
  refine ⟨g, hvalue, hty, fun later => ?_⟩
  obtain ⟨hgrows, hlater⟩ := inStep_runAll (numbered_runAll hb [.basic (.constString s)]) hnext later
  have hmem := hgrows.subset hg
  refine ⟨find?_key_of_mem Global.name hlater.names_nodup hmem, hlater.stringConstant?_eq hmem hinit, ?_⟩
  obtain ⟨hlast, g', hg', hvalue', hinit'⟩ := hlater.constString s
  have hagain := (Build.constString_works s ((b.run (.basic (.constString s))).runAll later)).1.globals
  refine hvalue'.trans ?_
  rw [inj_on_of_nodup_map hlast.nodup hg' (hagain.subset hmem) (hinit'.trans hinit.symm)]

end Builder

end Aero.IR
