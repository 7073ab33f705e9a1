import Aero.Proofs.Discipline.File

/-!
The code of every module that is made from a file. A buffer that the program has not asked for by itself is
registered with the tracker as soon as it is allocated, and without tracking no function calls the tracker. A function
that takes no array of void does not handle void values.
-/

open List

namespace Aero.IR

namespace Policy

variable {P : Policy} {name : String} {requested : Reg → Prop} {code after : List Instr} {i : Instr}

/-- An allocation whose result is registered next, or that the program has asked for. -/
def Registered (requested : Reg → Prop) (i : Instr) (after : List Instr) : Prop :=
  ∃ r size, i = .malloc r size ∧ (requested r ∨ ∃ dims rest, after = .register r size dims :: rest)

theorem Piece.registers (h : P.Piece name requested code) (hapart : P.apart) (htracked : P.alloc = .tracked)
    (hcode : i :: after <:+ code) (hcall : i.callee? = some Primitive.malloc.name) : Registered requested i after := by
  cases h with
  | plain h =>
    obtain ⟨rfl, rfl⟩ : i = _ ∧ after = [] := by simpa [suffix_cons_iff] using hcode
    exact absurd rfl (h.calls hapart .malloc hcall).1
  | @registered r size dims _ =>
    have hcases : (i = .malloc r size ∧ after = [.register r size dims]) ∨
        i = .register r size dims ∧ after = [] := by simpa [suffix_cons_iff] using hcode
    rcases hcases with ⟨rfl, rfl⟩ | ⟨rfl, rfl⟩
    · exact ⟨r, size, rfl, .inr ⟨dims, [], rfl⟩⟩
    · exact absurd (Option.some.inj hcall) (by decide)
  | @unregistered r size h =>
    obtain ⟨rfl, rfl⟩ : i = .malloc r size ∧ after = [] := by simpa [suffix_cons_iff] using hcode
    rcases h with huntracked | hrequested
    · rw [htracked] at huntracked
      cases huntracked
    · exact ⟨r, size, rfl, .inl hrequested⟩

theorem Registered.append (h : Registered requested i after) (later : List Instr) :
    Registered requested i (after ++ later) := by
  obtain ⟨r, size, rfl, hrequested | ⟨dims, rest, rfl⟩⟩ := h
  · exact ⟨r, size, rfl, .inl hrequested⟩
  · exact ⟨r, size, rfl, .inr ⟨dims, rest ++ later, rfl⟩⟩

variable (h : P.Code name requested code)
include h

/-- What follows an allocation is in the same piece of code. -/
theorem Code.registers (hapart : P.apart) (htracked : P.alloc = .tracked)
    (hcode : i :: after <:+ code) (hcall : i.callee? = some Primitive.malloc.name) : Registered requested i after := by
  induction h generalizing after with
  | nil => cases suffix_nil.mp hcode
  | @snoc code piece _ hpiece ih =>
    obtain ⟨before, hbefore⟩ := hcode
    rcases append_eq_append_iff.mp hbefore with ⟨inner, rfl, hinner⟩ | ⟨inner, rfl, hinner⟩
    · cases inner with
      | nil => exact hpiece.registers hapart htracked (hinner ▸ suffix_rfl) hcall
      | cons j inner =>
        obtain ⟨rfl, rfl⟩ := List.cons.inj hinner
        exact (ih ⟨before, rfl⟩).append piece
    · exact hpiece.registers hapart htracked ⟨inner, hinner.symm⟩ hcall

theorem Code.mem (hi : i ∈ code) : P.Plain name i ∨ (∃ r size, i = .malloc r size) ∨
      P.alloc = .tracked ∧ ∃ r size dims, i = .register r size dims := by
  induction h with
  | nil => cases hi
  | snoc _ hpiece ih =>
    rcases mem_append.mp hi with hi | hi
    · exact ih hi
    · cases hpiece with
      | plain h =>
        rw [mem_singleton.mp hi]
        exact .inl h
      | registered h =>
        rcases mem_cons.mp hi with rfl | hi
        · exact .inr (.inl ⟨_, _, rfl⟩)
        · exact .inr (.inr ⟨h, _, _, _, mem_singleton.mp hi⟩)
      | unregistered _ => exact .inr (.inl ⟨_, _, mem_singleton.mp hi⟩)

theorem Code.callee_ne (hapart : P.apart) (huntracked : P.alloc = .untracked)
    (hi : i ∈ code) {p : Primitive} (hp : p.isTracker = true) : i.callee? ≠ some p.name := by
  intro hcall
  rcases h.mem hi with hplain | ⟨r, size, rfl⟩ | ⟨htracked, _⟩
  · rw [(hplain.calls hapart p hcall).2 huntracked] at hp
    cases hp
  · rw [← Primitive.name_injective (Option.some.inj hcall)] at hp
    cases hp
  · rw [htracked] at huntracked
    cases huntracked

theorem Code.handlesVoid (hsolid : P.solid name) (hi : i ∈ code) : i.handlesVoid = false := by
  rcases h.mem hi with hplain | ⟨r, size, rfl⟩ | ⟨_, r, size, dims, rfl⟩
  · exact hplain.solid hsolid
  · rfl
  · rfl

end Policy

end Aero.IR

namespace Aero.Lowering

open IR

/-- The buffers that a file asks for by itself, each with the position of the function that does. -/
def requestsOf (env : Env) (file : File) (moduleName : String) : List (Option Nat × Value) :=
  match lowerFile file env (.start env.config moduleName) with
  | .ok _ s | .error _ s => s.requested

theorem code_run {env : Env} {file : File} {moduleName : String} {index : Nat} {f : Function}
    (hf : (run env file moduleName).module.functions[index]? = some f) {block : Block} (hblock : block ∈ f.blocks) :
    (filePolicy env file).Code f.name
      (fun r => (some index, .ofReg r .ptr) ∈ requestsOf env file moduleName) block.instrs := by
  obtain ⟨_, _, s, _, hlower, _, hfinished⟩ := exists_ledger env file moduleName
  rw [run_eq hlower] at hf
  rw [requestsOf, hlower]
  exact hfinished.conforms.builder.code index f hf block hblock

/-- With tracking, a buffer that was not asked for is registered next, with the size it was allocated with. Without
tracking, nothing is done that concerns the tracker. -/
theorem run_allocations (env : Env) (file : File) (moduleName : String) (hentry : EntryApart env.config.module) :
    (env.config.alloc = .tracked → ∀ index f, (run env file moduleName).module.functions[index]? = some f →
      ∀ block ∈ f.blocks, ∀ i after, i :: after <:+ block.instrs → i.callee? = some Primitive.malloc.name →
        ∃ r size, i = .malloc r size ∧ ((some index, .ofReg r .ptr) ∈ requestsOf env file moduleName ∨
          ∃ dims rest, after = .register r size dims :: rest)) ∧
    (env.config.alloc = .untracked → ∀ f ∈ (run env file moduleName).module.functions,
      ∀ block ∈ f.blocks, ∀ i ∈ block.instrs, ∀ p : Primitive, p.isTracker = true → i.callee? ≠ some p.name) := by
  refine ⟨fun htracked index f hf block hblock i after hcode hcall => ?_,
    fun huntracked f hf block hblock i hi p hp => ?_⟩
  · exact (code_run hf hblock).registers hentry htracked hcode hcall
  · obtain ⟨index, hindex⟩ := List.mem_iff_getElem?.mp hf
    exact (code_run hindex hblock).callee_ne hentry huntracked hi hp

/-- A function that joins a text to itself and asks for a buffer. -/
def joiner : FnDef where
  name := ⟨"join", {}⟩
  params := [⟨⟨"text", {}⟩, ⟨{ name := "string" }, {}⟩⟩, ⟨⟨"n", {}⟩, ⟨{ name := "int" }, {}⟩⟩]
  returnTy := none
  body :=
    let text : Spanned Expr := ⟨.var "text", {}⟩
    ⟨⟨[⟨.declare ⟨"twice", {}⟩ none (some ⟨.binary .add text text, {}⟩), {}⟩,
      ⟨.expr ⟨.call ⟨"malloc", {}⟩ [⟨.var "n", {}⟩], {}⟩, {}⟩]⟩, {}⟩

def joinerFile : File := ⟨"join.aero", [⟨.fn joiner, {}⟩]⟩

def callsIn (m : Module) : List (String × List String) :=
  m.functions.map fun f => (f.name, f.blocks.flatMap fun b => b.instrs.filterMap Instr.callee?)

theorem joiner_allocations : EntryApart bareEnv.config.module ∧ bareEnv.config.alloc = .tracked ∧
      (callsIn (run bareEnv joinerFile "join").module).head? =
        some ("join", ["strlen", "strlen", "malloc", "gc_register", "strcpy", "strcat", "malloc", "gc_collect"]) ∧
      ∀ index f, (run bareEnv joinerFile "join").module.functions[index]? = some f →
        ∀ block ∈ f.blocks, ∀ i after, i :: after <:+ block.instrs → i.callee? = some Primitive.malloc.name →
          ∃ r size, i = .malloc r size ∧ ((some index, .ofReg r .ptr) ∈ requestsOf bareEnv joinerFile "join" ∨
            ∃ dims rest, after = .register r size dims :: rest) :=
  ⟨entryApart_bareEnv, rfl, by decide +kernel, (run_allocations bareEnv joinerFile "join" entryApart_bareEnv).1 rfl⟩

/-- A function whose parameters are no arrays of void handles no void value. -/
theorem run_handlesVoid (env : Env) (file : File) (moduleName : String) (hentry : EntryApart env.config.module)
    (f : Function) (hf : f ∈ (run env file moduleName).module.functions)
    (hparams : ∀ p ∈ functionsOf file, symbolOf env.config.module p.1 p.2.name.node = f.name →
      p.2.takesVoidArray = false) : ∀ block ∈ f.blocks, ∀ i ∈ block.instrs, i.handlesVoid = false := by
  intro block hblock i hi
  obtain ⟨index, hindex⟩ := List.mem_iff_getElem?.mp hf
  exact (code_run hindex hblock).handlesVoid ⟨hentry, hparams⟩ hi

def reader (elem : String) : FnDef where
  name := ⟨"read", {}⟩
  params := [⟨⟨"xs", {}⟩, ⟨{ name := elem, dims := [.unsized] }, {}⟩⟩, ⟨⟨"n", {}⟩, ⟨{ name := "int" }, {}⟩⟩]
  returnTy := none
  body := ⟨⟨[⟨.expr ⟨.index ⟨.var "xs", {}⟩ [⟨.var "n", {}⟩], {}⟩, {}⟩]⟩, {}⟩

def readerFile (elem : String) : File := ⟨"read.aero", [⟨.fn (reader elem), {}⟩]⟩

theorem reader_handlesVoid : EntryApart bareEnv.config.module ∧
    ∃ f, (run bareEnv (readerFile "int") "read").module.functions.head? = some f ∧ f.blocks.length = 3 ∧
      ∀ block ∈ f.blocks, ∀ i ∈ block.instrs, i.handlesVoid = false := by
  have hblocks : ((run bareEnv (readerFile "int") "read").module.functions.head?.map (·.blocks.length)) = some 3 := by
    decide +kernel
  obtain ⟨f, hf, hlength⟩ := Option.map_eq_some_iff.mp hblocks
  refine ⟨entryApart_bareEnv, f, hf, hlength, ?_⟩
  refine run_handlesVoid bareEnv (readerFile "int") "read" entryApart_bareEnv f (List.mem_of_head? hf) ?_
  intro p hp _
  rw [List.mem_singleton.mp hp]
  decide

def handlesVoidIn (m : Module) : Bool := m.functions.any fun f => f.blocks.any fun b => b.instrs.any Instr.handlesVoid

/-- The user's entry, which does nothing, and a function that compares a text to itself. -/
def comparingFile : File :=
  let text : Spanned Expr := ⟨.var "text", {}⟩
  let compare : FnDef :=
    { name := ⟨"compare", {}⟩
      params := [⟨⟨"text", {}⟩, ⟨{ name := "string" }, {}⟩⟩]
      returnTy := none
      body := ⟨⟨[⟨.expr ⟨.binary .eq text text, {}⟩, {}⟩]⟩, {}⟩ }
  ⟨"compare.aero", [⟨.fn (printer "main" []), {}⟩, ⟨.fn compare, {}⟩]⟩

/-- Options by which the user's entry takes the place of a primitive. -/
def renamingEnv (p : Primitive) : Env :=
  { bareEnv with config := { module := { userEntry := p.name } } }

/-- An element of an array of void is read like any other, and so is what an entry of the user yields that a primitive
is mistaken for. -/
theorem reader_void_handled : (run bareEnv (readerFile "void") "read").diagnostics = [] ∧
      handlesVoidIn (run bareEnv (readerFile "void") "read").module = true ∧
      (run (renamingEnv .strcmp) comparingFile "compare").diagnostics = [] ∧
      handlesVoidIn (run (renamingEnv .strcmp) comparingFile "compare").module = true := by
  refine ⟨?_, ?_, ?_, ?_⟩ <;> decide +kernel

end Aero.Lowering
