import Aero.Proofs.Discipline.File

/-!
The errors of a file and the functions of its module, by the record of its lowering. Each part that was refused has
its error, and each function that could be declared is in the module with its signature, and with a body unless this
failed.
-/

namespace Aero.Lowering

open IR List

variable {α β : Type} {env : Env} {file : File} {ledger : Ledger} {s : State}

theorem exists_ok_of_failures {done : List (α × Except Diagnostic β)} (h : failures done = [])
    {p : α × Except Diagnostic β} (hp : p ∈ done) : ∃ b, p.2 = .ok b := by
  have hraised : raised p.2 = [] := flatMap_eq_nil_iff.mp h p hp
  cases hres : p.2 with
  | ok b => exact ⟨b, rfl⟩
  | error d =>
    rw [hres] at hraised
    cases hraised

/-- What is declared for a function stays with it. -/
theorem Settled.head_eq (h : Settled env file ledger s) {p : FnDef × FnSig} (hp : p ∈ accepted ledger.declarations)
    {f : Function} (hf : s.builder.module.function? p.2.symbol = some f) : f.head = p.2.declaration := by
  have hs := (h.idle.rests "").builder
  obtain ⟨g, hg, hhead⟩ := mem_map.mp (hs.present p.2.declaration (mem_map_of_mem hp))
  have hname : g.name = p.2.symbol := congrArg Function.name hhead
  have hfound := hs.function?_eq hg
  rw [hname] at hfound
  rw [← hhead, Option.some.inj (hf.symm.trans hfound)]

theorem Settled.exists_body (h : Settled env file ledger s) (hclean : ledger.errors = [])
    {q : Option String × FnDef} (hq : q ∈ functionsOf file) :
    ∃ f, s.builder.module.function? (symbolIn env q) = some f ∧ f.blocks ≠ [] := by
  rw [Ledger.errors, append_eq_nil_iff, append_eq_nil_iff] at hclean
  obtain ⟨⟨_, hdeclarations⟩, hbodies⟩ := hclean
  obtain ⟨p, hp, rfl⟩ := mem_map.mp (h.declarations_eq ▸ hq)
  obtain ⟨sig, hsig⟩ := exists_ok_of_failures hdeclarations hp
  have haccepted : (p.1.2, sig) ∈ accepted ledger.declarations := mem_accepted.mpr ⟨p, hp, hsig, rfl⟩
  obtain ⟨r, hr, hsame⟩ := mem_map.mp (h.bodies_eq ▸ haccepted)
  obtain ⟨_, hok⟩ := exists_ok_of_failures hbodies hr
  obtain ⟨f, hf, hblocks⟩ := h.bodies r hr
  rw [hsame, (h.signed p hp sig hsig).symbol_eq] at hf
  exact ⟨f, hf, hblocks.mpr (by rw [hok]; rfl)⟩

/-- The output of a lowering agrees with the record. -/
structure Ledger.Accounts (file : File) (ledger : Ledger) (out : Output) : Prop where
  /-- Each part of the file has its entry, in order. -/
  structs_eq : ledger.structs.map Prod.fst = structsOf file
  declarations_eq : ledger.declarations.map Prod.fst = functionsOf file
  bodies_eq : ledger.bodies.map Prod.fst = accepted ledger.declarations
  errors_eq : out.diagnostics.filter Diagnostic.isError = ledger.errors
  bodies : ∀ p ∈ ledger.bodies, ∃ f, out.module.function? p.1.2.symbol = some f ∧
    f.head = p.1.2.declaration ∧ (f.blocks ≠ [] ↔ p.2.isOk = true)
  declared : out.diagnostics.filter Diagnostic.isError = [] → ∀ f ∈ out.module.functions, f.blocks = [] →
    (∃ p : Primitive, f = p.declaration) ∨ ∃ unit ∈ out.module.foreign, unit.symbol = f.name

/-- The errors of a file are those of its parts, structs before declarations and these before bodies, and what is left
without a body is the failure of one of them or does not come from the file. -/
theorem run_accounts (env : Env) (file : File) (moduleName : String) : ∃ ledger s,
    recordFile file env (.start env.config moduleName) = .ok ledger s ∧
      run env file moduleName = ⟨s.builder.module, s.diagnostics, s.builder.log⟩ ∧
      ledger.Accounts file (run env file moduleName) := by
  obtain ⟨ledger, s1, s, hrecord, hlower, hsettled, hfinished⟩ := exists_ledger env file moduleName
  have hrun := run_eq hlower
  have herrors : s.errors = ledger.errors := hfinished.errors_eq.trans hsettled.errors_eq
  refine ⟨ledger, s, hrecord, hrun, ?_⟩
  rw [hrun]
  constructor
  case structs_eq => exact hsettled.structs_eq
  case declarations_eq => exact hsettled.declarations_eq
  case bodies_eq => exact hsettled.bodies_eq
  case errors_eq => exact herrors
  case bodies =>
    intro p hp
    obtain ⟨f, hf, hblocks⟩ := hsettled.bodies p hp
    have haccepted : p.1 ∈ accepted ledger.declarations := hsettled.bodies_eq ▸ List.mem_map_of_mem hp
    exact ⟨f, hfinished.keeps _ f hf, hsettled.head_eq haccepted hf, hblocks⟩
  case declared =>
    intro hclean f hf hblocks
    rcases hfinished.known f hf hblocks with ⟨q, hq, hsymbol⟩ | hother
    · obtain ⟨g, hg, hne⟩ := hsettled.exists_body (herrors.symm.trans hclean) hq
      have hfound := hfinished.conforms.builder.function?_eq hf
      rw [← hsymbol, hfinished.keeps _ g hg] at hfound
      exact absurd hblocks (Option.some.inj hfound ▸ hne)
    · exact hother

end Aero.Lowering
