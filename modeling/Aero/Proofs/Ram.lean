import Aero.Proofs.Cells

/-!
Memory in bytes. A datum takes as many bytes as its type has, and only what was stored as a whole is
loaded. Where new storage is put is up to a runtime, as is what a call does.
-/

namespace Aero.IR

variable {ty : Ty} {x : Datum} {k a' n' dims : Nat}

/-- Memory. A byte that is in use belongs to a datum of a type, and it is known which of its bytes it
is. Only finitely many bytes are in use. -/
structure Ram where
  byte : Nat → Option (Datum × Ty × Nat)
  top : Nat
  free : ∀ b, top ≤ b → byte b = none

namespace Ram

def empty : Ram := ⟨fun _ => none, 0, fun _ _ => rfl⟩

def fill (m : Ram) (a n : Nat) (x : Datum) (ty : Ty) : Ram where
  byte b := if a ≤ b ∧ b < a + n then some (x, ty, b - a) else m.byte b
  top := max m.top (a + n)
  free := by
    intro b hb
    rw [if_neg (by omega), m.free b (by omega)]

def load? (m : Ram) (a n : Nat) (ty : Ty) : Option Datum :=
  if ∀ k < n, (m.byte (a + k)).map (·.2) = some (ty, k) then (m.byte a).map (·.1) else none

def store? (m : Ram) (a n : Nat) (x : Datum) (ty : Ty) : Option Ram :=
  if ∀ k < n, (m.byte (a + k)).isSome then some (m.fill a n x ty) else none

def offset? (size : Ty → Nat) : Ty → List Datum → Option Nat
  | _, [] => some 0
  | .array elem _, .int i :: path =>
    if 0 ≤ i.value then (offset? size elem path).map (i.value.toNat * size elem + ·) else none
  | _, _ => none

variable {m : Ram} {a b n : Nat}

theorem fill_byte_of_not_mem (h : ¬ (a ≤ b ∧ b < a + n)) : (m.fill a n x ty).byte b = m.byte b :=
  if_neg h

theorem fill_byte_of_mem (h : a ≤ b ∧ b < a + n) : (m.fill a n x ty).byte b = some (x, ty, b - a) :=
  if_pos h

theorem isSome_fill (h : (m.byte b).isSome) : ((m.fill a n x ty).byte b).isSome := by
  simp only [fill]
  split
  · rfl
  · exact h

theorem isSome_fill_self (hk : k < n) : ((m.fill a n x ty).byte (a + k)).isSome := by
  rw [fill_byte_of_mem (by omega)]
  rfl

theorem load?_fill_self (hn : 0 < n) : (m.fill a n x ty).load? a n ty = some x := by
  have htags : ∀ k < n, ((m.fill a n x ty).byte (a + k)).map (·.2) = some (ty, k) := by
    intro k hk
    rw [fill_byte_of_mem (by omega), Nat.add_sub_cancel_left]
    rfl
  rw [load?, if_pos htags, fill_byte_of_mem (by omega)]
  rfl

theorem load?_congr {m' : Ram} (hn : 0 < n) (h : ∀ k < n, m'.byte (a + k) = m.byte (a + k)) :
    m'.load? a n ty = m.load? a n ty := by
  have hfirst := h 0 hn
  rw [Nat.add_zero] at hfirst
  have htags : (∀ k < n, (m'.byte (a + k)).map (·.2) = some (ty, k)) ↔
      ∀ k < n, (m.byte (a + k)).map (·.2) = some (ty, k) :=
    forall₂_congr fun k hk => by rw [h k hk]
  simp only [load?, htags, hfirst]

theorem load?_fill_of_disjoint {ty' : Ty} (hn : 0 < n) (h : a + n ≤ a' ∨ a' + n' ≤ a) :
    (m.fill a' n' x ty').load? a n ty = m.load? a n ty :=
  load?_congr hn fun _ _ => fill_byte_of_not_mem (by omega)

theorem isSome_of_load? (h : m.load? a n ty = some x) (hk : k < n) : (m.byte (a + k)).isSome := by
  rw [load?] at h
  split at h
  · next htags =>
    have htag := htags k hk
    cases hbyte : m.byte (a + k) with
    | none =>
      rw [hbyte] at htag
      cases htag
    | some _ => rfl
  · cases h

end Ram

/-- The sizes of types, where a function finds so many bytes for a variable, and what calls do. -/
structure Runtime where
  size : Ty → Nat
  place : Ram → Nat → Nat
  call? : String → List Datum → Ram → Option (Option Datum × Ram)

/-- What is asked of a runtime. An address has eight bytes, and the elements of an array lie one after another.
Only bytes that are not in use are given out, and a buffer that is registered stays as it is. -/
structure Runtime.Serves (R : Runtime) : Prop where
  ptr : R.size .ptr = 8
  i32 : R.size .i32 = 4
  array : ∀ elem n, R.size (.array elem n) = n * R.size elem
  place : ∀ (m : Ram) (n b : Nat), b < n → m.byte (R.place m n + b) = none
  malloc : ∀ (m : Ram) (n : Word), ∃ a, (∀ b < n.bits.toNat, m.byte (a + b) = none) ∧
    R.call? Primitive.malloc.name [.int n] m = some (some (.cell a), m.fill a n.bits.toNat .undef .void)
  register : ∀ (args : List Datum) (m : Ram), R.call? Primitive.gcRegister.name args m = some (none, m)

/-- A platform with memory in bytes. -/
abbrev ram (R : Runtime) : Platform where
  Memory := Ram
  global? _ := none
  exec? i args m :=
    match i, args with
    | .alloca _ ty, [] =>
      some (some (.cell (R.place m (R.size ty))), m.fill (R.place m (R.size ty)) (R.size ty) .undef ty)
    | .load _ ty _, [.cell a] => (m.load? a (R.size ty) ty).map fun x => (some x, m)
    | .store v _, [x, .cell a] => (m.store? a (R.size v.ty) x v.ty).map fun m' => (none, m')
    | .gep _ ty _ _, .cell a :: path =>
      (Ram.offset? R.size (.array ty 0) path).map fun k => (some (.cell (a + k)), m)
    | .call _ callee _ _, args => R.call? callee args m
    | _, _ => none

/-! ### Instructions that the platform runs -/

section

variable {H : Prop} {R : Runtime} {w w' : Site H} {f : Function} {c : Point (ram R)} {v ptr : Value} {a : Nat}

namespace Build

theorem ram_load (hrun : load ty ptr w.builder = (v, w'.builder))
    (hopen : w.Open) (hf : w'.Embeds f) (hc : c.At w) (hptr : c.read? ptr = some (.cell a))
    (hload : c.memory.load? a (R.size ty) ty = some x) :
    ∃ d, f.Keeps (fun _ => True) w.fn.nextReg c d ∧ d.At w' ∧ d.read? v = some x := by
  obtain ⟨d, hruns, hd, hmemory, hread⟩ := emit_runs [.cell a] hrun hopen hf hc
    (fun _ => rfl) rfl (by simp [Instr.operands, hptr]) rfl (congrArg (Option.map _) hload)
  exact ⟨d, ⟨hruns, hmemory⟩, hd, hread⟩

theorem ram_load_holds {x : Word} (hrun : load (.int x.width) ptr w.builder = (v, w'.builder)) (hopen : w.Open)
    (hf : w'.Embeds f) (hc : c.At w) (hptr : c.read? ptr = some (.cell a))
    (hload : c.memory.load? a (R.size (.int x.width)) (.int x.width) = some (.int x)) (hpos : 0 < x.width)
    (hle : x.width ≤ 64) : Makes f c w v w' x := by
  obtain ⟨d, hkeeps, hd, hread⟩ := ram_load hrun hopen hf hc hptr hload
  obtain ⟨rfl, hemitted⟩ := Site.emitted_of_emit hopen (fun _ => rfl) hrun
  exact ⟨d, hkeeps, hd, holds_ofReg hread (hemitted.nextReg_eq ▸ Nat.lt_succ_self _) hpos hle⟩

theorem ram_gep {indices : List Value} {path : List Datum}
    (hrun : gep ty ptr indices w.builder = (v, w'.builder)) (hopen : w.Open) (hf : w'.Embeds f)
    (hc : c.At w) (hptr : c.read? ptr = some (.cell a)) (hpath : indices.mapM c.read? = some path)
    (hoffset : Ram.offset? R.size (.array ty 0) path = some k) :
    ∃ d, f.Keeps (fun _ => True) w.fn.nextReg c d ∧ d.At w' ∧ d.read? v = some (.cell (a + k)) := by
  obtain ⟨d, hruns, hd, hmemory, hread⟩ := emit_runs (.cell a :: path) hrun
    hopen hf hc (fun _ => rfl) rfl (by simp [Instr.operands, hptr, hpath])
    (by simp [Instr.compute?]) (congrArg (Option.map _) hoffset)
  exact ⟨d, ⟨hruns, hmemory⟩, hd, hread⟩

theorem ram_store (hrun : store v ptr w.builder = ((), w'.builder)) (hopen : w.Open)
    (hf : w'.Embeds f) (hc : c.At w) (hptr : c.read? ptr = some (.cell a)) (hv : c.read? v = some x)
    (hused : ∀ k < R.size v.ty, (c.memory.byte (a + k)).isSome) :
    ∃ d, f.Runs (fun _ => True) w.fn.nextReg c d ∧ d.At w' ∧ d.memory = c.memory.fill a (R.size v.ty) x v.ty := by
  refine (Site.emitted_of_push hopen rfl hrun).runs_effect (x := none) hf hc trivial rfl rfl ?_
  refine perform?_of_exec? [x, .cell a] (by simp [Instr.operands, hptr, hv]) rfl ?_
  simp only [Ram.store?, if_pos hused, Option.map_some]

theorem ram_alloca (hrun : alloca ty w.builder = (v, w'.builder)) (hopen : w.Open)
    (hf : w'.Embeds f) (hc : c.At w) : ∃ d, f.Runs (fun _ => True) w.fn.nextReg c d ∧ d.At w' ∧
      d.memory = c.memory.fill (R.place c.memory (R.size ty)) (R.size ty) .undef ty ∧
      d.read? v = some (.cell (R.place c.memory (R.size ty))) :=
  emit_runs [] hrun hopen hf hc (fun _ => rfl) rfl rfl rfl rfl

/-! ### Calls -/

/-- A primitive is called under its own name and with its own type. -/
theorem callPrimitive_emitted {p : Primitive} {args : List Value} (hH : H) (hopen : w.Open)
    (hrun : callPrimitive p args w.builder = (v, w'.builder)) :
    if p.signature.ret = .void then w.Emitted (.call none p.name args .void) w'
    else v = .ofReg w.fn.nextReg p.signature.ret ∧
      w.Emitted (.call (some w.fn.nextReg) p.name args p.signature.ret) w' := by
  obtain ⟨_, w1, hdeclare, _, hopen1, hfn, hblock, hproto⟩ := emits_declarePrimitive hopen
  have hcall : call p.name args w1.builder = (v, w'.builder) := by
    rw [← hrun]
    change _ = call p.name args (declarePrimitive p w.builder).2
    rw [hdeclare]
  obtain ⟨g, hg, hsig⟩ := Option.map_eq_some_iff.mp (hproto hH)
  rw [call_known hg, show g.ret = p.signature.ret from congrArg Signature.ret hsig, callOf] at hcall
  have hsame : ∀ i, w1.Emitted i w' → w.Emitted i w' := fun i h =>
    ⟨hblock ▸ h.block_eq, hfn ▸ h.nextReg_eq⟩
  by_cases hvoid : p.signature.ret = .void
  · rw [hvoid] at hcall
    rw [if_pos hvoid]
    exact hsame _ (Site.emitted_of_push hopen1 rfl (Prod.ext rfl (Prod.mk.inj hcall).2))
  · have hnot : p.signature.ret.isVoid = false := decide_eq_false hvoid
    rw [hnot] at hcall
    rw [if_neg hvoid]
    obtain ⟨hv, hemitted⟩ := Site.emitted_of_emit hopen1 (fun _ => rfl) hcall
    rw [hfn] at hv hemitted
    exact ⟨hv, hsame _ hemitted⟩

/-- The code between two sites takes a buffer of so many bytes. -/
def Takes (v : Value) (n : Nat) (w w' : Site H) : Prop :=
  ∀ (R : Runtime) (f : Function) (c : Point (ram R)), R.Serves → w'.Embeds f → c.At w →
    ∃ d a, f.Runs (fun _ => True) w.fn.nextReg c d ∧ d.At w' ∧ d.read? v = some (.cell a) ∧
      (∀ b < n, c.memory.byte (a + b) = none) ∧ d.memory = c.memory.fill a n .undef .void

/-- A buffer is registered if buffers are tracked. -/
theorem emits_trackedMalloc_takes {k : Int64} :
    Emits (trackedMalloc (int64 k) dims) w fun v w' => (∀ ty, w'.Addr v ty) ∧
      (H → Takes v (Word.ofInt 64 k.toInt).bits.toNat w w') := by
  have hwide : Emits (intCast (int64 k) .i64 false) w fun v w' => v = int64 k ∧ w = w' :=
    .pure ⟨rfl, rfl⟩
  refine hwide.bind ?_
  rintro _ _ _ ⟨rfl, rfl⟩
  refine (emits_malloc (val_int64 k).int).with_run.bind ?_
  rintro v w1 hle1 ⟨hv, hopen, hrun⟩
  replace hrun : callPrimitive .malloc [int64 k] w.builder = (v, w1.builder) := hrun
  have htakes : H → Takes v (Word.ofInt 64 k.toInt).bits.toNat w w1 := by
    intro hH R f c hserves hf hc
    obtain ⟨rfl, hemitted⟩ := callPrimitive_emitted hH hopen hrun
    obtain ⟨a, hfree, hcall⟩ := hserves.malloc c.memory (.ofInt 64 k.toInt)
    have hread := c.read?_ofInt k (by decide : 0 < 64) (by decide)
    obtain ⟨d, hruns, hd, hmemory, hresult⟩ : ∃ d, f.Runs (fun _ => True) w.fn.nextReg c d ∧ d.At w1 ∧
        d.memory = c.memory.fill a _ .undef .void ∧ d.read? (.ofReg w.fn.nextReg .ptr) = some (.cell a) :=
      hemitted.runs_result hf hc trivial rfl rfl <|
        perform?_of_exec? [.int (.ofInt 64 k.toInt)] (by simp [Instr.operands, int64, hread]) rfl hcall
    exact ⟨d, a, hruns, hd, hresult, hfree, hmemory⟩
  refine emits_isTracked.bind ?_
  rintro tracked _ _ rfl
  split
  swap
  · exact .pure ⟨hv, htakes⟩
  refine (emits_callPrimitive
    (.cons (hv .void).val (.cons (val_int64 k) (.cons (val_int32 _) .nil)))).with_run.discarded.bind ?_
  rintro _ w2 hle2 ⟨_, _, hopen1, hrun2⟩
  refine .pure ⟨fun ty => (hv ty).mono hle2, fun hH R f c hserves hf hc => ?_⟩
  obtain ⟨d, a, hruns, hd, hread, hfree, hmemory⟩ := htakes hH R f c hserves (hf.of_le hle2) hc
  have hemitted := callPrimitive_emitted hH hopen1 hrun2
  obtain ⟨args, hargs⟩ : ∃ args, [v, int64 k, int32 (Int64.ofNat (max dims 1))].mapM d.read? = some args := by
    have hsize := d.read?_ofInt k (by decide : 0 < 64) (by decide)
    have hdims := d.read?_ofInt (Int64.ofNat (max dims 1)) (by decide : 0 < 32) (by decide)
    simp [hread, int64, int32, hsize, hdims]
  obtain ⟨e, hruns', he, hmemory'⟩ : ∃ e, f.Runs (fun _ => True) w1.fn.nextReg d e ∧ e.At w2 ∧ e.memory = d.memory :=
    hemitted.runs_effect hf hd trivial rfl rfl (perform?_of_exec? args hargs rfl (hserves.register args d.memory))
  exact ⟨e, a, hruns.trans (hruns'.mono hle1.nextReg_le), he, (hruns'.read?_eq (hv .void).1.within).trans hread,
    hfree, hmemory'.trans hmemory⟩

end Build

end

end Aero.IR
