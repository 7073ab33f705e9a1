import Aero.Lowering.Array
import Aero.Proofs.Flow
import Aero.Proofs.Layout
import Aero.Proofs.Operator
import Aero.Proofs.Ram

/-!
Elements of arrays and strings. The code of a bounds check goes on where an index is in range and comes to a fault
where it is not. The address of an element is of the element's type.
-/

namespace Aero.Lowering

open IR IR.Build IR.Site List

variable {H : Prop} {env : Env} {s : State} {w : Site H} {index len buffer : Value} {slot : Slot}
  {indices : List Operand} {span : Span} {access : Access} {elem : Ty} {fault : Fault} {n k : Nat}

theorem Fault.isStem_failLabel (fault : Fault) : IsStem fault.failLabel := by
  cases fault <;> exact isStem_of_getLast rfl rfl

theorem Fault.isStem_passLabel (fault : Fault) : IsStem fault.passLabel := by
  cases fault <;> exact isStem_of_getLast rfl rfl

/-- A fault: the block prints a message and exits with the status of a fault. -/
def Aborts (env : Env) (f : Function) (id : BlockId) : Prop :=
  ∃ b text r, f.block? id = some b ∧ b.term = some .unreachable ∧
    b.instrs = [.call (some r) Primitive.printf.name [text] .i32,
      .call none Primitive.exit.name [int32 (Int64.ofInt env.config.runtime.faultExitCode)] .void]

/-- An index is checked against a length that is read without a sign. If it is in range control comes past the check,
and if not to a fault. -/
def Checks (env : Env) (index len : Value) (w w' : Site H) : Prop :=
  ∀ (P : Platform) (f : Function) (c : Point P) (x y : Word), w'.Embeds f → c.At w →
    Holds w.fn.nextReg c index x → Holds w.fn.nextReg c len y → y.bits.toNat ≤ 2 ^ 63 →
    (0 ≤ x.value ∧ x.value < y.bits.toNat → ∃ d, f.Keeps (fun _ => True) w.fn.nextReg c d ∧ d.At w') ∧
      (¬ (0 ≤ x.value ∧ x.value < y.bits.toNat) → H →
        ∃ d, f.Keeps (fun _ => True) w.fn.nextReg c d ∧ d.done = 0 ∧ Aborts env f d.block)

theorem uge_eq_not_below {x y : Word} (hx : x.width ≤ 64) (hlow : y.bits.toNat ≤ 2 ^ 63) :
    IntPredicate.uge.onWords? (.ofInt 64 x.value) ⟨64, y.bits.setWidth 64⟩ =
      some (!decide (0 ≤ x.value ∧ x.value < y.bits.toNat)) := by
  have hrange : -2 ^ 63 ≤ x.value ∧ x.value < 2 ^ 63 := by
    have hpow : 2 ^ (x.width - 1) ≤ 2 ^ 63 := Nat.pow_le_pow_right (by decide) (by omega)
    have hlower := x.bits.le_toInt
    have hupper := x.bits.toInt_lt
    have hbits := x.bits.isLt
    unfold Word.value
    split
    · next hone =>
      have htwo : 2 ^ x.width = 2 := by rw [hone, Nat.pow_one]
      omega
    · norm_cast at hlower hupper
      omega
  have hright : (y.bits.setWidth 64).toNat = y.bits.toNat := by
    rw [BitVec.toNat_setWidth, Nat.mod_eq_of_lt (by omega)]
  refine congrArg some ?_
  change decide ((y.bits.setWidth 64).toNat ≤ (BitVec.ofInt 64 x.value).toNat) = _
  rw [hright, BitVec.toNat_ofInt, ← decide_not]
  exact decide_eq_decide.mpr (by omega)

theorem emits_printf_emitted {message : String} : Emits (printf message []) w fun _ w' => H → ∃ text,
    w.Emitted (.call (some w.fn.nextReg) Primitive.printf.name [text] .i32) w' := by
  refine emits_constString.bind ?_
  rintro text w1 _ ⟨htext, hty, hfn, hblock⟩
  refine (emits_callPrimitive (.cons ⟨htext, fun _ => hty⟩ .nil)).with_run.mono ?_
  rintro _ w2 _ ⟨_, hopen, hrun⟩ hH
  obtain ⟨_, hemitted⟩ := callPrimitive_emitted hH hopen hrun
  rw [hfn] at hemitted
  exact ⟨text, hblock ▸ hemitted.block_eq, hfn ▸ hemitted.nextReg_eq⟩

theorem lowers_boundsCheck (hindex : w.IntVal index) (hlen : w.IntVal len) :
    Lowers env (boundsCheck index len fault) s w fun _ w' => Checks env index len w w' := by
  refine (Lowers.lift_run (emits_intCast hindex rfl)).bind ?_
  rintro i s1 w1 hle1 _ ⟨hi, hopen, hindexRun⟩
  refine (Lowers.lift_run (emits_intCast (hlen.mono hle1) rfl)).bind ?_
  rintro n s2 w2 hle2 _ ⟨hn, hopen1, hlenRun⟩
  have hi2 := hi.mono hle2
  refine (Lowers.lift_run (emits_icmp hi2.1 hn.1 fun hH => ?_)).bind ?_
  · exact ⟨(hi2.2 hH).trans (hn.2 hH).symm, .inl (hi2.int.2 hH)⟩
  rintro outside s3 w3 hle3 _ ⟨houtside, hopen2, hrun⟩
  -- The code of a failed check ends in a block of its own.
  refine Steps.lowers fun hopen3 hbody => ?_
  refine ((Region.start .plain hbody).append fault.isStem_failLabel).bind ?_
  rintro failed s4 w4 _ ⟨hregion, happ4⟩
  refine (hregion.append fault.isStem_passLabel).bind ?_
  rintro passed s5 w5 _ ⟨hregion, happ5⟩
  refine (hregion.condBr (houtside.mono hregion.inside.grows) (by simp) (by simp)).bind ?_
  rintro _ s6 w6 _ ⟨hregion, hcloses⟩
  refine (hregion.position fun _ => hcloses.closed).bind ?_
  rintro _ s7 w7 _ ⟨hregion, hopen7, hmoved7⟩
  refine (hregion.lowers hbody hopen7 (.lift emits_printf_emitted.discarded)).bind ?_
  rintro _ s8 w8 _ ⟨hregion, hle8, hopen8, _, hprint⟩
  refine .read_bind ?_
  refine (hregion.lowers hbody hopen8
    (.lift (emits_callPrimitive (.cons (val_int32 _) .nil)).with_run.discarded)).bind ?_
  rintro _ s9 w9 _ ⟨hregion, hle9, hopen9, _, _, _, hexit⟩
  refine (hregion.finish ends_unreachable nofun).bind ?_
  rintro _ s10 w10 _ ⟨hregion, hcloses10⟩
  refine (hregion.position fun _ => hcloses10.closed).bind ?_
  rintro _ s11 w11 _ ⟨hregion, hopen11, hmoved11⟩
  refine (hregion.lowers hbody hopen11 lowers_note).imp ?_
  rintro _ s12 w12 _ ⟨hregion, hle12, hopen12, _, hblock12⟩
  refine ⟨hregion.leave, hopen12, fun P f c x y hf hc hx hy hlow => ?_⟩
  have hf3 := hf.of_le hregion.leave.grows
  have hf2 := hf3.of_le hle3
  obtain ⟨c1, hkeeps1, hc1, hx1⟩ :=
    intCast_holds hopen hi.1 (hf2.of_le hle2) hc hindexRun hx (by decide) (by decide)
  obtain ⟨c2, hkeeps2, hc2, hy2⟩ := intCast_unsigned_holds hopen1 hn.1 hf2 hc1 hlenRun
    (hy.keep hkeeps1.runs hle1.nextReg_le) (by decide) (by decide)
  obtain ⟨c3, hkeeps3, hc3, houtside3⟩ := icmp_words_hold hopen2 houtside.1 hf3 hc2 hrun
    (hx1.keep hkeeps2.runs hle2.nextReg_le) hy2 rfl (show 1 < 64 by decide) (uge_eq_not_below hx.le hlow)
  have hretains10 : w10.Retains w12 := (Retains.of_fn_eq hmoved11.fn_eq).trans hle12.retains
  have hblock5 : w5.block = w3.block := happ5.block_eq.trans happ4.block_eq
  have hblock : f.block? w3.block.id = some (w3.block.close (.condBr outside failed passed)) := by
    have hfin := hcloses.finished (show w5.block.term = none from hblock5 ▸ hopen3)
    have hretains : w6.Retains w12 := (Retains.of_fn_eq hmoved7.fn_eq).trans <|
      hle8.retains.trans <| hle9.retains.trans <| hcloses10.grows.retains.trans hretains10
    exact hf.closed (hblock5 ▸ hfin.block_eq ▸ hretains _ w6.block_mem hcloses.closed)
  have hjump : ∀ target, (Terminator.condBr outside failed passed).exec? c3 = some (.running (c3.jump target)) →
      f.Keeps (fun _ => True) w.fn.nextReg c (c3.jump target) := by
    intro target hexec
    have hkeeps := hkeeps1.trans ((hkeeps2.trans (hkeeps3.mono hle2.nextReg_le)).mono hle1.nextReg_le)
    exact hkeeps.trans ⟨Function.Runs.jump (fun _ => True) w.fn.nextReg hblock hc3.block_eq hc3.done_eq hexec, rfl⟩
  refine ⟨fun hin => ⟨c3.jump passed, hjump _ ?_, ?_, ?_⟩, fun hout hH => ⟨c3.jump failed, hjump _ ?_, rfl, ?_⟩⟩
  · simp only [Terminator.exec?, houtside3.read, decide_eq_true hin]
    rfl
  · rw [hblock12]
    exact hmoved11.block_id.symm
  · rw [hblock12, hmoved11.isEmpty]
    rfl
  · simp only [Terminator.exec?, houtside3.read, decide_eq_false hout]
    rfl
  · obtain ⟨text, hprint⟩ := hprint hH
    have hexit := callPrimitive_emitted hH hopen8 hexit
    have hclosed := hf.closed
      ((hcloses10.finished hopen9).block_eq ▸ hretains10 _ w10.block_mem hcloses10.closed)
    rw [hexit.block_eq, hprint.block_eq] at hclosed
    refine ⟨_, text, w7.fn.nextReg, hmoved7.block_id ▸ hclosed, rfl, ?_⟩
    change (w7.block.instrs ++ [_]) ++ [_] = _
    rw [hmoved7.isEmpty]
    rfl

/-! ### Indices -/

/-- The code of an operand yields a value wherever it stands. -/
def OperandOk (H : Prop) (env : Env) (o : Operand) : Prop :=
  ∀ (s : State) (w : Site H), Lowers env o.value s w fun v w' => w'.Has v

section Indices

variable {A : Prop} {P : Platform} {s0 : State} {w0 w1 w2 : Site H} {c0 : Point P} {o : Operand} {x : Nat}

/-- From a point that follows another, the code between two sites leaves memory and what was written as they
are and leads to where a condition holds. -/
def Leads (c0 : Point P) (n : Nat) (w w' : Site H) (post : Point P → Prop) : Prop :=
  ∀ f : Function, w'.Embeds f → ∀ c, f.Keeps (fun _ => True) n c0 c → c.At w →
    ∃ d, f.Keeps (fun _ => True) w.fn.nextReg c d ∧ d.At w' ∧ post d

/-- The code of an index yields a word of 64 bits wherever it comes later in the same scopes. If runs matter, it
is lowered, and yields a number while memory and what was written are as at a point. -/
def Supplies (A : Prop) (env : Env) (o : Operand) (s0 : State) (w0 : Site H) (c0 : Point P) (x : Nat) : Prop :=
  ∀ (s : State) (w : Site H), s0.Same s → w0 ≤ w → Sure A env (indexValue o) s w fun v w' => w'.Val v .i64 ∧
    (A → (∀ k, v.int? = some k → k.toInt = x) ∧
      Leads c0 w0.fn.nextReg w w' (Holds w'.fn.nextReg · v (.ofInt 64 x)))

/-- A point where no run matters. -/
def nowhere : Point (ram ⟨fun _ => 0, fun _ _ => 0, fun _ _ _ => none⟩) where
  block := 0
  regs _ := none
  memory := .empty

theorem OperandOk.supplies (h : OperandOk H env o) : Supplies False env o s0 w0 nowhere 0 := by
  refine fun s w _ _ => ⟨(h s w).bind fun v s1 w1 _ _ hv => ?_, False.elim⟩
  refine .ite (fun hint => ?_) fun _ => .fail
  exact (Lowers.lift (emits_intCast ⟨hv, fun _ => hint⟩ rfl)).mono fun _ _ _ hu => ⟨hu, False.elim⟩

theorem sure_refuseNegative (hindex : A → ∀ k, index.int? = some k → k.toInt = x) :
    Sure A env (refuseNegative index span) s w fun _ w' => w = w' := by
  unfold refuseNegative
  split
  · next k hk =>
    split
    · next hneg =>
      refine ⟨.fail, fun hA => ?_⟩
      have hlt : k.toInt < 0 := Int64.lt_iff_toInt_lt.mp hneg
      rw [hindex hA k hk] at hlt
      omega
    · exact .pure rfl
  · exact .pure rfl

theorem sure_openIndex (ho : Supplies A env o s0 w0 c0 x) (hsame : s0.Same s) (hle : w0 ≤ w) :
    Sure A env (openIndex o) s w fun v w' => w'.Val v .i64 ∧
      (A → Leads c0 w0.fn.nextReg w w' (Holds w'.fn.nextReg · v (.ofInt 64 x))) := by
  refine (ho s w hsame hle).bind ?_
  rintro i s1 w1 _ _ ⟨hi, hx⟩
  refine (sure_refuseNegative fun hA => (hx hA).1).bind ?_
  rintro _ s2 _ _ _ rfl
  exact .pure ⟨hi, fun hA => (hx hA).2⟩

theorem sure_boundsCheck (hindex : w.IntVal index) (hlen : w.IntVal len) :
    Sure A env (boundsCheck index len fault) s w fun _ w' => Checks env index len w w' :=
  ⟨lowers_boundsCheck hindex hlen, fun _ _ _ => ⟨_, _, rfl⟩⟩

theorem toNat_length (hn : n < 2 ^ 32) : (Word.ofInt 32 (n : Int)).bits.toNat = n := by
  change (BitVec.ofInt 32 n).toNat = n
  rw [BitVec.toNat_ofInt]
  omega

theorem holds_int32 (m : Nat) (c : Point P) (hn : n < 2 ^ 32) : Holds m c (int32 (Int64.ofNat n)) (.ofInt 32 n) := by
  have hlen := holds_ofInt m c (Int64.ofNat n) (by decide : 0 < 32) (by decide)
  rwa [Int64.toInt_ofNat_of_lt (by omega)] at hlen

/-- A constant index that is lowered has been checked. -/
theorem sure_checkFixed {len : Nat} (hindex : w.IntVal index)
    (hin : A → ∀ k, index.int? = some k → 0 ≤ k.toInt ∧ k.toInt < len) :
    Sure A env (checkFixed index len access span) s w fun _ w' =>
      len < 2 ^ 32 → Checks env index (int32 (Int64.ofNat len)) w w' := by
  unfold checkFixed
  split
  · next k hk =>
    refine ⟨.otherwise fun hin => .pure fun hlen P f c x y _ hc hx hy _ => ?_, fun hA _ _ => ?_⟩
    · have hbelow : 0 ≤ x.value ∧ x.value < y.bits.toNat := by
        rw [Option.some.inj (hy.read.symm.trans (holds_int32 0 c hlen).read), toNat_length hlen, ← hx.const k hk]
        simpa using hin
      exact ⟨fun _ => ⟨c, .refl c, hc⟩, fun hout => absurd hbelow hout⟩
    rw [if_neg (by simpa using hin hA k hk)]
    exact ⟨(), s, rfl⟩
  · exact (sure_boundsCheck hindex (val_int32 _).int).mono fun _ _ _ h _ => h

theorem Leads.checked {v : Value}
    (h : Leads c0 w0.fn.nextReg w w1 (Holds w1.fn.nextReg · v (.ofInt 64 x))) (hchecks : Checks env v len w1 w2)
    (hlen : Holds w0.fn.nextReg c0 len (.ofInt 32 n)) (hx : x < n) (hn : n < 2 ^ 31) (hle0 : w0 ≤ w)
    (hle1 : w ≤ w1) (hle2 : w1 ≤ w2) : Leads c0 w0.fn.nextReg w w2 (Holds w2.fn.nextReg · v (.ofInt 64 x)) := by
  intro f hf c hkeeps hc
  obtain ⟨d, hkeeps1, hd, hv⟩ := h f (hf.of_le hle2) c hkeeps hc
  have hlen' := hlen.keep (hkeeps.trans (hkeeps1.mono hle0.nextReg_le)).runs (le_trans hle0 hle1).nextReg_le
  have hxvalue : (Word.ofInt 64 (x : Int)).value = x := Word.value_ofInt (by decide) (by omega) (by omega)
  have hnvalue := toNat_length (lt_trans hn (by decide : 2 ^ 31 < 2 ^ 32))
  obtain ⟨e, hkeeps2, he⟩ := (hchecks P f d _ _ hf hd hv hlen' (by omega)).1 (by rw [hxvalue, hnvalue]; omega)
  exact ⟨e, hkeeps1.trans (hkeeps2.mono hle1.nextReg_le), he, hv.keep hkeeps2.runs hle2.nextReg_le⟩

/-- An index that is below a dimension. -/
def Below (dim : Option Nat) (index : Operand × Nat) : Prop := ∃ n, dim = some n ∧ index.2 < n ∧ n < 2 ^ 31

/-- The indices into the dimensions of a fixed array, each with the number that it yields. -/
theorem sure_fixedIndices {dims : List (Option Nat)} {indices : List (Operand × Nat)}
    (hsame : s0.Same s) (hle : w0 ≤ w) (h : ∀ o ∈ indices, Supplies A env o.1 s0 w0 c0 o.2)
    (hbelow : A → List.Forall₂ Below dims indices) :
    Sure A env (fixedIndices access dims (indices.map (·.1))) s w fun vs w' =>
      (∀ v ∈ vs, w'.IntVal v) ∧ (indices.length = dims.length → vs.length = dims.length) ∧
        (A → Leads c0 w0.fn.nextReg w w' fun d =>
          vs.mapM d.read? = some (indices.map fun o => .int (.ofInt 64 o.2))) := by
  induction dims generalizing indices s w with
  | nil =>
    refine .pure ⟨forall_mem_nil _, fun _ => rfl, fun hA _ _ c _ hc => ⟨c, .refl c, hc, ?_⟩⟩
    cases hbelow hA
    rfl
  | cons dim dims ih =>
    cases indices with
    | nil => exact .pure ⟨forall_mem_nil _, id, fun hA => by cases hbelow hA⟩
    | cons index indices =>
      refine (h _ mem_cons_self s w hsame hle).bind ?_
      rintro v s1 w1 hle1 hsame1 ⟨hv, hx⟩
      refine (sure_checkFixed hv.int fun hA k hk => ?_).bind ?_
      · obtain ⟨n, rfl, hlt, _⟩ := (forall₂_cons.mp (hbelow hA)).1
        rw [(hx hA).1 k hk]
        exact ⟨Int.natCast_nonneg _, Int.ofNat_lt.mpr hlt⟩
      intro _ s2 w2 hle2 hsame2 hchecks
      have hle12 := le_trans hle1 hle2
      refine (ih ((hsame.trans hsame1).trans hsame2) (le_trans hle hle12) (fun o ho => h o (mem_cons_of_mem _ ho))
        fun hA => ?_).bind ?_
      · exact (forall₂_cons.mp (hbelow hA)).2
      rintro vs s3 w3 hle3 _ ⟨hvs, hlength, hrest⟩
      refine .pure ⟨?_, fun h => congrArg (· + 1) (hlength (Nat.succ.inj h)), fun hA f hf c hkeeps hc => ?_⟩
      · intro u hu
        rcases mem_cons.mp hu with rfl | hu
        · exact (hv.int.mono hle2).mono hle3
        · exact hvs u hu
      obtain ⟨n, rfl, hlt, hn⟩ := (forall₂_cons.mp (hbelow hA)).1
      have hwide : n < 2 ^ 32 := by omega
      obtain ⟨d, hkeeps1, hd, hx⟩ := (hx hA).2.checked (hchecks hwide) (holds_int32 _ _ hwide) hlt hn hle hle1 hle2 f
        (hf.of_le hle3) c hkeeps hc
      obtain ⟨e, hkeeps2, he, hreads⟩ := hrest hA f hf d (hkeeps.trans (hkeeps1.mono hle.nextReg_le)) hd
      refine ⟨e, hkeeps1.trans (hkeeps2.mono hle12.nextReg_le), he, ?_⟩
      have hread := Point.int?_eq_some.mp (hx.keep hkeeps2.runs (le_refl _)).read
      simp [hread, hreads]

end Indices

/-- Of a buffer that is recorded with a number of bytes, the code between two sites makes a number. -/
def Measures (buffer v : Value) (w w' : Site H) (measure : Nat → Nat) : Prop :=
  ∀ (R : Runtime) (f : Function) (c : Point (ram R)) (a bytes : Nat), w'.Embeds f → c.At w → bytes < 2 ^ 31 →
    c.read? buffer = some (.cell a) → R.call? Primitive.gcGetSize.name [.cell a] c.memory =
      some (some (.int (.ofInt 64 bytes)), c.memory) → Makes f c w v w' (.ofInt 32 (measure bytes))

theorem emits_trackedSize (hbuffer : w.Val buffer .ptr) : Emits (trackedSize buffer) w fun v w' =>
    w'.Val v .i32 ∧ (H → Measures buffer v w w' id) := by
  refine (emits_callPrimitive (.cons hbuffer .nil)).with_run.bind ?_
  rintro size w1 hle1 ⟨hsize, hopen, hrun⟩
  refine (emits_intCast hsize.int rfl).with_run.mono ?_
  rintro v w2 hle2 ⟨hv, hopen1, hcast⟩
  refine ⟨hv, fun hH R f c a bytes hf hc _ ha hcall => ?_⟩
  obtain ⟨rfl, hemitted⟩ := callPrimitive_emitted hH hopen hrun
  obtain ⟨d, hruns, hd, hmemory, hread⟩ : ∃ d, f.Runs (fun _ => True) w.fn.nextReg c d ∧ d.At w1 ∧
      d.memory = c.memory ∧ d.regs w.fn.nextReg = some (.int (.ofInt 64 bytes)) :=
    hemitted.runs_result (hf.of_le hle2) hc trivial rfl rfl
      (perform?_of_exec? [.cell a] (by simp [Instr.operands, ha]) rfl hcall)
  have hkeeps : f.Keeps (fun _ => True) w.fn.nextReg c d := ⟨hruns, hmemory⟩
  obtain ⟨e, hkeeps', he, hmade⟩ := intCast_unsigned_holds hopen1 hv.1 hf hd hcast
    (holds_ofReg (x := .ofInt 64 bytes) hread (hsize.1.within _ rfl) (by decide : 0 < 64) (by decide : 64 ≤ 64))
    (by decide) (by decide)
  have hnarrow : (⟨32, (BitVec.ofInt 64 bytes).setWidth 32⟩ : Word) = .ofInt 32 bytes := by
    rw [Word.ofInt, BitVec.ofInt_natCast, BitVec.ofInt_natCast, BitVec.setWidth_ofNat_of_le (by decide)]
  exact ⟨e, hkeeps.trans (hkeeps'.mono hle1.nextReg_le), he, hnarrow ▸ hmade⟩

/-- The number of bytes that an element counts for. -/
def stride (b : Builder) (elem : Ty) : Nat := (max (b.module.sizeOf elem) 1).toNat

theorem stride_pos (b : Builder) (elem : Ty) : 0 < stride b elem := by
  change 0 < (if b.module.sizeOf elem ≤ 1 then 1 else b.module.sizeOf elem).toNat
  split
  · decide
  · next h =>
    rw [UInt64.le_iff_toNat_le] at h
    omega

theorem emits_heapCount (hbuffer : w.Val buffer .ptr) : Emits (heapCount buffer elem) w fun v w' => w'.Val v .i32 ∧
    (H → stride w.builder elem < 2 ^ 31 → Measures buffer v w w' (· / stride w.builder elem)) := by
  refine (emits_trackedSize hbuffer).bind ?_
  rintro bytes w1 hle1 ⟨hbytes, hmeasures⟩
  refine emits_get.bind ?_
  rintro _ _ _ ⟨rfl, rfl⟩
  refine (emits_arith hbytes (val_int32 _) (fun _ => rfl) rfl rfl).with_run.mono ?_
  rintro v w2 hle2 ⟨hv, hopen, hrun⟩
  refine ⟨hv, fun hH hstride R f c a size hf hc hsize ha hcall => ?_⟩
  obtain ⟨d, hkeeps, hd, (hholds : Holds _ d bytes (.ofInt 32 size))⟩ :=
    hmeasures hH R f c a size (hf.of_le hle2) hc hsize ha hcall
  rw [arith, hbytes.2 hH, sizeOf_eq hle1.frame.structs_eq] at hrun
  have hstep : (max (w.builder.module.sizeOf elem) 1).toInt64.toInt = stride w.builder elem :=
    BitVec.toInt_eq_toNat_of_lt (show 2 * stride w.builder elem < 2 ^ 64 by omega)
  have hpos := stride_pos w.builder elem
  have hstepHolds := holds_ofInt w1.fn.nextReg d (max (w.builder.module.sizeOf elem) 1).toInt64
    (by decide : 0 < 32) (by decide)
  rw [hstep] at hstepHolds
  have hvalue : ∀ n : Nat, n < 2 ^ 31 → (Word.ofInt 32 (n : Int)).value = n := fun n hn =>
    Word.value_ofInt (by decide) (by omega) (by omega)
  obtain ⟨e, hkeeps', he, hmade⟩ := binary_holds hopen hv.1 hf hd .div hrun rfl hholds hstepHolds rfl
    (.inl (by decide : 1 < 32)) (k := (size / stride w.builder elem : Nat)) (by
      rw [hvalue size hsize, hvalue _ hstride]
      simp [Evaluation.arithmetic?, Evaluation.divides]
      omega)
  exact ⟨e, hkeeps.trans (hkeeps'.mono hle1.nextReg_le), he, hmade⟩

theorem sure_checkExtent {A : Prop} {extent : Option Value} (hindex : w.IntVal index)
    (hextent : ∀ len, extent = some len → w.IntVal len) : Sure A env (checkExtent index extent) s w fun _ w' =>
      ∀ len, extent = some len → Checks env index len w w' := by
  unfold checkExtent
  split
  · refine (sure_boundsCheck hindex (hextent _ rfl)).mono fun _ w' _ h len hlen => ?_
    exact Option.some.inj hlen ▸ h
  · exact .pure nofun

/-! ### Places of elements -/

theorem elementTy?_nested (m : Module) (elem : Ty) {sizes : List Nat} {path : List Value}
    (h : path.length = sizes.length) : m.elementTy? (nestedTy elem sizes) path = some elem := by
  induction sizes generalizing path with
  | nil =>
    rw [length_eq_zero_iff.mp h]
    simp only [nestedTy, foldr_nil, Module.elementTy?]
  | cons size sizes ih =>
    cases path with
    | nil => cases h
    | cons index path =>
      exact ih (Nat.succ.inj h)

theorem emits_element (hbuffer : w.Val buffer .ptr) (hindex : w.IntVal index) :
    Emits (gep elem buffer [index]) w fun v w' => w'.Addr v elem := by
  refine (emits_gep hbuffer ?_ ?_).left
  · intro i hi
    exact mem_singleton.mp hi ▸ hindex
  · intro found hfound
    exact (Option.some.inj hfound).symm

theorem lowers_stringPlace {text : Value} (htext : w.Val text .ptr) (hindices : ∀ o ∈ indices, OperandOk H env o) :
    Lowers env (stringPlace text indices access span) s w fun p w' => PlaceOk w' p := by
  unfold stringPlace
  split
  · refine (sure_openIndex ((hindices _ mem_cons_self).supplies) (.refl s) (le_refl w)).toLowers.bind ?_
    rintro i s1 w1 hle1 _ ⟨hi, _⟩
    have htext := htext.mono hle1
    refine (Lowers.lift (emits_strlen htext)).bind ?_
    intro len s2 w2 hle2 _ hlen
    have hi := hi.mono hle2
    refine (lowers_boundsCheck hi.int hlen.int).bind ?_
    intro _ s3 w3 hle3 _ _
    refine (Lowers.lift (emits_element ((htext.mono hle2).mono hle3) (hi.mono hle3).int)).bind ?_
    intro ptr s4 w4 _ _ hptr
    exact .pure ⟨hptr, fun _ => rfl⟩
  · exact .fail

section Places

variable {A : Prop} {R : Runtime} {c : Point (ram R)}

/-- Where an element of a fixed array is follows from the numbers that its indices yield. -/
theorem sure_fixedPlace {shape : ArrayShape} (access : Access) {indices : List (Operand × Nat)}
    (hslot : SlotOk w slot) (hshape : slot.array = some shape) (hstack : shape.storage = .stack)
    (hrank : indices.length = shape.rank) (h : ∀ o ∈ indices, Supplies A env o.1 s w c o.2)
    (hbelow : A → List.Forall₂ Below shape.dims indices) :
    Sure A env (fixedPlace slot shape (indices.map (·.1)) access) s w fun p w' => PlaceOk w' p ∧ (A →
      ∀ a k, c.read? slot.ptr = some (.cell a) → Ram.offset? R.size (.array slot.ty 0)
        (.int (.ofInt 32 0) :: indices.map fun o => .int (.ofInt 64 o.2)) = some k →
        ∀ f, w'.Embeds f → c.At w → ∃ d, f.Keeps (fun _ => True) w.fn.nextReg c d ∧ d.At w' ∧
          d.read? p.ptr = some (.cell (a + k))) := by
  have hshaped := hslot.shaped shape hshape
  simp only [Slot.Shaped, hstack] at hshaped
  obtain ⟨sizes, hfixed, hty⟩ := hshaped
  refine (sure_fixedIndices (.refl s) (le_refl w) h hbelow).bind ?_
  rintro vs s1 w1 hle1 _ ⟨hvs, hlen, hleads⟩
  have hlen : vs.length = sizes.length := by
    rw [hlen hrank, hfixed]
    exact length_map _
  refine (Sure.lift_run (emits_gep (t := shape.elem) (hslot.addr.mono hle1).val ?_ ?_)).bind ?_
  · intro i hi
    rcases mem_cons.mp hi with rfl | hi
    · exact (val_int32 _).int
    · exact hvs i hi
  · intro found hfound
    rw [hty, drop_succ_cons, drop_zero, elementTy?_nested _ _ hlen] at hfound
    exact (Option.some.inj hfound).symm
  rintro ptr s2 w2 hle2 _ ⟨⟨hptr, _⟩, hopen1, hrun⟩
  refine .pure ⟨⟨hptr, nofun⟩, fun hA a k ha hoffset f hf hc => ?_⟩
  obtain ⟨d, hkeeps, hd, hreads⟩ := hleads hA f (hf.of_le hle2) c (.refl c) hc
  have hzero : d.read? (int32 0) = some (.int (.ofInt 32 0)) := rfl
  obtain ⟨e, hkeeps', he, hread⟩ := ram_gep hrun hopen1 hf hd
    ((hkeeps.runs.read?_eq hslot.addr.1.within).trans ha) (by simp [hzero, hreads]) hoffset
  exact ⟨e, hkeeps.trans (hkeeps'.mono hle1.nextReg_le), he, hread⟩

theorem lowers_heapPlace {index : Operand} (hslot : w.Val slot.ptr .ptr) (hindex : OperandOk H env index) :
    Lowers env (heapPlace slot elem index) s w fun p w' => PlaceOk w' p := by
  refine (Lowers.lift (emits_load hslot)).bind ?_
  rintro base s1 w1 hle1 hsame1 ⟨hbase, hbaseTy⟩
  have hbase : w1.Val base .ptr := ⟨hbase, fun _ => hbaseTy⟩
  refine (sure_openIndex (hindex.supplies) hsame1 hle1).toLowers.bind ?_
  rintro i s2 w2 hle2 _ ⟨hi, _⟩
  have hbase := hbase.mono hle2
  have hplace : ∀ s' w', w2 ≤ w' → Lowers env (do
        let ptr ← Build.gep elem base [i]
        return { ptr := ptr, ty := elem }) s' w' fun p w'' => PlaceOk w'' p := by
    intro s' w' hle
    refine (Lowers.lift (emits_element (hbase.mono hle) (hi.mono hle).int)).bind ?_
    intro ptr _ _ _ _ hptr
    exact .pure ⟨hptr, nofun⟩
  refine (Lowers.lift emits_isTracked).bind ?_
  rintro tracked s3 _ _ _ rfl
  refine .ite (fun _ => ?_) fun _ => hplace s3 w2 (le_refl w2)
  refine (Lowers.lift (emits_heapCount hbase)).bind ?_
  rintro count s4 w4 hle4 _ ⟨hcount, _⟩
  refine (lowers_boundsCheck (hi.mono hle4).int hcount.int).bind ?_
  intro _ s5 w5 hle5 _ _
  exact hplace s5 w5 (le_trans hle4 hle5)

theorem SlotOk.extent {e : Site.Effect} {w' : Site H} (h : SlotOk w slot) (hle : Grows e w w')
    (hlen : slot.extents[k]? = some len) : w'.IntVal len :=
  ((h.extents len (mem_of_getElem? hlen)).mono hle).int

theorem lowers_paramPlace {index : Operand} (hslot : SlotOk w slot) (hindex : OperandOk H env index) :
    Lowers env (paramPlace slot elem index) s w fun p w' => PlaceOk w' p := by
  refine (Lowers.lift (emits_load hslot.addr.val)).bind ?_
  rintro base s1 w1 hle1 hsame1 ⟨hbase, hbaseTy⟩
  have hbase : w1.Val base .ptr := ⟨hbase, fun _ => hbaseTy⟩
  refine (sure_openIndex (hindex.supplies) hsame1 hle1).toLowers.bind ?_
  rintro i s2 w2 hle2 _ ⟨hi, _⟩
  refine (sure_checkExtent (A := False) hi.int fun len => hslot.extent (le_trans hle1 hle2)).toLowers.bind ?_
  intro _ s3 w3 hle3 _ _
  refine (Lowers.lift (emits_element ((hbase.mono hle2).mono hle3) (hi.mono hle3).int)).bind ?_
  intro ptr _ _ _ _ hptr
  exact .pure ⟨hptr, nofun⟩

theorem value_index (hn : n < 2 ^ 31) : (Word.ofInt 64 (n : Int)).value = n :=
  Word.value_ofInt (by decide) (by omega) (by omega)

/-- The address of a row is loaded from a table, and from there the column is counted. -/
theorem sure_rowsPlace {row column : Operand} (elem : Ty) {i j : Nat} (hslot : SlotOk w slot)
    (hrow : Supplies A env row s w c i) (hcolumn : Supplies A env column s w c j) :
    Sure A env (rowsPlace slot elem row column) s w fun p w' => PlaceOk w' p ∧ (A →
      ∀ len1 len2 rows cols p' t base, slot.extents = [len1, len2] → rows < 2 ^ 31 → cols < 2 ^ 31 → i < rows →
        j < cols → Holds w.fn.nextReg c len1 (.ofInt 32 rows) → Holds w.fn.nextReg c len2 (.ofInt 32 cols) →
        c.read? slot.ptr = some (.cell p') → c.memory.load? p' (R.size .ptr) .ptr = some (.cell t) →
        c.memory.load? (t + i * R.size .ptr) (R.size .ptr) .ptr = some (.cell base) →
        ∀ f, w'.Embeds f → c.At w → ∃ d, f.Keeps (fun _ => True) w.fn.nextReg c d ∧ d.At w' ∧
          d.read? p.ptr = some (.cell (base + j * R.size elem))) := by
  refine (Sure.lift_run (emits_load hslot.addr.val)).bind ?_
  rintro table s1 w1 hle1 hsame1 ⟨⟨htable, htableTy⟩, hopen, hrun1⟩
  refine (sure_openIndex hrow hsame1 hle1).bind ?_
  rintro u s2 w2 hle2 hsame2 ⟨hu, hleads2⟩
  have hle02 := le_trans hle1 hle2
  refine (sure_checkExtent hu.int fun len => hslot.extent hle02).bind ?_
  intro _ s3 w3 hle3 hsame3 hchecks3
  have hle03 := le_trans hle02 hle3
  refine (sure_openIndex hcolumn ((hsame1.trans hsame2).trans hsame3) hle03).bind ?_
  rintro v s4 w4 hle4 _ ⟨hv, hleads4⟩
  refine (sure_checkExtent hv.int fun len => hslot.extent (le_trans hle03 hle4)).bind ?_
  intro _ s5 w5 hle5 _ hchecks5
  have hle25 : w2 ≤ w5 := le_trans (le_trans hle3 hle4) hle5
  have hle15 : w1 ≤ w5 := le_trans hle2 hle25
  have htable1 : w1.Val table .ptr := ⟨htable, fun _ => htableTy⟩
  refine (Sure.lift_run (emits_element (htable1.mono hle15) (hu.mono hle25).int)).bind ?_
  rintro entry s6 w6 hle6 _ ⟨hentry, hopen5, hrun6⟩
  refine (Sure.lift_run (emits_load hentry.val)).bind ?_
  rintro base s7 w7 hle7 _ ⟨⟨hbase, hbaseTy⟩, hopen6, hrun7⟩
  have hv7 := ((hv.mono hle5).mono hle6).mono hle7
  refine (Sure.lift_run (emits_element ⟨hbase, fun _ => hbaseTy⟩ hv7.int)).bind ?_
  rintro ptr s8 w8 hle8 _ ⟨hptr, hopen7, hrun8⟩
  refine .pure ⟨⟨hptr, nofun⟩, fun hA => ?_⟩
  intro len1 len2 rows cols p t b hextents hrows hcols hi hj hlen1 hlen2 hp ht hb f hf hc
  have hf7 := hf.of_le hle8
  have hf6 := hf7.of_le hle7
  have hf5 := hf6.of_le hle6
  have hf3 := (hf5.of_le hle5).of_le hle4
  -- The table is loaded, and both indices are checked.
  obtain ⟨c1, hkeeps1, hc1, hread1⟩ := ram_load hrun1 hopen ((hf3.of_le hle3).of_le hle2) hc hp ht
  obtain ⟨c3, hkeeps3, hc3, hu3⟩ := (hleads2 hA).checked (hchecks3 len1 (by rw [hextents]; rfl)) hlen1 hi hrows
    hle1 hle2 hle3 f hf3 c1 hkeeps1 hc1
  have hkeeps03 := hkeeps1.trans (hkeeps3.mono hle1.nextReg_le)
  obtain ⟨c5, hkeeps5, hc5, hv5⟩ := (hleads4 hA).checked (hchecks5 len2 (by rw [hextents]; rfl)) hlen2 hj hcols
    hle03 hle4 hle5 f hf5 c3 hkeeps03 hc3
  have hkeeps05 := hkeeps03.trans (hkeeps5.mono hle03.nextReg_le)
  -- From the table the row is loaded, and from there the column is counted.
  have hu5 := hu3.keep hkeeps5.runs (le_trans hle4 hle5).nextReg_le
  have htable5 := (hkeeps3.trans (hkeeps5.mono (le_trans hle2 hle3).nextReg_le)).runs.read?_eq htable.within
  have hoffset6 : Ram.offset? R.size (.array .ptr 0) [.int (.ofInt 64 i)] = some (i * R.size .ptr) := by
    simp [Ram.offset?, value_index (lt_trans hi hrows)]
  obtain ⟨c6, hkeeps6, hc6, hread6⟩ := ram_gep hrun6 hopen5 hf6 hc5 (htable5.trans hread1)
    (by simp [Point.int?_eq_some.mp hu5.read]) hoffset6
  have hle05 := le_trans hle1 hle15
  have hkeeps06 := hkeeps05.trans (hkeeps6.mono hle05.nextReg_le)
  obtain ⟨c7, hkeeps7, hc7, hread7⟩ := ram_load hrun7 hopen6 hf7 hc6 hread6 (hkeeps06.memory_eq.symm ▸ hb)
  have hv7 := (hv5.keep hkeeps6.runs hle6.nextReg_le).keep hkeeps7.runs hle7.nextReg_le
  have hoffset8 : Ram.offset? R.size (.array elem 0) [.int (.ofInt 64 j)] = some (j * R.size elem) := by
    simp [Ram.offset?, value_index (lt_trans hj hcols)]
  obtain ⟨d, hkeeps8, hd, hread⟩ := ram_gep hrun8 hopen7 hf hc7 hread7
    (by simp [Point.int?_eq_some.mp hv7.read]) hoffset8
  have hkeeps58 := hkeeps7.trans (hkeeps8.mono hle7.nextReg_le)
  exact ⟨d, hkeeps06.trans (hkeeps58.mono (le_trans hle05 hle6).nextReg_le), hd, hread⟩

end Places

theorem lowers_elementPlace {name : String} (hslot : SlotOk w slot) (hindices : ∀ o ∈ indices, OperandOk H env o) :
    Lowers env (elementPlace name slot indices access span) s w fun p w' => PlaceOk w' p := by
  have hfixed : ∀ shape, slot.array = some shape → shape.storage = .stack → indices.length = shape.rank →
      Lowers env (fixedPlace slot shape indices access) s w fun p w' => PlaceOk w' p := by
    intro shape hshape hstack hrank
    have hsupplies : ∀ o ∈ indices.map fun o => (o, (0 : Nat)), Supplies False env o.1 s w nowhere o.2 :=
      forall_mem_map.mpr fun o ho => (hindices o ho).supplies
    have hplace := (sure_fixedPlace access hslot hshape hstack ((length_map _).trans hrank)
      hsupplies False.elim).toLowers
    rw [map_map, show (fun o => o.1) ∘ (fun o => (o, 0)) = id from rfl, map_id] at hplace
    exact hplace.mono fun _ _ _ h => h.1
  unfold elementPlace
  split
  · refine .ite (fun _ => ?_) fun _ => .fail
    refine (Lowers.lift (emits_load hslot.addr.val)).bind ?_
    rintro text s1 w1 _ _ ⟨htext, htextTy⟩
    exact lowers_stringPlace ⟨htext, fun _ => htextTy⟩ hindices
  · next shape hshape =>
    split
    · exact .fail
    · next hrank =>
      split
      · next hstack =>
        exact hfixed shape hshape hstack (not_not.mp hrank)
      · exact lowers_heapPlace hslot.addr.val (hindices _ mem_cons_self)
      · exact lowers_paramPlace hslot (hindices _ mem_cons_self)
      · refine (sure_rowsPlace _ hslot ((hindices _ mem_cons_self).supplies)
          ((hindices _ (mem_cons_of_mem _ mem_cons_self)).supplies)).toLowers.mono ?_
        exact fun _ _ _ h => h.1
      · exact .fail

theorem lowers_loadElement {base : Operand} (hbase : OperandOk H env base)
    (hindices : ∀ o ∈ indices, OperandOk H env o) :
    Lowers env (loadElement base indices span) s w fun v w' => w'.Has v := by
  have hload : ∀ p s' (w' : Site H), PlaceOk w' p →
      Lowers env (liftM (Build.load p.ty p.ptr)) s' w' fun v w'' => w''.Has v := by
    intro p s' w' hp
    exact .lift (emits_load hp.1.val).left
  unfold loadElement
  split
  · refine lowers_lookup.bind ?_
    intro slot s1 w1 _ _ hslot
    refine (lowers_elementPlace hslot hindices).bind ?_
    exact fun p s2 w2 _ _ hp => hload p s2 w2 hp
  · refine (hbase s w).bind ?_
    intro v s1 w1 _ _ hv
    refine .ite (fun hptr => ?_) fun _ => ?_
    swap
    · exact (Lowers.fail).bind fun p s2 w2 _ _ hp => hload p s2 w2 hp
    refine (lowers_stringPlace ⟨hv, fun _ => isPtr_iff.mp hptr⟩ hindices).bind ?_
    exact fun p s2 w2 _ _ hp => hload p s2 w2 hp

end Aero.Lowering
