import Aero.Proofs.Control
import Aero.Proofs.Element

/-!
Tables of rows. A matrix is passed as a table with the addresses of its rows, which a loop fills. The loop
ends, and writes nothing but the entries of the table and its own counter.
-/

namespace Aero.Lowering

open IR IR.Build IR.Site List

variable {H : Prop} {w : Site H} {slot : Slot} {counter table i : Value} {rows cols : Nat}

/-- A turn of the loop that fills a table: the entry that the counter says is set to the address of its
row, and the counter goes on. -/
def SetsRow (slot : Slot) (table counter i : Value) (w w' : Site H) : Prop :=
  ∀ (R : Runtime) (f : Function) (c : Point (ram R)) (a t k n : Nat) (row elem : Ty) (rows cols : Nat),
    w'.Embeds f → c.At w →
    slot.ty = .array row rows → row = .array elem cols → c.read? slot.ptr = some (.cell a) →
    c.read? table = some (.cell t) → c.read? counter = some (.cell k) →
    Holds w.fn.nextReg c i (.ofInt 32 n) → n < 2 ^ 31 →
    (∀ b < R.size .ptr, (c.memory.byte (t + n * R.size .ptr + b)).isSome) →
    (∀ b < R.size .i32, (c.memory.byte (k + b)).isSome) →
    ∃ d, f.Runs (fun _ => True) w.fn.nextReg c d ∧ d.At w' ∧
      d.memory = (c.memory.fill (t + n * R.size .ptr) (R.size .ptr) (.cell (a + n * R.size row)) .ptr).fill k
        (R.size .i32) (.int (.ofInt 32 (n + 1))) .i32

theorem emits_setRow (hslot : w.Val slot.ptr .ptr)
    (htable : w.Val table .ptr) (hcounter : w.Addr counter .i32) (hi : w.Val i .i32) :
    Emits (setRow slot table counter i) w fun _ w' => SetsRow slot table counter i w w' := by
  have hindices : ∀ v ∈ [int32 0, i, int32 0], w.IntVal v := by
    intro v hv
    simp only [mem_cons, not_mem_nil, or_false] at hv
    rcases hv with rfl | rfl | rfl
    · exact (val_int32 0).int
    · exact hi.int
    · exact (val_int32 0).int
  -- What a row points at does not matter, so its type is whatever the path leads to.
  refine (emits_gep (t := (w.builder.module.elementTy? slot.ty [i, int32 0]).getD .void) hslot
    hindices fun found hfound => ?_).with_run.bind ?_
  · change w.builder.module.elementTy? slot.ty [i, int32 0] = some found at hfound
    rw [hfound]
    rfl
  rintro row w1 hle1 ⟨⟨hrow, hrowTy⟩, hopen, hrun1⟩
  have hi1 := hi.mono hle1
  refine (emits_element (htable.mono hle1) hi1.int).with_run.bind ?_
  rintro entry w2 hle2 ⟨hentry, hopen1, hrun2⟩
  refine (emits_store (hrow.val.mono hle2) hentry).with_run.bind ?_
  rintro _ w3 hle3 ⟨_, hopen2, hrun3⟩
  have hle13 := le_trans hle2 hle3
  refine (emits_arith (hi1.mono hle13) (val_int32 1) (fun _ => rfl) rfl rfl).with_run.bind ?_
  rintro next w4 hle4 ⟨hnext, hopen3, hrun4⟩
  have hcounter4 := (hcounter.mono (le_trans hle1 hle13)).mono hle4
  refine (emits_store hnext hcounter4).with_run.mono ?_
  rintro _ w5 hle5 ⟨_, hopen4, hrun5⟩
  intro R f c a t k n rowTy elem rows cols hf hc hty hrowTy' ha ht hk hn hlt hentries hcount
  subst hrowTy'
  have hf4 := hf.of_le hle5
  have hf3 := hf4.of_le hle4
  have hf2 := hf3.of_le hle3
  have hvalue : (Word.ofInt 32 (n : Int)).value = n := Word.value_ofInt (by decide) (by omega) (by omega)
  -- The address of the row.
  have hread := Point.int?_eq_some.mp hn.read
  have hpath : [int32 0, i, int32 0].mapM c.read? =
      some [.int (.ofInt 32 0), .int (.ofInt 32 n), .int (.ofInt 32 0)] := by
    have hzero : c.read? (int32 0) = some (.int (.ofInt 32 0)) := rfl
    simp [hread, hzero]
  have hzero : (Word.ofInt 32 0).value = 0 := rfl
  have hoffset : Ram.offset? R.size (.array slot.ty 0)
      [.int (.ofInt 32 0), .int (.ofInt 32 n), .int (.ofInt 32 0)] = some (n * R.size (.array elem cols)) := by
    rw [hty]
    simp [Ram.offset?, hvalue, hzero]
  obtain ⟨c1, hkeeps1, hc1, hrow1⟩ := ram_gep hrun1 hopen (hf2.of_le hle2) hc ha hpath hoffset
  -- The address of the entry.
  have hn1 := hn.keep hkeeps1.runs hle1.nextReg_le
  have hoffset2 : Ram.offset? R.size (.array .ptr 0) [.int (.ofInt 32 n)] = some (n * R.size .ptr) := by
    simp [Ram.offset?, hvalue]
  obtain ⟨c2, hkeeps2, hc2, hentry2⟩ := ram_gep hrun2 hopen1 hf2 hc1
    ((hkeeps1.runs.read?_eq htable.1.within).trans ht) (by simp [Point.int?_eq_some.mp hn1.read]) hoffset2
  have hkeeps := hkeeps1.trans (hkeeps2.mono hle1.nextReg_le)
  obtain ⟨c3, hruns3, hc3, hmemory3⟩ := ram_store hrun3 hopen2 hf3 hc2 hentry2
    ((hkeeps2.runs.read?_eq hrow.1.within).trans hrow1) (by rwa [hrowTy, hkeeps.memory_eq])
  -- The counter.
  have hadd : arith .fadd .add i (int32 1) = binary .add i (int32 1) := by
    rw [arith, hn.ty_eq]
    rfl
  rw [hadd] at hrun4
  have hn3 := (hn1.keep hkeeps2.runs hle2.nextReg_le).keep hruns3 hle3.nextReg_le
  obtain ⟨c4, hkeeps4, hc4, hnext4⟩ := binary_holds hopen3 hnext.1 hf4 hc3 .add hrun4 rfl hn3
    (holds_ofInt _ c3 1 (by decide : 0 < 32) (by decide)) rfl (.inl (show 1 < 32 by decide)) rfl
  have hnextTy : next.ty = .i32 := hnext4.ty_eq
  have hruns := hkeeps.runs.trans ((hruns3.trans (hkeeps4.runs.mono hle3.nextReg_le)).mono
    (le_trans hle1 hle2).nextReg_le)
  obtain ⟨d, hruns5, hd, hmemory5⟩ := ram_store hrun5 hopen4 hf hc4
    ((hruns.read?_eq hcounter.1.within).trans hk) (Point.int?_eq_some.mp hnext4.read) (by
      intro b hb
      rw [hkeeps4.memory_eq, hmemory3, hkeeps.memory_eq]
      exact Ram.isSome_fill (hcount b (hnextTy ▸ hb)))
  refine ⟨d, hruns.trans (hruns5.mono (le_trans (le_trans hle1 hle13) hle4).nextReg_le), hd, ?_⟩
  rw [hmemory5, hkeeps4.memory_eq, hmemory3, hkeeps.memory_eq, hrowTy, hnextTy, hvalue]
  rfl

/-- The loop that fills a table, in a function. The counter is compared in the header, and the body sets
the entry that it says. -/
structure FillsRows (slot : Slot) (table counter : Value) (rows : Nat) (f : Function)
    (header tested guardEnd start bodyEnd : Site H) (i more : Value) (exit : BlockId) : Prop where
  branching : Branching f header guardEnd (some more) start bodyEnd exit header.block.id
  isOpen : header.Open ∧ tested.Open ∧ bodyEnd.Open
  load_eq : load .i32 counter header.builder = (i, tested.builder)
  tested_le : header ≤ tested ∧ tested ≤ guardEnd
  icmp_eq : icmp .slt i (int32 (Int64.ofNat rows)) tested.builder = (more, guardEnd.builder)
  more_has : guardEnd.Has more
  sets : SetsRow slot table counter i start bodyEnd

/-- The loop that fills a table. The counter's value is loaded in the header and used in the
body. -/
theorem emits_fillRows (hslot : w.Val slot.ptr .ptr) (htable : w.Val table .ptr) (hcounter : w.Addr counter .i32) :
    Emits (fillRows slot table counter rows) w fun _ w' => w'.block.instrs = [] ∧
      ∀ f, w'.Embeds f → ∃ (header tested guardEnd start bodyEnd : Site H) (i more : Value),
        FillsRows slot table counter rows f header tested guardEnd start bodyEnd i more w'.block.id ∧
        f.block? w.block.id = some (w.block.close (.br header.block.id)) ∧ w.fn.nextReg = header.fn.nextReg := by
  refine Reaches.emits fun hopen => ?_
  let start := w.fn.nextBlock
  let e := Effect.plain.inside start fun id => id = start ∨ id = start + 1 ∨ id = start + 2
  let inBody : Reg → Prop := fun r => w.Out r ∨ r = w.fn.nextReg
  refine (reaches_append (isStem_of_getLast rfl rfl) w.Out).bind ?_
  intro header w1 happ1
  refine (reaches_append (isStem_of_getLast rfl rfl) inBody).bind ?_
  intro body w2 happ2
  refine (reaches_append (isStem_of_getLast rfl rfl) w.Out).bind ?_
  intro exit w3 happ3
  have hheaderId : start = header := happ1.id_eq
  have hbodyId : start + 1 = body := happ1.nextBlock_eq.symm.trans happ2.id_eq
  have hexitId : start + 2 = exit := by
    have := happ3.id_eq
    rw [happ2.nextBlock_eq, happ1.nextBlock_eq] at this
    exact this
  have hg1 : Grows e w w1 := happ1.grows e (.inl hheaderId.symm)
  have hg2 : Grows e w1 w2 := happ2.grows e (.inr (.inl hbodyId.symm))
  have hg3 : Grows e w2 w3 := happ3.grows e (.inr (.inr hexitId.symm))
  have hg := (hg1.trans hg2).trans hg3
  have hheader := hg3.pending_stays (hg2.pending_stays happ1.pending)
  have hbody := hg3.pending_stays happ2.pending
  have hopen3 : w3.Open := by
    rw [Open, happ3.block_eq, happ2.block_eq, happ1.block_eq]
    exact hopen
  refine (reaches_finish (ends_br hopen3 (hheader.canEnter hg.out))).bind ?_
  intro _ w4 hfin4
  have hg4 : Grows e w3 w4 := hfin4.inside
    (fun id hid => le_of_eq (hheaderId.trans (mem_singleton.mp hid).symm))
  refine (reaches_position (hg4.pending_stays hheader)).bind ?_
  intro _ w5 hmov5
  have hin5 := hmov5.grows e w (fun id => id = body ∨ id = exit) (hg.trans hg4)
    (le_of_eq hheaderId) (fun _ hr => hr) (fun _ => hfin4.terminated)
    (fun id hid => hid.imp (·.trans hheaderId) (.imp (·.trans hbodyId) (·.trans hexitId)))
  have hreg : w5.fn.nextReg = w.fn.nextReg := by
    rw [hmov5.fn_eq, hfin4.nextReg_eq, happ3.nextReg_eq, happ2.nextReg_eq, happ1.nextReg_eq]
  have hne : body ≠ header ∧ exit ≠ header ∧ exit ≠ body := by
    rw [← hheaderId, ← hbodyId, ← hexitId]
    exact ⟨by simp, by simp, by simp⟩
  have hbody5 := hmov5.others body _ hne.1 (hg4.pending_stays hbody)
  have hexit5 := hmov5.others exit _ hne.2.1 (hg4.pending_stays happ3.pending)
  refine (reaches_load hmov5.isOpen (hcounter.val.mono hin5)).with_run.bind ?_
  rintro _ w6 ⟨⟨rfl, hle6, hopen6, hwrote⟩, hload⟩
  rw [hreg] at hwrote hload ⊢
  have hi6 : w6.Val (.ofReg w.fn.nextReg .i32) .i32 :=
    ⟨fun r hr => Option.some.inj hr ▸ hwrote, fun _ => rfl⟩
  refine (Reaches.of_emits (emits_icmp hi6.1 (val_int32 _).1 fun _ => ⟨rfl, .inl rfl⟩).with_run hopen6).bind ?_
  rintro more w7 ⟨hle7, hopen7, hmore, _, hicmp⟩
  have hle57 : w5 ≤ w7 := le_trans hle6 hle7
  have hin7 := hin5.trans (.of_le hle57)
  have hbody7 := hle57.pending_stays hbody5
  have hexit7 := hle57.pending_stays hexit5
  have hinBody : ∀ r, inBody r → w7.Out r := by
    rintro r (hr | rfl)
    · exact hin7.out r hr
    · exact hle7.out _ hwrote
  refine (reaches_finish (ends_condBr hopen7 hmore (hbody7.canEnter hinBody) (hexit7.canEnter hin7.out))).bind ?_
  intro _ w8 hfin8
  have hg8 : Grows (Effect.plain.inside start fun id => id = body ∨ id = exit) w7 w8 := by
    refine hfin8.inside (fun id hid => ?_)
    rcases mem_cons.mp hid with rfl | hid
    · exact hbodyId ▸ Nat.le_add_right ..
    · exact mem_singleton.mp hid ▸ hexitId ▸ Nat.le_add_right ..
  refine (reaches_position (hg8.pending_stays hbody7)).bind ?_
  intro _ w9 hmov9
  have hin9 := hmov9.grows _ w (· = exit) (hin7.trans hg8) (hbodyId ▸ Nat.le_add_right ..)
    (fun _ hr => .inl hr) (fun _ => hfin8.terminated) fun _ h => h
  have hexit9 := hmov9.others exit _ hne.2.2 (hg8.pending_stays hexit7)
  have hi9 : w9.Val (.ofReg w.fn.nextReg .i32) .i32 := by
    refine ⟨fun r hr => Option.some.inj hr ▸ hmov9.out _ ?_ (.inr rfl), fun _ => rfl⟩
    exact (hg8.out _ (hinBody _ (.inr rfl))).1
  refine (Reaches.of_emits (emits_setRow (hslot.mono hin9) (htable.mono hin9)
    (hcounter.mono hin9) hi9) hmov9.isOpen).bind ?_
  rintro _ w10 ⟨hle10, hopen10, hsets⟩
  have hin10 := hin9.trans (.of_le hle10)
  have hasks : w10.Asks header w.Out :=
    ((hmov9.asks (((hmov5.asks (hheader.asks.mono hg4)).mono hle57).mono hg8))).mono hle10
  refine (reaches_finish (ends_br hopen10 (hasks.canEnter hin10.out))).bind ?_
  intro _ w11 hfin11
  have hg11 : Grows (Effect.plain.inside start (· = exit)) w10 w11 := hfin11.inside
    (fun id hid => le_of_eq (hheaderId.trans (mem_singleton.mp hid).symm))
  refine (reaches_position (hg11.pending_stays (hle10.pending_stays hexit9))).mono ?_
  intro _ w12 hmov12
  have hin12 := hmov12.grows _ w (fun _ => False) (hin10.trans hg11) (hexitId ▸ Nat.le_add_right ..)
    (fun _ hr => hr) (fun _ => hfin11.terminated) fun _ h => .inl h
  refine ⟨hin12.leave, hmov12.isOpen, hmov12.isEmpty, fun f hf => ?_⟩
  have hf11 := hf.of_movedTo hmov12 hfin11.terminated
  have hf10 := hf11.of_finished hfin11
  have hf8 := (hf10.of_le hle10).of_movedTo hmov9 hfin8.terminated
  have hf7 := hf8.of_finished hfin8
  have hf4 := (hf7.of_le hle57).of_movedTo hmov5 hfin4.terminated
  refine ⟨w5, w6, w7, w9, w10, _, more, ⟨?_, ⟨hmov5.isOpen, hopen6, hopen10⟩, hload, ⟨hle6, hle7⟩,
    hicmp, hmore.1, hsets⟩, ?_, hreg.symm⟩
  · refine ⟨hmov5.isEmpty, hle57, hf7, ?_, hmov9.isOpen, hmov9.isEmpty, ?_, hle10.nextReg_le, hf10, fun _ => ?_⟩
    · rw [hmov9.block_id, hmov12.block_id]
      exact hf8.closed (hfin8.block_eq ▸ w8.block_mem)
    · rw [hmov9.fn_eq, hfin8.nextReg_eq]
    · rw [hmov5.block_id]
      exact hf11.closed (hfin11.block_eq ▸ w11.block_mem)
  · rw [hmov5.block_id, ← happ1.block_eq, ← happ2.block_eq, ← happ3.block_eq]
    exact hf4.closed (hfin4.block_eq ▸ w4.block_mem)

/-! ### Runs of the loop -/

/-- Memory in which some entries of a table are set to addresses that are `stride` apart, and the counter
says how many. All that belongs neither to the table nor to the counter is as it was. -/
structure Filled (before : Ram) (t k a stride rows n : Nat) (m : Ram) : Prop where
  entries : ∀ i < n, m.load? (t + i * 8) 8 .ptr = some (.cell (a + i * stride))
  count : m.load? k 4 .i32 = some (.int (.ofInt 32 n))
  used : ∀ b, t ≤ b → b < t + rows * 8 → (m.byte b).isSome
  frame : ∀ b, ¬ (t ≤ b ∧ b < t + rows * 8) → ¬ (k ≤ b ∧ b < k + 4) → m.byte b = before.byte b

theorem Filled.next {before m : Ram} {t k a stride n : Nat} (h : Filled before t k a stride rows n m)
    (hn : n < rows) (hdisjoint : t + rows * 8 ≤ k ∨ k + 4 ≤ t) : Filled before t k a stride rows (n + 1)
      ((m.fill (t + n * 8) 8 (.cell (a + n * stride)) .ptr).fill k 4 (.int (.ofInt 32 (n + 1))) .i32) where
  entries := by
    intro i hi
    rw [Ram.load?_fill_of_disjoint (by decide) (by omega)]
    by_cases heq : i = n
    · subst heq
      exact Ram.load?_fill_self (by decide)
    · rw [Ram.load?_fill_of_disjoint (by decide) (by omega)]
      exact h.entries i (by omega)
  count := Ram.load?_fill_self (by decide)
  used := fun b hlow hhigh => Ram.isSome_fill (Ram.isSome_fill (h.used b hlow hhigh))
  frame := by
    intro b htable hcounter
    rw [Ram.fill_byte_of_not_mem hcounter, Ram.fill_byte_of_not_mem (by omega)]
    exact h.frame b htable hcounter

section Runs

variable {R : Runtime} {f : Function} {header tested guardEnd start bodyEnd : Site H} {more : Value} {exit : BlockId}
  {c : Point (ram R)} {before : Ram} {t k a n : Nat}

/-- At the header the counter is compared with the number of rows. -/
theorem FillsRows.tests (h : FillsRows slot table counter rows f header tested guardEnd start bodyEnd i more exit)
    (hserves : R.Serves) (hrows : rows < 2 ^ 31) (hn : n ≤ rows) (hc : c.At header)
    (hk : c.read? counter = some (.cell k)) (hcount : c.memory.load? k 4 .i32 = some (.int (.ofInt 32 n))) :
    ∃ d, f.Keeps (fun _ => True) header.fn.nextReg c d ∧
      d.block = (if n < rows then start.block.id else exit) ∧ d.done = 0 ∧
      Holds guardEnd.fn.nextReg d i (.ofInt 32 n) := by
  have hvalue : ∀ m : Nat, m < 2 ^ 31 → (Word.ofInt 32 (m : Int)).value = m := fun m hm =>
    Word.value_ofInt (by decide) (by omega) (by omega)
  have hlen : (Int64.ofNat rows).toInt = rows := by
    rw [Int64.toInt_ofNat_of_lt (by omega)]
  have hguard := h.branching.guard_embeds
  obtain ⟨c1, hkeeps1, hc1, hholds⟩ := ram_load_holds (x := .ofInt 32 n) h.load_eq h.isOpen.1
    (hguard.of_le h.tested_le.2) hc hk (hserves.i32.symm ▸ hcount) (by decide : 0 < 32) (by decide : 32 ≤ 64)
  obtain ⟨c2, hkeeps2, hc2, hmore⟩ := icmp_holds h.isOpen.2.1 h.more_has hguard hc1 .lt h.icmp_eq hholds
    (holds_ofInt _ c1 _ (by decide : 0 < 32) (by decide)) rfl (show 1 < 32 by decide)
    (b := decide (n < rows)) (by simp [Evaluation.comparison?, hlen, hvalue n (by omega), hvalue rows hrows])
  have hexec : (fork (some more) start.block.id exit).exec? c2 =
      some (.running (c2.jump (if n < rows then start.block.id else exit))) := by
    simp only [fork, Terminator.exec?, hmore.read]
    by_cases hlt : n < rows <;> simp
  have hjump := Function.Runs.jump (fun _ => True) tested.fn.nextReg h.branching.forks hc2.block_eq hc2.done_eq hexec
  have hkeeps := hkeeps2.trans ⟨hjump, rfl⟩
  exact ⟨_, hkeeps1.trans (hkeeps.mono h.tested_le.1.nextReg_le), rfl, rfl,
    hholds.keep hkeeps.runs h.tested_le.2.nextReg_le⟩

/-- From the header on, the loop sets the entries that are left, and ends. -/
theorem FillsRows.runs (h : FillsRows slot table counter rows f header tested guardEnd start bodyEnd i more exit)
    (hserves : R.Serves) (hrows : rows < 2 ^ 31) {elem : Ty} (hty : slot.ty = .array (.array elem cols) rows)
    (hwithin : ∀ v ∈ [slot.ptr, table, counter], v.Within (· < header.fn.nextReg))
    (hdisjoint : t + rows * 8 ≤ k ∨ k + 4 ≤ t) (left : Nat) : ∀ n (c : Point (ram R)), n + left = rows → c.At header →
      c.read? slot.ptr = some (.cell a) → c.read? table = some (.cell t) →
      c.read? counter = some (.cell k) → Filled before t k a (R.size (.array elem cols)) rows n c.memory →
      ∃ d, f.Runs (fun _ => True) header.fn.nextReg c d ∧ d.block = exit ∧ d.done = 0 ∧
        Filled before t k a (R.size (.array elem cols)) rows rows d.memory := by
  induction left with
  | zero =>
    intro n c hn hc ha ht hk hfilled
    obtain ⟨d, hkeeps, hblock, hdone, _⟩ := h.tests hserves hrows (by omega) hc hk hfilled.count
    rw [if_neg (by omega)] at hblock
    obtain rfl : n = rows := hn
    exact ⟨d, hkeeps.runs, hblock, hdone, hkeeps.memory_eq.symm ▸ hfilled⟩
  | succ left ih =>
    intro n c hn hc ha ht hk hfilled
    obtain ⟨d, hkeeps, hblock, hdone, hi⟩ := h.tests hserves hrows (by omega) hc hk hfilled.count
    rw [if_pos (by omega)] at hblock
    have hread : ∀ v ∈ [slot.ptr, table, counter], d.read? v = c.read? v :=
      fun v hv => hkeeps.runs.read?_eq (hwithin v hv)
    have hstart : d.At start := by
      refine ⟨hblock, ?_⟩
      rw [hdone, h.branching.body_isEmpty]
      rfl
    have hfilled' : Filled before t k a (R.size (.array elem cols)) rows n d.memory :=
      hkeeps.memory_eq.symm ▸ hfilled
    obtain ⟨e, hruns, he, hmemory⟩ := h.sets R f d a t k n _ elem rows cols h.branching.body_embeds
      hstart hty rfl ((hread _ (by simp)).trans ha) ((hread _ (by simp)).trans ht)
      ((hread _ (by simp)).trans hk) (h.branching.body_nextReg_eq ▸ hi) (by omega)
      (by rw [hserves.ptr]; exact fun b hb => hfilled'.used _ (by omega) (by omega))
      (by rw [hserves.i32]; exact fun b hb => Ram.isSome_of_load? hfilled'.count hb)
    rw [hserves.ptr, hserves.i32] at hmemory
    have hjump := Function.Runs.jump (fun _ => True) header.fn.nextReg (h.branching.goesOn h.isOpen.2.2)
      he.block_eq he.done_eq (show Terminator.exec? (.br header.block.id) e = _ from rfl)
    have hle : header.fn.nextReg ≤ start.fn.nextReg :=
      h.branching.body_nextReg_eq ▸ h.branching.guard_le.nextReg_le
    have hturn := hkeeps.runs.trans ((hruns.mono hle).trans hjump)
    have hread' : ∀ v ∈ [slot.ptr, table, counter], (e.jump header.block.id).read? v = c.read? v :=
      fun v hv => hturn.read?_eq (hwithin v hv)
    obtain ⟨d', hruns', hend⟩ := ih (n + 1) (e.jump header.block.id) (by omega)
      ⟨rfl, (congrArg List.length h.branching.isEmpty).symm⟩ ((hread' _ (by simp)).trans ha)
      ((hread' _ (by simp)).trans ht) ((hread' _ (by simp)).trans hk)
      (show Filled _ _ _ _ _ _ _ e.memory from hmemory.symm ▸ hfilled'.next (by omega) hdisjoint)
    exact ⟨d', hturn.trans hruns', hend⟩

end Runs

/-! ### Tables -/

/-- What is given out apart from bytes that are in use is disjoint from them. -/
theorem disjoint_of_free {m : Ram} {t n a k : Nat} (hn : 0 < n) (hk : 0 < k)
    (hused : ∀ b < n, (m.byte (t + b)).isSome) (hfree : ∀ b < k, m.byte (a + b) = none) :
    t + n ≤ a ∨ a + k ≤ t := by
  by_contra hmeet
  -- The later of the two starts belongs to both.
  have hin := hused (max t a - t) (by omega)
  have hnone := hfree (max t a - a) (by omega)
  rw [show a + (max t a - a) = t + (max t a - t) by omega] at hnone
  rw [hnone] at hin
  cases hin

/-- The code between two sites makes a table of the rows of a matrix, and uses a counter for it. Nothing that
was in use before is written. -/
def MakesTable (slot : Slot) (rows : Nat) (v : Value) (w w' : Site H) : Prop :=
  ∀ (R : Runtime) (f : Function) (c : Point (ram R)) (a : Nat) (elem : Ty) (cols : Nat), R.Serves → 0 < rows →
    rows < 2 ^ 31 → slot.ty = .array (.array elem cols) rows → w'.Embeds f → c.At w →
    c.read? slot.ptr = some (.cell a) →
    ∃ d t k, f.Runs (fun _ => True) w.fn.nextReg c d ∧ d.At w' ∧ d.read? v = some (.cell t) ∧
      (∀ b < rows * 8, c.memory.byte (t + b) = none) ∧ (∀ b < 4, c.memory.byte (k + b) = none) ∧
      Filled c.memory t k a (R.size (.array elem cols)) rows rows d.memory

theorem emits_rowTable (rows : Nat) (hslot : w.Val slot.ptr .ptr) :
    Emits (rowTable slot rows) w fun v w' => w'.Val v .ptr ∧ (H → MakesTable slot rows v w w') := by
  refine emits_trackedMalloc_takes.bind ?_
  rintro table w1 hle1 ⟨htable, htakes⟩
  have htable : w1.Val table .ptr := (htable .ptr).val
  refine emits_alloca.with_run.bind ?_
  rintro counter w2 hle2 ⟨hcounter, hopen1, hrun2⟩
  refine (emits_store (val_int32 0) hcounter).with_run.bind ?_
  rintro _ w3 hle3 ⟨_, hopen2, hrun3⟩
  have htable3 := (htable.mono hle2).mono hle3
  have hslot3 := ((hslot.mono hle1).mono hle2).mono hle3
  refine (emits_fillRows hslot3 htable3 (hcounter.mono hle3)).bind ?_
  rintro _ w4 hle4 ⟨hempty, hloop⟩
  refine .pure ⟨htable3.mono hle4, fun hH => ?_⟩
  intro R f c a elem cols hserves hpos hrows hty hf hc ha
  have hbytes : (Word.ofInt 64 (Int64.ofNat (rows * 8)).toInt).bits.toNat = rows * 8 := by
    rw [Int64.toInt_ofNat_of_lt (by omega)]
    change (BitVec.ofInt 64 (rows * 8 : Nat)).toNat = rows * 8
    rw [BitVec.toNat_ofInt]
    omega
  have hf3 := hf.of_le hle4
  have hf2 := hf3.of_le hle3
  have htakes := htakes hH R f c hserves (hf2.of_le hle2) hc
  rw [hbytes] at htakes
  obtain ⟨c1, t, hruns1, hc1, hread1, hunused, hmemory1⟩ := htakes
  obtain ⟨c2, hruns2, hc2, hmemory2, hread2⟩ := ram_alloca hrun2 hopen1 hf2 hc1
  rw [hserves.i32] at hmemory2 hread2
  have hused : ∀ b < rows * 8, (c1.memory.byte (t + b)).isSome := fun b hb =>
    hmemory1 ▸ Ram.isSome_fill_self hb
  have hfree := hserves.place c1.memory 4
  have hdisjoint := disjoint_of_free (by omega) (by decide) hused hfree
  generalize R.place c1.memory 4 = k at hmemory2 hread2 hdisjoint hfree
  obtain ⟨c3, hruns3, hc3, hmemory3⟩ := ram_store hrun3 hopen2 hf3 hc2 hread2
    (show c2.read? (int32 0) = some (.int (.ofInt 32 0)) from rfl) (by
      intro b hb
      rw [hmemory2]
      exact Ram.isSome_fill_self (hserves.i32 ▸ hb))
  rw [show (int32 0).ty = .i32 from rfl, hserves.i32, hmemory2, hmemory1] at hmemory3
  have hfilled : Filled c.memory t k a (R.size (.array elem cols)) rows 0 c3.memory := by
    rw [hmemory3]
    refine ⟨fun i hi => absurd hi (Nat.not_lt_zero i), Ram.load?_fill_self (by decide), ?_, ?_⟩
    · intro b hlow hhigh
      have hin : ((Ram.fill c.memory t (rows * 8) .undef .void).byte b).isSome := by
        rw [Ram.fill_byte_of_mem ⟨hlow, hhigh⟩]
        rfl
      exact Ram.isSome_fill (Ram.isSome_fill hin)
    · intro b htable hcounter
      rw [Ram.fill_byte_of_not_mem hcounter, Ram.fill_byte_of_not_mem hcounter, Ram.fill_byte_of_not_mem htable]
  -- From here on the loop runs.
  have hruns := hruns1.trans ((hruns2.trans (hruns3.mono hle2.nextReg_le)).mono hle1.nextReg_le)
  obtain ⟨header, tested, guardEnd, start, bodyEnd, i, more, hfills, henter, hreg⟩ := hloop f hf
  have hjump := Function.Runs.jump (fun _ => True) w3.fn.nextReg henter hc3.block_eq hc3.done_eq
    (show Terminator.exec? (.br header.block.id) c3 = _ from rfl)
  have hwithin : ∀ v ∈ [slot.ptr, table, counter], v.Within (· < header.fn.nextReg) := by
    rw [← hreg]
    simp only [mem_cons, not_mem_nil, or_false, forall_eq_or_imp, forall_eq]
    exact ⟨hslot3.1.within, htable3.1.within, (hcounter.mono hle3).1.within⟩
  obtain ⟨d, hruns', hblock, hdone, hfilled'⟩ := hfills.runs hserves hrows hty hwithin hdisjoint rows 0
    (c3.jump header.block.id) (zero_add rows)
    ⟨rfl, (congrArg List.length hfills.branching.isEmpty).symm⟩
    ((hruns.read?_eq hslot.1.within).trans ha)
    (((hruns2.trans (hruns3.mono hle2.nextReg_le)).read?_eq htable.1.within).trans hread1)
    ((hruns3.read?_eq hcounter.1.within).trans hread2) hfilled
  rw [← hreg] at hruns'
  have hloopRuns := hjump.trans hruns'
  have hle13 := le_trans hle2 hle3
  refine ⟨d, t, k, hruns.trans (hloopRuns.mono (le_trans hle1 hle13).nextReg_le), ⟨hblock, ?_⟩, ?_, hunused, ?_,
    hfilled'⟩
  · rw [hdone, hempty]
    rfl
  · have hkept := (hruns2.trans (hruns3.mono hle2.nextReg_le)).trans (hloopRuns.mono hle13.nextReg_le)
    exact (hkept.read?_eq htable.1.within).trans hread1
  · intro b hb
    have hnone := hfree b hb
    rwa [hmemory1, Ram.fill_byte_of_not_mem (by omega)] at hnone

end Aero.Lowering
