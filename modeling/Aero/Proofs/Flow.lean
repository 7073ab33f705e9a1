import Aero.Proofs.Body

/-!
Regions of a body. A region has new blocks, all of which ask for what was written when it began. They
are filled in the order in which they were appended, and control goes from anywhere in the region to
any of them.
-/

namespace Aero.Lowering

open IR IR.Site List

variable {H : Prop} {id : BlockId}

theorem Inside.morePending {e : Effect} {start : BlockId} {p q : BlockId → Prop} {s0 s : State}
    {w0 w : Site H} (h : Inside (e.inside start p) s0 w0 s w) (hpq : ∀ id, p id → q id) :
    Inside (e.inside start q) s0 w0 s w :=
  { h with grows := h.grows.weaken (fun h => h) (fun h => h) (fun _ _ h => h) hpq }

/-- The current block is finished with a terminator, unless it already is finished. -/
structure Closes (w : Site H) (t : Terminator) (w' : Site H) : Prop where
  closed : w'.block.isTerminated = true
  finished : w.Open → w.Finished t w'
  same : w.block.isTerminated = true → w' = w
  unreached : ∀ id, id < w.fn.nextBlock → id ∉ t.successors → w.Unreached id → w'.Unreached id

namespace Closes

variable {w w' : Site H} {t : Terminator}

theorem grows (h : Closes w t w') : Grows .any w w' := by
  by_cases hopen : w.Open
  · exact (h.finished hopen).grows .any fun _ _ _ => trivial
  · rw [h.same (Option.isSome_iff_ne_none.mpr hopen)]
    exact .refl w

theorem reached (h : Closes w t w') (hopen : w.Open) (hid : id ∈ t.successors) : w'.Reached id := by
  refine ⟨w'.block, w'.block_mem, ?_⟩
  rw [(h.finished hopen).block_eq]
  exact hid

end Closes

/-- A region that began at a site. Some of its blocks are still to be filled. -/
structure Region (e : Effect) (s0 : State) (w0 : Site H) (blocks todo : List BlockId) (s : State)
    (w : Site H) : Prop where
  inside : Inside (e.inside w0.fn.nextBlock (· ∈ todo)) s0 w0 s w
  asks : ∀ id ∈ blocks, w0.fn.nextBlock ≤ id ∧ w.Asks id w0.Out
  pending : ∀ id ∈ todo, w0.fn.nextBlock ≤ id ∧ w.Pending id w0.Out
  nodup : todo.Nodup

namespace Region

variable {e : Effect} {s0 s : State} {w0 w : Site H} {blocks todo : List BlockId} {env : Env}
  {E : State → Prop} {α : Type}

theorem start (e : Effect) (h : Body s w) : Region e s w [] [] s w :=
  ⟨.start h, forall_mem_nil _, forall_mem_nil _, .nil⟩

variable (h : Region e s0 w0 blocks todo s w)
include h

theorem out {r : Reg} (hr : w0.Out r) : w.Out r :=
  h.inside.grows.out r hr

theorem canEnter (hid : id ∈ blocks) : w.CanEnter id :=
  (h.asks id hid).2.canEnter fun _ => h.out

theorem step {s' : State} {w' : Site H} {e' : Site.Effect}
    (hinside : Inside (e.inside w0.fn.nextBlock (· ∈ todo)) s0 w0 s' w') (hgrows : Grows e' w w') :
    Region e s0 w0 blocks todo s' w' :=
  ⟨hinside, fun id hid => ⟨(h.asks id hid).1, (h.asks id hid).2.mono hgrows⟩,
    fun id hid => ⟨(h.pending id hid).1, hgrows.pending_stays (h.pending id hid).2⟩, h.nodup⟩

theorem todo_lt (hid : id ∈ todo) : id < w.fn.nextBlock := by
  obtain ⟨⟨label, hmem⟩, _⟩ := (h.pending id hid).2
  exact w.coherent.id_lt _ hmem

theorem append {label : String} (hlabel : IsStem label) :
    Steps env (liftM (Build.appendBlock label)) s w E fun id s' w' =>
      Region e s0 w0 (blocks ++ [id]) (todo ++ [id]) s' w' ∧ w.Appended id w0.Out w' := by
  have hlarger : Inside (e.inside w0.fn.nextBlock (· ∈ todo ++ [w.fn.nextBlock])) s0 w0 s w :=
    h.inside.morePending fun _ => mem_append_left _
  refine (hlarger.append hlabel w0.Out (by simp [Effect.inside])).imp ?_
  rintro id s' w' _ ⟨hinside, happ⟩
  have hid := happ.id_eq
  have hgrows := happ.grows (e.inside w0.fn.nextBlock (· = id)) rfl
  have hnew : w0.fn.nextBlock ≤ id := hid ▸ h.inside.grows.nextBlock_le
  rw [hid] at hinside
  refine ⟨⟨hinside, ?_, ?_, ?_⟩, happ⟩
  · intro x hx
    rcases mem_append.mp hx with hx | hx
    · exact ⟨(h.asks x hx).1, (h.asks x hx).2.mono hgrows⟩
    · exact mem_singleton.mp hx ▸ ⟨hnew, happ.pending.asks⟩
  · intro x hx
    rcases mem_append.mp hx with hx | hx
    · exact ⟨(h.pending x hx).1, hgrows.pending_stays (h.pending x hx).2⟩
    · exact mem_singleton.mp hx ▸ ⟨hnew, happ.pending⟩
  · refine nodup_append.mpr ⟨h.nodup, nodup_singleton _, ?_⟩
    rintro x hx _ hy rfl
    exact Nat.ne_of_lt (h.todo_lt hx) ((mem_singleton.mp hy).trans hid.symm)

theorem finish {t : Terminator} (hends : w.Open → w.Ends t) (hexits : ∀ id ∈ t.successors, id ∈ blocks) :
    Steps env (liftM (Build.terminate t)) s w E fun _ s' w' => Region e s0 w0 blocks todo s' w' ∧ Closes w t w' := by
  by_cases hopen : w.Open
  · refine (h.inside.finish (hends hopen) fun id hid => .inr (h.asks id (hexits id hid)).1).imp ?_
    rintro _ s' w' _ ⟨hinside, hfin⟩
    have hgrows := hfin.grows ⟨True, True, (· ∈ t.successors), fun _ => True⟩ fun _ h _ => h
    refine ⟨h.step hinside hgrows, hfin.terminated, fun _ => hfin, fun hclosed => ?_,
      fun _ hlt hid hun => hun.mono hgrows hlt hid⟩
    rw [Block.isTerminated, hopen] at hclosed
    cases hclosed
  · have hclosed : w.block.isTerminated = true := Option.isSome_iff_ne_none.mpr hopen
    refine (Steps.lift (Build.reaches_closed hclosed)).imp ?_
    rintro _ s' _ hbuilder ⟨hsame, rfl⟩
    refine ⟨h.step ?_ (.refl (e := .plain) w), hclosed, fun hopen' => absurd hopen' hopen,
      fun _ => rfl, fun _ _ _ hun => hun⟩
    exact h.inside.step hsame hbuilder (.refl _) (fun _ _ h => h) (fun h => h) h.inside.grows

theorem br {target : BlockId} (htarget : target ∈ blocks) : Steps env (liftM (Build.br target)) s w E fun _ s' w' =>
      Region e s0 w0 blocks todo s' w' ∧ Closes w (.br target) w' :=
  h.finish (fun hopen => ends_br hopen (h.canEnter htarget)) fun _ hid => mem_singleton.mp hid ▸ htarget

theorem condBr {cond : Value} {a b : BlockId} (hcond : w.Val cond .i1) (ha : a ∈ blocks) (hb : b ∈ blocks) :
    Steps env (liftM (Build.condBr cond a b)) s w E fun _ s' w' =>
      Region e s0 w0 blocks todo s' w' ∧ Closes w (.condBr cond a b) w' := by
  refine h.finish (fun hopen => ends_condBr hopen hcond (h.canEnter ha) (h.canEnter hb)) ?_
  intro id hid
  rcases mem_cons.mp hid with rfl | hid
  · exact ha
  · exact mem_singleton.mp hid ▸ hb

omit h in
theorem position (h : Region e s0 w0 blocks (id :: todo) s w) (hclosed : e.settles → w.block.isTerminated = true) :
    Steps env (liftM (Build.position id)) s w E fun _ s' w' =>
      Region e s0 w0 blocks todo s' w' ∧ w'.Open ∧ w.MovedTo id w0.Out w' := by
  obtain ⟨hnew, hpending⟩ := h.pending id mem_cons_self
  refine (h.inside.position hpending hnew (fun _ hr => hr) hclosed fun _ => mem_cons.mp).imp ?_
  rintro _ s' w' _ ⟨hinside, hmoved⟩
  refine ⟨⟨hinside, ?_, ?_, h.nodup.of_cons⟩, hmoved.isOpen, hmoved⟩
  · exact fun x hx => ⟨(h.asks x hx).1, hmoved.asks (h.asks x hx).2⟩
  · intro x hx
    obtain ⟨hxnew, hxpending⟩ := h.pending x (mem_cons_of_mem id hx)
    have hne : x ≠ id := fun heq => (nodup_cons.mp h.nodup).1 (heq ▸ hx)
    exact ⟨hxnew, hmoved.others x _ hne hxpending⟩

theorem moveBlockToEnd (hid : id ∈ todo) : Steps env (liftM (Build.moveBlockToEnd id)) s w E fun _ s' w' =>
      Region e s0 w0 blocks todo s' w' ∧ w'.block = w.block ∧ ∀ e, Grows e w w' := by
  refine (h.inside.moveBlockToEnd (h.pending id hid).2).imp ?_
  rintro _ s' w' _ ⟨hinside, hblock, hgrows⟩
  exact ⟨h.step hinside (hgrows .plain), hblock, hgrows⟩

theorem lowers {act : Lower α} {Q : α → Site H → Prop}
    (hbody : Body s0 w0) (hopen : w.Open) (hact : Lowers env act s w Q) :
    Steps env act s w (Fails H e.quiet s0) fun a s' w' =>
      Region e s0 w0 blocks todo s' w' ∧ w ≤ w' ∧ w'.Open ∧ Q a w' := by
  refine (Steps.of_lowers hact hbody h.inside hopen).imp ?_
  rintro a s' w' _ ⟨hinside, hle, hopen', hQ⟩
  exact ⟨h.step hinside hle, hle, hopen', hQ⟩

theorem note {level : LogLevel} {message : String} : Steps env (note level message) s w E fun _ s' w' =>
      Region e s0 w0 blocks todo s' w' ∧ w'.fn = w.fn ∧ w'.block = w.block := by
  refine (Steps.lift (Build.reaches_note)).imp ?_
  rintro _ s' w' hbuilder ⟨hsame, hfn, hblock, hle⟩
  refine ⟨h.step (h.inside.step hsame hbuilder hle.frame (hle.quiet trivial) (fun h => h)
    (h.inside.grows.trans (.of_le hle))) hle, hfn, hblock⟩

omit h in
theorem drop (h : Region e s0 w0 blocks (id :: todo) s w) (hunreached : w.Unreached id) :
    Steps env (liftM (Build.eraseBlock id)) s w E fun _ s' w' =>
      Inside (e.inside w0.fn.nextBlock (· ∈ todo)) s0 w0 s' w' ∧ w.Dropped id w' := by
  obtain ⟨hnew, hpending⟩ := h.pending id mem_cons_self
  refine (Steps.lift (Build.reaches_drop hpending hunreached)).imp ?_
  rintro _ s' w' hbuilder ⟨hsame, hdropped⟩
  exact ⟨h.inside.step hsame hbuilder hdropped.frame
    (fun name _ hnone => (hdropped.prototype?_eq name).trans hnone) (fun h => h)
    (hdropped.grows _ w0 (· ∈ todo) h.inside.grows hnew fun _ => mem_cons.mp), hdropped⟩

omit h in
theorem leave (h : Region e s0 w0 blocks [] s w) : Inside e s0 w0 s w :=
  (h.inside.morePending fun _ => not_mem_nil).leave

end Region

end Aero.Lowering
