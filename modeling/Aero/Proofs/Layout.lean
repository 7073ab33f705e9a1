import Aero.IR.Module
import Mathlib.Order.WellFounded
import Mathlib.Algebra.Ring.Nat

/-!
The layout of structs. Structs are only made of structs that stand before them, so the extent of a type depends on
smaller ones alone. Where sizes stay below 2 ^ 64, each field lies at the least multiple of its alignment behind the
fields before it.
-/

namespace Aero.IR

open List

variable {name : String} {st : StructType} {ty : Ty}

/-- The structs among the fields of a struct stand before it, and no two structs share a name. -/
inductive Module.Layered : List StructType → Prop where
  | nil : Layered []
  | snoc {structs : List StructType} {st : StructType} (h : Layered structs)
      (hnew : st.name ∉ structs.map StructType.name)
      (hfields : ∀ ty ∈ st.fields, ∀ name, ty.scalarElem = .struct name →
        name ∈ structs.map StructType.name) : Layered (structs ++ [st])

theorem Module.Layered.earlier {structs : List StructType} (h : Layered structs) {i : Nat}
    (hst : structs[i]? = some st) (hty : ty ∈ st.fields)
    (hname : ty.scalarElem = .struct name) : name ∈ (structs.take i).map StructType.name := by
  induction h with
  | nil => cases hst
  | @snoc structs _ _ _ hfields ih =>
    by_cases hlt : i < structs.length
    · rw [take_append_of_le_length (le_of_lt hlt)]
      exact ih (getElem?_append_left hlt ▸ hst)
    · have hle := Nat.le_of_not_lt hlt
      rw [getElem?_append_right hle, getElem?_singleton] at hst
      obtain ⟨hzero, hst⟩ := Option.ite_none_right_eq_some.mp hst
      cases hst
      obtain rfl := Nat.le_antisymm hle (Nat.le_of_sub_eq_zero hzero)
      rw [take_left]
      exact hfields ty hty name hname

variable {m : Module}

/-! ### Termination -/

/-- The extent of a type is found from that of another. -/
inductive Module.Asks (m : Module) : Ty → Ty → Prop where
  | elem (elem : Ty) (len : Nat) : m.Asks elem (.array elem len)
  | field {name : String} {st : StructType} {ty : Ty} (hst : m.struct? name = some st) (hty : ty ∈ st.fields) :
      m.Asks ty (.struct name)

/-- Where the struct in a type stands in the list of structs; types without one come first. -/
def Module.position (m : Module) (ty : Ty) : Nat :=
  match ty.scalarElem with
  | .struct name => m.structs.findIdx (·.name = name) + 1
  | _ => 0

theorem Module.position_eq (h : ty.scalarElem = .struct name) : m.position ty = m.position (.struct name) := by
  unfold position
  rw [h]
  rfl

theorem Module.position_le (hst : m.struct? name = some st) : m.position (.struct name) ≤ m.structs.length := by
  rw [struct?, find?_eq_getElem?_findIdx] at hst
  exact (List.getElem?_eq_some_iff.mp hst).1

theorem Extent.ofTy_congr {f g : String → Extent} (h : ∀ name, ty.scalarElem = .struct name → f name = g name) :
    ofTy f ty = ofTy g ty := by
  induction ty with
  | array elem len ih => rw [ofTy, ofTy, ih h]
  | struct name => exact h name rfl
  | _ => rfl

namespace Module.Layered

theorem position_lt (h : Layered m.structs)
    (hst : m.struct? name = some st) (hty : ty ∈ st.fields) : m.position ty < m.position (.struct name) := by
  cases hscalar : ty.scalarElem with
  | struct name' =>
    rw [struct?, find?_eq_getElem?_findIdx] at hst
    obtain ⟨other, hother, hname⟩ := mem_map.mp (h.earlier hst hty hscalar)
    obtain ⟨j, hj, rfl⟩ := mem_take_iff_getElem.mp hother
    rw [position_eq hscalar]
    refine Nat.succ_lt_succ (Nat.lt_of_le_of_lt (Nat.le_of_not_lt fun hlt => ?_) (Nat.lt_min.mp hj).1)
    exact absurd (not_of_lt_findIdx hlt) (by simpa using hname)
  | _ =>
    unfold position
    rw [hscalar]
    exact Nat.succ_pos _

theorem asks_wellFounded (h : Layered m.structs) : WellFounded m.Asks := by
  refine Subrelation.wf (r := InvImage (Prod.Lex (· < ·) (· < ·)) fun ty => (m.position ty, ty.rank)) ?_
    (InvImage.wf _ (.prod_lex Nat.lt_wfRel.wf Nat.lt_wfRel.wf))
  intro ty ty' hasks
  cases hasks with
  | elem len => exact Prod.Lex.right _ (Nat.lt_succ_self _)
  | field hst hty => exact Prod.Lex.left _ _ (h.position_lt hst hty)

theorem fields_congr (h : Layered m.structs) (hst : m.struct? name = some st) {f g : String → Extent}
    (hfg : ∀ other, m.position (.struct other) < m.position (.struct name) → f other = g other) :
    st.fields.map (Extent.ofTy f) = st.fields.map (Extent.ofTy g) := by
  refine map_congr_left fun ty hty => Extent.ofTy_congr fun other hother => hfg other ?_
  rw [← position_eq hother]
  exact h.position_lt hst hty

theorem structExtent_none (hst : m.struct? name = none) (depth : Nat) : m.structExtent depth name = ⟨8, 8⟩ := by
  cases depth with
  | zero => rfl
  | succ depth => rw [structExtent, hst]

/-- The bound for the depth of structs does not matter, once it has reached the position of a struct. -/
theorem structExtent_eq (h : Layered m.structs) {depth depth' : Nat}
    (hdepth : m.position (.struct name) ≤ depth) (hle : depth ≤ depth') :
    m.structExtent depth' name = m.structExtent depth name := by
  induction depth generalizing name depth' with
  | zero => exact absurd hdepth (Nat.not_succ_le_zero _)
  | succ depth ih =>
    obtain ⟨depth', rfl⟩ := Nat.exists_eq_add_one_of_ne_zero (by omega : depth' ≠ 0)
    cases hst : m.struct? name with
    | none => rw [structExtent_none hst, structExtent_none hst]
    | some st =>
      simp only [structExtent, hst]
      rw [h.fields_congr hst fun other hother => ih (by omega) (Nat.le_of_succ_le_succ hle)]

/-- The extent of a struct is that of its fields, however deep they are. -/
theorem extent_struct (h : Layered m.structs) (name : String) :
    m.extent (.struct name) = (m.struct? name).elim ⟨8, 8⟩ fun st => Extent.ofFields (st.fields.map m.extent) := by
  change m.structExtent m.structs.length name = _
  cases hst : m.struct? name with
  | none => exact structExtent_none hst _
  | some st =>
    have hle := position_le hst
    obtain ⟨depth, hdepth⟩ := Nat.exists_eq_add_one.mpr (Nat.lt_of_lt_of_le (Nat.succ_pos _) hle)
    have hfields : st.fields.map m.extent = st.fields.map (.ofTy (m.structExtent depth)) :=
      h.fields_congr hst fun other hother => h.structExtent_eq (by omega) (by omega)
    rw [hdepth, structExtent, hst, Option.elim_some, hfields]

end Module.Layered

/-! ### Sizes and alignments -/

/-- The size of a type depends on the struct types alone. -/
theorem sizeOf_eq {m m' : Module} (h : m'.structs = m.structs) (ty : Ty) : m'.sizeOf ty = m.sizeOf ty := by
  have hstruct : ∀ depth, m'.structExtent depth = m.structExtent depth := by
    intro depth
    induction depth with
    | zero => rfl
    | succ depth ih =>
      funext name
      rw [Module.structExtent, Module.structExtent, ih, Module.struct?, Module.struct?, h]
  rw [Module.sizeOf, Module.sizeOf, Module.extent, Module.extent, hstruct, h]

/-- The least multiple of `align` that is not below `n`, where numbers have no bound. -/
def alignUp (n align : Nat) : Nat := (n + (align - 1)) / align * align

theorem isLeast_alignUp (n : Nat) {align : Nat} (hpos : 0 < align) :
    IsLeast {k | align ∣ k ∧ n ≤ k} (alignUp n align) := by
  have hmod := Nat.mod_lt (n + (align - 1)) hpos
  have hdiv := Nat.div_add_mod (n + (align - 1)) align
  rw [mul_comm] at hdiv
  refine ⟨⟨Nat.dvd_mul_left _ _, show n ≤ _ / _ * _ by omega⟩, ?_⟩
  rintro _ ⟨⟨q, rfl⟩, hle⟩
  rw [mul_comm align]
  refine Nat.mul_le_mul_right _ (Nat.le_of_lt_succ ?_)
  rw [Nat.div_lt_iff_lt_mul hpos, Nat.succ_mul, Nat.mul_comm q]
  omega

theorem toNat_roundUp {n align : UInt64} (hpos : 0 < align.toNat) (h : alignUp n.toNat align.toNat < 2 ^ 64) :
    (roundUp n align).toNat = alignUp n.toNat align.toNat := by
  have hcount : (n.toNat + (align.toNat - 1)) / align.toNat =
      n.toNat / align.toNat + (if n % align = 0 then (0 : UInt64) else 1).toNat := by
    have hmod := Nat.mod_lt n.toNat hpos
    have hdiv := Nat.div_add_mod n.toNat align.toNat
    have hzero : n % align = 0 ↔ n.toNat % align.toNat = 0 := by rw [← UInt64.toNat_inj]; rfl
    rw [Nat.div_eq_iff hpos, Nat.add_mul]
    split
    · next h =>
      rw [hzero] at h
      rw [Nat.mul_comm] at hdiv
      simp
      omega
    · next h =>
      rw [hzero] at h
      rw [Nat.mul_comm] at hdiv
      simp
      omega
  rw [alignUp, hcount] at h ⊢
  have hcount : n.toNat / align.toNat + (if n % align = 0 then (0 : UInt64) else 1).toNat < 2 ^ 64 :=
    Nat.lt_of_le_of_lt (Nat.le_mul_of_pos_right _ hpos) h
  rw [roundUp, UInt64.toNat_mul, UInt64.toNat_add, UInt64.toNat_div, Nat.mod_eq_of_lt hcount, Nat.mod_eq_of_lt h]

namespace Extent

/-- Where fields end that are placed behind a number of bytes, where numbers have no bound. -/
def ends (start : Nat) (fields : List Extent) : Nat :=
  fields.foldl (fun n f => alignUp n f.align.toNat + f.size.toNat) start

/-- The fields of a struct that come first. -/
def placed (fields : List Extent) : Extent := fields.foldl addField ⟨0, 1⟩

variable {fields : List Extent}

section

variable (hpos : ∀ f ∈ fields, 0 < f.align.toNat)
include hpos

theorem le_ends (start : Nat) : start ≤ ends start fields := by
  induction fields generalizing start with
  | nil => exact le_refl _
  | cons f fields ih =>
    obtain ⟨hf, hfields⟩ := forall_mem_cons.mp hpos
    have hup := (isLeast_alignUp start hf).1.2
    exact Nat.le_trans (Nat.le_add_right_of_le hup) (ih hfields _)

theorem size_foldl (e : Extent) (h : ends e.size.toNat fields < 2 ^ 64) :
    (fields.foldl addField e).size.toNat = ends e.size.toNat fields := by
  induction fields generalizing e with
  | nil => rfl
  | cons f fields ih =>
    obtain ⟨hf, hfields⟩ := forall_mem_cons.mp hpos
    have hend := lt_of_le_of_lt (le_ends hfields _) h
    have hsize : (e.addField f).size.toNat = alignUp e.size.toNat f.align.toNat + f.size.toNat := by
      rw [addField, UInt64.toNat_add, toNat_roundUp hf (Nat.lt_of_le_of_lt (Nat.le_add_right _ _) hend)]
      exact Nat.mod_eq_of_lt hend
    have hrest := ih hfields (e.addField f)
    rw [hsize] at hrest
    exact hrest h

theorem size_placed (h : ends 0 fields < 2 ^ 64) :
    (placed fields).size.toNat = ends 0 fields := size_foldl hpos ⟨0, 1⟩ h

end

theorem ends_append (start : Nat) (before after : List Extent) :
    ends start (before ++ after) = ends (ends start before) after := foldl_append

theorem isGreatest_align (fields : List Extent) (e : Extent) :
    IsGreatest {a | a = e.align ∨ ∃ f ∈ fields, f.align = a} (fields.foldl addField e).align := by
  induction fields generalizing e with
  | nil => simp [IsGreatest, upperBounds]
  | cons f fields ih =>
    obtain ⟨hmem, hbound⟩ := ih (e.addField f)
    have hmax : (e.addField f).align = if e.align ≤ f.align then f.align else e.align := rfl
    constructor
    · rcases hmem with hmem | ⟨g, hg, hmem⟩
      · rw [foldl_cons, hmem, hmax]
        split
        · exact .inr ⟨f, mem_cons_self, rfl⟩
        · exact .inl rfl
      · exact .inr ⟨g, mem_cons_of_mem _ hg, hmem⟩
    · have hfirst := hbound (.inl rfl)
      rw [hmax] at hfirst
      have hboth : e.align ≤ (fields.foldl addField (e.addField f)).align ∧
          f.align ≤ (fields.foldl addField (e.addField f)).align := by
        split at hfirst
        · next h => exact ⟨UInt64.le_trans h hfirst, hfirst⟩
        · next h => exact ⟨hfirst, UInt64.le_trans (UInt64.le_of_lt (UInt64.not_le.mp h)) hfirst⟩
      rintro _ (rfl | ⟨g, hg, rfl⟩)
      · exact hboth.1
      · rcases mem_cons.mp hg with rfl | hg
        · exact hboth.2
        · exact hbound (.inr ⟨g, hg, rfl⟩)

theorem align_placed_pos (fields : List Extent) : 0 < (placed fields).align.toNat :=
  UInt64.le_iff_toNat_le.mp ((isGreatest_align fields ⟨0, 1⟩).2 (.inl rfl))

/-- Fields lie at the least multiples of their alignments behind each other, and the whole ends at the least multiple
of the greatest one. -/
structure LaidOut (fields : List Extent) (total : Extent) : Prop where
  field : ∀ before f after, fields = before ++ f :: after →
    IsLeast {n | f.align.toNat ∣ n ∧ (placed before).size.toNat ≤ n} (roundUp (placed before).size f.align).toNat ∧
      (placed (before ++ [f])).size.toNat = (roundUp (placed before).size f.align).toNat + f.size.toNat
  align : IsGreatest {a | a = 1 ∨ ∃ f ∈ fields, f.align = a} total.align
  size : IsLeast {n | total.align.toNat ∣ n ∧ (placed fields).size.toNat ≤ n} total.size.toNat

theorem laidOut_ofFields (hpos : ∀ f ∈ fields, 0 < f.align.toNat)
    (h : alignUp (ends 0 fields) (placed fields).align.toNat < 2 ^ 64) : LaidOut fields (ofFields fields) where
  field := by
    rintro before f after rfl
    obtain ⟨hbefore, hf⟩ := forall_mem_append.mp hpos
    obtain ⟨hf, hafter⟩ := forall_mem_cons.mp hf
    have hend : ends 0 (before ++ [f]) = alignUp (ends 0 before) f.align.toNat + f.size.toNat := ends_append ..
    have hlt : ends 0 (before ++ [f]) < 2 ^ 64 := by
      refine lt_of_le_of_lt (le_trans (le_ends hafter _) ?_) h
      rw [← ends_append, ← append_cons]
      exact (isLeast_alignUp _ (align_placed_pos _)).1.2
    have hup := isLeast_alignUp (ends 0 before) hf
    have hsize := size_placed hbefore (by have := hup.1.2; omega)
    rw [toNat_roundUp hf (by rw [hsize]; omega), hsize, size_placed _ hlt]
    · exact ⟨hup, hend⟩
    · exact forall_mem_append.mpr ⟨hbefore, forall_mem_singleton.mpr hf⟩
  align := isGreatest_align fields ⟨0, 1⟩
  size := by
    have hup := isLeast_alignUp (ends 0 fields) (align_placed_pos fields)
    have hsize := size_placed hpos (lt_of_le_of_lt hup.1.2 h)
    change IsLeast {n | (placed fields).align.toNat ∣ n ∧ _} (roundUp (placed fields).size (placed fields).align).toNat
    rw [toNat_roundUp (align_placed_pos fields) (by rwa [hsize]), hsize]
    exact hup

end Extent

/-- Neither the size of a type nor that of a part of it reaches 2 ^ 64. -/
inductive Module.Fits (m : Module) : Ty → Prop where
  | scalar {ty : Ty} (harray : ty.isArray = false) (hstruct : ty.isStruct = false) : m.Fits ty
  | array {elem : Ty} {len : Nat} (helem : m.Fits elem) (hsize : (m.sizeOf elem).toNat * len < 2 ^ 64) :
      m.Fits (.array elem len)
  | struct {name : String} (hfields : ∀ st, m.struct? name = some st → ∀ ty ∈ st.fields, m.Fits ty)
      (hsize : ∀ st, m.struct? name = some st → alignUp (Extent.ends 0 (st.fields.map m.extent))
        (Extent.placed (st.fields.map m.extent)).align.toNat < 2 ^ 64) : m.Fits (.struct name)

theorem natural_align (n : UInt64) : 0 < (Extent.natural n).align.toNat ∧ (Extent.natural n).align.toNat ∣ n.toNat := by
  have hmax : (Extent.natural n).align = if n ≤ 1 then 1 else n := rfl
  rw [hmax]
  split
  · exact ⟨by decide, Nat.one_dvd _⟩
  · next h => exact ⟨Nat.lt_trans (by decide) (UInt64.lt_iff_toNat_lt.mp (UInt64.not_le.mp h)), Nat.dvd_refl _⟩

namespace Module.Layered

variable (h : Layered m.structs)
include h

theorem align_pos (ty : Ty) : 0 < (m.extent ty).align.toNat := by
  induction ty with
  | array elem len ih => exact ih
  | struct name =>
    rw [h.extent_struct]
    cases m.struct? name with
    | none => exact (by decide : 0 < (8 : UInt64).toNat)
    | some st => exact Extent.align_placed_pos _
  | _ => exact (natural_align _).1

theorem laidOut (hst : m.struct? name = some st)
    (hfits : m.Fits (.struct name)) : Extent.LaidOut (st.fields.map m.extent) (m.extent (.struct name)) := by
  cases hfits with
  | scalar _ hstruct => cases hstruct
  | struct _ hsize =>
    rw [h.extent_struct, hst]
    refine Extent.laidOut_ofFields (fun f hf => ?_) (hsize st hst)
    obtain ⟨ty, _, rfl⟩ := mem_map.mp hf
    exact h.align_pos ty

theorem align_dvd (hfits : m.Fits ty) : (m.extent ty).align.toNat ∣ (m.sizeOf ty).toNat := by
  induction hfits with
  | @scalar ty harray hstruct =>
    cases ty with
    | array => cases harray
    | struct => cases hstruct
    | _ => exact (natural_align _).2
  | @array elem len _ hsize ih =>
    have hmul : (m.sizeOf elem * UInt64.ofNat len).toNat = (m.sizeOf elem).toNat * len := by
      rw [UInt64.toNat_mul, UInt64.toNat_ofNat', Nat.mul_mod_mod, Nat.mod_eq_of_lt hsize]
    exact hmul ▸ Nat.dvd_mul_right_of_dvd ih len
  | @struct name _ hsize _ =>
    cases hst : m.struct? name with
    | none =>
      rw [sizeOf, h.extent_struct, hst]
      exact Nat.dvd_refl 8
    | some st => exact (h.laidOut hst (.struct ‹_› hsize)).size.1.1

end Module.Layered

/-- Structs are made of structs that stand before them, so the extent of every type can be found; and where sizes stay
below 2 ^ 64, types and the fields of structs lie in the natural way. -/
structure Module.Natural (m : Module) : Prop where
  earlier : ∀ i st, m.structs[i]? = some st → ∀ ty ∈ st.fields, ∀ name, ty.scalarElem = .struct name →
    name ∈ (m.structs.take i).map StructType.name
  asks_wellFounded : WellFounded m.Asks
  extent_eq : ∀ name, m.extent (.struct name) =
    (m.struct? name).elim ⟨8, 8⟩ fun st => Extent.ofFields (st.fields.map m.extent)
  align_dvd : ∀ ty, m.Fits ty → (m.extent ty).align.toNat ∣ (m.sizeOf ty).toNat
  laidOut : ∀ name st, m.struct? name = some st → m.Fits (.struct name) →
    Extent.LaidOut (st.fields.map m.extent) (m.extent (.struct name))

theorem Module.Layered.natural (h : Layered m.structs) : m.Natural where
  earlier := fun _ _ hst _ hty _ hname => h.earlier hst hty hname
  asks_wellFounded := h.asks_wellFounded
  extent_eq := h.extent_struct
  align_dvd := fun _ hfits => h.align_dvd hfits
  laidOut := fun _ _ hst hfits => h.laidOut hst hfits

end Aero.IR
