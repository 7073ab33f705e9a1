import Aero.Proofs.Cells

/-!
Variables in memory. At each point of a run the frames in scope have the names of the scopes of a
store, the slot of a name is the address of the cell of its place, and memory holds the numbers of the
store.
-/

namespace Aero.Lowering

open IR Evaluation List

variable [Library] {n k place : Nat} {frames : List Frame} {m m' : Store} {c d : Point cells} {held : List Word}
  {frame : Frame} {name : String} {slot : Slot} {f : Function} {ok : Instr → Prop} {ptr : Value} {ty : Ty} {x : Word}

/-- An operand is the address of a variable, which is a number of a type. -/
structure CellMatches (n : Nat) (held : List Word) (c : Point cells) (ptr : Value) (ty : Ty)
    (place : Nat) : Prop where
  within : ptr.Within (· < n)
  read : c.read? ptr = some (.cell place)
  cell : ∃ x, held[place]? = some x ∧ ty = .int x.width ∧ 0 < x.width ∧ x.width ≤ 64

/-- A slot is for a variable. -/
structure SlotMatches (n : Nat) (held : List Word) (c : Point cells) (slot : Slot) (place : Nat) :
    Prop extends CellMatches n held c slot.ptr slot.ty place where
  array_eq : slot.array = none

theorem SlotMatches.keep (h : SlotMatches n held c slot place)
    (hregs : ∀ r, r < n → d.regs r = c.regs r) (hle : n ≤ k) : SlotMatches k held d slot place :=
  { h with
    within := .mono h.within fun _ hr => lt_of_lt_of_le hr hle
    read := (Point.read?_eq h.within hregs).trans h.read }

theorem SlotMatches.set {other : Nat} {y : Word}
    (h : SlotMatches n held c slot other) (hcell : held[place]? = some y) (hwidth : x.width = y.width) :
    SlotMatches n (held.set place x) c slot other := by
  refine { h with cell := ?_ }
  obtain ⟨z, hz, hty, hpos, hlimit⟩ := h.cell
  by_cases heq : place = other
  · subst heq
    rw [hcell] at hz
    cases hz
    obtain ⟨hlt, _⟩ := List.getElem?_eq_some_iff.mp hcell
    exact ⟨x, List.getElem?_set_self hlt, hwidth ▸ hty, hwidth ▸ hpos, hwidth ▸ hlimit⟩
  · exact ⟨z, (List.getElem?_set_ne heq).trans hz, hty, hpos, hlimit⟩

/-- Two entries are for one name. -/
def EntryMatches (n : Nat) (held : List Word) (c : Point cells) (p : String × Slot) (q : String × Nat) : Prop :=
  p.1 = q.1 ∧ SlotMatches n held c p.2 q.2

/-- The frames in scope and memory are as in a store. -/
structure Matches (n : Nat) (frames : List Frame) (m : Store) (c : Point cells) : Prop where
  memory_eq : c.memory = m.cells.map Datum.int
  scopes : List.Forall₂ (List.Forall₂ (EntryMatches n m.cells c)) frames m.scopes

theorem Matches.imp (h : Matches n frames m c) (hscopes : m'.scopes = m.scopes)
    (hmemory : d.memory = m'.cells.map Datum.int)
    (himp : ∀ slot place, SlotMatches n m.cells c slot place → SlotMatches k m'.cells d slot place) :
    Matches k frames m' d := by
  refine ⟨hmemory, hscopes ▸ h.scopes.imp fun _ _ hframe => hframe.imp ?_⟩
  exact fun _ _ hentry => ⟨hentry.1, himp _ _ hentry.2⟩

theorem Matches.keep (h : Matches n frames m c) (hregs : ∀ r, r < n → d.regs r = c.regs r)
    (hmemory : d.memory = c.memory) (hle : n ≤ k) : Matches k frames m d := by
  exact h.imp rfl (hmemory.trans h.memory_eq) fun _ _ hslot => hslot.keep hregs hle

theorem Matches.keeps (h : Matches n frames m c) (hkeeps : f.Keeps ok n c d) (hle : n ≤ k) : Matches k frames m d :=
  h.keep hkeeps.runs.regs_eq hkeeps.memory_eq hle

/-- The addresses of variables are in registers from before. -/
def FramesWithin (n : Nat) (frames : List Frame) : Prop :=
  ∀ frame ∈ frames, ∀ p ∈ frame, p.2.ptr.Within (· < n)

theorem Matches.within (h : Matches n frames m c) : FramesWithin n frames := by
  have hframe : ∀ {frame : Frame} {scope : List (String × Nat)}, List.Forall₂ (EntryMatches n m.cells c) frame scope →
      ∀ p ∈ frame, p.2.ptr.Within (· < n) := fun hentries =>
    ((forall₂_and_left (p := fun q : String × Slot => q.2.ptr.Within (· < n)) _ _).mp
      (hentries.imp fun _ _ h => .intro h.2.within h)).1
  exact ((forall₂_and_left _ _).mp (h.scopes.imp fun _ _ h => .intro (hframe h) h)).1

theorem Matches.restrict (h : Matches k frames m c) (hwithin : FramesWithin n frames) : Matches n frames m c := by
  refine ⟨h.memory_eq, ((forall₂_and_left _ _).mpr ⟨hwithin, h.scopes⟩).imp ?_⟩
  rintro frame scope ⟨hframe, hentries⟩
  refine ((forall₂_and_left _ _).mpr ⟨hframe, hentries⟩).imp ?_
  rintro p q ⟨hp, hname, hslot⟩
  exact ⟨hname, { hslot with within := hp }⟩

theorem Matches.pop (h : Matches n frames m c) : Matches n frames.tail m.pop c := by
  refine ⟨h.memory_eq, ?_⟩
  have hscopes := h.scopes
  cases hframes : frames with
  | nil =>
    rw [hframes] at hscopes
    rw [Store.pop, forall₂_nil_left_iff.mp hscopes]
    exact .nil
  | cons frame rest =>
    rw [hframes] at hscopes
    obtain ⟨scope, scopes, _, hrest, hm⟩ := forall₂_cons_left_iff.mp hscopes
    rw [Store.pop, hm]
    exact hrest

theorem Matches.push (h : Matches n frames m c) : Matches n ([] :: frames) m.push c :=
  ⟨h.memory_eq, .cons .nil h.scopes⟩

/-! ### Names -/

theorem find?_matches {scope : List (String × Nat)} (name : String)
    (h : List.Forall₂ (EntryMatches n m.cells c) frame scope) :
    Option.Rel (SlotMatches n m.cells c) ((frame.find? (·.1 = name)).map (·.2))
      ((scope.find? (·.1 = name)).map (·.2)) := by
  induction h with
  | nil => exact .none
  | @cons p q _ _ hentry _ ih =>
    rw [find?_cons, find?_cons, ← hentry.1]
    split
    · exact .some hentry.2
    · exact ih

/-- A name stands for a slot and for the place that the slot is the address of. -/
theorem Matches.lookup {outer : Frame} (h : Matches n frames m c) (houter : outer = [])
    (hslot : Scopes.resolve? ⟨frames, outer⟩ name = some slot) :
    ∃ place, m.place? name = some place ∧ SlotMatches n m.cells c slot place := by
  subst houter
  have hrel : ∀ {frames : List Frame} {scopes : List (List (String × Nat))},
      List.Forall₂ (List.Forall₂ (EntryMatches n m.cells c)) frames scopes →
      Option.Rel (SlotMatches n m.cells c) (Scopes.resolve? ⟨frames, []⟩ name)
        (Store.place? ⟨scopes, m.cells⟩ name) := by
    intro frames scopes hscopes
    induction hscopes with
    | nil => exact .none
    | cons hframe _ ih =>
      simp only [Scopes.resolve?, Store.place?, cons_append, findSome?_cons] at ih ⊢
      have hfound := find?_matches name hframe
      revert hfound
      generalize Option.map _ _ = a
      generalize Option.map _ _ = b
      rintro (⟨hslot⟩ | _)
      · exact .some hslot
      · exact ih
  have hfound : Option.Rel (SlotMatches n m.cells c) (Scopes.resolve? ⟨frames, []⟩ name)
    (m.place? name) := hrel h.scopes
  rw [hslot] at hfound
  cases hplace : m.place? name with
  | none =>
    rw [hplace] at hfound
    cases hfound
  | some place =>
    rw [hplace] at hfound
    cases hfound with
    | some h => exact ⟨place, rfl, h⟩

/-- An operand is the address of the variable with a name. -/
def Finds (frames : List Frame) (name : String) (ptr : Value) (ty : Ty) : Prop :=
  ∀ n m c, Matches n frames m c → ∃ place, m.place? name = some place ∧ CellMatches n m.cells c ptr ty place

theorem Finds.cell (h : Finds frames name ptr ty) (hm : Matches n frames m c)
    (hplace : m.place? name = some place) : CellMatches n m.cells c ptr ty place := by
  obtain ⟨_, hplace', hcell⟩ := h n m c hm
  rw [hplace] at hplace'
  cases hplace'
  exact hcell

theorem Finds.place_eq (h : Finds frames name ptr ty) (hm : Matches n frames m c)
    (hplace : m.place? name = some place) (hruns : f.Runs ok n c d) (hm' : Matches k frames m' d) :
    m'.place? name = some place := by
  obtain ⟨place', hplace', hcell'⟩ := h k m' d hm'
  have hcell := h.cell hm hplace
  have hread := hruns.read?_eq hcell.within
  rw [hcell.read, hcell'.read] at hread
  cases hread
  exact hplace'

/-! ### Changes -/

theorem Matches.set (h : Matches n frames m c) {y : Word} (hcell : m.cells[place]? = some y)
    (hwidth : x.width = y.width) (hregs : ∀ r, r < n → d.regs r = c.regs r)
    (hmemory : d.memory = c.memory.set place (.int x)) (hle : n ≤ k) : Matches k frames (m.set place x) d := by
  refine h.imp rfl ?_ fun _ _ hslot => (hslot.keep hregs hle).set hcell hwidth
  rw [hmemory, h.memory_eq, Store.set, map_set]

theorem Matches.declare (h : Matches n (frame :: frames) m c)
    (hdeclare : m.declare? name x = some m') (hregs : ∀ r, r < n → d.regs r = c.regs r)
    (hmemory : d.memory = c.memory ++ [.int x]) (hle : n ≤ k) (harray : slot.array = none)
    (hty : slot.ty = .int x.width) (hwithin : slot.ptr.Within (· < k))
    (hread : d.read? slot.ptr = some (.cell m.cells.length)) (hpos : 0 < x.width)
    (hlimit : x.width ≤ 64) : Matches k (((name, slot) :: frame) :: frames) m' d := by
  obtain ⟨scope, scopes, hframe, hrest, hm⟩ := forall₂_cons_left_iff.mp h.scopes
  rw [Store.declare?, hm] at hdeclare
  obtain ⟨_, hm'⟩ := Option.ite_none_left_eq_some.mp hdeclare
  cases hm'
  have hold : ∀ slot place, SlotMatches n m.cells c slot place → SlotMatches k (m.cells ++ [x]) d slot place := by
    intro slot place hslot
    obtain ⟨z, hz, hcell⟩ := hslot.cell
    obtain ⟨hlt, _⟩ := List.getElem?_eq_some_iff.mp hz
    exact { hslot.keep hregs hle with cell := ⟨z, (List.getElem?_append_left hlt).trans hz, hcell⟩ }
  have hframes := fun {frame : Frame} {scope : List (String × Nat)}
    (hframe : List.Forall₂ (EntryMatches n m.cells c) frame scope) =>
      hframe.imp fun _ _ hentry => And.intro hentry.1 (hold _ _ hentry.2)
  refine ⟨?_, .cons (.cons ⟨rfl, ⟨hwithin, hread, x, ?_, hty, hpos, hlimit⟩, harray⟩ (hframes hframe))
    (hrest.imp fun _ _ hframe => hframes hframe)⟩
  · rw [hmemory, h.memory_eq, map_append]
    rfl
  · exact getElem?_concat_length

/-! ### Views -/

/-- A way in which variables of a store are in memory. It does not depend on new registers, and it stands when a
variable gets a new value. -/
structure View where
  holds : Nat → Store → Point cells → Prop
  keep : ∀ {n k : Nat} {m : Store} {c d : Point cells}, holds n m c → (∀ r, r < n → d.regs r = c.regs r) →
    d.memory = c.memory → n ≤ k → holds k m d
  memory : ∀ {n : Nat} {m : Store} {c : Point cells} {name : String} {place : Nat} {x : Word}, holds n m c →
    m.place? name = some place → m.cells[place]? = some x → c.memory[place]? = some (.int x)
  set : ∀ {n k : Nat} {m : Store} {c d : Point cells} {name : String} {place : Nat} {x y : Word}, holds n m c →
    m.place? name = some place → m.cells[place]? = some y → x.width = y.width →
    (∀ r, r < n → d.regs r = c.regs r) → d.memory = c.memory.set place (.int x) → n ≤ k → holds k (m.set place x) d

namespace View

theorem keeps (V : View) (h : V.holds n m c) (hkeeps : f.Keeps ok n c d) (hle : n ≤ k) : V.holds k m d :=
  V.keep h hkeeps.runs.regs_eq hkeeps.memory_eq hle

/-- An operand is the address of the variable with a name. -/
def Finds (V : View) (name : String) (ptr : Value) (ty : Ty) : Prop :=
  ∀ {n : Nat} {m : Store} {c : Point cells} {place : Nat}, V.holds n m c → m.place? name = some place →
    CellMatches n m.cells c ptr ty place

/-- The variables of a store are those in scope. -/
def Sees (V : View) (scopes : Scopes) : Prop :=
  scopes.outermost = [] → ∀ {name : String} {slot : Slot}, scopes.resolve? name = some slot →
    ∀ {n : Nat} {m : Store} {c : Point cells} {place : Nat}, V.holds n m c → m.place? name = some place →
      SlotMatches n m.cells c slot place

def ofFrames (frames : List Frame) : View where
  holds n m c := Matches n frames m c
  keep h := h.keep
  memory h _ hx := by
    rw [h.memory_eq, List.getElem?_map, hx]
    rfl
  set h _ := h.set

instance : Coe (List Frame) View := ⟨ofFrames⟩

theorem ofFrames_sees (scopes : Scopes) : (ofFrames scopes.inner).Sees scopes := by
  intro houter name slot hslot n m c place hm hplace
  obtain ⟨_, hplace', hmatches⟩ := Matches.lookup hm houter hslot
  rw [hplace] at hplace'
  cases hplace'
  exact hmatches

end View

theorem Finds.view (h : Finds frames name ptr ty) :
    (View.ofFrames frames).Finds name ptr ty := fun hm hplace => h.cell hm hplace

end Aero.Lowering
