import Aero.Proofs.Json.Text
import Aero.Syntax.Decode
import Mathlib.Data.List.Forall2

/-!
The forms in which a record may be written. A `Form` is a tree of what there is to write; the records in it may be
written as objects with all their fields, or as arrays of their first fields if the others hold their defaults.
-/

namespace Aero

open List

variable {j : Json} {levels : Nat} {js : List Json} {ms : List (String × Json)} {optional : Bool} {key : String}
  {α : Type} {elem : Nat → Json → Option α} {names : List String} {xs as : List α}

namespace Json

mutual

def depth : Json → Nat
  | array elems => depths elems + 1
  | object fields => memberDepths fields + 1
  | _ => 0

def depths : List Json → Nat
  | [] => 0
  | j :: rest => max j.depth (depths rest)

def memberDepths : List (Option String × Json) → Nat
  | [] => 0
  | (_, j) :: rest => max j.depth (memberDepths rest)

end

end Json

/-- What is written as it is. A count has a size that it stays below. -/
inductive Scalar where
  | absent
  | flag (b : Bool)
  | text (s : String)
  | count (size n : Nat)
  | number (x : Float)

namespace Scalar

def toJson : Scalar → Json
  | absent => .null
  | flag b => .bool b
  | text s => .ofString s
  | count _ n => .ofNat n
  | number x => .ofFloat x

/-- Whether reading gives back what is written: a count is in range, and a number is a finite double whose shortest
decimal is printed without superfluous zeros and read as that double. -/
def Exact : Scalar → Prop
  | count size n => n < size
  | number x => (x.isNaN || x.isInf) = false ∧ (Json.Number.ofFloat x).Plain ∧ (Json.Number.ofFloat x).float? = some x
  | _ => True

end Scalar

mutual

/-- What there is to write of a thing. -/
inductive Form where
  | scalar (s : Scalar)
  | list (elems : List Form)
  /-- An alternative with content. -/
  | tagged (name : String) (content : Form)
  | record (fields : List Field)

/-- A field of a record. It is optional if there is a default for it and it holds that default. -/
structure Field where
  name : String
  optional : Bool
  content : Form

end

namespace Form

variable {s : Scalar} {forms : List Form}

/-- The values that a form may be written as. -/
inductive Written : Form → Json → Prop
  | scalar (s : Scalar) : Written (.scalar s) s.toJson
  | list {elems : List Form} {js : List Json} (h : List.Forall₂ Written elems js) : Written (.list elems) (.array js)
  | tagged (name : String) {content : Form} {j : Json} (h : Written content j) :
      Written (.tagged name content) (.ofMembers [(name, j)])
  | byName {fields : List Field} {js : List Json} (h : List.Forall₂ Written (fields.map Field.content) js) :
      Written (.record fields) (.ofMembers ((fields.map Field.name).zip js))
  | byPosition {fields : List Field} {js : List Json} (given : Nat)
      (h : List.Forall₂ Written ((fields.take given).map Field.content) js)
      (hrest : ∀ f ∈ fields.drop given, f.optional = true) : Written (.record fields) (.array js)

mutual

/-- Whether reading gives back every scalar of a form. -/
def Exact : Form → Prop
  | scalar s => s.Exact
  | list elems => AllExact elems
  | tagged _ content => content.Exact
  | record fields => FieldsExact fields

def AllExact : List Form → Prop
  | [] => True
  | f :: rest => f.Exact ∧ AllExact rest

def FieldsExact : List Field → Prop
  | [] => True
  | ⟨_, _, content⟩ :: rest => content.Exact ∧ FieldsExact rest

end

/-! ### Every written value is plain -/

theorem plain_scalar (h : s.Exact) : s.toJson.Plain := by
  cases s with
  | absent => trivial
  | flag b => trivial
  | text s => rfl
  | count size n => exact Json.Number.plain_ofInt n
  | number x =>
    rw [Scalar.toJson, Json.ofFloat, if_neg (by rw [h.1]; exact Bool.false_ne_true)]
    exact h.2.1

theorem FieldsExact.contents {fields : List Field} (h : FieldsExact fields) (given : Nat) :
    AllExact ((fields.take given).map Field.content) := by
  induction fields generalizing given with
  | nil =>
    rw [take_nil]
    trivial
  | cons f fields ih =>
    cases given with
    | zero => trivial
    | succ given =>
      obtain ⟨_, _, _⟩ := f
      exact ⟨h.1, ih h.2 given⟩

theorem membersPlain_zip : {names : List String} → {js : List Json} → Json.AllPlain js →
    Json.MembersPlain ((names.zip js).map fun m => (some m.1, m.2))
  | [], _, _ => trivial
  | _ :: _, [], _ => trivial
  | _ :: _, _ :: _, ⟨hj, hjs⟩ => ⟨⟨rfl, hj⟩, membersPlain_zip hjs⟩

theorem Written.plain {form : Form} (h : form.Written j) (hexact : form.Exact) : j.Plain := by
  -- The second motive is about the values of a list or of the fields of a record.
  refine @Written.rec (fun form j _ => form.Exact → j.Plain) (fun forms js _ => AllExact forms → Json.AllPlain js)
    ?scalar ?list ?tagged ?byName ?byPosition ?nil ?cons form j h hexact
  case scalar => exact fun _ h => plain_scalar h
  case list => exact fun _ ih h => ih h
  case tagged => exact fun _ _ _ _ ih h => ⟨⟨rfl, ih h⟩, trivial⟩
  case byName =>
    intro fields _ _ ih h
    have hcontents := FieldsExact.contents h fields.length
    rw [take_length] at hcontents
    exact membersPlain_zip (ih hcontents)
  case byPosition => exact fun given _ _ ih h => ih (FieldsExact.contents h given)
  case nil => exact fun _ => trivial
  case cons => exact fun _ _ ih ihs h => ⟨ih h.1, ihs h.2⟩

/-! ### The fields of a written record -/

/-- What there is of a field: a value that it may be written as, within some levels, or nothing if it is optional. -/
def Gives (levels : Nat) (f : Field) (given : Option Json) : Prop :=
  (∃ j, given = some j ∧ f.content.Written j ∧ j.depth ≤ levels) ∨ (given = none ∧ f.optional = true)

/-- Decoding gives a thing back from whatever its form is written as, if there are levels enough. -/
def Reads {α : Type} (decode : Nat → Json → Option α) (form : Form) (a : α) : Prop :=
  ∀ levels j, form.Written j → j.depth ≤ levels → decode levels j = some a

theorem memberDepths_map : Json.memberDepths (ms.map fun m => (some m.1, m.2)) = Json.depths (ms.map Prod.snd) := by
  induction ms with
  | nil => rfl
  | cons m ms ih => exact congrArg (max m.2.depth) ih

theorem filter_key_eq_nil (h : key ∉ ms.map Prod.fst) :
    (ms.map fun m => (some m.1, m.2)).filter (·.1 = some key) = [] := by
  rw [filter_eq_nil_iff]
  intro m hm
  obtain ⟨n, hn, rfl⟩ := mem_map.mp hm
  rw [decide_eq_true_eq]
  intro hkey
  exact h (Option.some.inj hkey ▸ mem_map_of_mem hn)

theorem member?_of_mem (hnodup : (ms.map Prod.fst).Nodup) (h : (key, j) ∈ ms) :
    Json.member? (ms.map fun m => (some m.1, m.2)) key = some (some j) := by
  have hfilter : (ms.map fun m => (some m.1, m.2)).filter (·.1 = some key) = [(some key, j)] := by
    induction ms with
    | nil => exact absurd h not_mem_nil
    | cons m ms ih =>
      rw [map_cons, nodup_cons] at hnodup
      rw [map_cons]
      rcases mem_cons.mp h with rfl | h
      · rw [filter_cons_of_pos (by simp), filter_key_eq_nil hnodup.1]
      · have hne : m.1 ≠ key := by
          intro hkey
          exact hnodup.1 (hkey ▸ mem_map_of_mem h)
        rw [filter_cons_of_neg (by simp [hne]), ih hnodup.2 h]
  rw [Json.member?, hfilter]

theorem mapM_of_forall₂ {β : Type} {f : α → Option β} {ys : List β}
    (h : List.Forall₂ (fun x y => f x = some y) xs ys) : xs.mapM f = some ys := by
  induction h with
  | nil => rfl
  | cons hx _ ih => simp [hx, ih]

/-- All the fields of a record that is written by name are found. -/
theorem fields?_ofMembers (hnodup : names.Nodup) (hlength : names.length = js.length) :
    (Json.ofMembers (names.zip js)).fields? names = some (js.map some) := by
  have hkeys : (names.zip js).map Prod.fst = names := map_fst_zip (Nat.le_of_eq hlength)
  have hobject : Json.ofMembers (names.zip js) = .object ((names.zip js).map fun m => (some m.1, m.2)) := rfl
  have hall : ((names.zip js).map fun m => (some m.1, m.2)).all (·.1.isSome) = true := by
    simp
  rw [hobject, Json.fields?, if_pos hall]
  apply mapM_of_forall₂
  rw [forall₂_map_right_iff, forall₂_iff_zip]
  exact ⟨hlength, fun h => member?_of_mem (hkeys.symm ▸ hnodup) h⟩

/-- Each value of a list is within the levels of the list. -/
theorem forall₂_depth {R : α → Json → Prop} (h : List.Forall₂ R xs js)
    (hdepth : Json.depths js ≤ levels) : List.Forall₂ (fun x j => R x j ∧ j.depth ≤ levels) xs js := by
  induction h with
  | nil => exact .nil
  | cons hx _ ih =>
    rw [Json.depths, Nat.max_le] at hdepth
    exact .cons ⟨hx, hdepth.1⟩ (ih hdepth.2)

theorem forall₂_gives {fields : List Field} (h : List.Forall₂ Written (fields.map Field.content) js)
    (hdepth : Json.depths js ≤ levels) : List.Forall₂ (Gives levels) fields (js.map some) := by
  rw [forall₂_map_left_iff] at h
  rw [forall₂_map_right_iff]
  exact (forall₂_depth h hdepth).imp fun f j hj => .inl ⟨j, rfl, hj⟩

theorem forall₂_gives_none {fields : List Field} (h : ∀ f ∈ fields, f.optional = true) :
    List.Forall₂ (Gives levels) fields (List.replicate fields.length none) := by
  induction fields with
  | nil => exact .nil
  | cons f fields ih =>
    obtain ⟨hf, hfields⟩ := forall_mem_cons.mp h
    exact .cons (.inr ⟨rfl, hf⟩) (ih hfields)

/-- A record that is written in one way or the other gives all its fields, but for optional ones at its end. -/
theorem Written.fields {fields : List Field} (h : (record fields).Written j) (names : List String)
    (hnames : fields.map Field.name = names) (hnodup : names.Nodup) (hdepth : j.depth ≤ levels) :
    ∃ left given, levels = left + 1 ∧ j.fields? names = some given ∧ List.Forall₂ (Gives left) fields given := by
  subst hnames
  cases h with
  | @byName _ js h =>
    have hlength : (fields.map Field.name).length = js.length := by
      rw [← h.length_eq, length_map, length_map]
    have hvalues : ((fields.map Field.name).zip js).map Prod.snd = js :=
      map_snd_zip (Nat.le_of_eq hlength.symm)
    have hobject : (Json.ofMembers ((fields.map Field.name).zip js)).depth = Json.depths js + 1 := by
      rw [← hvalues, ← memberDepths_map, hvalues]
      rfl
    obtain ⟨left, rfl⟩ : ∃ left, levels = left + 1 := ⟨levels - 1, by omega⟩
    exact ⟨left, js.map some, rfl, fields?_ofMembers hnodup hlength, forall₂_gives h (by omega)⟩
  | @byPosition _ js given h hrest =>
    have hlength : js.length = (fields.take given).length := by
      rw [← h.length_eq, length_map]
    have hdropped : (fields.map Field.name).length - js.length = (fields.drop given).length := by
      rw [hlength, length_map, length_take, length_drop]
      omega
    rw [Json.depth] at hdepth
    obtain ⟨left, rfl⟩ : ∃ left, levels = left + 1 := ⟨levels - 1, by omega⟩
    refine ⟨left, js.map some ++ List.replicate (fields.drop given).length none, rfl, ?_, ?_⟩
    · rw [Json.fields?, if_pos, hdropped]
      rw [hlength, length_map, length_take]
      exact Nat.min_le_right _ _
    · have hall : List.Forall₂ (Gives left) (fields.take given ++ fields.drop given)
          (js.map some ++ List.replicate (fields.drop given).length none) :=
        rel_append (forall₂_gives h (by omega)) (forall₂_gives_none hrest)
      rwa [take_append_drop] at hall

/-! ### Reading the fields of a record -/

section Gives

variable {decode : Nat → Json → Option α} {content : Form} {a : α} {left : Nat} {name : String} {given : Option Json}
  {form : α → Form} {o : Option α}

theorem Reads.required (h : Reads decode content a) (hgiven : Gives left ⟨name, false, content⟩ given) :
    ∃ j, given = some j ∧ decode left j = some a := by
  rcases hgiven with ⟨j, rfl, hj, hdepth⟩ | ⟨-, hoptional⟩
  · exact ⟨j, rfl, h left j hj hdepth⟩
  · exact Bool.noConfusion hoptional

theorem Reads.orElse (h : Reads decode content a) (default : α)
    (hdefault : optional = true → a = default) (hgiven : Gives left ⟨name, optional, content⟩ given) :
    Json.orElse default (decode left) given = some a := by
  rcases hgiven with ⟨j, rfl, hj, hdepth⟩ | ⟨rfl, hoptional⟩
  · exact h left j hj hdepth
  · rw [hdefault hoptional]
    rfl

def ofOption (form : α → Form) : Option α → Form
  | some a => form a
  | none => .scalar .absent

theorem Written.record_ne_null {fields : List Field} (h : (record fields).Written j) : j ≠ .null := by
  cases h with
  | byName h | byPosition given h hrest => exact fun h => Json.noConfusion h

/-- What there is of a field that may be missing: nothing or null if it is missing, and else what it is read from. -/
theorem Gives.option (hgiven : Gives left ⟨name, optional, ofOption form o⟩ given)
    (hdefault : optional = true → o = none) (hrecord : ∀ a, ∃ fields, form a = record fields)
    (h : ∀ a, o = some a → Reads decode (form a) a) : (o = none ∧ (given = none ∨ given = some .null)) ∨
      ∃ a j, o = some a ∧ given = some j ∧ j ≠ .null ∧ decode left j = some a := by
  rcases hgiven with ⟨j, rfl, hj, hdepth⟩ | ⟨rfl, hoptional⟩
  · cases o with
    | none =>
      cases hj with
      | scalar => exact .inl ⟨rfl, .inr rfl⟩
    | some a =>
      obtain ⟨fields, hfields⟩ := hrecord a
      have hj' : (form a).Written j := hj
      exact .inr ⟨a, j, rfl, rfl, (hfields ▸ hj').record_ne_null, h a rfl left j hj hdepth⟩
  · exact .inl ⟨hdefault hoptional, .inl rfl⟩

theorem Reads.orNull (h : ∀ a, o = some a → Reads decode (form a) a)
    (hrecord : ∀ a, ∃ fields, form a = record fields) (hdefault : optional = true → o = none)
    (hgiven : Gives left ⟨name, optional, ofOption form o⟩ given) : Json.orNull (decode left) given = some o := by
  rcases hgiven.option hdefault hrecord h with ⟨rfl, rfl | rfl⟩ | ⟨a, j, rfl, rfl, hnull, hread⟩
  · rfl
  · rfl
  · cases j with
    | null => exact absurd rfl hnull
    | _ => exact congrArg (Option.map some) hread

end Gives

theorem Written.tagged_inv {name : String} {content : Form} (h : (Form.tagged name content).Written j)
    (hdepth : j.depth ≤ levels) :
    ∃ left c, levels = left + 1 ∧ j = .object [(some name, c)] ∧ content.Written c ∧ c.depth ≤ left := by
  cases h with
  | @tagged _ _ c h =>
    have hobject : (Json.ofMembers [(name, c)]).depth = c.depth + 1 := by
      exact congrArg (· + 1) (Nat.max_zero c.depth)
    exact ⟨levels - 1, c, by omega, rfl, h, by omega⟩

/-- An alternative whose content is a record gives the fields of the record. -/
theorem Written.tagged_fields {name : String} {fields : List Field}
    (h : (Form.tagged name (.record fields)).Written j) (names : List String)
    (hnames : fields.map Field.name = names) (hnodup : names.Nodup) (hdepth : j.depth ≤ levels) :
    ∃ left c given, levels = left + 2 ∧ j = .object [(some name, c)] ∧ c.fields? names = some given ∧
      List.Forall₂ (Gives left) fields given := by
  obtain ⟨left, c, rfl, rfl, hc, hcDepth⟩ := h.tagged_inv hdepth
  obtain ⟨left, given, rfl, hgiven, hfields⟩ := hc.fields names hnames hnodup hcDepth
  exact ⟨left, c, given, rfl, rfl, hgiven, hfields⟩

theorem Written.scalar_inv (h : (Form.scalar s).Written j) : j = s.toJson := by
  cases h
  rfl

theorem Written.list_inv (h : (Form.list forms).Written j) (hdepth : j.depth ≤ levels) :
    ∃ left js, levels = left + 1 ∧ j = .array js ∧
      List.Forall₂ (fun form j => form.Written j ∧ j.depth ≤ left) forms js := by
  cases h with
  | @list _ js h =>
    rw [Json.depth] at hdepth
    exact ⟨levels - 1, js, by omega, rfl, forall₂_depth h (by omega)⟩

theorem forall₂_reads {left : Nat} (h : List.Forall₂ (Reads elem) forms as)
    (hjs : List.Forall₂ (fun form j => form.Written j ∧ j.depth ≤ left) forms js) :
    List.Forall₂ (fun j a => elem left j = some a) js as := by
  induction h generalizing js with
  | nil =>
    cases hjs
    exact .nil
  | cons ha _ ih =>
    cases hjs with
    | cons hj hjs => exact .cons (ha left _ hj.1 hj.2) (ih hjs)

theorem Reads.list (h : List.Forall₂ (Reads elem) forms as) : Reads (Decode.list? elem) (.list forms) as := by
  intro levels j hj hdepth
  obtain ⟨left, js, rfl, rfl, hjs⟩ := hj.list_inv hdepth
  exact mapM_of_forall₂ (forall₂_reads h hjs)

section Alternatives

variable {β γ δ : Type} {node? : Nat → Json → Option δ} {tag x y z : String} {d : δ} {first second third : Form}
  {first? : Nat → Json → Option α} {second? : Nat → Json → Option β} {third? : Nat → Json → Option γ} {a : α} {b : β}
  {c : γ}

/-- An alternative is given back by a decoder that does so whenever the content is. -/
theorem Reads.alternative (h : Reads first? first a)
    (hnode : ∀ left j, first? left j = some a → node? (left + 1) (.object [(some tag, j)]) = some d) :
    Reads node? (.tagged tag first) d := by
  intro levels j hj hdepth
  obtain ⟨left, content, rfl, rfl, hcontent, hcontentDepth⟩ := hj.tagged_inv hdepth
  exact hnode left content (h left content hcontent hcontentDepth)

theorem Reads.pair (hnodup : [x, y].Nodup) (ha : Reads first? first a) (hb : Reads second? second b)
    (hnode : ∀ left j ja jb, j.fields? [x, y] = some [some ja, some jb] → first? left ja = some a →
      second? left jb = some b → node? (left + 2) (.object [(some tag, j)]) = some d) :
    Reads node? (.tagged tag (.record [⟨x, false, first⟩, ⟨y, false, second⟩])) d := by
  intro levels j hj hdepth
  obtain ⟨left, content, given, rfl, rfl, hgiven, hfields⟩ := hj.tagged_fields [x, y] rfl hnodup hdepth
  rcases hfields with _ | ⟨ga, _ | ⟨gb, ⟨⟩⟩⟩
  obtain ⟨ja, rfl, hja⟩ := ha.required ga
  obtain ⟨jb, rfl, hjb⟩ := hb.required gb
  exact hnode left content ja jb hgiven hja hjb

theorem Reads.couple (ha : Reads first? first a) (hb : Reads second? second b)
    (hnode : ∀ left ja jb, first? left ja = some a → second? left jb = some b →
      node? (left + 2) (.object [(some tag, .array [ja, jb])]) = some d) :
    Reads node? (.tagged tag (.list [first, second])) d := by
  intro levels j hj hdepth
  obtain ⟨left, content, rfl, rfl, hcontent, hcontentDepth⟩ := hj.tagged_inv hdepth
  obtain ⟨left, js, rfl, rfl, hjs⟩ := hcontent.list_inv hcontentDepth
  rcases hjs with _ | ⟨⟨hja, haDepth⟩, _ | ⟨⟨hjb, hbDepth⟩, ⟨⟩⟩⟩
  exact hnode left _ _ (ha left _ hja haDepth) (hb left _ hjb hbDepth)

theorem Reads.triple (hnodup : [x, y, z].Nodup) (ha : Reads first? first a) (hb : Reads second? second b)
    (hc : Reads third? third c)
    (hnode : ∀ left j ja jb jc, j.fields? [x, y, z] = some [some ja, some jb, some jc] → first? left ja = some a →
      second? left jb = some b → third? left jc = some c → node? (left + 2) (.object [(some tag, j)]) = some d) :
    Reads node? (.tagged tag (.record [⟨x, false, first⟩, ⟨y, false, second⟩, ⟨z, false, third⟩])) d := by
  intro levels j hj hdepth
  obtain ⟨left, content, given, rfl, rfl, hgiven, hfields⟩ := hj.tagged_fields [x, y, z] rfl hnodup hdepth
  rcases hfields with _ | ⟨ga, _ | ⟨gb, _ | ⟨gc, ⟨⟩⟩⟩⟩
  obtain ⟨ja, rfl, hja⟩ := ha.required ga
  obtain ⟨jb, rfl, hjb⟩ := hb.required gb
  obtain ⟨jc, rfl, hjc⟩ := hc.required gc
  exact hnode left content ja jb jc hgiven hja hjb hjc

end Alternatives

end Form

end Aero
