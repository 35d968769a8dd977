import GrinWallet.Lib.Effect
import GrinWallet.Lib.Document
import Mathlib.Data.List.Basic

/-! # Records written as tables of a document

A record type is written as a table with one entry for each field that is set and read
back by looking its fields up; entries that are no fields are passed over. What is
written has the form of the type's schema, and what is read from a table is written
again under every key of the schema that the table has.
-/

namespace Document

open Effect

/-! ## Schemas -/

/-- The keys a type knows: none below a leaf, those of its fields for a record. -/
inductive Schema
  | leaf
  | record (fields : List (String × Schema))

/-- What a path leads to for a schema. -/
inductive Place
  | value
  | section
  | inValue
  | unknown
deriving DecidableEq

namespace Schema

def place : List String → Schema → Place
  | [], .leaf => .value
  | [], .record _ => .section
  | _ :: _, .leaf => .inValue
  | name :: path, .record fields =>
      match fields.lookup name with
      | some s => place path s
      | none => .unknown

theorem place_cons {fields : List (String × Schema)} {name : String} {s : Schema}
    (h : fields.lookup name = some s) (path : List String) :
    (record fields).place (name :: path) = s.place path := by
  simp [place, h]

theorem place_cons_unknown {fields : List (String × Schema)} {name : String}
    (h : fields.lookup name = none) (path : List String) :
    (record fields).place (name :: path) = .unknown := by
  simp [place, h]

end Schema

/-- An item of a schema's form: tables stand where the schema has records, values that
are no tables stand at its leaves, and there is nothing else. -/
def HasForm (schema : Schema) (item : Item) : Prop :=
  ∀ path found, item.find path = some found →
    match schema.place path with
    | .value => found.entries? = none ∧ found.valueDecor.isSome
    | .section => found.asTable.isSome
    | .inValue => False
    | .unknown => False

/-- No table of the item has a key twice. -/
def Keyed (item : Item) : Prop :=
  ∀ path found entries, item.find path = some found → found.entries? = some entries →
    entries.names.Nodup

/-- Every key of the schema that the one item has is in the other. -/
def Covers (schema : Schema) (known item : Item) : Prop :=
  ∀ path, schema.place path = .value ∨ schema.place path = .section →
    (item.find path).isSome → (known.find path).isSome

section Forms

variable {fields : List (String × Schema)} {name : String} {s : Schema} {item known i j : Item}

theorem HasForm.get (h : HasForm (.record fields) item) (hs : fields.lookup name = some s)
    (hget : item.get name = some i) : HasForm s i := by
  intro path found hfind
  have hitem := h (name :: path) found (by rw [Item.find, hget]; exact hfind)
  rw [Schema.place_cons hs] at hitem
  exact hitem

theorem HasForm.get_unknown (h : HasForm (.record fields) item) (hs : fields.lookup name = none) :
    item.get name = none := by
  cases hget : item.get name with
  | none => rfl
  | some i =>
      have hitem := h [name] i (by rw [Item.find, hget]; rfl)
      rw [Schema.place_cons_unknown hs] at hitem
      exact hitem.elim

theorem HasForm.table (h : HasForm (.record fields) item) : ∃ es, item.asTable = some es := by
  have hitem := h [] item rfl
  exact Option.isSome_iff_exists.mp hitem

theorem HasForm.root {es : Entries} (h : HasForm (.record fields) item)
    (hes : item.entries? = some es) : HasForm (.record fields) es.root := by
  intro path found hfind
  cases path with
  | nil =>
      cases hfind
      rfl
  | cons name path =>
      rw [Item.find_cons_congr (show es.root.entries? = item.entries? from hes.symm)] at hfind
      exact h (name :: path) found hfind

theorem HasForm.leaf (h : HasForm .leaf item) : item.entries? = none ∧ item.valueDecor.isSome :=
  h [] item rfl

theorem hasForm_leaf (hentries : item.entries? = none) (hvalue : item.valueDecor.isSome) :
    HasForm .leaf item := by
  intro path found hfind
  cases path with
  | nil =>
      cases hfind
      exact ⟨hentries, hvalue⟩
  | cons name path =>
      rw [Item.find_cons_of_none hentries] at hfind
      cases hfind

theorem Keyed.get (h : Keyed item) (hget : item.get name = some i) : Keyed i := by
  intro path found entries hfind hentries
  exact h (name :: path) found entries (by rw [Item.find, hget]; exact hfind) hentries

theorem Keyed.root {es : Entries} (h : Keyed item) (hes : item.entries? = some es) :
    Keyed es.root := by
  intro path found entries hfind hentries
  cases path with
  | nil =>
      cases hfind
      cases hentries
      exact h [] item es rfl hes
  | cons name path =>
      rw [Item.find_cons_congr (show es.root.entries? = item.entries? from hes.symm)] at hfind
      exact h (name :: path) found entries hfind hentries

theorem keyed_of_value (h : item.entries? = none) : Keyed item := by
  intro path found entries hfind hentries
  cases path with
  | nil =>
      cases hfind
      rw [h] at hentries
      cases hentries
  | cons name path =>
      rw [Item.find_cons_of_none h] at hfind
      cases hfind

theorem Covers.get (h : Covers (.record fields) known item) (hs : fields.lookup name = some s)
    (hget : item.get name = some i) : ∃ j, known.get name = some j ∧ Covers s j i := by
  have hsome : (known.get name).isSome := by
    have hplace : s.place [] = .value ∨ s.place [] = .section := by
      cases s with
      | leaf => exact .inl rfl
      | record _ => exact .inr rfl
    have hfind := h [name] (by rw [Schema.place_cons hs]; exact hplace) (by
      rw [Item.find, hget]
      rfl)
    cases hk : known.get name with
    | none =>
        rw [Item.find, hk] at hfind
        cases hfind
    | some j => rfl
  obtain ⟨j, hj⟩ := Option.isSome_iff_exists.mp hsome
  refine ⟨j, hj, fun path hplace hfind => ?_⟩
  have hknown := h (name :: path) (by rw [Schema.place_cons hs]; exact hplace) (by
    rw [Item.find, hget]
    exact hfind)
  rw [Item.find, hj] at hknown
  exact hknown

theorem HasForm.of_entries {es : Entries}
    (h : ∀ name i, es.get name = some i → ∃ s, fields.lookup name = some s ∧ HasForm s i)
    (dotted : Bool) (decor : Decor) : HasForm (.record fields) (.table es dotted decor) := by
  intro path found hfind
  cases path with
  | nil =>
      cases hfind
      rfl
  | cons name path =>
      rw [Item.find_cons_of_entries rfl] at hfind
      cases hget : es.get name with
      | none =>
          rw [hget] at hfind
          cases hfind
      | some i =>
          rw [hget] at hfind
          obtain ⟨s, hs, hform⟩ := h name i hget
          rw [Schema.place_cons hs]
          exact hform path found hfind

theorem Keyed.of_entries {es : Entries} (hnames : es.names.Nodup)
    (h : ∀ name i, es.get name = some i → Keyed i) (dotted : Bool) (decor : Decor) :
    Keyed (.table es dotted decor) := by
  intro path found entries hfind hentries
  cases path with
  | nil =>
      cases hfind
      cases hentries
      exact hnames
  | cons name path =>
      rw [Item.find_cons_of_entries rfl] at hfind
      cases hget : es.get name with
      | none =>
          rw [hget] at hfind
          cases hfind
      | some i =>
          rw [hget] at hfind
          exact h name i hget path found entries hfind hentries

theorem Covers.of_entries {ks es : Entries} (hknown : known.entries? = some ks)
    (hitem : item.entries? = some es) (h : ∀ name s i, fields.lookup name = some s →
      es.get name = some i → ∃ j, ks.get name = some j ∧ Covers s j i) :
    Covers (.record fields) known item := by
  intro path hplace hfind
  cases path with
  | nil => rfl
  | cons name path =>
      cases hlookup : fields.lookup name with
      | none =>
          rw [Schema.place_cons_unknown hlookup] at hplace
          rcases hplace with h | h <;> cases h
      | some s =>
          rw [Schema.place_cons hlookup] at hplace
          rw [Item.find_cons_of_entries hitem] at hfind
          cases hget : es.get name with
          | none =>
              rw [hget] at hfind
              cases hfind
          | some i =>
              rw [hget] at hfind
              obtain ⟨j, hj, hcovers⟩ := h name s i hlookup hget
              rw [Item.find_cons_of_entries hknown, hj]
              exact hcovers path hplace hfind

theorem Covers.root {ks es : Entries} (h : Covers (.record fields) known item)
    (hks : known.entries? = some ks) (hes : item.entries? = some es) :
    Covers (.record fields) ks.root es.root := by
  intro path hplace hfind
  cases path with
  | nil => rfl
  | cons name path =>
      rw [Item.find_cons_congr (show es.root.entries? = item.entries? from hes.symm)] at hfind
      rw [Item.find_cons_congr (show ks.root.entries? = known.entries? from hks.symm)]
      exact h (name :: path) hplace hfind

theorem covers_leaf (known item : Item) : Covers .leaf known item := by
  intro path hplace _
  cases path with
  | nil => rfl
  | cons name path => rcases hplace with h | h <;> cases h

end Forms

/-! ## Writing and reading -/

/-- A type whose values are written under a key and read back; a value may be written as
no key at all, and what a missing key is read as is the type's choice. -/
class Serde (α : Type) where
  schema : Schema
  serialize : α → Option Item
  deserialize : Option Item → Except String α

/-- What is written has the form of the schema, and what is read from an item is written
again, under every key of the schema the item has. -/
class LawfulSerde (α : Type) [Serde α] : Prop where
  form : ∀ (a : α) i, Serde.serialize a = some i → HasForm (Serde.schema α) i ∧ Keyed i
  covers : ∀ (a : α) i, Serde.deserialize (some i) = .ok a →
    ∃ j, Serde.serialize a = some j ∧ Covers (Serde.schema α) j i

/-- A type written as one value under a key that has to be there. -/
@[reducible]
def Serde.leaf {α : Type} (write : α → Item) (read : Item → Except String α) : Serde α where
  schema := .leaf
  serialize a := some (write a)
  deserialize
    | none => .error "missing field"
    | some item => read item

theorem LawfulSerde.leaf {α : Type} {write : α → Item} {read : Item → Except String α}
    (h : ∀ a, (write a).entries? = none ∧ (write a).valueDecor.isSome) :
    @LawfulSerde α (Serde.leaf write read) := by
  let _ := Serde.leaf write read
  refine ⟨fun a i hi => ?_, fun a i _ => ⟨write a, rfl, covers_leaf _ _⟩⟩
  cases hi
  exact ⟨hasForm_leaf (h a).1 (h a).2, keyed_of_value (h a).1⟩

instance : Serde Bool :=
  .leaf (fun b => .scalar (.boolean b) .plain) fun
    | .scalar (.boolean b) _ => .ok b
    | _ => .error "invalid type, expected a boolean"

instance : LawfulSerde Bool := .leaf fun _ => ⟨rfl, rfl⟩

instance : Serde String :=
  .leaf (fun s => .scalar (.string s) .plain) fun
    | .scalar (.string s) _ => .ok s
    | _ => .error "invalid type, expected a string"

instance : LawfulSerde String := .leaf fun _ => ⟨rfl, rfl⟩

/-- The number an item holds, if it is below a bound. -/
def readInteger (bound : Nat) : Item → Except String Nat
  | .scalar (.integer i) _ =>
      if 0 ≤ i ∧ i.toNat < bound then .ok i.toNat else .error "invalid value, integer out of range"
  | _ => .error "invalid type, expected an integer"

def writeInteger (n : Nat) : Item := .scalar (.integer n) .plain

instance : Serde UInt16 :=
  .leaf (fun n => writeInteger n.toNat) fun item => (readInteger (2 ^ 16) item).map .ofNat

instance : LawfulSerde UInt16 := .leaf fun _ => ⟨rfl, rfl⟩

instance : Serde UInt32 :=
  .leaf (fun n => writeInteger n.toNat) fun item => (readInteger (2 ^ 32) item).map .ofNat

instance : LawfulSerde UInt32 := .leaf fun _ => ⟨rfl, rfl⟩

instance : Serde UInt64 :=
  .leaf (fun n => writeInteger n.toNat) fun item => (readInteger (2 ^ 64) item).map .ofNat

instance : LawfulSerde UInt64 := .leaf fun _ => ⟨rfl, rfl⟩

/-- A list of values as an array. -/
def Elements.ofList : List Item → Elements
  | [] => .nil
  | item :: items => .cons item (.ofList items)

def Elements.toList : Elements → List Item
  | .nil => []
  | .cons item rest => item :: rest.toList

instance : Serde (List UInt16) :=
  .leaf (fun l => .array (.ofList (l.map fun n => writeInteger n.toNat)) .plain) fun
    | .array elements _ => elements.toList.mapM fun item => (readInteger (2 ^ 16) item).map .ofNat
    | _ => .error "invalid type, expected a sequence"

instance : LawfulSerde (List UInt16) := .leaf fun _ => ⟨rfl, rfl⟩

/-- An optional value is written as no key when there is none. -/
instance {α : Type} [Serde α] : Serde (Option α) where
  schema := Serde.schema α
  serialize
    | none => none
    | some a => Serde.serialize a
  deserialize
    | none => .ok none
    | some item => (Serde.deserialize (some item)).map some

instance {α : Type} [Serde α] [LawfulSerde α] : LawfulSerde (Option α) where
  form a i h := by
    cases a with
    | none => cases h
    | some a => exact LawfulSerde.form a i h
  covers a i h := by
    change Except.map some (Serde.deserialize (some i) : Except String α) = .ok a at h
    cases hread : (Serde.deserialize (some i) : Except String α) with
    | error e =>
        rw [hread] at h
        cases h
    | ok b =>
        rw [hread] at h
        cases h
        exact LawfulSerde.covers b i hread

/-! ## Records -/

/-- The fields of a record, written one after the other and read by name. -/
structure Fields (α : Type) where
  schema : List (String × Schema)
  serialize : α → Entries
  deserialize : Entries → Except String α

namespace Fields

variable {α β : Type}

def done : Fields Unit := ⟨[], fun _ => .nil, fun _ => .ok ()⟩

/-- A field in front of others; `missing` is what it is read as when its key is missing. -/
def fieldOr [Serde α] (name : String) (missing : Except String α) (rest : Fields β) :
    Fields (α × β) where
  schema := (name, Serde.schema α) :: rest.schema
  serialize r :=
    match Serde.serialize r.1 with
    | none => rest.serialize r.2
    | some item => .cons ⟨name, .plain⟩ item (rest.serialize r.2)
  deserialize entries := do
    let a ← (entries.get name).elim missing fun item => Serde.deserialize (some item)
    let b ← rest.deserialize entries
    return (a, b)

def field [Serde α] (name : String) (rest : Fields β) : Fields (α × β) :=
  fieldOr name (Serde.deserialize none) rest

structure Lawful (fs : Fields α) : Prop where
  names : ∀ a, (fs.serialize a).names.Sublist (fs.schema.map Prod.fst)
  form : ∀ a name i, (fs.serialize a).get name = some i →
    ∃ s, fs.schema.lookup name = some s ∧ HasForm s i ∧ Keyed i
  covers : ∀ entries a, fs.deserialize entries = .ok a → ∀ name s i,
    fs.schema.lookup name = some s → entries.get name = some i →
      ∃ j, (fs.serialize a).get name = some j ∧ Covers s j i

theorem Lawful.done : done.Lawful where
  names _ := List.Sublist.refl _
  form a name i h := by cases h
  covers entries a _ name s i h := by cases h

theorem get_fieldOr [Serde α] {rest : Fields β} (name other : String) (missing : Except String α)
    (r : α × β) (hname : name ∉ (rest.serialize r.2).names) :
    ((fieldOr name missing rest).serialize r).get other =
      if other = name then Serde.serialize r.1 else (rest.serialize r.2).get other := by
  change (match Serde.serialize r.1 with
    | none => rest.serialize r.2
    | some item => .cons ⟨name, .plain⟩ item (rest.serialize r.2)).get other = _
  cases Serde.serialize r.1 with
  | none =>
      by_cases h : other = name
      · rw [if_pos h, h]
        exact Entries.get_eq_none.mpr hname
      · rw [if_neg h]
  | some item =>
      by_cases h : other = name
      · simp [Entries.get, h]
      · simp [Entries.get, h, Ne.symm h]

theorem lookup_fieldOr [Serde α] {rest : Fields β} (name other : String) (missing : Except String α) :
    (fieldOr name missing rest).schema.lookup other =
      if other = name then some (Serde.schema α) else rest.schema.lookup other := by
  by_cases h : other = name
  · simp [fieldOr, h]
  · have hne : (other == name) = false := by simp [h]
    simp [fieldOr, List.lookup_cons, hne, h]

theorem Lawful.fieldOr [Serde α] [LawfulSerde α] {rest : Fields β} (h : rest.Lawful)
    {name : String} (hname : name ∉ rest.schema.map Prod.fst) (missing : Except String α) :
    (fieldOr name missing rest).Lawful where
  names r := by
    change (match Serde.serialize r.1 with
      | none => rest.serialize r.2
      | some item => .cons ⟨name, .plain⟩ item (rest.serialize r.2)).names.Sublist _
    cases Serde.serialize r.1 with
    | none => exact (h.names r.2).cons _
    | some item => exact (h.names r.2).cons_cons _
  form r other i hget := by
    rw [get_fieldOr name other missing r fun hmem => hname ((h.names r.2).subset hmem)] at hget
    rw [lookup_fieldOr]
    by_cases heq : other = name
    · rw [if_pos heq] at hget ⊢
      exact ⟨_, rfl, LawfulSerde.form r.1 i hget⟩
    · rw [if_neg heq] at hget ⊢
      exact h.form r.2 other i hget
  covers entries r hread other s i hlookup hget := by
    obtain ⟨a, ha, hrest⟩ := except_bind_eq_ok.mp hread
    obtain ⟨b, hb, hr⟩ := except_bind_eq_ok.mp hrest
    cases hr
    rw [get_fieldOr name other missing (a, b) fun hmem => hname ((h.names b).subset hmem)]
    rw [lookup_fieldOr] at hlookup
    by_cases heq : other = name
    · rw [if_pos heq] at hlookup ⊢
      cases hlookup
      subst heq
      rw [hget] at ha
      exact LawfulSerde.covers a i ha
    · rw [if_neg heq] at hlookup ⊢
      exact h.covers entries b hb other s i hlookup hget

theorem Lawful.field [Serde α] [LawfulSerde α] {rest : Fields β} (h : rest.Lawful) {name : String}
    (hname : name ∉ rest.schema.map Prod.fst) : (field (α := α) name rest).Lawful :=
  h.fieldOr hname _

end Fields

/-- A record is written as a table of its fields; it is read from a table of any form. -/
@[reducible]
def Serde.record {α β : Type} (fields : Fields β) (parts : α → β) (make : β → α) : Serde α where
  schema := .record fields.schema
  serialize a := some (.table (fields.serialize (parts a)) false .plain)
  deserialize
    | none => .error "missing field"
    | some item =>
        match item.entries? with
        | none => .error "invalid type, expected a table"
        | some entries => (fields.deserialize entries).map make

theorem LawfulSerde.record {α β : Type} {fields : Fields β} {parts : α → β} {make : β → α}
    (h : fields.Lawful) (hnames : (fields.schema.map Prod.fst).Nodup)
    (hparts : ∀ b, parts (make b) = b) : @LawfulSerde α (Serde.record fields parts make) := by
  let _ := Serde.record fields parts make
  refine ⟨fun a i hi => ?_, fun a i hread => ?_⟩
  · cases hi
    constructor
    · apply HasForm.of_entries
      intro name i hget
      obtain ⟨s, hs, hform, -⟩ := h.form (parts a) name i hget
      exact ⟨s, hs, hform⟩
    · apply Keyed.of_entries ((h.names (parts a)).nodup hnames)
      intro name i hget
      obtain ⟨s, -, -, hkeyed⟩ := h.form (parts a) name i hget
      exact hkeyed
  · refine ⟨_, rfl, ?_⟩
    cases hentries : i.entries? with
    | none => simp [Serde.deserialize, hentries] at hread
    | some entries =>
        have hmap : (fields.deserialize entries).map make = .ok a := by
          simpa [Serde.deserialize, hentries] using hread
        cases hfields : fields.deserialize entries with
        | error e =>
            rw [hfields] at hmap
            cases hmap
        | ok b =>
            rw [hfields] at hmap
            cases hmap
            apply Covers.of_entries rfl hentries
            rw [hparts]
            exact h.covers entries b hfields

end Document
