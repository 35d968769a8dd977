import Mathlib.Algebra.Group.Nat.Defs
import Mathlib.Data.List.Nodup

/-! # Documents of nested tables

A document is an ordered tree of keyed entries, as configuration formats have it:
under a key stands a value, an array, a table written inline as a value, or a table
with entries of its own. Keys and values carry the text around them.
-/

namespace Document

/-- The text before and after a key or a value: blanks and comments. -/
structure Decor where
  before : String
  after : String
deriving DecidableEq

def Decor.plain : Decor := ⟨"", ""⟩

structure Key where
  name : String
  decor : Decor
deriving DecidableEq

inductive Scalar
  | string (s : String)
  | integer (i : Int)
  | float (text : String)
  | boolean (b : Bool)
  | datetime (text : String)
deriving DecidableEq

mutual

/-- What stands under a key. -/
inductive Item
  | scalar (value : Scalar) (decor : Decor)
  | array (elements : Elements) (decor : Decor)
  | inlineTable (entries : Entries) (decor : Decor)
  | table (entries : Entries) (dotted : Bool) (decor : Decor)
  | arrayOfTables (elements : Elements)

/-- The entries of a table, in order. -/
inductive Entries
  | nil
  | cons (key : Key) (item : Item) (rest : Entries)

inductive Elements
  | nil
  | cons (item : Item) (rest : Elements)

end

deriving instance DecidableEq for Item, Entries, Elements

/-! ## Entries -/

namespace Entries

@[induction_eliminator]
theorem induct {P : Entries → Prop} (nil : P .nil)
    (cons : ∀ key item rest, P rest → P (.cons key item rest)) : ∀ es, P es
  | .nil => nil
  | .cons key item rest => cons key item rest (induct nil cons rest)

def names : Entries → List String
  | .nil => []
  | .cons key _ rest => key.name :: rest.names

def get (name : String) : Entries → Option Item
  | .nil => none
  | .cons key item rest => if key.name = name then some item else rest.get name

def remove (name : String) : Entries → Entries
  | .nil => .nil
  | .cons key item rest =>
      if key.name = name then rest.remove name else .cons key item (rest.remove name)

/-- Put an item under a key that is there; the key stays as it is written. -/
def set (name : String) (item : Item) : Entries → Entries
  | .nil => .nil
  | .cons key old rest =>
      .cons key (if key.name = name then item else old) (rest.set name item)

def push (key : Key) (item : Item) : Entries → Entries
  | .nil => .cons key item .nil
  | .cons key' item' rest => .cons key' item' (rest.push key item)

variable {name other : String} {item : Item} {key : Key} {es : Entries}

@[simp] theorem get_nil : Entries.nil.get name = none := rfl

theorem get_eq_none : es.get name = none ↔ name ∉ es.names := by
  induction es with
  | nil => simp [get, names]
  | cons key item rest ih =>
      by_cases h : key.name = name
      · simp [get, names, h]
      · simp [get, names, h, ih, Ne.symm h]

theorem mem_names : name ∈ es.names ↔ (es.get name).isSome := by
  rw [Option.isSome_iff_ne_none, Ne, get_eq_none, not_not]

theorem get_remove : (es.remove name).get other = if other = name then none else es.get other := by
  induction es with
  | nil => simp [remove]
  | cons key item rest ih =>
      by_cases hother : other = name
      · subst hother
        by_cases h : key.name = other <;> simp [remove, get, h, ih]
      · by_cases h : key.name = name
        · simp [remove, get, h, ih, hother, Ne.symm hother]
        · simp [remove, get, h, ih, hother]

theorem get_set : (es.set name item).get other =
    if other = name ∧ (es.get name).isSome then some item else es.get other := by
  induction es with
  | nil => simp [set]
  | cons key old rest ih =>
      by_cases hother : other = name
      · subst hother
        by_cases h : key.name = other <;> simp [set, get, h, ih]
      · by_cases h : key.name = name
        · simp [set, get, h, ih, hother, Ne.symm hother]
        · simp [set, get, h, ih, hother]

theorem get_push (h : es.get key.name = none) :
    (es.push key item).get other = if other = key.name then some item else es.get other := by
  induction es with
  | nil => simp [push, get, eq_comm]
  | cons key' item' rest ih =>
      have hne : key'.name ≠ key.name := fun heq => by simp [get, heq] at h
      have hrest : rest.get key.name = none := by simpa [get, hne] using h
      by_cases hother : other = key.name
      · subst hother
        simp [push, get, hne, ih hrest]
      · simp [push, get, ih hrest, hother]

end Entries

/-! ## Paths -/

namespace Item

/-- The entries of a table in any of its forms. -/
def entries? : Item → Option Entries
  | .inlineTable entries _ => some entries
  | .table entries _ _ => some entries
  | .scalar _ _ => none
  | .array _ _ => none
  | .arrayOfTables _ => none

/-- The entries of a table that is not written as a value. -/
def asTable : Item → Option Entries
  | .table entries _ _ => some entries
  | .scalar _ _ => none
  | .array _ _ => none
  | .inlineTable _ _ => none
  | .arrayOfTables _ => none

/-- The text around an item that is written as a value. -/
def valueDecor : Item → Option Decor
  | .scalar _ decor => some decor
  | .array _ decor => some decor
  | .inlineTable _ decor => some decor
  | .table _ _ _ => none
  | .arrayOfTables _ => none

def withValueDecor (decor : Decor) : Item → Item
  | .scalar value _ => .scalar value decor
  | .array elements _ => .array elements decor
  | .inlineTable entries _ => .inlineTable entries decor
  | .table entries dotted old => .table entries dotted old
  | .arrayOfTables elements => .arrayOfTables elements

/-- An item without the text around it. -/
def bare (item : Item) : Item := item.withValueDecor .plain

@[simp] theorem bare_withValueDecor (decor : Decor) (item : Item) :
    (item.withValueDecor decor).bare = item.bare := by
  cases item <;> rfl

theorem entries?_of_asTable {item : Item} {es : Entries} (h : item.asTable = some es) :
    item.entries? = some es := by
  cases item <;> first | exact h | cases h

def get (name : String) (item : Item) : Option Item := item.entries?.bind (·.get name)

/-- The item a path of keys leads to, through tables of any form. -/
def find : List String → Item → Option Item
  | [], item => some item
  | name :: path, item => (item.get name).bind (find path)

theorem find_cons_of_entries {item : Item} {es : Entries} (h : item.entries? = some es)
    (name : String) (path : List String) :
    item.find (name :: path) = (es.get name).bind (find path) := by
  rw [find, get, h]
  rfl

theorem find_cons_congr {item other : Item} (h : item.entries? = other.entries?) (name : String)
    (path : List String) : item.find (name :: path) = other.find (name :: path) := by
  rw [find, find, get, get, h]

theorem find_cons_of_none {item : Item} (h : item.entries? = none) (name : String)
    (path : List String) : item.find (name :: path) = none := by
  rw [find, get, h]
  rfl

end Item

/-- The document with these entries. -/
def Entries.root (es : Entries) : Item := .table es false .plain

/-- The item a path leads to in a document. -/
def Entries.find (path : List String) (es : Entries) : Option Item := es.root.find path

@[simp] theorem Entries.find_cons (es : Entries) (name : String) (path : List String) :
    es.find (name :: path) = (es.get name).bind (Item.find path) := rfl

end Document
