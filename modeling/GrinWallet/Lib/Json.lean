import GrinWallet.Lib.Wire
import Mathlib.Algebra.BigOperators.Group.List.Basic
import Mathlib.Algebra.GroupWithZero.Nat

/-! # Compact JSON

Values and the text they are written as, without blanks, and the bounds on its length
that follow from the parts. Strings are lists of characters, numbers naturals.
-/

namespace Json

open Wire

inductive Value
  | null
  | bool (b : Bool)
  | number (n : Nat)
  | string (s : List Char)
  | array (elements : List Value)
  | object (members : List (String × Value))

/-! ## Text -/

def utf8 (s : List Char) : Bytes := s.flatMap String.utf8EncodeChar

/-- A character of a string, escaped where it has to be. -/
def escape (c : Char) : List Char :=
  if c = '"' then ['\\', '"']
  else if c = '\\' then ['\\', '\\']
  else if c = '\n' then ['\\', 'n']
  else if c = '\r' then ['\\', 'r']
  else if c = '\t' then ['\\', 't']
  else if c.toNat = 8 then ['\\', 'b']
  else if c.toNat = 12 then ['\\', 'f']
  else if c.toNat < 32 then
    ['\\', 'u', '0', '0', (c.toNat / 16).digitChar, (c.toNat % 16).digitChar]
  else [c]

def quoted (s : List Char) : Bytes := 34 :: utf8 (s.flatMap escape) ++ [34]

/-- The parts between two brackets, with commas between them. -/
def bracketed (first last : UInt8) (parts : List Bytes) : Bytes :=
  first :: [44].intercalate parts ++ [last]

mutual

def render : Value → Bytes
  | .null => utf8 "null".toList
  | .bool b => utf8 (if b then "true" else "false").toList
  | .number n => utf8 (Nat.toDigits 10 n)
  | .string s => quoted s
  | .array elements => bracketed 91 93 (renderElements elements)
  | .object members => bracketed 123 125 (renderMembers members)

def renderElements : List Value → List Bytes
  | [] => []
  | v :: vs => render v :: renderElements vs

def renderMembers : List (String × Value) → List Bytes
  | [] => []
  | (key, v) :: rest => (quoted key.toList ++ 58 :: render v) :: renderMembers rest

end

/-! ## Lengths -/

def size (v : Value) : Nat := (render v).length

theorem utf8_length_of_lt {s : List Char} (h : ∀ c ∈ s, c.toNat < 128) : (utf8 s).length = s.length := by
  induction s with
  | nil => rfl
  | cons c s ih =>
      have hc : c.utf8Size = 1 := by
        have hlt := h c List.mem_cons_self
        unfold Char.utf8Size
        rw [if_pos]
        show c.toNat ≤ 127
        omega
      have hrest := ih fun d hd => h d (List.mem_cons_of_mem c hd)
      unfold utf8 at hrest ⊢
      rw [List.flatMap_cons, List.length_append, String.length_utf8EncodeChar, hc, hrest,
        List.length_cons]
      omega

theorem utf8_append (s t : List Char) : utf8 (s ++ t) = utf8 s ++ utf8 t := List.flatMap_append

/-- An ASCII text is its bytes. -/
theorem utf8_ascii {bs : Bytes} (h : ∀ b ∈ bs, b.toNat < 128) :
    utf8 (bs.map fun b => Char.ofNat b.toNat) = bs := by
  have hchar : ∀ n < 128, String.utf8EncodeChar (Char.ofNat n) = [UInt8.ofNat n] := by decide
  induction bs with
  | nil => rfl
  | cons b bs ih =>
      have hrest := ih fun d hd => h d (List.mem_cons_of_mem b hd)
      unfold utf8 at hrest ⊢
      rw [List.map_cons, List.flatMap_cons, hrest, hchar b.toNat (h b List.mem_cons_self)]
      simp

/-- No character takes more than six bytes. -/
theorem escape_length_le (c : Char) : (utf8 (escape c)).length ≤ 6 := by
  unfold escape
  split_ifs with h1 h2 h3 h4 h5 h6 h7 h8
  · decide
  · decide
  · decide
  · decide
  · decide
  · decide
  · decide
  · have hsmall : ∀ n < 32, (utf8 ['\\', 'u', '0', '0', (n / 16).digitChar, (n % 16).digitChar]).length ≤ 6 := by
      decide
    exact hsmall c.toNat h8
  · have hsize := c.utf8Size_le_four
    simp only [utf8, List.flatMap_cons, List.flatMap_nil, List.append_nil, String.length_utf8EncodeChar]
    omega

theorem quoted_length_le (s : List Char) : (quoted s).length ≤ 6 * s.length + 2 := by
  have h : (utf8 (s.flatMap escape)).length ≤ 6 * s.length := by
    induction s with
    | nil => simp [utf8]
    | cons c s ih =>
        have hc := escape_length_le c
        rw [List.flatMap_cons, utf8_append, List.length_append, List.length_cons]
        omega
  simp only [quoted, List.length_append, List.length_cons, List.length_nil]
  omega

theorem bracketed_length_le (first last : UInt8) (parts : List Bytes) :
    (bracketed first last parts).length ≤ 2 + (parts.map fun part => part.length + 1).sum := by
  have h : ([44].intercalate parts).length ≤ (parts.map fun part => part.length + 1).sum := by
    induction parts with
    | nil => simp
    | cons part parts ih =>
        cases parts with
        | nil => simp [List.intercalate]
        | cons next parts =>
            simp only [List.intercalate, List.intersperse_cons_cons, List.flatten_cons, List.length_append,
              List.map_cons, List.sum_cons, List.length_cons, List.length_nil] at ih ⊢
            omega
  simp only [bracketed, List.length_append, List.length_cons, List.length_nil]
  omega

theorem size_null : size .null = 4 := rfl

theorem size_bool_le (b : Bool) : size (.bool b) ≤ 5 := by
  cases b <;> decide

theorem size_number_le {n k : Nat} (hk : 0 < k) (h : n < 10 ^ k) : size (.number n) ≤ k := by
  have hascii : ∀ c ∈ Nat.toDigits 10 n, c.toNat < 128 := by
    intro c hc
    have hdigit := Nat.isDigit_of_mem_toDigits (by decide) (by decide) hc
    simp only [Char.isDigit, Bool.and_eq_true, decide_eq_true_eq] at hdigit
    have hle : c.toNat ≤ 57 := hdigit.2
    omega
  show (utf8 (Nat.toDigits 10 n)).length ≤ k
  rw [utf8_length_of_lt hascii]
  exact (Nat.length_toDigits_le_iff (by decide) hk).mpr h

theorem size_string_le (s : List Char) : size (.string s) ≤ 6 * s.length + 2 := quoted_length_le s

/-- A text of ASCII characters that are not escaped takes its characters and two quotes. -/
theorem size_string_plain {s : List Char} (h : ∀ c ∈ s, c.toNat < 128 ∧ escape c = [c]) :
    size (.string s) = s.length + 2 := by
  have hplain : s.flatMap escape = s := by
    induction s with
    | nil => rfl
    | cons c s ih =>
        rw [List.flatMap_cons, (h c List.mem_cons_self).2, ih fun d hd => h d (List.mem_cons_of_mem c hd)]
        rfl
  show (quoted s).length = s.length + 2
  rw [quoted, hplain, List.length_append, List.length_cons, utf8_length_of_lt fun c hc => (h c hc).1]
  rfl

theorem length_le_size_string (s : List Char) : s.length ≤ size (.string s) := by
  have hescape : ∀ c, 1 ≤ (utf8 (escape c)).length := by
    intro c
    have hne : escape c ≠ [] := by
      unfold escape
      split_ifs <;> simp
    cases he : escape c with
    | nil => exact (hne he).elim
    | cons d s =>
        have hd := d.utf8Size_pos
        rw [utf8, List.flatMap_cons, List.length_append, String.length_utf8EncodeChar]
        omega
  have h : s.length ≤ (utf8 (s.flatMap escape)).length := by
    induction s with
    | nil => simp
    | cons c s ih =>
        have hc := hescape c
        rw [List.flatMap_cons, utf8_append, List.length_append, List.length_cons]
        omega
  show s.length ≤ (quoted s).length
  simp only [quoted, List.length_append, List.length_cons, List.length_nil]
  omega

theorem length_le_bracketed (first last : UInt8) {parts : List Bytes} {part : Bytes} (h : part ∈ parts) :
    part.length ≤ (bracketed first last parts).length := by
  have hsub : part.Sublist ([44].intercalate parts) := by
    induction parts with
    | nil => cases h
    | cons head parts ih =>
        cases parts with
        | nil =>
            rcases List.mem_singleton.mp h with rfl
            simp [List.intercalate]
        | cons next parts =>
            rw [List.intercalate, List.intersperse_cons_cons, List.flatten_cons, List.flatten_cons]
            rcases List.mem_cons.mp h with rfl | hrest
            · exact List.sublist_append_left _ _
            · exact ((ih hrest).trans (List.sublist_append_right _ _)).trans
                (List.sublist_append_right _ _)
  have hlen := hsub.length_le
  simp only [bracketed, List.length_append, List.length_cons, List.length_nil]
  omega

/-- An object is no shorter than what it holds. -/
theorem size_le_object {members : List (String × Value)} {k : String} {v : Value}
    (h : (k, v) ∈ members) : size v ≤ size (.object members) := by
  have hmem : quoted k.toList ++ 58 :: render v ∈ renderMembers members := by
    induction members with
    | nil => cases h
    | cons m members ih =>
        rcases List.mem_cons.mp h with rfl | hrest
        · exact List.mem_cons_self
        · exact List.mem_cons_of_mem _ (ih hrest)
  have hlen := length_le_bracketed 123 125 hmem
  rw [List.length_append, List.length_cons] at hlen
  show (render v).length ≤ (bracketed 123 125 (renderMembers members)).length
  omega

theorem renderElements_eq (vs : List Value) : renderElements vs = vs.map render := by
  induction vs with
  | nil => rfl
  | cons v vs ih => rw [renderElements, ih, List.map_cons]

/-- An array of values none of which is longer than a bound. -/
theorem size_array_le {vs : List Value} {b : Nat} (h : ∀ v ∈ vs, size v ≤ b) :
    size (.array vs) ≤ 2 + vs.length * (b + 1) := by
  have hsum : ((renderElements vs).map fun part => part.length + 1).sum ≤ vs.length * (b + 1) := by
    rw [renderElements_eq]
    induction vs with
    | nil => simp
    | cons v vs ih =>
        have hv : (render v).length ≤ b := h v List.mem_cons_self
        have hvs := ih fun w hw => h w (List.mem_cons_of_mem v hw)
        rw [List.map_cons, List.map_cons, List.sum_cons, List.length_cons, Nat.succ_mul]
        omega
  have hbracketed := bracketed_length_le 91 93 (renderElements vs)
  show (bracketed 91 93 (renderElements vs)).length ≤ _
  omega

theorem size_array_three (u v w : Value) : size (.array [u, v, w]) ≤ 5 + size u + size v + size w := by
  have h := bracketed_length_le 91 93 (renderElements [u, v, w])
  simp only [renderElements, List.map_cons, List.map_nil, List.sum_cons, List.sum_nil] at h
  show (bracketed 91 93 (renderElements [u, v, w])).length ≤
    5 + (render u).length + (render v).length + (render w).length
  simp only [renderElements]
  omega

/-- An object with keys none of which is longer than a bound. -/
theorem size_object_le {members : List (String × Value)} {b : Nat}
    (h : ∀ m ∈ members, m.1.length ≤ b) :
    size (.object members) ≤ 2 + (members.map fun m => 6 * b + 4 + size m.2).sum := by
  have hsum : ((renderMembers members).map fun part => part.length + 1).sum ≤
      (members.map fun m => 6 * b + 4 + size m.2).sum := by
    induction members with
    | nil => simp [renderMembers]
    | cons m members ih =>
        rcases m with ⟨key, v⟩
        have hm : key.length ≤ b := h (key, v) List.mem_cons_self
        have hmembers := ih fun n hn => h n (List.mem_cons_of_mem (key, v) hn)
        have hkey := quoted_length_le key.toList
        rw [String.length_toList] at hkey
        rw [renderMembers, List.map_cons, List.map_cons, List.sum_cons, List.sum_cons,
          List.length_append, List.length_cons]
        show _ ≤ 6 * b + 4 + (render v).length + _
        omega
  have hbracketed := bracketed_length_le 123 125 (renderMembers members)
  show (bracketed 123 125 (renderMembers members)).length ≤ _
  omega

/-- An object with a bound for the value under each key. -/
theorem size_object_bounded {members : List (String × Value)} {b : Nat} {bounds : List Nat}
    (hkeys : ∀ m ∈ members, m.1.length ≤ b)
    (h : List.Forall₂ (fun m bound => size m.2 ≤ bound) members bounds) :
    size (.object members) ≤ 2 + (bounds.map (6 * b + 4 + ·)).sum := by
  have hsum : (members.map fun m => 6 * b + 4 + size m.2).sum ≤ (bounds.map (6 * b + 4 + ·)).sum := by
    clear hkeys
    induction h with
    | nil => exact Nat.le_refl _
    | cons hm _ ih =>
        rw [List.map_cons, List.map_cons, List.sum_cons, List.sum_cons]
        omega
  have hobject := size_object_le hkeys
  omega

theorem render_length (v : Value) : (render v).length = size v := rfl

attribute [irreducible] size

/-! ## Optional values -/

def option {α : Type} (write : α → Value) : Option α → Value
  | none => .null
  | some a => write a

theorem size_option_le {α : Type} {write : α → Value} {b : Nat} (hb : 4 ≤ b) {o : Option α}
    (h : ∀ a ∈ o, size (write a) ≤ b) : size (option write o) ≤ b := by
  cases o with
  | none =>
      show size .null ≤ b
      rw [size_null]
      exact hb
  | some a => exact h a rfl

/-! ## Reading -/

/-- The value under a key of an object. -/
def Value.member (key : String) : Value → Option Value
  | .object members => members.lookup key
  | _ => none

theorem member_bind {α : Type} {key : String} {v w : Value} {read : Value → Option α} {a : α}
    (hmember : v.member key = some w) (hread : read w = some a) :
    (v.member key).bind read = some a := by
  rw [hmember]
  exact hread

/-- The value under a key that may be missing or null. -/
def Value.optional {α : Type} (key : String) (read : Value → Option α) (v : Value) :
    Option (Option α) :=
  match v.member key with
  | none => some none
  | some .null => some none
  | some v => (read v).map some

/-- An optional value is read back from under its key. -/
theorem optional_option {α : Type} {key : String} {f : α → Value} {read : Value → Option α}
    {v : Value} {o : Option α} (hmember : v.member key = some (option f o))
    (hnull : ∀ a, f a ≠ .null) (hread : ∀ a ∈ o, read (f a) = some a) :
    v.optional key read = some o := by
  unfold Value.optional
  rw [hmember]
  cases o with
  | none => rfl
  | some a =>
      have hne := hnull a
      have ha := hread a rfl
      show (match some (f a) with
        | none => some none
        | some .null => some none
        | some v => (read v).map some) = some (some a)
      cases hw : f a <;> rw [hw] at hne ha
      · exact (hne rfl).elim
      all_goals exact congrArg (Option.map some) ha

/-- A value whose text is short enough and that is read back from it. -/
def Stored {ε α : Type} (write : α → Except ε Value) (read : Value → Option α) (b : Nat) (a : α) : Prop :=
  ∃ v, write a = .ok v ∧ size v ≤ b ∧ v ≠ .null ∧ read v = some a

theorem stored_option {ε α : Type} {write : α → Except ε Value} {read : Value → Option α} {b : Nat}
    (hb : 4 ≤ b) {o : Option α} (h : ∀ a ∈ o, Stored write read b a) :
    ∃ o', o.mapM write = .ok o' ∧ size (option id o') ≤ b ∧
      ∀ key (v : Value), v.member key = some (option id o') → v.optional key read = some o := by
  cases o with
  | none =>
      refine ⟨none, rfl, size_option_le hb (by simp), fun key v hmember => ?_⟩
      unfold Value.optional
      rw [hmember]
      rfl
  | some a =>
      obtain ⟨w, hw, hsize, hnull, hread⟩ := h a rfl
      refine ⟨some w, ?_, hsize, fun key v hmember => ?_⟩
      · show (write a >>= fun w => pure (some w)) = _
        rw [hw]
        rfl
      · exact optional_option (f := fun _ => w) (o := some a) hmember (fun _ => hnull)
          (fun c hc => by cases hc; exact hread)

def Value.readBool : Value → Option Bool
  | .bool b => some b
  | _ => none

def Value.readString : Value → Option (List Char)
  | .string s => some s
  | _ => none

/-- A number below a bound. -/
def Value.readNumber (bound : Nat) : Value → Option Nat
  | .number n => if n < bound then some n else none
  | _ => none

/-- A number below a bound, written as one or as a string of its digits. -/
def Value.readDecimal (bound : Nat) : Value → Option Nat
  | .string s =>
      if s ≠ [] ∧ (s.all Char.isDigit) ∧ Nat.ofDigitChars 10 s 0 < bound
      then some (Nat.ofDigitChars 10 s 0) else none
  | v => v.readNumber bound

def decimal (n : Nat) : Value := .string (Nat.toDigits 10 n)

theorem readDecimal_decimal {bound n : Nat} (h : n < bound) :
    (decimal n).readDecimal bound = some n := by
  have hvalue : Nat.ofDigitChars 10 (Nat.toDigits 10 n) 0 = n := by
    simp
  have hdigits : (Nat.toDigits 10 n).all Char.isDigit = true :=
    List.all_eq_true.mpr fun c hc => Nat.isDigit_of_mem_toDigits (by decide) (by decide) hc
  simp only [decimal, Value.readDecimal, hvalue]
  rw [if_pos ⟨Nat.toDigits_ne_nil, hdigits, h⟩]

theorem readNumber_number {bound n : Nat} (h : n < bound) :
    (Value.number n).readNumber bound = some n := if_pos h

theorem size_decimal_le {n k : Nat} (hk : 0 < k) (h : n < 10 ^ k) : size (decimal n) ≤ 6 * k + 2 := by
  have hlen := (Nat.length_toDigits_le_iff (by decide) hk).mpr h
  have hsize := size_string_le (Nat.toDigits 10 n)
  show size (.string (Nat.toDigits 10 n)) ≤ _
  omega

end Json
